import TbjitAlloc.Core.Carving
import TbjitAlloc.Segment.Heap

/-!
# What the segment operations change

Chunk addresses, the well-formedness of the segment registry, and for every
operation of the registry the part of the heap it leaves alone.  The reaper is
described by one relation: a sweep touches nothing but retired segments.
-/

namespace TbjitAlloc.Segment

open TbjitAlloc.ByteMemory
open TbjitAlloc.Carving

variable {layout : SegmentLayout}

/-! ## Chunk addresses -/

/-- The address of a chunk carved from the segment at `base`. -/
def IsChunk (layout : SegmentLayout) (base size ptr : ℕ) : Prop :=
  ∃ number < chunkCount layout size,
    ptr = piece (payloadStart base) size number

section Chunks

variable {base size ptr : ℕ}

theorem IsChunk.size_pos (hchunk : IsChunk layout base size ptr) :
    0 < size := by
  obtain ⟨number, hnumber, _⟩ := hchunk
  by_contra hzero
  simp [chunkCount, Nat.eq_zero_of_not_pos hzero] at hnumber

theorem isChunk_iff (hsize : 0 < size) :
    IsChunk layout base size ptr ↔
      ∃ number, ptr = piece (payloadStart base) size number ∧
        ptr + size ≤ segmentEnd layout base := by
  have hge := segmentSize_ge layout
  have hend : segmentEnd layout base =
      payloadStart base + (layout.segmentSize - headerSize) := by
    unfold segmentEnd payloadStart headerSize
    omega
  constructor
  · rintro ⟨number, hnumber, rfl⟩
    refine ⟨number, rfl, ?_⟩
    rw [hend, piece_add_le_iff hsize]
    exact hnumber
  · rintro ⟨number, rfl, hfits⟩
    refine ⟨number, ?_, rfl⟩
    rw [hend, piece_add_le_iff hsize] at hfits
    exact hfits

theorem IsChunk.inside (hchunk : IsChunk layout base size ptr) :
    payloadStart base ≤ ptr ∧ ptr + size ≤ segmentEnd layout base := by
  obtain ⟨number, hptr, hfits⟩ := (isChunk_iff hchunk.size_pos).mp hchunk
  exact ⟨hptr ▸ start_le_piece _ _ _, hfits⟩

theorem IsChunk.base_lt (hchunk : IsChunk layout base size ptr) :
    base < ptr := by
  have hinside := hchunk.inside.1
  unfold payloadStart headerSize at hinside
  omega

theorem IsChunk.ne_zero (hchunk : IsChunk layout base size ptr) : ptr ≠ 0 := by
  have := hchunk.base_lt
  omega

theorem IsChunk.segmentOf_eq (hchunk : IsChunk layout base size ptr)
    (hbase : layout.segmentSize ∣ base) : segmentOf layout ptr = base := by
  have hinside := hchunk.inside
  have hlow := hchunk.base_lt
  have hsize := hchunk.size_pos
  exact Segment.segmentOf_eq hbase hlow.le (by omega)

/-- Chunks of one segment do not overlap. -/
theorem IsChunk.disjoint {other : ℕ} (hchunk : IsChunk layout base size ptr)
    (hother : IsChunk layout base size other) (hne : ptr ≠ other) :
    Disjoint ptr size other size := by
  obtain ⟨left, _, rfl⟩ := hchunk
  obtain ⟨right, _, rfl⟩ := hother
  exact piece_disjoint _ _ fun heq => hne (heq ▸ rfl)

/-- Chunks of different segments do not overlap, whatever their sizes. -/
theorem IsChunk.disjoint_of_ne {otherBase otherSize other : ℕ}
    (hchunk : IsChunk layout base size ptr)
    (hother : IsChunk layout otherBase otherSize other)
    (hbase : layout.segmentSize ∣ base)
    (hotherBase : layout.segmentSize ∣ otherBase) (hne : base ≠ otherBase) :
    Disjoint ptr size other otherSize := by
  have hleft := hchunk.inside
  have hright := hother.inside
  have hleftLow := hchunk.base_lt
  have hrightLow := hother.base_lt
  rcases segment_disjoint hbase hotherBase hne with h | h
  · exact Or.inl (by omega)
  · exact Or.inr (by omega)

/-- The word a chunk starts with lies outside every other segment. -/
theorem IsChunk.readWord_congr {other : ℕ} {left right : Memory}
    (hchunk : IsChunk layout (segmentOf layout ptr) size ptr)
    (hroom : 8 ≤ size) (hother : layout.segmentSize ∣ other)
    (hne : segmentOf layout ptr ≠ other)
    (hmemory : ∀ address, address < other ∨ segmentEnd layout other ≤ address →
      left address = right address) :
    readWord left ptr = readWord right ptr := by
  have hinside := hchunk.inside
  have hlow := hchunk.base_lt
  refine ByteMemory.readWord_congr fun address hge hlt => hmemory address ?_
  rcases segment_disjoint (dvd_segmentOf ptr) hother hne with h | h
  · exact Or.inl (by omega)
  · exact Or.inr (by omega)

end Chunks

/-! ## The registry -/

/-- The registry agrees with what is mapped, and segments lie where `mmap` puts
them. -/
structure RegistryOk (layout : SegmentLayout) (heap : Heap) : Prop where
  placed : ∀ base header, heap.header base = some header →
    base ≠ 0 ∧ layout.segmentSize ∣ base ∧ base + layout.segmentSize < 2 ^ 47
  recorded : ∀ base, heap.mapped base = true → heap.header base ≠ none
  managed : ∀ base, layout.segmentSize ∣ base →
    heap.pagemap (base / layout.segmentSize) = heap.mapped base

theorem registryOk_empty (slotToSite : ℕ → ℕ) :
    RegistryOk layout { Heap.empty with slotToSite := slotToSite } where
  placed := by simp [Heap.empty]
  recorded := by simp [Heap.empty]
  managed := by simp [Heap.empty]

theorem RegistryOk.isManaged_iff {heap : Heap} (hok : RegistryOk layout heap)
    {base : ℕ} (hbase : layout.segmentSize ∣ base) :
    isManaged layout heap base = true ↔ heap.mapped base = true := by
  rw [isManaged, hok.managed base hbase, Bool.and_eq_true]
  refine ⟨fun h => h.2, fun hmapped => ⟨?_, hmapped⟩⟩
  obtain ⟨header, hheader⟩ :=
    Option.ne_none_iff_exists'.mp (hok.recorded base hmapped)
  simpa using (hok.placed base header hheader).1

theorem loadHeader_eq_some {heap : Heap} {base : ℕ} {header : SegmentHeader} :
    heap.loadHeader base = some header ↔
      heap.mapped base = true ∧ heap.header base = some header := by
  unfold Heap.loadHeader
  by_cases hmapped : heap.mapped base <;> simp [hmapped]

theorem storeHeader_eq_some {heap : Heap} {base other : ℕ} {after header : SegmentHeader} :
    (heap.storeHeader base after).header other = some header ↔
      (other = base ∧ header = after) ∨
        (other ≠ base ∧ heap.header other = some header) := by
  by_cases heq : other = base <;>
    simp [Heap.storeHeader, heq, eq_comm]

theorem loadHeader_storeHeader {heap : Heap} {base : ℕ} {after : SegmentHeader}
    {log : ℕ → List ℕ} (hmapped : heap.mapped base = true) :
    Heap.loadHeader { heap.storeHeader base after with remoteLog := log } base =
      some after := by
  simp [Heap.loadHeader, Heap.storeHeader, hmapped]

theorem storeHeader_storeHeader {heap : Heap} {base : ℕ}
    {first second : SegmentHeader} {log : ℕ → List ℕ} :
    Heap.storeHeader { heap.storeHeader base first with remoteLog := log } base
      second = { heap.storeHeader base second with remoteLog := log } := by
  simp [Heap.storeHeader]

/-- The registry only depends on which headers exist and on the two maps. -/
theorem RegistryOk.congr {heap heap' : Heap} (hok : RegistryOk layout heap)
    (hheader : ∀ base, heap'.header base = none → heap.header base = none)
    (hheader' : ∀ base, heap.header base = none → heap'.header base = none)
    (hmapped : heap'.mapped = heap.mapped)
    (hpagemap : heap'.pagemap = heap.pagemap) : RegistryOk layout heap' where
  placed := by
    intro base header hbase
    cases hbefore : heap.header base with
    | none => simp [hheader' base hbefore] at hbase
    | some before => exact hok.placed base before hbefore
  recorded := fun base hbase hnone =>
    hok.recorded base (hmapped ▸ hbase) (hheader base hnone)
  managed := by
    intro base hbase
    rw [hpagemap, hmapped]
    exact hok.managed base hbase

theorem RegistryOk.storeHeader {heap : Heap} (hok : RegistryOk layout heap)
    {base : ℕ} {before : SegmentHeader} (after : SegmentHeader)
    (hbefore : heap.header base = some before) :
    RegistryOk layout (heap.storeHeader base after) := by
  refine hok.congr (fun other hother => ?_) (fun other hother => ?_) rfl rfl
  · by_cases heq : other = base
    · simp [Heap.storeHeader, heq] at hother
    · simpa [Heap.storeHeader, heq] using hother
  · have hne : other ≠ base := fun heq => by simp [heq, hbefore] at hother
    simpa [Heap.storeHeader, hne] using hother

private theorem div_ne_of_ne {left right : ℕ}
    (hleft : layout.segmentSize ∣ left) (hright : layout.segmentSize ∣ right)
    (hne : left ≠ right) :
    left / layout.segmentSize ≠ right / layout.segmentSize :=
  fun heq => hne ((Nat.div_left_inj hleft hright).mp heq)

/-- Mapping a fresh segment keeps the registry in order. -/
theorem RegistryOk.allocSegment {heap : Heap} (hok : RegistryOk layout heap)
    {tid slot site chunkSize base : ℕ} {strategy : Strategy}
    (hfresh : Fresh layout heap base) :
    RegistryOk layout
      (allocSegment layout heap tid strategy slot site chunkSize base) where
  placed := by
    intro other header hheader
    by_cases heq : other = base
    · exact heq ▸ ⟨hfresh.1, hfresh.2.1, hfresh.2.2.1⟩
    · simp only [Segment.allocSegment, registerSegment,
        Function.update_of_ne heq] at hheader
      exact hok.placed other header hheader
  recorded := by
    intro other hmapped
    by_cases heq : other = base
    · simp [Segment.allocSegment, registerSegment, heq]
    · simp only [Segment.allocSegment, registerSegment,
        Function.update_of_ne heq] at hmapped ⊢
      exact hok.recorded other hmapped
  managed := by
    intro other hother
    by_cases heq : other = base
    · simp [Segment.allocSegment, registerSegment, heq]
    · simp only [Segment.allocSegment, registerSegment,
        Function.update_of_ne heq,
        Function.update_of_ne (div_ne_of_ne hother hfresh.2.1 heq)]
      exact hok.managed other hother

/-- A chain of addresses is returned by the walk: it has no more links than
there are addresses. -/
theorem walkChain_of_chain {memory : Memory} {head : ℕ} {nodes : List ℕ}
    (hchain : LinkedChain.Chain 0 (readWord memory) head nodes)
    (hbound : ∀ node ∈ nodes, node < 2 ^ 64) :
    walkChain memory head = some nodes := by
  have hlength : nodes.length ≤ 2 ^ 64 := by
    have hsub : nodes.toFinset ⊆ Finset.range (2 ^ 64) := by
      intro node hnode
      exact Finset.mem_range.mpr (hbound node (List.mem_toFinset.mp hnode))
    have hcard := Finset.card_le_card hsub
    rwa [List.toFinset_card_of_nodup hchain.nodup, Finset.card_range] at hcard
  exact hchain.walk_eq hlength

/-! ## The reaper -/

/-- What a sweep may change: the decommitted mark, the mapping and the bytes of
retired segments. -/
structure SweepFrame (layout : SegmentLayout) (before after : Heap) : Prop where
  header_none : ∀ base, before.header base = none → after.header base = none
  header_some : ∀ base header, before.header base = some header →
    ∃ decommitted, after.header base =
      some { header with decommitted := decommitted }
  active : ∀ base header, before.header base = some header →
    header.retired = false → after.header base = some header ∧
      after.mapped base = before.mapped base
  bytes : ∀ address,
    (∀ base header, before.header base = some header →
      header.retired = true →
      address < base ∨ segmentEnd layout base ≤ address) →
    after.memory address = before.memory address
  bumps : after.bumps = before.bumps
  freelists : after.freelists = before.freelists
  arenas : after.arenas = before.arenas
  multiFreelists : after.multiFreelists = before.multiFreelists
  slotToSite : after.slotToSite = before.slotToSite
  remoteLog : after.remoteLog = before.remoteLog

theorem SweepFrame.refl (heap : Heap) : SweepFrame layout heap heap where
  header_none := fun _ h => h
  header_some := fun _ header h => ⟨header.decommitted, h⟩
  active := fun _ _ h _ => ⟨h, rfl⟩
  bytes := fun _ _ => rfl
  bumps := rfl
  freelists := rfl
  arenas := rfl
  multiFreelists := rfl
  slotToSite := rfl
  remoteLog := rfl

theorem SweepFrame.trans {first second third : Heap}
    (hleft : SweepFrame layout first second)
    (hright : SweepFrame layout second third) :
    SweepFrame layout first third where
  header_none := fun base h => hright.header_none base (hleft.header_none base h)
  header_some := by
    intro base header hheader
    obtain ⟨_, hsecond⟩ := hleft.header_some base header hheader
    obtain ⟨decommitted, hthird⟩ := hright.header_some base _ hsecond
    exact ⟨decommitted, hthird⟩
  active := by
    intro base header hheader hactive
    obtain ⟨hsecond, hmapped⟩ := hleft.active base header hheader hactive
    obtain ⟨hthird, hmapped'⟩ := hright.active base header hsecond hactive
    exact ⟨hthird, hmapped'.trans hmapped⟩
  bytes := by
    intro address houtside
    rw [hright.bytes address ?_, hleft.bytes address houtside]
    intro base header hheader hretired
    -- A header of the middle heap differs from the first one's in its mark only.
    cases hfirst : first.header base with
    | none =>
        rw [hleft.header_none base hfirst] at hheader
        exact absurd hheader (by simp)
    | some original =>
        obtain ⟨_, hsecond⟩ := hleft.header_some base original hfirst
        rw [hsecond] at hheader
        obtain rfl := Option.some.inj hheader
        exact houtside base original hfirst hretired
  bumps := hright.bumps.trans hleft.bumps
  freelists := hright.freelists.trans hleft.freelists
  arenas := hright.arenas.trans hleft.arenas
  multiFreelists := hright.multiFreelists.trans hleft.multiFreelists
  slotToSite := hright.slotToSite.trans hleft.slotToSite
  remoteLog := hright.remoteLog.trans hleft.remoteLog

/-- A header after the sweep is an old one up to its mark. -/
theorem SweepFrame.past {before after : Heap}
    (hframe : SweepFrame layout before after) {base : ℕ}
    {header : SegmentHeader} (hheader : after.header base = some header) :
    ∃ header' decommitted, before.header base = some header' ∧
      header = { header' with decommitted := decommitted } := by
  cases hbefore : before.header base with
  | none => simp [hframe.header_none base hbefore] at hheader
  | some header' =>
      obtain ⟨decommitted, hafter⟩ := hframe.header_some base _ hbefore
      exact ⟨header', decommitted, rfl,
        Option.some.inj (hheader.symm.trans hafter)⟩

/-- An active header after the sweep is an old one. -/
theorem SweepFrame.pastActive {before after : Heap}
    (hframe : SweepFrame layout before after) {base : ℕ}
    {header : SegmentHeader} (hheader : after.header base = some header)
    (hactive : header.retired = false) :
    before.header base = some header ∧
      after.mapped base = before.mapped base := by
  obtain ⟨header', _, hbefore, rfl⟩ := hframe.past hheader
  obtain ⟨hafter, hmapped⟩ := hframe.active base header' hbefore hactive
  exact ⟨hbefore.trans (hafter.symm.trans hheader), hmapped⟩

/-- A word inside an active segment survives the sweep. -/
theorem SweepFrame.readWord_eq {before after : Heap}
    (hframe : SweepFrame layout before after)
    (hok : RegistryOk layout before) {base node : ℕ} {header : SegmentHeader}
    (hheader : before.header base = some header)
    (hactive : header.retired = false) (hlow : base ≤ node)
    (hhigh : node + 8 ≤ segmentEnd layout base) :
    readWord after.memory node = readWord before.memory node := by
  refine readWord_congr fun address hge hlt => hframe.bytes address ?_
  intro other header' hother hretired
  have hne : base ≠ other := by
    rintro rfl
    obtain rfl := Option.some.inj (hheader.symm.trans hother)
    simp [hactive] at hretired
  rcases segment_disjoint (hok.placed _ _ hheader).2.1
    (hok.placed _ _ hother).2.1 hne with h | h
  · exact Or.inl (by omega)
  · exact Or.inr (by omega)

theorem sweepFrame_decommitSegment {heap : Heap} {base pageSize : ℕ}
    (hretired : ∀ header, heap.header base = some header →
      header.retired = true) :
    SweepFrame layout heap (decommitSegment layout pageSize heap base) := by
  unfold decommitSegment
  split
  · exact .refl heap
  rename_i header hload
  obtain ⟨_, hheader⟩ := loadHeader_eq_some.mp hload
  split
  · exact .refl heap
  constructor <;> try rfl
  · intro other hnone
    have hne : other ≠ base := fun heq => by simp [heq, hheader] at hnone
    simpa [Heap.storeHeader, hne] using hnone
  · intro other header' hother
    by_cases heq : other = base
    · subst heq
      obtain rfl := Option.some.inj (hheader.symm.trans hother)
      exact ⟨true, by simp [Heap.storeHeader]⟩
    · exact ⟨header'.decommitted, by simpa [Heap.storeHeader, heq] using hother⟩
  · intro other header' hother hactive
    have hne : other ≠ base := by
      rintro rfl
      simp [hretired header' hother] at hactive
    exact ⟨by simpa [Heap.storeHeader, hne] using hother, rfl⟩
  · intro address houtside
    have hrange := houtside base header hheader (hretired header hheader)
    exact fill_outside _ (by omega)

theorem sweepFrame_freeSegment {heap : Heap} {base : ℕ}
    (hretired : ∀ header, heap.header base = some header →
      header.retired = true) :
    SweepFrame layout heap (freeSegment layout heap base) where
  header_none := fun _ h => h
  header_some := fun _ header h => ⟨header.decommitted, h⟩
  active := by
    intro other header hother hactive
    have hne : other ≠ base := by
      rintro rfl
      simp [hretired header hother] at hactive
    exact ⟨hother, by simp [freeSegment, unregisterSegment, hne]⟩
  bytes := fun _ _ => rfl
  bumps := rfl
  freelists := rfl
  arenas := rfl
  multiFreelists := rfl
  slotToSite := rfl
  remoteLog := rfl

theorem RegistryOk.decommitSegment {heap : Heap} (hok : RegistryOk layout heap)
    (pageSize base : ℕ) :
    RegistryOk layout (decommitSegment layout pageSize heap base) := by
  unfold Segment.decommitSegment
  split
  · exact hok
  rename_i header hload
  obtain ⟨_, hheader⟩ := loadHeader_eq_some.mp hload
  split
  · exact hok
  constructor
  · intro other header' hother
    by_cases heq : other = base
    · exact heq ▸ hok.placed base header hheader
    · exact hok.placed other header'
        (by simpa [Heap.storeHeader, heq] using hother)
  · intro other hmapped
    by_cases heq : other = base
    · simp [Heap.storeHeader, heq]
    · simpa [Heap.storeHeader, heq] using hok.recorded other hmapped
  · exact hok.managed

theorem RegistryOk.freeSegment {heap : Heap} (hok : RegistryOk layout heap)
    {base : ℕ} (hbase : layout.segmentSize ∣ base) :
    RegistryOk layout (freeSegment layout heap base) where
  placed := hok.placed
  recorded := by
    intro other hmapped
    by_cases heq : other = base
    · simp [Segment.freeSegment, heq] at hmapped
    · exact hok.recorded other
        (by simpa [Segment.freeSegment, unregisterSegment, heq] using hmapped)
  managed := by
    intro other hother
    by_cases heq : other = base
    · simp [Segment.freeSegment, unregisterSegment, heq]
    · simpa [Segment.freeSegment, unregisterSegment, heq,
        Function.update_of_ne (div_ne_of_ne hother hbase heq)] using
        hok.managed other hother

theorem eligible_retired {mode : ReapMode} {pred : Option (ℕ → Bool)}
    {header : SegmentHeader} (heligible : eligible mode pred header = true) :
    header.retired = true ∧ header.liveChunks = 0 := by
  simp only [eligible, Bool.and_eq_true, beq_iff_eq] at heligible
  exact heligible.1.1

theorem mem_eligibleSegments {mode : ReapMode} {pred : Option (ℕ → Bool)}
    {heap : Heap} {base : ℕ}
    (hmem : base ∈ eligibleSegments mode pred heap) :
    ∃ header, heap.mapped base = true ∧ heap.header base = some header ∧
      header.retired = true ∧ header.liveChunks = 0 := by
  simp only [eligibleSegments, List.mem_filter, Option.any_eq_true] at hmem
  obtain ⟨_, header, hload, heligible⟩ := hmem
  obtain ⟨hmapped, hheader⟩ := loadHeader_eq_some.mp hload
  obtain ⟨hretired, hlive⟩ := eligible_retired heligible
  exact ⟨header, hmapped, hheader, hretired, hlive⟩

/-- Reclaiming a list of retired segments stays inside the frame.  The segments
that come later in the list are still retired when their turn comes. -/
theorem sweepFrame_foldl (mode : ReapMode) (pageSize : ℕ) {heap : Heap}
    {bases : List ℕ} (hok : RegistryOk layout heap)
    (hretired : ∀ base ∈ bases, ∃ header, heap.header base = some header ∧
      header.retired = true) :
    SweepFrame layout heap
        (bases.foldl (reclaimSegment layout mode pageSize) heap) ∧
      RegistryOk layout
        (bases.foldl (reclaimSegment layout mode pageSize) heap) := by
  induction bases generalizing heap with
  | nil => exact ⟨.refl heap, hok⟩
  | cons base bases ih =>
      obtain ⟨header, hheader, hbaseRetired⟩ := hretired base List.mem_cons_self
      have hall : ∀ header', heap.header base = some header' →
          header'.retired = true := by
        intro header' hheader'
        exact Option.some.inj (hheader.symm.trans hheader') ▸ hbaseRetired
      have hstep : SweepFrame layout heap
            (reclaimSegment layout mode pageSize heap base) ∧
          RegistryOk layout
            (reclaimSegment layout mode pageSize heap base) := by
        unfold reclaimSegment
        split
        · exact ⟨sweepFrame_decommitSegment hall, hok.decommitSegment _ _⟩
        · exact ⟨sweepFrame_freeSegment hall,
            hok.freeSegment (hok.placed base header hheader).2.1⟩
      have hrest := ih hstep.2 (by
        intro other hother
        obtain ⟨original, horiginal, hretired'⟩ :=
          hretired other (List.mem_cons_of_mem _ hother)
        obtain ⟨_, hafter⟩ := hstep.1.header_some other original horiginal
        exact ⟨_, hafter, hretired'⟩)
      exact ⟨hstep.1.trans hrest.1, hrest.2⟩

/-- A sweep touches retired segments only. -/
theorem sweepFrame_reaperSweep (mode : ReapMode) (pred : Option (ℕ → Bool))
    (pageSize : ℕ) {heap : Heap} (hok : RegistryOk layout heap) :
    SweepFrame layout heap (reaperSweep layout mode pred pageSize heap).1 ∧
      RegistryOk layout (reaperSweep layout mode pred pageSize heap).1 := by
  refine sweepFrame_foldl mode pageSize hok fun base hbase => ?_
  obtain ⟨header, _, hheader, hretired, _⟩ := mem_eligibleSegments hbase
  exact ⟨header, hheader, hretired⟩

/-- Reclaiming one segment leaves the header and the mapping of the others. -/
theorem reclaimSegment_of_ne (mode : ReapMode) (pageSize : ℕ) {heap : Heap}
    {base other : ℕ} (hne : other ≠ base) :
    (reclaimSegment layout mode pageSize heap base).header other =
        heap.header other ∧
      (reclaimSegment layout mode pageSize heap base).mapped other =
        heap.mapped other := by
  unfold reclaimSegment
  split
  · unfold decommitSegment
    split
    · exact ⟨rfl, rfl⟩
    split
    · exact ⟨rfl, rfl⟩
    · exact ⟨Function.update_of_ne hne _ _, rfl⟩
  · exact ⟨rfl, Function.update_of_ne hne _ _⟩

/-- What a sweep does not select keeps its header and its mapping. -/
theorem foldl_reclaimSegment_of_not_mem (mode : ReapMode) (pageSize : ℕ)
    {heap : Heap} {bases : List ℕ} {other : ℕ} (hother : other ∉ bases) :
    (bases.foldl (reclaimSegment layout mode pageSize) heap).header other =
        heap.header other ∧
      (bases.foldl (reclaimSegment layout mode pageSize) heap).mapped other =
        heap.mapped other := by
  induction bases generalizing heap with
  | nil => exact ⟨rfl, rfl⟩
  | cons base bases ih =>
      rw [List.mem_cons, not_or] at hother
      obtain ⟨hheader, hmapped⟩ :=
        reclaimSegment_of_ne mode pageSize hother.1
      obtain ⟨hheader', hmapped'⟩ := ih hother.2
      exact ⟨hheader'.trans hheader, hmapped'.trans hmapped⟩

/-- A sweep reclaims a segment only if it is retired and its live count is
zero. -/
theorem reaperSweep_cases (mode : ReapMode) (pred : Option (ℕ → Bool))
    (pageSize : ℕ) (heap : Heap) (base : ℕ) :
    ((reaperSweep layout mode pred pageSize heap).1.header base =
        heap.header base ∧
      (reaperSweep layout mode pred pageSize heap).1.mapped base =
        heap.mapped base) ∨
    ∃ header, heap.header base = some header ∧ header.retired = true ∧
      header.liveChunks = 0 := by
  by_cases hmem : base ∈ eligibleSegments mode pred heap
  · obtain ⟨header, _, hheader, hretired, hlive⟩ := mem_eligibleSegments hmem
    exact Or.inr ⟨header, hheader, hretired, hlive⟩
  · exact Or.inl (foldl_reclaimSegment_of_not_mem mode pageSize hmem)

end TbjitAlloc.Segment
