import TbjitAlloc.FreeList.Shape

/-!
# The count of live chunks

The count in a retired segment's header and the chunks given back to it add up
to the chunks it was carved into.  Nothing is given back to a segment that is
not retired.  A sweep therefore reclaims drained segments only: a retired header
with a zero count has no chunk left to change anything.
-/

namespace TbjitAlloc.FreeList

open TbjitAlloc.ByteMemory
open TbjitAlloc.Carving
open TbjitAlloc.Codegen
open TbjitAlloc.Segment

/-- The segment a refill found drained and is retiring. -/
def AllocPc.retiring : AllocPc → Option ℕ
  | .harvest active | .retireCount active | .retireFlag active => some active
  | _ => none

/-- From the retirement of the newest segment on until the next one is named
in the list word. -/
def AllocPc.Replacing : AllocPc → Prop
  | .map | .register _ | .storeClass _ | .readSegs _ | .storeNext _ _
  | .storeSegs _ => True
  | _ => False

/-- The part of a header that the ledger is about. -/
def countsOf (header : SegmentHeader) : Bool × ℕ :=
  (header.retired, header.liveChunks)

/-- How many chunks have been given back to a segment. -/
def returnedCount (cfg : ListConfig) (place : ℕ → Place) (base : ℕ) : ℕ :=
  (pieces (payloadStart base) cfg.size (chunkCount cfg.layout cfg.size)).countP
    fun ptr => place ptr = .returned

/-- A sweep may reclaim the segment. -/
def Emptied (st : Machine) (base : ℕ) : Prop :=
  ∃ header, st.heap.header base = some header ∧ header.retired = true ∧
    header.liveChunks = 0

def SweepOk (st : Machine) : SweepPc → Prop
  | .idle => True
  | .scan _ _ selected => ∀ base ∈ selected, Emptied st base
  | .scanLive _ _ selected base =>
      (∀ other ∈ selected, Emptied st other) ∧
        ∃ header, st.heap.header base = some header ∧ header.retired = true
  | .scanGate _ _ selected base =>
      (∀ other ∈ selected, Emptied st other) ∧ Emptied st base
  | .reclaim selected => ∀ base ∈ selected, Emptied st base
  | .unmap base rest => Emptied st base ∧ ∀ other ∈ rest, Emptied st other
  | .mark base rest => Emptied st base ∧ ∀ other ∈ rest, Emptied st other

structure Ledger (cfg : ListConfig) (st : Machine) : Prop where
  retired : ∀ base header, st.heap.header base = some header →
    header.retired = true →
    header.liveChunks + returnedCount cfg st.place base =
      chunkCount cfg.layout cfg.size
  active : ∀ base header, st.heap.header base = some header →
    header.retired = false →
    ∀ ptr, segmentOf cfg.layout ptr = base → st.place ptr ≠ .returned
  counting : ∀ tid ptr, st.frees tid = some (.fetchSub ptr) →
    ∃ header, st.heap.header (segmentOf cfg.layout ptr) = some header ∧
      header.retired = true
  sweeping : ∀ id, SweepOk st (st.sweeps id)
  unmapped : ∀ base header, st.heap.header base = some header →
    st.heap.mapped base = false → Emptied st base

/-- The segment named by the list word, the one being retired and the one being
built are not retired. -/
structure Turnover (cfg : ListConfig) (st : Machine) : Prop where
  segs : ¬ st.alloc.Replacing →
    listSegs st.heap cfg.owner cfg.ref = 0 ∨
      ∃ header, st.heap.header (listSegs st.heap cfg.owner cfg.ref) =
        some header ∧ header.retired = false
  retiring : ∀ base, st.alloc.retiring = some base →
    ∃ header, st.heap.header base = some header ∧ header.retired = false ∧
      (st.alloc = .retireFlag base →
        header.liveChunks = chunkCount cfg.layout cfg.size)
  fresh : ∀ base, st.alloc.building = some base →
    ∃ header, st.heap.header base = some header ∧ header.retired = false

section Facts

variable {cfg : ListConfig} {st st' : Machine} {base : ℕ}

theorem ledger_initial (slotToSite : ℕ → ℕ) :
    Ledger cfg (.initial slotToSite) where
  retired := by simp [Machine.initial, Heap.empty]
  active := by simp [Machine.initial, Heap.empty]
  counting := by simp [Machine.initial]
  sweeping := fun _ => trivial
  unmapped := by simp [Machine.initial, Heap.empty]

theorem turnover_initial (slotToSite : ℕ → ℕ) :
    Turnover cfg (.initial slotToSite) where
  segs := by
    intro _
    left
    cases cfg.ref <;> simp [Machine.initial, Heap.empty, listSegs]
  retiring := by simp [Machine.initial, AllocPc.retiring]
  fresh := by simp [Machine.initial, AllocPc.building]

/-! ## Counting -/

theorem returnedCount_congr {place place' : ℕ → Place}
    (hplace : ∀ ptr, IsChunk cfg.layout base cfg.size ptr →
      (place' ptr = .returned ↔ place ptr = .returned)) :
    returnedCount cfg place' base = returnedCount cfg place base := by
  unfold returnedCount
  apply List.countP_congr
  intro ptr hptr
  simp [hplace ptr (mem_pieces_iff_isChunk.mp hptr)]

theorem returnedCount_eq_zero {place : ℕ → Place}
    (haligned : cfg.layout.segmentSize ∣ base)
    (hnone : ∀ ptr, segmentOf cfg.layout ptr = base → place ptr ≠ .returned) :
    returnedCount cfg place base = 0 := by
  unfold returnedCount
  rw [List.countP_eq_zero]
  intro ptr hptr
  have hchunk := mem_pieces_iff_isChunk.mp hptr
  simp [hnone ptr (hchunk.segmentOf_eq haligned)]

theorem returnedCount_eq_chunkCount {place : ℕ → Place}
    (hcount : returnedCount cfg place base = chunkCount cfg.layout cfg.size)
    {ptr : ℕ} (hptr : IsChunk cfg.layout base cfg.size ptr) :
    place ptr = .returned := by
  have hlength := length_pieces (payloadStart base) cfg.size
    (chunkCount cfg.layout cfg.size)
  unfold returnedCount at hcount
  have hall := List.countP_eq_length.mp (hcount.trans hlength.symm) ptr
    (mem_pieces_iff_isChunk.mpr hptr)
  simpa using hall

/-- One more chunk is given back. -/
theorem returnedCount_update {place : ℕ → Place} {ptr : ℕ}
    (hptr : IsChunk cfg.layout base cfg.size ptr)
    (hplace : place ptr ≠ .returned) :
    returnedCount cfg (Function.update place ptr .returned) base =
      returnedCount cfg place base + 1 := by
  have hnodup := pieces_nodup (payloadStart base) hptr.size_pos
    (chunkCount cfg.layout cfg.size)
  have hmem := mem_pieces_iff_isChunk.mpr hptr
  have hperm := List.perm_cons_erase hmem
  unfold returnedCount
  rw [hperm.countP_eq, hperm.countP_eq, List.countP_cons, List.countP_cons]
  have hrest : (List.erase (pieces (payloadStart base) cfg.size
        (chunkCount cfg.layout cfg.size)) ptr).countP
        (fun other => Function.update place ptr .returned other = .returned) =
      (List.erase (pieces (payloadStart base) cfg.size
        (chunkCount cfg.layout cfg.size)) ptr).countP
        (fun other => place other = .returned) := by
    apply List.countP_congr
    intro other hother
    have hne : other ≠ ptr := (hnodup.mem_erase_iff.mp hother).1
    simp [hne]
  simp [hrest, hplace]

/-- A zero count means that every chunk is back. -/
theorem Ledger.drained (hgeometry : Geometry cfg st) (hinv : Ledger cfg st)
    (hempty : Emptied st base) : Drained cfg st base := by
  obtain ⟨header, hheader, hretired, hlive⟩ := hempty
  have hcount := hinv.retired base header hheader hretired
  rw [hlive, Nat.zero_add] at hcount
  intro ptr hptr
  by_cases htracked : st.place ptr = .uncarved
  · exact Or.inl htracked
  · exact Or.inr (returnedCount_eq_chunkCount hcount
      (hptr ▸ hgeometry.isChunk htracked))

/-! ## Frames -/

/-- Where every retired header with a zero count has a counterpart. -/
theorem SweepOk.mono {pc : SweepPc} (hok : SweepOk st pc)
    (hempty : ∀ base, Emptied st base → Emptied st' base)
    (hretired : ∀ base header, st.heap.header base = some header →
      header.retired = true →
      ∃ header', st'.heap.header base = some header' ∧
        header'.retired = true) : SweepOk st' pc := by
  cases pc with
  | idle => trivial
  | scan i count selected => exact fun base hbase => hempty base (hok base hbase)
  | scanLive i count selected base =>
      obtain ⟨hselected, header, hheader, hflag⟩ := hok
      exact ⟨fun other hother => hempty other (hselected other hother),
        hretired base header hheader hflag⟩
  | scanGate i count selected base =>
      exact ⟨fun other hother => hempty other (hok.1 other hother),
        hempty base hok.2⟩
  | reclaim selected => exact fun base hbase => hempty base (hok base hbase)
  | unmap base rest =>
      exact ⟨hempty base hok.1, fun other hother => hempty other (hok.2 other hother)⟩
  | mark base rest =>
      exact ⟨hempty base hok.1, fun other hother => hempty other (hok.2 other hother)⟩

theorem Emptied.congr (hempty : Emptied st base)
    (hcounts : ∀ base, (st'.heap.header base).map countsOf =
      (st.heap.header base).map countsOf) : Emptied st' base := by
  obtain ⟨header, hheader, hretired, hlive⟩ := hempty
  obtain ⟨header', hheader', hview⟩ :=
    exists_of_map_eq (fun base => (hcounts base).symm) hheader
  simp only [countsOf, Prod.mk.injEq] at hview
  exact ⟨header', hheader', hview.1 ▸ hretired, hview.2 ▸ hlive⟩

/-- The ledger depends on the counts, on what is given back and on the calls
about to count. -/
theorem Ledger.congr (hinv : Ledger cfg st)
    (hcounts : ∀ base, (st'.heap.header base).map countsOf =
      (st.heap.header base).map countsOf)
    (hmapped : st'.heap.mapped = st.heap.mapped)
    (hreturned : ∀ ptr, st'.place ptr = .returned ↔ st.place ptr = .returned)
    (hcounting : ∀ tid ptr, st'.frees tid = some (.fetchSub ptr) →
      st.frees tid = some (.fetchSub ptr))
    (hsweeps : st'.sweeps = st.sweeps) : Ledger cfg st' where
  retired := by
    intro base header hheader hretired
    obtain ⟨other, hother, hview⟩ := exists_of_map_eq hcounts hheader
    simp only [countsOf, Prod.mk.injEq] at hview
    rw [hview.2, returnedCount_congr fun ptr _ => hreturned ptr]
    exact hinv.retired base other hother (hview.1 ▸ hretired)
  active := by
    intro base header hheader hactive ptr hptr
    obtain ⟨other, hother, hview⟩ := exists_of_map_eq hcounts hheader
    simp only [countsOf, Prod.mk.injEq] at hview
    rw [ne_eq, hreturned]
    exact hinv.active base other hother (hview.1 ▸ hactive) ptr hptr
  counting := by
    intro tid ptr hpc
    obtain ⟨header, hheader, hretired⟩ :=
      hinv.counting tid ptr (hcounting tid ptr hpc)
    obtain ⟨other, hother, hview⟩ :=
      exists_of_map_eq (fun base => (hcounts base).symm) hheader
    simp only [countsOf, Prod.mk.injEq] at hview
    exact ⟨other, hother, hview.1 ▸ hretired⟩
  sweeping := by
    intro id
    rw [hsweeps]
    refine (hinv.sweeping id).mono (fun base hbase => hbase.congr hcounts)
      fun base header hheader hretired => ?_
    obtain ⟨other, hother, hview⟩ :=
      exists_of_map_eq (fun base => (hcounts base).symm) hheader
    simp only [countsOf, Prod.mk.injEq] at hview
    exact ⟨other, hother, hview.1 ▸ hretired⟩
  unmapped := by
    intro base header hheader hunmapped
    obtain ⟨other, hother, -⟩ := exists_of_map_eq hcounts hheader
    rw [hmapped] at hunmapped
    exact (hinv.unmapped base other hother hunmapped).congr hcounts

/-- Headers that are not retired are found again. -/
theorem exists_active (hcounts : ∀ base, (st'.heap.header base).map countsOf =
      (st.heap.header base).map countsOf) (base : ℕ) (header : SegmentHeader)
    (hheader : st.heap.header base = some header)
    (hactive : header.retired = false) :
    ∃ other, st'.heap.header base = some other ∧ other.retired = false := by
  obtain ⟨other, hother, hview⟩ :=
    exists_of_map_eq (fun base => (hcounts base).symm) hheader
  simp only [countsOf, Prod.mk.injEq] at hview
  exact ⟨other, hother, hview.1 ▸ hactive⟩

/-- The list word still names a segment that is not retired. -/
theorem Turnover.named (hinv : Turnover cfg st)
    (hbefore : ¬ st.alloc.Replacing)
    (hsegs : listSegs st'.heap cfg.owner cfg.ref =
      listSegs st.heap cfg.owner cfg.ref)
    (hkeep : ∀ base header, st.heap.header base = some header →
      header.retired = false →
      ∃ other, st'.heap.header base = some other ∧ other.retired = false) :
    listSegs st'.heap cfg.owner cfg.ref = 0 ∨
      ∃ header, st'.heap.header (listSegs st'.heap cfg.owner cfg.ref) =
        some header ∧ header.retired = false := by
  rw [hsegs]
  rcases hinv.segs hbefore with hnull | ⟨header, hheader, hactive⟩
  · exact Or.inl hnull
  · exact Or.inr (hkeep _ header hheader hactive)

theorem Turnover.congr (hinv : Turnover cfg st)
    (hcounts : ∀ base, (st'.heap.header base).map countsOf =
      (st.heap.header base).map countsOf)
    (hsegs : listSegs st'.heap cfg.owner cfg.ref =
      listSegs st.heap cfg.owner cfg.ref)
    (halloc : st'.alloc = st.alloc) : Turnover cfg st' where
  segs := by
    intro hreplacing
    rw [halloc] at hreplacing
    exact hinv.named hreplacing hsegs (exists_active hcounts)
  retiring := by
    intro base hbase
    rw [halloc] at hbase ⊢
    obtain ⟨header, hheader, hactive, hlive⟩ := hinv.retiring base hbase
    obtain ⟨other, hother, hview⟩ :=
      exists_of_map_eq (fun base => (hcounts base).symm) hheader
    simp only [countsOf, Prod.mk.injEq] at hview
    exact ⟨other, hother, hview.1 ▸ hactive, hview.2 ▸ hlive⟩
  fresh := by
    intro base hbase
    rw [halloc] at hbase
    obtain ⟨header, hheader, hactive⟩ := hinv.fresh base hbase
    exact exists_active hcounts base header hheader hactive

end Facts

end TbjitAlloc.FreeList
