import TbjitAlloc.FreeList.Machine

/-!
# Which addresses are chunks

The headers of the list's segments name the list, and an address has a place
exactly when it is a chunk of a segment whose payload has been linked.  Every
step keeps this, whatever the parties do to the chunks.
-/

namespace TbjitAlloc.FreeList

open TbjitAlloc.ByteMemory
open TbjitAlloc.Carving
open TbjitAlloc.Codegen
open TbjitAlloc.Segment

/-- The segment whose chunks are not linked yet. -/
def AllocPc.building : AllocPc → Option ℕ
  | .register base | .storeClass base | .readSegs base | .storeNext base _
  | .storeSegs base | .carve base => some base
  | _ => none

/-- The segment whose class has still to be written. -/
def AllocPc.unclassed (ref : ListRef) : AllocPc → Option ℕ
  | .register base =>
      match ref with
      | .single _ => none
      | .sizeClass _ _ => some base
  | .storeClass base => some base
  | _ => none

/-- The part of a header that does not change once chunks are served. -/
def identityOf (header : SegmentHeader) : Strategy × ℕ × ℕ × ℕ × ℕ :=
  (header.strategy, header.slotIndex, header.ownerTid, header.chunkSize,
    header.classIdx)

/-- A store keeps what both headers agree on. -/
theorem map_storeHeader {α : Type*} (view : SegmentHeader → α) {heap : Heap}
    {base : ℕ} {before after : SegmentHeader}
    (hload : heap.loadHeader base = some before) (hview : view after = view before)
    (other : ℕ) :
    ((heap.storeHeader base after).header other).map view =
      (heap.header other).map view := by
  have hbefore := (loadHeader_eq_some.mp hload).2
  by_cases heq : other = base
  · subst heq
    simp [Heap.storeHeader, hbefore, hview]
  · simp [Heap.storeHeader, heq]

/-- Headers that agree on a view come in pairs. -/
theorem exists_of_map_eq {α : Type*} {view : SegmentHeader → α}
    {left right : ℕ → Option SegmentHeader}
    (hmap : ∀ base, (left base).map view = (right base).map view) {base : ℕ}
    {header : SegmentHeader} (hheader : left base = some header) :
    ∃ other, right base = some other ∧ view header = view other := by
  have heq := hmap base
  rw [hheader, Option.map_some, eq_comm, Option.map_eq_some_iff] at heq
  obtain ⟨other, hother, hview⟩ := heq
  exact ⟨other, hother, hview.symm⟩

theorem mem_pieces_iff_isChunk {layout : SegmentLayout} {base size ptr : ℕ} :
    ptr ∈ pieces (payloadStart base) size (chunkCount layout size) ↔
      IsChunk layout base size ptr := by
  rw [mem_pieces]
  constructor
  · rintro ⟨number, hnumber, heq⟩
    exact ⟨number, hnumber, heq.symm⟩
  · rintro ⟨number, hnumber, heq⟩
    exact ⟨number, hnumber, heq.symm⟩

structure Geometry (cfg : ListConfig) (st : Machine) : Prop where
  placed : ∀ base header, st.heap.header base = some header →
    base ≠ 0 ∧ cfg.layout.segmentSize ∣ base ∧
      base + cfg.layout.segmentSize < 2 ^ 47
  named : ∀ base header, st.heap.header base = some header →
    header.strategy = cfg.ref.strategy ∧ header.slotIndex = cfg.ref.slot ∧
      header.ownerTid = cfg.owner ∧ header.chunkSize = cfg.size
  classed : ∀ base header, st.heap.header base = some header →
    header.classIdx = cfg.ref.classIdx ∨
      st.alloc.unclassed cfg.ref = some base
  built : ∀ base, st.alloc.building = some base →
    ∃ header, st.heap.header base = some header
  carved : ∀ ptr, st.place ptr ≠ .uncarved ↔
    (∃ header, st.heap.header (segmentOf cfg.layout ptr) = some header) ∧
      st.alloc.building ≠ some (segmentOf cfg.layout ptr) ∧
      IsChunk cfg.layout (segmentOf cfg.layout ptr) cfg.size ptr

section Facts

variable {cfg : ListConfig} {st st' : Machine}

theorem geometry_initial (slotToSite : ℕ → ℕ) :
    Geometry cfg (.initial slotToSite) where
  placed := by simp [Machine.initial, Heap.empty]
  named := by simp [Machine.initial, Heap.empty]
  classed := by simp [Machine.initial, Heap.empty]
  built := by simp [Machine.initial, AllocPc.building]
  carved := by simp [Machine.initial, Heap.empty]

theorem unclassed_building {ref : ListRef} {pc : AllocPc} {base : ℕ}
    (hunclassed : pc.unclassed ref = some base) : pc.building = some base := by
  cases pc with
  | register other =>
      cases ref <;> simp_all [AllocPc.unclassed, AllocPc.building]
  | storeClass other => exact hunclassed
  | _ => simp [AllocPc.unclassed] at hunclassed

section Chunks

variable {ptr : ℕ}

theorem Geometry.isChunk (hinv : Geometry cfg st)
    (hptr : st.place ptr ≠ .uncarved) :
    IsChunk cfg.layout (segmentOf cfg.layout ptr) cfg.size ptr :=
  ((hinv.carved ptr).mp hptr).2.2

theorem Geometry.header (hinv : Geometry cfg st)
    (hptr : st.place ptr ≠ .uncarved) :
    ∃ header, st.heap.header (segmentOf cfg.layout ptr) = some header :=
  ((hinv.carved ptr).mp hptr).1

/-- No chunk lies in a fresh segment. -/
theorem Geometry.segment_ne (hinv : Geometry cfg st) {base : ℕ}
    (hfresh : Fresh cfg.layout st.heap base)
    (hptr : st.place ptr ≠ .uncarved) : segmentOf cfg.layout ptr ≠ base := by
  obtain ⟨header, hheader⟩ := hinv.header hptr
  exact hfresh.ne hheader

theorem Geometry.ptr_lt (hinv : Geometry cfg st)
    (hptr : st.place ptr ≠ .uncarved) : ptr < 2 ^ 64 := by
  obtain ⟨header, hheader⟩ := hinv.header hptr
  have hplaced := (hinv.placed _ header hheader).2.2
  have hinside := (hinv.isChunk hptr).inside.2
  have hsize := (hinv.isChunk hptr).size_pos
  unfold segmentEnd at hinside
  omega

/-- Two places do not overlap. -/
theorem Geometry.disjoint (hinv : Geometry cfg st) {other : ℕ}
    (hptr : st.place ptr ≠ .uncarved) (hother : st.place other ≠ .uncarved)
    (hne : ptr ≠ other) : Carving.Disjoint ptr cfg.size other cfg.size := by
  have hleft := hinv.isChunk hptr
  have hright := hinv.isChunk hother
  by_cases heq : segmentOf cfg.layout ptr = segmentOf cfg.layout other
  · exact hleft.disjoint (heq ▸ hright) hne
  · exact hleft.disjoint_of_ne hright (dvd_segmentOf _) (dvd_segmentOf _) heq

/-- Bytes written inside one chunk leave the link of every other alone. -/
theorem Geometry.readWord_eq (hinv : Geometry cfg st) {node : ℕ}
    {memory : Memory} (hptr : st.place ptr ≠ .uncarved)
    (hnode : st.place node ≠ .uncarved) (hne : node ≠ ptr)
    (hmemory : ∀ address, address < ptr ∨ ptr + cfg.size ≤ address →
      memory address = st.heap.memory address) :
    readWord memory node = readWord st.heap.memory node := by
  have hdisjoint := hinv.disjoint hnode hptr hne
  have hroom := cfg.size_ge
  unfold pointerSize at hroom
  apply readWord_congr
  intro address hlow hhigh
  apply hmemory
  rcases hdisjoint with h | h <;> omega

/-- The header of a chunk's segment names the list. -/
theorem Geometry.listOf_eq (hinv : Geometry cfg st) {header : SegmentHeader}
    (hptr : st.place ptr ≠ .uncarved)
    (hheader : st.heap.header (segmentOf cfg.layout ptr) = some header) :
    listOf header = some cfg.ref := by
  obtain ⟨hstrategy, hslot, _, _⟩ := hinv.named _ header hheader
  have hclass : header.classIdx = cfg.ref.classIdx := by
    refine (hinv.classed _ header hheader).resolve_right fun hunclassed => ?_
    exact ((hinv.carved ptr).mp hptr).2.1 (unclassed_building hunclassed)
  unfold listOf
  cases href : cfg.ref with
  | single slot =>
      rw [href] at hstrategy hslot
      simp [hstrategy, hslot, ListRef.strategy, ListRef.slot]
  | sizeClass slot classIdx =>
      rw [href] at hstrategy hslot hclass
      simp [hstrategy, hslot, hclass, ListRef.strategy, ListRef.slot,
        ListRef.classIdx]

end Chunks

/-! ## Steps -/

/-- Only the identity of headers and the tracked addresses matter. -/
theorem Geometry.congr (hinv : Geometry cfg st)
    (hheader : ∀ base, (st'.heap.header base).map identityOf =
      (st.heap.header base).map identityOf)
    (hbuilding : st'.alloc.building = st.alloc.building)
    (hunclassed : st'.alloc.unclassed cfg.ref = st.alloc.unclassed cfg.ref)
    (hplace : ∀ ptr, st'.place ptr = .uncarved ↔ st.place ptr = .uncarved) :
    Geometry cfg st' where
  placed := by
    intro base header hbase
    obtain ⟨other, hother, _⟩ := exists_of_map_eq hheader hbase
    exact hinv.placed base other hother
  named := by
    intro base header hbase
    obtain ⟨other, hother, hview⟩ := exists_of_map_eq hheader hbase
    simp only [identityOf, Prod.mk.injEq] at hview
    rw [hview.1, hview.2.1, hview.2.2.1, hview.2.2.2.1]
    exact hinv.named base other hother
  classed := by
    intro base header hbase
    obtain ⟨other, hother, hview⟩ := exists_of_map_eq hheader hbase
    simp only [identityOf, Prod.mk.injEq] at hview
    rw [hview.2.2.2.2, hunclassed]
    exact hinv.classed base other hother
  built := by
    intro base hbase
    rw [hbuilding] at hbase
    obtain ⟨header, hother⟩ := hinv.built base hbase
    obtain ⟨other, hnew, _⟩ :=
      exists_of_map_eq (fun base => (hheader base).symm) hother
    exact ⟨other, hnew⟩
  carved := by
    intro ptr
    rw [ne_eq, hplace, ← ne_eq, hinv.carved, hbuilding]
    constructor
    · rintro ⟨⟨header, hother⟩, hrest⟩
      obtain ⟨other, hnew, _⟩ :=
        exists_of_map_eq (fun base => (hheader base).symm) hother
      exact ⟨⟨other, hnew⟩, hrest⟩
    · rintro ⟨⟨header, hnew⟩, hrest⟩
      obtain ⟨other, hother, _⟩ := exists_of_map_eq hheader hnew
      exact ⟨⟨other, hother⟩, hrest⟩

/-- A chunk changes its place. -/
theorem update_uncarved {place : ℕ → Place} {ptr : ℕ} {target : Place}
    (hptr : place ptr ≠ .uncarved) (htarget : target ≠ .uncarved) (other : ℕ) :
    Function.update place ptr target other = .uncarved ↔
      place other = .uncarved := by
  by_cases heq : other = ptr
  · subst heq
    simp [hptr, htarget]
  · simp [heq]

end Facts

end TbjitAlloc.FreeList
