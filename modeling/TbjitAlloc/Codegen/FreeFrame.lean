import TbjitAlloc.Codegen.ListInvariant
import TbjitAlloc.Codegen.PcInvariant

/-!
# The bytes a free may touch

A freed chunk of a queue or of a free list carries the link to the next one in
its first eight bytes.  `compile` makes sure that the free-list strategies have
room for it, but not that `ProducerConsumer` has.
-/

namespace TbjitAlloc.Codegen

open TbjitAlloc.ByteMemory
open TbjitAlloc.Carving
open TbjitAlloc.Segment

/-- In every reachable state a free of a held chunk, by any thread, changes no
byte outside the chunk and none of any other held chunk, and walking the remote
queue of an active segment visits the chunks pushed on it. -/
def FreeStaysInside (layout : SegmentLayout) (spec : RoutineSpec)
    (slot : ℕ) : Prop :=
  ∀ state, RoutineReachable layout spec slot state →
    (∀ chunk ∈ state.held, ∀ tid heap',
      freeManaged state.heap tid (segmentOf layout chunk.ptr) chunk.ptr =
        some heap' →
      (∀ address, address < chunk.ptr ∨ chunk.ptr + chunk.size ≤ address →
        heap'.memory address = state.heap.memory address) ∧
      ∀ other ∈ state.held.erase chunk,
        AgreeOn heap'.memory state.heap.memory other.ptr
          (other.ptr + other.size)) ∧
    ∀ base header, state.heap.loadHeader base = some header →
      header.retired = false →
      walkChain state.heap.memory header.remoteHead =
        some (state.heap.remoteLog base)

section Frames

variable {layout : SegmentLayout} {spec : RoutineSpec} {slot : ℕ}

/-- A change confined to one held chunk leaves the others alone. -/
theorem agreeOn_of_disjoint {memory memory' : Memory} {held : List Chunk}
    {chunk : Chunk} (hchunk : chunk ∈ held)
    (hnodup : (held.map Chunk.ptr).Nodup)
    (hdisjoint : ∀ other ∈ held, chunk.ptr ≠ other.ptr →
      Carving.Disjoint chunk.ptr chunk.size other.ptr other.size)
    (hframe : ∀ address,
      address < chunk.ptr ∨ chunk.ptr + chunk.size ≤ address →
      memory' address = memory address) :
    ∀ other ∈ held.erase chunk,
      AgreeOn memory' memory other.ptr (other.ptr + other.size) := by
  intro other hother address hlow hhigh
  have hperm := (List.perm_cons_erase hchunk).map Chunk.ptr
  have hnew := (List.nodup_cons.mp (hperm.nodup_iff.mp hnodup)).1
  have hne : chunk.ptr ≠ other.ptr := by
    intro heq
    exact hnew (heq ▸ List.mem_map_of_mem hother)
  refine hframe address ?_
  rcases hdisjoint other (List.mem_of_mem_erase hother) hne with h | h
  · exact Or.inr (by omega)
  · exact Or.inl (by omega)

/-- The link of a freed list chunk fits into the chunk. -/
theorem ListInv.freeManaged_frame {family : ListFamily} {heap heap' : Heap}
    {held : List Chunk} {place : ℕ → Place}
    (hinv : ListInv layout family heap held place none) {chunk : Chunk}
    (hchunk : chunk ∈ held) {tid : ℕ}
    (hfree : Codegen.freeManaged heap tid (segmentOf layout chunk.ptr)
      chunk.ptr = some heap') :
    ∀ address, address < chunk.ptr ∨ chunk.ptr + chunk.size ≤ address →
      heap'.memory address = heap.memory address := by
  obtain ⟨header, hheader, hsize⟩ := hinv.heldSize chunk hchunk
  obtain ⟨hstrategy, hslot, hclass, _⟩ := hinv.headers _ _ hheader
  have hroom := hinv.chunkSize_ge hheader
  rw [← hsize] at hroom
  unfold pointerSize at hroom
  intro address haddress
  cases hload : heap.loadHeader (segmentOf layout chunk.ptr) with
  | none => simp [Codegen.freeManaged, hload] at hfree
  | some header' =>
      obtain ⟨_, hheader'⟩ := loadHeader_eq_some.mp hload
      obtain rfl := Option.some.inj (hheader.symm.trans hheader')
      rw [freeManaged_of_ref (family.ref header.classIdx) hload
        (hstrategy.trans (family.ref_strategy _).symm)
        (hslot.trans (family.ref_slot _).symm)
        (family.ref_classIdx _ hclass).symm, freeToList] at hfree
      split at hfree
      · exact Option.some.inj hfree ▸ rfl
      split at hfree
      · rw [← Option.some.inj hfree, setListHead_memory]
        exact writeWord_outside _ _ (by omega)
      · rw [mpscPush, hload, Option.map_some, Option.some.injEq] at hfree
        rw [← hfree]
        exact writeWord_outside _ _ (by omega)

theorem PcInv.freeManaged_frame {heap heap' : Heap} {held : List Chunk}
    {handedOut : ℕ → ℕ}
    (hinv : PcInv layout spec slot heap held handedOut none)
    (hroom : pointerSize ≤ spec.size)
    {chunk : Chunk} (hchunk : chunk ∈ held) {tid : ℕ}
    (hfree : Codegen.freeManaged heap tid (segmentOf layout chunk.ptr)
      chunk.ptr = some heap') :
    ∀ address, address < chunk.ptr ∨ chunk.ptr + chunk.size ≤ address →
      heap'.memory address = heap.memory address := by
  obtain ⟨hchunkSize, base, hserved⟩ := hinv.heldServed chunk hchunk
  rw [← hchunkSize] at hroom
  unfold pointerSize at hroom
  intro address haddress
  cases hload : heap.loadHeader (segmentOf layout chunk.ptr) with
  | none => simp [Codegen.freeManaged, hload] at hfree
  | some header =>
      obtain ⟨_, hheader⟩ := loadHeader_eq_some.mp hload
      rw [freeManaged_of_producerConsumer hload
        (hinv.headers _ header hheader).1] at hfree
      split at hfree
      · exact Option.some.inj hfree ▸ rfl
      · rw [mpscPush, hload, Option.map_some, Option.some.injEq] at hfree
        rw [← hfree]
        exact writeWord_outside _ _ (by omega)

end Frames

/-! ## When frees stay inside their chunks -/

section Main

variable {layout : SegmentLayout} {spec : RoutineSpec} {slot : ℕ}

theorem freeStaysInside_list {family : ListFamily}
    (hfamily : FamilyOf spec slot family) :
    FreeStaysInside layout spec slot := by
  intro state hreach
  obtain ⟨place, hinv⟩ := listOk_reachable hfamily hreach
  refine ⟨fun chunk hchunk tid heap' hfree => ?_, ?_⟩
  · have hframe := hinv.freeManaged_frame hchunk hfree
    exact ⟨hframe, agreeOn_of_disjoint hchunk hinv.heldNodup
      (fun other hother hne => hinv.held_disjoint hchunk hother hne) hframe⟩
  · intro base header hload hactive
    obtain ⟨_, hheader⟩ := loadHeader_eq_some.mp hload
    obtain ⟨hchain, hnodes⟩ := hinv.remoteChain base header hheader hactive
    exact walkChain_of_chain hchain fun node hnode =>
      hinv.ptr_lt (by simp [hnodes node hnode])

theorem freeStaysInside_producerConsumer
    (hstrategy : spec.strategy = .producerConsumer)
    (haccepts : compileAccepts spec) (hroom : pointerSize ≤ spec.size) :
    FreeStaysInside layout spec slot := by
  have hpos := Nat.pos_of_ne_zero haccepts.1
  have hsize : spec.size < 4096 := haccepts.2.1
  intro state hreach
  have hinv : PcInv layout spec slot state.heap state.held state.handedOut
    none := pcOk_reachable hstrategy hpos hsize hreach
  refine ⟨fun chunk hchunk tid heap' hfree => ?_, ?_⟩
  · have hframe := hinv.freeManaged_frame hroom hchunk hfree
    exact ⟨hframe, agreeOn_of_disjoint hchunk hinv.heldNodup
      (fun other hother hne => hinv.held_disjoint hsize hchunk hother hne)
      hframe⟩
  · intro base header hload hactive
    obtain ⟨_, hheader⟩ := loadHeader_eq_some.mp hload
    refine walkChain_of_chain
      (hinv.remoteChain hroom base header hheader hactive) fun node hnode => ?_
    exact (hinv.ptr_lt hsize
      (hinv.remoteServed base header hheader hactive node hnode).1).2

theorem freeStaysInside_cursor (hstrategy : IsCursor spec.strategy)
    (haccepts : compileAccepts spec) : FreeStaysInside layout spec slot := by
  have hsize : spec.size < 4096 := haccepts.2.1
  intro state hreach
  have hinv : CursorInv layout spec slot state.heap state.held :=
    cursorOk_reachable hstrategy hsize hreach
  refine ⟨fun chunk hchunk tid heap' hfree => ?_, ?_⟩
  · obtain ⟨_, hmemory⟩ := hinv.freeManaged hstrategy hsize hchunk hfree
    exact ⟨fun _ _ => hmemory ▸ rfl, fun _ _ _ _ _ => hmemory ▸ rfl⟩
  · intro base header hload _
    obtain ⟨_, hheader⟩ := loadHeader_eq_some.mp hload
    obtain ⟨_, _, _, _, hremote, hlog⟩ := hinv.headers base header hheader
    rw [hremote, hlog]
    exact walkChain_of_chain (LinkedChain.chain_nil.mpr rfl) (by simp)

/-- Two chunks are served, the client of the second stores a one in its first
byte, and the first is freed: its link covers that byte. -/
theorem not_freeStaysInside (layout : SegmentLayout) (slot : ℕ)
    (hstrategy : spec.strategy = .producerConsumer)
    (haccepts : compileAccepts spec) (hsmall : spec.size < pointerSize) :
    ¬ FreeStaysInside layout spec slot := by
  intro hstays
  have hpos := Nat.pos_of_ne_zero haccepts.1
  have hge := segmentSize_ge layout
  unfold pointerSize at hsmall
  have hfits : headerSize + 2 * spec.size < layout.segmentSize := by
    unfold headerSize
    omega
  obtain ⟨heap, handedOut, header, hreach, hload, hheader, hactive, hremote⟩ :=
    reachable_twoServed slot (Or.inr (Or.inr hstrategy)) hfits
  have hsegment : segmentOf layout (payloadStart layout.segmentSize) =
      layout.segmentSize := by
    refine segmentOf_eq dvd_rfl (Nat.le_add_right _ _) ?_
    unfold payloadStart headerSize segmentEnd
    omega
  generalize payloadStart layout.segmentSize = first at *
  -- The client of the second chunk stores a one at its start.
  let written : Heap := { heap with
    memory := Function.update heap.memory (first + spec.size + 0) 1 }
  have hwritten : RoutineReachable layout spec slot
      ⟨written, [⟨first + spec.size, spec.size⟩, ⟨first, spec.size⟩],
        handedOut⟩ := by
    refine Transition.Reachable.act
      (.write ⟨first + spec.size, spec.size⟩ 0 1) hreach ?_
    rw [routineStep, if_pos ⟨List.mem_cons_self, hpos⟩]
  have hload' : written.loadHeader layout.segmentSize = some header := hload
  have hfree : ∃ heap', freeManaged written 0
      (segmentOf layout first) first = some heap' ∧
      heap'.memory = writeWord written.memory first 0 := by
    rw [hsegment, freeManaged_of_producerConsumer hload'
      (hheader.trans hstrategy), hactive, if_neg (by simp), mpscPush, hload',
      Option.map_some, hremote]
    exact ⟨_, rfl, rfl⟩
  obtain ⟨heap', hfree, hmemory⟩ := hfree
  have hframe := ((hstays _ hwritten).1 ⟨first, spec.size⟩ (by simp) 0 heap'
    hfree).1 (first + spec.size) (Or.inr le_rfl)
  have hbefore : written.memory (first + spec.size) = 1 := by
    simp [written]
  have hafter : heap'.memory (first + spec.size) = 0 := by
    rw [hmemory, writeWord, writeBytes, if_pos (by omega)]
    simp
  rw [hafter] at hframe
  exact absurd (hframe.trans hbefore) (by decide)

/-- Frees of a routine that `compile` accepts stay inside their chunks, unless
the routine is a producer-consumer one whose chunks are smaller than a link. -/
theorem freeStaysInside_iff (layout : SegmentLayout) (spec : RoutineSpec)
    (slot : ℕ) (haccepts : compileAccepts spec) :
    FreeStaysInside layout spec slot ↔
      ¬ (spec.strategy = .producerConsumer ∧ spec.size < pointerSize) := by
  constructor
  · rintro hstays ⟨hstrategy, hsmall⟩
    exact not_freeStaysInside layout slot hstrategy haccepts hsmall hstays
  · intro hroom
    cases hstrategy : spec.strategy with
    | generic =>
        have hemitter := haccepts.2.2.1
        simp [hasEmitter, hstrategy] at hemitter
    | bumpAlloc => exact freeStaysInside_cursor (Or.inl hstrategy) haccepts
    | pairedStack =>
        exact freeStaysInside_cursor (Or.inr (Or.inl hstrategy)) haccepts
    | epochArena =>
        exact freeStaysInside_cursor (Or.inr (Or.inr hstrategy)) haccepts
    | producerConsumer =>
        exact freeStaysInside_producerConsumer hstrategy haccepts
          (Nat.le_of_not_lt fun hsmall => hroom ⟨hstrategy, hsmall⟩)
    | threadLocalFreeList =>
        obtain ⟨_, hfamily⟩ := familyOf_accepted slot haccepts
          (Or.inl hstrategy)
        exact freeStaysInside_list hfamily
    | multiSizeFreeList =>
        obtain ⟨_, hfamily⟩ := familyOf_accepted slot haccepts
          (Or.inr hstrategy)
        exact freeStaysInside_list hfamily

/-- A producer-consumer routine for objects of four bytes. -/
def fourByteQueue : RoutineSpec where
  id := 1
  strategy := .producerConsumer
  size := 4
  classSizes := fun _ => 0
  classCount := 0

/-- A free-list routine for objects of one pointer. -/
def pointerList : RoutineSpec where
  id := 1
  strategy := .threadLocalFreeList
  size := 8
  classSizes := fun _ => 0
  classCount := 0

theorem freeStaysInside_pointerList :
    FreeStaysInside .default pointerList 0 :=
  (freeStaysInside_iff .default pointerList 0 (by decide)).mpr (by decide)

theorem fourByteQueue_overruns :
    compileAccepts fourByteQueue ∧
      ¬ FreeStaysInside .default fourByteQueue 0 :=
  ⟨by decide, not_freeStaysInside .default 0 rfl (by decide) (by decide)⟩

end Main

end TbjitAlloc.Codegen
