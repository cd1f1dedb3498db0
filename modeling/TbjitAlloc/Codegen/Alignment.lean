import TbjitAlloc.Codegen.ListInvariant
import TbjitAlloc.Codegen.PcInvariant

/-!
# Alignment of served chunks

`malloc` promises memory aligned for every type, and the shadow validator stops
the process when a served pointer is not a multiple of 16.  Chunks are laid end
to end from a 16-byte aligned payload, so the promise depends on the size a
routine was compiled for.
-/

namespace TbjitAlloc.Codegen

open TbjitAlloc.ByteMemory
open TbjitAlloc.Carving
open TbjitAlloc.LinkedChain
open TbjitAlloc.Segment

/-- `alignof(max_align_t)`. -/
def maxAlign : ℕ := 16

/-- Every chunk the routine serves, in any run, is aligned when it is handed to
its client. -/
def ServesAligned (layout : SegmentLayout) (spec : RoutineSpec)
    (slot : ℕ) : Prop :=
  ∀ state, RoutineReachable layout spec slot state →
    ∀ chunk ∈ state.held, maxAlign ∣ chunk.ptr

/-- The sizes a routine serves. -/
def servedSizes (spec : RoutineSpec) : List ℕ :=
  if spec.strategy = .multiSizeFreeList then
    (List.range spec.classCount).map spec.classSizes
  else [spec.size]

/-- Whether a routine can serve the second chunk of a segment.  The carving loop
uses the payload up to its last byte, the cursor comparisons stop one short. -/
def secondFits (layout : SegmentLayout) (strategy : Strategy)
    (size : ℕ) : Prop :=
  if strategy = .threadLocalFreeList ∨ strategy = .multiSizeFreeList then
    headerSize + 2 * size ≤ layout.segmentSize
  else headerSize + 2 * size < layout.segmentSize

instance (layout : SegmentLayout) (strategy : Strategy) (size : ℕ) :
    Decidable (secondFits layout strategy size) :=
  inferInstanceAs (Decidable (if strategy = .threadLocalFreeList ∨
      strategy = .multiSizeFreeList then
    headerSize + 2 * size ≤ layout.segmentSize
  else headerSize + 2 * size < layout.segmentSize))

section Aligned

variable {layout : SegmentLayout} {spec : RoutineSpec} {slot : ℕ}

theorem maxAlign_dvd_payloadStart {base : ℕ}
    (hbase : layout.segmentSize ∣ base) : maxAlign ∣ payloadStart base := by
  have hheader : maxAlign ∣ headerSize := by decide
  exact Nat.dvd_add
    ((hheader.trans (headerSize_dvd_segmentSize layout)).trans hbase) hheader

theorem maxAlign_dvd_piece {base size number : ℕ}
    (hbase : layout.segmentSize ∣ base) (hsize : maxAlign ∣ size) :
    maxAlign ∣ piece (payloadStart base) size number :=
  Nat.dvd_add (maxAlign_dvd_payloadStart hbase) (hsize.mul_left number)

/-- A chunk at a boundary is aligned if its size is, or if it is the first. -/
theorem ServedAt.aligned {size ptr : ℕ} (hserved : ServedAt layout size ptr)
    (hsize : maxAlign ∣ size ∨
      ¬ headerSize + 2 * size < layout.segmentSize) : maxAlign ∣ ptr := by
  obtain ⟨base, number, hbase, _, rfl, hfits⟩ := hserved
  rcases hsize with hsize | hsecond
  · exact maxAlign_dvd_piece hbase hsize
  · cases number with
    | zero => exact piece_zero _ size ▸ maxAlign_dvd_payloadStart hbase
    | succ number =>
        exfalso
        have hsucc := piece_succ (payloadStart base) size number
        have hlow := start_le_piece (payloadStart base) size number
        have hfits' := hfits.resolve_left (by simp)
        unfold payloadStart segmentEnd at *
        omega

theorem isChunk_aligned {base size ptr : ℕ}
    (hchunk : IsChunk layout base size ptr) (hbase : layout.segmentSize ∣ base)
    (hsize : maxAlign ∣ size ∨
      ¬ headerSize + 2 * size ≤ layout.segmentSize) : maxAlign ∣ ptr := by
  have hfits := hchunk.inside.2
  obtain ⟨number, _, rfl⟩ := hchunk
  rcases hsize with hsize | hsecond
  · exact maxAlign_dvd_piece hbase hsize
  · cases number with
    | zero => exact piece_zero _ size ▸ maxAlign_dvd_payloadStart hbase
    | succ number =>
        exfalso
        have hsucc := piece_succ (payloadStart base) size number
        have hlow := start_le_piece (payloadStart base) size number
        unfold payloadStart segmentEnd at *
        omega

/-- The sizes of a family are the sizes its routine serves. -/
theorem FamilyOf.mem_servedSizes {family : ListFamily}
    (hfamily : FamilyOf spec slot family) {size : ℕ} :
    size ∈ servedSizes spec ↔ ∃ i < family.count, family.size i = size := by
  cases hfamily with
  | single hstrategy hsize =>
      simp [servedSizes, hstrategy, ListFamily.single, eq_comm]
  | classes hstrategy hsizes =>
      simp [servedSizes, hstrategy, ListFamily.classes]

theorem FamilyOf.secondFits_iff {family : ListFamily}
    (hfamily : FamilyOf spec slot family) {size : ℕ} :
    secondFits layout spec.strategy size ↔
      headerSize + 2 * size ≤ layout.segmentSize := by
  cases hfamily with
  | single hstrategy hsize => simp [secondFits, hstrategy]
  | classes hstrategy hsizes => simp [secondFits, hstrategy]

theorem FamilyOf.servesAligned {family : ListFamily}
    (hfamily : FamilyOf spec slot family)
    (hsizes : ∀ size ∈ servedSizes spec, maxAlign ∣ size ∨
      ¬ secondFits layout spec.strategy size) :
    ServesAligned layout spec slot := by
  intro state hreach chunk hchunk
  obtain ⟨place, hinv⟩ := listOk_reachable hfamily hreach
  obtain ⟨header, hheader, _, hptr⟩ := hinv.heldChunk hchunk
  obtain ⟨_, _, hclass, hchunkSize⟩ := hinv.headers _ _ hheader
  have hsize := hsizes header.chunkSize
    (hfamily.mem_servedSizes.mpr ⟨_, hclass, hchunkSize.symm⟩)
  rw [hfamily.secondFits_iff] at hsize
  exact isChunk_aligned hptr (dvd_segmentOf _) hsize

/-- A chunk a producer-consumer segment has handed out lies at a boundary. -/
theorem PcInv.servedAt {heap : Heap} {held : List Chunk}
    {handedOut : ℕ → ℕ} {retiring : Option ℕ}
    (hinv : PcInv layout spec slot heap held handedOut retiring)
    (hsize : spec.size < 4096) {base ptr : ℕ}
    (hserved : ServedFrom spec.size (handedOut base) base ptr) :
    ServedAt layout spec.size ptr := by
  obtain ⟨⟨header, hheader⟩, hbase, _⟩ := hinv.served hsize hserved
  obtain ⟨number, hnumber, rfl⟩ := hserved
  exact ⟨base, number, hbase,
    Nat.pos_of_ne_zero (hinv.registry.placed base header hheader).1, rfl,
    hinv.fits base number hnumber⟩

end Aligned

/-! ## Runs that serve two chunks -/

section Runs

variable {layout : SegmentLayout} {spec : RoutineSpec} {slot : ℕ}

/-- Two calls of an arena routine serve the first two chunks of its arena. -/
theorem reachable_twoArena (slot : ℕ) (hstrategy : spec.strategy = .epochArena)
    (hfits : headerSize + 2 * spec.size < layout.segmentSize) :
    ∃ heap handedOut, RoutineReachable layout spec slot
      ⟨heap, [⟨payloadStart layout.segmentSize + spec.size, spec.size⟩,
        ⟨payloadStart layout.segmentSize, spec.size⟩], handedOut⟩ := by
  have hge := segmentSize_ge layout
  have hfresh : Fresh layout (RoutineState.initial spec slot).heap
      layout.segmentSize := fresh_segmentSize (Or.inl rfl) rfl
  have hfirst : routine layout spec slot 0 spec.size layout.segmentSize
      (RoutineState.initial spec slot).heap =
      some ((arenaSlowInit layout 0 slot spec.size layout.segmentSize
        (RoutineState.initial spec slot).heap).1,
        .chunk (payloadStart layout.segmentSize)) := by
    simp [routine, hstrategy, arenaRoutine, arenaResetAlloc,
      RoutineState.initial, Heap.empty, arenaSlowInit]
  have hreach₁ := (RoutineReachable.initial layout spec slot).serve hfresh
    hfirst
  have harena : (arenaSlowInit layout 0 slot spec.size layout.segmentSize
      (RoutineState.initial spec slot).heap).1.arenas (0, slot) =
      ⟨payloadStart layout.segmentSize + spec.size,
        segmentEnd layout layout.segmentSize,
        payloadStart layout.segmentSize⟩ := by
    simp [arenaSlowInit]
  have hnone : (arenaSlowInit layout 0 slot spec.size layout.segmentSize
      (RoutineState.initial spec slot).heap).1.header
      (2 * layout.segmentSize) = none := by
    have hne : 2 * layout.segmentSize ≠ layout.segmentSize := by omega
    simp [arenaSlowInit, allocSegment, registerSegment, hne,
      RoutineState.initial, Heap.empty]
  generalize (arenaSlowInit layout 0 slot spec.size layout.segmentSize
    (RoutineState.initial spec slot).heap).1 = heap₁ at *
  have hroom : payloadStart layout.segmentSize + spec.size + spec.size <
      segmentEnd layout layout.segmentSize := by
    unfold payloadStart segmentEnd
    omega
  have hsecond : routine layout spec slot 0 spec.size
      (2 * layout.segmentSize) heap₁ = some ({ heap₁ with
        arenas := Function.update heap₁.arenas (0, slot)
          { heap₁.arenas (0, slot) with
            ptr := payloadStart layout.segmentSize + spec.size + spec.size } },
        .chunk (payloadStart layout.segmentSize + spec.size)) := by
    simp [routine, hstrategy, arenaRoutine, harena, hroom]
  exact ⟨_, _, hreach₁.serve (fresh_segmentSize (Or.inr rfl) hnone) hsecond⟩

/-- Two calls for one class of a free-list routine serve the last two chunks of
a segment: the carving loop leaves the highest chunk at the head. -/
theorem FamilyOf.reachable_two {family : ListFamily}
    (hfamily : FamilyOf spec slot family) {i : ℕ} (hi : i < family.count)
    (hfits : headerSize + 2 * family.size i ≤ layout.segmentSize) :
    ∃ heap handedOut number, RoutineReachable layout spec slot
      ⟨heap, [⟨piece (payloadStart layout.segmentSize) (family.size i) number,
          family.size i⟩,
        ⟨piece (payloadStart layout.segmentSize) (family.size i) (number + 1),
          family.size i⟩], handedOut⟩ := by
  have hge := segmentSize_ge layout
  have hfresh : Fresh layout (RoutineState.initial spec slot).heap
      layout.segmentSize := fresh_segmentSize (Or.inl rfl) rfl
  obtain ⟨i', hi', hsizeEq, hroutine⟩ := hfamily.routine_eq layout hi
  have hsize := family.size_ge i' hi'
  have hpos : 0 < family.size i' := lt_of_lt_of_le (by decide) hsize
  have htwo : 2 ≤ chunkCount layout (family.size i') := by
    rw [chunkCount, Nat.le_div_iff_mul_le hpos, hsizeEq]
    omega
  obtain ⟨heap₁, ptr, hrefill⟩ := exists_refillFresh hsize hfresh (by omega)
  have hcarved := carved_refillFresh hsize hfresh hrefill
  have hzero : ∀ ref, listHead (RoutineState.initial spec slot).heap 0 ref = 0 ∧
      listSegs (RoutineState.initial spec slot).heap 0 ref = 0 := by
    intro ref
    cases ref <;> exact ⟨rfl, rfl⟩
  have hfirst : Codegen.routine layout spec slot 0 (family.size i)
      layout.segmentSize
      (RoutineState.initial spec slot).heap = some (heap₁, .chunk ptr) := by
    rw [hroutine, popOrRefill, (hzero _).1, if_neg (by simp), refill,
      (hzero _).2, if_pos rfl, hrefill]
    rfl
  have hreach₁ := (RoutineReachable.initial layout spec slot).serve hfresh
    hfirst
  obtain ⟨count, hcount, hptr, hchain⟩ := hcarved.chain
  obtain ⟨number, rfl⟩ := Nat.exists_eq_succ_of_ne_zero
    (show count ≠ 0 by omega)
  rw [pieces_succ, List.reverse_append, List.reverse_singleton,
    List.singleton_append] at hchain
  obtain ⟨_, _, hnext, hnotNull, _⟩ := hchain
  have hhead : listHead heap₁ 0 (family.ref i') =
      piece (payloadStart layout.segmentSize) (family.size i') number := by
    rw [hcarved.head, if_pos ⟨rfl, rfl⟩, hnext]
  have hsecond : Codegen.routine layout spec slot 0 (family.size i)
      (2 * layout.segmentSize) heap₁ =
      some (setListHead heap₁ 0 (family.ref i')
        (readWord heap₁.memory (listHead heap₁ 0 (family.ref i'))),
        .chunk (listHead heap₁ 0 (family.ref i'))) := by
    have hne : listHead heap₁ 0 (family.ref i') ≠ 0 := by
      rw [hhead]
      exact hnotNull
    rw [hroutine, popOrRefill, if_pos hne]
  have hfresh' : Fresh layout heap₁ (2 * layout.segmentSize) := by
    refine fresh_segmentSize (Or.inr rfl) ?_
    obtain ⟨fresh, hheader, _⟩ := hcarved.header
    rw [hheader, Function.update_of_ne (by omega)]
    rfl
  have hreach₂ := hreach₁.serve hfresh' hsecond
  rw [hhead, hptr, hsizeEq] at hreach₂
  exact ⟨_, _, number, hreach₂⟩

end Runs

/-! ## When served memory is aligned -/

section Main

variable {layout : SegmentLayout} {spec : RoutineSpec} {slot : ℕ}

theorem mem_servedSizes_iff (hsingle : spec.strategy ≠ .multiSizeFreeList)
    {size : ℕ} : size ∈ servedSizes spec ↔ size = spec.size := by
  simp [servedSizes, hsingle]

theorem secondFits_iff_lt {strategy : Strategy} {size : ℕ}
    (hlist : strategy ≠ .threadLocalFreeList)
    (hmulti : strategy ≠ .multiSizeFreeList) :
    secondFits layout strategy size ↔
      headerSize + 2 * size < layout.segmentSize := by
  simp [secondFits, hlist, hmulti]

/-- Two aligned neighbours are an aligned distance apart. -/
theorem maxAlign_dvd_of_neighbours {left size : ℕ} (hleft : maxAlign ∣ left)
    (hright : maxAlign ∣ left + size) : maxAlign ∣ size :=
  (Nat.dvd_add_right hleft).mp hright

/-- A routine that serves from a cursor and reaches the second chunk of a
segment is compiled for an aligned size, if all it serves is aligned. -/
theorem ServesAligned.dvd_size (haligned : ServesAligned layout spec slot)
    (hcursor : UsesBump spec.strategy ∨ spec.strategy = .epochArena)
    (hfits : headerSize + 2 * spec.size < layout.segmentSize) :
    maxAlign ∣ spec.size := by
  have htwo : ∃ heap handedOut, RoutineReachable layout spec slot
      ⟨heap, [⟨payloadStart layout.segmentSize + spec.size, spec.size⟩,
        ⟨payloadStart layout.segmentSize, spec.size⟩], handedOut⟩ := by
    rcases hcursor with hbump | harena
    · obtain ⟨heap, handedOut, _, hreach, _⟩ :=
        reachable_twoServed slot hbump hfits
      exact ⟨heap, handedOut, hreach⟩
    · exact reachable_twoArena slot harena hfits
  obtain ⟨heap, handedOut, hreach⟩ := htwo
  exact maxAlign_dvd_of_neighbours
    (haligned _ hreach ⟨payloadStart layout.segmentSize, spec.size⟩ (by simp))
    (haligned _ hreach ⟨payloadStart layout.segmentSize + spec.size, spec.size⟩
      (by simp))

theorem ServesAligned.dvd_classSize {family : ListFamily}
    (haligned : ServesAligned layout spec slot)
    (hfamily : FamilyOf spec slot family) {i : ℕ} (hi : i < family.count)
    (hfits : headerSize + 2 * family.size i ≤ layout.segmentSize) :
    maxAlign ∣ family.size i := by
  obtain ⟨heap, handedOut, number, hreach⟩ := hfamily.reachable_two hi hfits
  have hlow := haligned _ hreach ⟨piece (payloadStart layout.segmentSize)
    (family.size i) number, family.size i⟩ (by simp)
  have hhigh := haligned _ hreach ⟨piece (payloadStart layout.segmentSize)
    (family.size i) (number + 1), family.size i⟩ (by simp)
  rw [piece_succ] at hhigh
  exact maxAlign_dvd_of_neighbours hlow hhigh

/-- The free-list strategies, class by class. -/
theorem FamilyOf.servesAligned_iff_sizes {family : ListFamily}
    (hfamily : FamilyOf spec slot family) :
    ServesAligned layout spec slot ↔
      ∀ size ∈ servedSizes spec, maxAlign ∣ size ∨
        ¬ secondFits layout spec.strategy size := by
  refine ⟨fun haligned size hmem => ?_, hfamily.servesAligned⟩
  obtain ⟨i, hi, rfl⟩ := hfamily.mem_servedSizes.mp hmem
  rw [hfamily.secondFits_iff]
  by_cases hfits : headerSize + 2 * family.size i ≤ layout.segmentSize
  · exact Or.inl (haligned.dvd_classSize hfamily hi hfits)
  · exact Or.inr hfits

/-- The strategies that serve from a cursor. -/
theorem servesAligned_iff_of_cursor
    (hcursor : UsesBump spec.strategy ∨ spec.strategy = .epochArena)
    (haccepts : compileAccepts spec) :
    ServesAligned layout spec slot ↔
      ∀ size ∈ servedSizes spec, maxAlign ∣ size ∨
        ¬ secondFits layout spec.strategy size := by
  have hpos := Nat.pos_of_ne_zero haccepts.1
  have hsmall : spec.size < 4096 := haccepts.2.1
  have hlist : spec.strategy ≠ .threadLocalFreeList := by
    rcases hcursor with (h | h | h) | h <;> simp [h]
  have hmulti : spec.strategy ≠ .multiSizeFreeList := by
    rcases hcursor with (h | h | h) | h <;> simp [h]
  simp only [mem_servedSizes_iff hmulti, forall_eq,
    secondFits_iff_lt hlist hmulti]
  constructor
  · intro haligned
    by_cases hfits : headerSize + 2 * spec.size < layout.segmentSize
    · exact Or.inl (haligned.dvd_size hcursor hfits)
    · exact Or.inr hfits
  · intro hsize state hreach chunk hchunk
    have hserved : ServedAt layout spec.size chunk.ptr := by
      by_cases hqueue : spec.strategy = .producerConsumer
      · have hinv : PcInv layout spec slot state.heap state.held
          state.handedOut none := pcOk_reachable hqueue hpos hsmall hreach
        obtain ⟨_, _, hserved⟩ := hinv.heldServed chunk hchunk
        exact hinv.servedAt hsmall hserved
      · have hkind : IsCursor spec.strategy := by
          rcases hcursor with (h | h | h) | h
          · exact Or.inl h
          · exact Or.inr (Or.inl h)
          · exact absurd h hqueue
          · exact Or.inr (Or.inr h)
        have hinv : CursorInv layout spec slot state.heap state.held :=
          cursorOk_reachable hkind hsmall hreach
        exact (hinv.held chunk hchunk).2
    exact hserved.aligned hsize

/-- What an accepted routine serves is aligned exactly when each of its sizes is
a multiple of the alignment or too large for a second chunk. -/
theorem servesAligned_iff (layout : SegmentLayout) (spec : RoutineSpec)
    (slot : ℕ) (haccepts : compileAccepts spec) :
    ServesAligned layout spec slot ↔
      ∀ size ∈ servedSizes spec, maxAlign ∣ size ∨
        ¬ secondFits layout spec.strategy size := by
  cases hstrategy : spec.strategy with
  | generic =>
      have hemitter := haccepts.2.2.1
      simp [hasEmitter, hstrategy] at hemitter
  | bumpAlloc =>
      rw [← hstrategy]
      exact servesAligned_iff_of_cursor (Or.inl (Or.inl hstrategy)) haccepts
  | pairedStack =>
      rw [← hstrategy]
      exact servesAligned_iff_of_cursor (Or.inl (Or.inr (Or.inl hstrategy)))
        haccepts
  | producerConsumer =>
      rw [← hstrategy]
      exact servesAligned_iff_of_cursor (Or.inl (Or.inr (Or.inr hstrategy)))
        haccepts
  | epochArena =>
      rw [← hstrategy]
      exact servesAligned_iff_of_cursor (Or.inr hstrategy) haccepts
  | threadLocalFreeList =>
      obtain ⟨_, hfamily⟩ := familyOf_accepted slot haccepts (Or.inl hstrategy)
      rw [← hstrategy]
      exact hfamily.servesAligned_iff_sizes
  | multiSizeFreeList =>
      obtain ⟨_, hfamily⟩ := familyOf_accepted slot haccepts (Or.inr hstrategy)
      rw [← hstrategy]
      exact hfamily.servesAligned_iff_sizes

end Main

/-- A bump routine for objects of 24 bytes. -/
def twentyFourByteBump : RoutineSpec where
  id := 1
  strategy := .bumpAlloc
  size := 24
  classSizes := fun _ => 0
  classCount := 0

/-- A bump routine for objects of 48 bytes. -/
def fortyEightByteBump : RoutineSpec where
  id := 1
  strategy := .bumpAlloc
  size := 48
  classSizes := fun _ => 0
  classCount := 0

theorem servesAligned_fortyEightByteBump :
    ServesAligned .default fortyEightByteBump 0 :=
  (servesAligned_iff .default fortyEightByteBump 0 (by decide)).mpr
    (by decide)

theorem twentyFourByteBump_misaligned :
    compileAccepts twentyFourByteBump ∧
      ¬ ServesAligned .default twentyFourByteBump 0 := by
  refine ⟨by decide, fun haligned => ?_⟩
  have hdvd := haligned.dvd_size (Or.inl (Or.inl rfl)) (by decide)
  exact absurd hdvd (by decide)

end TbjitAlloc.Codegen
