import TbjitAlloc.Codegen.FreeFrame
import TbjitAlloc.Codegen.PairedStack

/-!
# The invariant of one slot

Every strategy has its own invariant.  This module puts them under one name for
the routine of a slot, whatever its strategy, and states what they have in
common: the chunks clients hold are chunks of the routine's segments, and
except for an arena they do not overlap.
-/

namespace TbjitAlloc.Allocator

open TbjitAlloc.ByteMemory
open TbjitAlloc.Carving
open TbjitAlloc.Codegen
open TbjitAlloc.Segment

/-- Segments that hold the largest size `compile` accepts, with the header. -/
theorem header_add_size_lt {layout : SegmentLayout} {spec : RoutineSpec}
    (hroomy : 13 ≤ layout.shift) (haccepts : compileAccepts spec) :
    headerSize + spec.size < layout.segmentSize := by
  have hsize := haccepts.2.1
  have hpow : 2 ^ 13 ≤ layout.segmentSize :=
    Nat.pow_le_pow_right (by norm_num) hroomy
  unfold maxSize at hsize
  unfold headerSize
  omega

/-! ## Arenas -/

/-- A thread has at most one arena segment for the slot, its cursor is at a
chunk boundary of it, and held chunks lie in such segments. -/
structure ArenaInv (layout : SegmentLayout) (spec : RoutineSpec) (slot : ℕ)
    (heap : Heap) (held : List Chunk) : Prop where
  mapped : ∀ base header, heap.header base = some header →
    heap.mapped base = true
  owned : ∀ base header, heap.header base = some header →
    (heap.arenas (header.ownerTid, slot)).base = payloadStart base
  arena : ∀ tid, (heap.arenas (tid, slot)).base ≠ 0 →
    ∃ base header number, heap.header base = some header ∧
      (heap.arenas (tid, slot)).base = payloadStart base ∧
      (heap.arenas (tid, slot)).limit = segmentEnd layout base ∧
      (heap.arenas (tid, slot)).ptr = piece (payloadStart base) spec.size number
  idle : ∀ tid, (heap.arenas (tid, slot)).base = 0 →
    heap.arenas (tid, slot) = ⟨0, 0, 0⟩
  held : ∀ chunk ∈ held, ∃ base header, heap.header base = some header ∧
    IsChunk layout base spec.size chunk.ptr

section Arenas

variable {layout : SegmentLayout} {spec : RoutineSpec} {slot : ℕ}
variable {heap heap' : Heap} {held : List Chunk}

theorem arenaInv_initial (layout : SegmentLayout) (spec : RoutineSpec)
    (slot : ℕ) (slotToSite : ℕ → ℕ) :
    ArenaInv layout spec slot { Heap.empty with slotToSite := slotToSite }
      [] where
  mapped := fun _ _ hheader => by cases hheader
  owned := fun _ _ hheader => by cases hheader
  arena := fun _ hbase => absurd rfl hbase
  idle := fun _ _ => rfl
  held := fun _ hchunk => absurd hchunk List.not_mem_nil

/-- The first chunk of a segment. -/
theorem isChunk_payloadStart {base : ℕ} (hpos : 0 < spec.size)
    (hfits : headerSize + spec.size < layout.segmentSize) :
    IsChunk layout base spec.size (payloadStart base) := by
  refine (isChunk_iff hpos).mpr ⟨0, (piece_zero _ _).symm, ?_⟩
  unfold payloadStart segmentEnd
  omega

/-- The arena of one thread moves its cursor within its segment. -/
theorem ArenaInv.move (hinv : ArenaInv layout spec slot heap held) {tid : ℕ}
    {base : ℕ} {header : SegmentHeader}
    (hheader : heap.header base = some header)
    (hbase : (heap.arenas (tid, slot)).base = payloadStart base)
    (hlimit : (heap.arenas (tid, slot)).limit = segmentEnd layout base)
    (number : ℕ) :
    ArenaInv layout spec slot { heap with
      arenas := Function.update heap.arenas (tid, slot)
        { heap.arenas (tid, slot) with
          ptr := piece (payloadStart base) spec.size number } } held where
  mapped := hinv.mapped
  owned := fun other header' hother => by
    have howned := hinv.owned other header' hother
    dsimp only
    by_cases hsame : header'.ownerTid = tid
    · rw [hsame] at howned ⊢
      rw [Function.update_self]
      exact howned
    · rw [Function.update_of_ne (by simp [hsame])]
      exact howned
  arena := fun other hother => by
    by_cases hsame : other = tid
    · subst hsame
      dsimp only at hother ⊢
      rw [Function.update_self]
      exact ⟨base, header, number, hheader, hbase, hlimit, rfl⟩
    · have hne : (other, slot) ≠ (tid, slot) := by simp [hsame]
      dsimp only at hother ⊢
      rw [Function.update_of_ne hne] at hother ⊢
      exact hinv.arena other hother
  idle := fun other hother => by
    have hne : (other, slot) ≠ (tid, slot) := by
      intro hsame
      rw [hsame] at hother
      dsimp only at hother
      rw [Function.update_self, hbase] at hother
      unfold payloadStart headerSize at hother
      omega
    dsimp only at hother ⊢
    rw [Function.update_of_ne hne] at hother ⊢
    exact hinv.idle other hother
  held := hinv.held

/-- The first call of a thread maps its arena. -/
theorem ArenaInv.map (hinv : ArenaInv layout spec slot heap held)
    {tid base : ℕ} (hfresh : Fresh layout heap base)
    (hzero : (heap.arenas (tid, slot)).base = 0) :
    ArenaInv layout spec slot
      (arenaSlowInit layout tid slot spec.size base heap).1 held where
  mapped := fun other header hother => by
    dsimp only [arenaSlowInit] at hother ⊢
    simp only [allocSegment, registerSegment] at hother ⊢
    by_cases heq : other = base
    · rw [heq, Function.update_self]
    · rw [Function.update_of_ne heq] at hother ⊢
      exact hinv.mapped other header hother
  owned := fun other header hother => by
    dsimp only [arenaSlowInit] at hother ⊢
    simp only [allocSegment, registerSegment] at hother ⊢
    by_cases heq : other = base
    · subst heq
      rw [Function.update_self, Option.some.injEq] at hother
      subst hother
      rw [Function.update_self]
    · rw [Function.update_of_ne heq] at hother
      have howned := hinv.owned other header hother
      have hne : (header.ownerTid, slot) ≠ (tid, slot) := by
        intro hsame
        rw [hsame, hzero] at howned
        unfold payloadStart headerSize at howned
        omega
      rw [Function.update_of_ne hne]
      exact howned
  arena := fun other hother => by
    dsimp only [arenaSlowInit] at hother ⊢
    simp only [allocSegment, registerSegment] at hother ⊢
    by_cases hsame : other = tid
    · subst hsame
      rw [Function.update_self]
      exact ⟨base, _, 1, Function.update_self _ _ _, rfl, rfl,
        by rw [piece_succ, piece_zero]⟩
    · rw [Function.update_of_ne (by simp [hsame])] at hother ⊢
      obtain ⟨other', header, number, hheader, hrest⟩ := hinv.arena other hother
      exact ⟨other', header, number,
        (Function.update_of_ne (hfresh.ne hheader) _ _).trans hheader, hrest⟩
  idle := fun other hother => by
    dsimp only [arenaSlowInit] at hother ⊢
    simp only [allocSegment, registerSegment] at hother ⊢
    by_cases hsame : other = tid
    · subst hsame
      rw [Function.update_self] at hother
      change payloadStart base = 0 at hother
      unfold payloadStart headerSize at hother
      omega
    · rw [Function.update_of_ne (by simp [hsame])] at hother ⊢
      exact hinv.idle other hother
  held := fun chunk hchunk => by
    obtain ⟨other, header, hheader, hplace⟩ := hinv.held chunk hchunk
    exact ⟨other, header,
      (Function.update_of_ne (hfresh.ne hheader) _ _).trans hheader, hplace⟩

/-- A chunk of one of the segments goes to a client. -/
theorem ArenaInv.serve (hinv : ArenaInv layout spec slot heap held)
    {base ptr : ℕ} {header : SegmentHeader}
    (hheader : heap.header base = some header)
    (hplace : IsChunk layout base spec.size ptr) (size : ℕ) :
    ArenaInv layout spec slot heap (⟨ptr, size⟩ :: held) where
  mapped := hinv.mapped
  owned := hinv.owned
  arena := hinv.arena
  idle := hinv.idle
  held := fun chunk hchunk => by
    rcases List.mem_cons.mp hchunk with rfl | hchunk
    · exact ⟨base, header, hheader, hplace⟩
    · exact hinv.held chunk hchunk

/-- The routine of an arena keeps it. -/
theorem ArenaInv.routine (hinv : ArenaInv layout spec slot heap held)
    (hstrategy : spec.strategy = .epochArena) (hpos : 0 < spec.size)
    (hfits : headerSize + spec.size < layout.segmentSize)
    {tid request base : ℕ} {served : Served} (hfresh : Fresh layout heap base)
    (hroutine : Codegen.routine layout spec slot tid request base heap =
      some (heap', served)) :
    (served = .deopt ∧ ArenaInv layout spec slot heap' held) ∨
      ∃ ptr, served = .chunk ptr ∧
        ArenaInv layout spec slot heap' (⟨ptr, request⟩ :: held) := by
  simp only [Codegen.routine, hstrategy, arenaRoutine] at hroutine
  split at hroutine
  · obtain ⟨rfl, rfl⟩ := Prod.mk.inj (Option.some.inj hroutine)
    exact .inl ⟨rfl, hinv⟩
  split at hroutine
  · next hroom =>
      obtain ⟨rfl, rfl⟩ := Prod.mk.inj (Option.some.inj hroutine)
      have hset : (heap.arenas (tid, slot)).base ≠ 0 := fun hzero => by
        rw [hinv.idle tid hzero] at hroom
        exact absurd hroom (Nat.not_lt_zero _)
      obtain ⟨seg, header, number, hheader, hbase, hlimit, hptr⟩ :=
        hinv.arena tid hset
      have hplace : IsChunk layout seg spec.size
          (heap.arenas (tid, slot)).ptr := by
        rw [hlimit] at hroom
        exact (isChunk_iff hpos).mpr ⟨number, hptr, hroom.le⟩
      have hmoved := hinv.move hheader hbase hlimit (number + 1)
      rw [piece_succ, ← hptr] at hmoved
      exact .inr ⟨_, rfl, hmoved.serve hheader hplace request⟩
  · obtain ⟨rfl, rfl⟩ := Prod.mk.inj (Option.some.inj hroutine)
    refine .inr ⟨_, rfl, ?_⟩
    rw [arenaResetAlloc]
    split
    · next hzero =>
        exact (hinv.map hfresh hzero).serve (Function.update_self _ _ _)
          (isChunk_payloadStart hpos hfits) request
    · next hset =>
        obtain ⟨seg, header, number, hheader, hbase, hlimit, hptr⟩ :=
          hinv.arena tid hset
        have hmoved := hinv.move hheader hbase hlimit 1
        rw [piece_succ, piece_zero, ← hbase] at hmoved
        refine hmoved.serve hheader ?_ request
        rw [hbase]
        exact isChunk_payloadStart hpos hfits

/-- Segments and arenas that stay keep it, and chunks may be forgotten. -/
theorem ArenaInv.congr (hinv : ArenaInv layout spec slot heap held)
    {held' : List Chunk} (hheader : heap'.header = heap.header)
    (hmapped : ∀ base header, heap.header base = some header →
      heap'.mapped base = heap.mapped base)
    (harenas : ∀ tid, heap'.arenas (tid, slot) = heap.arenas (tid, slot))
    (hheld : ∀ chunk ∈ held', chunk ∈ held) :
    ArenaInv layout spec slot heap' held' where
  mapped := fun base header hbase => by
    rw [hheader] at hbase
    rw [hmapped base header hbase]
    exact hinv.mapped base header hbase
  owned := fun base header hbase => by
    rw [harenas]
    exact hinv.owned base header (hheader ▸ hbase)
  arena := fun tid hset => by
    rw [harenas] at hset ⊢
    rw [hheader]
    exact hinv.arena tid hset
  idle := fun tid hzero => by
    rw [harenas] at hzero ⊢
    exact hinv.idle tid hzero
  held := fun chunk hchunk => by
    rw [hheader]
    exact hinv.held chunk (hheld chunk hchunk)

end Arenas

/-! ## Stacks -/

section Stacks

variable {layout : SegmentLayout} {spec : RoutineSpec} {slot : ℕ}
variable {heap heap' : Heap} {held : List Chunk}

/-- What a call of a bump routine does, whatever its slow path. -/
theorem bumpRoutine_cases {slowInit : ℕ → ℕ → ℕ → ℕ → Heap → Heap × ℕ}
    {size tid request base : ℕ} {served : Served}
    (hroutine : bumpRoutine slowInit slot size tid request base heap =
      some (heap', served)) :
    let cursor := heap.bumps (tid, slot)
    (served = .deopt ∧ heap' = heap) ∨
    (request = size ∧ cursor.ptr + size < cursor.limit ∧
      served = .chunk cursor.ptr ∧
      heap' = { heap with
        bumps := Function.update heap.bumps (tid, slot)
          { cursor with ptr := cursor.ptr + size } }) ∨
    (request = size ∧ cursor.ptr = 0 ∧
      served = .chunk (slowInit tid slot size base heap).2 ∧
      heap' = (slowInit tid slot size base heap).1) := by
  simp only [bumpRoutine, bumpFastPath] at hroutine
  dsimp only
  split at hroutine
  · obtain ⟨rfl, rfl⟩ := Prod.mk.inj (Option.some.inj hroutine)
    exact .inl ⟨rfl, rfl⟩
  next hrequest =>
  by_cases hroom : (heap.bumps (tid, slot)).ptr + size <
      (heap.bumps (tid, slot)).limit
  · simp only [hroom, if_true] at hroutine
    obtain ⟨rfl, rfl⟩ := Prod.mk.inj (Option.some.inj hroutine)
    exact .inr (.inl ⟨not_not.mp hrequest, hroom, rfl, rfl⟩)
  · simp only [hroom, if_false] at hroutine
    split at hroutine
    · obtain ⟨rfl, rfl⟩ := Prod.mk.inj (Option.some.inj hroutine)
      exact .inl ⟨rfl, rfl⟩
    · next hzero =>
        obtain ⟨rfl, rfl⟩ := Prod.mk.inj (Option.some.inj hroutine)
        exact .inr (.inr ⟨not_not.mp hrequest, not_not.mp hzero, rfl, rfl⟩)

/-- The segments of the two bump strategies differ in their tag only. -/
theorem pairedInv_bumpFirst (hinv : PairedInv layout spec slot heap held)
    (hregistry : RegistryOk layout heap) (hpos : 0 < spec.size)
    (hfits : headerSize + spec.size < layout.segmentSize) {tid base : ℕ}
    (hfresh : Fresh layout heap base)
    (hzero : (heap.bumps (tid, slot)).ptr = 0) :
    PairedInv layout spec slot
      (bumpSlowInit layout tid slot spec.size base heap).1
      (⟨payloadStart base, spec.size⟩ :: held) := by
  have hpaired := hinv.serveFirst hregistry hpos hfits hfresh hzero
  have hleft := bumped_bumpSegment .pairedStack tid slot spec.size hfresh
  have hright := bumped_bumpSegment .bumpAlloc tid slot spec.size hfresh
  obtain ⟨left, hleftHeader, -, -, hleftTid, -⟩ := hleft.header
  obtain ⟨right, hrightHeader, -, -, hrightTid, -⟩ := hright.header
  change PairedInv layout spec slot
    (bumpSegment layout .bumpAlloc tid slot spec.size base heap).1 _
  refine hpaired.congr (fun other seg => ?_) (fun seg header hseg => ?_)
    (hright.bumps.trans hleft.bumps.symm) (List.Sublist.refl _)
  · rw [Owns, Owns, hleftHeader, hrightHeader]
    by_cases hsame : seg = base
    · subst hsame
      simp [hleftTid, hrightTid]
    · simp [hsame]
  · rw [hright.mapped]
    by_cases hsame : seg = base
    · rw [hsame, Function.update_self]
    · rw [hrightHeader, Function.update_of_ne hsame] at hseg
      rw [Function.update_of_ne hsame]
      exact hinv.mapped seg header hseg

/-- No segment of a cursor routine is retired, so a sweep changes no header. -/
theorem header_sweep (hcursors : CursorInv layout spec slot heap held)
    (hframe : SweepFrame layout heap heap') : heap'.header = heap.header := by
  funext base
  cases hbefore : heap.header base with
  | none => exact hframe.header_none base hbefore
  | some header =>
      have hactive := (hcursors.headers base header hbefore).2.2.2.1
      exact (hframe.active base header hbefore hactive).1

/-- Nor does it unmap one. -/
theorem mapped_sweep (hcursors : CursorInv layout spec slot heap held)
    (hframe : SweepFrame layout heap heap') :
    ∀ base header, heap.header base = some header →
      heap'.mapped base = heap.mapped base := by
  intro base header hheader
  have hactive := (hcursors.headers base header hheader).2.2.2.1
  exact (hframe.active base header hheader hactive).2

/-- A chunk of an arena or of `BumpAlloc` is dropped by a free. -/
theorem freeChunk_dropped (hcursors : CursorInv layout spec slot heap held)
    (hstrategy : spec.strategy = .bumpAlloc ∨ spec.strategy = .epochArena)
    {tid ptr : ℕ} (hfree : freeChunk layout heap tid ptr = some heap') :
    heap' = heap := by
  rw [freeChunk] at hfree
  split at hfree
  · simp only [freeManaged, Option.bind_eq_some_iff] at hfree
    obtain ⟨header, hload, hfree⟩ := hfree
    obtain ⟨_, hheader⟩ := loadHeader_eq_some.mp hload
    rw [(hcursors.headers _ header hheader).1] at hfree
    rcases hstrategy with h | h <;> rw [h] at hfree <;>
      exact (Option.some.inj hfree).symm
  · exact (Option.some.inj hfree).symm

end Stacks

/-! ## All strategies -/

/-- What holds of the part of the heap that belongs to a slot, by strategy. -/
inductive SlotOk (layout : SegmentLayout) (spec : RoutineSpec) (slot : ℕ)
    (state : RoutineState) : Prop
  | stack (hstrategy : spec.strategy = .bumpAlloc ∨ spec.strategy = .pairedStack)
      (hcursors : CursorOk layout spec slot state)
      (hstack : PairedInv layout spec slot state.heap state.held)
  | arena (hstrategy : spec.strategy = .epochArena)
      (hcursors : CursorOk layout spec slot state)
      (harena : ArenaInv layout spec slot state.heap state.held)
  | queue (hstrategy : spec.strategy = .producerConsumer)
      (hqueue : PcOk layout spec slot state)
  | lists (family : ListFamily) (hfamily : FamilyOf spec slot family)
      (hlists : ListOk layout family state)

section Slots

variable {layout : SegmentLayout} {spec : RoutineSpec} {slot : ℕ}
variable {state target : RoutineState}

/-- A routine that has not been called. -/
theorem slotOk_initial (layout : SegmentLayout) (slot : ℕ)
    (haccepts : compileAccepts spec) (slotToSite : ℕ → ℕ) :
    SlotOk layout spec slot
      ⟨{ Heap.empty with slotToSite := slotToSite }, [], fun _ => 0⟩ := by
  have hcursors := cursorInv_initial layout spec slot slotToSite
  have hstack := pairedInv_initial layout spec slot slotToSite
  cases hstrategy : spec.strategy with
  | generic =>
      have hemitter := haccepts.2.2.1
      simp [hasEmitter, hstrategy] at hemitter
  | bumpAlloc => exact .stack (.inl hstrategy) hcursors hstack
  | pairedStack => exact .stack (.inr hstrategy) hcursors hstack
  | epochArena =>
      exact .arena hstrategy hcursors
        (arenaInv_initial layout spec slot slotToSite)
  | producerConsumer =>
      exact .queue hstrategy (pcInv_initial layout spec slot slotToSite)
  | threadLocalFreeList =>
      obtain ⟨family, hfamily⟩ := familyOf_accepted slot haccepts (.inl hstrategy)
      exact .lists family hfamily ⟨_, listInv_initial layout family slotToSite⟩
  | multiSizeFreeList =>
      obtain ⟨family, hfamily⟩ := familyOf_accepted slot haccepts (.inr hstrategy)
      exact .lists family hfamily ⟨_, listInv_initial layout family slotToSite⟩

/-- One step of a `BumpAlloc` routine and its users. -/
theorem bumpStack_step (hstrategy : spec.strategy = .bumpAlloc)
    (hpos : 0 < spec.size)
    (hfits : headerSize + spec.size < layout.segmentSize)
    {action : RoutineAction} (hcursors : CursorOk layout spec slot state)
    (hinv : PairedInv layout spec slot state.heap state.held)
    (hstep : routineStep layout spec slot state action = some target) :
    PairedInv layout spec slot target.heap target.held := by
  cases action with
  | alloc tid request base =>
      by_cases hfresh : Fresh layout state.heap base
      · simp only [routineStep, if_pos hfresh, Option.map_eq_some_iff, routine,
          hstrategy] at hstep
        obtain ⟨⟨heap', served⟩, hroutine, rfl⟩ := hstep
        obtain ⟨rfl, rfl⟩ | ⟨rfl, hroom, rfl, rfl⟩ | ⟨rfl, hzero, rfl, rfl⟩ :=
          bumpRoutine_cases hroutine
        · exact hinv
        · exact hinv.serveNext hcursors.registry hpos hroom
        · exact pairedInv_bumpFirst hinv hcursors.registry hpos hfits hfresh hzero
      · simp [routineStep, hfresh] at hstep
  | write chunk offset byte =>
      by_cases hwrite : chunk ∈ state.held ∧ offset < chunk.size
      · simp only [routineStep, if_pos hwrite, Option.some.injEq] at hstep
        subst hstep
        exact hinv.congr (fun _ _ => Iff.rfl) hinv.mapped rfl
          (List.Sublist.refl _)
      · simp [routineStep, hwrite] at hstep
  | free tid chunk =>
      by_cases hheld : chunk ∈ state.held
      · simp only [routineStep, if_pos hheld, Option.map_eq_some_iff] at hstep
        obtain ⟨heap', hfree, rfl⟩ := hstep
        obtain rfl := freeChunk_dropped hcursors (.inl hstrategy) hfree
        exact hinv.congr (fun _ _ => Iff.rfl) hinv.mapped rfl
          List.erase_sublist
      · simp [routineStep, hheld] at hstep
  | sweep mode pred pageSize =>
      simp only [routineStep, Option.some.injEq] at hstep
      subst hstep
      exact hinv.sweep hcursors
        (sweepFrame_reaperSweep mode pred pageSize hcursors.registry).1

/-- One step of an arena routine and its users. -/
theorem arena_step (hstrategy : spec.strategy = .epochArena)
    (hpos : 0 < spec.size)
    (hfits : headerSize + spec.size < layout.segmentSize)
    {action : RoutineAction} (hcursors : CursorOk layout spec slot state)
    (hinv : ArenaInv layout spec slot state.heap state.held)
    (hstep : routineStep layout spec slot state action = some target) :
    ArenaInv layout spec slot target.heap target.held := by
  cases action with
  | alloc tid request base =>
      by_cases hfresh : Fresh layout state.heap base
      · simp only [routineStep, if_pos hfresh, Option.map_eq_some_iff] at hstep
        obtain ⟨⟨heap', served⟩, hroutine, rfl⟩ := hstep
        obtain ⟨rfl, hinv'⟩ | ⟨ptr, rfl, hinv'⟩ :=
          hinv.routine hstrategy hpos hfits hfresh hroutine
        · exact hinv'
        · exact hinv'
      · simp [routineStep, hfresh] at hstep
  | write chunk offset byte =>
      by_cases hwrite : chunk ∈ state.held ∧ offset < chunk.size
      · simp only [routineStep, if_pos hwrite, Option.some.injEq] at hstep
        subst hstep
        exact hinv.congr rfl (fun _ _ _ => rfl) (fun _ => rfl) fun _ h => h
      · simp [routineStep, hwrite] at hstep
  | free tid chunk =>
      by_cases hheld : chunk ∈ state.held
      · simp only [routineStep, if_pos hheld, Option.map_eq_some_iff] at hstep
        obtain ⟨heap', hfree, rfl⟩ := hstep
        obtain rfl := freeChunk_dropped hcursors (.inr hstrategy) hfree
        exact hinv.congr rfl (fun _ _ _ => rfl) (fun _ => rfl)
          fun _ h => List.mem_of_mem_erase h
      · simp [routineStep, hheld] at hstep
  | sweep mode pred pageSize =>
      simp only [routineStep, Option.some.injEq] at hstep
      subst hstep
      have hframe :=
        (sweepFrame_reaperSweep mode pred pageSize hcursors.registry).1
      exact hinv.congr (header_sweep hcursors hframe)
        (mapped_sweep hcursors hframe) (fun _ => by rw [hframe.arenas])
        fun _ h => h

/-- One step of the routine of a slot and its users. -/
theorem SlotOk.step (hroomy : 13 ≤ layout.shift)
    (haccepts : compileAccepts spec) {action : RoutineAction}
    (hok : SlotOk layout spec slot state)
    (hstep : routineStep layout spec slot state action = some target) :
    SlotOk layout spec slot target := by
  have hpos := Nat.pos_of_ne_zero haccepts.1
  have hsize : spec.size < 4096 := haccepts.2.1
  have hfits := header_add_size_lt hroomy haccepts
  cases hok with
  | stack hstrategy hcursors hstack =>
      rcases hstrategy with hbump | hpaired
      · exact .stack (.inl hbump)
          (cursorOk_step (.inl hbump) hsize hcursors hstep)
          (bumpStack_step hbump hpos hfits hcursors hstack hstep)
      · obtain ⟨hcursors', hstack'⟩ :=
          pairedOk_step hpaired hpos hsize hfits ⟨hcursors, hstack⟩ hstep
        exact .stack (.inr hpaired) hcursors' hstack'
  | arena hstrategy hcursors harena =>
      exact .arena hstrategy
        (cursorOk_step (.inr (.inr hstrategy)) hsize hcursors hstep)
        (arena_step hstrategy hpos hfits hcursors harena hstep)
  | queue hstrategy hqueue =>
      exact .queue hstrategy (pcOk_step hstrategy hpos hsize hqueue hstep)
  | lists family hfamily hlists =>
      exact .lists family hfamily (listOk_step hfamily hlists hstep)

/-- What a queue has served is a chunk of the segment, the first one too. -/
theorem PcInv.isChunk {heap : Heap} {held : List Chunk} {handedOut : ℕ → ℕ}
    (hqueue : PcInv layout spec slot heap held handedOut none)
    (hpos : 0 < spec.size) (hfits : headerSize + spec.size < layout.segmentSize)
    {base ptr : ℕ} (hserved : ServedFrom spec.size (handedOut base) base ptr) :
    IsChunk layout base spec.size ptr := by
  obtain ⟨number, hnumber, rfl⟩ := hserved
  rcases hqueue.fits base number hnumber with rfl | hinside
  · rw [piece_zero]
    exact isChunk_payloadStart hpos hfits
  · exact (isChunk_iff hpos).mpr ⟨number, rfl, hinside.le⟩

/-- A held chunk is a chunk of one of the slot's segments. -/
theorem SlotOk.isChunk (hroomy : 13 ≤ layout.shift)
    (haccepts : compileAccepts spec) (hok : SlotOk layout spec slot state)
    {chunk : Chunk} (hchunk : chunk ∈ state.held) :
    ∃ base header, state.heap.header base = some header ∧
      layout.segmentSize ∣ base ∧ IsChunk layout base chunk.size chunk.ptr := by
  have hpos := Nat.pos_of_ne_zero haccepts.1
  have hsize : spec.size < 4096 := haccepts.2.1
  have hfits := header_add_size_lt hroomy haccepts
  cases hok with
  | stack _ hcursors hstack =>
      obtain ⟨_, base, ⟨header, hheader, -⟩, hplace, -⟩ :=
        hstack.below chunk hchunk
      rw [(hcursors.held chunk hchunk).1]
      exact ⟨base, header, hheader,
        (hcursors.registry.placed _ _ hheader).2.1, hplace⟩
  | arena hstrategy hcursors harena =>
      obtain ⟨base, header, hheader, hplace⟩ := harena.held chunk hchunk
      rw [(hcursors.held chunk hchunk).1]
      exact ⟨base, header, hheader,
        (hcursors.registry.placed _ _ hheader).2.1, hplace⟩
  | queue hstrategy hqueue =>
      obtain ⟨hchunkSize, base, hserved⟩ := hqueue.heldServed chunk hchunk
      obtain ⟨⟨header, hheader⟩, hbase, -⟩ := hqueue.served hsize hserved
      rw [hchunkSize]
      exact ⟨base, header, hheader, hbase,
        PcInv.isChunk hqueue hpos hfits hserved⟩
  | lists family hfamily hlists =>
      obtain ⟨place, hinv⟩ := hlists
      obtain ⟨header, hheader, hchunkSize, hplace⟩ := hinv.heldChunk hchunk
      rw [hchunkSize]
      exact ⟨_, header, hheader, dvd_segmentOf _, hplace⟩

/-- The chunks a routine's clients hold do not overlap, unless it recycles its
arena under them. -/
theorem SlotOk.disjoint (haccepts : compileAccepts spec)
    (hok : SlotOk layout spec slot state)
    (hstrategy : spec.strategy ≠ .epochArena) :
    state.held.Pairwise fun left right =>
      Disjoint left.ptr left.size right.ptr right.size := by
  have hsize : spec.size < 4096 := haccepts.2.1
  cases hok with
  | stack _ hcursors hstack =>
      exact hstack.disjoint hcursors.registry fun chunk hchunk =>
        (hcursors.held chunk hchunk).1
  | arena harena _ _ => exact absurd harena hstrategy
  | queue _ hqueue =>
      have hdistinct := List.pairwise_map.mp hqueue.heldNodup
      exact hdistinct.imp_of_mem fun hleft hright hne =>
        hqueue.held_disjoint hsize hleft hright hne
  | lists family _ hlists =>
      obtain ⟨place, hinv⟩ := hlists
      have hdistinct := List.pairwise_map.mp hinv.heldNodup
      exact hdistinct.imp_of_mem fun hleft hright hne =>
        hinv.held_disjoint hleft hright hne

end Slots

end TbjitAlloc.Allocator
