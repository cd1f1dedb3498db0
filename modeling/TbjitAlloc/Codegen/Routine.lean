import TbjitAlloc.Codegen.SlowInit
import TbjitAlloc.Core.Transition

/-!
# A compiled routine and its users

What a call of an emitted routine does, as the layout comment of its emitter
has it (`RoutineCode` shows the same of the emitted bytes), and the system in
which any number of threads call one routine, write to the chunks they hold,
free them from any thread, and the reaper sweeps.  The operations are atomic
with respect to each other.
-/

namespace TbjitAlloc.Codegen

open TbjitAlloc.ByteMemory
open TbjitAlloc.Segment

/-- What the caller of a routine gets: a chunk, or, after the deoptimization
path, whatever the real allocator returns. -/
inductive Served
  | chunk (ptr : ℕ)
  | deopt
  deriving DecidableEq, Repr

section Routines

variable (layout : SegmentLayout)

/-- The bump fast path: advance the thread's cursor when the chunk ends below
the limit. -/
def bumpFastPath (tid slot size : ℕ) (heap : Heap) : Option (Heap × ℕ) :=
  let cursor := heap.bumps (tid, slot)
  if cursor.ptr + size < cursor.limit then
    some ({ heap with
      bumps := Function.update heap.bumps (tid, slot)
        { cursor with ptr := cursor.ptr + size } }, cursor.ptr)
  else none

/-- `emit_bump_alloc`: deoptimize on a wrong size or an exhausted segment,
initialize on the first call. -/
def bumpRoutine (slowInit : ℕ → ℕ → ℕ → ℕ → Heap → Heap × ℕ)
    (slot size tid request base : ℕ) (heap : Heap) : Option (Heap × Served) :=
  if request ≠ size then some (heap, .deopt)
  else
    match bumpFastPath tid slot size heap with
    | some (heap, ptr) => some (heap, .chunk ptr)
    | none =>
        if (heap.bumps (tid, slot)).ptr ≠ 0 then some (heap, .deopt)
        else
          let served := slowInit tid slot size base heap
          some (served.1, .chunk served.2)

/-- `emit_pc_alloc`: the bump fast path over a slow path that always refills. -/
def pcRoutine (slot size tid request base : ℕ) (heap : Heap) :
    Option (Heap × Served) :=
  if request ≠ size then some (heap, .deopt)
  else
    match bumpFastPath tid slot size heap with
    | some (heap, ptr) => some (heap, .chunk ptr)
    | none =>
        (pcRefill layout tid slot size base heap).map fun served =>
          (served.1, .chunk served.2)

/-- `emit_epoch_arena`: the bump fast path on the arena slot, recycled in place
when exhausted. -/
def arenaRoutine (slot size tid request base : ℕ) (heap : Heap) :
    Option (Heap × Served) :=
  if request ≠ size then some (heap, .deopt)
  else
    let arena := heap.arenas (tid, slot)
    if arena.ptr + size < arena.limit then
      some ({ heap with
        arenas := Function.update heap.arenas (tid, slot)
          { arena with ptr := arena.ptr + size } }, .chunk arena.ptr)
    else
      let served := arenaResetAlloc layout tid slot size base heap
      some (served.1, .chunk served.2)

/-- One class of the free-list ladder: pop the head, or refill when it is
null. -/
def popOrRefill (ref : ListRef) (size tid base : ℕ) (heap : Heap) :
    Option (Heap × Served) :=
  let head := listHead heap tid ref
  if head ≠ 0 then
    some (setListHead heap tid ref (readWord heap.memory head), .chunk head)
  else
    (refill layout ref tid size base heap).map fun served =>
      (served.1, .chunk served.2)

/-- The first class with the requested size. -/
def findClass (classSizes : ℕ → ℕ) (classCount request : ℕ) : Option ℕ :=
  (List.range classCount).find? fun i => classSizes i = request

/-- `emit_freelist_alloc`. -/
def freelistRoutine (slot size tid request base : ℕ) (heap : Heap) :
    Option (Heap × Served) :=
  if request ≠ size then some (heap, .deopt)
  else popOrRefill layout (.single slot) size tid base heap

/-- `emit_multi_freelist_alloc`. -/
def multiRoutine (slot : ℕ) (classSizes : ℕ → ℕ) (classCount tid request
    base : ℕ) (heap : Heap) : Option (Heap × Served) :=
  match findClass classSizes classCount request with
  | none => some (heap, .deopt)
  | some i =>
      popOrRefill layout (.sizeClass slot i) (classSizes i) tid base heap

/-- The routine `compile` emits for a specification. -/
def routine (spec : RoutineSpec) (slot tid request base : ℕ) (heap : Heap) :
    Option (Heap × Served) :=
  match spec.strategy with
  | .bumpAlloc =>
      bumpRoutine (bumpSlowInit layout) slot spec.size tid request base heap
  | .pairedStack =>
      bumpRoutine (pairedSlowInit layout) slot spec.size tid request base heap
  | .producerConsumer => pcRoutine layout slot spec.size tid request base heap
  | .epochArena => arenaRoutine layout slot spec.size tid request base heap
  | .threadLocalFreeList =>
      freelistRoutine layout slot spec.size tid request base heap
  | .multiSizeFreeList =>
      multiRoutine layout slot spec.classSizes spec.classCount tid request base
        heap
  | .generic => some (heap, .deopt)

end Routines

/-! ## The system around one routine -/

/-- A chunk some client holds, with the size it asked for. -/
structure Chunk where
  ptr : ℕ
  size : ℕ
  deriving DecidableEq, Repr

structure RoutineState where
  heap : Heap
  held : List Chunk
  /-- How many chunks were served from each segment. -/
  handedOut : ℕ → ℕ

/-- `compile` has just recorded the routine's site under its slot. -/
def RoutineState.initial (spec : RoutineSpec) (slot : ℕ) : RoutineState where
  heap := { Heap.empty with
    slotToSite := Function.update (fun _ => 0) slot spec.id }
  held := []
  handedOut := fun _ => 0

inductive RoutineAction
  /-- Thread `tid` calls the routine; `mmap` would return `base`. -/
  | alloc (tid request base : ℕ)
  /-- A client writes into a chunk it holds. -/
  | write (chunk : Chunk) (offset : ℕ) (byte : UInt8)
  | free (tid : ℕ) (chunk : Chunk)
  | sweep (mode : ReapMode) (pred : Option (ℕ → Bool)) (pageSize : ℕ)

/-- A chunk of a segment that is still managed goes to `free_managed`. -/
def freeChunk (layout : SegmentLayout) (heap : Heap) (tid ptr : ℕ) :
    Option Heap :=
  let base := segmentOf layout ptr
  if isManaged layout heap base then freeManaged heap tid base ptr
  else some heap

def routineStep (layout : SegmentLayout) (spec : RoutineSpec) (slot : ℕ)
    (state : RoutineState) : RoutineAction → Option RoutineState
  | .alloc tid request base =>
      if Fresh layout state.heap base then
        (routine layout spec slot tid request base state.heap).map fun result =>
          match result with
          | (heap, .deopt) => { state with heap := heap }
          | (heap, .chunk ptr) =>
              { heap := heap
                held := ⟨ptr, request⟩ :: state.held
                handedOut := Function.update state.handedOut
                  (segmentOf layout ptr)
                  (state.handedOut (segmentOf layout ptr) + 1) }
      else none
  | .write chunk offset byte =>
      if chunk ∈ state.held ∧ offset < chunk.size then
        some { state with
          heap := { state.heap with
            memory := Function.update state.heap.memory (chunk.ptr + offset)
              byte } }
      else none
  | .free tid chunk =>
      if chunk ∈ state.held then
        (freeChunk layout state.heap tid chunk.ptr).map fun heap =>
          { state with heap := heap, held := state.held.erase chunk }
      else none
  | .sweep mode pred pageSize =>
      some { state with
        heap := (reaperSweep layout mode pred pageSize state.heap).1 }

/-- The states a compiled routine and its users can reach. -/
def RoutineReachable (layout : SegmentLayout) (spec : RoutineSpec) (slot : ℕ) :
    RoutineState → Prop :=
  Transition.Reachable (routineStep layout spec slot)
    (RoutineState.initial spec slot)

theorem RoutineReachable.initial (layout : SegmentLayout) (spec : RoutineSpec)
    (slot : ℕ) :
    RoutineReachable layout spec slot (RoutineState.initial spec slot) :=
  .start

/-- A call that serves a chunk hands it to a client. -/
theorem RoutineReachable.serve {layout : SegmentLayout} {spec : RoutineSpec}
    {slot : ℕ} {state : RoutineState}
    (hreach : RoutineReachable layout spec slot state)
    {tid request base ptr : ℕ} {heap : Heap}
    (hfresh : Fresh layout state.heap base)
    (hroutine : routine layout spec slot tid request base state.heap =
      some (heap, .chunk ptr)) :
    RoutineReachable layout spec slot
      ⟨heap, ⟨ptr, request⟩ :: state.held,
        Function.update state.handedOut (segmentOf layout ptr)
          (state.handedOut (segmentOf layout ptr) + 1)⟩ := by
  refine Transition.Reachable.act (.alloc tid request base) hreach ?_
  rw [routineStep, if_pos hfresh, hroutine]
  rfl

end TbjitAlloc.Codegen
