import TbjitAlloc.Codegen.SlowInit
import TbjitAlloc.Core.Transition

/-!
# The interposed entry points

`malloc`, `free` and `realloc` as the trampoline defines them: each starts with
a ladder of early exits for the time before `tbjit_init` has finished, for the
time after `tbjit_fini`, and for re-entry, and ends in a body that runs with the
thread's guard set.  A thread is a stack of the calls it is in the middle of.
The ladder of a call is one step, and so is the end of its body; between them
other threads run, and the functions a guarded body calls (`dlsym` among them)
may enter the trampoline again.

The real allocator and the installed routines answer as they like, except that
the real allocator never returns memory that is in use and that `mmap` never
places a segment over memory that is.
-/

namespace TbjitAlloc.Trampoline

open TbjitAlloc.ByteMemory
open TbjitAlloc.Codegen
open TbjitAlloc.Segment

/-- `sizeof(g_bootstrap)`. -/
def bootstrapSize : ℕ := 64 * 1024

/-- What is fixed when the library is loaded: the segment size and the address
of `g_bootstrap`. -/
structure Image where
  layout : SegmentLayout
  bootstrap : ℕ
  bootstrap_pos : 0 < bootstrap
  bootstrap_lt : bootstrap + bootstrapSize < 2 ^ 47

inductive Call
  | init
  | malloc (size : ℕ)
  | free (ptr : ℕ)
  | realloc (ptr size : ℕ)
  deriving DecidableEq, Repr

/-- A call in progress.  `resolving` and `body` hold the thread's guard; the
last three are parts of `realloc` that wait for a nested call to return. -/
inductive Frame
  | starting (call : Call)
  | resolving (call : Call)
  | body (call : Call)
  | copying (source bytes : ℕ)
  | moving (ptr bytes : ℕ)
  | releasing (result : ℕ)
  | forwarding
  deriving DecidableEq, Repr

/-- The functions a pointer can be handed on to. -/
inductive Receiver
  | realFree
  | realRealloc
  | freeManaged
  deriving DecidableEq, Repr

/-- The pointer that waits for the real allocator to be found. -/
def Frame.returning : Frame → Option ℕ
  | .resolving (.free ptr) => some ptr
  | .resolving (.realloc ptr _) => some ptr
  | _ => none

/-- A record of a pointer handed on, with what was true of it at that time. -/
structure Passed where
  receiver : Receiver
  ptr : ℕ
  fromBootstrap : Bool
  managed : Bool
  fromLibc : Bool
  deriving DecidableEq, Repr

/-- The state of the process.  The last four fields are not state of the
program: the threads that have entered the trampoline, the pointers the
bootstrap arena has served, the live chunks of the real allocator, and the
pointers handed on so far. -/
structure Process where
  initialized : Bool
  shuttingDown : Bool
  realMalloc : Bool
  realFree : Bool
  realRealloc : Bool
  guard : ℕ → Bool
  stack : ℕ → List Frame
  returned : ℕ → Option ℕ
  bootstrapUsed : ℕ
  heap : Heap
  threads : List ℕ
  bootstrapServed : List ℕ
  libcLive : List ℕ
  log : List Passed

/-- The process as it is loaded. -/
def Process.initial : Process where
  initialized := false
  shuttingDown := false
  realMalloc := false
  realFree := false
  realRealloc := false
  guard := fun _ => false
  stack := fun _ => []
  returned := fun _ => none
  bootstrapUsed := 0
  heap := .empty
  threads := []
  bootstrapServed := []
  libcLive := []
  log := []

section Ladders

variable (image : Image)

def isBootstrap (ptr : ℕ) : Bool :=
  image.bootstrap ≤ ptr ∧ ptr < image.bootstrap + bootstrapSize

/-- `is_managed(of(ptr))`. -/
def Process.manages (process : Process) (ptr : ℕ) : Bool :=
  isManaged image.layout process.heap (segmentOf image.layout ptr)

/-- The size a request takes in the arena, in 64 bits. -/
def bootstrapAligned (size : ℕ) : ℕ :=
  (size + 15) % 2 ^ 64 / 16 * 16

/-- `bootstrap_alloc`'s answer when `used` bytes are taken. -/
def bootstrapAlloc (used size : ℕ) : ℕ :=
  if bootstrapSize < (used + bootstrapAligned size) % 2 ^ 64 then 0
  else (image.bootstrap + used) % 2 ^ 64

/-- Where a ladder leads. -/
inductive Route
  | resolve
  | guarded
  | bootstrap (size : ℕ)
  | callMalloc (size : ℕ)
  | callFree (ptr : ℕ)
  | callRealloc (ptr size : ℕ)
  | drop (result : ℕ)
  | nested (call : Call) (frame : Frame)
  deriving DecidableEq, Repr

/-- The end of a call once `resolve_real_allocators` has returned. -/
def Process.afterResolve (process : Process) : Call → Route
  | .init => .drop 0
  | .malloc size =>
      if process.realMalloc then .callMalloc size else .bootstrap size
  | .free ptr => if process.realFree then .callFree ptr else .drop 0
  | .realloc ptr size =>
      if process.realRealloc then .callRealloc ptr size
      else if ptr ≠ 0 then .drop ptr else .bootstrap size

/-- The real function a call needs is known. -/
def Process.resolved (process : Process) : Call → Bool
  | .init => false
  | .malloc _ => process.realMalloc
  | .free _ => process.realFree
  | .realloc _ _ => process.realRealloc

/-- The part of every ladder before `tbjit_init` has finished.  A thread that is
already inside `dlsym` does not start another resolution. -/
def Process.preInitRoute (process : Process) (tid : ℕ) (call : Call) : Route :=
  if process.resolved call ∨ process.guard tid then process.afterResolve call
  else .resolve

def Process.mallocRoute (process : Process) (tid size : ℕ) : Route :=
  if ¬process.initialized then process.preInitRoute tid (.malloc size)
  else if process.shuttingDown then .callMalloc size
  else if process.guard tid then .callMalloc size
  else .guarded

def Process.freeRoute (process : Process) (tid ptr : ℕ) : Route :=
  if isBootstrap image ptr then .drop 0
  else if ¬process.initialized then process.preInitRoute tid (.free ptr)
  else if process.shuttingDown then
    if ptr ≠ 0 ∧ process.manages image ptr then .drop 0 else .callFree ptr
  else if process.guard tid ∨ ¬process.realFree then
    if process.realFree then .callFree ptr else .drop 0
  else .guarded

/-- How many bytes a moved chunk keeps: no more than its chunk or, where the
segment has chunks of any size, than the rest of its segment. -/
def Process.moveBytes (process : Process) (ptr size : ℕ) : ℕ :=
  let base := segmentOf image.layout ptr
  let chunkSize := ((process.heap.loadHeader base).map
    SegmentHeader.chunkSize).getD 0
  min size
    (if 0 < chunkSize then chunkSize else segmentEnd image.layout base - ptr)

def Process.reallocRoute (process : Process) (tid ptr size : ℕ) : Route :=
  if isBootstrap image ptr then
    .nested (.malloc size)
      (.copying ptr (min size (image.bootstrap + bootstrapSize - ptr)))
  else if ¬process.initialized then process.preInitRoute tid (.realloc ptr size)
  else if process.shuttingDown then .callRealloc ptr size
  else if process.guard tid then .callRealloc ptr size
  else if ptr = 0 then .nested (.malloc size) .forwarding
  else if process.manages image ptr then
    if size = 0 then .nested (.free ptr) (.releasing 0)
    else
      .nested (.malloc size) (.moving ptr (process.moveBytes image ptr size))
  else .callRealloc ptr size

def Process.route (process : Process) (tid : ℕ) : Call → Route
  | .init => process.preInitRoute tid .init
  | .malloc size => process.mallocRoute tid size
  | .free ptr => process.freeRoute image tid ptr
  | .realloc ptr size => process.reallocRoute image tid ptr size

end Ladders

section Steps

variable (image : Image)

/-- The record of a pointer handed on now. -/
def Process.passed (process : Process) (receiver : Receiver) (ptr : ℕ) :
    Passed where
  receiver := receiver
  ptr := ptr
  fromBootstrap := ptr ∈ process.bootstrapServed
  managed := process.manages image ptr
  fromLibc := ptr ∈ process.libcLive

def Process.hand (process : Process) (receiver : Receiver) (ptr : ℕ) :
    Process :=
  { process with log := process.passed image receiver ptr :: process.log }

/-- The innermost call of a thread returns. -/
def Process.ret (process : Process) (tid result : ℕ) : Process :=
  { process with
    returned := Function.update process.returned tid (some result) }

def Process.push (process : Process) (tid : ℕ) (frames : List Frame) :
    Process :=
  { process with
    stack := Function.update process.stack tid (frames ++ process.stack tid)
    returned := Function.update process.returned tid none }

@[simp] theorem push_stack_self (process : Process) (tid : ℕ)
    (frames : List Frame) :
    (process.push tid frames).stack tid = frames ++ process.stack tid :=
  Function.update_self _ _ _

theorem push_stack_of_ne (process : Process) {tid other : ℕ}
    (frames : List Frame) (hne : other ≠ tid) :
    (process.push tid frames).stack other = process.stack other :=
  Function.update_of_ne hne _ _

def Process.setGuard (process : Process) (tid : ℕ) (held : Bool) : Process :=
  { process with guard := Function.update process.guard tid held }

/-- The real allocator can answer with this pointer: null, or memory that is
neither its own live memory, nor the arena, nor part of a segment. -/
def Process.libcCanServe (process : Process) (ptr : ℕ) : Bool :=
  ptr = 0 ∨ (ptr ∉ process.libcLive ∧ isBootstrap image ptr = false ∧
    process.manages image ptr = false)

/-- The real allocator serves a pointer. -/
def Process.libcServe (process : Process) (ptr : ℕ) : Option Process :=
  if process.libcCanServe image ptr then
    some (if ptr = 0 then process
      else { process with libcLive := ptr :: process.libcLive })
  else none

def Process.libcRelease (process : Process) (ptr : ℕ) : Process :=
  { process with libcLive := process.libcLive.erase ptr }

/-- `real_free(ptr)`. -/
def Process.callFree (process : Process) (ptr : ℕ) : Process :=
  (process.hand image .realFree ptr).libcRelease ptr

/-- `real_realloc(ptr, size)` answering `result`: a null answer to a nonzero
size keeps the old block. -/
def Process.callRealloc (process : Process) (ptr size result : ℕ) :
    Option Process :=
  let process := process.hand image .realRealloc ptr
  if result = 0 ∧ size ≠ 0 then some process
  else (process.libcRelease ptr).libcServe image result

/-- `bootstrap_alloc`'s effect: the space is taken even when there is none. -/
def Process.bootstrapServe (process : Process) (size : ℕ) : Process :=
  let result := bootstrapAlloc image process.bootstrapUsed size
  { process with
    bootstrapUsed := (process.bootstrapUsed + bootstrapAligned size) % 2 ^ 64
    bootstrapServed :=
      if result = 0 then process.bootstrapServed
      else result :: process.bootstrapServed }

/-- Follow a ladder to its end; `answer` is what the real allocator returns if
it is asked. -/
def Process.follow (process : Process) (tid answer : ℕ) (call : Call) :
    Route → Option Process
  | .resolve => some ((process.push tid [.resolving call]).setGuard tid true)
  | .guarded => some ((process.push tid [.body call]).setGuard tid true)
  | .bootstrap size =>
      some ((process.bootstrapServe image size).ret tid
        (bootstrapAlloc image process.bootstrapUsed size))
  | .callMalloc _ =>
      (process.libcServe image answer).map fun next => next.ret tid answer
  | .callFree ptr => some ((process.callFree image ptr).ret tid 0)
  | .callRealloc ptr size =>
      (process.callRealloc image ptr size answer).map fun next =>
        next.ret tid answer
  | .drop result => some (process.ret tid result)
  | .nested call frame => some (process.push tid [.starting call, frame])

/-- Who serves an instrumented `malloc`: the routine from a segment, or the real
allocator, called by the trampoline or by the routine itself. -/
inductive Served
  | segment (ptr : ℕ)
  | libc (ptr : ℕ)
  deriving DecidableEq, Repr

def Process.serve (process : Process) : Served → Option (Process × ℕ)
  | .segment ptr =>
      if process.manages image ptr then some (process, ptr) else none
  | .libc ptr => (process.libcServe image ptr).map fun next => (next, ptr)

/-- The body of `free`. -/
def Process.freeBody (process : Process) (tid ptr : ℕ) : Process :=
  if ptr = 0 then process
  else if process.manages image ptr then
    let process := process.hand image .freeManaged ptr
    { process with
      heap := (freeManaged process.heap tid (segmentOf image.layout ptr)
        ptr).getD process.heap }
  else process.callFree image ptr

/-- The end of a guarded call: the guard is dropped and the call returns. -/
def Process.finish (process : Process) (tid : ℕ) (served : Served) :
    Frame → Option Process
  | .resolving call =>
      let answer := match served with
        | .segment _ => 0
        | .libc ptr => ptr
      (process.setGuard tid false).follow image tid answer call
        (process.afterResolve call)
  | .body (.malloc _) =>
      (process.serve image served).map fun result =>
        (result.1.setGuard tid false).ret tid result.2
  | .body (.free ptr) =>
      some (((process.freeBody image tid ptr).setGuard tid false).ret tid 0)
  | _ => none

/-- `memcpy`, unless the destination is null. -/
def Process.copy (process : Process) (target source bytes : ℕ) : Process :=
  if target = 0 then process
  else
    { process with
      heap := { process.heap with
        memory := copyBytes process.heap.memory target source bytes } }

/-- A part of `realloc` goes on with what its nested call returned. -/
def Process.resume (process : Process) (tid result : ℕ) :
    Frame → Option Process
  | .copying source bytes =>
      some ((process.copy result source bytes).ret tid result)
  | .moving ptr bytes =>
      some ((process.copy result ptr bytes).push tid
        [.starting (.free ptr), .releasing result])
  | .releasing kept => some (process.ret tid kept)
  | .forwarding => some (process.ret tid result)
  | _ => none

/-- A thread may enter the trampoline from the program or from a function that
a guarded call has called. -/
def canEnter : List Frame → Bool
  | [] => true
  | .resolving _ :: _ => true
  | .body _ :: _ => true
  | _ => false

/-- What `mmap` may return for a segment: an aligned range without live memory
of the real allocator and without a pointer on its way back to it. -/
def Process.canMap (process : Process) (base : ℕ) : Prop :=
  (base ≠ 0 ∧ image.layout.segmentSize ∣ base ∧
      base + image.layout.segmentSize < 2 ^ 47 ∧
      process.heap.mapped base = false) ∧
    (∀ ptr ∈ process.libcLive, segmentOf image.layout ptr ≠ base) ∧
    ∀ tid ∈ process.threads, ∀ frame ∈ process.stack tid,
      ∀ ptr ∈ frame.returning, segmentOf image.layout ptr ≠ base

instance (process : Process) (base : ℕ) :
    Decidable (process.canMap image base) :=
  inferInstanceAs (Decidable ((_ ∧ _ ∧ _ ∧ _) ∧ _ ∧ _))

inductive RealFunction
  | malloc
  | free
  | realloc
  deriving DecidableEq, Repr

inductive Label
  | call (tid : ℕ) (call : Call)
  | ladder (tid answer : ℕ)
  | resolve (tid : ℕ) (function : RealFunction)
  | finish (tid : ℕ) (served : Served)
  | resume (tid : ℕ)
  | ready
  | fini
  | mapSegment (tid : ℕ) (strategy : Strategy) (slot chunkSize base : ℕ)
  | unmapSegment (base : ℕ)

def Process.pop (process : Process) (tid : ℕ) (rest : List Frame) : Process :=
  { process with stack := Function.update process.stack tid rest }

@[simp] theorem pop_stack_self (process : Process) (tid : ℕ)
    (rest : List Frame) : (process.pop tid rest).stack tid = rest :=
  Function.update_self _ _ _

theorem pop_stack_of_ne (process : Process) {tid other : ℕ}
    (rest : List Frame) (hne : other ≠ tid) :
    (process.pop tid rest).stack other = process.stack other :=
  Function.update_of_ne hne _ _

def Process.setResolved (process : Process) : RealFunction → Process
  | .malloc => { process with realMalloc := true }
  | .free => { process with realFree := true }
  | .realloc => { process with realRealloc := true }

/-- A thread enters the trampoline. -/
def Process.enter (process : Process) (tid : ℕ) (call : Call) : Process :=
  { process.push tid [.starting call] with
    threads := if tid ∈ process.threads then process.threads
      else tid :: process.threads }

def step (process : Process) : Label → Option Process
  | .call tid call =>
      if canEnter (process.stack tid) then some (process.enter tid call)
      else none
  | .ladder tid answer =>
      match process.stack tid with
      | .starting call :: rest =>
          (process.pop tid rest).follow image tid answer call
            (process.route image tid call)
      | _ => none
  | .resolve tid function =>
      match process.stack tid with
      | .resolving _ :: _ => some (process.setResolved function)
      | _ => none
  | .finish tid served =>
      match process.stack tid with
      | frame :: rest => (process.pop tid rest).finish image tid served frame
      | [] => none
  | .resume tid =>
      match process.stack tid, process.returned tid with
      | frame :: rest, some result =>
          (process.pop tid rest).resume tid result frame
      | _, _ => none
  | .ready =>
      if process.realMalloc ∧ process.realFree ∧ process.realRealloc then
        some { process with initialized := true }
      else none
  | .fini =>
      if process.initialized then some { process with shuttingDown := true }
      else none
  | .mapSegment tid strategy slot chunkSize base =>
      if process.initialized ∧ process.canMap image base then
        some { process with
          heap := allocSegment image.layout process.heap tid strategy slot
            (process.heap.slotToSite slot) chunkSize base }
      else none
  | .unmapSegment base =>
      some { process with heap := freeSegment image.layout process.heap base }

end Steps

end TbjitAlloc.Trampoline
