import TbjitAlloc.Trampoline.Origin

/-!
# Resizing a managed chunk

`realloc` moves a chunk of a managed segment: it calls `malloc`, copies what
both blocks can hold, and frees the old chunk.  The nested `malloc` may answer
with anything and may change everything but the caller's chunk.  The chunk is
freed whatever the answer was, so a failed resize loses it.  A chunk that goes
back to a list or a queue gets a link in its first eight bytes; where it is
shorter than that, the link can run into the block the contents were copied to.
-/

namespace TbjitAlloc.Trampoline

open TbjitAlloc.ByteMemory
open TbjitAlloc.Codegen
open TbjitAlloc.Segment
open TbjitAlloc.Transition

/-- The bytes a chunk can be resized from: its chunk size or, where the segment
has chunks of any size, the rest of its segment. -/
def Process.capacity (image : Image) (process : Process) (ptr : ℕ) : ℕ :=
  let base := segmentOf image.layout ptr
  let chunkSize := ((process.heap.loadHeader base).map
    SegmentHeader.chunkSize).getD 0
  if 0 < chunkSize then chunkSize else segmentEnd image.layout base - ptr

theorem moveBytes_eq (image : Image) (process : Process) (ptr size : ℕ) :
    process.moveBytes image ptr size =
      min size (process.capacity image ptr) := rfl

/-- How often a pointer has been handed to `free_managed`. -/
def Process.releases (process : Process) (ptr : ℕ) : ℕ :=
  process.log.countP fun entry =>
    entry.receiver = .freeManaged ∧ entry.ptr = ptr

/-- The calls of a thread run instrumented. -/
structure Active (process : Process) (tid : ℕ) : Prop where
  initialized : process.initialized = true
  running : process.shuttingDown = false
  open_ : process.guard tid = false
  resolved : process.realFree = true

/-- A thread calls `realloc` on a managed pointer, with a size other than
zero. -/
structure Resizes (image : Image) (process : Process) (tid ptr size : ℕ)
    (rest : List Frame) : Prop where
  stack : process.stack tid = .starting (.realloc ptr size) :: rest
  active : Active process tid
  outside : isBootstrap image ptr = false
  nonnull : ptr ≠ 0
  managed : process.manages image ptr = true
  size_ne : size ≠ 0

/-- The nested `malloc` has returned.  The chunk is still the caller's.  A block
that was served is apart from it; only an `EpochArena` that starts over can serve
the chunk itself again. -/
structure Answers (image : Image) (asked answered : Process)
    (tid ptr size result : ℕ) : Prop where
  stack : answered.stack tid = (asked.stack tid).tail
  returned : answered.returned tid = some result
  active : Active answered tid
  managed : answered.manages image ptr = true
  kept : AgreeOn answered.heap.memory asked.heap.memory ptr
    (ptr + asked.capacity image ptr)
  unreleased : answered.releases ptr = asked.releases ptr
  apart : result ≠ 0 → result = ptr ∨ result + size ≤ ptr ∨
    ptr + asked.capacity image ptr ≤ result

/-- The resize has happened as a whole or not at all. -/
structure ReallocAtomic (image : Image) (before after : Process)
    (tid ptr size result : ℕ) : Prop where
  returned : after.returned tid = some result
  moved : result ≠ 0 →
    (∀ i < min size (before.capacity image ptr),
      after.heap.memory (result + i) = before.heap.memory (ptr + i)) ∧
      after.releases ptr = before.releases ptr + 1
  survives : result = 0 →
    AgreeOn after.heap.memory before.heap.memory ptr
        (ptr + before.capacity image ptr) ∧
      after.releases ptr = before.releases ptr

theorem ret_returned_self (process : Process) (tid result : ℕ) :
    (process.ret tid result).returned tid = some result :=
  Function.update_self _ _ _

theorem setGuard_guard_self (process : Process) (tid : ℕ) (held : Bool) :
    (process.setGuard tid held).guard tid = held :=
  Function.update_self _ _ _

/-! ## The free -/

/-- The link that a free by `tid` stores at the start of a chunk, if the chunk
goes to a list or to a queue. -/
def freedLink (heap : Heap) (tid base : ℕ) : Option ℕ :=
  (heap.loadHeader base).bind fun header =>
    if header.retired then none
    else
      match header.strategy with
      | .producerConsumer => some header.remoteHead
      | .threadLocalFreeList =>
          some (if header.ownerTid = tid then
            listHead heap tid (.single header.slotIndex)
          else header.remoteHead)
      | .multiSizeFreeList =>
          some (if header.ownerTid = tid then
            listHead heap tid (.sizeClass header.slotIndex header.classIdx)
          else header.remoteHead)
      | _ => none

def storeLink (memory : Memory) (ptr : ℕ) : Option ℕ → Memory
  | none => memory
  | some link => writeWord memory ptr link

/-- `free_managed` writes its link and nothing else. -/
theorem freeManaged_memory (heap : Heap) (tid base ptr : ℕ) :
    ((freeManaged heap tid base ptr).getD heap).memory =
      storeLink heap.memory ptr (freedLink heap tid base) := by
  cases hload : heap.loadHeader base with
  | none => simp [freeManaged, freedLink, hload, storeLink]
  | some header =>
      have hlist : ∀ ref, ((freeToList heap ref tid base ptr header).getD
          heap).memory =
          storeLink heap.memory ptr
            (if header.retired then none
              else some (if header.ownerTid = tid then listHead heap tid ref
                else header.remoteHead)) := by
        intro ref
        rw [freeToList]
        split
        · rfl
        · split
          · exact setListHead_memory _ _ _ _
          · rw [mpscPush, hload]
            rfl
      simp only [freeManaged, freedLink, hload, Option.bind_some]
      cases header.strategy with
      | generic => cases header.retired <;> rfl
      | bumpAlloc => cases header.retired <;> rfl
      | epochArena => cases header.retired <;> rfl
      | threadLocalFreeList => exact hlist _
      | multiSizeFreeList => exact hlist _
      | producerConsumer =>
          dsimp only
          by_cases hretired : header.retired = true
          · rw [if_pos hretired, if_pos hretired]
            rfl
          · rw [if_neg hretired, if_neg hretired, mpscPush, hload]
            rfl
      | pairedStack =>
          have hrewind : (pairedLifoRewind heap tid base ptr header).memory =
              heap.memory := by
            rw [pairedLifoRewind]
            dsimp only
            split <;> rfl
          dsimp only
          split <;> cases header.retired <;> first | exact hrewind | rfl

/-- The link leaves the copy of a chunk's first `count` bytes alone: it is not
stored over them, or repeats them. -/
def SparesCopy (link : Option ℕ) (memory : Memory) (ptr result count : ℕ) :
    Prop :=
  ∀ word, link = some word → ∀ i < count, ptr ≤ result + i →
    result + i < ptr + pointerSize →
    UInt8.ofNat (word / 256 ^ (result + i - ptr)) = memory (ptr + i)

theorem sparesCopy_none (memory : Memory) (ptr result count : ℕ) :
    SparesCopy none memory ptr result count :=
  fun _ hlink => nomatch hlink

/-- A block that starts a link's width after the chunk, or ends before it, is
out of reach. -/
theorem sparesCopy_of_apart (link : Option ℕ) (memory : Memory)
    {ptr result count : ℕ}
    (hapart : result + count ≤ ptr ∨ ptr + pointerSize ≤ result) :
    SparesCopy link memory ptr result count := by
  intro _ _ i hi hlow hhigh
  omega

/-- A copy and then the link: the block has the chunk's bytes exactly when the
link spares them. -/
theorem storeLink_copyBytes_iff (link : Option ℕ) (memory : Memory)
    (ptr result count : ℕ) :
    (∀ i < count, storeLink (copyBytes memory result ptr count) ptr link
        (result + i) = memory (ptr + i)) ↔
      SparesCopy link memory ptr result count := by
  have hcopied : ∀ i < count,
      copyBytes memory result ptr count (result + i) = memory (ptr + i) := by
    intro i hi
    rw [copyBytes, if_pos ⟨Nat.le_add_right _ _, by omega⟩,
      Nat.add_sub_cancel_left]
  cases link with
  | none => exact ⟨fun _ => sparesCopy_none _ _ _ _, fun _ => hcopied⟩
  | some word =>
      constructor
      · rintro hkept _ ⟨⟩ i hi hlow hhigh
        have hbyte := hkept i hi
        rwa [storeLink, writeWord, writeBytes, if_pos ⟨hlow, hhigh⟩] at hbyte
      · intro hspares i hi
        rw [storeLink, writeWord, writeBytes]
        split
        · next hinside => exact hspares word rfl i hi hinside.1 hinside.2
        · exact hcopied i hi

/-- Only the copied bytes of the chunk are compared. -/
theorem SparesCopy.congr {link : Option ℕ} {memory memory' : Memory}
    {ptr result count : ℕ} (hspares : SparesCopy link memory ptr result count)
    (hagree : AgreeOn memory' memory ptr (ptr + count)) :
    SparesCopy link memory' ptr result count := by
  intro word hword i hi hlow hhigh
  rw [hagree _ (Nat.le_add_right _ _) (by omega)]
  exact hspares word hword i hi hlow hhigh

section Steps

variable {image : Image} {process : Process} {tid ptr size result : ℕ}
variable {rest : List Frame}

/-- A chunk goes to `realloc`'s own `malloc` first. -/
theorem step_ladder_realloc
    (hresizes : Resizes image process tid ptr size rest) (answer : ℕ) :
    step image process (.ladder tid answer) =
      some ((process.pop tid rest).push tid [.starting (.malloc size),
        .moving ptr (min size (process.capacity image ptr))]) := by
  have hroute : process.reallocRoute image tid ptr size =
      .nested (.malloc size) (.moving ptr (process.moveBytes image ptr size)) := by
    simp [Process.reallocRoute, hresizes.outside, hresizes.active.initialized,
      hresizes.active.running, hresizes.active.open_, hresizes.nonnull,
      hresizes.managed, hresizes.size_ne]
  rw [step, hresizes.stack]
  simp only [Process.route, hroute, Process.follow, moveBytes_eq]

/-- What the nested `malloc` finds: the heap and the flags as they were. -/
theorem Resizes.asked {asked : Process} {answer : ℕ}
    (hresizes : Resizes image process tid ptr size rest)
    (hasked : step image process (.ladder tid answer) = some asked) :
    asked.stack tid = .starting (.malloc size) ::
        .moving ptr (min size (process.capacity image ptr)) :: rest ∧
      Active asked tid ∧ asked.heap = process.heap ∧
      asked.libcLive = process.libcLive ∧ asked.log = process.log := by
  rw [step_ladder_realloc hresizes, Option.some.injEq] at hasked
  rw [← hasked, push_stack_self, pop_stack_self]
  exact ⟨rfl, ⟨hresizes.active.initialized, hresizes.active.running,
    hresizes.active.open_, hresizes.active.resolved⟩, rfl, rfl, rfl⟩

theorem step_ladder_free (hstack : process.stack tid = .starting (.free ptr) ::
      rest) (hactive : Active process tid)
    (houtside : isBootstrap image ptr = false) (answer : ℕ) :
    step image process (.ladder tid answer) =
      some (((process.pop tid rest).push tid [.body (.free ptr)]).setGuard tid
        true) := by
  have hroute : process.freeRoute image tid ptr = .guarded := by
    simp [Process.freeRoute, houtside, hactive.initialized, hactive.running,
      hactive.open_, hactive.resolved]
  rw [step, hstack]
  simp only [Process.route, hroute, Process.follow]

/-- The body of the free hands the chunk over once. -/
theorem step_finish_free (hstack : process.stack tid = .body (.free ptr) ::
      rest) (hnonnull : ptr ≠ 0) (hmanaged : process.manages image ptr = true)
    (served : Served) :
    ∃ next, step image process (.finish tid served) = some next ∧
      next.stack tid = rest ∧ next.returned tid = some 0 ∧
      next.releases ptr = process.releases ptr + 1 ∧
      next.heap.memory = storeLink process.heap.memory ptr
        (freedLink process.heap tid (segmentOf image.layout ptr)) := by
  have hmanages : (process.pop tid rest).manages image ptr = true := hmanaged
  rw [step, hstack]
  refine ⟨_, rfl, ?_⟩
  rw [Process.freeBody, if_neg hnonnull, if_pos hmanages]
  exact ⟨Function.update_self _ _ _, Function.update_self _ _ _,
    List.countP_cons_of_pos (by simp [Process.passed]),
    freeManaged_memory process.heap tid _ ptr⟩

/-- What `realloc` does once its `malloc` has returned: copy, free, return. -/
theorem run_moving {bytes : ℕ}
    (hstack : process.stack tid = .moving ptr bytes :: rest)
    (hreturned : process.returned tid = some result)
    (hactive : Active process tid) (houtside : isBootstrap image ptr = false)
    (hnonnull : ptr ≠ 0) (hmanaged : process.manages image ptr = true)
    (answer : ℕ) (served : Served) :
    ∃ after, run (step image) process [.resume tid, .ladder tid answer,
        .finish tid served, .resume tid] = some after ∧
      after.stack tid = rest ∧ after.returned tid = some result ∧
      after.releases ptr = process.releases ptr + 1 ∧
      after.heap.memory = storeLink
        (if result = 0 then process.heap.memory
          else copyBytes process.heap.memory result ptr bytes) ptr
        (freedLink process.heap tid (segmentOf image.layout ptr)) := by
  have hresume : step image process (.resume tid) =
      some (((process.pop tid rest).copy result ptr bytes).push tid
        [.starting (.free ptr), .releasing result]) := by
    rw [step, hstack, hreturned]
    rfl
  generalize hcopied : ((process.pop tid rest).copy result ptr bytes).push tid
    [.starting (.free ptr), .releasing result] = copied at hresume
  have hcopiedStack : copied.stack tid =
      .starting (.free ptr) :: .releasing result :: rest := by
    rw [← hcopied, push_stack_self, Process.copy]
    split <;> rw [pop_stack_self] <;> rfl
  have hcopiedActive : Active copied tid := by
    rw [← hcopied, Process.copy]
    split <;> exact ⟨hactive.initialized, hactive.running, hactive.open_,
      hactive.resolved⟩
  have hcopiedManaged : copied.manages image ptr = true := by
    rw [← hcopied, Process.copy]
    split <;> exact hmanaged
  have hcopiedReleases : copied.releases ptr = process.releases ptr := by
    rw [← hcopied, Process.copy]
    split <;> rfl
  have hcopiedMemory : copied.heap.memory =
      if result = 0 then process.heap.memory
      else copyBytes process.heap.memory result ptr bytes := by
    rw [← hcopied, Process.copy]
    split <;> rfl
  have hcopiedLink : ∀ base, freedLink copied.heap tid base =
      freedLink process.heap tid base := by
    rw [← hcopied, Process.copy]
    split <;> exact fun _ => rfl
  have hladder := step_ladder_free hcopiedStack hcopiedActive houtside answer
  generalize hfreeing : ((copied.pop tid (.releasing result :: rest)).push tid
    [.body (.free ptr)]).setGuard tid true = freeing at hladder
  have hfreeingStack : freeing.stack tid =
      .body (.free ptr) :: .releasing result :: rest := by
    rw [← hfreeing]
    change ((copied.pop tid (.releasing result :: rest)).push tid
      [.body (.free ptr)]).stack tid = _
    rw [push_stack_self, pop_stack_self]
    rfl
  have hfreeingManaged : freeing.manages image ptr = true := by
    rw [← hfreeing]
    exact hcopiedManaged
  obtain ⟨freed, hfinish, hfreedStack, hfreedReturned, hfreedReleases,
    hfreedMemory⟩ := step_finish_free hfreeingStack hnonnull hfreeingManaged
      served
  have hlast : step image freed (.resume tid) =
      some ((freed.pop tid rest).ret tid result) := by
    rw [step, hfreedStack, hfreedReturned]
    rfl
  refine ⟨(freed.pop tid rest).ret tid result, ?_, pop_stack_self _ _ _,
    Function.update_self _ _ _, ?_, ?_⟩
  · simp only [run, hresume, hladder, hfinish, hlast, Option.bind_some]
  · change freed.releases ptr = _
    rw [hfreedReleases, ← hcopiedReleases, ← hfreeing]
    rfl
  · change freed.heap.memory = _
    rw [hfreedMemory, ← hcopiedMemory, ← hcopiedLink, ← hfreeing]
    rfl

end Steps

/-- `realloc` of a managed chunk is atomic and keeps the contents exactly when
its `malloc` returns a block and the link of its free spares the copy.  Without
a block it frees the chunk all the same. -/
theorem reallocAtomic_iff {image : Image} {process asked answered : Process}
    {tid ptr size result answer : ℕ} {rest : List Frame}
    (hresizes : Resizes image process tid ptr size rest)
    (hasked : step image process (.ladder tid answer) = some asked)
    (hanswers : Answers image asked answered tid ptr size result)
    (served : Served) :
    ∃ after, run (step image) answered [.resume tid, .ladder tid answer,
        .finish tid served, .resume tid] = some after ∧
      after.stack tid = rest ∧
      (ReallocAtomic image process after tid ptr size result ↔
        result ≠ 0 ∧ SparesCopy
          (freedLink answered.heap tid (segmentOf image.layout ptr))
          process.heap.memory ptr result
          (min size (process.capacity image ptr))) := by
  obtain ⟨haskedStack, -, hheap, -, hlog⟩ := hresizes.asked hasked
  have hcapacity : asked.capacity image ptr = process.capacity image ptr := by
    rw [Process.capacity, hheap, Process.capacity]
  have hreleases : answered.releases ptr = process.releases ptr := by
    rw [hanswers.unreleased, Process.releases, hlog, Process.releases]
  have hstack : answered.stack tid =
      .moving ptr (min size (process.capacity image ptr)) :: rest := by
    rw [hanswers.stack, haskedStack]
    rfl
  have hkept : AgreeOn answered.heap.memory process.heap.memory ptr
      (ptr + process.capacity image ptr) := by
    have hkept := hanswers.kept
    rwa [hcapacity, hheap] at hkept
  obtain ⟨after, hrun, hafterStack, hafterReturned, hafterReleases,
    hafterMemory⟩ := run_moving hstack hanswers.returned hanswers.active
      hresizes.outside hresizes.nonnull hanswers.managed answer served
  have hcount : ptr + min size (process.capacity image ptr) ≤
      ptr + process.capacity image ptr := by omega
  have hkept' : AgreeOn answered.heap.memory process.heap.memory ptr
      (ptr + min size (process.capacity image ptr)) :=
    fun address hlow hhigh => hkept address hlow (hhigh.trans_le hcount)
  refine ⟨after, hrun, hafterStack, fun hatomic => ?_, ?_⟩
  · have hblock : result ≠ 0 := by
      intro hnull
      have hsurvives := (hatomic.survives hnull).2
      rw [hafterReleases, hreleases] at hsurvives
      omega
    rw [if_neg hblock] at hafterMemory
    refine ⟨hblock, SparesCopy.congr ?_ fun address hlow hhigh =>
      (hkept' address hlow hhigh).symm⟩
    rw [← storeLink_copyBytes_iff, ← hafterMemory]
    intro i hi
    rw [(hatomic.moved hblock).1 i hi, hkept' _ (Nat.le_add_right _ _) (by omega)]
  · rintro ⟨hblock, hspares⟩
    rw [if_neg hblock] at hafterMemory
    refine ⟨hafterReturned, fun _ => ⟨fun i hi => ?_, ?_⟩,
      fun hnull => absurd hnull hblock⟩
    · calc after.heap.memory (result + i)
          = answered.heap.memory (ptr + i) := by
            rw [hafterMemory]
            exact (storeLink_copyBytes_iff _ _ _ _ _).mpr
              (hspares.congr hkept') i hi
        _ = process.heap.memory (ptr + i) :=
            hkept' _ (Nat.le_add_right _ _) (by omega)
    · rw [hafterReleases, hreleases]

/-! ## A resize from the real allocator -/

/-- The real allocator's answer changes what it holds and nothing else. -/
theorem exists_libcServe {image : Image} {process : Process} {ptr : ℕ}
    (hserves : process.libcCanServe image ptr = true) :
    ∃ live, process.libcServe image ptr =
      some { process with libcLive := live } := by
  rw [Process.libcServe, if_pos hserves]
  split
  · exact ⟨process.libcLive, rfl⟩
  · exact ⟨_, rfl⟩

/-- A nested `malloc` that the real allocator serves keeps the chunk. -/
theorem exists_answers_libc {image : Image} {asked : Process}
    {tid ptr size result : ℕ} {frames : List Frame}
    (hstack : asked.stack tid = .starting (.malloc size) :: frames)
    (hactive : Active asked tid) (hmanaged : asked.manages image ptr = true)
    (hserves : asked.libcCanServe image result = true)
    (hapart : result ≠ 0 → result = ptr ∨ result + size ≤ ptr ∨
      ptr + asked.capacity image ptr ≤ result) :
    ∃ answered, run (step image) asked [.ladder tid 0,
        .finish tid (.libc result)] = some answered ∧
      Answers image asked answered tid ptr size result := by
  have hroute : asked.mallocRoute tid size = .guarded := by
    simp [Process.mallocRoute, hactive.initialized, hactive.running,
      hactive.open_]
  have hladder : step image asked (.ladder tid 0) =
      some (((asked.pop tid frames).push tid [.body (.malloc size)]).setGuard
        tid true) := by
    rw [step, hstack]
    simp only [Process.route, hroute, Process.follow]
  generalize hinside : ((asked.pop tid frames).push tid
    [.body (.malloc size)]).setGuard tid true = inside at hladder
  have hinsideStack : inside.stack tid = .body (.malloc size) :: frames := by
    rw [← hinside]
    change ((asked.pop tid frames).push tid [.body (.malloc size)]).stack tid = _
    rw [push_stack_self, pop_stack_self]
    rfl
  have hinsideServes :
      (inside.pop tid frames).libcCanServe image result = true := by
    rw [← hinside]
    exact hserves
  obtain ⟨live, hlive⟩ := exists_libcServe hinsideServes
  have hfinish : step image inside (.finish tid (.libc result)) =
      some ((Process.setGuard { inside.pop tid frames with
        libcLive := live } tid false).ret tid result) := by
    rw [step, hinsideStack]
    simp only [Process.finish, Process.serve, hlive, Option.map_some]
  generalize hanswered : (Process.setGuard { inside.pop tid frames with
    libcLive := live } tid false).ret tid result = answered at hfinish
  refine ⟨answered, by simp only [run, hladder, hfinish, Option.bind_some], ?_⟩
  have hguard : answered.guard tid = false := by
    rw [← hanswered]
    exact setGuard_guard_self _ tid false
  have hreturned : answered.returned tid = some result := by
    rw [← hanswered]
    exact ret_returned_self _ tid result
  have hanswerStack : answered.stack tid = frames := by
    rw [← hanswered]
    exact pop_stack_self inside tid frames
  have hsame : answered.initialized = asked.initialized ∧
      answered.shuttingDown = asked.shuttingDown ∧
      answered.realFree = asked.realFree ∧ answered.heap = asked.heap ∧
      answered.log = asked.log := by
    subst hanswered hinside
    dsimp only [Process.ret, Process.setGuard, Process.pop, Process.push]
    exact ⟨rfl, rfl, rfl, rfl, rfl⟩
  obtain ⟨hinit, hrunning, hresolved, hheap, hlog⟩ := hsame
  exact {
    stack := by rw [hanswerStack, hstack]; rfl
    returned := hreturned
    active := ⟨hinit.trans hactive.initialized, hrunning.trans hactive.running,
      hguard, hresolved.trans hactive.resolved⟩
    managed := by rw [Process.manages, hheap]; exact hmanaged
    kept := fun _ _ _ => by rw [hheap]
    unreleased := by rw [Process.releases, hlog, Process.releases]
    apart := hapart }

/-- Thread 1 grows the chunk it was served first. -/
def grows : List Label :=
  startUp ++ [.call 1 (.realloc 2097216 128)]

/-- The state in which the ladder of that call starts. -/
theorem exists_resizes :
    ∃ process, run (step smallImage) .initial grows = some process ∧
      Resizes smallImage process 1 2097216 128 [] ∧
      process.capacity smallImage 2097216 = 64 ∧
      process.releases 2097216 = 0 ∧ process.libcLive = [] := by
  have hstate : ((run (step smallImage) .initial grows).any fun process =>
      decide (process.stack 1 = [.starting (.realloc 2097216 128)]) &&
        process.initialized && !process.shuttingDown && !process.guard 1 &&
        process.realFree && process.manages smallImage 2097216 &&
        decide (process.capacity smallImage 2097216 = 64) &&
        decide (process.releases 2097216 = 0) &&
        decide (process.libcLive = [])) = true := by
    decide +kernel
  obtain ⟨process, hrun, hstate⟩ := (Option.any_eq_true _ _).mp hstate
  simp only [Bool.and_eq_true, Bool.not_eq_true', decide_eq_true_eq] at hstate
  obtain ⟨⟨⟨⟨⟨⟨⟨⟨hstack, hinit⟩, hrunning⟩, hopen⟩, hfree⟩, hmanaged⟩,
    hcapacity⟩, hreleases⟩, hlive⟩ := hstate
  exact ⟨process, hrun, ⟨hstack, ⟨hinit, hrunning, hopen, hfree⟩, by decide,
    by decide, hmanaged, by decide⟩, hcapacity, hreleases, hlive⟩

/-- Where the real allocator has a block for it, the chunk is moved. -/
theorem reallocAtomic_grown :
    ∃ process asked answered after,
      run (step smallImage) .initial grows = some process ∧
      step smallImage process (.ladder 1 0) = some asked ∧
      run (step smallImage) asked
        [.ladder 1 0, .finish 1 (.libc 4194304)] = some answered ∧
      run (step smallImage) answered [.resume 1, .ladder 1 0,
        .finish 1 (.libc 0), .resume 1] = some after ∧
      ReallocAtomic smallImage process after 1 2097216 128 4194304 := by
  obtain ⟨process, hrun, hresizes, hcapacity, -, hlive⟩ := exists_resizes
  have hasked := step_ladder_realloc hresizes 0
  generalize (process.pop 1 []).push 1 [.starting (.malloc 128), .moving 2097216
    (min 128 (process.capacity smallImage 2097216))] = asked at hasked
  obtain ⟨hstack, hactive, hheap, haskedLive, -⟩ := hresizes.asked hasked
  have hmanaged : asked.manages smallImage 2097216 = true := by
    rw [Process.manages, hheap]
    exact hresizes.managed
  have hserves : asked.libcCanServe smallImage 4194304 = true := by
    have hfree : ((run (step smallImage) .initial grows).any fun process =>
        !process.manages smallImage 4194304) = true := by decide +kernel
    rw [hrun, Option.any_some, Bool.not_eq_true', Process.manages] at hfree
    simp only [Process.libcCanServe, Process.manages, haskedLive, hlive, hheap,
      hfree]
    decide
  have hapart : 2097216 + asked.capacity smallImage 2097216 ≤ 4194304 := by
    rw [Process.capacity, hheap, ← Process.capacity, hcapacity]
    decide
  obtain ⟨answered, hanswered, hanswers⟩ :=
    exists_answers_libc hstack hactive hmanaged hserves fun _ =>
      .inr (.inr hapart)
  obtain ⟨after, hafter, -, hatomic⟩ :=
    reallocAtomic_iff hresizes hasked hanswers (.libc 0)
  exact ⟨process, asked, answered, after, hrun, hasked, hanswered, hafter,
    hatomic.mpr ⟨by decide, sparesCopy_of_apart _ _ (.inr (by decide))⟩⟩

/-- The rest of the call when the real allocator has no block. -/
def exhausted : List Label :=
  [.ladder 1 0, .ladder 1 0, .finish 1 (.libc 0), .resume 1, .ladder 1 0,
    .finish 1 (.libc 0), .resume 1]

/-- The call returns null, and the chunk is freed. -/
theorem not_reallocAtomic_exhausted :
    ∃ process after, Reachable (step smallImage) .initial process ∧
      Resizes smallImage process 1 2097216 128 [] ∧
      run (step smallImage) process exhausted = some after ∧
      after.returned 1 = some 0 ∧ after.releases 2097216 = 1 ∧
      ¬ReallocAtomic smallImage process after 1 2097216 128 0 := by
  have hstate : ((run (step smallImage) .initial grows).any fun process =>
      (run (step smallImage) process exhausted).any fun after =>
        decide (after.returned 1 = some 0) &&
          decide (after.releases 2097216 = 1)) = true := by
    decide +kernel
  obtain ⟨process, hrun, hresizes, -, hreleases, -⟩ := exists_resizes
  rw [hrun, Option.any_some] at hstate
  obtain ⟨after, hafter, hstate⟩ := (Option.any_eq_true _ _).mp hstate
  rw [Bool.and_eq_true, decide_eq_true_eq, decide_eq_true_eq] at hstate
  refine ⟨process, after, reachable_of_run .start hrun, hresizes, hafter,
    hstate.1, hstate.2, fun hatomic => ?_⟩
  have hkept := (hatomic.survives rfl).2
  rw [hstate.2, hreleases] at hkept
  exact absurd hkept (by decide)

end TbjitAlloc.Trampoline
