import TbjitAlloc.Codegen.ListFamily
import TbjitAlloc.Trampoline.EntryPoints

/-!
# Pointers go back to the allocator they came from

The ladders of `free` and `realloc` decide by the state of the process, the
thread's guard and the pointer's origin.  The instrumented bodies look at the
origin, and so does `free` after shutdown; the branch a set guard takes does
not, nor does `realloc` after shutdown.  Runs that keep managed pointers out of
these branches, and in which the bootstrap arena never serves an address beyond
its end, hand every pointer to the right allocator.
-/

namespace TbjitAlloc.Trampoline

open TbjitAlloc.Codegen
open TbjitAlloc.Segment
open TbjitAlloc.Transition

/-- A pointer from the bootstrap arena or in a managed segment is not handed to
the real allocator, nor a live chunk of that to `free_managed`. -/
def Passed.Proper (entry : Passed) : Prop :=
  match entry.receiver with
  | .freeManaged => entry.fromLibc = false
  | _ => entry.fromBootstrap = false ∧ entry.managed = false

/-- Every pointer handed on so far went where it came from. -/
def ReturnsHome (process : Process) : Prop :=
  ∀ entry ∈ process.log, entry.Proper

section Condition

variable (image : Image)

/-- The arena refuses a request, or has not been used up to its end. -/
def ServesInside (used size : ℕ) : Prop :=
  bootstrapSize < (used + bootstrapAligned size) % 2 ^ 64 ∨
    used < bootstrapSize

/-- The route of the call that is about to leave its ladder. -/
def Process.nextRoute (process : Process) : Label → Option Route
  | .ladder tid _ =>
      match process.stack tid with
      | .starting call :: _ => some (process.route image tid call)
      | _ => none
  | .finish tid _ =>
      match process.stack tid with
      | .resolving call :: _ => some (process.afterResolve call)
      | _ => none
  | _ => none

/-- The branches that do not look at a pointer's origin are not taken with a
managed pointer: a `free` while running and a `realloc` while running or
afterwards with the guard set, and a `realloc` after shutdown.  The arena is not
asked when only addresses beyond it are left. -/
structure Permitted (process : Process) (label : Label) : Prop where
  guardedFree : ∀ tid answer ptr rest, label = .ladder tid answer →
    process.stack tid = .starting (.free ptr) :: rest →
    process.initialized = true → process.shuttingDown = false →
    process.guard tid = true → process.manages image ptr = false
  realloc : ∀ tid answer ptr size rest, label = .ladder tid answer →
    process.stack tid = .starting (.realloc ptr size) :: rest →
    process.initialized = true →
    process.shuttingDown = true ∨ process.guard tid = true →
    process.manages image ptr = false
  bootstrap : ∀ size, process.nextRoute image label = some (.bootstrap size) →
    ServesInside process.bootstrapUsed size

end Condition

section Invariant

variable (image : Image)

/-- A call that waits for the real allocator carries a pointer that may go
there; a `free` with its guard set has seen that its pointer is not from the
arena. -/
def FrameOk (process : Process) (frame : Frame) : Prop :=
  (∀ ptr ∈ frame.returning,
    isBootstrap image ptr = false ∧ process.manages image ptr = false) ∧
    ∀ ptr, frame = .body (.free ptr) → isBootstrap image ptr = false

structure ProcessOk (process : Process) : Prop where
  unmanaged : process.initialized = false →
    ∀ ptr, process.manages image ptr = false
  libc : ∀ ptr ∈ process.libcLive, process.manages image ptr = false
  served : ∀ ptr ∈ process.bootstrapServed, isBootstrap image ptr = true
  entered : ∀ tid, process.stack tid ≠ [] → tid ∈ process.threads
  frames : ∀ tid, ∀ frame ∈ process.stack tid, FrameOk image process frame
  home : ReturnsHome process

end Invariant

section Operations

variable {image : Image} {process : Process} {tid : ℕ}

theorem processOk_initial : ProcessOk image .initial where
  unmanaged := fun _ ptr => by
    simp [Process.manages, isManaged, Process.initial, Heap.empty]
  libc := fun _ h => by cases h
  served := fun _ h => by cases h
  entered := fun _ h => absurd rfl h
  frames := fun _ _ h => by cases h
  home := fun _ h => by cases h

theorem ProcessOk.setGuard (hok : ProcessOk image process) (held : Bool) :
    ProcessOk image (process.setGuard tid held) :=
  ⟨hok.unmanaged, hok.libc, hok.served, hok.entered, hok.frames, hok.home⟩

theorem ProcessOk.ret (hok : ProcessOk image process) (result : ℕ) :
    ProcessOk image (process.ret tid result) :=
  ⟨hok.unmanaged, hok.libc, hok.served, hok.entered, hok.frames, hok.home⟩

theorem ProcessOk.setResolved (hok : ProcessOk image process)
    (function : RealFunction) :
    ProcessOk image (process.setResolved function) := by
  cases function <;>
    exact ⟨hok.unmanaged, hok.libc, hok.served, hok.entered, hok.frames,
      hok.home⟩

/-- Taking the top frame off. -/
theorem ProcessOk.pop (hok : ProcessOk image process) {frame : Frame}
    {rest : List Frame} (hstack : process.stack tid = frame :: rest) :
    ProcessOk image (process.pop tid rest) where
  unmanaged := hok.unmanaged
  libc := hok.libc
  served := hok.served
  entered := fun other hother => by
    by_cases hid : other = tid
    · subst hid
      exact hok.entered other (by rw [hstack]; exact List.cons_ne_nil _ _)
    · refine hok.entered other fun hnil => hother ?_
      rw [pop_stack_of_ne _ _ hid, hnil]
  frames := fun other waiting hmem => by
    by_cases hid : other = tid
    · subst hid
      rw [pop_stack_self] at hmem
      exact hok.frames other waiting (by
        rw [hstack]
        exact List.mem_cons_of_mem _ hmem)
    · rw [pop_stack_of_ne _ _ hid] at hmem
      exact hok.frames other waiting hmem
  home := hok.home

theorem ProcessOk.push (hok : ProcessOk image process)
    (htid : tid ∈ process.threads) {frames : List Frame}
    (hframes : ∀ frame ∈ frames, FrameOk image process frame) :
    ProcessOk image (process.push tid frames) where
  unmanaged := hok.unmanaged
  libc := hok.libc
  served := hok.served
  entered := fun other hother => by
    by_cases hid : other = tid
    · exact hid ▸ htid
    · refine hok.entered other fun hnil => hother ?_
      rw [push_stack_of_ne _ _ hid, hnil]
  frames := fun other waiting hmem => by
    by_cases hid : other = tid
    · subst hid
      rw [push_stack_self, List.mem_append] at hmem
      rcases hmem with hnew | hold
      · exact hframes waiting hnew
      · exact hok.frames other waiting hold
    · rw [push_stack_of_ne _ _ hid] at hmem
      exact hok.frames other waiting hmem
  home := hok.home

theorem ProcessOk.hand (hok : ProcessOk image process) {receiver : Receiver}
    {ptr : ℕ} (hproper : (process.passed image receiver ptr).Proper) :
    ProcessOk image (process.hand image receiver ptr) where
  unmanaged := hok.unmanaged
  libc := hok.libc
  served := hok.served
  entered := hok.entered
  frames := hok.frames
  home := fun entry hentry => by
    rcases List.mem_cons.mp hentry with rfl | hold
    · exact hproper
    · exact hok.home entry hold

theorem ProcessOk.libcRelease (hok : ProcessOk image process) (ptr : ℕ) :
    ProcessOk image (process.libcRelease ptr) :=
  ⟨hok.unmanaged, fun other hother => hok.libc other
      (List.mem_of_mem_erase hother),
    hok.served, hok.entered, hok.frames, hok.home⟩

theorem ProcessOk.libcServe (hok : ProcessOk image process) {ptr : ℕ}
    {next : Process} (hserve : process.libcServe image ptr = some next) :
    ProcessOk image next ∧ next.threads = process.threads := by
  unfold Process.libcServe at hserve
  split at hserve
  · next hcan =>
      obtain rfl := Option.some.inj hserve
      simp only [Process.libcCanServe, decide_eq_true_eq] at hcan
      split
      · exact ⟨hok, rfl⟩
      · next hnonnull =>
          refine ⟨⟨hok.unmanaged, fun other hother => ?_, hok.served,
            hok.entered, hok.frames, hok.home⟩, rfl⟩
          rcases List.mem_cons.mp hother with rfl | hold
          · exact (hcan.resolve_left hnonnull).2.2
          · exact hok.libc other hold
  · cases hserve

/-- A pointer outside the arena and outside the segments may go to the real
allocator. -/
theorem proper_of_unmanaged (hok : ProcessOk image process)
    {receiver : Receiver} (hreceiver : receiver ≠ .freeManaged) {ptr : ℕ}
    (harena : isBootstrap image ptr = false)
    (hmanaged : process.manages image ptr = false) :
    (process.passed image receiver ptr).Proper := by
  have hserved : decide (ptr ∈ process.bootstrapServed) = false := by
    rw [decide_eq_false_iff_not]
    intro hmem
    rw [hok.served ptr hmem] at harena
    cases harena
  cases receiver with
  | freeManaged => exact absurd rfl hreceiver
  | realFree => exact ⟨hserved, hmanaged⟩
  | realRealloc => exact ⟨hserved, hmanaged⟩

theorem ProcessOk.callFree (hok : ProcessOk image process) {ptr : ℕ}
    (harena : isBootstrap image ptr = false)
    (hmanaged : process.manages image ptr = false) :
    ProcessOk image (process.callFree image ptr) :=
  (hok.hand (proper_of_unmanaged hok (by decide) harena hmanaged)).libcRelease
    ptr

theorem ProcessOk.callRealloc (hok : ProcessOk image process)
    {ptr size result : ℕ} {next : Process}
    (harena : isBootstrap image ptr = false)
    (hmanaged : process.manages image ptr = false)
    (hcall : process.callRealloc image ptr size result = some next) :
    ProcessOk image next := by
  have hhanded : ProcessOk image (process.hand image .realRealloc ptr) :=
    hok.hand (proper_of_unmanaged hok (by decide) harena hmanaged)
  unfold Process.callRealloc at hcall
  dsimp only at hcall
  split at hcall
  · exact Option.some.inj hcall ▸ hhanded
  · exact ((hhanded.libcRelease ptr).libcServe hcall).1

theorem ProcessOk.copy (hok : ProcessOk image process)
    (target source bytes : ℕ) :
    ProcessOk image (process.copy target source bytes) := by
  unfold Process.copy
  split
  · exact hok
  · exact ⟨hok.unmanaged, hok.libc, hok.served, hok.entered, hok.frames,
      hok.home⟩

/-- What changes the heap without managing more segments. -/
theorem ProcessOk.setHeap (hok : ProcessOk image process) {heap : Heap}
    (hfewer : ∀ base, isManaged image.layout heap base = true →
      isManaged image.layout process.heap base = true) :
    ProcessOk image { process with heap := heap } := by
  have hunmanaged : ∀ ptr, process.manages image ptr = false →
      isManaged image.layout heap (segmentOf image.layout ptr) = false := by
    intro ptr hptr
    rw [← Bool.not_eq_true]
    intro hmanaged
    rw [Process.manages, hfewer _ hmanaged] at hptr
    cases hptr
  exact ⟨fun hinit ptr => hunmanaged ptr (hok.unmanaged hinit ptr),
    fun ptr hptr => hunmanaged ptr (hok.libc ptr hptr), hok.served,
    hok.entered, fun other frame hframe =>
      have h := hok.frames other frame hframe
      ⟨fun ptr hptr => ⟨(h.1 ptr hptr).1, hunmanaged ptr (h.1 ptr hptr).2⟩,
        h.2⟩, hok.home⟩

theorem freeManaged_pagemap {heap next : Heap} {base ptr : ℕ}
    (hfree : freeManaged heap tid base ptr = some next) :
    next.pagemap = heap.pagemap := by
  have hpush : ∀ {pushed : Heap}, mpscPush heap base ptr = some pushed →
      pushed.pagemap = heap.pagemap := by
    intro pushed h
    obtain ⟨header, -, rfl⟩ := Option.map_eq_some_iff.mp h
    rfl
  have hlist : ∀ {ref : ListRef} {header : SegmentHeader},
      freeToList heap ref tid base ptr header = some next →
      next.pagemap = heap.pagemap := by
    intro ref header h
    unfold freeToList at h
    split at h
    · exact Option.some.inj h ▸ rfl
    · split at h
      · rw [← Option.some.inj h, setListHead_pagemap]
      · exact hpush h
  obtain ⟨header, -, hswitch⟩ := Option.bind_eq_some_iff.mp hfree
  split at hswitch
  · split at hswitch
    · exact Option.some.inj hswitch ▸ rfl
    · exact hpush hswitch
  · split at hswitch
    · rw [← Option.some.inj hswitch, pairedLifoRewind]
      dsimp only
      split <;> rfl
    · exact Option.some.inj hswitch ▸ rfl
  · exact hlist hswitch
  · exact hlist hswitch
  · exact Option.some.inj hswitch ▸ rfl

/-- A managed chunk is freed by `free_managed`, any other by the real
allocator. -/
theorem ProcessOk.freeBody (hok : ProcessOk image process) {ptr : ℕ}
    (harena : isBootstrap image ptr = false) :
    ProcessOk image (process.freeBody image tid ptr) := by
  unfold Process.freeBody
  split
  · exact hok
  · split
    · next hmanaged =>
        have hlive : decide (ptr ∈ process.libcLive) = false := by
          rw [decide_eq_false_iff_not]
          intro hmem
          rw [hok.libc ptr hmem] at hmanaged
          cases hmanaged
        have hproper :
            (process.passed image .freeManaged ptr).Proper := hlive
        refine (hok.hand hproper).setHeap fun base hbase => ?_
        cases hfree : freeManaged process.heap tid
            (segmentOf image.layout ptr) ptr with
        | none => exact (by simpa [hfree, Process.hand] using hbase)
        | some next =>
            have hbase' : isManaged image.layout next base = true := by
              simpa [hfree, Process.hand] using hbase
            rw [isManaged, freeManaged_pagemap hfree] at hbase'
            exact hbase'
    · next hmanaged =>
        exact hok.callFree harena (by simpa using hmanaged)

/-! ## Routes -/

/-- What a route needs for the step that follows it to keep the invariant. -/
def RouteOk (image : Image) (process : Process) (call : Call) : Route → Prop
  | .resolve => ∀ ptr ∈ (Frame.resolving call).returning,
      isBootstrap image ptr = false ∧ process.manages image ptr = false
  | .guarded => ∀ ptr, call = .free ptr → isBootstrap image ptr = false
  | .callFree ptr =>
      isBootstrap image ptr = false ∧ process.manages image ptr = false
  | .callRealloc ptr _ =>
      isBootstrap image ptr = false ∧ process.manages image ptr = false
  | .bootstrap size => ServesInside process.bootstrapUsed size
  | .nested _ frame => FrameOk image process frame
  | _ => True

theorem bootstrapAlloc_inside {used size : ℕ} (hinside : ServesInside used size)
    (hserved : bootstrapAlloc image used size ≠ 0) :
    isBootstrap image (bootstrapAlloc image used size) = true := by
  have hlt := image.bootstrap_lt
  unfold bootstrapAlloc at hserved ⊢
  split at hserved
  · exact absurd rfl hserved
  · next hroom =>
      rw [if_neg hroom, isBootstrap, decide_eq_true_eq]
      have hused := hinside.resolve_left hroom
      rw [Nat.mod_eq_of_lt (by omega)]
      omega

theorem ProcessOk.bootstrapServe (hok : ProcessOk image process) {size : ℕ}
    (hinside : ServesInside process.bootstrapUsed size) :
    ProcessOk image (process.bootstrapServe image size) where
  unmanaged := hok.unmanaged
  libc := hok.libc
  served := fun ptr hptr => by
    dsimp only [Process.bootstrapServe] at hptr
    split at hptr
    · exact hok.served ptr hptr
    · next hnonnull =>
        rcases List.mem_cons.mp hptr with rfl | hold
        · exact bootstrapAlloc_inside hinside hnonnull
        · exact hok.served ptr hold
  entered := hok.entered
  frames := hok.frames
  home := hok.home

theorem frameOk_starting (call : Call) :
    FrameOk image process (.starting call) :=
  ⟨fun _ h => (by cases h), fun _ h => by cases h⟩

theorem ProcessOk.follow (hok : ProcessOk image process)
    (htid : tid ∈ process.threads) {answer : ℕ} {call : Call} {route : Route}
    {next : Process} (hroute : RouteOk image process call route)
    (hfollow : process.follow image tid answer call route = some next) :
    ProcessOk image next := by
  cases route with
  | resolve =>
      obtain rfl := Option.some.inj hfollow
      refine (hok.push htid fun frame hframe => ?_).setGuard true
      rw [List.mem_singleton.mp hframe]
      exact ⟨hroute, fun _ h => by cases h⟩
  | guarded =>
      obtain rfl := Option.some.inj hfollow
      refine (hok.push htid fun frame hframe => ?_).setGuard true
      rw [List.mem_singleton.mp hframe]
      exact ⟨fun _ h => (by cases h),
        fun ptr hptr => hroute ptr (Frame.body.inj hptr)⟩
  | bootstrap size =>
      obtain rfl := Option.some.inj hfollow
      exact (hok.bootstrapServe hroute).ret _
  | callMalloc size =>
      obtain ⟨served, hserve, rfl⟩ := Option.map_eq_some_iff.mp hfollow
      exact (hok.libcServe hserve).1.ret _
  | callFree ptr =>
      obtain rfl := Option.some.inj hfollow
      exact (hok.callFree hroute.1 hroute.2).ret _
  | callRealloc ptr size =>
      obtain ⟨served, hserve, rfl⟩ := Option.map_eq_some_iff.mp hfollow
      exact (hok.callRealloc hroute.1 hroute.2 hserve).ret _
  | drop result =>
      obtain rfl := Option.some.inj hfollow
      exact hok.ret _
  | nested call' frame =>
      obtain rfl := Option.some.inj hfollow
      refine hok.push htid fun pushed hpushed => ?_
      rcases List.mem_cons.mp hpushed with rfl | hrest
      · exact frameOk_starting _
      · rw [List.mem_singleton.mp hrest]
        exact hroute

/-- Once the real allocator is known, a call's pointer may go there if it is
neither the arena's nor a segment's. -/
theorem routeOk_afterResolve {call : Call}
    (hpointer : FrameOk image process (.resolving call))
    (hbootstrap : ∀ size, process.afterResolve call = .bootstrap size →
      ServesInside process.bootstrapUsed size) :
    RouteOk image process call (process.afterResolve call) := by
  cases call with
  | init => trivial
  | malloc size =>
      unfold Process.afterResolve at hbootstrap ⊢
      dsimp only at hbootstrap ⊢
      split
      · trivial
      · next hnone => exact hbootstrap size (by rw [if_neg hnone])
  | free ptr =>
      unfold Process.afterResolve
      dsimp only
      split
      · exact hpointer.1 ptr rfl
      · trivial
  | realloc ptr size =>
      unfold Process.afterResolve at hbootstrap ⊢
      dsimp only at hbootstrap ⊢
      split
      · exact hpointer.1 ptr rfl
      · next hnone =>
          split
          · trivial
          · next hnull =>
              exact hbootstrap size (by rw [if_neg hnone, if_neg hnull])

theorem routeOk_preInit {call : Call}
    (hpointer : FrameOk image process (.resolving call))
    (hbootstrap : ∀ size, process.preInitRoute tid call = .bootstrap size →
      ServesInside process.bootstrapUsed size) :
    RouteOk image process call (process.preInitRoute tid call) := by
  unfold Process.preInitRoute at hbootstrap ⊢
  split
  · next hknown =>
      rw [if_pos hknown] at hbootstrap
      exact routeOk_afterResolve hpointer hbootstrap
  · exact hpointer.1

theorem frameOk_resolving {call : Call}
    (hreturning : ∀ ptr ∈ (Frame.resolving call).returning,
      isBootstrap image ptr = false ∧ process.manages image ptr = false) :
    FrameOk image process (.resolving call) :=
  ⟨hreturning, fun _ h => by cases h⟩

/-- Every ladder keeps managed pointers and the arena's from the real
allocator, as long as the branches blind to the origin are not taken with a
managed pointer. -/
theorem routeOk_of_permitted (hok : ProcessOk image process) {answer : ℕ}
    {call : Call} {rest : List Frame}
    (hstack : process.stack tid = .starting call :: rest)
    (hpermitted : Permitted image process (.ladder tid answer)) :
    RouteOk image process call (process.route image tid call) := by
  have hbootstrap : ∀ size, process.route image tid call = .bootstrap size →
      ServesInside process.bootstrapUsed size := by
    intro size hroute
    refine hpermitted.bootstrap size ?_
    rw [Process.nextRoute, hstack]
    exact congrArg some hroute
  cases call with
  | init =>
      exact routeOk_preInit (frameOk_resolving fun _ h => by cases h) hbootstrap
  | malloc size =>
      change RouteOk image process _ (process.mallocRoute tid size)
      change ∀ other, process.mallocRoute tid size = _ → _ at hbootstrap
      unfold Process.mallocRoute at hbootstrap ⊢
      split
      · next hinit =>
          rw [if_pos hinit] at hbootstrap
          exact routeOk_preInit (frameOk_resolving fun _ h => by cases h)
            hbootstrap
      · split
        · trivial
        · split
          · trivial
          · exact fun _ h => by cases h
  | free ptr =>
      change RouteOk image process _ (process.freeRoute image tid ptr)
      change ∀ other, process.freeRoute image tid ptr = _ → _ at hbootstrap
      unfold Process.freeRoute at hbootstrap ⊢
      split
      · trivial
      · next harena =>
          rw [if_neg harena] at hbootstrap
          rw [Bool.not_eq_true] at harena
          split
          · next hinit =>
              rw [if_pos hinit] at hbootstrap
              rw [Bool.not_eq_true] at hinit
              refine routeOk_preInit (frameOk_resolving fun other hother => ?_)
                hbootstrap
              obtain rfl := Option.some.inj hother
              exact ⟨harena, hok.unmanaged hinit ptr⟩
          · next hinit =>
              rw [Bool.not_eq_true, Bool.not_eq_false] at hinit
              split
              · split
                · trivial
                · next hmanaged =>
                    refine ⟨harena, ?_⟩
                    by_cases hnull : ptr = 0
                    · subst hnull
                      simp [Process.manages, isManaged, segmentOf]
                    · simpa [hnull] using hmanaged
              · next hrunning =>
                  rw [Bool.not_eq_true] at hrunning
                  split
                  · split
                    · next hguard hreal =>
                        refine ⟨harena, hpermitted.guardedFree tid answer ptr
                          rest rfl hstack hinit hrunning ?_⟩
                        simpa [hreal] using hguard
                    · trivial
                  · intro other hother
                    exact Call.free.inj hother ▸ harena
  | realloc ptr size =>
      change RouteOk image process _ (process.reallocRoute image tid ptr size)
      change ∀ other, process.reallocRoute image tid ptr size = _ → _
        at hbootstrap
      have hmoved : ∀ frame, frame.returning = none →
          (∀ other, frame ≠ .body (.free other)) →
          FrameOk image process frame := by
        intro frame hnone hbody
        refine ⟨fun other hother => ?_, fun other hother =>
          absurd hother (hbody other)⟩
        rw [hnone] at hother
        cases hother
      unfold Process.reallocRoute at hbootstrap ⊢
      split
      · exact hmoved _ rfl fun _ h => by cases h
      · next harena =>
          rw [if_neg harena] at hbootstrap
          rw [Bool.not_eq_true] at harena
          split
          · next hinit =>
              rw [if_pos hinit] at hbootstrap
              rw [Bool.not_eq_true] at hinit
              refine routeOk_preInit (frameOk_resolving fun other hother => ?_)
                hbootstrap
              obtain rfl := Option.some.inj hother
              exact ⟨harena, hok.unmanaged hinit ptr⟩
          · next hinit =>
              rw [Bool.not_eq_true, Bool.not_eq_false] at hinit
              have hblind := hpermitted.realloc tid answer ptr size rest rfl
                hstack hinit
              split
              · next hshut => exact ⟨harena, hblind (.inl hshut)⟩
              · split
                · next hguard => exact ⟨harena, hblind (.inr hguard)⟩
                · split
                  · exact hmoved _ rfl fun _ h => by cases h
                  · split
                    · split
                      · exact hmoved _ rfl fun _ h => by cases h
                      · exact hmoved _ rfl fun _ h => by cases h
                    · next hmanaged =>
                        rw [Bool.not_eq_true] at hmanaged
                        exact ⟨harena, hmanaged⟩

/-! ## Steps -/

theorem ProcessOk.finish (hok : ProcessOk image process)
    (htid : tid ∈ process.threads) {frame : Frame} {served : Served}
    {next : Process} (hframe : FrameOk image process frame)
    (hbootstrap : ∀ call size, frame = .resolving call →
      process.afterResolve call = .bootstrap size →
      ServesInside process.bootstrapUsed size)
    (hfinish : process.finish image tid served frame = some next) :
    ProcessOk image next := by
  unfold Process.finish at hfinish
  split at hfinish
  · next call =>
      have hroute := routeOk_afterResolve hframe fun size =>
        hbootstrap call size rfl
      have hreleased : ProcessOk image (process.setGuard tid false) :=
        hok.setGuard false
      exact hreleased.follow htid hroute hfinish
  · obtain ⟨⟨served, ptr⟩, hserve, rfl⟩ := Option.map_eq_some_iff.mp hfinish
    refine (ProcessOk.setGuard ?_ false).ret _
    unfold Process.serve at hserve
    split at hserve
    · split at hserve
      · exact (Prod.mk.inj (Option.some.inj hserve)).1 ▸ hok
      · cases hserve
    · obtain ⟨after, hlibc, hpair⟩ := Option.map_eq_some_iff.mp hserve
      exact (Prod.mk.inj hpair).1 ▸ (hok.libcServe hlibc).1
  · next ptr =>
      obtain rfl := Option.some.inj hfinish
      exact ((hok.freeBody (hframe.2 ptr rfl)).setGuard false).ret _
  · cases hfinish

theorem ProcessOk.resume (hok : ProcessOk image process)
    (htid : tid ∈ process.threads) {frame : Frame} {result : ℕ}
    {next : Process} (hresume : process.resume tid result frame = some next) :
    ProcessOk image next := by
  unfold Process.resume at hresume
  split at hresume
  · obtain rfl := Option.some.inj hresume
    exact (hok.copy _ _ _).ret _
  · obtain rfl := Option.some.inj hresume
    have hthreads : ∀ target source bytes,
        (process.copy target source bytes).threads = process.threads := by
      intro target source bytes
      unfold Process.copy
      split <;> rfl
    refine (hok.copy _ _ _).push (by rwa [hthreads]) fun pushed hpushed => ?_
    rcases List.mem_cons.mp hpushed with rfl | hrest
    · exact frameOk_starting _
    · rw [List.mem_singleton.mp hrest]
      exact ⟨fun _ h => (by cases h), fun _ h => by cases h⟩
  · obtain rfl := Option.some.inj hresume
    exact hok.ret _
  · obtain rfl := Option.some.inj hresume
    exact hok.ret _
  · cases hresume

theorem ProcessOk.enter (hok : ProcessOk image process) (call : Call) :
    ProcessOk image (process.enter tid call) := by
  have hmem : ∀ other ∈ process.threads,
      other ∈ if tid ∈ process.threads then process.threads
        else tid :: process.threads := by
    intro other hother
    split
    · exact hother
    · exact List.mem_cons_of_mem _ hother
  refine ⟨hok.unmanaged, hok.libc, hok.served, fun other hother => ?_,
    fun other frame hframe => ?_, hok.home⟩
  · by_cases hid : other = tid
    · subst hid
      dsimp only [Process.enter]
      split
      · assumption
      · exact List.mem_cons_self
    · refine hmem other (hok.entered other fun hnil => hother ?_)
      exact (push_stack_of_ne process _ hid).trans hnil
  · change frame ∈ (process.push tid [.starting call]).stack other at hframe
    by_cases hid : other = tid
    · subst hid
      rw [push_stack_self, List.mem_append, List.mem_singleton] at hframe
      rcases hframe with rfl | hold
      · exact frameOk_starting _
      · exact hok.frames other frame hold
    · rw [push_stack_of_ne _ _ hid] at hframe
      exact hok.frames other frame hframe

/-- A new segment manages the pointers inside it and no others. -/
theorem manages_allocSegment {slot site chunkSize base ptr : ℕ}
    {strategy : Strategy} {heap : Heap}
    (hbase : image.layout.segmentSize ∣ base)
    (hne : segmentOf image.layout ptr ≠ base) :
    isManaged image.layout (allocSegment image.layout heap tid strategy slot
        site chunkSize base) (segmentOf image.layout ptr) =
      isManaged image.layout heap (segmentOf image.layout ptr) := by
  have hdiv : segmentOf image.layout ptr / image.layout.segmentSize ≠
      base / image.layout.segmentSize :=
    fun heq => hne ((Nat.div_left_inj (dvd_segmentOf ptr) hbase).mp heq)
  simp only [isManaged, allocSegment, registerSegment,
    Function.update_of_ne hdiv]

theorem isManaged_of_freeSegment {heap : Heap} {base other : ℕ}
    (hmanaged : isManaged image.layout (freeSegment image.layout heap base)
      other = true) : isManaged image.layout heap other = true := by
  simp only [isManaged, freeSegment, unregisterSegment, Bool.and_eq_true]
    at hmanaged ⊢
  refine ⟨hmanaged.1, ?_⟩
  have hbit := hmanaged.2
  rw [Function.update_apply] at hbit
  split at hbit
  · cases hbit
  · exact hbit

theorem ProcessOk.mapSegment (hok : ProcessOk image process)
    (hinit : process.initialized = true) {slot chunkSize base : ℕ}
    {strategy : Strategy} (hmap : process.canMap image base) :
    ProcessOk image { process with
      heap := allocSegment image.layout process.heap tid strategy slot
        (process.heap.slotToSite slot) chunkSize base } := by
  obtain ⟨⟨-, hbase, -, -⟩, hlibc, hframes⟩ := hmap
  refine ⟨fun h => ?_, fun ptr hptr => ?_, hok.served, hok.entered,
    fun other frame hframe => ⟨fun ptr hptr => ?_, ?_⟩, hok.home⟩
  · rw [hinit] at h
    cases h
  · exact (manages_allocSegment hbase (hlibc ptr hptr)).trans
      (hok.libc ptr hptr)
  · have hother := hok.entered other (List.ne_nil_of_mem hframe)
    have hpointer := (hok.frames other frame hframe).1 ptr hptr
    exact ⟨hpointer.1, (manages_allocSegment hbase
      (hframes other hother frame hframe ptr hptr)).trans hpointer.2⟩
  · exact (hok.frames other frame hframe).2

theorem processOk_step {label : Label} {next : Process}
    (hok : ProcessOk image process)
    (hpermitted : Permitted image process label)
    (hstep : step image process label = some next) :
    ProcessOk image next := by
  cases label with
  | call tid call =>
      simp only [step] at hstep
      split at hstep
      · exact Option.some.inj hstep ▸ hok.enter call
      · cases hstep
  | ladder tid answer =>
      simp only [step] at hstep
      split at hstep
      · next call rest hstack =>
          have htid := hok.entered tid (by simp [hstack])
          exact (hok.pop hstack).follow htid
            (routeOk_of_permitted hok hstack hpermitted) hstep
      · cases hstep
  | resolve tid function =>
      simp only [step] at hstep
      split at hstep
      · exact Option.some.inj hstep ▸ hok.setResolved function
      · cases hstep
  | finish tid served =>
      simp only [step] at hstep
      split at hstep
      · next frame rest hstack =>
          have htid := hok.entered tid (by simp [hstack])
          have hframe := hok.frames tid frame (by simp [hstack])
          refine (hok.pop hstack).finish htid hframe ?_ hstep
          rintro call size rfl hroute
          refine hpermitted.bootstrap size ?_
          rw [Process.nextRoute, hstack]
          exact congrArg some hroute
      · cases hstep
  | resume tid =>
      simp only [step] at hstep
      split at hstep
      · next frame rest result hstack hreturned =>
          have htid := hok.entered tid (by simp [hstack])
          exact (hok.pop hstack).resume htid hstep
      · cases hstep
  | ready =>
      simp only [step] at hstep
      split at hstep
      · obtain rfl := Option.some.inj hstep
        exact ⟨fun h => (by cases h), hok.libc, hok.served, hok.entered,
          hok.frames, hok.home⟩
      · cases hstep
  | fini =>
      simp only [step] at hstep
      split at hstep
      · obtain rfl := Option.some.inj hstep
        exact ⟨hok.unmanaged, hok.libc, hok.served, hok.entered, hok.frames,
          hok.home⟩
      · cases hstep
  | mapSegment tid strategy slot chunkSize base =>
      simp only [step] at hstep
      split at hstep
      · next hmap => exact Option.some.inj hstep ▸ hok.mapSegment hmap.1 hmap.2
      · cases hstep
  | unmapSegment base =>
      obtain rfl := Option.some.inj hstep
      exact hok.setHeap fun other hmanaged => isManaged_of_freeSegment hmanaged

/-- In every run that keeps managed pointers out of the branches that do not
look at a pointer's origin, every pointer goes back to the allocator it came
from. -/
theorem returnsHome_of_permitted
    (hreach : ReachableWhen (step image) (Permitted image) .initial process) :
    ReturnsHome process := by
  have hinitial : ProcessOk image .initial := processOk_initial
  exact (hreach.invariant hinitial fun _ _ _ hok hpermitted hstep =>
    processOk_step hok hpermitted hstep).home

end Operations

/-! ## A chunk freed while running and a chunk resized after shutdown -/

/-- `Permitted`, computed. -/
def permits (image : Image) (process : Process) (label : Label) : Bool :=
  (match label with
    | .ladder tid _ =>
        match process.stack tid with
        | .starting (.free ptr) :: _ =>
            !(process.initialized && !process.shuttingDown &&
              process.guard tid) || !process.manages image ptr
        | .starting (.realloc ptr _) :: _ =>
            !(process.initialized &&
              (process.shuttingDown || process.guard tid)) ||
              !process.manages image ptr
        | _ => true
    | _ => true) &&
    match process.nextRoute image label with
    | some (.bootstrap size) =>
        bootstrapSize < (process.bootstrapUsed + bootstrapAligned size) % 2 ^ 64
          || process.bootstrapUsed < bootstrapSize
    | _ => true

theorem permitted_of_permits {image : Image} (process : Process) (label : Label)
    (hpermits : permits image process label = true) :
    Permitted image process label := by
  unfold permits at hpermits
  rw [Bool.and_eq_true] at hpermits
  obtain ⟨hladder, hbootstrap⟩ := hpermits
  refine ⟨?_, ?_, fun size hroute => ?_⟩
  · rintro tid answer ptr rest rfl hstack hinit hrunning hguard
    simpa [hstack, hinit, hrunning, hguard] using hladder
  · rintro tid answer ptr size rest rfl hstack hinit hblind
    rcases hblind with hblind | hblind <;>
      simpa [hstack, hinit, hblind] using hladder
  · rw [hroute] at hbootstrap
    simpa [ServesInside] using hbootstrap

/-- 2 MiB segments, with the arena in the first pages of the program. -/
def smallImage : Image where
  layout := .default
  bootstrap := 4096
  bootstrap_pos := by decide
  bootstrap_lt := by decide

/-- Thread 1 runs `tbjit_init`, and its first `malloc` is served from a new
segment. -/
def startUp : List Label :=
  [.call 1 .init, .ladder 1 0, .resolve 1 .malloc, .resolve 1 .free,
    .resolve 1 .realloc, .finish 1 (.libc 0), .ready, .call 1 (.malloc 64),
    .ladder 1 0, .mapSegment 1 .threadLocalFreeList 0 64 2097152,
    .finish 1 (.segment 2097216)]

/-- The thread frees the chunk. -/
def freesChunk : List Label :=
  startUp ++ [.call 1 (.free 2097216), .ladder 1 0, .finish 1 (.libc 0)]

/-- The chunk goes to `free_managed`. -/
theorem returnsHome_freesChunk :
    ∃ process, process.log = [⟨.freeManaged, 2097216, false, true, false⟩] ∧
      ReturnsHome process := by
  have hlog : (run (fun process label =>
      if permits smallImage process label then step smallImage process label
      else none) .initial freesChunk).map Process.log =
        some [⟨.freeManaged, 2097216, false, true, false⟩] := by
    decide +kernel
  obtain ⟨process, hrun, hlog⟩ := Option.map_eq_some_iff.mp hlog
  exact ⟨process, hlog, returnsHome_of_permitted
    (reachableWhen_of_run permitted_of_permits .start hrun)⟩

/-- The chunk is resized by a later destructor, after `tbjit_fini`. -/
def resizesAfterShutdown : List Label :=
  startUp ++ [.fini, .call 1 (.realloc 2097216 128), .ladder 1 0]

/-- The real `realloc` is given a chunk of a managed segment. -/
theorem resizesAfterShutdown_escapes :
    ∃ process, Reachable (step smallImage) .initial process ∧
      process.log = [⟨.realRealloc, 2097216, false, true, false⟩] ∧
      ¬ReturnsHome process := by
  have hlog : (run (step smallImage) .initial resizesAfterShutdown).map
      Process.log = some [⟨.realRealloc, 2097216, false, true, false⟩] := by
    decide +kernel
  obtain ⟨process, hrun, hlog⟩ := Option.map_eq_some_iff.mp hlog
  refine ⟨process, reachable_of_run .start hrun, hlog, fun hhome => ?_⟩
  have hproper : Passed.Proper ⟨.realRealloc, 2097216, false, true, false⟩ :=
    hhome _ (hlog ▸ List.mem_cons_self)
  exact by cases hproper.2

end TbjitAlloc.Trampoline
