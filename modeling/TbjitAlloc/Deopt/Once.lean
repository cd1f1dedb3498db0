import TbjitAlloc.Deopt.Agreement
import TbjitAlloc.Deopt.Loss

/-!
# One deopt for one routine

Several threads can be inside a routine when its guard fails, and each calls
`handle` with the same page.  Nothing in `handle` tells a first call from a
later one.  Beside the machine stand the routines installed, the calls of
`handle`, and how far each call got.
-/

namespace TbjitAlloc.Deopt

open TbjitAlloc.Analysis
open TbjitAlloc.Codegen
open TbjitAlloc.Dispatch
open TbjitAlloc.Transition

/-- A routine that was put into the table. -/
structure Routine where
  id : CallSiteID
  page : ℕ
  deriving DecidableEq

/-- The routine a deopt is on account of. -/
def DequeuedDeopt.routine (deopt : DequeuedDeopt) : Routine :=
  ⟨deopt.id, deopt.page⟩

/-- A call of `handle` that was not disabled: its site's newest routine, and
what `lookup` answers for the site before and after the revert. -/
structure Call where
  tid : ℕ
  deopt : DequeuedDeopt
  newest : Option ℕ
  found : ℕ
  left : ℕ

/-- The call comes from the newest routine of its site. -/
def Call.timely (call : Call) : Bool := call.newest = some call.deopt.page

def Call.key (call : Call) : ℕ × DequeuedDeopt := (call.tid, call.deopt)

/-- The machine with its history.  The newest install comes first; `queued` are
the calls that found room in the queue, `resets` the calls of
`reset_call_site`, and `entered` the pages put on the pending list. -/
structure Docket where
  state : State
  installs : List Routine
  calls : List Call
  queued : List (ℕ × DequeuedDeopt)
  resets : List DequeuedDeopt
  entered : List ℕ

namespace Docket

def initial : Docket := ⟨.initial, [], [], [], [], []⟩

/-- The page of the last install of a site. -/
def newest (docket : Docket) (id : CallSiteID) : Option ℕ :=
  (docket.installs.find? fun routine => routine.id = id).map Routine.page

/-- What a step to `next` adds to the history. -/
def observe (knobs : Knobs) (docket : Docket) (action : Action)
    (next : State) : Docket :=
  let state := docket.state
  match action with
  | .handle tid deopt =>
      if state.enabled then
        { docket with
          state := next
          calls := docket.calls ++ [⟨tid, deopt, docket.newest deopt.id,
            lookup state.dispatch deopt.id, lookup next.dispatch deopt.id⟩] }
      else { docket with state := next }
  | .enqueue tid =>
      match state.thread tid with
      | .reverted deopt =>
          if state.queue.length < deoptQueueCap then
            { docket with
              state := next
              queued := docket.queued ++ [(tid, deopt)] }
          else { docket with state := next }
      | _ => { docket with state := next }
  | .event segSite ev compile =>
      match (state.analyzer.processEvent knobs compile segSite ev).2.compiled with
      | some (spec, some page) =>
          { docket with
            state := next
            installs := ⟨spec.id, page⟩ :: docket.installs }
      | _ => { docket with state := next }
  | .reset =>
      match state.background with
      | .resetting deopt =>
          { docket with
            state := next
            resets := docket.resets ++ [deopt]
            entered := if state.pending.length < maxPending then
              docket.entered ++ [deopt.page] else docket.entered }
      | _ => { docket with state := next }
  | _ => { docket with state := next }

theorem observe_event_installs {knobs : Knobs} {docket : Docket}
    {segSite : Option ℕ} {ev : AllocEvent}
    {compile : RoutineSpec → Option ℕ} {spec : RoutineSpec} {page : ℕ}
    (hcompiled : (docket.state.analyzer.processEvent knobs compile segSite
      ev).2.compiled = some (spec, some page)) (next : State) :
    docket.observe knobs (.event segSite ev compile) next =
      { docket with
        state := next
        installs := ⟨spec.id, page⟩ :: docket.installs } := by
  simp only [Docket.observe, hcompiled]

theorem observe_event_quiet {knobs : Knobs} {docket : Docket}
    {segSite : Option ℕ} {ev : AllocEvent}
    {compile : RoutineSpec → Option ℕ}
    (hquiet : ∀ spec page, (docket.state.analyzer.processEvent knobs compile
      segSite ev).2.compiled ≠ some (spec, some page)) (next : State) :
    docket.observe knobs (.event segSite ev compile) next =
      { docket with state := next } := by
  cases hcompiled : (docket.state.analyzer.processEvent knobs compile segSite
      ev).2.compiled with
  | none => simp only [Docket.observe, hcompiled]
  | some entry =>
      obtain ⟨spec, result⟩ := entry
      cases result with
      | none => simp only [Docket.observe, hcompiled]
      | some page => exact absurd hcompiled (hquiet spec page)

def step (knobs : Knobs) (docket : Docket) (action : Action) : Option Docket :=
  (Deopt.step knobs docket.state action).map (docket.observe knobs action)

/-- The resets on account of a routine. -/
def resetsOf (docket : Docket) (routine : Routine) : ℕ :=
  docket.resets.countP fun deopt => deopt.routine = routine

/-- As often as a routine is installed it takes effect at most once: on the
pending list, in `reclaim` and in the deopt count.  A call from a routine that
is no longer its site's newest uninstalls nothing, and no reset comes of it. -/
structure Once (docket : Docket) : Prop where
  entered : ∀ page, docket.entered.count page ≤
    docket.installs.countP fun routine => routine.page = page
  reclaimed : ∀ page, docket.state.reclaimed.count page ≤
    docket.installs.countP fun routine => routine.page = page
  resets : ∀ routine, docket.resetsOf routine ≤ docket.installs.count routine
  counted : ∀ id, (docket.state.analyzer.summaryOf id).deoptCount ≤
    docket.resets.countP fun deopt => deopt.id = id
  kept : ∀ call ∈ docket.calls, call.timely = false → call.left = call.found
  timely : ∀ routine, docket.resetsOf routine ≤ docket.calls.countP fun call =>
    call.timely ∧ call.deopt.routine = routine

end Docket

/-- `handle` is called with the routine that stands in the table. -/
def FromInstalled (state : State) : Action → Prop
  | .handle _ deopt => state.enabled = true →
      deopt.page ≠ 0 ∧ lookup state.dispatch deopt.id = deopt.page
  | _ => True

/-! ## The invariant -/

/-- The thread is between the revert and the queue with this deopt. -/
def handling (thread : ℕ → ThreadPhase) (tid : ℕ) (deopt : DequeuedDeopt) : ℕ :=
  if thread tid = .reverted deopt then 1 else 0

/-- The routine stands in the table. -/
def standing (lookup : CallSiteID → ℕ) (routine : Routine) : ℕ :=
  if routine.page ≠ 0 ∧ lookup routine.id = routine.page then 1 else 0

section Indicators

variable {thread next : ℕ → ThreadPhase} {tid other : ℕ}
variable {deopt : DequeuedDeopt} {lookup after : CallSiteID → ℕ}
variable {routine : Routine}

theorem handling_le_one : handling thread tid deopt ≤ 1 := by
  rw [handling]
  split <;> decide

theorem handling_eq_zero (hthread : thread tid ≠ .reverted deopt) :
    handling thread tid deopt = 0 :=
  if_neg hthread

theorem handling_mono
    (hthread : next tid = .reverted deopt → thread tid = .reverted deopt) :
    handling next tid deopt ≤ handling thread tid deopt := by
  rw [handling]
  split
  · next hin =>
      rw [handling, if_pos (hthread hin)]
  · exact Nat.zero_le _

theorem standing_le_one : standing lookup routine ≤ 1 := by
  rw [standing]
  split <;> decide

theorem standing_eq_zero (hlookup : lookup routine.id = 0) :
    standing lookup routine = 0 := by
  refine if_neg fun hstands => hstands.1 ?_
  rw [← hstands.2, hlookup]

theorem standing_mono
    (hlookup : after routine.id = lookup routine.id ∨ after routine.id = 0) :
    standing after routine ≤ standing lookup routine := by
  rcases hlookup with hsame | hzero
  · rw [standing, standing, hsame]
  · rw [standing_eq_zero hzero]
    exact Nat.zero_le _

/-- A thread that moves elsewhere is in `handle` only if it was. -/
theorem reverted_of_update {phase : ThreadPhase}
    (hphase : ∀ deopt, phase ≠ .reverted deopt)
    (hother : Function.update thread tid phase other = .reverted deopt) :
    thread other = .reverted deopt := by
  by_cases heq : other = tid
  · rw [heq, Function.update_self] at hother
    exact absurd hother (hphase deopt)
  · rwa [Function.update_of_ne heq] at hother

end Indicators

/-- An install is spent by at most one call, which reaches the queue, the reset
and the pending list at most once. -/
structure Spent (docket : Docket) : Prop where
  table : Represents docket.state.dispatch (lookup docket.state.dispatch)
  newest : ∀ id, lookup docket.state.dispatch id ≠ 0 →
    docket.newest id = some (lookup docket.state.dispatch id)
  calls : ∀ routine : Routine,
    (docket.calls.map fun call => call.deopt.routine).count routine +
        standing (lookup docket.state.dispatch) routine ≤
      docket.installs.count routine
  timely : ∀ call ∈ docket.calls, call.timely = true
  threads : ∀ tid deopt, docket.queued.count (tid, deopt) +
      handling docket.state.thread tid deopt ≤
    (docket.calls.map Call.key).count (tid, deopt)
  queued : docket.queued.map Prod.snd =
    docket.resets ++ docket.state.outstanding
  entered : docket.entered.Sublist (docket.resets.map DequeuedDeopt.page)
  pending : (docket.state.pending.map PendingReclaim.page ++
    docket.state.reclaimed).Perm docket.entered
  counted : ∀ id, (docket.state.analyzer.summaryOf id).deoptCount ≤
    docket.resets.countP fun deopt => deopt.id = id

theorem spent_initial : Spent .initial where
  table := by
    have hnone : lookup State.initial.dispatch = fun _ => 0 :=
      funext represents_initial.lookup_eq
    change Represents State.initial.dispatch (lookup State.initial.dispatch)
    rw [hnone]
    exact represents_initial
  newest := fun id hid => absurd (represents_initial.lookup_eq id) hid
  calls := by
    intro routine
    have hnone : lookup Docket.initial.state.dispatch routine.id = 0 :=
      represents_initial.lookup_eq routine.id
    rw [standing_eq_zero hnone]
    exact Nat.le_refl 0
  timely := fun _ h => absurd h List.not_mem_nil
  threads := fun _ _ => Nat.le_refl 0
  queued := rfl
  entered := List.Sublist.refl _
  pending := List.Perm.refl _
  counted := fun _ => Nat.le_refl 0

section Counting

variable {docket : Docket}

/-- Each reset comes of a call of its own. -/
theorem Spent.resets_le (hspent : Spent docket) (p : DequeuedDeopt → Bool) :
    docket.resets.countP p ≤ docket.calls.countP fun call => p call.deopt := by
  have hqueued : docket.queued.Subperm (docket.calls.map Call.key) :=
    List.subperm_ext_iff.mpr fun key _ =>
      (Nat.le_add_right _ _).trans (hspent.threads key.1 key.2)
  calc
    docket.resets.countP p ≤ (docket.queued.map Prod.snd).countP p := by
      rw [hspent.queued, List.countP_append]
      exact Nat.le_add_right _ _
    _ = docket.queued.countP (p ∘ Prod.snd) := List.countP_map
    _ ≤ (docket.calls.map Call.key).countP (p ∘ Prod.snd) :=
      hqueued.countP_le _
    _ = docket.calls.countP fun call => p call.deopt := List.countP_map

/-- Each call comes from an install of its own. -/
theorem Spent.calls_le (hspent : Spent docket) (p : Routine → Bool) :
    (docket.calls.countP fun call => p call.deopt.routine) ≤
      docket.installs.countP p := by
  have hcalls : (docket.calls.map fun call => call.deopt.routine).Subperm
      docket.installs :=
    List.subperm_ext_iff.mpr fun routine _ =>
      (Nat.le_add_right _ _).trans (hspent.calls routine)
  have hle := hcalls.countP_le p
  rwa [List.countP_map] at hle

/-- What the invariant promises. -/
theorem Spent.once (hspent : Spent docket) : docket.Once := by
  have hentered : ∀ page, docket.entered.count page ≤
      docket.installs.countP fun routine => routine.page = page := by
    intro page
    calc
      docket.entered.count page ≤
          (docket.resets.map DequeuedDeopt.page).count page :=
        hspent.entered.count_le page
      _ = docket.resets.countP fun deopt => deopt.page = page :=
        List.countP_map
      _ ≤ docket.calls.countP fun call => call.deopt.page = page :=
        hspent.resets_le _
      _ ≤ docket.installs.countP fun routine => routine.page = page :=
        hspent.calls_le fun routine => routine.page = page
  have hresets : ∀ routine, docket.resetsOf routine ≤
      docket.calls.countP fun call => call.deopt.routine = routine :=
    fun routine => hspent.resets_le fun deopt => deopt.routine = routine
  constructor
  · exact hentered
  · intro page
    refine le_trans ?_ (hentered page)
    rw [← hspent.pending.count_eq page, List.count_append]
    exact Nat.le_add_left _ _
  · intro routine
    exact (hresets routine).trans (hspent.calls_le fun other => other = routine)
  · exact hspent.counted
  · intro call hcall hlate
    rw [hspent.timely call hcall] at hlate
    cases hlate
  · intro routine
    refine (hresets routine).trans ?_
    refine List.countP_mono_left fun call hcall hsame => ?_
    exact decide_eq_true ⟨hspent.timely call hcall, of_decide_eq_true hsame⟩

end Counting

/-! ## Steps -/

section Steps

variable {knobs : Knobs} {docket : Docket} {next : State}

/-- A step that adds nothing to the history and begins no call. -/
theorem Spent.frame (hspent : Spent docket)
    (hdispatch : next.dispatch = docket.state.dispatch)
    (hcounts : ∀ id, (next.analyzer.summaryOf id).deoptCount =
      (docket.state.analyzer.summaryOf id).deoptCount)
    (hthread : ∀ tid deopt, next.thread tid = .reverted deopt →
      docket.state.thread tid = .reverted deopt)
    (houtstanding : next.outstanding = docket.state.outstanding)
    (hpending : (next.pending.map PendingReclaim.page ++ next.reclaimed).Perm
      (docket.state.pending.map PendingReclaim.page ++
        docket.state.reclaimed)) :
    Spent { docket with state := next } where
  table := by
    dsimp only
    rw [hdispatch]
    exact hspent.table
  newest := by
    dsimp only
    rw [hdispatch]
    exact hspent.newest
  calls := by
    dsimp only
    rw [hdispatch]
    exact hspent.calls
  timely := hspent.timely
  threads := by
    intro tid deopt
    refine le_trans (Nat.add_le_add_left ?_ _) (hspent.threads tid deopt)
    exact handling_mono (hthread tid deopt)
  queued := by
    dsimp only
    rw [houtstanding]
    exact hspent.queued
  entered := hspent.entered
  pending := hpending.trans hspent.pending
  counted := by
    intro id
    dsimp only
    rw [hcounts]
    exact hspent.counted id

/-- A thread that moves, and not into `handle`. -/
theorem Spent.goto (hspent : Spent docket) (tid : ℕ) {phase : ThreadPhase}
    (hphase : ∀ deopt, phase ≠ .reverted deopt) (threads : List ℕ)
    (threadEpoch : ℕ → ℕ) :
    Spent { docket with
      state := { docket.state.goto tid phase with
        threads := threads
        threadEpoch := threadEpoch } } :=
  hspent.frame rfl (fun _ => rfl) (fun _ _ => reverted_of_update hphase) rfl
    (List.Perm.refl _)

theorem Docket.newest_cons (docket : Docket) (id : CallSiteID)
    (routine : Routine) (state : State) :
    { docket with
      state := state
      installs := routine :: docket.installs : Docket }.newest id =
      if routine.id = id then some routine.page else docket.newest id := by
  rw [Docket.newest, Docket.newest, List.find?_cons]
  by_cases hid : routine.id = id
  · rw [if_pos hid, decide_eq_true hid]
    rfl
  · rw [if_neg hid, decide_eq_false hid]

/-- A call from the routine in the table spends its install. -/
theorem Spent.handle (hspent : Spent docket) {tid : ℕ} {deopt : DequeuedDeopt}
    (hpage : deopt.page ≠ 0)
    (hfound : lookup docket.state.dispatch deopt.id = deopt.page) :
    Spent { docket with
      state := { docket.state.goto tid (.reverted deopt) with
        dispatch := revert docket.state.dispatch deopt.id }
      calls := docket.calls ++ [⟨tid, deopt, docket.newest deopt.id,
        lookup docket.state.dispatch deopt.id,
        lookup (revert docket.state.dispatch deopt.id) deopt.id⟩] } := by
  have htable := hspent.table.revert deopt.id
  have hlookup := funext htable.lookup_eq
  have hnewest : docket.newest deopt.id = some deopt.page := by
    rw [hspent.newest deopt.id (by rwa [hfound]), hfound]
  refine { hspent with
    table := ?_, newest := ?_, calls := ?_, timely := ?_, threads := ?_ }
  · dsimp only
    rw [hlookup]
    exact htable
  · intro id hid
    dsimp only at hid ⊢
    rw [hlookup] at hid ⊢
    by_cases heq : id = deopt.id
    · rw [heq, Function.update_self] at hid
      exact absurd rfl hid
    · rw [Function.update_of_ne heq] at hid ⊢
      exact hspent.newest id hid
  · intro routine
    have hspent := hspent.calls routine
    dsimp only
    rw [hlookup, List.map_append, List.count_append, List.map_singleton]
    by_cases heq : deopt.routine = routine
    · subst heq
      have hstands : standing (lookup docket.state.dispatch) deopt.routine =
          1 := if_pos ⟨hpage, hfound⟩
      have hgone : standing
          (Function.update (lookup docket.state.dispatch) deopt.id 0)
          deopt.routine = 0 :=
        standing_eq_zero (Function.update_self _ _ _)
      rw [hstands] at hspent
      rw [hgone, List.count_singleton_self]
      exact hspent
    · rw [List.count_singleton, beq_false_of_ne heq, if_neg Bool.false_ne_true,
        Nat.add_zero]
      refine le_trans (Nat.add_le_add_left (standing_mono ?_) _) hspent
      by_cases hid : routine.id = deopt.id
      · exact .inr (by rw [hid, Function.update_self])
      · exact .inl (Function.update_of_ne hid _ _)
  · intro call hcall
    rcases List.mem_append.mp hcall with hold | hnew
    · exact hspent.timely call hold
    · obtain rfl := List.mem_singleton.mp hnew
      exact decide_eq_true hnewest
  · intro other passed
    have hthreads := hspent.threads other passed
    dsimp only [State.goto]
    rw [List.map_append, List.count_append, List.map_singleton]
    by_cases hsame : (tid, deopt) = (other, passed)
    · obtain ⟨rfl, rfl⟩ := Prod.mk.inj hsame
      rw [Call.key, List.count_singleton_self]
      exact Nat.add_le_add ((Nat.le_add_right _ _).trans hthreads)
        handling_le_one
    · refine le_trans (Nat.add_le_add_left (handling_mono fun hin => ?_) _)
        (hthreads.trans (Nat.le_add_right _ _))
      by_cases heq : other = tid
      · rw [heq, Function.update_self, ThreadPhase.reverted.injEq] at hin
        exact absurd (by rw [heq, hin]) hsame
      · rwa [Function.update_of_ne heq] at hin

/-- The call of a thread reaches the queue. -/
theorem Spent.enqueue (hspent : Spent docket) {tid : ℕ} {deopt : DequeuedDeopt}
    (htid : docket.state.thread tid = .reverted deopt) :
    Spent { docket with
      state := { docket.state.goto tid .outside with
        queue := docket.state.queue ++ [deopt] }
      queued := docket.queued ++ [(tid, deopt)] } := by
  refine { hspent with threads := ?_, queued := ?_ }
  · intro other passed
    have hthreads := hspent.threads other passed
    dsimp only [State.goto]
    rw [List.count_append]
    by_cases hsame : (tid, deopt) = (other, passed)
    · obtain ⟨rfl, rfl⟩ := Prod.mk.inj hsame
      have hhandling : handling docket.state.thread tid deopt = 1 := if_pos htid
      have hleft : handling (Function.update docket.state.thread tid .outside)
          tid deopt = 0 := by
        refine handling_eq_zero ?_
        rw [Function.update_self]
        exact ThreadPhase.noConfusion
      rw [List.count_singleton_self, hleft, Nat.add_zero]
      rwa [hhandling] at hthreads
    · rw [List.count_singleton, beq_false_of_ne hsame,
        if_neg Bool.false_ne_true, Nat.add_zero]
      refine le_trans (Nat.add_le_add_left (handling_mono fun hin => ?_) _)
        hthreads
      exact reverted_of_update (fun _ => ThreadPhase.noConfusion) hin
  · dsimp only [State.outstanding, State.goto]
    rw [List.map_append, hspent.queued, State.outstanding, List.append_assoc,
      List.append_assoc]
    rfl

/-- A routine is put in the table. -/
theorem Spent.install (hspent : Spent docket) {id page : ℕ} {dispatch : Table}
    (hinstall : Dispatch.install docket.state.dispatch id page = some dispatch)
    {analyzer : Analyzer} {background : Background}
    (hcounts : ∀ id, (analyzer.summaryOf id).deoptCount =
      (docket.state.analyzer.summaryOf id).deoptCount)
    (hhand : background.inHand = docket.state.background.inHand) :
    Spent { docket with
      state := { docket.state with
        analyzer := analyzer
        background := background
        dispatch := dispatch }
      installs := ⟨id, page⟩ :: docket.installs } := by
  obtain ⟨htable, hself, hother⟩ := hspent.table.lookup_install hinstall
  refine { hspent with
    table := htable, newest := ?_, calls := ?_, queued := ?_, counted := ?_ }
  · intro site hsite
    dsimp only at hsite ⊢
    rw [docket.newest_cons]
    by_cases hid : site = id
    · subst hid
      rw [if_pos rfl, hself]
    · rw [if_neg (Ne.symm hid)]
      rcases hother site hid with hsame | hzero
      · rw [hsame] at hsite ⊢
        exact hspent.newest site hsite
      · exact absurd hzero hsite
  · intro routine
    have hcalls := hspent.calls routine
    dsimp only
    by_cases hsame : (⟨id, page⟩ : Routine) = routine
    · rw [hsame, List.count_cons_self]
      exact Nat.add_le_add ((Nat.le_add_right _ _).trans hcalls) standing_le_one
    · rw [List.count_cons_of_ne hsame]
      refine le_trans (Nat.add_le_add_left ?_ _) hcalls
      by_cases hid : routine.id = id
      · have hstands : standing (lookup dispatch) routine = 0 := by
          refine if_neg fun hin => hsame ?_
          rw [← hself, ← hid, hin.2]
        rw [hstands]
        exact Nat.zero_le _
      · exact standing_mono (hother routine.id hid)
  · dsimp only [State.outstanding]
    rw [hhand]
    exact hspent.queued
  · intro site
    dsimp only
    rw [hcounts]
    exact hspent.counted site

/-- Events count no deopts. -/
theorem deoptCount_processEvent (knobs : Knobs) (analyzer : Analyzer)
    (segSite : Option ℕ) (ev : AllocEvent) (compile : RoutineSpec → Option ℕ)
    (id : CallSiteID) :
    ((analyzer.processEvent knobs compile segSite ev).1.summaryOf
      id).deoptCount = (analyzer.summaryOf id).deoptCount := by
  obtain ⟨hsame, -⟩ | ⟨_, _, _, -, -, -, -, hnext, -⟩ | ⟨_, _, hfreed, -⟩ |
      ⟨_, hop, -⟩ :=
    Tracked.site_cases knobs ⟨analyzer, fun _ => .empty⟩
      (.process segSite ev compile) id
  · exact congrArg CallSiteSummary.deoptCount hsame
  · exact (congrArg CallSiteSummary.deoptCount hnext).trans
      (CallSiteSummary.sameBooks_processAlloc knobs _ _ _).deoptCount
  · exact (congrArg CallSiteSummary.deoptCount hfreed).trans rfl
  · cases hop

theorem deoptCount_resetCallSite_le (analyzer : Analyzer) (id site : CallSiteID)
    (reason : DeoptReason) :
    ((analyzer.resetCallSite knobs site reason).summaryOf id).deoptCount ≤
      (analyzer.summaryOf id).deoptCount + if site = id then 1 else 0 := by
  by_cases hid : id = site
  · subst hid
    rw [if_pos rfl, Analyzer.summaryOf, Analyzer.summaryOf,
      Analyzer.find_resetCallSite_self]
    cases analyzer.find id with
    | none => exact Nat.zero_le _
    | some summary => exact Nat.mod_le _ _
  · rw [Analyzer.summaryOf, Analyzer.summaryOf,
      Analyzer.find_resetCallSite_of_ne hid]
    exact Nat.le_add_right _ _

/-- The deopt in hand is reset, and its page put on the list if that has room. -/
theorem Spent.reset (hspent : Spent docket) {deopt : DequeuedDeopt}
    (hhand : docket.state.background = .resetting deopt) :
    Spent { docket with
      state := { docket.state with
        analyzer :=
          docket.state.analyzer.resetCallSite knobs deopt.id deopt.reason
        epoch := docket.state.epoch + 1
        pending := if docket.state.pending.length < maxPending then
          docket.state.pending ++ [⟨deopt.page, docket.state.epoch⟩]
          else docket.state.pending
        background := .popping }
      resets := docket.resets ++ [deopt]
      entered := if docket.state.pending.length < maxPending then
        docket.entered ++ [deopt.page] else docket.entered } := by
  refine { hspent with queued := ?_, entered := ?_, pending := ?_, counted := ?_ }
  · have hqueued := hspent.queued
    rw [State.outstanding, hhand] at hqueued
    dsimp only [State.outstanding]
    rw [hqueued, List.append_assoc]
    rfl
  · dsimp only
    rw [List.map_append]
    split
    · exact hspent.entered.append (List.Sublist.refl _)
    · exact hspent.entered.trans (List.sublist_append_left _ _)
  · dsimp only
    split
    · rw [List.map_append, List.append_assoc]
      refine (List.Perm.append_left _ List.perm_append_comm).trans ?_
      rw [← List.append_assoc]
      exact hspent.pending.append_right _
    · exact hspent.pending
  · intro id
    dsimp only
    rw [List.countP_append, List.countP_singleton]
    refine (deoptCount_resetCallSite_le _ _ _ _).trans ?_
    refine Nat.add_le_add (hspent.counted id) (Nat.le_of_eq ?_)
    simp only [decide_eq_true_eq]

/-- The pages that are due move from the list to `reclaim`. -/
theorem perm_due (pending : List PendingReclaim) (reclaimed : List ℕ)
    (due : PendingReclaim → Bool) :
    ((pending.filter fun entry => !due entry).map PendingReclaim.page ++
      (reclaimed ++ (pending.filter due).map PendingReclaim.page)).Perm
      (pending.map PendingReclaim.page ++ reclaimed) := by
  have hsplit := (List.filter_append_perm due pending).map PendingReclaim.page
  rw [List.map_append] at hsplit
  refine List.perm_append_comm.trans ?_
  rw [List.append_assoc]
  exact (List.Perm.append_left _ hsplit).trans List.perm_append_comm

theorem Spent.step (hspent : Spent docket) {action : Action} {after : Docket}
    (hfrom : FromInstalled docket.state action)
    (hstep : docket.step knobs action = some after) : Spent after := by
  obtain ⟨next, hnext, rfl⟩ := Option.map_eq_some_iff.mp hstep
  cases action with
  | register tid =>
      simp only [Deopt.step, State.register] at hnext
      split at hnext
      · obtain rfl := Option.some.inj hnext
        exact hspent.frame rfl (fun _ => rfl) (fun _ _ => id) rfl
          (List.Perm.refl _)
      · cases hnext
  | loadEpoch tid =>
      simp only [Deopt.step, State.loadEpoch] at hnext
      split at hnext
      · obtain rfl := Option.some.inj hnext
        exact hspent.goto tid (fun _ => ThreadPhase.noConfusion) _ _
      · cases hnext
  | storeEpoch tid =>
      simp only [Deopt.step, State.storeEpoch] at hnext
      split at hnext
      · obtain rfl := Option.some.inj hnext
        exact hspent.goto tid (fun _ => ThreadPhase.noConfusion) _ _
      · cases hnext
  | handle tid deopt =>
      simp only [Deopt.step, State.handle] at hnext
      split at hnext
      · obtain rfl := Option.some.inj hnext
        rw [Docket.observe]
        by_cases henabled : docket.state.enabled = true
        · rw [if_pos henabled, if_pos henabled]
          obtain ⟨hpage, hfound⟩ := hfrom henabled
          exact hspent.handle hpage hfound
        · rw [if_neg henabled, if_neg henabled]
          exact hspent
      · cases hnext
  | enqueue tid =>
      simp only [Deopt.step, State.enqueue] at hnext
      split at hnext
      · next deopt htid =>
          obtain rfl := Option.some.inj hnext
          rw [Docket.observe, htid]
          dsimp only
          split
          · exact hspent.enqueue htid
          · exact hspent.goto tid (fun _ => ThreadPhase.noConfusion) _ _
      · cases hnext
  | setEnabled on =>
      obtain rfl := Option.some.inj hnext
      exact hspent.frame rfl (fun _ => rfl) (fun _ _ => id) rfl
        (List.Perm.refl _)
  | event segSite ev compile =>
      simp only [Deopt.step, State.event] at hnext
      split at hnext
      · next hbetween =>
          have hcounts := deoptCount_processEvent knobs
            docket.state.analyzer segSite ev compile
          have hhand : Background.working.inHand =
              docket.state.background.inHand := by
            cases hphase : docket.state.background <;>
              rw [hphase] at hbetween <;> first | rfl | cases hbetween
          split at hnext
          · next spec page hcompiled =>
              rw [Docket.observe_event_installs hcompiled]
              obtain ⟨dispatch, hinstall, rfl⟩ :=
                Option.map_eq_some_iff.mp hnext
              exact hspent.install hinstall hcounts hhand
          · next hquiet =>
              rw [Docket.observe_event_quiet hquiet]
              obtain rfl := Option.some.inj hnext
              refine hspent.frame rfl hcounts (fun _ _ => id) ?_
                (List.Perm.refl _)
              dsimp only [State.outstanding]
              rw [hhand]
      · cases hnext
  | drain =>
      simp only [Deopt.step, State.drain] at hnext
      split at hnext
      · next hbetween =>
          obtain rfl := Option.some.inj hnext
          refine hspent.frame rfl (fun _ => rfl) (fun _ _ => id) ?_
            (List.Perm.refl _)
          rw [outstanding_of_betweenDrains hbetween]
          rfl
      · cases hnext
  | pop =>
      simp only [Deopt.step, State.pop] at hnext
      split at hnext
      · next hpopping =>
          have houtstanding : docket.state.outstanding = docket.state.queue := by
            rw [State.outstanding, hpopping]
            rfl
          split at hnext
          · next hqueue =>
              obtain rfl := Option.some.inj hnext
              refine hspent.frame rfl (fun _ => rfl) (fun _ _ => id) ?_
                (List.Perm.refl _)
              rw [houtstanding, State.outstanding]
              dsimp only
              split <;> rfl
          · next deopt rest hqueue =>
              obtain rfl := Option.some.inj hnext
              refine hspent.frame rfl (fun _ => rfl) (fun _ _ => id) ?_
                (List.Perm.refl _)
              rw [houtstanding, hqueue]
              rfl
      · cases hnext
  | reset =>
      simp only [Deopt.step, State.reset] at hnext
      split at hnext
      · next deopt hhand =>
          obtain rfl := Option.some.inj hnext
          rw [Docket.observe, hhand]
          exact hspent.reset hhand
      · cases hnext
  | scan =>
      simp only [Deopt.step, State.scan] at hnext
      split at hnext
      · next hemptied =>
          obtain rfl := Option.some.inj hnext
          refine hspent.frame rfl (fun _ => rfl) (fun _ _ => id) ?_
            (List.Perm.refl _)
          rw [State.outstanding, State.outstanding, hemptied]
          rfl
      · cases hnext
  | visit =>
      simp only [Deopt.step, State.visit] at hnext
      split at hnext
      · next tid rest minEpoch hscanning =>
          obtain rfl := Option.some.inj hnext
          refine hspent.frame rfl (fun _ => rfl) (fun _ _ => id) ?_
            (List.Perm.refl _)
          rw [State.outstanding, State.outstanding, hscanning]
          rfl
      · next minEpoch hscanning =>
          obtain rfl := Option.some.inj hnext
          refine hspent.frame rfl (fun _ => rfl) (fun _ _ => id) ?_
            (perm_due _ _ _)
          rw [State.outstanding, State.outstanding, hscanning]
          rfl
      · cases hnext

end Steps

/-! ## Every run -/

/-- In a run in which `handle` is called only with a routine that stands in the
table, a routine deoptimizes at most once. -/
theorem once_reachable {knobs : Knobs} {docket : Docket}
    (hreach : ReachableWhen (Docket.step knobs)
      (fun docket action => FromInstalled docket.state action) .initial docket) :
    docket.Once := by
  have hspent : Spent docket := hreach.invariant spent_initial
    fun _ _ _ hspent hfrom hstep => hspent.step hfrom hstep
  exact hspent.once

/-- `FromInstalled`, decided. -/
def isFromInstalled (docket : Docket) : Action → Bool
  | .handle _ deopt => !docket.state.enabled ||
      decide (deopt.page ≠ 0) &&
        decide (lookup docket.state.dispatch deopt.id = deopt.page)
  | _ => true

theorem fromInstalled_of_check {docket : Docket} {action : Action}
    (hcheck : isFromInstalled docket action = true) :
    FromInstalled docket.state action := by
  cases action with
  | handle tid deopt =>
      intro henabled
      rw [isFromInstalled, henabled, Bool.not_true, Bool.false_or,
        Bool.and_eq_true, decide_eq_true_eq, decide_eq_true_eq] at hcheck
      exact hcheck
  | _ => trivial

/-- A thread calls `handle` for site 7 and the next drain answers. -/
def deoptimizes (tid page : ℕ) : List Action :=
  [.handle tid ⟨7, page, .sizeDrift⟩, .enqueue tid, .drain, .pop, .reset, .pop,
    .scan]

/-- Site 7 specializes, deoptimizes, specializes again and deoptimizes again,
each time from the routine it has. -/
def deoptimizesTwice : List Action :=
  List.flatten [List.replicate 12 (allocatesSize 4096 16), deoptimizes 1 4096,
    [.visit], List.replicate 12 (allocatesSize 8192 16), deoptimizes 2 8192,
    [.visit]]

theorem once_deoptimizesTwice :
    ∃ docket : Docket, docket.installs = [⟨7, 8192⟩, ⟨7, 4096⟩] ∧
      docket.state.reclaimed = [4096, 8192] ∧ docket.Once := by
  have hruns : (run (fun docket action =>
      if isFromInstalled docket action then
        Docket.step sixEventKnobs docket action else none) .initial
      deoptimizesTwice).any (fun docket =>
        decide (docket.installs = [⟨7, 8192⟩, ⟨7, 4096⟩] ∧
          docket.state.reclaimed = [4096, 8192])) = true := by
    decide +kernel
  obtain ⟨docket, hrun, hfacts⟩ := (Option.any_eq_true _ _).mp hruns
  obtain ⟨hinstalls, hreclaimed⟩ := of_decide_eq_true hfacts
  exact ⟨docket, hinstalls, hreclaimed, once_reachable
    (reachableWhen_of_run (fun _ _ => fromInstalled_of_check) .start hrun)⟩

/-- Threads 1 and 2 are in the routine of site 7 when its guard fails.  The
site is reset and specializes again before thread 2 calls `handle`. -/
def lateHandle : List Action :=
  List.flatten [[.register 2, .loadEpoch 2, .storeEpoch 2],
    List.replicate 12 (allocatesSize 4096 16), deoptimizes 1 4096,
    [.visit, .visit], List.replicate 12 (allocatesSize 8192 16),
    deoptimizes 2 4096, [.visit, .visit],
    [.loadEpoch 2, .storeEpoch 2, .drain, .pop, .scan, .visit, .visit]]

/-- The second call uninstalls the newer routine, resets the site again and has
the page reclaimed twice. -/
theorem not_once_lateHandle :
    ∃ docket, Reachable (Docket.step sixEventKnobs) .initial docket ∧
      docket.installs = [⟨7, 8192⟩, ⟨7, 4096⟩] ∧
      docket.state.reclaimed = [4096, 4096] ∧
      (docket.state.analyzer.summaryOf 7).deoptCount = 2 ∧
      (∃ call ∈ docket.calls, call.timely = false ∧ call.found = 8192 ∧
        call.left = 0) ∧ ¬docket.Once := by
  have hruns : (run (Docket.step sixEventKnobs) .initial lateHandle).any
      (fun docket =>
        decide (docket.installs = [⟨7, 8192⟩, ⟨7, 4096⟩] ∧
          docket.state.reclaimed = [4096, 4096] ∧
          (docket.state.analyzer.summaryOf 7).deoptCount = 2) &&
        docket.calls.any fun call => decide (call.timely = false ∧
          call.found = 8192 ∧ call.left = 0)) = true := by
    decide +kernel
  obtain ⟨docket, hrun, hfacts⟩ := (Option.any_eq_true _ _).mp hruns
  rw [Bool.and_eq_true, List.any_eq_true] at hfacts
  obtain ⟨hfacts, call, hcall, hlate⟩ := hfacts
  obtain ⟨hinstalls, hreclaimed, hcount⟩ := of_decide_eq_true hfacts
  refine ⟨docket, reachable_of_run .start hrun, hinstalls, hreclaimed, hcount,
    ⟨call, hcall, of_decide_eq_true hlate⟩, fun honce => ?_⟩
  have hle := honce.reclaimed 4096
  rw [hinstalls, hreclaimed] at hle
  exact absurd hle (by decide)

end TbjitAlloc.Deopt
