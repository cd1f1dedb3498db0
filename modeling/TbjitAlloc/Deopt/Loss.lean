import TbjitAlloc.Analysis.Blacklist
import TbjitAlloc.Deopt.Machine

/-!
# No deopt is lost

Beside the state of the machine stands what has been asked of it: the calls of
`handle` since a drain last found the queue empty, those that drain answered,
the pages ever passed, and the sites reverted since they entered Compiled.  A
drain answers every call as long as neither the queue nor the list of pages that
wait is full when a deopt comes to it.
-/

namespace TbjitAlloc.Deopt

open TbjitAlloc.Analysis
open TbjitAlloc.Codegen
open TbjitAlloc.Dispatch
open TbjitAlloc.Transition

/-- The machine with the histories of its calls.  `before` is the analyzer as
the last drain found it. -/
structure Log where
  state : State
  calls : List DequeuedDeopt
  answered : List DequeuedDeopt
  passed : List DequeuedDeopt
  before : Analyzer
  reverted : CallSiteID → Bool

namespace Log

def initial : Log where
  state := .initial
  calls := []
  answered := []
  passed := []
  before := .empty
  reverted := fun _ => false

/-- A call of `handle` has returned. -/
def returns (log : Log) (deopt : DequeuedDeopt) (next : State) : Log :=
  { log with
    state := next
    calls := log.calls ++ [deopt]
    passed := log.passed ++ [deopt] }

/-- What a step from the state of the log to `next` adds. -/
def observe (log : Log) (action : Action) (next : State) : Log :=
  match action with
  | .handle _ deopt =>
      if log.state.enabled then
        { log with
          state := next
          reverted := Function.update log.reverted deopt.id true }
      else log.returns deopt next
  | .enqueue tid =>
      match log.state.thread tid with
      | .reverted deopt => log.returns deopt next
      | _ => { log with state := next }
  | .event _ _ _ =>
      { log with
        state := next
        reverted := fun id => log.reverted id &&
          !decide (EntersCompiled log.state.analyzer next.analyzer id) }
  | .drain => { log with state := next, before := log.state.analyzer }
  | .pop =>
      if log.state.queue = [] then
        { log with state := next, answered := log.calls, calls := [] }
      else { log with state := next }
  | _ => { log with state := next }

def step (knobs : Knobs) (log : Log) (action : Action) : Option Log :=
  (Deopt.step knobs log.state action).map (log.observe action)

/-- No call of `handle` is in progress, and none has returned since the drain
last looked at the queue. -/
def Quiet (log : Log) : Prop :=
  (∀ tid deopt, log.state.thread tid ≠ .reverted deopt) ∧ log.calls = []

/-- The number of answered calls for a site. -/
def deopts (log : Log) (id : CallSiteID) : ℕ :=
  log.answered.countP fun deopt => deopt.id = id

/-- Every known site handled since the drain before is reset, every page is
accounted for, and no site is reverted and still Compiled. -/
structure Kept (log : Log) : Prop where
  reset : ∀ deopt ∈ log.answered, ∀ summary,
    log.state.analyzer.find deopt.id = some summary →
      summary.phase = .deopt ∧
        ∃ earlier, log.before.find deopt.id = some earlier ∧
          0 < log.deopts deopt.id ∧
          summary.deoptCount =
            (earlier.deoptCount + log.deopts deopt.id) % 2 ^ 32
  pages : ∀ deopt ∈ log.passed,
    deopt.page ∈ log.state.pending.map PendingReclaim.page ∨
      deopt.page ∈ log.state.reclaimed
  phases : ∀ id, log.reverted id = true →
    log.state.analyzer.getPhase id ≠ .compiled

/-- Whenever a drain has returned with no `handle` in progress, nothing is
lost. -/
def NothingLost (log : Log) : Prop :=
  log.state.background = .returned → log.Quiet → log.Kept

end Log

/-- `handle` is enabled, and a deopt that comes to the queue or to the list of
pages finds room there. -/
def Room (log : Log) : Action → Prop
  | .handle _ _ => log.state.enabled = true
  | .enqueue _ => log.state.queue.length < deoptQueueCap
  | .reset => log.state.pending.length < maxPending
  | _ => True

/-! ## Resetting many sites -/

/-- `reset_call_site` for each of the deopts, in order. -/
def resetAll (knobs : Knobs) (analyzer : Analyzer)
    (deopts : List DequeuedDeopt) : Analyzer :=
  deopts.foldl (fun analyzer deopt =>
    analyzer.resetCallSite knobs deopt.id deopt.reason) analyzer

theorem resetAll_concat (knobs : Knobs) (analyzer : Analyzer)
    (deopts : List DequeuedDeopt) (deopt : DequeuedDeopt) :
    resetAll knobs analyzer (deopts ++ [deopt]) =
      (resetAll knobs analyzer deopts).resetCallSite knobs deopt.id
        deopt.reason := by
  rw [resetAll, List.foldl_append, ← resetAll]
  rfl

/-- A site known after the resets was known before them.  Each of its deopts is
counted, and the last left it in the Deopt phase. -/
theorem find_resetAll (knobs : Knobs) (analyzer : Analyzer) (id : CallSiteID)
    (deopts : List DequeuedDeopt) {summary : CallSiteSummary}
    (hfind : (resetAll knobs analyzer deopts).find id = some summary) :
    ∃ earlier, analyzer.find id = some earlier ∧
      (deopts.countP (fun deopt => deopt.id = id) = 0 → summary = earlier) ∧
      (0 < deopts.countP (fun deopt => deopt.id = id) →
        summary.phase = .deopt ∧ summary.deoptCount = (earlier.deoptCount +
          deopts.countP fun deopt => deopt.id = id) % 2 ^ 32) := by
  induction deopts using List.reverseRecOn generalizing summary with
  | nil =>
      exact ⟨summary, hfind, fun _ => rfl, fun hpos => absurd hpos (by simp)⟩
  | append_singleton deopts deopt ih =>
      rw [resetAll_concat] at hfind
      rw [List.countP_append, List.countP_singleton]
      by_cases hid : deopt.id = id
      · subst hid
        rw [Analyzer.find_resetCallSite_self, Option.map_eq_some_iff] at hfind
        obtain ⟨last, hlast, rfl⟩ := hfind
        obtain ⟨earlier, hearlier, hzero, hpos⟩ := ih hlast
        simp only [decide_true, if_true]
        refine ⟨earlier, hearlier, fun hnone => by omega, fun _ => ⟨rfl, ?_⟩⟩
        change (last.deoptCount + 1) % 2 ^ 32 = _
        rcases Nat.eq_zero_or_pos
          (deopts.countP fun other => other.id = deopt.id) with hnone | hsome
        · rw [hzero hnone, hnone]
        · rw [(hpos hsome).2, Nat.mod_add_mod, Nat.add_assoc]
      · rw [Analyzer.find_resetCallSite_of_ne (Ne.symm hid)] at hfind
        simp only [hid, decide_false, Bool.false_eq_true, if_false,
          Nat.add_zero]
        exact ih hfind

/-- A site that has just been reset is not Compiled. -/
theorem getPhase_resetCallSite_self (knobs : Knobs) (analyzer : Analyzer)
    (id : CallSiteID) (reason : DeoptReason) :
    (analyzer.resetCallSite knobs id reason).getPhase id ≠ .compiled := by
  rw [Analyzer.getPhase, Analyzer.find_resetCallSite_self]
  cases analyzer.find id <;> exact Phase.noConfusion

theorem getPhase_resetCallSite_of_ne (knobs : Knobs) (analyzer : Analyzer)
    {id other : CallSiteID} (hne : id ≠ other) (reason : DeoptReason) :
    (analyzer.resetCallSite knobs other reason).getPhase id =
      analyzer.getPhase id := by
  rw [Analyzer.getPhase, Analyzer.getPhase,
    Analyzer.find_resetCallSite_of_ne hne]

/-! ## The invariant -/

/-- The entry the background thread has taken off the queue. -/
def Background.inHand : Background → List DequeuedDeopt
  | .resetting deopt => [deopt]
  | _ => []

/-- The deopts that are still to be answered. -/
def State.outstanding (state : State) : List DequeuedDeopt :=
  state.background.inHand ++ state.queue

/-- Every call is answered, in hand or queued, in this order. -/
def Accounted (knobs : Knobs) (log : Log) : Prop :=
  match log.state.background with
  | .working => log.calls = log.state.queue
  | .popping => ∃ popped, log.calls = popped ++ log.state.queue ∧
      log.state.analyzer = resetAll knobs log.before popped
  | .resetting deopt => ∃ popped,
      log.calls = popped ++ deopt :: log.state.queue ∧
        log.state.analyzer = resetAll knobs log.before popped
  | _ => log.calls = log.state.queue ∧
      log.state.analyzer = resetAll knobs log.before log.answered

structure Inv (knobs : Knobs) (log : Log) : Prop where
  accounted : Accounted knobs log
  pages : ∀ deopt ∈ log.passed, deopt ∈ log.state.outstanding ∨
    deopt.page ∈ log.state.pending.map PendingReclaim.page ∨
      deopt.page ∈ log.state.reclaimed
  matched : ∀ id, log.reverted id = true →
    log.state.analyzer.getPhase id ≠ .compiled ∨
      (∃ tid deopt, log.state.thread tid = .reverted deopt ∧ deopt.id = id) ∨
      ∃ deopt ∈ log.state.outstanding, deopt.id = id

theorem inv_initial (knobs : Knobs) : Inv knobs .initial where
  accounted := rfl
  pages := fun _ h => absurd h List.not_mem_nil
  matched := fun _ h => by cases h

theorem Inv.nothingLost {knobs : Knobs} {log : Log} (hinv : Inv knobs log) :
    log.NothingLost := by
  intro hreturned hquiet
  obtain ⟨hnone, hcalls⟩ := hquiet
  have haccounted := hinv.accounted
  rw [Accounted, hreturned, hcalls] at haccounted
  obtain ⟨hqueue, hanalyzer⟩ := haccounted
  have houtstanding : log.state.outstanding = [] := by
    rw [State.outstanding, hreturned, ← hqueue]
    rfl
  constructor
  · intro deopt hdeopt summary hfind
    rw [hanalyzer] at hfind
    obtain ⟨earlier, hearlier, -, hreset⟩ := find_resetAll knobs _ _ _ hfind
    have hpos : 0 < log.deopts deopt.id :=
      List.countP_pos_iff.mpr ⟨deopt, hdeopt, decide_eq_true rfl⟩
    exact ⟨(hreset hpos).1, earlier, hearlier, hpos, (hreset hpos).2⟩
  · intro deopt hdeopt
    refine (hinv.pages deopt hdeopt).resolve_left fun hmem => ?_
    rw [houtstanding] at hmem
    cases hmem
  · intro id hid
    rcases hinv.matched id hid with hphase | ⟨tid, deopt, hthread, -⟩ |
      ⟨deopt, hmem, -⟩
    · exact hphase
    · exact absurd hthread (hnone tid deopt)
    · rw [houtstanding] at hmem
      cases hmem

section Steps

variable {knobs : Knobs} {log : Log} {next : State}

/-- A step that moves threads only, and none out of `handle`. -/
theorem Inv.frame (hinv : Inv knobs log)
    (hanalyzer : next.analyzer = log.state.analyzer)
    (hqueue : next.queue = log.state.queue)
    (hpending : next.pending = log.state.pending)
    (hbackground : next.background = log.state.background)
    (hreclaimed : next.reclaimed = log.state.reclaimed)
    (hthread : ∀ tid deopt, log.state.thread tid = .reverted deopt →
      next.thread tid = .reverted deopt) :
    Inv knobs { log with state := next } where
  accounted := by
    have haccounted := hinv.accounted
    rw [Accounted] at haccounted ⊢
    dsimp only
    rw [hbackground, hqueue, hanalyzer]
    exact haccounted
  pages := by
    dsimp only [State.outstanding]
    rw [hbackground, hqueue, hpending, hreclaimed]
    exact hinv.pages
  matched := by
    intro id hid
    dsimp only [State.outstanding] at hid ⊢
    rw [hbackground, hqueue, hanalyzer]
    rcases hinv.matched id hid with hphase | ⟨tid, deopt, hin, heq⟩ | hmem
    · exact .inl hphase
    · exact .inr (.inl ⟨tid, deopt, hthread tid deopt hin, heq⟩)
    · exact .inr (.inr hmem)

theorem reverted_update {thread : ℕ → ThreadPhase} {tid other : ℕ}
    {phase : ThreadPhase} {deopt : DequeuedDeopt}
    (htid : thread tid ≠ .reverted deopt)
    (hother : thread other = .reverted deopt) :
    Function.update thread tid phase other = .reverted deopt := by
  rw [Function.update_of_ne]
  · exact hother
  · rintro rfl
    exact htid hother

theorem Inv.goto (hinv : Inv knobs log) {tid : ℕ} {phase : ThreadPhase}
    (htid : ∀ deopt, log.state.thread tid ≠ .reverted deopt)
    (threads : List ℕ) (threadEpoch : ℕ → ℕ) :
    Inv knobs { log with
      state := { log.state.goto tid phase with
        threads := threads
        threadEpoch := threadEpoch } } :=
  hinv.frame rfl rfl rfl rfl rfl
    fun _ deopt hother => reverted_update (htid deopt) hother

/-- The first half of `handle`. -/
theorem Inv.handle (hinv : Inv knobs log) {tid : ℕ}
    (htid : log.state.thread tid = .outside) (deopt : DequeuedDeopt) :
    Inv knobs { log with
      state := { log.state.goto tid (.reverted deopt) with
        dispatch := revert log.state.dispatch deopt.id }
      reverted := Function.update log.reverted deopt.id true } where
  accounted := hinv.accounted
  pages := hinv.pages
  matched := by
    intro id hid
    by_cases heq : id = deopt.id
    · exact .inr (.inl ⟨tid, deopt, Function.update_self _ _ _, heq.symm⟩)
    · dsimp only at hid
      rw [Function.update_of_ne heq] at hid
      rcases hinv.matched id hid with hphase | ⟨other, pushed, hin, hsame⟩ |
        hmem
      · exact .inl hphase
      · refine .inr (.inl ⟨other, pushed, reverted_update ?_ hin, hsame⟩)
        rw [htid]
        exact ThreadPhase.noConfusion
      · exact .inr (.inr hmem)

/-- The second half of `handle`, when the queue has room. -/
theorem Inv.enqueue (hinv : Inv knobs log) {tid : ℕ} {deopt : DequeuedDeopt}
    (htid : log.state.thread tid = .reverted deopt) :
    Inv knobs (log.returns deopt { log.state.goto tid .outside with
      queue := log.state.queue ++ [deopt] }) where
  accounted := by
    have haccounted := hinv.accounted
    rw [Accounted] at haccounted ⊢
    dsimp only [Log.returns, State.goto]
    split at haccounted
    · rw [haccounted]
    · obtain ⟨popped, hcalls, hanalyzer⟩ := haccounted
      exact ⟨popped, by rw [hcalls, List.append_assoc], hanalyzer⟩
    · obtain ⟨popped, hcalls, hanalyzer⟩ := haccounted
      exact ⟨popped, by rw [hcalls, List.append_assoc]; rfl, hanalyzer⟩
    · exact ⟨by rw [haccounted.1], haccounted.2⟩
  pages := by
    intro passed hpassed
    dsimp only [State.outstanding, State.goto, Log.returns] at hpassed ⊢
    rw [← List.append_assoc]
    rcases List.mem_append.mp hpassed with hold | hnew
    · exact (hinv.pages passed hold).imp_left (List.mem_append_left _)
    · exact .inl (List.mem_append_right _ hnew)
  matched := by
    intro id hid
    dsimp only [State.outstanding, State.goto, Log.returns] at hid ⊢
    rw [← List.append_assoc]
    rcases hinv.matched id hid with hphase | ⟨other, pushed, hin, hsame⟩ |
      ⟨queued, hmem, hsame⟩
    · exact .inl hphase
    · by_cases heq : other = tid
      · rw [heq, htid, ThreadPhase.reverted.injEq] at hin
        exact .inr (.inr ⟨deopt, List.mem_append_right _
          (List.mem_singleton_self _), hin ▸ hsame⟩)
      · refine .inr (.inl ⟨other, pushed, ?_, hsame⟩)
        rw [Function.update_of_ne heq]
        exact hin
    · exact .inr (.inr ⟨queued, List.mem_append_left _ hmem, hsame⟩)

theorem outstanding_of_betweenDrains {state : State}
    (hbackground : state.background.betweenDrains = true) :
    state.outstanding = state.queue := by
  rw [State.outstanding]
  cases hphase : state.background <;> rw [hphase] at hbackground <;>
    first | rfl | cases hbackground

/-- Between drains every call that has returned is in the queue. -/
theorem Inv.calls_eq (hinv : Inv knobs log)
    (hbackground : log.state.background.betweenDrains = true) :
    log.calls = log.state.queue := by
  have haccounted := hinv.accounted
  rw [Accounted] at haccounted
  cases hphase : log.state.background <;>
    rw [hphase] at hbackground haccounted <;> first
    | exact haccounted
    | exact haccounted.1
    | cases hbackground

/-- The background thread processes an event. -/
theorem Inv.event (hinv : Inv knobs log)
    (hbackground : log.state.background.betweenDrains = true)
    (analyzer : Analyzer) (dispatch : Table) :
    Inv knobs { log with
      state := { log.state with
        analyzer := analyzer
        dispatch := dispatch
        background := .working }
      reverted := fun id => log.reverted id &&
        !decide (EntersCompiled log.state.analyzer analyzer id) } := by
  have hqueue := outstanding_of_betweenDrains hbackground
  constructor
  · exact hinv.calls_eq hbackground
  · intro deopt hdeopt
    have hpage := hinv.pages deopt hdeopt
    rw [hqueue] at hpage
    exact hpage
  · intro id hid
    dsimp only at hid ⊢
    rw [Bool.and_eq_true, Bool.not_eq_true', decide_eq_false_iff_not] at hid
    have hmatched := hinv.matched id hid.1
    rw [hqueue] at hmatched
    refine hmatched.imp_left fun hphase hcompiled => ?_
    exact hid.2 ⟨hphase, hcompiled⟩

/-- A drain begins. -/
theorem Inv.drain (hinv : Inv knobs log)
    (hbackground : log.state.background.betweenDrains = true) :
    Inv knobs { log with
      state := { log.state with background := .popping }
      before := log.state.analyzer } := by
  have hqueue := outstanding_of_betweenDrains hbackground
  constructor
  · exact ⟨[], hinv.calls_eq hbackground, rfl⟩
  · have hpages := hinv.pages
    rw [hqueue] at hpages
    exact hpages
  · have hmatched := hinv.matched
    rw [hqueue] at hmatched
    exact hmatched

/-- The drain finds the queue empty. -/
theorem Inv.popEmpty (hinv : Inv knobs log)
    (hbackground : log.state.background = .popping)
    (hqueue : log.state.queue = []) {background : Background}
    (hemptied : background = .emptied ∨ background = .returned) :
    Inv knobs { log with
      state := { log.state with background := background }
      answered := log.calls
      calls := [] } := by
  have houtstanding : ({ log.state with
      background := background } : State).outstanding =
      log.state.outstanding := by
    rw [State.outstanding, State.outstanding, hbackground]
    rcases hemptied with rfl | rfl <;> rfl
  constructor
  · have haccounted := hinv.accounted
    rw [Accounted, hbackground, hqueue] at haccounted
    obtain ⟨popped, hcalls, hanalyzer⟩ := haccounted
    rw [List.append_nil] at hcalls
    rw [Accounted]
    rcases hemptied with rfl | rfl <;>
      exact ⟨hqueue.symm, hcalls ▸ hanalyzer⟩
  · dsimp only
    rw [houtstanding]
    exact hinv.pages
  · dsimp only
    rw [houtstanding]
    exact hinv.matched

/-- The drain takes the oldest entry. -/
theorem Inv.popFirst (hinv : Inv knobs log)
    (hbackground : log.state.background = .popping) {deopt : DequeuedDeopt}
    {rest : List DequeuedDeopt} (hqueue : log.state.queue = deopt :: rest) :
    Inv knobs { log with
      state := { log.state with
        queue := rest
        background := .resetting deopt } } := by
  have houtstanding : ({ log.state with
      queue := rest
      background := .resetting deopt } : State).outstanding =
      log.state.outstanding := by
    rw [State.outstanding, State.outstanding, hbackground, hqueue]
    rfl
  constructor
  · have haccounted := hinv.accounted
    rw [Accounted, hbackground, hqueue] at haccounted
    exact haccounted
  · dsimp only
    rw [houtstanding]
    exact hinv.pages
  · dsimp only
    rw [houtstanding]
    exact hinv.matched

/-- The entry in hand is answered, when its page finds room. -/
theorem Inv.reset (hinv : Inv knobs log) {deopt : DequeuedDeopt}
    (hbackground : log.state.background = .resetting deopt) (epoch : ℕ) :
    Inv knobs { log with
      state := { log.state with
        analyzer :=
          log.state.analyzer.resetCallSite knobs deopt.id deopt.reason
        epoch := epoch
        pending := log.state.pending ++ [⟨deopt.page, log.state.epoch⟩]
        background := .popping } } := by
  have houtstanding : log.state.outstanding = deopt :: log.state.queue := by
    rw [State.outstanding, hbackground]
    rfl
  constructor
  · have haccounted := hinv.accounted
    rw [Accounted, hbackground] at haccounted
    obtain ⟨popped, hcalls, hanalyzer⟩ := haccounted
    refine ⟨popped ++ [deopt], ?_, ?_⟩
    · rw [hcalls, List.append_assoc]
      rfl
    · rw [resetAll_concat, ← hanalyzer]
  · intro passed hpassed
    dsimp only [State.outstanding, Background.inHand]
    rw [List.nil_append, List.map_append]
    rcases hinv.pages passed hpassed with hmem | hpending | hreclaimed
    · rw [houtstanding] at hmem
      rcases List.mem_cons.mp hmem with rfl | hqueued
      · exact .inr (.inl (List.mem_append_right _ (List.mem_singleton_self _)))
      · exact .inl hqueued
    · exact .inr (.inl (List.mem_append_left _ hpending))
    · exact .inr (.inr hreclaimed)
  · intro id hid
    dsimp only [State.outstanding, Background.inHand]
    rw [List.nil_append]
    by_cases heq : id = deopt.id
    · exact .inl (heq ▸ getPhase_resetCallSite_self knobs _ _ _)
    · rw [getPhase_resetCallSite_of_ne knobs _ heq]
      rcases hinv.matched id hid with hphase | hthread | ⟨queued, hmem, hsame⟩
      · exact .inl hphase
      · exact .inr (.inl hthread)
      · rw [houtstanding] at hmem
        rcases List.mem_cons.mp hmem with rfl | hqueued
        · exact absurd hsame.symm heq
        · exact .inr (.inr ⟨queued, hqueued, hsame⟩)

/-- A step of the walk over the threads, or the pass over the pages: the pages
that leave the list are reclaimed. -/
theorem Inv.walk (hinv : Inv knobs log) {background : Background}
    (hbefore : log.state.background = .emptied ∨
      ∃ rest minEpoch, log.state.background = .scanning rest minEpoch)
    (hafter : background = .returned ∨
      ∃ rest minEpoch, background = .scanning rest minEpoch)
    {pending : List PendingReclaim} {reclaimed : List ℕ}
    (hpages : ∀ page,
      page ∈ log.state.pending.map PendingReclaim.page ∨
        page ∈ log.state.reclaimed →
      page ∈ pending.map PendingReclaim.page ∨ page ∈ reclaimed) :
    Inv knobs { log with
      state := { log.state with
        pending := pending
        reclaimed := reclaimed
        background := background } } := by
  have houtstanding : ({ log.state with
      pending := pending
      reclaimed := reclaimed
      background := background } : State).outstanding =
      log.state.outstanding := by
    rw [State.outstanding, State.outstanding]
    rcases hbefore with hbefore | ⟨rest, minEpoch, hbefore⟩ <;>
      rcases hafter with rfl | ⟨rest, minEpoch, rfl⟩ <;> rw [hbefore] <;> rfl
  constructor
  · have haccounted := hinv.accounted
    rw [Accounted] at haccounted ⊢
    rcases hbefore with hbefore | ⟨rest, minEpoch, hbefore⟩ <;>
      rw [hbefore] at haccounted <;>
      rcases hafter with rfl | ⟨rest, minEpoch, rfl⟩ <;> exact haccounted
  · intro deopt hdeopt
    dsimp only
    rw [houtstanding]
    exact (hinv.pages deopt hdeopt).imp_right (hpages deopt.page)
  · dsimp only
    rw [houtstanding]
    exact hinv.matched

/-- A permitted step keeps the invariant. -/
theorem Inv.step (hinv : Inv knobs log) {action : Action} {target : Log}
    (hroom : Room log action) (hstep : log.step knobs action = some target) :
    Inv knobs target := by
  rw [Log.step, Option.map_eq_some_iff] at hstep
  obtain ⟨next, hnext, rfl⟩ := hstep
  cases action with
  | register tid =>
      simp only [Deopt.step, State.register, Option.ite_none_right_eq_some,
        Option.some.injEq] at hnext
      obtain ⟨-, rfl⟩ := hnext
      exact hinv.frame rfl rfl rfl rfl rfl fun _ _ hin => hin
  | loadEpoch tid =>
      simp only [Deopt.step, State.loadEpoch, Option.ite_none_right_eq_some,
        Option.some.injEq] at hnext
      obtain ⟨⟨houtside, -⟩, rfl⟩ := hnext
      exact hinv.goto (by simp [houtside]) _ _
  | storeEpoch tid =>
      simp only [Deopt.step, State.storeEpoch] at hnext
      split at hnext
      · next epoch hloaded =>
          obtain rfl := Option.some.inj hnext
          exact hinv.goto (by simp [hloaded]) _ _
      · cases hnext
  | handle tid deopt =>
      simp only [Deopt.step, State.handle, Option.ite_none_right_eq_some,
        Option.some.injEq] at hnext
      obtain ⟨houtside, rfl⟩ := hnext
      have henabled : log.state.enabled = true := hroom
      simp only [Log.observe, henabled, if_true]
      exact hinv.handle houtside deopt
  | enqueue tid =>
      have hfree : log.state.queue.length < deoptQueueCap := hroom
      simp only [Deopt.step, State.enqueue, if_pos hfree] at hnext
      split at hnext
      · next deopt hreverted =>
          obtain rfl := Option.some.inj hnext
          simp only [Log.observe, hreverted]
          exact hinv.enqueue hreverted
      · cases hnext
  | setEnabled on =>
      obtain rfl := Option.some.inj hnext
      exact hinv.frame rfl rfl rfl rfl rfl fun _ _ hin => hin
  | event segSite ev compile =>
      simp only [Deopt.step, State.event] at hnext
      split at hnext
      · next hbackground =>
          split at hnext
          · obtain ⟨dispatch, -, rfl⟩ := Option.map_eq_some_iff.mp hnext
            exact hinv.event hbackground _ _
          · obtain rfl := Option.some.inj hnext
            exact hinv.event hbackground _ _
      · cases hnext
  | drain =>
      simp only [Deopt.step, State.drain, Option.ite_none_right_eq_some,
        Option.some.injEq] at hnext
      obtain ⟨hbackground, rfl⟩ := hnext
      exact hinv.drain hbackground
  | pop =>
      simp only [Deopt.step, State.pop] at hnext
      split at hnext
      · next hbackground =>
          split at hnext
          · next hqueue =>
              obtain rfl := Option.some.inj hnext
              simp only [Log.observe, if_pos hqueue]
              refine hinv.popEmpty hbackground hqueue ?_
              split
              · exact .inr rfl
              · exact .inl rfl
          · next deopt rest hqueue =>
              obtain rfl := Option.some.inj hnext
              simp only [Log.observe, hqueue, reduceCtorEq, if_false]
              exact hinv.popFirst hbackground hqueue
      · cases hnext
  | reset =>
      have hfree : log.state.pending.length < maxPending := hroom
      simp only [Deopt.step, State.reset, if_pos hfree] at hnext
      split at hnext
      · next deopt hbackground =>
          obtain rfl := Option.some.inj hnext
          exact hinv.reset hbackground _
      · cases hnext
  | scan =>
      simp only [Deopt.step, State.scan, Option.ite_none_right_eq_some,
        Option.some.injEq] at hnext
      obtain ⟨hbackground, rfl⟩ := hnext
      exact hinv.walk (.inl hbackground) (.inr ⟨_, _, rfl⟩) fun _ h => h
  | visit =>
      simp only [Deopt.step, State.visit] at hnext
      split at hnext
      · next tid rest minEpoch hbackground =>
          obtain rfl := Option.some.inj hnext
          exact hinv.walk (.inr ⟨_, _, hbackground⟩) (.inr ⟨_, _, rfl⟩)
            fun _ h => h
      · next minEpoch hbackground =>
          obtain rfl := Option.some.inj hnext
          refine hinv.walk (.inr ⟨_, _, hbackground⟩) (.inl rfl)
            fun page hpage => ?_
          rcases hpage with hpending | hreclaimed
          · obtain ⟨entry, hentry, rfl⟩ := List.mem_map.mp hpending
            by_cases hdue : entry.epoch < minEpoch
            · refine .inr (List.mem_append_right _ (List.mem_map_of_mem ?_))
              exact List.mem_filter.mpr ⟨hentry, decide_eq_true hdue⟩
            · refine .inl (List.mem_map_of_mem ?_)
              exact List.mem_filter.mpr ⟨hentry, by simp [hdue]⟩
          · exact .inr (List.mem_append_left _ hreclaimed)
      · cases hnext

end Steps

/-- In every run in which deopt is enabled and each deopt finds room in the
queue and its page in the list of those that wait, no deopt is lost. -/
theorem nothingLost_reachable {knobs : Knobs} {log : Log}
    (hreach : ReachableWhen (Log.step knobs) Room .initial log) :
    log.NothingLost :=
  (hreach.invariant (inv_initial knobs) fun _ _ _ hinv hroom hstep =>
    hinv.step hroom hstep).nothingLost

/-! ## A drain returns -/

section Runs

variable {knobs : Knobs} {first log : Log}

/-- The walk over the threads and the pass over the pages come to an end. -/
theorem exists_visited {rest : List ℕ} {minEpoch : ℕ}
    (hreach : Reachable (Log.step knobs) first log)
    (hbackground : log.state.background = .scanning rest minEpoch) :
    ∃ target, Reachable (Log.step knobs) first target ∧
      target.state.background = .returned ∧
      target.state.thread = log.state.thread ∧
      target.state.analyzer = log.state.analyzer ∧
      target.calls = log.calls ∧ target.reverted = log.reverted := by
  induction rest generalizing log minEpoch with
  | nil =>
      have hvisit : ∃ next, log.state.visit = some next ∧
          next.background = .returned ∧ next.thread = log.state.thread ∧
          next.analyzer = log.state.analyzer := by
        rw [State.visit, hbackground]
        exact ⟨_, rfl, rfl, rfl, rfl⟩
      obtain ⟨next, hnext, hreturned, hthread, hanalyzer⟩ := hvisit
      refine ⟨{ log with state := next }, hreach.act .visit ?_, hreturned,
        hthread, hanalyzer, rfl, rfl⟩
      rw [Log.step, Deopt.step, hnext]
      rfl
  | cons tid rest ih =>
      have hvisit : log.state.visit = some { log.state with
          background :=
            .scanning rest (min minEpoch (log.state.threadEpoch tid)) } := by
        rw [State.visit, hbackground]
      have hstep : log.step knobs .visit = some { log with
          state := { log.state with
            background :=
              .scanning rest (min minEpoch (log.state.threadEpoch tid)) } } := by
        rw [Log.step, Deopt.step, hvisit]
        rfl
      have hvisited := ih (hreach.act .visit hstep) rfl
      exact hvisited

theorem step_pop_nil (hbackground : log.state.background = .popping)
    (hqueue : log.state.queue = []) :
    log.step knobs .pop = some { log with
      state := { log.state with
        background := if log.state.pending = [] then .returned else .emptied }
      answered := log.calls
      calls := [] } := by
  have hpop : log.state.pop = some { log.state with
      background :=
        if log.state.pending = [] then .returned else .emptied } := by
    rw [State.pop, if_pos hbackground]
    split
    · rfl
    · next hsome => rw [hqueue] at hsome; cases hsome
  rw [Log.step, Deopt.step, hpop, Option.map_some, Log.observe, if_pos hqueue]

theorem step_pop_cons (hbackground : log.state.background = .popping)
    {deopt : DequeuedDeopt} {rest : List DequeuedDeopt}
    (hqueue : log.state.queue = deopt :: rest) :
    log.step knobs .pop = some { log with
      state := { log.state with
        queue := rest
        background := .resetting deopt } } := by
  have hpop : log.state.pop = some { log.state with
      queue := rest
      background := .resetting deopt } := by
    rw [State.pop, if_pos hbackground]
    split
    · next hnone => rw [hqueue] at hnone; cases hnone
    · next hsome =>
        rw [hqueue] at hsome
        cases hsome
        rfl
  rw [Log.step, Deopt.step, hpop, Option.map_some, Log.observe,
    if_neg (by rw [hqueue]; exact List.cons_ne_nil _ _)]

/-- Left to itself a drain returns, and has then answered the whole queue. -/
theorem exists_drained {queue : List DequeuedDeopt}
    (hreach : Reachable (Log.step knobs) first log)
    (hbackground : log.state.background = .popping)
    (hqueue : log.state.queue = queue) :
    ∃ target, Reachable (Log.step knobs) first target ∧
      target.state.background = .returned ∧
      target.state.thread = log.state.thread ∧
      target.state.analyzer = resetAll knobs log.state.analyzer queue ∧
      target.calls = [] ∧ target.reverted = log.reverted := by
  induction queue generalizing log with
  | nil =>
      have hpop := hreach.act .pop (step_pop_nil hbackground hqueue)
      by_cases hpending : log.state.pending = []
      · exact ⟨_, hpop, if_pos hpending, rfl, rfl, rfl, rfl⟩
      · rw [if_neg hpending] at hpop
        have hscan := hpop.act .scan rfl
        exact exists_visited hscan rfl
  | cons deopt rest ih =>
      have hpop := hreach.act .pop (step_pop_cons hbackground hqueue)
      have hreset := hpop.act .reset rfl
      exact ih hreset rfl rfl

/-- A whole call of `handle` that nothing interrupts. -/
theorem reachable_call (hreach : Reachable (Log.step knobs) first log)
    {tid : ℕ} (houtside : log.state.thread tid = .outside)
    (henabled : log.state.enabled = true) (deopt : DequeuedDeopt) :
    Reachable (Log.step knobs) first
      { log with
        state := { log.state with
          dispatch := revert log.state.dispatch deopt.id
          queue := if log.state.queue.length < deoptQueueCap then
            log.state.queue ++ [deopt] else log.state.queue }
        calls := log.calls ++ [deopt]
        passed := log.passed ++ [deopt]
        reverted := Function.update log.reverted deopt.id true } := by
  have hhandle : log.step knobs (.handle tid deopt) = some { log with
      state := { log.state.goto tid (.reverted deopt) with
        dispatch := revert log.state.dispatch deopt.id }
      reverted := Function.update log.reverted deopt.id true } := by
    simp only [Log.step, Deopt.step, State.handle, if_pos houtside,
      Option.map_some, Log.observe, henabled, if_true]
  have hback : Function.update
      (Function.update log.state.thread tid (.reverted deopt)) tid .outside =
      log.state.thread := by
    rw [Function.update_idem, ← houtside, Function.update_eq_self]
  have hhandled := hreach.act (.handle tid deopt) hhandle
  refine hhandled.act (.enqueue tid) ?_
  simp only [Log.step, Deopt.step, State.enqueue, State.goto,
    Function.update_self, Option.map_some, Log.observe, Log.returns, hback]
  rfl

/-! ## A full queue -/

theorem getPhase_resetAll_of_absent {analyzer : Analyzer} {id : CallSiteID}
    {deopts : List DequeuedDeopt} (habsent : ∀ deopt ∈ deopts, deopt.id ≠ id) :
    (resetAll knobs analyzer deopts).getPhase id = analyzer.getPhase id := by
  induction deopts generalizing analyzer with
  | nil => rfl
  | cons deopt deopts ih =>
      rw [List.forall_mem_cons] at habsent
      rw [resetAll, List.foldl_cons, ← resetAll, ih habsent.2]
      exact getPhase_resetCallSite_of_ne knobs _ habsent.1.symm _

/-- A deopt that finds the queue full reverts its site and is forgotten: the
site stays Compiled. -/
theorem lost_of_full (hreach : Reachable (Log.step knobs) first log)
    (henabled : log.state.enabled = true)
    (hthreads : ∀ tid, log.state.thread tid = .outside)
    (hbackground : log.state.background.betweenDrains = true)
    (hfull : deoptQueueCap ≤ log.state.queue.length) (deopt : DequeuedDeopt)
    (hothers : ∀ queued ∈ log.state.queue, queued.id ≠ deopt.id)
    (hcompiled : log.state.analyzer.getPhase deopt.id = .compiled) :
    ∃ target, Reachable (Log.step knobs) first target ∧
      ¬target.NothingLost := by
  have hcalled := reachable_call hreach (hthreads 0) henabled deopt
  rw [if_neg (Nat.not_lt.mpr hfull)] at hcalled
  have hdrain := hcalled.act .drain (by
    rw [Log.step, Deopt.step, State.drain, if_pos hbackground]
    rfl)
  obtain ⟨target, htarget, hreturned, hthread, hanalyzer, hcalls, hreverted⟩ :=
    exists_drained hdrain rfl rfl
  refine ⟨target, htarget, fun hkept => ?_⟩
  have hquiet : target.Quiet := by
    refine ⟨fun tid other => ?_, hcalls⟩
    rw [hthread]
    change log.state.thread tid ≠ _
    rw [hthreads tid]
    exact ThreadPhase.noConfusion
  refine (hkept hreturned hquiet).phases deopt.id ?_ ?_
  · rw [hreverted]
    exact Function.update_self _ _ _
  · rw [hanalyzer]
    exact (getPhase_resetAll_of_absent hothers).trans hcompiled

/-- Calls for one site fill the queue. -/
theorem exists_crowded (hreach : Reachable (Log.step knobs) first log)
    (henabled : log.state.enabled = true)
    (hthreads : ∀ tid, log.state.thread tid = .outside)
    (hqueue : log.state.queue = []) (deopt : DequeuedDeopt) {count : ℕ}
    (hcount : count ≤ deoptQueueCap) :
    ∃ target, Reachable (Log.step knobs) first target ∧
      target.state.enabled = true ∧
      (∀ tid, target.state.thread tid = .outside) ∧
      target.state.background = log.state.background ∧
      target.state.analyzer = log.state.analyzer ∧
      target.state.queue = List.replicate count deopt := by
  induction count with
  | zero => exact ⟨log, hreach, henabled, hthreads, rfl, rfl, hqueue⟩
  | succ count ih =>
      obtain ⟨target, htarget, hon, houtside, hbackground, hanalyzer, hfilled⟩ :=
        ih (Nat.le_of_succ_le hcount)
      have hcalled := reachable_call htarget (houtside count) hon deopt
      refine ⟨_, hcalled, hon, houtside, hbackground, hanalyzer, ?_⟩
      dsimp only
      rw [hfilled, List.length_replicate,
        if_pos (Nat.lt_of_succ_le hcount)]
      exact List.replicate_succ'.symm

end Runs

/-- An allocation at a site, whose code the compiler puts at a page of its
own. -/
def allocatesAt (id : CallSiteID) : Action :=
  .event none ⟨id, 16, 1, 4096⟩ fun _ => some (65536 * id)

/-- Events leave the threads and the queue alone. -/
theorem run_events {knobs : Knobs} {log target : Log} {sites : List CallSiteID}
    (hrun : run (Log.step knobs) log (sites.map allocatesAt) = some target) :
    target.state.thread = log.state.thread ∧
      target.state.queue = log.state.queue ∧
      target.state.enabled = log.state.enabled := by
  induction sites generalizing log with
  | nil =>
      obtain rfl := Option.some.inj hrun
      exact ⟨rfl, rfl, rfl⟩
  | cons site sites ih =>
      rw [List.map_cons, run, Option.bind_eq_some_iff] at hrun
      obtain ⟨next, hnext, hrest⟩ := hrun
      rw [Log.step, Option.map_eq_some_iff] at hnext
      obtain ⟨state, hstate, rfl⟩ := hnext
      obtain ⟨hthread, hqueue, henabled⟩ := ih hrest
      rw [hthread, hqueue, henabled]
      simp only [allocatesAt, Deopt.step, State.event] at hstate
      split at hstate
      · split at hstate
        · obtain ⟨dispatch, -, rfl⟩ := Option.map_eq_some_iff.mp hstate
          exact ⟨rfl, rfl, rfl⟩
        · obtain rfl := Option.some.inj hstate
          exact ⟨rfl, rfl, rfl⟩
      · cases hstate

/-- Sites 7 and 8 specialize. -/
def twoSpecialize : List Action :=
  (List.replicate 12 7 ++ List.replicate 12 8).map allocatesAt

/-- While 256 threads run the routine of site 7 and one that of site 8, all
guards fail before the next drain. -/
theorem not_nothingLost_reachable :
    ∃ log, Reachable (Log.step sixEventKnobs) .initial log ∧
      ¬log.NothingLost := by
  have hspecialized : ((run (Log.step sixEventKnobs) .initial
      twoSpecialize).any fun log =>
        log.state.background.betweenDrains &&
          decide (log.state.analyzer.getPhase 8 = .compiled)) = true := by
    decide +kernel
  obtain ⟨log, hrun, hlog⟩ := (Option.any_eq_true _ _).mp hspecialized
  rw [Bool.and_eq_true, decide_eq_true_eq] at hlog
  obtain ⟨hthread, hqueue, henabled⟩ := run_events hrun
  have hreach := reachable_of_run .start hrun
  obtain ⟨crowded, hcrowded, hon, hthreads, hbackground, hanalyzer, hfull⟩ :=
    exists_crowded hreach henabled (fun tid => by rw [hthread]; rfl) hqueue
      ⟨7, 458752, .sizeDrift⟩ (Nat.le_refl deoptQueueCap)
  refine lost_of_full hcrowded hon hthreads ?_ ?_ ⟨8, 524288, .sizeDrift⟩ ?_ ?_
  · rw [hbackground]
    exact hlog.1
  · rw [hfull, List.length_replicate]
  · rw [hfull]
    intro queued hqueued
    rw [List.eq_of_mem_replicate hqueued]
    decide
  · rw [hanalyzer]
    exact hlog.2

/-- The routine of site 7 deoptimizes and the next drain answers. -/
def oneDeopt : List Action :=
  (List.replicate 12 7).map allocatesAt ++
    [.handle 1 ⟨7, 458752, .sizeDrift⟩, .enqueue 1, .drain, .pop, .reset, .pop,
      .scan, .visit]

/-- `Room`, decided. -/
def hasRoom (log : Log) : Action → Bool
  | .handle _ _ => log.state.enabled
  | .enqueue _ => decide (log.state.queue.length < deoptQueueCap)
  | .reset => decide (log.state.pending.length < maxPending)
  | _ => true

theorem room_of_hasRoom {log : Log} {action : Action}
    (hroom : hasRoom log action = true) : Room log action := by
  cases action with
  | handle tid deopt => exact hroom
  | enqueue tid =>
      rw [hasRoom, decide_eq_true_eq] at hroom
      exact hroom
  | reset =>
      rw [hasRoom, decide_eq_true_eq] at hroom
      exact hroom
  | _ => trivial

theorem nothingLost_oneDeopt :
    ∃ log, run (fun log action =>
        if hasRoom log action then log.step sixEventKnobs action else none)
        .initial oneDeopt = some log ∧
      log.state.background = .returned ∧ log.reverted 7 = true ∧
      log.state.reclaimed = [458752] ∧ log.NothingLost := by
  have hdrained : ((run (fun log action =>
      if hasRoom log action then log.step sixEventKnobs action else none)
      .initial oneDeopt).any fun log =>
        decide (log.state.background = .returned) && log.reverted 7 &&
          decide (log.state.reclaimed = [458752])) = true := by
    decide +kernel
  obtain ⟨log, hrun, hlog⟩ := (Option.any_eq_true _ _).mp hdrained
  simp only [Bool.and_eq_true, decide_eq_true_eq] at hlog
  exact ⟨log, hrun, hlog.1.1, hlog.1.2, hlog.2, nothingLost_reachable
    (reachableWhen_of_run (fun _ _ => room_of_hasRoom) .start hrun)⟩

end TbjitAlloc.Deopt
