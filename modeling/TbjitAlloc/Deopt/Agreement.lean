import TbjitAlloc.Analysis.Blacklist
import TbjitAlloc.Analysis.Coverage
import TbjitAlloc.Deopt.Machine

/-!
# The analyzer's phase and the dispatch table

A site leaves Compiled on two paths.  A guard that fails at run time reverts the
dispatch entry before it asks for the reset.  A drift test that fails in
`check_postspec` changes the phase and nothing else, so the routine stays in the
table until the site specializes again and its install writes over it.
-/

namespace TbjitAlloc.Deopt

open TbjitAlloc.Analysis
open TbjitAlloc.Codegen
open TbjitAlloc.Dispatch
open TbjitAlloc.Transition

/-- A call of `dispatch::install` with what it found: the routine that `lookup`
answers for its site, and the one in the slot it writes to. -/
structure Install where
  id : CallSiteID
  older : ℕ
  replaced : ℕ
  deriving DecidableEq

/-- The routine in the slot to which an install of the id writes. -/
def occupant (dispatch : Table) (id : CallSiteID) : ℕ :=
  match find dispatch.entries id with
  | none => 0
  | some slot => (dispatch.entries slot).fn

/-- The installs a step makes. -/
def State.installs (knobs : Knobs) (state : State) : Action → List Install
  | .event segSite ev compile =>
      match (state.analyzer.processEvent knobs compile segSite ev).2.compiled with
      | some (spec, some _) =>
          [⟨spec.id, lookup state.dispatch spec.id,
            occupant state.dispatch spec.id⟩]
      | _ => []
  | _ => []

/-- The deopt has begun and its reset is still to come. -/
def State.Waits (state : State) (deopt : DequeuedDeopt) : Prop :=
  (∃ tid, state.thread tid = .reverted deopt) ∨ deopt ∈ state.queue ∨
    state.background = .resetting deopt

/-- The machine with the installs made so far. -/
structure Books where
  state : State
  installs : List Install

namespace Books

def initial : Books := ⟨.initial, []⟩

def step (knobs : Knobs) (books : Books) (action : Action) : Option Books :=
  (Deopt.step knobs books.state action).map fun next =>
    ⟨next, books.installs ++ books.state.installs knobs action⟩

/-- Once no deopt waits, only a Compiled site has a routine; and no install has
found an older routine of its site or written over any other. -/
structure Agree (books : Books) : Prop where
  idle : (∀ deopt, ¬books.state.Waits deopt) →
    ∀ id, books.state.analyzer.getPhase id ≠ .compiled →
      lookup books.state.dispatch id = 0
  clean : ∀ install ∈ books.installs, install.older = 0 ∧ install.replaced = 0

end Books

/-- The allocation fills a window on which its site specializes. -/
def SpecializesOn (knobs : Knobs) (analyzer : Analyzer) (event : AllocEvent) :
    Prop :=
  let before := analyzer.summaryOf event.callSite
  let summary := (before.recordAlloc event).recordActive event.size
  event.size ≠ 0 ∧ event.size < maxSize ∧ before.phase ≠ .compiled ∧
    (summary.windows summary.active).full knobs.windowSize = true ∧
      Specializes knobs summary

/-- No drift test fails on a site with a routine.  No site specializes while a
deopt of it waits, nor in the slot of the routine of the id zero. -/
def Reverted (knobs : Knobs) (state : State) : Action → Prop
  | .event segSite ev compile =>
      (rejectsDrift knobs state.analyzer ev.callSite
          (.process segSite ev compile) = true →
        lookup state.dispatch ev.callSite = 0) ∧
      (SpecializesOn knobs state.analyzer ev →
        (∀ deopt, state.Waits deopt → deopt.id ≠ ev.callSite) ∧
          (ev.callSite ≠ 0 →
            find state.dispatch.entries ev.callSite =
              find state.dispatch.entries 0 →
            lookup state.dispatch 0 = 0))
  | _ => True

/-! ## The installs of an event -/

section Specializing

variable {knobs : Knobs} {compile : RoutineSpec → Option ℕ}
variable {spec : RoutineSpec} {page : Option ℕ}

/-- A summary that compiles was not Compiled, has filled a window on which it
specializes, and is Compiled then. -/
theorem specializes_of_processAlloc {summary : CallSiteSummary}
    {event : AllocEvent}
    (hcompiled : (summary.processAlloc knobs compile event).2.compiled =
      some (spec, page)) :
    let recorded := (summary.recordAlloc event).recordActive event.size
    summary.phase ≠ .compiled ∧
      (recorded.windows recorded.active).full knobs.windowSize = true ∧
      Specializes knobs recorded ∧ spec.id = summary.id ∧
      (summary.processAlloc knobs compile event).1.phase = .compiled := by
  intro recorded
  rw [CallSiteSummary.processAlloc, CallSiteSummary.recordSize] at hcompiled ⊢
  split at hcompiled
  · next hphase =>
      rw [if_pos hphase]
      dsimp only at hcompiled ⊢
      split at hcompiled
      · next hfull =>
          rw [if_pos hfull]
          have hspecializes := (spec_of_compiled hcompiled).1
          rw [advancePrespec_of_specializes hspecializes] at hcompiled ⊢
          obtain ⟨rfl, -⟩ := Prod.mk.inj (Option.some.inj hcompiled)
          refine ⟨?_, hfull, hspecializes, rfl, rfl⟩
          intro hbefore
          have hafter : (summary.recordAlloc event).phase = .compiled :=
            recordAlloc_compiled hbefore event
          rw [hafter] at hphase
          cases hphase
      · cases hcompiled
  · dsimp only at hcompiled
    split at hcompiled
    · rw [CallSiteSummary.checkPostspec] at hcompiled
      split at hcompiled
      · cases hcompiled
      · dsimp only at hcompiled
        split at hcompiled <;> cases hcompiled
    · cases hcompiled

theorem summaryOf_id (analyzer : Analyzer) (id : CallSiteID) :
    (analyzer.summaryOf id).id = id := by
  rw [Analyzer.summaryOf]
  cases hfind : analyzer.find id with
  | none => rfl
  | some summary => exact Analyzer.id_of_find hfind

/-- The same for an event: what is compiled is compiled for its site. -/
theorem specializesOn_of_processEvent {analyzer : Analyzer}
    {segSite : Option ℕ} {event : AllocEvent}
    (hcompiled : (analyzer.processEvent knobs compile segSite event).2.compiled =
      some (spec, page)) :
    SpecializesOn knobs analyzer event ∧ spec.id = event.callSite ∧
      ((analyzer.processEvent knobs compile segSite event).1.summaryOf
        event.callSite).phase = .compiled := by
  by_cases hsize : event.size = 0
  · rw [Analyzer.processEvent, if_pos hsize] at hcompiled
    cases hcompiled
  · by_cases htracked : event.size < maxSize
    · rcases analyzer.summaryOf_processEvent knobs compile segSite hsize
          htracked with ⟨-, -, hcalls⟩ | ⟨-, hnext, hcalls⟩
      · rw [hcalls] at hcompiled
        cases hcompiled
      · rw [hcalls] at hcompiled
        obtain ⟨hphase, hfull, hspecializes, hid, hafter⟩ :=
          specializes_of_processAlloc hcompiled
        exact ⟨⟨hsize, htracked, hphase, hfull, hspecializes⟩,
          hid.trans (summaryOf_id analyzer _), by rw [hnext, hafter]⟩
    · rw [Analyzer.processEvent, if_neg hsize, if_pos (Nat.le_of_not_lt htracked)]
        at hcompiled
      cases hcompiled

/-- After an event a site is Compiled as before, or it is the site of the event
and a drift test failed or a window was stable. -/
theorem not_compiled_before {analyzer : Analyzer} {segSite : Option ℕ}
    {event : AllocEvent} {id : CallSiteID}
    (hafter : (analyzer.processEvent knobs compile segSite event).1.getPhase id ≠
      .compiled) :
    analyzer.getPhase id ≠ .compiled ∨
      event.callSite = id ∧ rejectsDrift knobs analyzer id
        (.process segSite event compile) = true := by
  rw [Analyzer.getPhase_eq] at hafter ⊢
  obtain ⟨hsame, -⟩ | ⟨_, _, _, hop, hsite, hsize, htracked, hnext, -⟩ |
      ⟨_, _, hfreed, -⟩ | ⟨_, hop, -⟩ :=
    Tracked.site_cases knobs ⟨analyzer, fun _ => .empty⟩
      (.process segSite event compile) id
  · exact .inl (hsame ▸ hafter)
  · obtain ⟨rfl, rfl, rfl⟩ := StreamOp.process.inj hop
    subst hsite
    refine or_iff_not_imp_left.mpr fun hbefore => ⟨rfl, ?_⟩
    exact rejectsDrift_of_leaves hsize htracked (not_not.mp hbefore)
      fun h => hafter (hnext ▸ h)
  · exact .inl fun hbefore => hafter (hfreed ▸ hbefore)
  · cases hop

end Specializing

/-! ## The invariant -/

/-- Only Compiled sites have a routine, and none whose deopt waits. -/
structure Matched (state : State) : Prop where
  table : Represents state.dispatch (lookup state.dispatch)
  idle : ∀ id, state.analyzer.getPhase id ≠ .compiled →
    lookup state.dispatch id = 0
  waiting : ∀ deopt, state.Waits deopt → lookup state.dispatch deopt.id = 0

theorem matched_initial : Matched .initial where
  table := by
    have hnone : lookup State.initial.dispatch = fun _ => 0 :=
      funext represents_initial.lookup_eq
    rw [hnone]
    exact represents_initial
  idle := fun id _ => represents_initial.lookup_eq id
  waiting := fun deopt _ => represents_initial.lookup_eq deopt.id

section Steps

variable {knobs : Knobs} {state next : State}

/-- A step that leaves the table alone, takes no site out of Compiled and
begins no deopt. -/
theorem Matched.congr (hmatched : Matched state)
    (hdispatch : next.dispatch = state.dispatch)
    (hphase : ∀ id, next.analyzer.getPhase id ≠ .compiled →
      state.analyzer.getPhase id ≠ .compiled)
    (hwaits : ∀ deopt, next.Waits deopt → state.Waits deopt) :
    Matched next where
  table := by
    rw [hdispatch]
    exact hmatched.table
  idle := fun id hid => by
    rw [hdispatch]
    exact hmatched.idle id (hphase id hid)
  waiting := fun deopt hwait => by
    rw [hdispatch]
    exact hmatched.waiting deopt (hwaits deopt hwait)

/-- A thread that moves outside `handle`. -/
theorem Matched.goto (hmatched : Matched state) (tid : ℕ) {phase : ThreadPhase}
    (hphase : ∀ deopt, phase ≠ .reverted deopt) (threads : List ℕ)
    (threadEpoch : ℕ → ℕ) :
    Matched { state.goto tid phase with
      threads := threads
      threadEpoch := threadEpoch } := by
  refine hmatched.congr rfl (fun _ => id) fun deopt hwait => ?_
  refine hwait.imp_left fun ⟨other, hother⟩ => ⟨other, ?_⟩
  dsimp only [State.goto] at hother
  by_cases heq : other = tid
  · rw [heq, Function.update_self] at hother
    exact absurd hother (hphase deopt)
  · rwa [Function.update_of_ne heq] at hother

/-- The background thread goes on with no deopt in its hand. -/
theorem Matched.moveBackground (hmatched : Matched state)
    {background : Background} (hhand : ∀ deopt, background ≠ .resetting deopt)
    (pending : List PendingReclaim) (reclaimed : List ℕ) :
    Matched { state with
      background := background
      pending := pending
      reclaimed := reclaimed } := by
  refine hmatched.congr rfl (fun _ => id) fun deopt hwait => ?_
  rcases hwait with hthread | hqueue | hother
  · exact .inl hthread
  · exact .inr (.inl hqueue)
  · exact absurd hother (hhand deopt)

theorem Matched.enqueue (hmatched : Matched state) {tid : ℕ}
    {deopt : DequeuedDeopt} (htid : state.thread tid = .reverted deopt)
    {queue : List DequeuedDeopt}
    (hqueue : ∀ queued ∈ queue, queued ∈ state.queue ∨ queued = deopt) :
    Matched { state.goto tid .outside with queue := queue } := by
  refine hmatched.congr rfl (fun _ => id) fun queued hwait => ?_
  rcases hwait with ⟨other, hother⟩ | hmem | hhand
  · dsimp only [State.goto] at hother
    by_cases heq : other = tid
    · rw [heq, Function.update_self] at hother
      cases hother
    · rw [Function.update_of_ne heq] at hother
      exact .inl ⟨other, hother⟩
  · rcases hqueue queued hmem with hold | rfl
    · exact .inr (.inl hold)
    · exact .inl ⟨tid, htid⟩
  · exact .inr (.inr hhand)

theorem Matched.lookup_revert (hmatched : Matched state) (id : CallSiteID) :
    lookup (revert state.dispatch id) =
      Function.update (lookup state.dispatch) id 0 :=
  funext (hmatched.table.revert id).lookup_eq

/-- A site whose entry is reverted has no routine, the others keep theirs. -/
theorem Matched.handle (hmatched : Matched state) (tid : ℕ)
    (deopt : DequeuedDeopt) :
    Matched { state.goto tid (.reverted deopt) with
      dispatch := revert state.dispatch deopt.id } := by
  have hlookup := hmatched.lookup_revert deopt.id
  have hzero : ∀ id, id = deopt.id ∨ lookup state.dispatch id = 0 →
      lookup (revert state.dispatch deopt.id) id = 0 := by
    intro id hid
    rw [hlookup]
    by_cases heq : id = deopt.id
    · rw [heq, Function.update_self]
    · rw [Function.update_of_ne heq]
      exact hid.resolve_left heq
  constructor
  · dsimp only
    rw [hlookup]
    exact hmatched.table.revert deopt.id
  · exact fun id hid => hzero id (.inr (hmatched.idle id hid))
  · intro waiting hwait
    rcases hwait with ⟨other, hother⟩ | hrest
    · dsimp only [State.goto] at hother
      by_cases heq : other = tid
      · rw [heq, Function.update_self, ThreadPhase.reverted.injEq] at hother
        exact hzero _ (.inl (hother ▸ rfl))
      · rw [Function.update_of_ne heq] at hother
        exact hzero _ (.inr (hmatched.waiting waiting (.inl ⟨other, hother⟩)))
    · exact hzero _ (.inr (hmatched.waiting waiting (.inr hrest)))

/-- The reset of a deopt that waits. -/
theorem Matched.reset (hmatched : Matched state) {deopt : DequeuedDeopt}
    (hhand : state.background = .resetting deopt) (epoch : ℕ)
    (pending : List PendingReclaim) :
    Matched { state with
      analyzer := state.analyzer.resetCallSite knobs deopt.id deopt.reason
      epoch := epoch
      pending := pending
      background := .popping } where
  table := hmatched.table
  idle := by
    intro id hid
    by_cases heq : id = deopt.id
    · rw [heq]
      exact hmatched.waiting deopt (.inr (.inr hhand))
    · rw [Analyzer.getPhase, Analyzer.find_resetCallSite_of_ne heq,
        ← Analyzer.getPhase] at hid
      exact hmatched.idle id hid
  waiting := by
    intro waiting hwait
    rcases hwait with hthread | hqueue | hother
    · exact hmatched.waiting waiting (.inl hthread)
    · exact hmatched.waiting waiting (.inr (.inl hqueue))
    · cases hother

variable {segSite : Option ℕ} {ev : AllocEvent}
variable {compile : RoutineSpec → Option ℕ}

/-- A site that is not Compiled after an event has no routine before it. -/
theorem Matched.idle_after (hmatched : Matched state)
    (hreverted : Reverted knobs state (.event segSite ev compile))
    {id : CallSiteID}
    (hafter : (state.analyzer.processEvent knobs compile segSite ev).1.getPhase
      id ≠ .compiled) : lookup state.dispatch id = 0 := by
  rcases not_compiled_before hafter with hbefore | ⟨rfl, hrejects⟩
  · exact hmatched.idle id hbefore
  · exact hreverted.1 hrejects

/-- Processing an event installs a routine for its site, or for none. -/
theorem Matched.event (hmatched : Matched state)
    (hreverted : Reverted knobs state (.event segSite ev compile))
    (hevent : state.event knobs segSite ev compile = some next) :
    Matched next := by
  rw [State.event] at hevent
  split at hevent
  · dsimp only at hevent
    have hkept : ∀ (analyzer : Analyzer) (dispatch : Table) deopt,
        { state with
          analyzer := analyzer
          background := .working
          dispatch := dispatch : State }.Waits deopt → state.Waits deopt := by
      rintro analyzer dispatch deopt (hthread | hqueue | hhand)
      · exact .inl hthread
      · exact .inr (.inl hqueue)
      · cases hhand
    split at hevent
    · next spec page hcompiled =>
        obtain ⟨dispatch, hinstall, rfl⟩ := Option.map_eq_some_iff.mp hevent
        obtain ⟨hspecializes, hid, hphase⟩ :=
          specializesOn_of_processEvent hcompiled
        obtain ⟨hidle, hzero⟩ := hreverted.2 hspecializes
        rw [hid] at hinstall
        have htable := hmatched.table.install hinstall hzero
        have hlookup := funext htable.lookup_eq
        constructor
        · dsimp only
          rw [hlookup]
          exact htable
        · intro id hafter
          have hne : id ≠ ev.callSite := by
            rintro rfl
            rw [Analyzer.getPhase_eq] at hafter
            exact hafter hphase
          dsimp only
          rw [hlookup, Function.update_of_ne hne]
          exact hmatched.idle_after hreverted hafter
        · intro deopt hwait
          have hbefore := hkept _ _ deopt hwait
          dsimp only
          rw [hlookup, Function.update_of_ne (hidle deopt hbefore)]
          exact hmatched.waiting deopt hbefore
    · obtain rfl := Option.some.inj hevent
      exact ⟨hmatched.table, fun id => hmatched.idle_after hreverted,
        fun deopt hwait => hmatched.waiting deopt (hkept _ _ deopt hwait)⟩
  · cases hevent

/-- An install that a step makes finds its site without a routine and its slot
free. -/
theorem Matched.installs_clean (hmatched : Matched state) {action : Action}
    (hreverted : Reverted knobs state action) :
    ∀ install ∈ state.installs knobs action,
      install.older = 0 ∧ install.replaced = 0 := by
  intro install hinstall
  cases action with
  | event segSite ev compile =>
      rw [State.installs] at hinstall
      split at hinstall
      · next spec page hcompiled =>
          obtain rfl := List.mem_singleton.mp hinstall
          obtain ⟨hspecializes, hid, -⟩ :=
            specializesOn_of_processEvent hcompiled
          have hnone : lookup state.dispatch ev.callSite = 0 := by
            refine hmatched.idle _ ?_
            rw [Analyzer.getPhase_eq]
            exact hspecializes.2.2.1
          dsimp only
          rw [hid, occupant]
          refine ⟨hnone, ?_⟩
          cases hfind : find state.dispatch.entries ev.callSite with
          | none => rfl
          | some slot =>
              dsimp only
              obtain ⟨hslot, hown | ⟨hne, -, hunused⟩⟩ :=
                hmatched.table.find_cases hfind
              · rw [lookup, hfind] at hnone
                dsimp only at hnone
                rwa [if_neg (not_not_intro hown)] at hnone
              · rw [hmatched.table.unused slot hslot hunused]
                split
                · next hfirst =>
                    exact (hreverted.2 hspecializes).2 hne
                      (hfind.trans hfirst.symm)
                · rfl
      · cases hinstall
  | _ => cases hinstall

theorem Matched.step (hmatched : Matched state) {action : Action}
    (hreverted : Reverted knobs state action)
    (hstep : Deopt.step knobs state action = some next) : Matched next := by
  cases action with
  | register tid =>
      simp only [Deopt.step, State.register] at hstep
      split at hstep
      · obtain rfl := Option.some.inj hstep
        exact hmatched.congr rfl (fun _ => id) fun _ => id
      · cases hstep
  | loadEpoch tid =>
      simp only [Deopt.step, State.loadEpoch] at hstep
      split at hstep
      · obtain rfl := Option.some.inj hstep
        exact hmatched.goto tid (fun _ => ThreadPhase.noConfusion) _ _
      · cases hstep
  | storeEpoch tid =>
      simp only [Deopt.step, State.storeEpoch] at hstep
      split at hstep
      · obtain rfl := Option.some.inj hstep
        exact hmatched.goto tid (fun _ => ThreadPhase.noConfusion) _ _
      · cases hstep
  | handle tid deopt =>
      simp only [Deopt.step, State.handle] at hstep
      split at hstep
      · obtain rfl := Option.some.inj hstep
        split
        · exact hmatched.handle tid deopt
        · exact hmatched
      · cases hstep
  | enqueue tid =>
      simp only [Deopt.step, State.enqueue] at hstep
      split at hstep
      · next deopt htid =>
          obtain rfl := Option.some.inj hstep
          refine hmatched.enqueue htid fun queued hqueued => ?_
          split at hqueued
          · exact (List.mem_append.mp hqueued).imp_right List.mem_singleton.mp
          · exact .inl hqueued
      · cases hstep
  | setEnabled on =>
      obtain rfl := Option.some.inj hstep
      exact hmatched.congr rfl (fun _ => id) fun _ => id
  | event segSite ev compile => exact hmatched.event hreverted hstep
  | drain =>
      simp only [Deopt.step, State.drain] at hstep
      split at hstep
      · obtain rfl := Option.some.inj hstep
        exact hmatched.moveBackground (fun _ => Background.noConfusion) _ _
      · cases hstep
  | pop =>
      simp only [Deopt.step, State.pop] at hstep
      split at hstep
      · split at hstep
        · next hqueue =>
            obtain rfl := Option.some.inj hstep
            refine hmatched.moveBackground (fun deopt => ?_) _ _
            split <;> exact Background.noConfusion
        · next deopt rest hqueue =>
            obtain rfl := Option.some.inj hstep
            refine hmatched.congr rfl (fun _ => id) fun queued hwait => ?_
            rw [State.Waits, hqueue]
            rcases hwait with hthread | hmem | hhand
            · exact .inl hthread
            · exact .inr (.inl (List.mem_cons_of_mem _ hmem))
            · obtain rfl := Background.resetting.inj hhand
              exact .inr (.inl List.mem_cons_self)
      · cases hstep
  | reset =>
      simp only [Deopt.step, State.reset] at hstep
      split at hstep
      · next deopt hhand =>
          obtain rfl := Option.some.inj hstep
          exact hmatched.reset hhand _ _
      · cases hstep
  | scan =>
      simp only [Deopt.step, State.scan] at hstep
      split at hstep
      · obtain rfl := Option.some.inj hstep
        exact hmatched.moveBackground (fun _ => Background.noConfusion) _ _
      · cases hstep
  | visit =>
      simp only [Deopt.step, State.visit] at hstep
      split at hstep
      · obtain rfl := Option.some.inj hstep
        exact hmatched.moveBackground (fun _ => Background.noConfusion) _ _
      · obtain rfl := Option.some.inj hstep
        exact hmatched.moveBackground (fun _ => Background.noConfusion) _ _
      · cases hstep

end Steps

/-! ## Every run -/

structure Books.Ok (books : Books) : Prop where
  matched : Matched books.state
  clean : ∀ install ∈ books.installs, install.older = 0 ∧ install.replaced = 0

theorem booksOk_initial : Books.Ok .initial :=
  ⟨matched_initial, fun _ h => absurd h List.not_mem_nil⟩

theorem Books.Ok.step {knobs : Knobs} {books next : Books} {action : Action}
    (hok : books.Ok) (hreverted : Reverted knobs books.state action)
    (hstep : books.step knobs action = some next) : next.Ok := by
  obtain ⟨state, hstate, rfl⟩ := Option.map_eq_some_iff.mp hstep
  refine ⟨hok.matched.step hreverted hstate, fun install hinstall => ?_⟩
  rcases List.mem_append.mp hinstall with hold | hnew
  · exact hok.clean install hold
  · exact hok.matched.installs_clean hreverted install hnew

/-- In a run in which a site is drift rejected only without a routine and
specializes only with no deopt of it on the way, phase and table agree. -/
theorem phasesAgree_reachable {knobs : Knobs} {books : Books}
    (hreach : ReachableWhen (Books.step knobs)
      (fun books action => Reverted knobs books.state action) .initial books) :
    books.Agree := by
  have hinitial : Books.initial.Ok := booksOk_initial
  have hok := hreach.invariant hinitial fun _ _ _ hok hreverted hstep =>
    hok.step hreverted hstep
  exact ⟨fun _ => hok.matched.idle, hok.clean⟩

/-! ## A site that drifts -/

/-- Site 7 allocates a size; what is compiled for it is put at a page. -/
def allocatesSize (page size : ℕ) : Action :=
  .event none ⟨7, size, 1, 16⟩ fun _ => some page

/-- Between drains an empty queue and idle threads stay as they are. -/
structure Calm (state : State) : Prop where
  threads : ∀ tid, state.thread tid = .outside
  queue : state.queue = []
  background : state.background.betweenDrains = true

theorem Calm.not_waits {state : State} (hcalm : Calm state)
    (deopt : DequeuedDeopt) : ¬state.Waits deopt := by
  rintro (⟨tid, hthread⟩ | hqueue | hhand)
  · rw [hcalm.threads tid] at hthread
    cases hthread
  · rw [hcalm.queue] at hqueue
    cases hqueue
  · have hbetween := hcalm.background
    rw [hhand] at hbetween
    cases hbetween

theorem Calm.event {state next : State} {knobs : Knobs} {segSite : Option ℕ}
    {ev : AllocEvent} {compile : RoutineSpec → Option ℕ} (hcalm : Calm state)
    (hevent : state.event knobs segSite ev compile = some next) :
    Calm next := by
  rw [State.event, if_pos hcalm.background] at hevent
  dsimp only at hevent
  split at hevent
  · obtain ⟨dispatch, -, rfl⟩ := Option.map_eq_some_iff.mp hevent
    exact ⟨hcalm.threads, hcalm.queue, rfl⟩
  · obtain rfl := Option.some.inj hevent
    exact ⟨hcalm.threads, hcalm.queue, rfl⟩

/-- An allocation after which no drifted site keeps a routine, and the id zero
has none to lose. -/
def keepsRoutines (knobs : Knobs) (state : State) (page size : ℕ) : Bool :=
  let ev : AllocEvent := ⟨7, size, 1, 16⟩
  (!rejectsDrift knobs state.analyzer 7
      (.process none ev fun _ => some page) ||
    lookup state.dispatch 7 = 0) && lookup state.dispatch 0 = 0

theorem Calm.reverted {state : State} {knobs : Knobs} {page size : ℕ}
    (hcalm : Calm state)
    (hkeeps : keepsRoutines knobs state page size = true) :
    Reverted knobs state (allocatesSize page size) := by
  rw [keepsRoutines, Bool.and_eq_true, Bool.or_eq_true, Bool.not_eq_true',
    decide_eq_true_eq, decide_eq_true_eq] at hkeeps
  refine ⟨fun hrejects => ?_, fun _ =>
    ⟨fun deopt hwaits => absurd hwaits (hcalm.not_waits deopt),
      fun _ _ => hkeeps.2⟩⟩
  refine hkeeps.1.resolve_left fun hstable => ?_
  rw [hstable] at hrejects
  cases hrejects

section Allocating

variable {knobs : Knobs} {books target : Books} {page : ℕ} {sizes : List ℕ}

theorem Calm.run (hcalm : Calm books.state)
    (hrun : run (Books.step knobs) books (sizes.map (allocatesSize page)) =
      some target) : Calm target.state := by
  induction sizes generalizing books with
  | nil => exact Option.some.inj hrun ▸ hcalm
  | cons size sizes ih =>
      rw [List.map_cons, Transition.run, Option.bind_eq_some_iff] at hrun
      obtain ⟨next, hnext, hrest⟩ := hrun
      obtain ⟨state, hstate, rfl⟩ := Option.map_eq_some_iff.mp hnext
      have hafter : Calm state := hcalm.event hstate
      exact ih hafter hrest

/-- An allocation that must keep the routines. -/
def allocateKept (knobs : Knobs) (page : ℕ) (books : Books) (size : ℕ) :
    Option Books :=
  if keepsRoutines knobs books.state page size then
    books.step knobs (allocatesSize page size)
  else none

theorem reachableWhen_allocateKept (hcalm : Calm books.state)
    (hreach : ReachableWhen (Books.step knobs)
      (fun books action => Reverted knobs books.state action) .initial books)
    (hrun : run (allocateKept knobs page) books sizes = some target) :
    ReachableWhen (Books.step knobs)
      (fun books action => Reverted knobs books.state action) .initial
      target := by
  induction sizes generalizing books with
  | nil => exact Option.some.inj hrun ▸ hreach
  | cons size sizes ih =>
      rw [Transition.run, Option.bind_eq_some_iff] at hrun
      obtain ⟨next, hnext, hrest⟩ := hrun
      rw [allocateKept] at hnext
      split at hnext
      · next hkeeps =>
          have hlater := hreach.act _ (hcalm.reverted hkeeps) hnext
          obtain ⟨state, hstate, rfl⟩ := Option.map_eq_some_iff.mp hnext
          have hafter : Calm state := hcalm.event hstate
          exact ih hafter hlater hrest
      · cases hnext

end Allocating

/-- The step is not an event. -/
def Action.handles : Action → Bool
  | .event _ _ _ => false
  | _ => true

theorem reverted_of_handles {knobs : Knobs} {state : State} {action : Action}
    (hhandles : action.handles = true) : Reverted knobs state action := by
  cases action with
  | event segSite ev compile => cases hhandles
  | _ => trivial

/-- The guard of the routine fails and the next drain resets the site. -/
def guardFails : List Action :=
  [.handle 1 ⟨7, 4096, .sizeDrift⟩, .enqueue 1, .drain, .pop, .reset, .pop,
    .scan, .visit]

/-- The runtime deopt keeps phase and table in agreement. -/
theorem agree_guardFails :
    ∃ books : Books, books.installs = [⟨7, 0, 0⟩] ∧
      books.state.background = .returned ∧
      books.state.analyzer.getPhase 7 = .deopt ∧
      books.state.reclaimed = [4096] ∧ books.Agree := by
  have hreset : ((run (allocateKept sixEventKnobs 4096) .initial
      (List.replicate 12 16)).bind fun books =>
        run (fun books action => if action.handles then
          Books.step sixEventKnobs books action else none) books
          guardFails).any (fun books =>
        decide (books.installs = [⟨7, 0, 0⟩] ∧
          books.state.background = .returned ∧
          books.state.analyzer.getPhase 7 = .deopt ∧
          books.state.reclaimed = [4096])) = true := by
    decide +kernel
  obtain ⟨books, hbooks, hfacts⟩ := (Option.any_eq_true _ _).mp hreset
  obtain ⟨compiled, hcompiled, hrun⟩ := Option.bind_eq_some_iff.mp hbooks
  obtain ⟨hinstalls, hreturned, hphase, hreclaimed⟩ := of_decide_eq_true hfacts
  have hcalm : Calm Books.initial.state := ⟨fun _ => rfl, rfl, rfl⟩
  exact ⟨books, hinstalls, hreturned, hphase, hreclaimed, phasesAgree_reachable
    (reachableWhen_of_run (fun _ _ => reverted_of_handles)
      (reachableWhen_allocateKept hcalm .start hcompiled) hrun)⟩

/-- Site 7 specializes for one size and then allocates another.  The drift test
takes it out of Compiled and leaves its routine installed, and the next install
writes over that. -/
theorem not_agree_drifted :
    ∃ drifted, Reachable (Books.step sixEventKnobs) .initial drifted ∧
      (∀ deopt, ¬drifted.state.Waits deopt) ∧
      drifted.state.analyzer.getPhase 7 = .deopt ∧
      lookup drifted.state.dispatch 7 = 4096 ∧ ¬drifted.Agree ∧
      ∃ later, Reachable (Books.step sixEventKnobs) .initial later ∧
        later.installs = [⟨7, 0, 0⟩, ⟨7, 4096, 4096⟩] ∧ ¬later.Agree := by
  have hdrifts : ((run (Books.step sixEventKnobs) .initial
      ((List.replicate 12 16 ++ List.replicate 6 32).map
        (allocatesSize 4096))).any fun books =>
      decide (books.state.analyzer.getPhase 7 = .deopt ∧
        lookup books.state.dispatch 7 = 4096) &&
      (run (Books.step sixEventKnobs) books
        ((List.replicate 12 32).map (allocatesSize 8192))).any fun later =>
          decide (later.installs = [⟨7, 0, 0⟩, ⟨7, 4096, 4096⟩])) = true := by
    decide +kernel
  obtain ⟨drifted, hrun, hfacts⟩ := (Option.any_eq_true _ _).mp hdrifts
  rw [Bool.and_eq_true, Option.any_eq_true] at hfacts
  obtain ⟨hdrifted, later, hlater, hinstalls⟩ := hfacts
  obtain ⟨hphase, hroutine⟩ := of_decide_eq_true hdrifted
  have hinstalls := of_decide_eq_true hinstalls
  have hcalm : Calm Books.initial.state := ⟨fun _ => rfl, rfl, rfl⟩
  have hwaits := (hcalm.run hrun).not_waits
  have hreach := reachable_of_run .start hrun
  refine ⟨drifted, hreach, hwaits, hphase, hroutine, fun hagree => ?_, later,
    reachable_of_run hreach hlater, hinstalls, fun hagree => ?_⟩
  · have hnone := hagree.idle hwaits 7 (by rw [hphase]; exact Phase.noConfusion)
    rw [hroutine] at hnone
    cases hnone
  · have hclean := hagree.clean ⟨7, 4096, 4096⟩ (by rw [hinstalls]; simp)
    cases hclean.1

end TbjitAlloc.Deopt
