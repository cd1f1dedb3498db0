import TbjitAlloc.Core.Transition
import TbjitAlloc.Analysis.Picker

/-!
# Runs of the analyzer

The analyzer processes the events of every site in one stream, with calls of
`reset_call_site` at any place in it.  Two histories are kept beside its state
for each site: the sizes it processed outside the Compiled phase since it was
last (re)started, and the sizes it processed inside that phase since it last
entered it.
-/

namespace TbjitAlloc.Analysis

open TbjitAlloc.Codegen

/-- A site that has no slot yet stands as a fresh one. -/
def Analyzer.summaryOf (analyzer : Analyzer) (id : ℕ) : CallSiteSummary :=
  (analyzer.find id).getD (.fresh id)

theorem Analyzer.getPhase_eq (analyzer : Analyzer) (id : ℕ) :
    analyzer.getPhase id = (analyzer.summaryOf id).phase := by
  rw [getPhase, summaryOf]
  cases analyzer.find id <;> rfl

section Summaries

variable {analyzer : Analyzer} {id : ℕ} {event : AllocEvent}

theorem Analyzer.summaryOf_of_find {summary : CallSiteSummary}
    (hfind : analyzer.find id = some summary) :
    analyzer.summaryOf id = summary := by
  rw [summaryOf, hfind, Option.getD_some]

/-- Making sure of a slot changes no summary. -/
theorem Analyzer.summaryOf_ensure {summary : CallSiteSummary}
    (hslot : (analyzer.ensure id).find id = some summary) :
    analyzer.summaryOf id = summary := by
  rcases find_ensure_self analyzer id with
    hsame | ⟨hnone, hfresh⟩
  · exact summaryOf_of_find (hsame ▸ hslot)
  · rw [summaryOf, hnone, Option.getD_none]
    exact Option.some.inj (hfresh.symm.trans hslot)

theorem Analyzer.summaryOf_processFree (analyzer : Analyzer)
    (segSite : Option ℕ) (event : AllocEvent) (id : ℕ) :
    (analyzer.processFree segSite event).summaryOf id = analyzer.summaryOf id ∨
      ∃ managed, (analyzer.processFree segSite event).summaryOf id =
        (analyzer.summaryOf id).recordFree managed event := by
  simp only [summaryOf]
  rcases find_processFree analyzer segSite event id with
    hsame | ⟨managed, hfreed⟩ | ⟨hnone, managed, hfreed⟩
  · exact .inl (by rw [hsame])
  · rw [hfreed]
    cases analyzer.find id with
    | none => exact .inl rfl
    | some summary => exact .inr ⟨managed, rfl⟩
  · exact .inr ⟨managed, by rw [hfreed, hnone]; rfl⟩

/-- An allocation event is dropped for want of a slot, or rewrites the summary
of its site. -/
theorem Analyzer.summaryOf_processEvent (analyzer : Analyzer) (knobs : Knobs)
    (compile : RoutineSpec → Option ℕ) (segSite : Option ℕ)
    (hsize : event.size ≠ 0) (htracked : event.size < maxSize) :
    let next := analyzer.processEvent knobs compile segSite event
    ((next.1.find event.callSite).isSome = false ∧
      next.1.summaryOf event.callSite = analyzer.summaryOf event.callSite ∧
      next.2 = { }) ∨
    ((next.1.find event.callSite).isSome = true ∧
      next.1.summaryOf event.callSite =
        ((analyzer.summaryOf event.callSite).processAlloc knobs compile
          event).1 ∧
      next.2 = ((analyzer.summaryOf event.callSite).processAlloc knobs compile
        event).2) := by
  have hself := find_processEvent_self knobs compile analyzer segSite hsize
    htracked
  have hcalls : (analyzer.processEvent knobs compile segSite event).2 =
      ((analyzer.ensure event.callSite).find event.callSite).elim { }
        fun summary => (summary.processAlloc knobs compile event).2 := by
    rw [processEvent, if_neg hsize, if_neg (by omega)]
    dsimp only
    cases (analyzer.ensure event.callSite).find event.callSite <;> rfl
  cases hslot : (analyzer.ensure event.callSite).find event.callSite with
  | none =>
      rw [hslot, Option.map_none] at hself
      rw [hslot] at hcalls
      have hnone : analyzer.find event.callSite = none := by
        rcases find_ensure_self analyzer event.callSite with
          hsame | ⟨hnone, -⟩
        · rw [← hsame, hslot]
        · exact hnone
      refine .inl ⟨by rw [hself]; rfl, ?_, hcalls⟩
      rw [summaryOf, summaryOf, hself, hnone]
  | some summary =>
      rw [hslot, Option.map_some] at hself
      rw [hslot] at hcalls
      rw [summaryOf_ensure hslot]
      exact .inr ⟨by rw [hself]; rfl, summaryOf_of_find hself, hcalls⟩

theorem Analyzer.summaryOf_processEvent_of_ne (knobs : Knobs)
    (compile : RoutineSpec → Option ℕ) (segSite : Option ℕ)
    (hsize : event.size ≠ 0) (hne : id ≠ event.callSite) :
    (analyzer.processEvent knobs compile segSite event).1.summaryOf id =
      analyzer.summaryOf id := by
  rw [summaryOf, summaryOf, find_processEvent_of_ne hsize hne]

end Summaries

/-! ## Histories -/

structure SiteHistory where
  outside : List ℕ
  inside : List ℕ

namespace SiteHistory

def empty : SiteHistory := ⟨[], []⟩

/-- An allocation seen by a site whose phase was `before` and is `after`. -/
def observe (history : SiteHistory) (before after : Phase) (size : ℕ) :
    SiteHistory :=
  if before = .compiled then
    { outside := if after = .compiled then history.outside else []
      inside := history.inside ++ [size] }
  else
    { outside := history.outside ++ [size]
      inside := if after = .compiled then [] else history.inside }

def restart (history : SiteHistory) : SiteHistory :=
  { history with outside := [] }

end SiteHistory

/-- The analyzer with the histories of its sites. -/
structure Tracked where
  analyzer : Analyzer
  history : ℕ → SiteHistory

def Tracked.initial : Tracked := ⟨.empty, fun _ => .empty⟩

/-- One call of `process_event` or `reset_call_site`.  Where the freed pointer
belongs and what `compile` answers is left open. -/
inductive StreamOp
  | process (segSite : Option ℕ) (event : AllocEvent)
      (compile : RoutineSpec → Option ℕ)
  | reset (id : ℕ) (reason : DeoptReason)

namespace Tracked

variable (knobs : Knobs)

/-- The analyzer's own part of a step. -/
def apply (analyzer : Analyzer) : StreamOp → Analyzer × Calls
  | .process segSite event compile =>
      analyzer.processEvent knobs compile segSite event
  | .reset id reason => (analyzer.resetCallSite knobs id reason, { })

/-- The history after a step from `before` to `after`; an event whose site
found the table full is not processed. -/
def follow (before after : Analyzer) (history : ℕ → SiteHistory) :
    StreamOp → ℕ → SiteHistory
  | .process _ event _ =>
      if event.size ≠ 0 ∧ event.size < maxSize ∧
          (after.find event.callSite).isSome then
        Function.update history event.callSite
          ((history event.callSite).observe (before.getPhase event.callSite)
            (after.getPhase event.callSite) event.size)
      else history
  | .reset id _ =>
      if (before.find id).isSome then
        Function.update history id (history id).restart
      else history

def after (state : Tracked) (op : StreamOp) : Tracked :=
  let next := (apply knobs state.analyzer op).1
  ⟨next, follow state.analyzer next state.history op⟩

/-- Every call returns. -/
def step (state : Tracked) (op : StreamOp) : Option Tracked :=
  some (after knobs state op)

/-- A list of calls. -/
def afterAll (state : Tracked) (ops : List StreamOp) : Tracked :=
  ops.foldl (after knobs) state

variable {knobs}

theorem reachable_afterAll {initial state : Tracked}
    (hreach : Transition.Reachable (step knobs) initial state)
    (ops : List StreamOp) :
    Transition.Reachable (step knobs) initial (afterAll knobs state ops) := by
  induction ops generalizing state with
  | nil => exact hreach
  | cons op ops ih =>
      rw [afterAll, List.foldl_cons]
      exact ih (hreach.next rfl)

section Cases

/-- What one step can do to one site: nothing, process one of its allocations,
count one of its frees, or reset it. -/
theorem site_cases (knobs : Knobs) (state : Tracked) (op : StreamOp) (id : ℕ) :
    let next := after knobs state op
    (next.analyzer.summaryOf id = state.analyzer.summaryOf id ∧
      next.history id = state.history id) ∨
    (∃ segSite event compile, op = .process segSite event compile ∧
      event.callSite = id ∧ event.size ≠ 0 ∧ event.size < maxSize ∧
      next.analyzer.summaryOf id =
        ((state.analyzer.summaryOf id).processAlloc knobs compile event).1 ∧
      next.history id = (state.history id).observe
        (state.analyzer.summaryOf id).phase
        (next.analyzer.summaryOf id).phase event.size) ∨
    (∃ managed event, next.analyzer.summaryOf id =
        (state.analyzer.summaryOf id).recordFree managed event ∧
      next.history id = state.history id) ∨
    (∃ reason, op = .reset id reason ∧
      next.analyzer.summaryOf id =
        (state.analyzer.summaryOf id).reset knobs reason ∧
      next.history id = (state.history id).restart) := by
  cases op with
  | process segSite event compile =>
      dsimp only [after, apply, follow]
      by_cases hfree : event.size = 0
      · rw [if_neg fun hobserved => hobserved.1 hfree,
          Analyzer.processEvent, if_pos hfree]
        rcases state.analyzer.summaryOf_processFree segSite event id with
          hsame | ⟨managed, hfreed⟩
        · exact .inl ⟨hsame, rfl⟩
        · exact .inr (.inr (.inl ⟨managed, event, hfreed, rfl⟩))
      · by_cases hid : id = event.callSite
        · subst hid
          by_cases htracked : event.size < maxSize
          · rcases state.analyzer.summaryOf_processEvent knobs
              compile segSite hfree htracked with
              ⟨hnone, hsame, -⟩ | ⟨hslot, hnext, -⟩
            · rw [if_neg fun hobserved => by
                rw [hnone] at hobserved
                exact absurd hobserved.2.2 Bool.false_ne_true]
              exact .inl ⟨hsame, rfl⟩
            · rw [if_pos ⟨hfree, htracked, hslot⟩, Function.update_self,
                Analyzer.getPhase_eq, Analyzer.getPhase_eq]
              exact .inr (.inl ⟨segSite, event, compile, rfl, rfl, hfree,
                htracked, hnext, rfl⟩)
          · rw [if_neg fun hobserved => htracked hobserved.2.1,
              Analyzer.processEvent, if_neg hfree, if_pos (by omega)]
            exact .inl ⟨rfl, rfl⟩
        · refine .inl ⟨Analyzer.summaryOf_processEvent_of_ne knobs compile
            segSite hfree hid, ?_⟩
          split
          · rw [Function.update_of_ne hid]
          · rfl
  | reset other reason =>
      dsimp only [after, apply, follow]
      simp only [Analyzer.summaryOf]
      by_cases hid : id = other
      · subst hid
        rw [Analyzer.find_resetCallSite_self]
        cases hfind : state.analyzer.find id with
        | none => exact .inl ⟨rfl, rfl⟩
        | some summary =>
            refine .inr (.inr (.inr ⟨reason, rfl, rfl, ?_⟩))
            rw [if_pos (by rfl), Function.update_self]
      · refine .inl ⟨by rw [Analyzer.find_resetCallSite_of_ne hid], ?_⟩
        split
        · rw [Function.update_of_ne hid]
        · rfl

/-- The calls an event makes are those its site's allocation makes; an event
that is not processed makes none. -/
theorem calls_cases (state : Tracked) (segSite : Option ℕ)
    (event : AllocEvent) (compile : RoutineSpec → Option ℕ) :
    let op := StreamOp.process segSite event compile
    (apply knobs state.analyzer op).2 = { } ∨
      (apply knobs state.analyzer op).2 =
          ((state.analyzer.summaryOf event.callSite).processAlloc knobs compile
            event).2 ∧
        (after knobs state op).history event.callSite =
          (state.history event.callSite).observe
            (state.analyzer.summaryOf event.callSite).phase
            ((after knobs state op).analyzer.summaryOf event.callSite).phase
            event.size := by
  dsimp only [after, apply, follow]
  by_cases hsize : event.size = 0
  · left
    rw [Analyzer.processEvent, if_pos hsize]
  · by_cases htracked : event.size < maxSize
    · rcases state.analyzer.summaryOf_processEvent knobs compile segSite hsize
          htracked with ⟨-, -, hcalls⟩ | ⟨hslot, -, hcalls⟩
      · exact .inl hcalls
      · refine .inr ⟨hcalls, ?_⟩
        rw [if_pos ⟨hsize, htracked, hslot⟩, Function.update_self,
          Analyzer.getPhase_eq, Analyzer.getPhase_eq]
    · left
      rw [Analyzer.processEvent, if_neg hsize, if_pos (by omega)]

end Cases

end Tracked

end TbjitAlloc.Analysis
