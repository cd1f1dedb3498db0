import TbjitAlloc.Analysis.PostWindow

/-!
# The blacklist and recompilation

A site that keeps deoptimizing is blacklisted and stays generic.  Only
`reset_call_site` counts a deopt.  `check_postspec` takes a site out of Compiled
without counting it, so a specialization is paid for either by a counted deopt
or by a drift test that failed.
-/

namespace TbjitAlloc.Analysis

open CallSiteSummary (sameBooks_processAlloc)
open TbjitAlloc.Codegen
open TbjitAlloc.Transition

/-- The step completes the drift window of a specialized site, and the window
fails the test against the baseline. -/
def rejectsDrift (knobs : Knobs) (analyzer : Analyzer) (id : ℕ) :
    StreamOp → Bool
  | .process _ event _ =>
      let summary := analyzer.summaryOf id
      let window := summary.postWindow.record event.size
      event.callSite = id && event.size ≠ 0 && event.size < maxSize &&
        summary.phase = .compiled && window.full knobs.windowSize &&
        !knobs.ksStable window.hist summary.baseline
  | .reset _ _ => false

instance (before after : Analyzer) (id : ℕ) :
    Decidable (EntersCompiled before after id) :=
  inferInstanceAs (Decidable (_ ∧ _))

/-- The analyzer with two counts for each site: how often it entered Compiled,
and how often its drift test failed. -/
structure Metered where
  tracked : Tracked
  entries : ℕ → ℕ
  rejections : ℕ → ℕ

namespace Metered

def initial : Metered := ⟨.initial, fun _ => 0, fun _ => 0⟩

def after (knobs : Knobs) (state : Metered) (op : StreamOp) : Metered :=
  let next := state.tracked.after knobs op
  { tracked := next
    entries := fun id =>
      if EntersCompiled state.tracked.analyzer next.analyzer id then
        state.entries id + 1
      else state.entries id
    rejections := fun id =>
      if rejectsDrift knobs state.tracked.analyzer id op then
        state.rejections id + 1
      else state.rejections id }

/-- Every call returns. -/
def step (knobs : Knobs) (state : Metered) (op : StreamOp) : Option Metered :=
  some (after knobs state op)

def afterAll (knobs : Knobs) (state : Metered) (ops : List StreamOp) :
    Metered :=
  ops.foldl (after knobs) state

end Metered

/-! ## One site -/

section Site

variable {knobs : Knobs} {compile : RoutineSpec → Option ℕ}
variable {summary : CallSiteSummary} {entries rejections : ℕ}

/-- Each specialization but the current one was ended by a counted deopt or by a
failed drift test, and a blacklisted site is not specialized. -/
structure CompilesPaid (knobs : Knobs) (summary : CallSiteSummary)
    (entries rejections : ℕ) : Prop where
  counting : summary.blacklisted = false →
    summary.deoptCount < knobs.deoptBlacklistLimit ∧
      entries ≤ summary.deoptCount + rejections +
        if summary.phase = .compiled then 1 else 0
  barred : summary.blacklisted = true →
    summary.phase ≠ .compiled ∧
      entries ≤ knobs.deoptBlacklistLimit + rejections

theorem compilesPaid_fresh (hlimit : 0 < knobs.deoptBlacklistLimit) (id : ℕ) :
    CompilesPaid knobs (.fresh id) 0 0 where
  counting := fun _ => ⟨hlimit, Nat.zero_le _⟩
  barred := fun hblack => by cases hblack

theorem CompilesPaid.entries_le (hpaid : CompilesPaid knobs summary entries
    rejections) : entries ≤ knobs.deoptBlacklistLimit + rejections := by
  cases hblack : summary.blacklisted with
  | true => exact (hpaid.barred hblack).2
  | false =>
      obtain ⟨hcount, hentries⟩ := hpaid.counting hblack
      split at hentries <;> omega

/-- A step that keeps the phase and the deopt bookkeeping. -/
theorem CompilesPaid.keep (hpaid : CompilesPaid knobs summary entries
    rejections) {kept : CallSiteSummary} (hphase : kept.phase = summary.phase)
    (hblack : kept.blacklisted = summary.blacklisted)
    (hcount : kept.deoptCount = summary.deoptCount) :
    CompilesPaid knobs kept entries rejections where
  counting := fun h => by
    rw [hcount, hphase]
    exact hpaid.counting (hblack.symm.trans h)
  barred := fun h => by
    rw [hphase]
    exact hpaid.barred (hblack.symm.trans h)

theorem CompilesPaid.mono (hpaid : CompilesPaid knobs summary entries
    rejections) {more : ℕ} (hmore : rejections ≤ more) :
    CompilesPaid knobs summary entries more where
  counting := fun h => by
    obtain ⟨hcount, hentries⟩ := hpaid.counting h
    exact ⟨hcount, by omega⟩
  barred := fun h => by
    obtain ⟨hphase, hentries⟩ := hpaid.barred h
    exact ⟨hphase, by omega⟩

/-- The runtime deopt counts, and blacklists the site at the limit. -/
theorem CompilesPaid.reset (hwidth : knobs.deoptBlacklistLimit < 2 ^ 32)
    (hpaid : CompilesPaid knobs summary entries rejections)
    (reason : DeoptReason) :
    CompilesPaid knobs (summary.reset knobs reason) entries rejections where
  counting := fun hblack => by
    simp only [CallSiteSummary.reset, Bool.or_eq_false_iff,
      decide_eq_false_iff_not] at hblack
    obtain ⟨hroom, hblack⟩ := hblack
    obtain ⟨hcount, hentries⟩ := hpaid.counting hblack
    have hdeopts : (summary.reset knobs reason).deoptCount =
        summary.deoptCount + 1 := Nat.mod_eq_of_lt (by omega)
    have hentries : entries ≤ summary.deoptCount + 1 + rejections := by
      split at hentries <;> omega
    rw [hdeopts]
    exact ⟨by omega, Nat.le_add_right_of_le hentries⟩
  barred := fun _ => ⟨Phase.noConfusion, hpaid.entries_le⟩

/-- A specialized site stays so unless the event completes a window that fails
the drift test. -/
theorem processAlloc_phase_of_compiled (hphase : summary.phase = .compiled)
    (event : AllocEvent)
    (hstable : (summary.postWindow.record event.size).full knobs.windowSize →
      knobs.ksStable (summary.postWindow.record event.size).hist
        summary.baseline) :
    (summary.processAlloc knobs compile event).1.phase = .compiled := by
  have hcompiled := recordAlloc_compiled hphase event
  rw [processAlloc_of_compiled hphase]
  split
  · next hfull =>
      have htest := hstable (decide_eq_true hfull)
      rw [CallSiteSummary.checkPostspec]
      split
      · exact hcompiled
      · dsimp only
        rw [if_pos (by exact htest)]
        exact hcompiled
  · exact hcompiled

/-- An allocation enters Compiled while a deopt is still left to count, or
leaves Compiled on a failed test, or keeps what the invariant speaks of. -/
theorem CompilesPaid.processAlloc
    (hpaid : CompilesPaid knobs summary entries rejections)
    (event : AllocEvent) {more : ℕ} (hle : rejections ≤ more)
    (hmore : summary.phase = .compiled →
      (summary.processAlloc knobs compile event).1.phase ≠ .compiled →
      rejections + 1 ≤ more) :
    CompilesPaid knobs (summary.processAlloc knobs compile event).1
      (if summary.phase ≠ .compiled ∧
          (summary.processAlloc knobs compile event).1.phase = .compiled then
        entries + 1 else entries) more := by
  have hblack : (summary.processAlloc knobs compile event).1.blacklisted =
      summary.blacklisted := processAlloc_blacklisted event
  have hcount : (summary.processAlloc knobs compile event).1.deoptCount =
      summary.deoptCount :=
    (sameBooks_processAlloc knobs compile summary event).deoptCount
  have heligible : summary.phase ≠ .compiled →
      (summary.processAlloc knobs compile event).1.phase = .compiled →
      Eligible knobs summary := fun hphase =>
    (processAlloc_postWindow knobs compile hphase event).2
  generalize (summary.processAlloc knobs compile event).1 = next at *
  by_cases hbefore : summary.phase = .compiled
  · rw [if_neg fun henters => henters.1 hbefore]
    by_cases hafter : next.phase = .compiled
    · exact (hpaid.keep (hafter.trans hbefore.symm) hblack hcount).mono hle
    · refine ⟨fun h => ?_, fun h => ?_⟩
      · obtain ⟨hroom, hentries⟩ := hpaid.counting (hblack.symm.trans h)
        rw [if_pos hbefore] at hentries
        rw [hcount, if_neg hafter]
        exact ⟨hroom, by have := hmore hbefore hafter; omega⟩
      · exact absurd hbefore (hpaid.barred (hblack.symm.trans h)).1
  · by_cases hafter : next.phase = .compiled
    · rw [if_pos ⟨hbefore, hafter⟩]
      have hopen := (heligible hbefore hafter).1
      refine ⟨fun _ => ?_, fun h => ?_⟩
      · obtain ⟨hroom, hentries⟩ := hpaid.counting hopen
        rw [if_neg hbefore] at hentries
        rw [hcount, if_pos hafter]
        exact ⟨hroom, by omega⟩
      · rw [hblack, hopen] at h
        cases h
    · rw [if_neg fun henters => hafter henters.2]
      refine ⟨fun h => ?_, fun h => ?_⟩
      · obtain ⟨hroom, hentries⟩ := hpaid.counting (hblack.symm.trans h)
        rw [if_neg hbefore] at hentries
        rw [hcount, if_neg hafter]
        exact ⟨hroom, by omega⟩
      · obtain ⟨-, hentries⟩ := hpaid.barred (hblack.symm.trans h)
        exact ⟨hafter, by omega⟩

end Site

/-! ## Runs -/

section Runs

variable {knobs : Knobs} {state next : Metered} {op : StreamOp} {id : ℕ}

def PaidAt (knobs : Knobs) (id : ℕ) (state : Metered) : Prop :=
  CompilesPaid knobs (state.tracked.analyzer.summaryOf id) (state.entries id)
    (state.rejections id)

/-- Only a failed drift test takes an allocating site out of Compiled. -/
theorem rejectsDrift_of_leaves {analyzer : Analyzer} {segSite : Option ℕ}
    {event : AllocEvent} {compile : RoutineSpec → Option ℕ}
    (hsize : event.size ≠ 0) (htracked : event.size < maxSize)
    (hbefore : (analyzer.summaryOf event.callSite).phase = .compiled)
    (hafter : ((analyzer.summaryOf event.callSite).processAlloc knobs compile
      event).1.phase ≠ .compiled) :
    rejectsDrift knobs analyzer event.callSite
      (.process segSite event compile) = true := by
  by_contra hkept
  refine hafter (processAlloc_phase_of_compiled hbefore event fun hfull => ?_)
  by_contra hreject
  rw [Bool.not_eq_true] at hreject
  exact hkept (by
    simp [rejectsDrift, hsize, htracked, hbefore, hfull, hreject])

theorem paidAt_step (hwidth : knobs.deoptBlacklistLimit < 2 ^ 32)
    (hpaid : PaidAt knobs id state)
    (hstep : Metered.step knobs state op = some next) :
    PaidAt knobs id next := by
  obtain rfl := Option.some.inj hstep
  have hle : state.rejections id ≤ (state.after knobs op).rejections id := by
    change _ ≤ if _ then _ else _
    split
    · exact Nat.le_succ _
    · exact Nat.le_refl _
  have hentries : (state.after knobs op).entries id =
      if (state.tracked.analyzer.summaryOf id).phase ≠ .compiled ∧
          ((state.tracked.after knobs op).analyzer.summaryOf id).phase =
            .compiled then
        state.entries id + 1 else state.entries id := by
    simp only [Metered.after, EntersCompiled, Analyzer.getPhase_eq]
  rw [PaidAt, hentries]
  change CompilesPaid knobs
    ((state.tracked.after knobs op).analyzer.summaryOf id) _ _
  obtain ⟨hsame, -⟩ |
      ⟨segSite, event, compile, rfl, rfl, hsize, htracked, hnext, -⟩ |
      ⟨managed, event, hfreed, -⟩ | ⟨reason, -, hreset, -⟩ :=
    Tracked.site_cases knobs state.tracked op id
  · rw [hsame, if_neg fun henters => henters.1 henters.2]
    exact hpaid.mono hle
  · rw [hnext]
    refine CompilesPaid.processAlloc hpaid event hle fun hbefore hafter => ?_
    change _ ≤ if _ then _ else _
    rw [if_pos (rejectsDrift_of_leaves hsize htracked hbefore hafter)]
  · rw [hfreed, if_neg fun henters => henters.1 henters.2]
    have hkept : CompilesPaid knobs
        ((state.tracked.analyzer.summaryOf id).recordFree managed event)
        (state.entries id) (state.rejections id) := hpaid.keep rfl rfl rfl
    exact hkept.mono hle
  · rw [hreset, if_neg fun henters => Phase.noConfusion henters.2]
    exact (CompilesPaid.reset hwidth hpaid reason).mono hle

theorem paidAt_reachable (hlimit : 0 < knobs.deoptBlacklistLimit)
    (hwidth : knobs.deoptBlacklistLimit < 2 ^ 32)
    (hreach : Reachable (Metered.step knobs) .initial state) (id : ℕ) :
    PaidAt knobs id state := by
  have hinitial : PaidAt knobs id .initial := compilesPaid_fresh hlimit id
  exact hreach.invariant hinitial fun _ _ _ hpaid hstep =>
    paidAt_step hwidth hpaid hstep

def NoRejections (id : ℕ) (state : Metered) : Prop := state.rejections id = 0

/-- Without failed drift tests nothing is counted as one. -/
theorem noRejections_of_stable
    (hreach : ReachableWhen (Metered.step knobs)
      (fun state op => rejectsDrift knobs state.tracked.analyzer id op = false)
      .initial state) : NoRejections id state := by
  have hinitial : NoRejections id .initial := rfl
  refine hreach.invariant hinitial fun state op next hzero hstable hstep => ?_
  obtain rfl := Option.some.inj hstep
  change (if _ then _ else _) = _
  rw [if_neg (by rw [hstable]; exact Bool.false_ne_true)]
  exact hzero

/-- No drift test of the site fails in a list of calls. -/
def stableAlong (knobs : Knobs) (id : ℕ) : Metered → List StreamOp → Bool
  | _, [] => true
  | state, op :: ops =>
      !rejectsDrift knobs state.tracked.analyzer id op &&
        stableAlong knobs id (state.after knobs op) ops

theorem reachableWhen_afterAll {ops : List StreamOp}
    (hreach : ReachableWhen (Metered.step knobs)
      (fun state op => rejectsDrift knobs state.tracked.analyzer id op = false)
      .initial state) (hstable : stableAlong knobs id state ops = true) :
    ReachableWhen (Metered.step knobs)
      (fun state op => rejectsDrift knobs state.tracked.analyzer id op = false)
      .initial (state.afterAll knobs ops) := by
  induction ops generalizing state with
  | nil => exact hreach
  | cons op ops ih =>
      rw [stableAlong, Bool.and_eq_true, Bool.not_eq_true'] at hstable
      exact ih (.next hreach hstable.1 rfl) hstable.2

theorem reachable_afterAll (ops : List StreamOp)
    (hreach : Reachable (Metered.step knobs) .initial state) :
    Reachable (Metered.step knobs) .initial (state.afterAll knobs ops) := by
  induction ops generalizing state with
  | nil => exact hreach
  | cons op ops ih => exact ih (hreach.next rfl)

/-- A blacklisted site stays blacklisted. -/
theorem blacklisted_after (state : Tracked) (op : StreamOp)
    (hblack : (state.analyzer.summaryOf id).blacklisted = true) :
    ((state.after knobs op).analyzer.summaryOf id).blacklisted = true := by
  obtain ⟨hsame, -⟩ | ⟨_, event, compile, -, -, -, -, hnext, -⟩ |
      ⟨_, _, hfreed, -⟩ | ⟨reason, -, hreset, -⟩ :=
    Tracked.site_cases knobs state op id
  · rw [hsame, hblack]
  · rw [hnext, processAlloc_blacklisted, hblack]
  · rw [hfreed]
    exact hblack
  · rw [hreset, CallSiteSummary.reset]
    simp only [hblack, Bool.or_true]

theorem blacklisted_afterAll (ops : List StreamOp) (state : Tracked)
    (hblack : (state.analyzer.summaryOf id).blacklisted = true) :
    ((state.afterAll knobs ops).analyzer.summaryOf id).blacklisted = true := by
  induction ops generalizing state with
  | nil => exact hblack
  | cons op ops ih => exact ih _ (blacklisted_after state op hblack)

/-- The analyzer's part of a metered run is a run. -/
theorem tracked_reachable
    (hreach : Reachable (Metered.step knobs) .initial state) :
    Reachable (Tracked.step knobs) .initial state.tracked := by
  induction hreach with
  | start => exact .start
  | next _ _ hstep ih =>
      obtain rfl := Option.some.inj hstep
      exact ih.next rfl

/-- The blacklist bounds recompilation of a site: it has entered Compiled at
most as often as the limit says, and once blacklisted it is never Compiled,
whatever follows. -/
structure RecompilationBounded (knobs : Knobs) (state : Metered) (id : ℕ) :
    Prop where
  entries_le : state.entries id ≤ knobs.deoptBlacklistLimit
  barred : (state.tracked.analyzer.summaryOf id).blacklisted = true →
    ∀ ops, (state.tracked.afterAll knobs ops).analyzer.getPhase id ≠ .compiled

theorem not_compiled_of_blacklisted
    (hreach : Reachable (Metered.step knobs) .initial state)
    (hblack : (state.tracked.analyzer.summaryOf id).blacklisted = true)
    (ops : List StreamOp) :
    (state.tracked.afterAll knobs ops).analyzer.getPhase id ≠ .compiled := by
  rw [Analyzer.getPhase_eq]
  intro hphase
  have hafter := Tracked.reachable_afterAll (tracked_reachable hreach) ops
  have hopen := ((sitesOk_reachable hafter id).compiled hphase).eligible.1
  rw [blacklisted_afterAll ops _ hblack] at hopen
  cases hopen

/-- In every run, each specialization over the limit is paid for by a failed
drift test. -/
theorem entries_le_limit_add (hlimit : 0 < knobs.deoptBlacklistLimit)
    (hwidth : knobs.deoptBlacklistLimit < 2 ^ 32)
    (hreach : Reachable (Metered.step knobs) .initial state) (id : ℕ) :
    state.entries id ≤ knobs.deoptBlacklistLimit + state.rejections id :=
  (paidAt_reachable hlimit hwidth hreach id).entries_le

/-- In a run in which no drift test of the site fails, the site enters Compiled
at most as often as the limit says, and not at all once it is blacklisted. -/
theorem recompilationBounded_of_stable
    (hlimit : 0 < knobs.deoptBlacklistLimit)
    (hwidth : knobs.deoptBlacklistLimit < 2 ^ 32)
    (hreach : ReachableWhen (Metered.step knobs)
      (fun state op => rejectsDrift knobs state.tracked.analyzer id op = false)
      .initial state) : RecompilationBounded knobs state id where
  entries_le := by
    have hle := entries_le_limit_add hlimit hwidth hreach.reachable id
    rwa [noRejections_of_stable hreach] at hle
  barred := fun hblack => not_compiled_of_blacklisted hreach.reachable hblack

end Runs

/-! ## Alternating between two sizes -/

/-- Specialize, end the specialization by a runtime deopt, and do so twice
more. -/
def threeDeopts : List StreamOp :=
  (List.replicate 3 ((List.replicate 12 16).map allocates ++
    [.reset 7 .regionExhaust])).flatten

/-- Three specializations fit the limit of three, and the third deopt bars a
fourth. -/
theorem recompilationBounded_threeDeopts :
    (Metered.initial.afterAll sixEventKnobs threeDeopts).entries 7 = 3 ∧
      ((Metered.initial.afterAll sixEventKnobs
        threeDeopts).tracked.analyzer.summaryOf 7).blacklisted = true ∧
      RecompilationBounded sixEventKnobs
        (Metered.initial.afterAll sixEventKnobs threeDeopts) 7 :=
  ⟨by decide +kernel, by decide +kernel,
    recompilationBounded_of_stable (by decide) (by decide)
      (reachableWhen_afterAll .start (by decide +kernel))⟩

/-- Specialize for one size and allocate a window of the other, again and
again. -/
def alternating : List StreamOp :=
  ((List.replicate 12 16 ++ List.replicate 18 32 ++ List.replicate 18 16 ++
    List.replicate 18 32).map allocates)

/-- Four specializations under a limit of three: the drift test ended three of
them, and no deopt is counted. -/
theorem alternating_recompiles :
    Reachable (Metered.step sixEventKnobs) .initial
        (Metered.initial.afterAll sixEventKnobs alternating) ∧
      (Metered.initial.afterAll sixEventKnobs alternating).entries 7 = 4 ∧
      ((Metered.initial.afterAll sixEventKnobs
        alternating).tracked.analyzer.summaryOf 7).deoptCount = 0 ∧
      ¬RecompilationBounded sixEventKnobs
        (Metered.initial.afterAll sixEventKnobs alternating) 7 := by
  have hentries : (Metered.initial.afterAll sixEventKnobs
      alternating).entries 7 = 4 := by decide +kernel
  refine ⟨reachable_afterAll _ .start, hentries, by decide +kernel,
    fun hbounded => ?_⟩
  have hle := hbounded.entries_le
  rw [hentries] at hle
  exact absurd hle (by decide)

end TbjitAlloc.Analysis
