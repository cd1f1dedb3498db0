import TbjitAlloc.Analysis.Specialization

/-!
# The window checked for drift

Once a site is specialized its sizes go to a third window, which is compared
with the baseline each time it fills.  `check_postspec` clears that window and
`reset_call_site` does not, so a site deoptimized at run time in the middle of a
window carries the part already filled into its next specialization.
-/

namespace TbjitAlloc.Analysis

open TbjitAlloc.Blocks
open TbjitAlloc.Codegen
open TbjitAlloc.Transition

/-- The last `count` of a list of sizes. -/
def mostRecent (count : ℕ) (sizes : List ℕ) : List ℕ :=
  sizes.drop (sizes.length - count)

section Property

variable (knobs : Knobs) (state : Tracked) (op : StreamOp) (id : ℕ)

/-- The step runs the drift test of the site on these histograms. -/
def TestsDrift (window baseline : ExactHistogram) : Prop :=
  ∃ segSite event compile, op = .process segSite event compile ∧
    event.callSite = id ∧
    (Tracked.apply knobs state.analyzer op).2.postspecTest =
      some (window, baseline)

/-- Drift is judged on events of the current specialization only: the window is
empty when a site enters Compiled, the test is given the site's baseline and the
most recent sizes since then, and only a test on these takes an allocating site
out of Compiled. -/
structure DriftJudged : Prop where
  entersEmpty : EntersCompiled state.analyzer
      (Tracked.after knobs state op).analyzer id →
    ((Tracked.after knobs state op).analyzer.summaryOf id).postWindow = .empty
  test : ∀ window baseline, TestsDrift knobs state op id window baseline →
    let inside := ((Tracked.after knobs state op).history id).inside
    knobs.windowSize ≤ inside.length ∧
      window = .ofSizes (mostRecent knobs.windowSize inside) ∧
      baseline = (state.analyzer.summaryOf id).baseline
  drift : ∀ segSite event compile, op = .process segSite event compile →
    state.analyzer.getPhase id = .compiled →
    (Tracked.after knobs state op).analyzer.getPhase id ≠ .compiled →
    let inside := ((Tracked.after knobs state op).history id).inside
    knobs.windowSize ≤ inside.length ∧
      knobs.ksStable (.ofSizes (mostRecent knobs.windowSize inside))
        (state.analyzer.summaryOf id).baseline = false

/-- A runtime deopt finds the window empty, or its site will not specialize
again: it is or becomes blacklisted, or no site specializes. -/
def CleanReset (knobs : Knobs) (state : Tracked) (op : StreamOp) : Prop :=
  ∀ id reason, op = .reset id reason →
    let summary := state.analyzer.summaryOf id
    summary.postWindow.count = 0 ∨
      knobs.deoptBlacklistLimit ≤ (summary.deoptCount + 1) % 2 ^ 32 ∨
      Excluded knobs state.analyzer id

end Property

section Invariant

variable {knobs : Knobs} {compile : RoutineSpec → Option ℕ}
variable {summary : CallSiteSummary} {history : SiteHistory}

/-- The window of a Compiled site holds the sizes since the last check; that of
any other site that may specialize is empty. -/
structure PostOk (knobs : Knobs) (summary : CallSiteSummary)
    (history : SiteHistory) : Prop where
  compiled : summary.phase = .compiled →
    summary.postWindow =
      .ofSizes (blockTail knobs.windowSize history.inside)
  outside : summary.phase ≠ .compiled → Eligible knobs summary →
    summary.postWindow = .empty

theorem advancePrespec_postWindow (summary : CallSiteSummary) :
    (summary.advancePrespec knobs compile).1.postWindow =
      summary.postWindow := by
  rw [CallSiteSummary.advancePrespec]
  split
  · dsimp only
    split
    · split <;> rfl
    · rfl
  · rfl

theorem checkPostspec_postWindow (summary : CallSiteSummary) :
    (summary.checkPostspec knobs).1.postWindow = .empty := by
  rw [(checkPostspec_eq summary).1]
  split <;> rfl

/-- Outside the Compiled phase an allocation leaves the window alone. -/
theorem processAlloc_postWindow (knobs : Knobs)
    (compile : RoutineSpec → Option ℕ) (hphase : summary.phase ≠ .compiled)
    (event : AllocEvent) :
    (summary.processAlloc knobs compile event).1.postWindow =
        summary.postWindow ∧
      ((summary.processAlloc knobs compile event).1.phase = .compiled →
        Eligible knobs summary) := by
  have hpreSpec := recordAlloc_phase hphase event
  rw [processAlloc_of_outside hphase]
  split
  · refine ⟨advancePrespec_postWindow _, fun hcompiled => ?_⟩
    obtain ⟨-, ⟨heligible, -⟩ | ⟨-, next, hrotated, -⟩⟩ :=
      advancePrespec_cases knobs compile
        ((summary.recordAlloc event).recordActive event.size)
    · exact heligible
    · rw [hrotated] at hcompiled
      exact absurd (hpreSpec.symm.trans hcompiled) Phase.noConfusion
  · refine ⟨rfl, fun hcompiled => ?_⟩
    exact absurd (hpreSpec.symm.trans hcompiled) Phase.noConfusion

/-- In the Compiled phase an allocation goes to the window, which is checked
when it is full. -/
theorem processAlloc_of_compiled (hphase : summary.phase = .compiled)
    (event : AllocEvent) :
    summary.processAlloc knobs compile event =
      if knobs.windowSize ≤ summary.postWindow.count + 1 then
        ((summary.recordAlloc event).recordPost event.size).checkPostspec knobs
      else ((summary.recordAlloc event).recordPost event.size, { }) := by
  have hcompiled := recordAlloc_compiled hphase event
  have hpreSpec : (summary.recordAlloc event).phase ≠ .preSpec := by
    rw [hcompiled]
    exact Phase.noConfusion
  rw [CallSiteSummary.processAlloc, CallSiteSummary.recordSize,
    if_neg hpreSpec]
  simp only [SizeWindow.full, decide_eq_true_eq]
  rfl

theorem blockTail_length_lt (knobs : Knobs) (sizes : List ℕ) :
    (blockTail knobs.windowSize sizes).length < knobs.windowSize := by
  rw [blockTail_length]
  exact Nat.mod_lt _ knobs.windowSize_pos

/-- The sizes of a full window are the most recent ones. -/
theorem mostRecent_of_full {sizes : List ℕ} (size : ℕ)
    (hfull : (blockTail knobs.windowSize sizes).length + 1 = knobs.windowSize) :
    knobs.windowSize ≤ (sizes ++ [size]).length ∧
      mostRecent knobs.windowSize (sizes ++ [size]) =
        blockTail knobs.windowSize sizes ++ [size] := by
  have hlength := Nat.div_add_mod' sizes.length knobs.windowSize
  rw [blockTail_length] at hfull
  have hstart : sizes.length + 1 - knobs.windowSize =
      sizes.length / knobs.windowSize * knobs.windowSize := by omega
  rw [mostRecent, List.length_append, List.length_singleton, hstart,
    List.drop_append_of_le_length (Nat.div_mul_le_self _ _)]
  exact ⟨by omega, rfl⟩

theorem PostOk.processAlloc (hok : PostOk knobs summary history)
    (event : AllocEvent) :
    PostOk knobs (summary.processAlloc knobs compile event).1
      (history.observe summary.phase
        (summary.processAlloc knobs compile event).1.phase event.size) := by
  have hblack : Eligible knobs
      (summary.processAlloc knobs compile event).1 → Eligible knobs summary :=
    fun h => ⟨(processAlloc_blacklisted event).symm.trans h.1, h.2⟩
  rw [SiteHistory.observe]
  by_cases hphase : summary.phase = .compiled
  · rw [if_pos hphase]
    rw [processAlloc_of_compiled hphase, hok.compiled hphase,
      SizeWindow.ofSizes_count]
    have htail := blockTail_length_lt knobs history.inside
    split
    · refine ⟨fun _ => ?_, fun _ _ => checkPostspec_postWindow _⟩
      rw [checkPostspec_postWindow, blockTail_append_of_full event.size
        (by omega), SizeWindow.ofSizes_nil]
    · refine ⟨fun _ => ?_, fun hnot _ => ?_⟩
      · change summary.postWindow.record event.size = _
        rw [hok.compiled hphase, SizeWindow.record_ofSizes,
          blockTail_append_of_room event.size (by omega)]
      · exact absurd (recordAlloc_compiled hphase event) hnot
  · obtain ⟨hkept, henters⟩ := processAlloc_postWindow knobs compile
      hphase event
    rw [if_neg hphase]
    refine ⟨fun hcompiled => ?_, fun hnot heligible => ?_⟩
    · rw [hkept, hok.outside hphase (henters hcompiled), if_pos hcompiled,
        blockTail_nil, SizeWindow.ofSizes_nil]
    · rw [hkept, hok.outside hphase (hblack heligible)]

theorem PostOk.recordFree (hok : PostOk knobs summary history) (managed : Bool)
    (event : AllocEvent) :
    PostOk knobs (summary.recordFree managed event) history :=
  ⟨hok.compiled, hok.outside⟩

/-- Where no site specializes the window stays empty for good. -/
theorem PostOk.reset (hok : PostOk knobs summary history) (reason : DeoptReason)
    (hclean : summary.postWindow.count = 0 ∨
      knobs.deoptBlacklistLimit ≤ (summary.deoptCount + 1) % 2 ^ 32 ∨
      summary.blacklisted = true ∨ knobs.traceOnly = true) :
    PostOk knobs (summary.reset knobs reason) history.restart := by
  refine ⟨fun h => Phase.noConfusion h, fun _ heligible => ?_⟩
  change summary.postWindow = .empty
  have hblack : (decide (knobs.deoptBlacklistLimit ≤
      (summary.deoptCount + 1) % 2 ^ 32) || summary.blacklisted) = false :=
    heligible.1
  rw [Bool.or_eq_false_iff, decide_eq_false_iff_not] at hblack
  have hcount : summary.postWindow.count = 0 := by
    rcases hclean with hempty | hlimit | hlisted | htrace
    · exact hempty
    · exact absurd hlimit hblack.1
    · exact absurd hlisted (by simp [hblack.2])
    · exact absurd htrace (by simp [heligible.2])
  by_cases hphase : summary.phase = .compiled
  · rw [hok.compiled hphase, SizeWindow.ofSizes_count] at hcount
    rw [hok.compiled hphase, List.length_eq_zero_iff.mp hcount,
      SizeWindow.ofSizes_nil]
  · exact hok.outside hphase ⟨hblack.2, heligible.2⟩

end Invariant

/-! ## Every run -/

section Runs

variable {knobs : Knobs} {state next : Tracked} {op : StreamOp}

def PostsOk (knobs : Knobs) (state : Tracked) : Prop :=
  ∀ id, PostOk knobs (state.analyzer.summaryOf id) (state.history id)

theorem postsOk_step (hok : PostsOk knobs state)
    (hclean : CleanReset knobs state op)
    (hstep : Tracked.step knobs state op = some next) :
    PostsOk knobs next := by
  intro id
  obtain rfl := Option.some.inj hstep
  obtain ⟨hsame, hhistory⟩ |
      ⟨_, event, compile, -, -, -, -, hnext, hhistory⟩ |
      ⟨managed, event, hfreed, hhistory⟩ | ⟨reason, hop, hreset, hhistory⟩ :=
    Tracked.site_cases knobs state op id
  · rw [hsame, hhistory]
    exact hok id
  · rw [hhistory, hnext]
    exact (hok id).processAlloc event
  · rw [hfreed, hhistory]
    exact (hok id).recordFree managed event
  · rw [hreset, hhistory]
    exact (hok id).reset reason (hclean id reason hop)

theorem postsOk_reachable
    (hreach : ReachableWhen (Tracked.step knobs) (CleanReset knobs) .initial
      state) : PostsOk knobs state := by
  have hinitial : PostsOk knobs .initial :=
    fun id => ⟨fun h => Phase.noConfusion h, fun _ _ => rfl⟩
  exact hreach.invariant hinitial fun _ _ _ hok hclean hstep =>
    postsOk_step hok hclean hstep

/-- The drift test of an allocation: the site is Compiled, the window is filled
by the event, and the site stays Compiled exactly if the test passes. -/
theorem processAlloc_postspec {compile : RoutineSpec → Option ℕ}
    {summary : CallSiteSummary} {history : SiteHistory}
    (hok : PostOk knobs summary history) (hphase : summary.phase = .compiled)
    (event : AllocEvent) :
    let next := summary.processAlloc knobs compile event
    let recent := ExactHistogram.ofSizes
      (mostRecent knobs.windowSize (history.inside ++ [event.size]))
    (next.1.phase = .compiled ∧ next.2.postspecTest = none) ∨
      knobs.windowSize ≤ (history.inside ++ [event.size]).length ∧
        next.2.postspecTest = some (recent, summary.baseline) ∧
        (next.1.phase ≠ .compiled →
          knobs.ksStable recent summary.baseline = false) := by
  intro next recent
  have htail := blockTail_length_lt knobs history.inside
  have hcompiled := recordAlloc_compiled hphase event
  simp only [next]
  rw [processAlloc_of_compiled hphase, hok.compiled hphase,
    SizeWindow.ofSizes_count]
  split
  · have hrecent := mostRecent_of_full event.size
      (show (blockTail knobs.windowSize history.inside).length + 1 =
        knobs.windowSize by omega)
    have hwindow : ((summary.recordAlloc event).recordPost
        event.size).postWindow.hist = recent := by
      change (summary.postWindow.record event.size).hist = recent
      rw [hok.compiled hphase, SizeWindow.record_ofSizes,
        SizeWindow.ofSizes_hist, ← hrecent.2]
    rw [CallSiteSummary.checkPostspec, hwindow]
    split
    · exact .inl ⟨hcompiled, rfl⟩
    · dsimp only
      split
      · exact .inr ⟨hrecent.1, rfl, fun hnot => absurd hcompiled hnot⟩
      · next hfails =>
          rw [Bool.not_eq_true] at hfails
          exact .inr ⟨hrecent.1, rfl, fun _ => hfails⟩
  · exact .inl ⟨hcompiled, rfl⟩

theorem processAlloc_postspec_outside {compile : RoutineSpec → Option ℕ}
    {summary : CallSiteSummary} (hphase : summary.phase ≠ .compiled)
    (event : AllocEvent) :
    (summary.processAlloc knobs compile event).2.postspecTest = none := by
  rw [processAlloc_of_outside hphase]
  split
  · rw [CallSiteSummary.advancePrespec]
    split
    · dsimp only
      split
      · split <;> rfl
      · rfl
    · rfl
  · rfl

/-- In every run whose runtime deopts are clean, every step judges drift on
events of the current specialization. -/
theorem driftJudged_of_cleanReset
    (hreach : ReachableWhen (Tracked.step knobs) (CleanReset knobs) .initial
      state) (op : StreamOp) (id : ℕ) : DriftJudged knobs state op id := by
  have hposts := postsOk_reachable hreach
  refine ⟨fun henters => ?_, ?_, ?_⟩
  · obtain ⟨hbefore, hafter⟩ := henters
    rw [Analyzer.getPhase_eq] at hbefore hafter
    obtain ⟨hsame, -⟩ | ⟨_, event, compile, -, -, -, -, hnext, -⟩ |
        ⟨_, _, hfreed, -⟩ | ⟨_, -, hreset, -⟩ :=
      Tracked.site_cases knobs state op id
    · rw [hsame] at hafter
      exact absurd hafter hbefore
    · rw [hnext] at hafter ⊢
      obtain ⟨hkept, heligible⟩ :=
        processAlloc_postWindow knobs compile hbefore event
      rw [hkept]
      exact (hposts id).outside hbefore (heligible hafter)
    · rw [hfreed] at hafter
      exact absurd hafter hbefore
    · rw [hreset] at hafter
      exact Phase.noConfusion hafter
  · rintro window baseline ⟨segSite, event, compile, rfl, rfl, htest⟩
    rcases Tracked.calls_cases state segSite event compile with
      hnone | ⟨hcalls, hhistory⟩
    · rw [hnone] at htest
      cases htest
    · rw [hcalls] at htest
      by_cases hphase :
          (state.analyzer.summaryOf event.callSite).phase = .compiled
      · rw [hhistory, SiteHistory.observe, if_pos hphase]
        rcases processAlloc_postspec (hposts event.callSite) hphase event with
          ⟨-, hnone⟩ | ⟨hlength, hsome, -⟩
        · rw [hnone] at htest
          cases htest
        · rw [hsome] at htest
          obtain ⟨rfl, rfl⟩ := Prod.mk.inj (Option.some.inj htest)
          exact ⟨hlength, rfl, rfl⟩
      · rw [processAlloc_postspec_outside hphase] at htest
        cases htest
  · rintro segSite event compile rfl hbefore hafter
    rw [Analyzer.getPhase_eq] at hbefore hafter
    obtain ⟨hsame, -⟩ | ⟨_, event, compile, -, -, -, -, hnext, hhistory⟩ |
        ⟨_, _, hfreed, -⟩ | ⟨_, hop, -, -⟩ :=
      Tracked.site_cases knobs state (.process segSite event compile) id
    · rw [hsame] at hafter
      exact absurd hbefore hafter
    · rw [hhistory, SiteHistory.observe, if_pos hbefore]
      rw [hnext] at hafter
      rcases processAlloc_postspec (hposts id) hbefore event with
        ⟨hstays, -⟩ | ⟨hlength, -, hfails⟩
      · exact absurd hstays hafter
      · exact ⟨hlength, hfails hafter⟩
    · rw [hfreed] at hafter
      exact absurd hbefore hafter
    · cases hop

theorem cleanReset_process (segSite : Option ℕ) (event : AllocEvent)
    (compile : RoutineSpec → Option ℕ) :
    CleanReset knobs state (.process segSite event compile) :=
  fun _ _ hop => by cases hop

theorem cleanReset_of_empty {id : ℕ}
    (hempty : (state.analyzer.summaryOf id).postWindow.count = 0)
    (reason : DeoptReason) : CleanReset knobs state (.reset id reason) := by
  intro other _ hop
  obtain ⟨rfl, -⟩ := StreamOp.reset.inj hop
  exact .inl hempty

end Runs

/-! ## Runs with windows of six events -/

/-- Windows of six events, one stable pair, and the source's test at 5%. -/
def sixEventKnobs : Knobs where
  windowSize := 6
  stableWindows := 1
  deoptBlacklistLimit := 3
  ksStable := ksStable (5 / 100)
  forced := .generic
  oracleMode := false
  traceOnly := false
  windowSize_pos := by decide
  stableWindows_pos := Nat.one_pos

/-- Site 7 allocates, and compiling for it always succeeds. -/
def allocates (size : ℕ) : StreamOp :=
  .process none ⟨7, size, 1, 4096⟩ fun _ => some 65536

theorem cleanly_allocates {knobs : Knobs} {state : Tracked}
    (hreach : ReachableWhen (Tracked.step knobs) (CleanReset knobs) .initial
      state) (sizes : List ℕ) :
    ReachableWhen (Tracked.step knobs) (CleanReset knobs) .initial
      (Tracked.afterAll knobs state (sizes.map allocates)) := by
  induction sizes generalizing state with
  | nil => exact hreach
  | cons size sizes ih =>
      exact ih (.next hreach (cleanReset_process _ _ _) rfl)

/-- Site 7 specializes, and the third window is checked and cleared. -/
def windowChecked : Tracked :=
  .afterAll sixEventKnobs .initial ((List.replicate 18 16).map allocates)

/-- A runtime deopt then finds the window empty.  The site specializes again, on
other sizes, and five more events go to the window. -/
def fiveSinceReset : Tracked :=
  .afterAll sixEventKnobs
    (.after sixEventKnobs windowChecked (.reset 7 .regionExhaust))
    ((List.replicate 17 32).map allocates)

/-- The sixth event runs the test, on six events of the second specialization. -/
theorem driftJudged_afterReset :
    TestsDrift sixEventKnobs fiveSinceReset (allocates 32) 7
        (.ofSizes [32, 32, 32, 32, 32, 32])
        (.ofSizes [32, 32, 32, 32, 32, 32]) ∧
      DriftJudged sixEventKnobs fiveSinceReset (allocates 32) 7 := by
  have hchecked : ReachableWhen (Tracked.step sixEventKnobs)
      (CleanReset sixEventKnobs) .initial windowChecked :=
    cleanly_allocates .start _
  have hempty : (windowChecked.analyzer.summaryOf 7).postWindow.count = 0 := by
    decide +kernel
  have hreset : ReachableWhen (Tracked.step sixEventKnobs)
      (CleanReset sixEventKnobs) .initial
        (.after sixEventKnobs windowChecked (.reset 7 .regionExhaust)) :=
    .next hchecked (cleanReset_of_empty hempty _) rfl
  exact ⟨⟨none, _, _, rfl, rfl, by decide +kernel⟩,
    driftJudged_of_cleanReset (cleanly_allocates hreset _) _ 7⟩

/-- Five events that drift leave a partial window, a runtime deopt restarts the
site, and it specializes again on events that do not drift. -/
def leftoverWindow : Tracked :=
  .afterAll sixEventKnobs .initial
    ((List.replicate 12 16 ++ List.replicate 5 32).map allocates ++
      [.reset 7 .regionExhaust] ++ (List.replicate 12 16).map allocates)

/-- The first event of the new specialization, which follows its baseline,
completes the leftover window and deoptimizes the site for drift. -/
theorem leftoverWindow_drifts :
    Reachable (Tracked.step sixEventKnobs) .initial leftoverWindow ∧
      ((Tracked.after sixEventKnobs leftoverWindow (allocates 16)).history
        7).inside = [16] ∧
      (Tracked.after sixEventKnobs leftoverWindow
        (allocates 16)).analyzer.getPhase 7 = .deopt ∧
      ¬DriftJudged sixEventKnobs leftoverWindow (allocates 16) 7 := by
  have hinside : ((Tracked.after sixEventKnobs leftoverWindow
      (allocates 16)).history 7).inside = [16] := by decide +kernel
  have hafter : (Tracked.after sixEventKnobs leftoverWindow
      (allocates 16)).analyzer.getPhase 7 = .deopt := by decide +kernel
  have hbefore : leftoverWindow.analyzer.getPhase 7 = .compiled := by
    decide +kernel
  refine ⟨Tracked.reachable_afterAll .start _, hinside, hafter, fun hjudged => ?_⟩
  have hlength := (hjudged.drift _ _ _ rfl hbefore (by rw [hafter]; decide)).1
  rw [hinside] at hlength
  exact absurd hlength (by decide)

end TbjitAlloc.Analysis
