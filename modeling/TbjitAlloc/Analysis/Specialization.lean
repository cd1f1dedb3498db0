import TbjitAlloc.Analysis.BlockSpec

/-!
# The analyzer implements the block specification

Each window of a site that is not specialized is one of its blocks: the active
window is the tail of the stream and the other one is the last complete block.
The streak counter is the streak of stable pairs.  The simulation is kept by
every operation on every site, so the decision to specialize is the one the
specification makes.
-/

namespace TbjitAlloc.Analysis

open TbjitAlloc.Blocks
open TbjitAlloc.Codegen
open TbjitAlloc.Transition

section Simulation

variable (knobs : Knobs)

/-- The window before the active one. -/
def previousWindow (sizes : List ℕ) : SizeWindow :=
  if sizes.length / knobs.windowSize = 0 then .empty
  else
    .ofSizes (block knobs.windowSize sizes
      (sizes.length / knobs.windowSize - 1))

/-- A site may specialize. -/
def Eligible (summary : CallSiteSummary) : Prop :=
  summary.blacklisted = false ∧ knobs.traceOnly = false

/-- A site outside the Compiled phase follows the blocks of `sizes`. -/
structure WindowsOk (summary : CallSiteSummary) (sizes : List ℕ) : Prop where
  active_eq : summary.windows summary.active =
    .ofSizes (blockTail knobs.windowSize sizes)
  previous_eq : summary.windows (1 - summary.active) =
    previousWindow knobs sizes
  streak_eq : Eligible knobs summary → summary.stableWindows =
    streak (StablePair knobs sizes) (sizes.length / knobs.windowSize - 1)
  notYet : Eligible knobs summary → ∀ index, ¬EndsStableRun knobs sizes index

/-- A Compiled site stopped at the first block the specification names. -/
structure CompiledOk (summary : CallSiteSummary) (sizes : List ℕ) : Prop where
  eligible : Eligible knobs summary
  run : ∃ index, sizes.length = (index + 1) * knobs.windowSize ∧
    FirstStableRun knobs sizes index ∧
    summary.baseline = blockHistogram knobs sizes index

structure SiteOk (summary : CallSiteSummary) (sizes : List ℕ) : Prop where
  windows : summary.phase ≠ .compiled → WindowsOk knobs summary sizes
  compiled : summary.phase = .compiled → CompiledOk knobs summary sizes

end Simulation

section Steps

variable {knobs : Knobs} {compile : RoutineSpec → Option ℕ}
variable {summary : CallSiteSummary} {sizes : List ℕ} {size : ℕ}

theorem not_endsStableRun_nil (index : ℕ) : ¬EndsStableRun knobs [] index := by
  intro hrun
  have hlength := hrun.1
  have hpos := Nat.mul_pos (Nat.succ_pos index) knobs.windowSize_pos
  rw [List.length_nil] at hlength
  exact absurd hlength (Nat.not_le.mpr hpos)

theorem windowsOk_nil (hwindows : summary.windows = fun _ => .empty)
    (hstable : summary.stableWindows = 0) : WindowsOk knobs summary [] where
  active_eq := by rw [hwindows, blockTail_nil, SizeWindow.ofSizes_nil]
  previous_eq := by simp [hwindows, previousWindow]
  streak_eq := fun _ => by simp [hstable, streak]
  notYet := fun _ => not_endsStableRun_nil

theorem siteOk_fresh (id : ℕ) : SiteOk knobs (.fresh id) [] where
  windows := fun _ => windowsOk_nil rfl rfl
  compiled := fun h => by cases h

/-- The bookkeeping of a free touches nothing the simulation speaks of. -/
theorem SiteOk.recordFree (hok : SiteOk knobs summary sizes) (managed : Bool)
    (event : AllocEvent) :
    SiteOk knobs (summary.recordFree managed event) sizes where
  windows := fun hphase =>
    have h := hok.windows hphase
    ⟨h.active_eq, h.previous_eq, h.streak_eq, h.notYet⟩
  compiled := fun hphase =>
    have h := hok.compiled hphase
    ⟨h.eligible, h.run⟩

theorem SiteOk.reset (reason : DeoptReason) :
    SiteOk knobs (summary.reset knobs reason) [] where
  windows := fun _ => windowsOk_nil rfl rfl
  compiled := fun h => by cases h

/-! ## One window -/

/-- The comparison is between a block and the one immediately before it. -/
theorem WindowsOk.prespecTest_eq
    (hok : WindowsOk knobs summary sizes)
    (hfull : (blockTail knobs.windowSize sizes).length + 1 = knobs.windowSize) :
    (summary.recordActive size).prespecTest =
      if sizes.length / knobs.windowSize = 0 then none
      else
        some
          (blockHistogram knobs (sizes ++ [size])
            (sizes.length / knobs.windowSize),
          blockHistogram knobs (sizes ++ [size])
            (sizes.length / knobs.windowSize - 1)) := by
  rw [CallSiteSummary.prespecTest, CallSiteSummary.activeHist,
    CallSiteSummary.recordActive_active, CallSiteSummary.recordActive_other,
    hok.active_eq, hok.previous_eq, SizeWindow.record_ofSizes, previousWindow]
  by_cases hfirst : sizes.length / knobs.windowSize = 0
  · simp [hfirst, SizeWindow.empty]
  · have hcomplete : (sizes.length / knobs.windowSize - 1 + 1) *
        knobs.windowSize ≤ sizes.length := by
      rw [Nat.sub_add_cancel (Nat.pos_of_ne_zero hfirst)]
      exact Nat.div_mul_le_self _ _
    have hlength : (block knobs.windowSize sizes
        (sizes.length / knobs.windowSize - 1)).length = knobs.windowSize := by
      rw [block_length hcomplete]
    rw [if_neg hfirst, if_neg hfirst, SizeWindow.ofSizes_count, hlength,
      if_pos knobs.windowSize_pos, blockHistogram_append [size] hcomplete,
      SizeWindow.ofSizes_hist, SizeWindow.ofSizes_hist, blockHistogram,
      blockHistogram, block_append_of_full size hfull]

/-- The counter after the comparison is the streak up to the new block. -/
theorem WindowsOk.streak_next (hok : WindowsOk knobs summary sizes)
    (heligible : Eligible knobs summary)
    (hfull : (blockTail knobs.windowSize sizes).length + 1 = knobs.windowSize)
    (size : ℕ) :
    (if (summary.recordActive size).prespecStable knobs then
        summary.stableWindows + 1 else 0) =
      streak (StablePair knobs (sizes ++ [size]))
        (sizes.length / knobs.windowSize) := by
  rw [CallSiteSummary.prespecStable, hok.prespecTest_eq hfull,
    hok.streak_eq heligible]
  by_cases hfirst : sizes.length / knobs.windowSize = 0
  · simp [hfirst, streak]
  · obtain ⟨count, hcount⟩ := Nat.exists_eq_succ_of_ne_zero hfirst
    have hcomplete : (count + 1) * knobs.windowSize ≤ sizes.length := by
      rw [← Nat.succ_eq_add_one, ← hcount]
      exact Nat.div_mul_le_self _ _
    simp only [hcount, Nat.succ_ne_zero, if_false, Nat.succ_eq_add_one,
      Nat.add_sub_cancel, streak, StablePair, streak_append [size] hcomplete]

/-- What `advance_prespec` decides: the site specializes on the active window,
or rotates with the counter it reached. -/
theorem advancePrespec_cases (knobs : Knobs)
    (compile : RoutineSpec → Option ℕ) (summary : CallSiteSummary) :
    let counter :=
      if summary.prespecStable knobs then summary.stableWindows + 1 else 0
    (summary.advancePrespec knobs compile).2.prespecTest =
        summary.prespecTest ∧
      (Eligible knobs summary ∧ knobs.stableWindows ≤ counter ∧
          (summary.advancePrespec knobs compile).1.phase = .compiled ∧
          (summary.advancePrespec knobs compile).1.baseline =
            summary.activeHist ∧
          (summary.advancePrespec knobs compile).1.blacklisted =
            summary.blacklisted ∨
        ¬(Eligible knobs summary ∧ knobs.stableWindows ≤ counter) ∧
          ∃ next, (summary.advancePrespec knobs compile).1 =
              CallSiteSummary.rotate { summary with stableWindows := next } ∧
            (Eligible knobs summary → next = counter)) := by
  intro counter
  have hpos := knobs.stableWindows_pos
  unfold CallSiteSummary.advancePrespec
  by_cases hstable : summary.prespecStable knobs
  · have hcounter : counter = summary.stableWindows + 1 := if_pos hstable
    simp only [hstable, if_true]
    by_cases hreached : knobs.stableWindows ≤ summary.stableWindows + 1
    · rw [if_pos hreached]
      by_cases hexcluded : (summary.blacklisted || knobs.traceOnly) = true
      · rw [if_pos hexcluded]
        have hnot : ¬Eligible knobs summary := by
          rintro ⟨hblack, htrace⟩
          rw [hblack, htrace] at hexcluded
          exact absurd hexcluded (by decide)
        exact ⟨rfl, .inr ⟨fun h => hnot h.1, 0, rfl, fun h => absurd h hnot⟩⟩
      · rw [if_neg hexcluded]
        rw [Bool.or_eq_true, not_or, Bool.not_eq_true, Bool.not_eq_true]
          at hexcluded
        exact ⟨rfl, .inl ⟨hexcluded, by omega, rfl, rfl, rfl⟩⟩
    · rw [if_neg hreached]
      exact ⟨rfl, .inr ⟨fun h => by omega, _, rfl, fun _ => hcounter.symm⟩⟩
  · have hcounter : counter = 0 := if_neg hstable
    simp only [hstable, Bool.false_eq_true, if_false]
    exact ⟨trivial, .inr ⟨fun h => by omega, 0, rfl, fun _ => hcounter.symm⟩⟩

/-- A window that is not yet full only grows the tail. -/
theorem WindowsOk.record_of_room (hok : WindowsOk knobs summary sizes)
    (hroom : (blockTail knobs.windowSize sizes).length + 1 < knobs.windowSize) :
    WindowsOk knobs (summary.recordActive size) (sizes ++ [size]) := by
  have hcount := length_succ_div_of_room hroom
  have hcomplete : ∀ index < sizes.length / knobs.windowSize,
      (index + 1) * knobs.windowSize ≤ sizes.length :=
    fun _ hindex => (block_complete_iff knobs.windowSize_pos).mpr hindex
  refine ⟨?_, ?_, fun heligible => ?_, fun heligible index => ?_⟩
  · rw [CallSiteSummary.recordActive_active, hok.active_eq,
      SizeWindow.record_ofSizes, blockTail_append_of_room size hroom]
  · rw [CallSiteSummary.recordActive_other, hok.previous_eq, previousWindow,
      previousWindow, List.length_append, List.length_singleton, hcount]
    split
    · rfl
    · next hfirst =>
        rw [block_append [size] (hcomplete _ (Nat.sub_one_lt hfirst))]
  · rw [List.length_append, List.length_singleton, hcount]
    refine (hok.streak_eq heligible).trans ?_
    by_cases hfirst : sizes.length / knobs.windowSize = 0
    · simp [hfirst, streak]
    · rw [streak_append [size] (hcomplete _ (Nat.sub_one_lt hfirst))]
  · rw [endsStableRun_append_of_room size hroom]
    exact hok.notYet heligible index

/-- A full window is compared, and the site specializes or rotates. -/
theorem WindowsOk.record_of_full (hok : WindowsOk knobs summary sizes)
    (hphase : summary.phase ≠ .compiled)
    (hfull : (blockTail knobs.windowSize sizes).length + 1 = knobs.windowSize) :
    SiteOk knobs ((summary.recordActive size).advancePrespec knobs compile).1
      (sizes ++ [size]) := by
  have hlast := length_succ_div hfull
  have hindex := (completesBlock_of_full size hfull).2
  have hearlier : ∀ index < sizes.length / knobs.windowSize,
      Eligible knobs summary →
        ¬EndsStableRun knobs (sizes ++ [size]) index := by
    intro index hindex heligible
    rw [endsStableRun_append [size]
      ((block_complete_iff knobs.windowSize_pos).mpr hindex)]
    exact hok.notYet heligible index
  have hactive : (summary.recordActive size).activeHist =
      blockHistogram knobs (sizes ++ [size])
        (sizes.length / knobs.windowSize) := by
    rw [CallSiteSummary.activeHist, CallSiteSummary.recordActive_active,
      hok.active_eq, SizeWindow.record_ofSizes, SizeWindow.ofSizes_hist,
      blockHistogram, block_append_of_full size hfull]
  have hcounter := fun heligible : Eligible knobs summary =>
    hok.streak_next heligible hfull size
  obtain ⟨-, ⟨heligible, hreached, hcompiled, hbaseline, hblack⟩ |
    ⟨hnot, next, hrotated, hnext⟩⟩ :=
    advancePrespec_cases knobs compile
      (summary.recordActive size)
  · -- The new block ends a run, and no earlier one did.
    rw [show (summary.recordActive size).stableWindows =
      summary.stableWindows from rfl, hcounter heligible] at hreached
    refine ⟨fun h => absurd hcompiled h, fun _ => ⟨?_, _, hindex, ⟨?_, ?_⟩, ?_⟩⟩
    · exact ⟨hblack.trans heligible.1, heligible.2⟩
    · exact endsStableRun_iff.mpr ⟨hindex.ge, hreached⟩
    · exact fun index hlt => hearlier index hlt heligible
    · rw [hbaseline, hactive]
  · rw [hrotated]
    refine ⟨fun _ => ⟨?_, ?_, fun heligible => ?_, fun heligible index => ?_⟩,
      fun h => absurd h hphase⟩
    · rw [CallSiteSummary.rotate_active, blockTail_append_of_full size hfull,
        SizeWindow.ofSizes_nil]
    · rw [CallSiteSummary.rotate_other, previousWindow, List.length_append,
        List.length_singleton, hlast, if_neg (Nat.succ_ne_zero _),
        Nat.add_sub_cancel, block_append_of_full size hfull,
        ← SizeWindow.record_ofSizes, ← hok.active_eq]
      exact CallSiteSummary.recordActive_active summary size
    · rw [List.length_append, List.length_singleton, hlast, Nat.add_sub_cancel,
        ← hcounter heligible]
      exact hnext heligible
    · intro hrun
      rcases (endsStableRun_append_of_full size hfull).mp hrun with
        hold | ⟨hnew, hreached⟩
      · exact hok.notYet heligible index hold
      · rw [hnew, ← hcounter heligible] at hreached
        exact hnot ⟨heligible, hreached⟩

/-! ## One event -/

theorem recordAlloc_phase (hphase : summary.phase ≠ .compiled)
    (event : AllocEvent) : (summary.recordAlloc event).phase = .preSpec := by
  change (if summary.phase = .deopt then Phase.preSpec else summary.phase) = _
  cases hbefore : summary.phase with
  | preSpec => rfl
  | compiled => exact absurd hbefore hphase
  | deopt => rfl

theorem recordAlloc_compiled (hphase : summary.phase = .compiled)
    (event : AllocEvent) : (summary.recordAlloc event).phase = .compiled := by
  change (if summary.phase = .deopt then Phase.preSpec else summary.phase) = _
  rw [hphase]
  rfl

/-- Outside the Compiled phase an allocation goes to the active window, and a
full one is compared. -/
theorem processAlloc_of_outside (hphase : summary.phase ≠ .compiled)
    (event : AllocEvent) :
    let recorded := (summary.recordAlloc event).recordActive event.size
    summary.processAlloc knobs compile event =
      if (recorded.windows recorded.active).full knobs.windowSize then
        recorded.advancePrespec knobs compile
      else (recorded, { }) := by
  rw [CallSiteSummary.processAlloc, CallSiteSummary.recordSize,
    if_pos (recordAlloc_phase hphase event)]

theorem WindowsOk.processAlloc (hok : WindowsOk knobs summary sizes)
    (hphase : summary.phase ≠ .compiled) (event : AllocEvent) :
    SiteOk knobs (summary.processAlloc knobs compile event).1
      (sizes ++ [event.size]) := by
  have hrecorded : WindowsOk knobs (summary.recordAlloc event) sizes :=
    ⟨hok.active_eq, hok.previous_eq, hok.streak_eq, hok.notYet⟩
  have hpreSpec := recordAlloc_phase hphase event
  have hnot : (summary.recordAlloc event).phase ≠ .compiled := by
    rw [hpreSpec]
    exact Phase.noConfusion
  have htail : (blockTail knobs.windowSize sizes).length < knobs.windowSize := by
    rw [blockTail_length]
    exact Nat.mod_lt _ knobs.windowSize_pos
  rw [processAlloc_of_outside hphase]
  rw [CallSiteSummary.recordActive_active, hrecorded.active_eq,
    SizeWindow.record_ofSizes, SizeWindow.full, SizeWindow.ofSizes_count,
    List.length_append, List.length_singleton]
  split
  · next hfull =>
      rw [decide_eq_true_eq] at hfull
      exact hrecorded.record_of_full hnot (by omega)
  · next hroom =>
      rw [decide_eq_true_eq] at hroom
      exact ⟨fun _ => hrecorded.record_of_room (by omega),
        fun hcompiled => absurd hcompiled hnot⟩

/-- What `check_postspec` leaves, by the branch it takes. -/
theorem checkPostspec_eq {knobs : Knobs} (summary : CallSiteSummary) :
    (summary.checkPostspec knobs).1 =
        (if knobs.oracleMode = true ∨
            knobs.ksStable summary.postWindow.hist summary.baseline = true then
          { summary with postWindow := .empty }
        else
          { summary.restartWindows with
            phase := .deopt
            deoptReason := .sizeDrift
            postWindow := .empty }) ∧
      (summary.checkPostspec knobs).2.compiled = none := by
  rw [CallSiteSummary.checkPostspec]
  by_cases horacle : knobs.oracleMode = true
  · rw [if_pos horacle, if_pos (.inl horacle)]
    exact ⟨rfl, rfl⟩
  · rw [if_neg horacle]
    dsimp only
    by_cases hstable :
        knobs.ksStable summary.postWindow.hist summary.baseline = true
    · rw [if_pos hstable, if_pos (.inr hstable)]
      exact ⟨rfl, rfl⟩
    · rw [if_neg hstable, if_neg (not_or.mpr ⟨horacle, hstable⟩)]
      exact ⟨rfl, rfl⟩

/-- What `check_postspec` decides: the site stays as it is, or restarts. -/
theorem checkPostspec_cases (knobs : Knobs) (summary : CallSiteSummary) :
    let next := (summary.checkPostspec knobs).1
    next.blacklisted = summary.blacklisted ∧
      (next.phase = summary.phase ∧ next.baseline = summary.baseline ∨
        next.phase = .deopt ∧ (next.windows = fun _ => .empty) ∧
          next.stableWindows = 0) := by
  intro next
  simp only [next, (checkPostspec_eq summary).1]
  split
  · exact ⟨rfl, .inl ⟨rfl, rfl⟩⟩
  · exact ⟨rfl, .inr ⟨rfl, rfl, rfl⟩⟩

theorem CompiledOk.keep (hok : CompiledOk knobs summary sizes)
    {kept : CallSiteSummary} (hphase : kept.phase = .compiled)
    (hblack : kept.blacklisted = summary.blacklisted)
    (hbaseline : kept.baseline = summary.baseline) :
    SiteOk knobs kept (if kept.phase = .compiled then sizes else []) := by
  rw [if_pos hphase]
  refine ⟨fun h => absurd hphase h, fun _ => ⟨?_, ?_⟩⟩
  · exact ⟨hblack.trans hok.eligible.1, hok.eligible.2⟩
  · rw [hbaseline]
    exact hok.run

/-- A specialized site keeps its baseline until the drift check fails, and is
restarted then. -/
theorem CompiledOk.processAlloc (hok : CompiledOk knobs summary sizes)
    (hphase : summary.phase = .compiled) (event : AllocEvent) :
    SiteOk knobs (summary.processAlloc knobs compile event).1
      (if (summary.processAlloc knobs compile event).1.phase = .compiled then
        sizes else []) := by
  have hcompiled := recordAlloc_compiled hphase event
  have hpreSpec : (summary.recordAlloc event).phase ≠ .preSpec := by
    rw [hcompiled]
    exact Phase.noConfusion
  rw [CallSiteSummary.processAlloc, CallSiteSummary.recordSize,
    if_neg hpreSpec]
  dsimp only
  split
  · obtain ⟨hblack, ⟨hkept, hbaseline⟩ | ⟨hdeopt, hwindows, hstable⟩⟩ :=
      checkPostspec_cases knobs
        ((summary.recordAlloc event).recordPost event.size)
    · exact hok.keep (hkept.trans hcompiled) hblack hbaseline
    · have hnot := hdeopt.trans_ne (Phase.noConfusion : Phase.deopt ≠ .compiled)
      rw [if_neg hnot]
      exact ⟨fun _ => windowsOk_nil hwindows hstable,
        fun h => absurd h hnot⟩
  · exact CompiledOk.keep hok hcompiled rfl rfl

theorem SiteOk.processAlloc {history : SiteHistory}
    (hok : SiteOk knobs summary history.outside) (event : AllocEvent) :
    SiteOk knobs (summary.processAlloc knobs compile event).1
      (history.observe summary.phase
        (summary.processAlloc knobs compile event).1.phase
        event.size).outside := by
  rw [SiteHistory.observe]
  by_cases hphase : summary.phase = .compiled
  · rw [if_pos hphase]
    exact (hok.compiled hphase).processAlloc hphase event
  · rw [if_neg hphase]
    exact (hok.windows hphase).processAlloc hphase event

/-- Blacklisting is the business of `reset_call_site` alone. -/
theorem processAlloc_blacklisted (event : AllocEvent) :
    (summary.processAlloc knobs compile event).1.blacklisted =
      summary.blacklisted := by
  rw [CallSiteSummary.processAlloc, CallSiteSummary.recordSize]
  split
  · dsimp only
    split
    · obtain ⟨-, ⟨-, -, -, -, hblack⟩ | ⟨-, next, hrotated, -⟩⟩ :=
        advancePrespec_cases knobs compile
          ((summary.recordAlloc event).recordActive event.size)
      · exact hblack
      · rw [hrotated]
        rfl
    · rfl
  · dsimp only
    split
    · exact (checkPostspec_cases _ _).1
    · rfl

end Steps

/-! ## Comparisons -/

section Comparisons

variable {knobs : Knobs} {compile : RoutineSpec → Option ℕ}
variable {summary : CallSiteSummary} {sizes : List ℕ}

theorem checkPostspec_prespecTest (summary : CallSiteSummary) :
    (summary.checkPostspec knobs).2.prespecTest = none := by
  rw [CallSiteSummary.checkPostspec]
  split
  · rfl
  · dsimp only
    split <;> rfl

/-- A comparison of two windows is one of the block just completed with the
block before it. -/
theorem SiteOk.prespecTest (hok : SiteOk knobs summary sizes)
    {event : AllocEvent} {recent previous : ExactHistogram}
    (htest : (summary.processAlloc knobs compile event).2.prespecTest =
      some (recent, previous)) :
    summary.phase ≠ .compiled ∧
      ∃ index,
        CompletesBlock knobs sizes (sizes ++ [event.size]) (index + 1) ∧
        recent =
          blockHistogram knobs (sizes ++ [event.size]) (index + 1) ∧
        previous = blockHistogram knobs (sizes ++ [event.size]) index := by
  rw [CallSiteSummary.processAlloc, CallSiteSummary.recordSize] at htest
  split at htest
  · next hpreSpec =>
      have hphase : summary.phase ≠ .compiled := fun hcompiled => by
        rw [recordAlloc_compiled hcompiled event] at hpreSpec
        exact Phase.noConfusion hpreSpec
      have hwindows := hok.windows hphase
      have hrecorded : WindowsOk knobs (summary.recordAlloc event) sizes :=
        ⟨hwindows.active_eq, hwindows.previous_eq, hwindows.streak_eq,
          hwindows.notYet⟩
      have htail :
          (blockTail knobs.windowSize sizes).length < knobs.windowSize := by
        rw [blockTail_length]
        exact Nat.mod_lt _ knobs.windowSize_pos
      dsimp only at htest
      rw [CallSiteSummary.recordActive_active, hrecorded.active_eq,
        SizeWindow.record_ofSizes, SizeWindow.full, SizeWindow.ofSizes_count,
        List.length_append, List.length_singleton] at htest
      split at htest
      · next hfilled =>
          rw [decide_eq_true_eq] at hfilled
          have hfull : (blockTail knobs.windowSize sizes).length + 1 =
            knobs.windowSize := by omega
          rw [(advancePrespec_cases _ _ _).1,
            hrecorded.prespecTest_eq hfull] at htest
          split at htest
          · cases htest
          · next hlater =>
              obtain ⟨index, hindex⟩ := Nat.exists_eq_succ_of_ne_zero hlater
              have hblock := completesBlock_of_full event.size hfull
              rw [hindex] at htest hblock
              obtain ⟨rfl, rfl⟩ := Prod.mk.inj (Option.some.inj htest)
              exact ⟨hphase, index, hblock, rfl, rfl⟩
      · cases htest
  · dsimp only at htest
    split at htest
    · rw [checkPostspec_prespecTest] at htest
      cases htest
    · cases htest

end Comparisons

/-! ## Every run -/

section Runs

variable {knobs : Knobs} {state next : Tracked} {op : StreamOp}

def SitesOk (knobs : Knobs) (state : Tracked) : Prop :=
  ∀ id, SiteOk knobs (state.analyzer.summaryOf id) (state.history id).outside

theorem sitesOk_step (hok : SitesOk knobs state)
    (hstep : Tracked.step knobs state op = some next) :
    SitesOk knobs next := by
  intro id
  obtain rfl := Option.some.inj hstep
  obtain ⟨hsame, hhistory⟩ |
      ⟨_, event, compile, -, -, -, -, hnext, hhistory⟩ |
      ⟨managed, event, hfreed, hhistory⟩ | ⟨reason, -, hreset, hhistory⟩ :=
    Tracked.site_cases knobs state op id
  · rw [hsame, hhistory]
    exact hok id
  · rw [hhistory, hnext]
    exact (hok id).processAlloc event
  · rw [hfreed, hhistory]
    exact (hok id).recordFree managed event
  · rw [hreset, hhistory]
    exact SiteOk.reset reason

theorem sitesOk_reachable
    (hreach : Reachable (Tracked.step knobs) .initial state) :
    SitesOk knobs state := by
  have hinitial : SitesOk knobs .initial := fun id => siteOk_fresh id
  exact hreach.invariant hinitial fun _ _ _ hok hstep =>
    sitesOk_step hok hstep

/-- The site is blacklisted, or no site specializes. -/
def Excluded (knobs : Knobs) (analyzer : Analyzer) (id : ℕ) : Prop :=
  (analyzer.summaryOf id).blacklisted = true ∨ knobs.traceOnly = true

def EntersCompiled (before after : Analyzer) (id : ℕ) : Prop :=
  before.getPhase id ≠ .compiled ∧ after.getPhase id = .compiled

theorem eligible_iff {analyzer : Analyzer} {id : ℕ} :
    Eligible knobs (analyzer.summaryOf id) ↔ ¬Excluded knobs analyzer id := by
  rw [Eligible, Excluded, not_or, Bool.not_eq_true, Bool.not_eq_true]

theorem not_completesBlock_self {sizes : List ℕ} {index : ℕ} :
    ¬CompletesBlock knobs sizes sizes index := by
  rintro ⟨⟨size, hsize⟩, -⟩
  simpa using congrArg List.length hsize

theorem not_completesBlock_nil {sizes : List ℕ} {index : ℕ} :
    ¬CompletesBlock knobs sizes [] index := by
  rintro ⟨⟨size, hsize⟩, -⟩
  simpa using congrArg List.length hsize

/-- Only an allocation of the site outside the Compiled phase completes a
block, and it is appended to the site's sizes. -/
theorem phase_of_completesBlock {id index : ℕ}
    (hstep : Tracked.step knobs state op = some next)
    (hblock : CompletesBlock knobs (state.history id).outside
      (next.history id).outside index) :
    (state.analyzer.summaryOf id).phase ≠ .compiled ∧
      (next.analyzer.summaryOf id).blacklisted =
        (state.analyzer.summaryOf id).blacklisted := by
  obtain rfl := Option.some.inj hstep
  obtain ⟨-, hhistory⟩ |
      ⟨_, event, compile, -, -, -, -, hnext, hhistory⟩ |
      ⟨_, _, -, hhistory⟩ | ⟨_, -, -, hhistory⟩ :=
    Tracked.site_cases knobs state op id
  · rw [hhistory] at hblock
    exact absurd hblock not_completesBlock_self
  · refine ⟨fun hphase => ?_, by rw [hnext, processAlloc_blacklisted]⟩
    rw [hhistory, SiteHistory.observe, if_pos hphase] at hblock
    dsimp only at hblock
    split at hblock
    · exact not_completesBlock_self hblock
    · exact not_completesBlock_nil hblock
  · rw [hhistory] at hblock
    exact absurd hblock not_completesBlock_self
  · rw [hhistory] at hblock
    exact absurd hblock not_completesBlock_nil

/-- A site enters Compiled only on an allocation of its own. -/
theorem process_of_entersCompiled {id : ℕ}
    (hstep : Tracked.step knobs state op = some next)
    (henters : EntersCompiled state.analyzer next.analyzer id) :
    ∃ size, (next.history id).outside =
        (state.history id).outside ++ [size] ∧
      (next.analyzer.summaryOf id).blacklisted =
        (state.analyzer.summaryOf id).blacklisted := by
  obtain rfl := Option.some.inj hstep
  obtain ⟨hbefore, hafter⟩ := henters
  rw [Analyzer.getPhase_eq] at hbefore hafter
  obtain ⟨hsame, -⟩ |
      ⟨_, event, compile, -, -, -, -, hnext, hhistory⟩ |
      ⟨_, _, hfreed, -⟩ | ⟨_, -, hreset, -⟩ :=
    Tracked.site_cases knobs state op id
  · rw [hsame] at hafter
    exact absurd hafter hbefore
  · refine ⟨event.size, ?_, by rw [hnext, processAlloc_blacklisted]⟩
    rw [hhistory, SiteHistory.observe, if_neg hbefore]
  · rw [hfreed] at hafter
    exact absurd hafter hbefore
  · rw [hreset] at hafter
    cases hafter

theorem comparison_of_process {segSite : Option ℕ} {event : AllocEvent}
    {compile : RoutineSpec → Option ℕ} {recent previous : ExactHistogram}
    (hstep : Tracked.step knobs state (.process segSite event compile) =
      some next)
    (hok : SiteOk knobs (state.analyzer.summaryOf event.callSite)
      (state.history event.callSite).outside)
    (htest : (state.analyzer.processEvent knobs compile segSite
      event).2.prespecTest = some (recent, previous)) :
    ∃ index, CompletesBlock knobs (state.history event.callSite).outside
        (next.history event.callSite).outside (index + 1) ∧
      recent = blockHistogram knobs (next.history event.callSite).outside
        (index + 1) ∧
      previous = blockHistogram knobs (next.history event.callSite).outside
        index := by
  obtain rfl := Option.some.inj hstep
  rcases Tracked.calls_cases state segSite event compile with
    hnone | ⟨hcalls, hhistory⟩
  · rw [Tracked.apply] at hnone
    rw [hnone] at htest
    cases htest
  · rw [Tracked.apply] at hcalls
    rw [hcalls] at htest
    obtain ⟨hphase, hblocks⟩ := hok.prespecTest htest
    rw [hhistory, SiteHistory.observe, if_neg hphase]
    exact hblocks

/-- Specialization happens exactly when the block specification says: in every
run, a step takes a site into Compiled if and only if the site is not excluded
and the step's event is the last of the first block that ends a stable run.
The baseline is that block's histogram, every comparison made on the way is
between a block and its predecessor, and an excluded site is never Compiled. -/
theorem entersCompiled_iff_blockSpec
    (hreach : Reachable (Tracked.step knobs) .initial state)
    (hstep : Tracked.step knobs state op = some next) (id : ℕ) :
    (EntersCompiled state.analyzer next.analyzer id ↔
      ¬Excluded knobs state.analyzer id ∧
        ∃ index, CompletesBlock knobs (state.history id).outside
            (next.history id).outside index ∧
          FirstStableRun knobs (next.history id).outside index) ∧
    (EntersCompiled state.analyzer next.analyzer id →
      ∀ index, CompletesBlock knobs (state.history id).outside
          (next.history id).outside index →
        (next.analyzer.summaryOf id).baseline =
          blockHistogram knobs (next.history id).outside index) ∧
    (∀ segSite event compile recent previous,
      op = .process segSite event compile → event.callSite = id →
      (Tracked.apply knobs state.analyzer op).2.prespecTest =
        some (recent, previous) →
      ∃ index, CompletesBlock knobs (state.history id).outside
          (next.history id).outside (index + 1) ∧
        recent = blockHistogram knobs (next.history id).outside (index + 1) ∧
        previous = blockHistogram knobs (next.history id).outside index) ∧
    (Excluded knobs next.analyzer id →
      next.analyzer.getPhase id ≠ .compiled) := by
  have hbefore := sitesOk_reachable hreach id
  have hafter := sitesOk_reachable (hreach.next hstep) id
  refine ⟨⟨fun henters => ?_, ?_⟩, fun henters index hblock => ?_, ?_,
    fun hexcluded hphase => ?_⟩
  · obtain ⟨size, hsizes, hblack⟩ := process_of_entersCompiled hstep henters
    have hphase := henters.2
    rw [Analyzer.getPhase_eq] at hphase
    have hcompiled := hafter.compiled hphase
    obtain ⟨index, hlength, hfirst, -⟩ := hcompiled.run
    refine ⟨?_, index, ⟨⟨size, hsizes⟩, hlength⟩, hfirst⟩
    rw [← eligible_iff]
    exact ⟨hblack.symm.trans hcompiled.eligible.1, hcompiled.eligible.2⟩
  · rintro ⟨hexcluded, index, hblock, hfirst⟩
    rw [← eligible_iff] at hexcluded
    obtain ⟨hphase, hblack⟩ := phase_of_completesBlock hstep hblock
    rw [EntersCompiled, Analyzer.getPhase_eq, Analyzer.getPhase_eq]
    refine ⟨hphase, by_contra fun hnot => ?_⟩
    exact (hafter.windows hnot).notYet
      ⟨hblack.trans hexcluded.1, hexcluded.2⟩ index hfirst.1
  · have hphase := henters.2
    rw [Analyzer.getPhase_eq] at hphase
    obtain ⟨other, hlength, -, hbaseline⟩ := (hafter.compiled hphase).run
    have hsame : other = index := by
      have heq := hlength.symm.trans hblock.2
      have := Nat.eq_of_mul_eq_mul_right knobs.windowSize_pos heq
      omega
    rw [hbaseline, hsame]
  · rintro segSite event compile recent previous rfl rfl htest
    exact comparison_of_process hstep hbefore htest
  · rw [Analyzer.getPhase_eq] at hphase
    exact eligible_iff.mp (hafter.compiled hphase).eligible hexcluded

end Runs

/-! ## A site that specializes with its second event -/

/-- Windows of one event, one stable pair, and the source's test at 5%. -/
def singleEventKnobs : Knobs where
  windowSize := 1
  stableWindows := 1
  deoptBlacklistLimit := 3
  ksStable := ksStable (5 / 100)
  forced := .generic
  oracleMode := false
  traceOnly := false
  windowSize_pos := Nat.one_pos
  stableWindows_pos := Nat.one_pos

/-- An allocation of 16 bytes by site 7. -/
def sixteenBytes : StreamOp := .process none ⟨7, 16, 1, 4096⟩ fun _ => none

def afterFirst : Tracked := .after singleEventKnobs .initial sixteenBytes

def afterSecond : Tracked := .after singleEventKnobs afterFirst sixteenBytes

theorem entersCompiled_secondEvent :
    EntersCompiled afterFirst.analyzer afterSecond.analyzer 7 ∧
      ∃ index, CompletesBlock singleEventKnobs (afterFirst.history 7).outside
          (afterSecond.history 7).outside index ∧
        FirstStableRun singleEventKnobs (afterSecond.history 7).outside
          index := by
  have henters :
      EntersCompiled afterFirst.analyzer afterSecond.analyzer 7 := by
    rw [EntersCompiled]
    decide +kernel
  have hfirst : Reachable (Tracked.step singleEventKnobs) .initial
      afterFirst := Reachable.next .start rfl
  exact ⟨henters,
    ((entersCompiled_iff_blockSpec hfirst rfl 7).1.mp henters).2⟩

end TbjitAlloc.Analysis
