import TbjitAlloc.Analysis.CountTable
import TbjitAlloc.Analysis.PostWindow

/-!
# Decisions that do not see the order of sizes

Two summaries of a site whose windows hold the same sizes in different orders
make the same decisions.  Histograms of such windows differ in their layout,
and beyond their capacity in which sizes they track; a comparison with one that
overflowed fails, so no decision reads what it tracks.
-/

namespace TbjitAlloc.Analysis

open TbjitAlloc.Blocks
open TbjitAlloc.Codegen
open ExactHistogram (Holds holds_ofSizes trackable trackable_perm dominantMode)

/-! ## Histograms of reordered sizes -/

/-- Histograms of the same sizes in two orders. -/
def Alike (left right : ExactHistogram) : Prop :=
  ∃ sizes sizes', sizes.Perm sizes' ∧ left = .ofSizes sizes ∧
    right = .ofSizes sizes'

theorem alike_ofSizes {sizes sizes' : List ℕ} (hperm : sizes.Perm sizes') :
    Alike (.ofSizes sizes) (.ofSizes sizes') :=
  ⟨sizes, sizes', hperm, rfl, rfl⟩

theorem alike_empty : Alike .empty .empty := alike_ofSizes (.refl [])

section Reading

variable {left right left' right' : ExactHistogram}

theorem Alike.total_eq (halike : Alike left right) :
    left.total = right.total := by
  obtain ⟨sizes, sizes', hperm, rfl, rfl⟩ := halike
  rw [(holds_ofSizes sizes).total, (holds_ofSizes sizes').total,
    (trackable_perm hperm).length_eq]

theorem Alike.overflow_eq (halike : Alike left right) :
    left.overflow = right.overflow := by
  obtain ⟨sizes, sizes', hperm, rfl, rfl⟩ := halike
  rw [(holds_ofSizes sizes).overflow, (holds_ofSizes sizes').overflow,
    (eraseDups_perm (trackable_perm hperm)).length_eq]

/-- Without overflow the tables differ in their layout only. -/
theorem Alike.entries_perm (halike : Alike left right)
    (hroom : left.overflow = false) : left.entries.Perm right.entries := by
  obtain ⟨sizes, sizes', hperm, rfl, rfl⟩ := halike
  rw [(holds_ofSizes sizes).overflow, decide_eq_false_iff_not, not_lt] at hroom
  rw [(holds_ofSizes sizes).entries, (holds_ofSizes sizes').entries]
  exact countTable_perm (trackable_perm hperm) hroom

theorem Alike.nodup (halike : Alike left right) :
    (left.entries.map Mode.size).Nodup := by
  obtain ⟨sizes, sizes', hperm, rfl, rfl⟩ := halike
  rw [(holds_ofSizes sizes).entries]
  exact nodup_countTable _ _

theorem Alike.sortedModes_eq (halike : Alike left right)
    (hroom : left.overflow = false) : left.sortedModes = right.sortedModes :=
  Ranking.ranked_eq_of_perm (.of_nodup halike.nodup)
    (halike.entries_perm hroom)

/-- The comparison does not see the order. -/
theorem ksStable_congr (alpha : ℚ) (hleft : Alike left left')
    (hright : Alike right right') :
    ksStable alpha left right = ksStable alpha left' right' := by
  rw [ksStable, ksStable, ← hleft.total_eq, ← hright.total_eq,
    ← hleft.overflow_eq, ← hright.overflow_eq]
  split
  · rfl
  · split
    · rfl
    · next hroom =>
        rw [Bool.or_eq_true, not_or, Bool.not_eq_true, Bool.not_eq_true]
          at hroom
        rw [ksStatistic, ksStatistic, hleft.sortedModes_eq hroom.1,
          hright.sortedModes_eq hroom.2, hleft.total_eq, hright.total_eq,
          (hleft.entries_perm hroom.1).length_eq,
          (hright.entries_perm hroom.2).length_eq]

/-- A comparison that succeeds is between complete tables. -/
theorem overflow_of_ksStable {alpha : ℚ}
    (hstable : ksStable alpha left right = true) : left.overflow = false := by
  rw [ksStable] at hstable
  split at hstable
  · exact absurd hstable Bool.false_ne_true
  · split at hstable
    · exact absurd hstable Bool.false_ne_true
    · next hroom =>
        rw [Bool.or_eq_true, not_or, Bool.not_eq_true] at hroom
        exact hroom.1

/-- What a site reads of the window it specializes on. -/
structure ReadAlike (left right : ExactHistogram) : Prop where
  classes : left.topKModes multiClassMax (9 / 10) =
    right.topKModes multiClassMax (9 / 10)
  monomorphic : left.isMonomorphic (95 / 100) = right.isMonomorphic (95 / 100)
  dominantSize : left.dominantSize = right.dominantSize

theorem Alike.readAlike (halike : Alike left right)
    (hroom : left.overflow = false) : ReadAlike left right := by
  have hperm := halike.entries_perm hroom
  have htotal := halike.total_eq
  have hdominant := dominantMode_eq_of_perm hperm
  refine ⟨?_, ?_, ?_⟩
  · rw [ExactHistogram.topKModes, ExactHistogram.topKModes, htotal,
      selectModes_eq_of_perm halike.nodup hperm]
  · rw [ExactHistogram.isMonomorphic, ExactHistogram.isMonomorphic, htotal,
      hdominant]
  · rw [ExactHistogram.dominantSize, ExactHistogram.dominantSize, hdominant]

end Reading

/-! ## Summaries that differ in their windows -/

/-- The same summary with other histograms. -/
def CallSiteSummary.redraw (summary : CallSiteSummary)
    (windows : Fin 2 → SizeWindow) (baseline : ExactHistogram)
    (postWindow : SizeWindow) : CallSiteSummary :=
  { summary with
    windows := windows
    baseline := baseline
    postWindow := postWindow }

/-- `knobs` with the source's comparison at a level. -/
def Knobs.atLevel (knobs : Knobs) (alpha : ℚ) : Knobs :=
  { knobs with ksStable := Analysis.ksStable alpha }

/-- Windows of as many sizes, in different orders. -/
structure AlikeWindow (left right : SizeWindow) : Prop where
  count : left.count = right.count
  hist : Alike left.hist right.hist

theorem alikeWindow_ofSizes {sizes sizes' : List ℕ}
    (hperm : sizes.Perm sizes') :
    AlikeWindow (.ofSizes sizes) (.ofSizes sizes') :=
  ⟨hperm.length_eq, alike_ofSizes hperm⟩

/-- Two summaries of a site that has been sent `sizes` and `sizes'`, blocks of
which agree up to order: all but the histograms is the same, and the window in
use holds the sizes since the last block. -/
structure OrderCoupled (windowSize : ℕ) (sizes sizes' : List ℕ)
    (left right : CallSiteSummary) : Prop where
  redrawn : right = left.redraw right.windows right.baseline right.postWindow
  baseline : Alike left.baseline right.baseline
  previous : left.phase ≠ .compiled →
    AlikeWindow (left.windows (1 - left.active))
      (right.windows (1 - left.active))
  outside : left.phase ≠ .compiled →
    left.windows left.active = .ofSizes (blockTail windowSize sizes) ∧
      right.windows left.active = .ofSizes (blockTail windowSize sizes') ∧
      left.postWindow = .empty ∧ right.postWindow = .empty
  inside : left.phase = .compiled →
    left.postWindow = .ofSizes (blockTail windowSize sizes) ∧
      right.postWindow = .ofSizes (blockTail windowSize sizes')

theorem orderCoupled_fresh (windowSize id : ℕ) :
    OrderCoupled windowSize [] [] (.fresh id) (.fresh id) where
  redrawn := rfl
  baseline := alike_empty
  previous _ := alikeWindow_ofSizes (.refl [])
  outside _ := by
    rw [blockTail_nil]
    exact ⟨rfl, rfl, rfl, rfl⟩
  inside h := Phase.noConfusion h

/-! ## The decisions -/

section Decisions

variable {knobs : Knobs} {alpha : ℚ} {compile : RoutineSpec → Option ℕ}
variable {summary : CallSiteSummary} {windows : Fin 2 → SizeWindow}
variable {baseline : ExactHistogram} {postWindow : SizeWindow}

theorem prespecStable_redraw
    (hactive : Alike summary.activeHist (windows summary.active).hist)
    (hprevious : AlikeWindow (summary.windows (1 - summary.active))
      (windows (1 - summary.active))) :
    (summary.redraw windows baseline postWindow).prespecStable
        (knobs.atLevel alpha) =
      summary.prespecStable (knobs.atLevel alpha) := by
  have hkept : (summary.redraw windows baseline postWindow).prespecTest =
      if 0 < (windows (1 - summary.active)).count then
        some ((windows summary.active).hist,
          (windows (1 - summary.active)).hist)
      else none := rfl
  rw [CallSiteSummary.prespecStable, CallSiteSummary.prespecStable, hkept,
    CallSiteSummary.prespecTest, hprevious.count]
  by_cases hcount : 0 < (windows (1 - summary.active)).count
  · rw [if_pos hcount, if_pos hcount]
    exact (ksStable_congr alpha hactive hprevious.hist).symm
  · rw [if_neg hcount, if_neg hcount]

/-- A stable comparison leaves the active window without overflow. -/
theorem overflow_of_prespecStable
    (hstable : summary.prespecStable (knobs.atLevel alpha) = true) :
    summary.activeHist.overflow = false := by
  rw [CallSiteSummary.prespecStable, CallSiteSummary.prespecTest] at hstable
  by_cases hcount : 0 < (summary.windows (1 - summary.active)).count
  · rw [if_pos hcount] at hstable
    exact overflow_of_ksStable hstable
  · rw [if_neg hcount] at hstable
    exact absurd hstable Bool.false_ne_true

/-- The choice of a strategy reads the window in three ways. -/
theorem pickStrategy_congr {left right : CallSiteSummary} (forced : Strategy)
    (hpaired : left.pairedPattern = right.pairedPattern)
    (hpc : left.pcPattern = right.pcPattern)
    (hlifetime : left.lifetime = right.lifetime)
    (hclasses : left.classes = right.classes)
    (hread : ReadAlike left.activeHist right.activeHist) :
    left.pickStrategy forced = right.pickStrategy forced := by
  rw [CallSiteSummary.pickStrategy, CallSiteSummary.pickStrategy, hpaired, hpc,
    hlifetime, hclasses, hread.monomorphic, hread.dominantSize]

theorem learn_redraw
    (hread : ReadAlike summary.activeHist (windows summary.active).hist) :
    (summary.redraw windows baseline postWindow).learn knobs =
      (summary.learn knobs).redraw windows (windows summary.active).hist
        postWindow := by
  let learned := { summary with
    baseline := summary.activeHist
    lifetime := summary.learnedLifetime
    classes := summary.learnedClasses }
  have hclasses :
      (summary.redraw windows baseline postWindow).learnedClasses =
        summary.learnedClasses := hread.classes.symm
  have hpick : (learned.redraw windows (windows summary.active).hist
      postWindow).pickStrategy knobs.forced =
        learned.pickStrategy knobs.forced :=
    (@pickStrategy_congr learned (learned.redraw windows _ postWindow)
      knobs.forced rfl rfl rfl rfl hread).symm
  rw [CallSiteSummary.learn, CallSiteSummary.learn]
  dsimp only
  rw [hclasses]
  exact congrArg (fun candidate => CallSiteSummary.redraw
    { learned with
      candidate := candidate
      phase := .compiled
      firstCompileEvents :=
        if learned.firstCompileEvents = 0 then learned.eventCount
        else learned.firstCompileEvents } windows
    (windows summary.active).hist postWindow) hpick

theorem specialize_redraw
    (hread : ReadAlike summary.activeHist (windows summary.active).hist) :
    (summary.redraw windows baseline postWindow).specialize knobs compile =
      ((summary.specialize knobs compile).1.redraw windows
          (windows summary.active).hist postWindow,
        (summary.specialize knobs compile).2) := by
  have hspec : ((summary.redraw windows baseline postWindow).learn
      knobs).routineSpec = (summary.learn knobs).routineSpec := by
    rw [learn_redraw hread, CallSiteSummary.routineSpec,
      CallSiteSummary.routineSpec]
    have hdominant : (windows summary.active).hist.dominantSize =
        summary.activeHist.dominantSize := hread.dominantSize.symm
    exact congrArg (fun size => RoutineSpec.mk _ _ size _ _) hdominant
  rw [CallSiteSummary.specialize, CallSiteSummary.specialize]
  dsimp only
  rw [hspec, learn_redraw hread]
  rfl

/-- `advance_prespec` compiles. -/
def Specializes (knobs : Knobs) (summary : CallSiteSummary) : Prop :=
  summary.prespecStable knobs = true ∧
    knobs.stableWindows ≤ summary.stableWindows + 1 ∧
    (summary.blacklisted || knobs.traceOnly) = false

theorem advancePrespec_of_specializes (hspecializes : Specializes knobs summary) :
    let result := CallSiteSummary.specialize knobs compile
      { summary with stableWindows := summary.stableWindows + 1 }
    summary.advancePrespec knobs compile =
      (result.1, { result.2 with prespecTest := summary.prespecTest }) := by
  obtain ⟨hstable, hreached, hallowed⟩ := hspecializes
  rw [CallSiteSummary.advancePrespec, if_pos hstable]
  dsimp only
  rw [if_pos hreached, if_neg (by rw [hallowed]; exact Bool.false_ne_true)]

/-- The streak after a window on which the site does not specialize. -/
def nextStreak (knobs : Knobs) (summary : CallSiteSummary) : ℕ :=
  if summary.prespecStable knobs then
    if knobs.stableWindows ≤ summary.stableWindows + 1 then 0
    else summary.stableWindows + 1
  else 0

theorem advancePrespec_of_not_specializes
    (hspecializes : ¬Specializes knobs summary) :
    summary.advancePrespec knobs compile =
      (CallSiteSummary.rotate
          { summary with stableWindows := nextStreak knobs summary },
        { prespecTest := summary.prespecTest }) := by
  rw [CallSiteSummary.advancePrespec, nextStreak]
  by_cases hstable : summary.prespecStable knobs = true
  · rw [if_pos hstable, if_pos hstable]
    dsimp only
    by_cases hreached : knobs.stableWindows ≤ summary.stableWindows + 1
    · have hexcluded : (summary.blacklisted || knobs.traceOnly) = true := by
        by_contra hallowed
        exact hspecializes
          ⟨hstable, hreached, Bool.eq_false_iff.mpr hallowed⟩
      rw [if_pos hreached, if_pos hexcluded, if_pos hreached]
    · rw [if_neg hreached, if_neg hreached]
  · rw [if_neg hstable, if_neg hstable]

/-- A full window: both sites rotate alike, or specialize alike. -/
theorem advancePrespec_redraw
    (hactive : Alike summary.activeHist (windows summary.active).hist)
    (hprevious : AlikeWindow (summary.windows (1 - summary.active))
      (windows (1 - summary.active))) :
    let next := summary.advancePrespec (knobs.atLevel alpha) compile
    let other := (summary.redraw windows baseline postWindow).advancePrespec
      (knobs.atLevel alpha) compile
    next.2.compiled = other.2.compiled ∧
      ((∃ stable,
          next.1 = CallSiteSummary.rotate
            { summary with stableWindows := stable } ∧
          other.1 = next.1.redraw
            (Function.update windows (1 - summary.active) .empty) baseline
            postWindow) ∨
        next.1.phase = .compiled ∧ next.1.postWindow = summary.postWindow ∧
          next.1.baseline = summary.activeHist ∧
          other.1 = next.1.redraw windows (windows summary.active).hist
            postWindow) := by
  have hsame := @prespecStable_redraw knobs alpha summary windows baseline
    postWindow hactive hprevious
  have hboth : Specializes (knobs.atLevel alpha)
      (summary.redraw windows baseline postWindow) ↔
        Specializes (knobs.atLevel alpha) summary := by
    rw [Specializes, hsame]
    rfl
  intro next other
  by_cases hspecializes : Specializes (knobs.atLevel alpha) summary
  · have hread := hactive.readAlike (overflow_of_prespecStable hspecializes.1)
    have hspecialize := @specialize_redraw (knobs.atLevel alpha) compile
      { summary with stableWindows := summary.stableWindows + 1 } windows
      baseline postWindow hread
    simp only [next, other, advancePrespec_of_specializes hspecializes,
      advancePrespec_of_specializes (hboth.mpr hspecializes)]
    refine ⟨?_, .inr ⟨rfl, rfl, rfl, ?_⟩⟩
    · exact (congrArg (fun result => result.2.compiled) hspecialize).symm
    · exact congrArg Prod.fst hspecialize
  · have hstreak : nextStreak (knobs.atLevel alpha)
        (summary.redraw windows baseline postWindow) =
          nextStreak (knobs.atLevel alpha) summary := by
      rw [nextStreak, hsame]
      rfl
    simp only [next, other, advancePrespec_of_not_specializes hspecializes,
      advancePrespec_of_not_specializes (hboth.not.mpr hspecializes), hstreak]
    exact ⟨trivial, .inl ⟨_, rfl, rfl⟩⟩

end Decisions

/-! ## One allocation -/

section Allocations

variable {knobs : Knobs} {alpha : ℚ} {compile : RoutineSpec → Option ℕ}
variable {left right : CallSiteSummary} {sizes sizes' : List ℕ}

theorem OrderCoupled.recordFree {windowSize : ℕ}
    (hcoupled : OrderCoupled windowSize sizes sizes' left right)
    (managed : Bool) (event : AllocEvent) :
    OrderCoupled windowSize sizes sizes' (left.recordFree managed event)
      (right.recordFree managed event) where
  redrawn := by
    rw [hcoupled.redrawn]
    rfl
  baseline := hcoupled.baseline
  previous := hcoupled.previous
  outside := hcoupled.outside
  inside := hcoupled.inside

/-- Events of one allocation, of whatever size. -/
def SameAllocation (event event' : AllocEvent) : Prop :=
  event.threadId = event'.threadId ∧ event.ptr = event'.ptr

theorem recordAlloc_congr {event event' : AllocEvent}
    (hsame : SameAllocation event event') (summary : CallSiteSummary) :
    summary.recordAlloc event' = summary.recordAlloc event := by
  rw [CallSiteSummary.recordAlloc, CallSiteSummary.recordAlloc, hsame.1,
    hsame.2]

/-- The sizes sent so far and one more each: the new ones complete blocks with
the same sizes, or none. -/
structure Continues (windowSize : ℕ) (sizes sizes' : List ℕ)
    (size size' : ℕ) : Prop where
  length : sizes.length = sizes'.length
  block : (blockTail windowSize sizes).length + 1 = windowSize →
    (blockTail windowSize sizes ++ [size]).Perm
      (blockTail windowSize sizes' ++ [size'])

theorem Continues.tail_length {windowSize size size' : ℕ}
    (hcontinues : Continues windowSize sizes sizes' size size') :
    (blockTail windowSize sizes').length =
      (blockTail windowSize sizes).length := by
  rw [blockTail_length, blockTail_length, hcontinues.length]

theorem full_iff {window : SizeWindow} {windowSize size : ℕ} {tail : List ℕ}
    (hwindow : window = .ofSizes (tail ++ [size]))
    (htail : tail.length < windowSize) :
    window.full windowSize = true ↔ tail.length + 1 = windowSize := by
  rw [SizeWindow.full, hwindow, SizeWindow.ofSizes_count, List.length_append,
    List.length_singleton, decide_eq_true_eq]
  omega

/-- Both sites rotate. -/
theorem orderCoupled_rotate {windowSize stable : ℕ} {summary : CallSiteSummary}
    {windows : Fin 2 → SizeWindow} {baseline : ExactHistogram}
    (hphase : summary.phase ≠ .compiled)
    (hbaseline : Alike summary.baseline baseline)
    (hactive : AlikeWindow (summary.windows summary.active)
      (windows summary.active))
    (hpost : summary.postWindow = .empty)
    (hsizes : blockTail windowSize sizes = [])
    (hsizes' : blockTail windowSize sizes' = []) :
    let next := CallSiteSummary.rotate { summary with stableWindows := stable }
    OrderCoupled windowSize sizes sizes' next
      (next.redraw (Function.update windows (1 - summary.active) .empty)
        baseline .empty) where
  redrawn := rfl
  baseline := hbaseline
  previous _ := by
    rw [CallSiteSummary.rotate_other]
    change AlikeWindow _ (Function.update windows (1 - summary.active) .empty
      (1 - (1 - summary.active)))
    rw [CallSiteSummary.other_other,
      Function.update_of_ne (CallSiteSummary.other_ne _).symm]
    exact hactive
  outside _ := by
    rw [CallSiteSummary.rotate_active, hsizes, hsizes']
    exact ⟨rfl, Function.update_self _ _ _, hpost, rfl⟩
  inside hcompiled := absurd hcompiled hphase

/-- Outside the Compiled phase. -/
theorem OrderCoupled.processAlloc_outside {event event' : AllocEvent}
    (hcoupled : OrderCoupled knobs.windowSize sizes sizes' left right)
    (hphase : left.phase ≠ .compiled) (hsame : SameAllocation event event')
    (hcontinues : Continues knobs.windowSize sizes sizes' event.size
      event'.size) :
    let next := left.processAlloc (knobs.atLevel alpha) compile event
    let other := right.processAlloc (knobs.atLevel alpha) compile event'
    OrderCoupled knobs.windowSize (sizes ++ [event.size])
        (sizes' ++ [event'.size]) next.1 other.1 ∧
      next.2.compiled = other.2.compiled := by
  obtain ⟨hactive, hactive', hpost, hpost'⟩ := hcoupled.outside hphase
  have hredrawn := hcoupled.redrawn
  have hphase' : right.phase ≠ .compiled := by
    rw [hredrawn]
    exact hphase
  let recorded := (left.recordAlloc event).recordActive event.size
  let windows := Function.update right.windows left.active
    ((right.windows left.active).record event'.size)
  have hrecorded : (right.recordAlloc event').recordActive event'.size =
      recorded.redraw windows right.baseline .empty := by
    rw [recordAlloc_congr hsame, hredrawn, hpost']
    rfl
  have hnotCompiled : recorded.phase ≠ .compiled := by
    have hpreSpec : recorded.phase = .preSpec := recordAlloc_phase hphase event
    rw [hpreSpec]
    exact Phase.noConfusion
  have hwindow : recorded.windows recorded.active =
      .ofSizes (blockTail knobs.windowSize sizes ++ [event.size]) := by
    rw [← SizeWindow.record_ofSizes, ← hactive]
    exact CallSiteSummary.recordActive_active (left.recordAlloc event) _
  have hwindow' : windows recorded.active =
      .ofSizes (blockTail knobs.windowSize sizes' ++ [event'.size]) := by
    rw [← SizeWindow.record_ofSizes, ← hactive']
    exact Function.update_self _ _ _
  have hprevious : AlikeWindow (recorded.windows (1 - recorded.active))
      (windows (1 - recorded.active)) := by
    have hleft : recorded.windows (1 - recorded.active) =
        left.windows (1 - left.active) :=
      CallSiteSummary.recordActive_other (left.recordAlloc event) _
    have hright : windows (1 - recorded.active) =
        right.windows (1 - left.active) :=
      Function.update_of_ne (CallSiteSummary.other_ne _) _ _
    rw [hleft, hright]
    exact hcoupled.previous hphase
  have htail := hcontinues.tail_length
  have hlt := blockTail_length_lt knobs sizes
  have hfull_iff := full_iff hwindow hlt
  have hfull_iff' := full_iff hwindow' (htail ▸ hlt)
  rw [htail] at hfull_iff'
  intro next other
  have hother : other =
      if (windows recorded.active).full knobs.windowSize then
        (recorded.redraw windows right.baseline .empty).advancePrespec
          (knobs.atLevel alpha) compile
      else (recorded.redraw windows right.baseline .empty, { }) := by
    simp only [other, processAlloc_of_outside hphase', hrecorded]
    rfl
  by_cases hfull : (blockTail knobs.windowSize sizes).length + 1 =
    knobs.windowSize
  · have hnext : next =
        recorded.advancePrespec (knobs.atLevel alpha) compile :=
      (processAlloc_of_outside hphase event).trans
        (if_pos (hfull_iff.mpr hfull))
    rw [if_pos (hfull_iff'.mpr hfull)] at hother
    have hempty := blockTail_append_of_full event.size hfull
    have hempty' := blockTail_append_of_full event'.size (htail ▸ hfull)
    have halike : AlikeWindow (recorded.windows recorded.active)
        (windows recorded.active) := by
      rw [hwindow, hwindow']
      exact alikeWindow_ofSizes (hcontinues.block hfull)
    obtain ⟨hcalls, ⟨stable, hrotated, hrotated'⟩ |
      ⟨hcompiled, hkept, hlearned, hlearned'⟩⟩ :=
        @advancePrespec_redraw knobs alpha compile recorded windows
          right.baseline .empty halike.hist hprevious
    · rw [hnext, hother, hrotated', hrotated]
      exact ⟨orderCoupled_rotate hnotCompiled hcoupled.baseline halike hpost
        hempty hempty', hcalls⟩
    · rw [hnext, hother, hlearned']
      refine ⟨⟨rfl, ?_, fun hnot => absurd hcompiled hnot,
        fun hnot => absurd hcompiled hnot, fun _ => ?_⟩, hcalls⟩
      · rw [hlearned]
        exact halike.hist
      · rw [hkept, hempty, hempty']
        exact ⟨hpost, rfl⟩
  · have hroom : (blockTail knobs.windowSize sizes).length + 1 <
        knobs.windowSize := by omega
    have hnext : next = (recorded, { }) :=
      (processAlloc_of_outside hphase event).trans
        (if_neg (hfull_iff.not.mpr hfull))
    rw [if_neg (hfull_iff'.not.mpr hfull)] at hother
    rw [hnext, hother]
    refine ⟨⟨rfl, hcoupled.baseline, fun _ => hprevious, fun _ => ?_,
      fun hcompiled => absurd hcompiled hnotCompiled⟩, rfl⟩
    rw [blockTail_append_of_room event.size hroom,
      blockTail_append_of_room event'.size (htail ▸ hroom)]
    exact ⟨hwindow, hwindow', hpost, rfl⟩

/-- A full window of a specialized site: both sites stay, or both restart. -/
theorem checkPostspec_redraw {summary : CallSiteSummary}
    {windows : Fin 2 → SizeWindow} {baseline : ExactHistogram}
    {postWindow : SizeWindow}
    (hwindow : Alike summary.postWindow.hist postWindow.hist)
    (hbaseline : Alike summary.baseline baseline) :
    let next := summary.checkPostspec (knobs.atLevel alpha)
    let other := (summary.redraw windows baseline postWindow).checkPostspec
      (knobs.atLevel alpha)
    next.2.compiled = other.2.compiled ∧
      (next.1 = { summary with postWindow := .empty } ∧
          other.1 = next.1.redraw windows baseline .empty ∨
        next.1 = { summary.restartWindows with
          phase := .deopt
          deoptReason := .sizeDrift
          postWindow := .empty } ∧
          other.1 = next.1.redraw (fun _ => .empty) baseline .empty) := by
  intro next other
  obtain ⟨hnext, hcalls⟩ := @checkPostspec_eq (knobs.atLevel alpha) summary
  obtain ⟨hother, hcalls'⟩ := @checkPostspec_eq (knobs.atLevel alpha)
    (summary.redraw windows baseline postWindow)
  refine ⟨hcalls.trans hcalls'.symm, ?_⟩
  have hsame : ((knobs.atLevel alpha).oracleMode = true ∨
      ksStable alpha postWindow.hist baseline = true) ↔
      ((knobs.atLevel alpha).oracleMode = true ∨
        ksStable alpha summary.postWindow.hist summary.baseline = true) := by
    rw [ksStable_congr alpha hwindow hbaseline]
  by_cases hstays : (knobs.atLevel alpha).oracleMode = true ∨
      ksStable alpha summary.postWindow.hist summary.baseline = true
  · have hnext : next.1 = { summary with postWindow := .empty } :=
      hnext.trans (if_pos hstays)
    exact .inl ⟨hnext, (hother.trans (if_pos (hsame.mpr hstays))).trans
      (congrArg (fun kept => kept.redraw windows baseline .empty) hnext).symm⟩
  · have hnext := hnext.trans (if_neg hstays)
    refine .inr ⟨hnext, (hother.trans (if_neg (hsame.not.mpr hstays))).trans ?_⟩
    exact (congrArg (fun kept => kept.redraw (fun _ => .empty) baseline
      SizeWindow.empty) hnext).symm

/-- In the Compiled phase. -/
theorem OrderCoupled.processAlloc_inside {event event' : AllocEvent}
    (hcoupled : OrderCoupled knobs.windowSize sizes sizes' left right)
    (hphase : left.phase = .compiled) (hsame : SameAllocation event event')
    (hcontinues : Continues knobs.windowSize sizes sizes' event.size
      event'.size) :
    let next := left.processAlloc (knobs.atLevel alpha) compile event
    let other := right.processAlloc (knobs.atLevel alpha) compile event'
    OrderCoupled knobs.windowSize (sizes ++ [event.size])
        (sizes' ++ [event'.size]) next.1 other.1 ∧
      next.2.compiled = other.2.compiled := by
  obtain ⟨hpost, hpost'⟩ := hcoupled.inside hphase
  have hredrawn := hcoupled.redrawn
  have hphase' : right.phase = .compiled := by
    rw [hredrawn]
    exact hphase
  let recorded := (left.recordAlloc event).recordPost event.size
  let window := right.postWindow.record event'.size
  have hrecorded : (right.recordAlloc event').recordPost event'.size =
      recorded.redraw right.windows right.baseline window := by
    rw [recordAlloc_congr hsame, hredrawn]
    rfl
  have hcompiled : recorded.phase = .compiled :=
    recordAlloc_compiled hphase event
  have hwindow : recorded.postWindow =
      .ofSizes (blockTail knobs.windowSize sizes ++ [event.size]) := by
    rw [← SizeWindow.record_ofSizes, ← hpost]
    rfl
  have hwindow' : window =
      .ofSizes (blockTail knobs.windowSize sizes' ++ [event'.size]) := by
    rw [← SizeWindow.record_ofSizes, ← hpost']
  have htail := hcontinues.tail_length
  have hlt := blockTail_length_lt knobs sizes
  intro next other
  have hnext : next =
      if knobs.windowSize ≤ (blockTail knobs.windowSize sizes).length + 1 then
        recorded.checkPostspec (knobs.atLevel alpha)
      else (recorded, { }) := by
    simp only [next, processAlloc_of_compiled hphase, hpost,
      SizeWindow.ofSizes_count]
    rfl
  have hother : other =
      if knobs.windowSize ≤ (blockTail knobs.windowSize sizes).length + 1 then
        (recorded.redraw right.windows right.baseline window).checkPostspec
          (knobs.atLevel alpha)
      else (recorded.redraw right.windows right.baseline window, { }) := by
    simp only [other, processAlloc_of_compiled hphase', hpost',
      SizeWindow.ofSizes_count, hrecorded, htail]
    rfl
  by_cases hfull : (blockTail knobs.windowSize sizes).length + 1 =
    knobs.windowSize
  · rw [if_pos hfull.ge] at hnext hother
    have hempty := blockTail_append_of_full event.size hfull
    have hempty' := blockTail_append_of_full event'.size (htail ▸ hfull)
    have halike : Alike recorded.postWindow.hist window.hist := by
      rw [hwindow, hwindow']
      exact alike_ofSizes (hcontinues.block hfull)
    obtain ⟨hcalls, ⟨hstays, hstays'⟩ | ⟨hdrifts, hdrifts'⟩⟩ :=
      @checkPostspec_redraw knobs alpha recorded right.windows right.baseline
        window halike hcoupled.baseline
    · rw [hnext, hother, hstays', hstays]
      refine ⟨⟨rfl, hcoupled.baseline, fun hnot => absurd hcompiled hnot,
        fun hnot => absurd hcompiled hnot, fun _ => ?_⟩, hcalls⟩
      rw [hempty, hempty']
      exact ⟨rfl, rfl⟩
    · rw [hnext, hother, hdrifts', hdrifts]
      refine ⟨⟨rfl, hcoupled.baseline, fun _ => alikeWindow_ofSizes (.refl []),
        fun _ => ?_, fun h => Phase.noConfusion h⟩, hcalls⟩
      rw [hempty, hempty']
      exact ⟨rfl, rfl, rfl, rfl⟩
  · have hroom : (blockTail knobs.windowSize sizes).length + 1 <
        knobs.windowSize := by omega
    rw [if_neg (by omega)] at hnext hother
    rw [hnext, hother]
    refine ⟨⟨rfl, hcoupled.baseline, fun hnot => absurd hcompiled hnot,
      fun hnot => absurd hcompiled hnot, fun _ => ?_⟩, rfl⟩
    rw [blockTail_append_of_room event.size hroom,
      blockTail_append_of_room event'.size (htail ▸ hroom)]
    exact ⟨hwindow, hwindow'⟩

/-- An allocation of either size leaves the sites coupled. -/
theorem OrderCoupled.processAlloc {event event' : AllocEvent}
    (hcoupled : OrderCoupled knobs.windowSize sizes sizes' left right)
    (hsame : SameAllocation event event')
    (hcontinues : Continues knobs.windowSize sizes sizes' event.size
      event'.size) :
    let next := left.processAlloc (knobs.atLevel alpha) compile event
    let other := right.processAlloc (knobs.atLevel alpha) compile event'
    OrderCoupled knobs.windowSize (sizes ++ [event.size])
        (sizes' ++ [event'.size]) next.1 other.1 ∧
      next.2.compiled = other.2.compiled := by
  by_cases hphase : left.phase = .compiled
  · exact hcoupled.processAlloc_inside hphase hsame hcontinues
  · exact hcoupled.processAlloc_outside hphase hsame hcontinues

end Allocations

end TbjitAlloc.Analysis
