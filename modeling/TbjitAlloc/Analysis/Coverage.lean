import TbjitAlloc.Analysis.DenseRefinement
import TbjitAlloc.Analysis.OrderBlind
import TbjitAlloc.Codegen.Alignment

/-!
# What the guard of a new routine covers

A site specializes on the window it has just filled.  The routine serves one
size, or the classes learned from the window, and deoptimizes on any other.  How
many of the window's events it would have served depends on how many of the most
frequent sizes it takes to cover nine tenths of them, against how many the
chosen strategy can serve; the picker compares the two only where it looks for a
monomorphic window.
-/

namespace TbjitAlloc.Codegen

open TbjitAlloc.Segment

/-- A request of another size deoptimizes, whatever the state. -/
theorem routine_of_not_served {layout : SegmentLayout} {spec : RoutineSpec}
    {request : ℕ} (hrequest : request ∉ servedSizes spec) (slot tid base : ℕ)
    (heap : Heap) :
    routine layout spec slot tid request base heap = some (heap, .deopt) := by
  cases hstrategy : spec.strategy with
  | multiSizeFreeList =>
      have hclass : findClass spec.classSizes spec.classCount request = none := by
        rw [findClass, List.find?_eq_none]
        intro i hi hsize
        rw [decide_eq_true_eq] at hsize
        refine hrequest ?_
        rw [servedSizes, if_pos hstrategy, ← hsize]
        exact List.mem_map_of_mem hi
      simp only [routine, hstrategy, multiRoutine, hclass]
  | _ =>
      have hsize : request ≠ spec.size := by
        rintro rfl
        simp [servedSizes, hstrategy] at hrequest
      simp only [routine, hstrategy, bumpRoutine, pcRoutine, arenaRoutine,
        freelistRoutine, if_pos hsize]

end TbjitAlloc.Codegen

namespace TbjitAlloc.Analysis

open ExactHistogram
open TbjitAlloc.Codegen
open TbjitAlloc.Ranking
open Mode (rank separates_rank)

/-- The routine would have served nine tenths of the events counted in a
window. -/
def GuardCovers (spec : RoutineSpec) (sizes : List ℕ) : Prop :=
  coverage (9 / 10) (trackable sizes).length ≤
    (trackable sizes).countP fun size => size ∈ servedSizes spec

instance (spec : RoutineSpec) (sizes : List ℕ) :
    Decidable (GuardCovers spec sizes) :=
  inferInstanceAs (Decidable (_ ≤ _))

/-- How many of the most frequent sizes it takes to cover nine tenths. -/
def classesNeeded (hist : ExactHistogram) : ℕ :=
  (hist.topKModes cap (9 / 10)).length

/-- How many sizes the strategy of a site can serve: the patterns of frees are
looked at first, and lead to a routine for one size. -/
def classesServed (summary : CallSiteSummary) : ℕ :=
  if summary.pairedPattern || summary.pcPattern then 1 else multiClassMax

/-! ## Counting a window -/

section Counts

variable {sizes : List ℕ} {modes : List Mode}

theorem countP_mem_cons {size : ℕ} {others : List ℕ} (hnew : size ∉ others) :
    sizes.countP (fun other => other ∈ size :: others) =
      sizes.count size + sizes.countP fun other => other ∈ others := by
  induction sizes with
  | nil => rfl
  | cons first sizes ih =>
      rw [List.countP_cons, List.count_cons, List.countP_cons, ih]
      by_cases heq : first = size
      · subst heq
        simp [hnew]
        omega
      · simp [heq, Nat.add_assoc]

/-- The counts of some sizes add up to the events of these sizes. -/
theorem sum_count (hnodup : (modes.map Mode.size).Nodup)
    (hcount : ∀ mode ∈ modes, mode.count = sizes.count mode.size) :
    (modes.map Mode.count).sum =
      sizes.countP fun size => size ∈ modes.map Mode.size := by
  induction modes with
  | nil => simp
  | cons mode modes ih =>
      rw [List.forall_mem_cons] at hcount
      rw [List.map_cons, List.nodup_cons] at hnodup
      rw [List.map_cons, List.sum_cons, hcount.1, ih hnodup.2 hcount.2,
        List.map_cons, countP_mem_cons hnodup.1]

/-- The modes of a window that has not overflowed, most frequent first. -/
def windowModes (sizes : List ℕ) : List Mode :=
  ranked rank (ofSizes sizes).entries

theorem mem_windowModes {mode : Mode} :
    mode ∈ windowModes sizes ↔
      mode ∈ countTable cap (trackable sizes) := by
  rw [windowModes, (ranked_perm _ _).mem_iff, (holds_ofSizes sizes).entries]

theorem count_of_mem_windowModes {mode : Mode}
    (hmode : mode ∈ windowModes sizes) :
    mode.count = (trackable sizes).count mode.size := by
  rw [mem_windowModes, countTable, List.mem_map] at hmode
  obtain ⟨size, -, rfl⟩ := hmode
  rfl

theorem nodup_windowModes (sizes : List ℕ) :
    ((windowModes sizes).map Mode.size).Nodup := by
  have hperm := (ranked_perm rank (ofSizes sizes).entries).map Mode.size
  rw [windowModes, hperm.nodup_iff, (holds_ofSizes sizes).entries]
  exact nodup_countTable cap (trackable sizes)

/-- Without an overflow every event is counted in some mode. -/
theorem sum_windowModes (hroom : (ofSizes sizes).overflow = false) :
    ((windowModes sizes).map Mode.count).sum = (trackable sizes).length := by
  rw [sum_count (nodup_windowModes sizes)
    fun _ hmode => count_of_mem_windowModes hmode, List.countP_eq_length]
  intro size hsize
  rw [(holds_ofSizes sizes).overflow, decide_eq_false_iff_not, Nat.not_lt]
    at hroom
  rw [decide_eq_true_eq, windowModes,
    ((ranked_perm rank _).map Mode.size).mem_iff, (holds_ofSizes sizes).entries,
    map_size_countTable, List.take_of_length_le hroom, List.mem_eraseDups]
  exact hsize

/-- `top_k_modes` takes the modes in this order. -/
theorem topKModes_ofSizes {k : ℕ} (hk : k ≠ 0)
    (hsome : (ofSizes sizes).total ≠ 0) (target : ℚ) :
    (ofSizes sizes).topKModes k target =
      takeCovering Mode.count (coverage target (trackable sizes).length) k
        (windowModes sizes) 0 := by
  have hdistinct : ((ofSizes sizes).entries.map Mode.size).Nodup := by
    rw [(holds_ofSizes sizes).entries]
    exact nodup_countTable cap (trackable sizes)
  have hlive : live (ofSizes sizes).entries = (ofSizes sizes).entries := by
    rw [live, List.filter_eq_self]
    intro mode hmode
    rw [(holds_ofSizes sizes).entries, countTable, List.mem_map] at hmode
    obtain ⟨size, hsize, rfl⟩ := hmode
    rw [decide_eq_true_eq]
    exact (List.count_pos_iff.mpr (mem_take_of_mem_eraseDups hsize)).ne'
  rw [topKModes, if_neg (by omega), selectModes_eq_takeCovering hdistinct,
    hlive, (holds_ofSizes sizes).total]
  rfl

end Counts

/-! ## The three ways a routine gets its sizes -/

section Choice

variable {sizes : List ℕ} {spec : RoutineSpec}

theorem target_le_sum (hroom : (ofSizes sizes).overflow = false) :
    coverage (9 / 10) (trackable sizes).length ≤
      0 + ((windowModes sizes).map Mode.count).sum := by
  rw [Nat.zero_add, sum_windowModes hroom]
  exact SparseHistogram.coverage_le (by norm_num) _

theorem length_windowModes_le (sizes : List ℕ) :
    (windowModes sizes).length ≤ cap := by
  rw [windowModes, (ranked_perm _ _).length_eq]
  exact (ofSizes sizes).entries_le

/-- The modes that `k` classes learn reach the target exactly when no more than
`k` are needed. -/
theorem reaches_iff (hroom : (ofSizes sizes).overflow = false)
    (hsome : (ofSizes sizes).total ≠ 0) {k : ℕ} (hk : k ≠ 0) :
    coverage (9 / 10) (trackable sizes).length ≤
        (((ofSizes sizes).topKModes k (9 / 10)).map Mode.count).sum ↔
      classesNeeded (ofSizes sizes) ≤ k := by
  rw [classesNeeded, topKModes_ofSizes hk hsome,
    topKModes_ofSizes (by decide) hsome]
  have hreaches := reaches_takeCovering_iff (length_windowModes_le sizes)
    (target_le_sum hroom) fun hzero => absurd hzero hk
  rwa [Nat.zero_add] at hreaches

/-- A routine for the learned classes serves what they count. -/
theorem guardCovers_classes (hsome : (ofSizes sizes).total ≠ 0)
    (hserved : ∀ size, size ∈ servedSizes spec ↔
      size ∈ ((ofSizes sizes).topKModes multiClassMax (9 / 10)).map
        Mode.size) :
    GuardCovers spec sizes ↔
      coverage (9 / 10) (trackable sizes).length ≤
        (((ofSizes sizes).topKModes multiClassMax (9 / 10)).map
          Mode.count).sum := by
  have hsublist : ((ofSizes sizes).topKModes multiClassMax (9 / 10)).Sublist
      (windowModes sizes) := by
    rw [topKModes_ofSizes (by decide) hsome]
    exact takeCovering_sublist _ _ _ _ _
  rw [GuardCovers, sum_count ((nodup_windowModes sizes).sublist
    (hsublist.map Mode.size)) fun mode hmode =>
      count_of_mem_windowModes (hsublist.subset hmode)]
  simp only [hserved]

/-- A routine for one size serves the most frequent one. -/
theorem guardCovers_dominant {best : Mode} {rest : List Mode}
    (hmodes : windowModes sizes = best :: rest)
    (hserved : ∀ size, size ∈ servedSizes spec ↔ size = best.size) :
    GuardCovers spec sizes ↔
      coverage (9 / 10) (trackable sizes).length ≤ best.count := by
  have hcount : (trackable sizes).count best.size =
      (trackable sizes).countP fun size => size ∈ servedSizes spec := by
    rw [List.count_eq_countP]
    exact List.countP_congr fun size _ => by simp [hserved]
  rw [GuardCovers, ← hcount, ← count_of_mem_windowModes
    (hmodes ▸ List.mem_cons_self)]

/-- One class is needed exactly when the most frequent size is enough. -/
theorem classesNeeded_le_one_iff (hroom : (ofSizes sizes).overflow = false)
    (hsome : (ofSizes sizes).total ≠ 0) {best : Mode} {rest : List Mode}
    (hmodes : windowModes sizes = best :: rest) :
    classesNeeded (ofSizes sizes) ≤ 1 ↔
      coverage (9 / 10) (trackable sizes).length ≤ best.count := by
  rw [← reaches_iff hroom hsome Nat.one_ne_zero,
    topKModes_ofSizes Nat.one_ne_zero hsome, hmodes]
  simp [takeCovering]

/-- The most frequent size comes first. -/
theorem exists_windowModes (hroom : (ofSizes sizes).overflow = false)
    (hsome : (ofSizes sizes).total ≠ 0) :
    ∃ best rest, windowModes sizes = best :: rest ∧
      dominantMode (ofSizes sizes).entries = some best := by
  cases hbest : dominantMode (ofSizes sizes).entries with
  | none =>
      rw [dominantMode_eq_argmin, List.argmin_eq_none] at hbest
      have hsum := sum_windowModes hroom
      rw [windowModes, hbest, (holds_ofSizes sizes).total.symm] at hsum
      exact absurd hsum.symm hsome
  | some best =>
      rw [dominantMode_eq_argmin] at hbest
      exact ⟨best, _, ranked_cons_of_argmin (separates_rank _) hbest, rfl⟩

theorem coverage_mono {p q : ℚ} (hpq : p ≤ q) (total : ℕ) :
    coverage p total ≤ coverage q total := by
  have hle : p * total ≤ q * total :=
    mul_le_mul_of_nonneg_right hpq (Nat.cast_nonneg total)
  exact Int.toNat_le_toNat (Int.floor_mono hle)

/-- A monomorphic window needs one class. -/
theorem classesNeeded_of_monomorphic (hroom : (ofSizes sizes).overflow = false)
    (hmono : (ofSizes sizes).isMonomorphic (95 / 100) = true) :
    classesNeeded (ofSizes sizes) ≤ 1 := by
  rw [isMonomorphic] at hmono
  split at hmono
  · cases hmono
  · next hsome =>
      obtain ⟨best, rest, hmodes, hbest⟩ := exists_windowModes hroom hsome
      rw [hbest] at hmono
      rw [classesNeeded_le_one_iff hroom hsome hmodes,
        ← (holds_ofSizes sizes).total]
      exact (coverage_mono (by norm_num) _).trans (of_decide_eq_true hmono)

/-- So does one in which fewer than two were learned. -/
theorem classesNeeded_of_learned (hroom : (ofSizes sizes).overflow = false)
    (hsome : (ofSizes sizes).total ≠ 0)
    (hlearned : ((ofSizes sizes).topKModes multiClassMax (9 / 10)).length <
      2) : classesNeeded (ofSizes sizes) ≤ 1 := by
  obtain ⟨best, rest, hmodes, -⟩ := exists_windowModes hroom hsome
  rw [classesNeeded_le_one_iff hroom hsome hmodes]
  rw [topKModes_ofSizes (by decide) hsome, hmodes] at hlearned
  have hsum := target_le_sum hroom
  rw [hmodes, List.map_cons, List.sum_cons, Nat.zero_add] at hsum
  change (takeCovering Mode.count _ (3 + 1) (best :: rest) 0).length < 2
    at hlearned
  rw [takeCovering, Nat.zero_add] at hlearned
  by_contra hshort
  rw [if_neg hshort, List.length_cons] at hlearned
  cases rest with
  | nil => exact hshort (by simpa using hsum)
  | cons next rest =>
      rw [takeCovering, List.length_cons] at hlearned
      omega

end Choice

/-! ## The choice -/

section Main

variable {knobs : Knobs} {alpha : ℚ} {compile : RoutineSpec → Option ℕ}
variable {summary : CallSiteSummary} {sizes : List ℕ} {spec : RoutineSpec}

/-- The summary the strategy is picked on. -/
def learning (summary : CallSiteSummary) : CallSiteSummary :=
  { summary with
    stableWindows := summary.stableWindows + 1
    baseline := summary.activeHist
    lifetime := summary.learnedLifetime
    classes := summary.learnedClasses }

/-- What is handed to the compiler. -/
theorem spec_of_compiled {page : Option ℕ}
    (hcompiled : (summary.advancePrespec knobs compile).2.compiled =
      some (spec, page)) :
    Specializes knobs summary ∧
      spec.strategy = (learning summary).pickStrategy knobs.forced ∧
      spec.size = summary.activeHist.dominantSize ∧
      (spec.strategy = .multiSizeFreeList →
        spec.classCount = summary.learnedClasses.length ∧
          spec.classSizes = fun i =>
            ((summary.learnedClasses[i]?).map Mode.size).getD 0) := by
  by_cases hspecializes : Specializes knobs summary
  · rw [advancePrespec_of_specializes hspecializes] at hcompiled
    obtain ⟨rfl, -⟩ := Prod.mk.inj (Option.some.inj hcompiled)
    refine ⟨hspecializes, rfl, rfl, fun hstrategy => ?_⟩
    exact ⟨if_pos hstrategy, funext fun i => if_pos hstrategy⟩
  · rw [advancePrespec_of_not_specializes hspecializes] at hcompiled
    cases hcompiled

theorem mem_servedSizes_classes {classes : List Mode}
    (hstrategy : spec.strategy = .multiSizeFreeList)
    (hcount : spec.classCount = classes.length)
    (hsizes : spec.classSizes = fun i =>
      ((classes[i]?).map Mode.size).getD 0) (size : ℕ) :
    size ∈ servedSizes spec ↔ size ∈ classes.map Mode.size := by
  rw [servedSizes, if_pos hstrategy, hcount, hsizes]
  have hmap : (List.range classes.length).map (fun i =>
      ((classes[i]?).map Mode.size).getD 0) = classes.map Mode.size := by
    refine List.ext_getElem (by simp) fun i hi _ => ?_
    have hi : i < classes.length := by simpa using hi
    simp [hi]
  rw [hmap]

theorem total_of_stable (hwindow : summary.activeHist = .ofSizes sizes)
    (hstable : summary.prespecStable (knobs.atLevel alpha) = true) :
    (ofSizes sizes).total ≠ 0 := by
  intro hnone
  rw [CallSiteSummary.prespecStable, CallSiteSummary.prespecTest, hwindow]
    at hstable
  split at hstable
  · next recent previous htest =>
      split at htest
      · obtain ⟨rfl, rfl⟩ := Prod.mk.inj (Option.some.inj htest)
        change ksStable alpha (ofSizes sizes) _ = true at hstable
        rw [ksStable, if_pos (.inl hnone)] at hstable
        cases hstable
      · cases htest
  · cases hstable

/-- The guard of a routine that was picked freely covers its window exactly when
the picked strategy can serve as many sizes as are needed. -/
theorem guardCovers_iff {page : ℕ} (hforced : knobs.forced = .generic)
    (hwindow : summary.activeHist = .ofSizes sizes)
    (hcompiled : (summary.advancePrespec (knobs.atLevel alpha)
      compile).2.compiled = some (spec, some page)) :
    GuardCovers spec sizes ↔
      classesNeeded (.ofSizes sizes) ≤ classesServed summary := by
  obtain ⟨hspecializes, hstrategy, hsize, hclasses⟩ :=
    spec_of_compiled hcompiled
  have hroom : (ofSizes sizes).overflow = false :=
    hwindow ▸ overflow_of_prespecStable hspecializes.1
  have hsome := total_of_stable hwindow hspecializes.1
  obtain ⟨best, rest, hmodes, hbest⟩ := exists_windowModes hroom hsome
  have hdominant : spec.size = best.size := by
    rw [hsize, hwindow, dominantSize, hbest]
  have hsingle : spec.strategy ≠ .multiSizeFreeList →
      (GuardCovers spec sizes ↔ classesNeeded (ofSizes sizes) ≤ 1) := by
    intro hother
    rw [classesNeeded_le_one_iff hroom hsome hmodes]
    refine guardCovers_dominant hmodes fun size => ?_
    rw [servedSizes, if_neg hother, List.mem_singleton, hdominant]
  have hpicked : spec.strategy = (learning summary).pickStrategy .generic :=
    hforced ▸ hstrategy
  rw [CallSiteSummary.pickStrategy, if_neg (by decide)] at hpicked
  rw [classesServed]
  by_cases hpaired : summary.pairedPattern = true
  · have hone : spec.strategy = .pairedStack := by
      rw [hpicked]
      exact if_pos hpaired
    rw [hpaired, Bool.true_or, if_pos rfl]
    exact hsingle (by rw [hone]; exact Strategy.noConfusion)
  rw [if_neg (by exact hpaired)] at hpicked
  rw [Bool.eq_false_iff.mpr hpaired, Bool.false_or]
  by_cases hpc : summary.pcPattern = true
  · have hone : spec.strategy = .producerConsumer := by
      rw [hpicked]
      exact if_pos hpc
    rw [hpc, if_pos rfl]
    exact hsingle (by rw [hone]; exact Strategy.noConfusion)
  rw [if_neg (by exact hpc)] at hpicked
  rw [if_neg hpc]
  have henough : classesNeeded (ofSizes sizes) ≤ 1 →
      spec.strategy ≠ .multiSizeFreeList →
      (GuardCovers spec sizes ↔
        classesNeeded (ofSizes sizes) ≤ multiClassMax) := fun hneeded hother =>
    iff_of_true ((hsingle hother).mpr hneeded) (hneeded.trans (by decide))
  have hlearned : (learning summary).classes =
      (ofSizes sizes).topKModes multiClassMax (9 / 10) := by
    change summary.activeHist.topKModes multiClassMax (9 / 10) = _
    rw [hwindow]
  have hactive : (learning summary).activeHist = ofSizes sizes := hwindow
  rw [hactive, hlearned] at hpicked
  by_cases hmono : (ofSizes sizes).isMonomorphic (95 / 100) = true
  · refine henough (classesNeeded_of_monomorphic hroom hmono) ?_
    rw [hpicked, if_pos hmono]
    split <;> exact Strategy.noConfusion
  rw [if_neg hmono] at hpicked
  by_cases hmany : 2 ≤
      ((ofSizes sizes).topKModes multiClassMax (9 / 10)).length
  · rw [if_pos hmany] at hpicked
    obtain ⟨hcount, hsizes⟩ := hclasses hpicked
    have hserved := mem_servedSizes_classes hpicked hcount hsizes
    rw [show summary.learnedClasses = _ from hlearned] at hserved
    exact (guardCovers_classes hsome hserved).trans
      (reaches_iff hroom hsome (by decide))
  · rw [if_neg hmany] at hpicked
    refine henough (classesNeeded_of_learned hroom hsome (by omega)) ?_
    rw [hpicked]
    exact Strategy.noConfusion

end Main

/-! ## Two sizes and five sizes -/

def tenEventKnobs : Knobs :=
  { sixEventKnobs with
    windowSize := 10
    windowSize_pos := by decide }

/-- Site 7 allocates, and compiling for it always succeeds. -/
def allocating (sizes : List ℕ) : CallSiteSummary :=
  sizes.foldl (fun summary size =>
    (summary.processAlloc (tenEventKnobs.atLevel (5 / 100))
      (fun _ => some 65536) ⟨7, size, 1, 4096⟩).1) (.fresh 7)

/-- The site as the last event of its second window completes it. -/
def completing (window : List ℕ) (last : ℕ) : CallSiteSummary :=
  ((allocating (window ++ [last] ++ window)).recordAlloc
    ⟨7, last, 1, 4096⟩).recordActive last

/-- What it then hands to the compiler. -/
def compiling (window : List ℕ) (last : ℕ) :
    Option (RoutineSpec × Option ℕ) :=
  ((completing window last).advancePrespec (tenEventKnobs.atLevel (5 / 100))
    fun _ => some 65536).2.compiled

/-- Half the events of one size and half of another. -/
def twoSizes : List ℕ := [16, 32, 16, 32, 16, 32, 16, 32, 16]

/-- Two classes are needed and learned. -/
theorem guardCovers_twoSizes :
    ∃ spec, compiling twoSizes 32 = some (spec, some 65536) ∧
      spec.strategy = .multiSizeFreeList ∧
      GuardCovers spec (twoSizes ++ [32]) := by
  have hcompiles : (compiling twoSizes 32).any (fun call =>
      decide (call.2 = some 65536) &&
        decide (call.1.strategy = .multiSizeFreeList)) = true := by
    decide +kernel
  obtain ⟨call, hcompiled, hcall⟩ := (Option.any_eq_true _ _).mp hcompiles
  obtain ⟨spec, page⟩ := call
  rw [Bool.and_eq_true, decide_eq_true_eq, decide_eq_true_eq] at hcall
  obtain ⟨rfl, hstrategy⟩ := hcall
  have hwindow : (completing twoSizes 32).activeHist =
      .ofSizes (twoSizes ++ [32]) := by decide +kernel
  have hneeded : classesNeeded (.ofSizes (twoSizes ++ [32])) ≤
      classesServed (completing twoSizes 32) := by decide +kernel
  exact ⟨spec, hcompiled, hstrategy,
    (guardCovers_iff rfl hwindow hcompiled).mpr hneeded⟩

/-- Five sizes in equal shares. -/
def fiveSizes : List ℕ := [16, 32, 48, 64, 80, 16, 32, 48, 64]

/-- Four of them are learned, and one event in five deoptimizes. -/
theorem not_guardCovers_fiveSizes :
    ∃ spec, (completing fiveSizes 80).activeHist =
        .ofSizes (fiveSizes ++ [80]) ∧
      compiling fiveSizes 80 = some (spec, some 65536) ∧
      compileAccepts spec ∧ ¬GuardCovers spec (fiveSizes ++ [80]) ∧
      ∀ layout slot tid base heap,
        routine layout spec slot tid 80 base heap = some (heap, .deopt) := by
  have hcompiles : (compiling fiveSizes 80).any (fun call =>
      decide (call.2 = some 65536) && decide (compileAccepts call.1) &&
        !decide (GuardCovers call.1 (fiveSizes ++ [80])) &&
        decide (80 ∉ servedSizes call.1)) = true := by
    decide +kernel
  obtain ⟨call, hcompiled, hcall⟩ := (Option.any_eq_true _ _).mp hcompiles
  obtain ⟨spec, page⟩ := call
  rw [Bool.and_eq_true, Bool.and_eq_true, Bool.and_eq_true, Bool.not_eq_true',
    decide_eq_true_eq, decide_eq_true_eq, decide_eq_true_eq,
    decide_eq_false_iff_not] at hcall
  obtain ⟨⟨⟨rfl, haccepts⟩, hcovers⟩, hother⟩ := hcall
  exact ⟨spec, by decide +kernel, hcompiled, haccepts, hcovers,
    fun _ slot tid base heap => routine_of_not_served hother slot tid base heap⟩

end TbjitAlloc.Analysis
