import TbjitAlloc.Analysis.DenseRefinement
import TbjitAlloc.Analysis.MergeWalk
import Mathlib.Analysis.Real.Sqrt

/-!
# What the Kolmogorov-Smirnov test decides

The test on two histograms that calls have left.  The walk ends, its statistic
is the greatest distance of the two distribution functions, and the answer is
the comparison of that distance with the critical value.
-/

namespace TbjitAlloc.Analysis

namespace SparseHistogram

variable {capacity : ℕ}

def ksStatistic (a b : SparseHistogram capacity) : ℚ :=
  mergeWalk a.total b.total (a.n + b.n) (a.sortedModes capacity)
    (b.sortedModes capacity) 0 0 0

/-- `ks_stable`, both sides of its comparison squared. -/
def ksStable (alpha : ℚ) (a b : SparseHistogram capacity) : Bool :=
  if a.total = 0 ∨ b.total = 0 then false
  else if a.overflow || b.overflow then false
  else
    ksStatistic a b ^ 2 * (a.total * b.total) <
      criticalCoefficient alpha ^ 2 * (a.total + b.total)

/-! ## The distance of two histograms -/

/-- The distribution function of a histogram. -/
noncomputable def cdf (hist : SparseHistogram capacity) (x : ℝ) : ℚ :=
  cumulative hist.total hist.tracked x

noncomputable def distance (a b : SparseHistogram capacity) (x : ℝ) : ℚ :=
  |a.cdf x - b.cdf x|

theorem distance_comm (a b : SparseHistogram capacity) (x : ℝ) :
    distance a b x = distance b a x := abs_sub_comm _ _

theorem ascending_sortedModes (hist : SparseHistogram capacity) :
    Ascending (hist.sortedModes capacity) := pairwise_sortedModes hist capacity

theorem cumulative_sortedModes (hist : SparseHistogram capacity) (x : ℝ) :
    cumulative hist.total (hist.sortedModes capacity) x = hist.cdf x :=
  cumulative_perm (sortedModes_perm hist.n_le)

/-- There are as many rounds as entries at most. -/
theorem endsWithin_sortedModes (a b : SparseHistogram capacity) :
    endsWithin (a.n + b.n) (a.sortedModes capacity) (b.sortedModes capacity) =
      true := by
  refine endsWithin_length (le_of_eq ?_)
  rw [(sortedModes_perm a.n_le).length_eq, (sortedModes_perm b.n_le).length_eq,
    length_tracked, length_tracked]

theorem isGreatest_ksStatistic (a b : SparseHistogram capacity) :
    IsGreatest (Set.range (distance a b)) (ksStatistic a b) := by
  have hdistance : distance a b = fun x =>
      |cumulative a.total (a.sortedModes capacity) x -
        cumulative b.total (b.sortedModes capacity) x| := by
    funext x
    rw [cumulative_sortedModes, cumulative_sortedModes, distance]
  rw [hdistance]
  exact isGreatest_mergeWalk (ascending_sortedModes a) (ascending_sortedModes b)
    (endsWithin_sortedModes a b)

theorem ksStatistic_comm (a b : SparseHistogram capacity) :
    ksStatistic a b = ksStatistic b a := by
  have hswap : distance a b = distance b a := funext (distance_comm a b)
  have hgreatest := isGreatest_ksStatistic a b
  rw [hswap] at hgreatest
  exact hgreatest.unique (isGreatest_ksStatistic b a)

/-! ## The comparison -/

theorem criticalCoefficient_pos (alpha : ℚ) :
    0 < criticalCoefficient alpha := by
  rw [criticalCoefficient]
  split
  · norm_num
  · split <;> norm_num

/-- The comparison of squares is the one with the root. -/
theorem squares_lt_iff {statistic critical : ℚ} {totalA totalB : ℕ}
    (hstatistic : 0 ≤ statistic) (hcritical : 0 < critical)
    (htotalA : totalA ≠ 0) (htotalB : totalB ≠ 0) :
    statistic ^ 2 * (totalA * totalB) < critical ^ 2 * (totalA + totalB) ↔
      (statistic : ℝ) < critical *
        √(((totalA : ℝ) + totalB) / (totalA * totalB)) := by
  have hproduct : (0 : ℝ) < totalA * totalB := by positivity
  have hnonneg : (0 : ℝ) ≤ statistic := by exact_mod_cast hstatistic
  have hpos : (0 : ℝ) ≤ critical := by exact_mod_cast hcritical.le
  have hroot : (critical : ℝ) * √(((totalA : ℝ) + totalB) / (totalA * totalB)) =
      √((critical : ℝ) ^ 2 * ((totalA : ℝ) + totalB) / (totalA * totalB)) := by
    rw [mul_div_assoc, Real.sqrt_mul (sq_nonneg _), Real.sqrt_sq hpos]
  rw [hroot, Real.lt_sqrt hnonneg, lt_div_iff₀ hproduct]
  exact_mod_cast Iff.rfl

/-- The supremum of the distances over all thresholds. -/
noncomputable def supDistance (a b : SparseHistogram capacity) : ℝ :=
  ⨆ x, (distance a b x : ℝ)

theorem supDistance_eq (a b : SparseHistogram capacity) :
    supDistance a b = ksStatistic a b := by
  obtain ⟨⟨x, hx⟩, hbound⟩ := isGreatest_ksStatistic a b
  have hle : ∀ y, (distance a b y : ℝ) ≤ ksStatistic a b := fun y =>
    Rat.cast_le.mpr (hbound (Set.mem_range_self y))
  refine le_antisymm (ciSup_le hle) ?_
  rw [← hx]
  exact le_ciSup (f := fun y => (distance a b y : ℝ))
    ⟨_, Set.forall_mem_range.mpr hle⟩ x

theorem ksStatistic_nonneg (a b : SparseHistogram capacity) :
    0 ≤ ksStatistic a b := by
  obtain ⟨⟨x, hx⟩, -⟩ := isGreatest_ksStatistic a b
  exact hx ▸ abs_nonneg _

theorem ksStable_iff (alpha : ℚ) (a b : SparseHistogram capacity) :
    ksStable alpha a b = true ↔
      (a.total ≠ 0 ∧ b.total ≠ 0) ∧ (a.overflow = false ∧ b.overflow = false) ∧
        supDistance a b < criticalCoefficient alpha *
          √(((a.total : ℝ) + b.total) / (a.total * b.total)) := by
  rw [ksStable, supDistance_eq]
  by_cases hempty : a.total = 0 ∨ b.total = 0
  · rw [if_pos hempty]
    have hnot : ¬(a.total ≠ 0 ∧ b.total ≠ 0) := by tauto
    simp [hnot]
  · rw [if_neg hempty]
    obtain ⟨hfull, hother⟩ := not_or.mp hempty
    by_cases hoverflow : (a.overflow || b.overflow) = true
    · rw [if_pos hoverflow]
      have hnot : ¬(a.overflow = false ∧ b.overflow = false) := by
        rw [← Bool.or_eq_false_iff, hoverflow]
        exact Bool.noConfusion
      simp [hnot]
    · rw [if_neg hoverflow, decide_eq_true_iff,
        squares_lt_iff (ksStatistic_nonneg a b) (criticalCoefficient_pos alpha)
          hfull hother]
      have hkept := Bool.or_eq_false_iff.mp (Bool.eq_false_iff.mpr hoverflow)
      exact ⟨fun h => ⟨⟨hfull, hother⟩, hkept, h⟩, fun h => h.2.2⟩

theorem ksStable_comm (alpha : ℚ) (a b : SparseHistogram capacity) :
    ksStable alpha a b = ksStable alpha b a := by
  rw [Bool.eq_iff_iff, ksStable_iff, ksStable_iff, supDistance_eq,
    supDistance_eq, ksStatistic_comm a b, and_comm (a := a.total ≠ 0),
    and_comm (a := a.overflow = false), add_comm (a.total : ℝ),
    mul_comm (a.total : ℝ)]

/-! ## Records in another order -/

/-- Two histograms that the test cannot tell apart. -/
structure SameView (hist other : SparseHistogram capacity) : Prop where
  total : hist.total = other.total
  overflow : hist.overflow = other.overflow
  cdf : hist.overflow = false → hist.cdf = other.cdf

/-- The order of the records shows in the layout of the table only. -/
theorem Holds.sameView {hist other : SparseHistogram capacity}
    {sizes reordered : List ℕ} (hholds : hist.Holds sizes)
    (hother : other.Holds reordered) (hperm : sizes.Perm reordered) :
    SameView hist other := by
  have hkeys : sizes.eraseDups.length = reordered.eraseDups.length :=
    (eraseDups_perm hperm).length_eq
  have htotal : hist.total = other.total := by
    rw [hholds.total, hother.total, hperm.length_eq]
  have hoverflow : hist.overflow = other.overflow := by
    rw [hholds.overflow, hother.overflow, hkeys]
  refine ⟨htotal, hoverflow, fun hkept => ?_⟩
  rw [hholds.overflow, decide_eq_false_iff_not, not_lt] at hkept
  funext x
  rw [SparseHistogram.cdf, SparseHistogram.cdf, htotal, hholds.tracked,
    hother.tracked]
  exact cumulative_perm ((countTable_perm hperm hkept).map Mode.wrap)

theorem ksStable_eq_of_sameView {a b a' b' : SparseHistogram capacity}
    (hleft : SameView a a') (hright : SameView b b') (alpha : ℚ) :
    ksStable alpha a b = ksStable alpha a' b' := by
  rw [Bool.eq_iff_iff, ksStable_iff, ksStable_iff, ← hleft.total,
    ← hright.total, ← hleft.overflow, ← hright.overflow]
  refine and_congr_right fun _ => and_congr_right fun hkept => ?_
  have hdistance : distance a b = distance a' b' := by
    funext x
    rw [distance, distance, hleft.cdf hkept.1, hright.cdf hkept.2]
  rw [supDistance, supDistance, hdistance]

/-! ## The empirical distribution -/

/-- The share of the sizes up to a threshold. -/
noncomputable def empirical (sizes : List ℕ) (x : ℝ) : ℚ :=
  (sizes.countP fun size : ℕ => (size : ℝ) ≤ x) / sizes.length

/-- Shares of one total add up as the counts do. -/
theorem sum_shares (counts : ℕ → ℕ) (total : ℕ) (x : ℝ) (sizes : List ℕ) :
    (sizes.map fun size : ℕ =>
        if (size : ℝ) ≤ x then (counts size : ℚ) / total else 0).sum =
      ((sizes.filter fun size : ℕ => (size : ℝ) ≤ x).map counts).sum /
        (total : ℚ) := by
  induction sizes with
  | nil => simp
  | cons size sizes ih =>
      rw [List.map_cons, List.sum_cons, ih, List.filter_cons]
      by_cases hbelow : (size : ℝ) ≤ x
      · rw [if_pos hbelow, if_pos (decide_eq_true hbelow), List.map_cons,
          List.sum_cons, Nat.cast_add, add_div]
      · rw [if_neg hbelow, if_neg (by simpa using hbelow), zero_add]

theorem cumulative_countTable {sizes : List ℕ} (total : ℕ)
    (hfits : sizes.eraseDups.length ≤ capacity) (x : ℝ) :
    cumulative total (countTable capacity sizes) x =
      (sizes.countP fun size : ℕ => (size : ℝ) ≤ x) / total := by
  have hdedup : sizes.eraseDups.Perm sizes.dedup := by
    rw [List.perm_ext_iff_of_nodup (nodup_eraseDups sizes) sizes.nodup_dedup]
    intro size
    rw [List.mem_eraseDups, List.mem_dedup]
  have hcount := List.sum_map_count_dedup_filter_eq_countP
    (fun size : ℕ => decide ((size : ℝ) ≤ x)) sizes
  have hshares := sum_shares (fun size => sizes.count size) total x sizes.dedup
  rw [← hcount, ← hshares, ← (hdedup.map _).sum_eq, cumulative, countTable,
    List.take_of_length_le hfits, List.map_map]
  rfl

/-- A window with exact counts and no overflow is the empirical distribution
of what was recorded since the last reset. -/
theorem cdf_run (calls : List HistogramCall)
    (hcounts : ∀ size, (recorded calls).count size < 2 ^ 32)
    (hkept : (run capacity calls).overflow = false) :
    (run capacity calls).cdf = empirical (recorded calls) := by
  have hholds := holds_run capacity calls
  rw [hholds.overflow, decide_eq_false_iff_not, not_lt] at hkept
  funext x
  have hfit := countersFit_of_counts capacity calls hcounts
  rw [cdf, hholds.total_exact hfit, hholds.tracked_exact hfit.counts,
    cumulative_countTable _ hkept, empirical]

/-! ## The decision -/

/-- The test on the histograms of two sequences of calls. -/
structure DecidesKs (capacity : ℕ) (callsA callsB : List HistogramCall) :
    Prop where
  ends : endsWithin ((run capacity callsA).n + (run capacity callsB).n)
    ((run capacity callsA).sortedModes capacity)
    ((run capacity callsB).sortedModes capacity) = true
  greatest : IsGreatest
    (Set.range (distance (run capacity callsA) (run capacity callsB)))
    (ksStatistic (run capacity callsA) (run capacity callsB))
  decides : ∀ alpha,
    ksStable alpha (run capacity callsA) (run capacity callsB) = true ↔
      ((run capacity callsA).total ≠ 0 ∧ (run capacity callsB).total ≠ 0) ∧
      ((run capacity callsA).overflow = false ∧
        (run capacity callsB).overflow = false) ∧
      supDistance (run capacity callsA) (run capacity callsB) <
        criticalCoefficient alpha *
          √((((run capacity callsA).total : ℝ) + (run capacity callsB).total) /
            ((run capacity callsA).total * (run capacity callsB).total))
  symmetric : ∀ alpha,
    ksStable alpha (run capacity callsA) (run capacity callsB) =
      ksStable alpha (run capacity callsB) (run capacity callsA)
  reordered : ∀ callsA' callsB', (recorded callsA).Perm (recorded callsA') →
    (recorded callsB).Perm (recorded callsB') → ∀ alpha,
    ksStable alpha (run capacity callsA) (run capacity callsB) =
      ksStable alpha (run capacity callsA') (run capacity callsB')
  empirical : ∀ calls, calls = callsA ∨ calls = callsB →
    (∀ size, (recorded calls).count size < 2 ^ 32) →
    (run capacity calls).overflow = false →
    (run capacity calls).cdf = empirical (recorded calls)

/-- Whatever was recorded and reset, the test is the comparison of the largest
distance of the two distributions with the critical value. -/
theorem ksStable_decides (capacity : ℕ) (callsA callsB : List HistogramCall) :
    DecidesKs capacity callsA callsB where
  ends := endsWithin_sortedModes _ _
  greatest := isGreatest_ksStatistic _ _
  decides alpha := ksStable_iff alpha _ _
  symmetric alpha := ksStable_comm alpha _ _
  reordered callsA' callsB' hpermA hpermB alpha := ksStable_eq_of_sameView
    ((holds_run capacity callsA).sameView (holds_run capacity callsA') hpermA)
    ((holds_run capacity callsB).sameView (holds_run capacity callsB') hpermB)
    alpha
  empirical calls _ hcounts hkept := cdf_run calls hcounts hkept

/-! ## The windows of the analyzer -/

section Windows

variable {sizes sizesA sizesB : List ℕ}

theorem sortedModes_eq_ofSizes (hcounts : ∀ size, sizes.count size < 2 ^ 32) :
    (run cap (sizes.map .record)).sortedModes cap =
      (ExactHistogram.ofSizes sizes).sortedModes := by
  have hholds := holds_run cap (sizes.map .record)
  have hsorted : Ascending (ExactHistogram.ofSizes sizes).sortedModes := by
    have : Std.Total fun left right : Mode => left.size ≤ right.size :=
      ⟨fun _ _ => le_total _ _⟩
    have : IsTrans Mode fun left right => left.size ≤ right.size :=
      ⟨fun _ _ _ hleft hright => le_trans hleft hright⟩
    exact List.pairwise_insertionSort _ _
  have hperm := sortedModes_perm (run cap (sizes.map .record)).n_le
  have hlayout : ((run cap (sizes.map .record)).sortedModes
      cap).Perm (ExactHistogram.ofSizes sizes).sortedModes := by
    refine hperm.trans ?_
    rw [tracked_eq_ofSizes sizes hcounts]
    exact (List.perm_insertionSort _ _).symm
  refine hlayout.eq_of_pairwise (fun left right hleft hright hle hge => ?_)
    (ascending_sortedModes _) hsorted
  exact Ranking.Separates.of_nodup hholds.nodup left (hperm.mem_iff.mp hleft)
    right (hperm.mem_iff.mp (hlayout.mem_iff.mpr hright)) (le_antisymm hle hge)

/-- On exact windows this is the test the analyzer makes. -/
theorem ksStable_eq_ofSizes (alpha : ℚ)
    (hcountsA : ∀ size, sizesA.count size < 2 ^ 32)
    (hcountsB : ∀ size, sizesB.count size < 2 ^ 32) :
    ksStable alpha (run cap (sizesA.map .record))
        (run cap (sizesB.map .record)) =
      Analysis.ksStable alpha (ExactHistogram.ofSizes sizesA)
        (ExactHistogram.ofSizes sizesB) := by
  have hsame : ∀ sizes : List ℕ, (∀ size, sizes.count size < 2 ^ 32) →
      (run cap (sizes.map .record)).total =
          (ExactHistogram.ofSizes sizes).total ∧
        (run cap (sizes.map .record)).overflow =
          (ExactHistogram.ofSizes sizes).overflow ∧
        (run cap (sizes.map .record)).n =
          (ExactHistogram.ofSizes sizes).entries.length := by
    intro sizes hcounts
    have hholds := holds_run cap (sizes.map .record)
    have hcalls : ∀ size,
        (recorded (sizes.map .record)).count size < 2 ^ 32 := by
      intro size
      rw [recorded_map_record]
      exact (List.Sublist.count_le size List.filter_sublist).trans_lt
        (hcounts size)
    have htotal := hholds.total_exact
      (countersFit_of_counts cap (sizes.map .record) hcalls)
    have hwindow := ExactHistogram.holds_ofSizes sizes
    refine ⟨?_, ?_, ?_⟩
    · rw [htotal, hwindow.total, recorded_map_record]
    · rw [hholds.overflow, hwindow.overflow, recorded_map_record]
    · rw [← length_tracked, tracked_eq_ofSizes sizes hcounts]
  obtain ⟨htotalA, hoverflowA, hnA⟩ := hsame sizesA hcountsA
  obtain ⟨htotalB, hoverflowB, hnB⟩ := hsame sizesB hcountsB
  rw [ksStable, Analysis.ksStable, ksStatistic, Analysis.ksStatistic,
    sortedModes_eq_ofSizes hcountsA, sortedModes_eq_ofSizes hcountsB, htotalA,
    htotalB, hoverflowA, hoverflowB, hnA, hnB]

end Windows

end SparseHistogram

end TbjitAlloc.Analysis
