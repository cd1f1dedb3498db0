import TbjitAlloc.Analysis.DenseTable

/-!
# The sparse histogram refines the dense table

After any calls the sparse histogram tracks the first distinct sizes since the
last reset and knows whether there were more.  As long as none of its counters
wraps its counts are exact, and unless it has overflowed every query answers as
the dense table does.
-/

namespace TbjitAlloc.Analysis

open Codegen (maxSize)
open ExactHistogram (coverage)
open Ranking

/-- The answers of the dense table. -/
structure AnswersAs {capacity : ℕ} (hist : SparseHistogram capacity)
    (table : DenseTable) : Prop where
  dominantSize : hist.dominantSize = table.dominantSize
  quantile : ∀ p : ℚ, 0 ≤ p → p ≤ 1 → hist.quantile p = table.quantile p
  sortedModes : hist.sortedModes capacity = table.modes
  topKModes : ∀ (k : ℕ) (coverageTarget : ℚ), 0 < table.total → 0 < k →
    ∃ count,
      IsLeast {count | Suffices Mode.count (coverage coverageTarget table.total)
        k table.rankedModes 0 count} count ∧
      hist.topKModes k coverageTarget = table.rankedModes.take count

/-- A histogram that stands for a dense table of the sizes. -/
structure RefinesDense {capacity : ℕ} (hist : SparseHistogram capacity)
    (sizes : List ℕ) (table : DenseTable) : Prop where
  distinct : (hist.tracked.map Mode.size).Nodup
  tracked : hist.tracked =
    (sizes.eraseDups.take capacity).map fun size => ⟨size, sizes.count size⟩
  total : hist.total = sizes.length
  overflow : hist.overflow = true ↔ capacity < sizes.eraseDups.length
  answers : hist.overflow = false → AnswersAs hist table

/-- No counter wraps, neither that of a tracked size nor the total. -/
structure CountersFit (capacity : ℕ) (sizes : List ℕ) : Prop where
  counts : ∀ size ∈ sizes.eraseDups.take capacity, sizes.count size < 2 ^ 32
  total : sizes.length < 2 ^ 64

namespace SparseHistogram

variable {capacity : ℕ} {hist : SparseHistogram capacity} {sizes : List ℕ}
variable {table : DenseTable}

/-- Counts that fit their cells are exact. -/
theorem Holds.tracked_exact (hholds : hist.Holds sizes)
    (hcounts : ∀ size ∈ sizes.eraseDups.take capacity,
      sizes.count size < 2 ^ 32) :
    hist.tracked = countTable capacity sizes := by
  have hwrap : ∀ mode ∈ countTable capacity sizes, mode.wrap = mode := by
    intro mode hmode
    obtain ⟨size, hsize, rfl⟩ := List.mem_map.mp hmode
    rw [Mode.wrap, Nat.mod_eq_of_lt (hcounts size hsize)]
  rw [hholds.tracked, List.map_congr_left hwrap, List.map_id']

theorem Holds.total_exact (hholds : hist.Holds sizes)
    (hfit : CountersFit capacity sizes) : hist.total = sizes.length := by
  rw [hholds.total, Nat.mod_eq_of_lt hfit.total]

/-- The 4096 counters bound the total. -/
theorem length_lt (hcounts : ∀ size, sizes.count size < 2 ^ 32)
    (htotal : table.total = sizes.length)
    (htable : table.counts = fun size => sizes.count size) :
    sizes.length < 2 ^ 64 := by
  have hsum := List.sum_le_card_nsmul ((List.range maxSize).map table.counts)
    (2 ^ 32) fun count hcount => by
      obtain ⟨size, -, rfl⟩ := List.mem_map.mp hcount
      rw [htable]
      exact (hcounts size).le
  rw [List.length_map, List.length_range, maxSize, smul_eq_mul] at hsum
  rw [← htotal, DenseTable.total, maxSize]
  exact hsum.trans_lt (by norm_num)

theorem countTable_perm_modes (capacity : ℕ)
    (htable : table.counts = fun size => sizes.count size)
    (hfits : sizes.eraseDups.length ≤ capacity) :
    (countTable capacity sizes).Perm table.modes := by
  have hkeys : sizes.eraseDups.Perm table.sizes := by
    rw [List.perm_ext_iff_of_nodup (nodup_eraseDups sizes) table.nodup_sizes]
    intro size
    rw [List.mem_eraseDups, DenseTable.mem_sizes, htable, Ne,
      List.count_eq_zero, not_not]
  rw [countTable, List.take_of_length_le hfits, DenseTable.modes, htable]
  exact hkeys.map _

/-- A fraction of a number is at most the number. -/
theorem coverage_le {p : ℚ} (hp : p ≤ 1) (total : ℕ) :
    coverage p total ≤ total := by
  have hbound : p * total ≤ (total : ℤ) := by
    have hnonneg : (0 : ℚ) ≤ total := Nat.cast_nonneg total
    simpa using mul_le_mul_of_nonneg_right hp hnonneg
  have hfloor : ⌊p * total⌋ ≤ (total : ℤ) := by
    exact_mod_cast (Int.floor_le _).trans hbound
  rw [coverage]
  exact Int.toNat_le.mpr hfloor

/-! ## The queries -/

section Queries

variable (hmodes : hist.tracked.Perm table.modes)
variable (htotal : hist.total = table.total)

include hmodes

theorem dominantSize_refines : hist.dominantSize = table.dominantSize := by
  rw [dominantSize, dominantMode_eq_of_perm hmodes, dominantMode_eq_argmin,
    DenseTable.dominantSize_eq_argmin]

theorem sortedModes_refines : hist.sortedModes capacity = table.modes := by
  have hnodup : (table.modes.map Mode.size).Nodup := by
    rw [DenseTable.map_size_modes]
    exact table.nodup_sizes
  have hperm := (sortedModes_perm hist.n_le).trans hmodes
  refine hperm.eq_of_pairwise (fun left right hleft hright hle hge => ?_)
    (pairwise_sortedModes hist capacity) table.pairwise_modes
  exact Separates.of_nodup hnodup left (hperm.mem_iff.mp hleft) right hright
    (le_antisymm hle hge)

include htotal

theorem quantile_refines {p : ℚ} (hp : p ≤ 1) :
    hist.quantile p = table.quantile p := by
  rw [quantile, DenseTable.quantile]
  split
  · next hzero =>
      have hempty : table.sortedSizes = [] := by
        rw [← List.length_eq_zero_iff, DenseTable.length_sortedSizes, ← htotal,
          hzero]
      rw [hempty]
      rfl
  · next hpos =>
      have hplace : coverage p (hist.total - 1) < table.sortedSizes.length := by
        rw [DenseTable.length_sortedSizes, ← htotal]
        have hle := coverage_le hp (hist.total - 1)
        omega
      dsimp only
      rw [sortedModes_refines hmodes, walkTo_eq_getElem? (Nat.zero_le _),
        DenseTable.sizesOf_modes, Nat.sub_zero, ← htotal,
        List.getElem?_eq_getElem hplace, Option.getD_some, Option.getD_some]

theorem topKModes_refines {k : ℕ} (coverageTarget : ℚ) (hpos : 0 < table.total)
    (hk : 0 < k) :
    ∃ count,
      IsLeast {count | Suffices Mode.count (coverage coverageTarget table.total)
        k table.rankedModes 0 count} count ∧
      hist.topKModes k coverageTarget = table.rankedModes.take count := by
  have hnodup : (hist.tracked.map Mode.size).Nodup := by
    rw [(hmodes.map Mode.size).nodup_iff, DenseTable.map_size_modes]
    exact table.nodup_sizes
  have hlive : live hist.tracked = hist.tracked := by
    refine List.filter_eq_self.mpr fun mode hmode => decide_eq_true ?_
    obtain ⟨size, hsize, rfl⟩ := List.mem_map.mp (hmodes.mem_iff.mp hmode)
    exact DenseTable.mem_sizes.mp hsize
  have hranked : ranked Mode.rank (live hist.tracked) = table.rankedModes := by
    rw [hlive, DenseTable.rankedModes,
      ranked_eq_of_perm (Mode.separates_rank _) hmodes]
  rw [topKModes, if_neg (by omega), selectModes_eq_takeCovering hnodup, hranked,
    htotal]
  exact isLeast_takeCovering hk (DenseTable.rankedModes_ne_nil hpos)

end Queries

theorem answersAs_of_perm (hmodes : hist.tracked.Perm table.modes)
    (htotal : hist.total = table.total) : AnswersAs hist table where
  dominantSize := dominantSize_refines hmodes
  quantile _ _ hp := quantile_refines hmodes htotal hp
  sortedModes := sortedModes_refines hmodes
  topKModes _ coverageTarget hpos hk :=
    topKModes_refines hmodes htotal coverageTarget hpos hk

/-! ## Every sequence of calls -/

/-- Where no size is recorded as often as a 32-bit counter can count, the total
fits too. -/
theorem countersFit_of_counts (capacity : ℕ) (calls : List HistogramCall)
    (hcounts : ∀ size, (recorded calls).count size < 2 ^ 32) :
    CountersFit capacity (recorded calls) where
  counts size _ := hcounts size
  total :=
    length_lt hcounts (DenseTable.total_run calls) (DenseTable.counts_run calls)

/-- Every sequence of calls leaves the first sizes, counted modulo the width of a
counter, and the overflow flag.  As long as no counter wraps the histogram stands
for the dense table. -/
theorem refinesDense_run (capacity : ℕ) (calls : List HistogramCall) :
    (run capacity calls).Holds (recorded calls) ∧
      (CountersFit capacity (recorded calls) →
        RefinesDense (run capacity calls) (recorded calls) (.run calls)) := by
  have hholds := holds_run capacity calls
  have htable := DenseTable.counts_run calls
  have hlength := DenseTable.total_run calls
  refine ⟨hholds, fun hfit => ?_⟩
  have htotal := hholds.total_exact hfit
  have htracked := hholds.tracked_exact hfit.counts
  refine ⟨hholds.nodup, htracked, htotal, ?_, ?_⟩
  · rw [hholds.overflow, decide_eq_true_iff]
  · intro hroom
    rw [hholds.overflow, decide_eq_false_iff_not, not_lt] at hroom
    refine answersAs_of_perm ?_ (htotal.trans hlength.symm)
    rw [htracked]
    exact countTable_perm_modes capacity htable hroom

/-- Three sizes since a reset, one of them twice, and one that is too large. -/
def sixteenTwice : List HistogramCall :=
  [.record 8, .reset, .record 16, .record 24, .record 16, .record 4096,
    .record 32]

/-- They fit a table of capacity four, which answers as the dense one. -/
theorem refinesDense_sixteenTwice :
    RefinesDense (run 4 sixteenTwice) [16, 24, 16, 32] (.run sixteenTwice) ∧
      (run 4 sixteenTwice).overflow = false ∧
      AnswersAs (run 4 sixteenTwice) (.run sixteenTwice) ∧
      (run 4 sixteenTwice).dominantSize = 16 := by
  have hfit : CountersFit 4 (recorded sixteenTwice) :=
    countersFit_of_counts 4 sixteenTwice fun size =>
      List.count_le_length.trans_lt (by decide)
  have hrefines := (refinesDense_run 4 sixteenTwice).2 hfit
  have hroom : (run 4 sixteenTwice).overflow = false := by decide
  exact ⟨hrefines, hroom, hrefines.answers hroom, by decide⟩

/-! ## The histogram of a window -/

theorem recorded_map_record (sizes : List ℕ) :
    recorded (sizes.map .record) = ExactHistogram.trackable sizes := by
  induction sizes using List.reverseRecOn with
  | nil => rfl
  | append_singleton sizes size ih =>
      rw [List.map_append, List.map_singleton, recorded_append, ih, note,
        ExactHistogram.trackable_append]

/-- The unbounded counts the windows are modelled with are those of the cells
until one of them wraps. -/
theorem tracked_eq_ofSizes (sizes : List ℕ)
    (hcounts : ∀ size, sizes.count size < 2 ^ 32) :
    (run cap (sizes.map .record)).tracked =
      (ExactHistogram.ofSizes sizes).entries := by
  have hholds := holds_run cap (sizes.map .record)
  rw [recorded_map_record] at hholds
  rw [(ExactHistogram.holds_ofSizes sizes).entries]
  refine hholds.tracked_exact fun size _ => ?_
  exact (List.Sublist.count_le size List.filter_sublist).trans_lt
    (hcounts size)

/-! ## A counter that wraps -/

theorem recorded_replicate (count : ℕ) {size : ℕ} (hsize : size < maxSize) :
    recorded (List.replicate count (.record size)) =
      List.replicate count size := by
  induction count with
  | zero => rfl
  | succ count ih =>
      rw [List.replicate_succ', recorded_append, ih, note, if_pos hsize,
        List.replicate_succ']

/-- A size recorded over and over, and no other. -/
theorem countTable_replicate {capacity count : ℕ} (size : ℕ)
    (hcapacity : 0 < capacity) (hcount : 0 < count) :
    countTable capacity (List.replicate count size) = [⟨size, count⟩] := by
  obtain ⟨more, rfl⟩ : ∃ more, count = more + 1 := ⟨count - 1, by omega⟩
  have hkeys : (List.replicate (more + 1) size).eraseDups = [size] := by
    rw [List.replicate_succ, List.eraseDups_cons]
    simp
  rw [countTable, hkeys, List.take_of_length_le (by rwa [List.length_singleton]),
    List.map_singleton, List.count_replicate_self]

/-- The exact counts are those that fit a counter. -/
theorem lt_of_refinesDense_replicate {capacity count size : ℕ}
    (hcapacity : 0 < capacity) (hsize : size < maxSize)
    (hrefines : RefinesDense
      (run capacity (List.replicate count (.record size)))
      (recorded (List.replicate count (.record size)))
      (.run (List.replicate count (.record size)))) : count < 2 ^ 32 := by
  rcases Nat.eq_zero_or_pos count with rfl | hcount
  · norm_num
  have hexact : (run capacity (List.replicate count (.record size))).tracked =
      countTable capacity (recorded (List.replicate count (.record size))) :=
    hrefines.tracked
  rw [(holds_run capacity _).tracked, recorded_replicate count hsize,
    countTable_replicate size hcapacity hcount] at hexact
  have hwrap : count % 2 ^ 32 = count :=
    congrArg Mode.count (List.head_eq_of_cons_eq hexact)
  rw [← hwrap]
  exact Nat.mod_lt _ (by norm_num)

/-- After 2^32 records of one size its count reads zero. -/
theorem wrapped_not_refinesDense :
    ¬RefinesDense (run 64 (List.replicate (2 ^ 32) (.record 16)))
      (recorded (List.replicate (2 ^ 32) (.record 16)))
      (.run (List.replicate (2 ^ 32) (.record 16))) :=
  fun hrefines => absurd
    (lt_of_refinesDense_replicate (by norm_num) (by rw [maxSize]; norm_num)
      hrefines)
    (lt_irrefl _)

end SparseHistogram

end TbjitAlloc.Analysis
