import TbjitAlloc.Analysis.SparseHistogram

/-!
# The dense table

One counter for each of the 4096 trackable sizes, and the queries over it.  It
says what the sparse histogram is for: as long as its table has not overflowed
and no counter has, the sparse histogram answers as the dense table does.
-/

namespace TbjitAlloc.Analysis

open Codegen (maxSize)
open ExactHistogram (coverage dominantMode selectModes)
open Ranking

structure DenseTable where
  counts : ℕ → ℕ
  counts_beyond : ∀ size, maxSize ≤ size → counts size = 0

namespace DenseTable

def empty : DenseTable := ⟨fun _ => 0, fun _ _ => rfl⟩

def record (table : DenseTable) (size : ℕ) : DenseTable :=
  if hsize : size < maxSize then
    { counts := Function.update table.counts size (table.counts size + 1)
      counts_beyond := fun other hother => by
        rw [Function.update_of_ne (by omega)]
        exact table.counts_beyond other hother }
  else table

def call (table : DenseTable) : HistogramCall → DenseTable
  | .record size => table.record size
  | .reset => empty

def run (calls : List HistogramCall) : DenseTable := calls.foldl call empty

def total (table : DenseTable) : ℕ :=
  ((List.range maxSize).map table.counts).sum

/-- The first size with the greatest count. -/
def dominantSize (table : DenseTable) : ℕ :=
  ((List.range maxSize).argmax table.counts).getD 0

/-- The sizes that occur, in ascending order. -/
def sizes (table : DenseTable) : List ℕ :=
  (List.range maxSize).filter fun size => table.counts size ≠ 0

def modes (table : DenseTable) : List Mode :=
  table.sizes.map fun size => ⟨size, table.counts size⟩

/-- Every size as often as it was recorded, in ascending order. -/
def sortedSizes (table : DenseTable) : List ℕ :=
  (List.range maxSize).flatMap fun size =>
    List.replicate (table.counts size) size

def quantile (table : DenseTable) (p : ℚ) : ℕ :=
  (table.sortedSizes[coverage p (table.total - 1)]?).getD 0

/-- The modes by descending count, lower sizes first. -/
def rankedModes (table : DenseTable) : List Mode :=
  ranked Mode.rank table.modes

/-! ## What a history leaves -/

theorem counts_call {table : DenseTable} {sizes : List ℕ}
    (hcounts : table.counts = fun size => sizes.count size)
    (call : HistogramCall) :
    (table.call call).counts = fun size => (note sizes call).count size := by
  cases call with
  | reset => rfl
  | record size =>
      by_cases hsize : size < maxSize
      · funext other
        by_cases hother : other = size
        · simp [DenseTable.call, record, note, hsize, hcounts, hother]
        · simp [DenseTable.call, record, note, hsize, hcounts, hother,
            Ne.symm hother]
      · simpa [DenseTable.call, record, note, hsize] using hcounts

theorem counts_run (calls : List HistogramCall) :
    (run calls).counts = fun size => (recorded calls).count size := by
  induction calls using List.reverseRecOn with
  | nil => rfl
  | append_singleton calls call ih =>
      rw [recorded_append, run, List.foldl_append]
      exact counts_call ih call

variable {table : DenseTable} {size : ℕ}

theorem lt_of_counts (hcount : table.counts size ≠ 0) : size < maxSize := by
  by_contra hbeyond
  exact hcount (table.counts_beyond size (by omega))

theorem mem_sizes : size ∈ table.sizes ↔ table.counts size ≠ 0 := by
  rw [sizes, List.mem_filter, List.mem_range]
  exact ⟨fun hmem => of_decide_eq_true hmem.2,
    fun hcount => ⟨lt_of_counts hcount, decide_eq_true hcount⟩⟩

theorem nodup_sizes (table : DenseTable) : table.sizes.Nodup :=
  List.nodup_range.filter _

@[simp] theorem map_size_modes (table : DenseTable) :
    table.modes.map Mode.size = table.sizes := by
  simp [modes, Function.comp_def]

theorem pairwise_modes (table : DenseTable) :
    table.modes.Pairwise fun left right => left.size ≤ right.size := by
  have hsorted : table.sizes.Pairwise (· < ·) := List.pairwise_lt_range.filter _
  rw [← map_size_modes, List.pairwise_map] at hsorted
  exact hsorted.imp fun hlt => hlt.le

theorem sizesOf_modes (table : DenseTable) :
    sizesOf table.modes = table.sortedSizes := by
  have hfilter : ∀ sizes : List ℕ,
      ((sizes.filter fun size => table.counts size ≠ 0).flatMap fun size =>
        List.replicate (table.counts size) size) =
      sizes.flatMap fun size => List.replicate (table.counts size) size := by
    intro sizes
    induction sizes with
    | nil => rfl
    | cons size rest ih =>
        by_cases hcount : table.counts size = 0
        · simpa [hcount] using ih
        · simpa [hcount] using ih
  simp only [sizesOf, modes, List.flatMap_map, sortedSizes, sizes, hfilter]

theorem length_sortedSizes (table : DenseTable) :
    table.sortedSizes.length = table.total := by
  have hlength : ∀ sizes : List ℕ,
      (sizes.flatMap fun size =>
        List.replicate (table.counts size) size).length =
      (sizes.map table.counts).sum := fun sizes => by
    simp [List.length_flatMap]
  rw [sortedSizes, total, hlength]

/-- A table that counts something ranks something. -/
theorem rankedModes_ne_nil (hpos : 0 < table.total) : table.rankedModes ≠ [] := by
  intro hempty
  have hperm := ranked_perm Mode.rank table.modes
  rw [rankedModes] at hempty
  rw [hempty] at hperm
  rw [← length_sortedSizes, ← sizesOf_modes, hperm.symm.eq_nil] at hpos
  exact absurd hpos (lt_irrefl 0)

theorem count_flatMap_replicate {counts : ℕ → ℕ} {sizes : List ℕ}
    (hnodup : sizes.Nodup) :
    (sizes.flatMap fun size => List.replicate (counts size) size).count size =
      if size ∈ sizes then counts size else 0 := by
  induction sizes with
  | nil => rfl
  | cons other rest ih =>
      obtain ⟨hnew, hrest⟩ := List.nodup_cons.mp hnodup
      rw [List.flatMap_cons, List.count_append, ih hrest,
        List.count_replicate]
      by_cases hsame : other = size
      · subst hsame
        simp [hnew]
      · simp [hsame, Ne.symm hsame]

theorem count_sortedSizes (table : DenseTable) (size : ℕ) :
    table.sortedSizes.count size = table.counts size := by
  rw [sortedSizes, count_flatMap_replicate List.nodup_range]
  split
  · rfl
  · next hbeyond =>
      rw [List.mem_range, not_lt] at hbeyond
      exact (table.counts_beyond size hbeyond).symm

/-- The table sorts what was recorded. -/
theorem sortedSizes_run (calls : List HistogramCall) :
    (run calls).sortedSizes = (recorded calls).insertionSort (· ≤ ·) := by
  have hperm : (run calls).sortedSizes.Perm (recorded calls) := by
    rw [List.perm_iff_count]
    intro size
    rw [count_sortedSizes, counts_run]
  have hsorted : (run calls).sortedSizes.Pairwise (· ≤ ·) := by
    rw [sortedSizes, List.pairwise_flatMap]
    refine ⟨fun size _ => ?_, ?_⟩
    · exact List.pairwise_replicate.mpr (.inr (le_refl size))
    · refine List.pairwise_lt_range.imp fun {left right} hlt => ?_
      intro x hx y hy
      rw [List.eq_of_mem_replicate hx, List.eq_of_mem_replicate hy]
      exact hlt.le
  exact (hperm.trans (List.perm_insertionSort _ _).symm).eq_of_pairwise
    (fun _ _ _ _ => le_antisymm) hsorted (List.pairwise_insertionSort _ _)

theorem total_run (calls : List HistogramCall) :
    (run calls).total = (recorded calls).length := by
  rw [← length_sortedSizes, sortedSizes_run, List.length_insertionSort]

/-! ## The argmax -/

theorem idxOf_range {bound : ℕ} (hsize : size < bound) :
    (List.range bound).idxOf size = size := by
  have hplace := List.nodup_range.idxOf_getElem size
    (by rwa [List.length_range] : size < (List.range bound).length)
  rwa [List.getElem_range] at hplace

/-- What the argmax over the cells is. -/
theorem dominantSize_spec (table : DenseTable) :
    (∀ size, table.counts size ≤ table.counts table.dominantSize) ∧
      ∀ size, table.counts size = table.counts table.dominantSize →
        size < maxSize → table.dominantSize ≤ size := by
  have hrange : List.range maxSize ≠ [] := by
    rw [Ne, List.range_eq_nil, maxSize]
    exact Nat.succ_ne_zero _
  cases htop : (List.range maxSize).argmax table.counts with
  | none => exact absurd (List.argmax_eq_none.mp htop) hrange
  | some top =>
      obtain ⟨hmem, hgreatest, hfirst⟩ := List.argmax_eq_some_iff.mp htop
      have hdominant : table.dominantSize = top := by
        rw [dominantSize, htop, Option.getD_some]
      rw [hdominant]
      refine ⟨fun size => ?_, fun size hsame hsize => ?_⟩
      · by_cases hsize : size < maxSize
        · exact hgreatest size (List.mem_range.mpr hsize)
        · rw [table.counts_beyond size (by omega)]
          exact Nat.zero_le _
      · have hplace := hfirst size (List.mem_range.mpr hsize) hsame.ge
        rwa [idxOf_range (List.mem_range.mp hmem), idxOf_range hsize] at hplace

/-- The mode of least rank has the first of the greatest counts. -/
theorem dominantSize_eq_argmin (table : DenseTable) :
    table.dominantSize =
      ((table.modes.argmin Mode.rank).map Mode.size).getD 0 := by
  obtain ⟨hgreatest, hfirst⟩ := table.dominantSize_spec
  cases hleast : table.modes.argmin Mode.rank with
  | none =>
      have hempty : table.sizes = [] := by
        rw [← map_size_modes, List.argmin_eq_none.mp hleast, List.map_nil]
      have hzero : ∀ size, table.counts size = 0 := fun size => by
        by_contra hcount
        exact List.not_mem_nil (hempty ▸ mem_sizes.mpr hcount)
      have hpos : 0 < maxSize := Nat.succ_pos _
      exact Nat.le_zero.mp (hfirst 0 (by rw [hzero, hzero]) hpos)
  | some least =>
      obtain ⟨size, hsize, rfl⟩ := List.mem_map.mp (List.argmin_mem hleast)
      have hcount := mem_sizes.mp hsize
      have htop : table.dominantSize ∈ table.sizes :=
        mem_sizes.mpr fun hzero =>
          hcount (Nat.le_zero.mp (hzero ▸ hgreatest size))
      have hmem : ⟨table.dominantSize, table.counts table.dominantSize⟩ ∈
          table.modes := List.mem_map.mpr ⟨_, htop, rfl⟩
      have hrank := List.le_of_mem_argmin hmem hleast
      rw [← not_lt, Mode.rank_lt_iff] at hrank
      push Not at hrank
      dsimp only at hrank
      have hsame : table.counts size = table.counts table.dominantSize :=
        (hgreatest size).antisymm hrank.1
      have hle := hfirst size hsame (lt_of_counts hcount)
      rw [Option.map_some, Option.getD_some]
      exact le_antisymm hle (hrank.2 hsame.symm)

end DenseTable

end TbjitAlloc.Analysis
