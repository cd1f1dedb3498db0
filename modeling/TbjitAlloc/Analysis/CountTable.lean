import TbjitAlloc.Analysis.ModeOrder

/-!
# The table a list of sizes leaves

Recording sizes one after another tracks the first distinct ones, as many as
there is room for, each with the number of times it occurs.  While there is
room for all of them the table depends on the order of the sizes only in its
layout.
-/

namespace TbjitAlloc.Analysis

open ExactHistogram (bumpCount)
open Codegen (maxSize)

/-! ## Distinct sizes -/

section Distinct

variable {sizes left right : List ℕ} {size : ℕ}

theorem eraseDups_append_of_mem (hmem : size ∈ sizes) :
    (sizes ++ [size]).eraseDups = sizes.eraseDups := by
  rw [List.eraseDups_append]
  simp [List.removeAll, hmem]

theorem eraseDups_append_of_notMem (hmem : size ∉ sizes) :
    (sizes ++ [size]).eraseDups = sizes.eraseDups ++ [size] := by
  rw [List.eraseDups_append]
  simp [List.removeAll, hmem, List.eraseDups_cons]

theorem nodup_eraseDups (sizes : List ℕ) : sizes.eraseDups.Nodup := by
  induction sizes using List.reverseRecOn with
  | nil => exact List.nodup_nil
  | append_singleton sizes size ih =>
      by_cases hmem : size ∈ sizes
      · rwa [eraseDups_append_of_mem hmem]
      · rw [eraseDups_append_of_notMem hmem]
        refine ih.append (List.nodup_singleton size) ?_
        simpa [List.mem_eraseDups] using hmem

theorem eraseDups_perm (hperm : left.Perm right) :
    left.eraseDups.Perm right.eraseDups := by
  rw [List.perm_ext_iff_of_nodup (nodup_eraseDups left) (nodup_eraseDups right)]
  intro size
  rw [List.mem_eraseDups, List.mem_eraseDups, hperm.mem_iff]

end Distinct

/-! ## The table -/

/-- The first `capacity` distinct sizes of a list with their counts. -/
def countTable (capacity : ℕ) (sizes : List ℕ) : List Mode :=
  (sizes.eraseDups.take capacity).map fun size => ⟨size, sizes.count size⟩

variable {capacity size : ℕ} {sizes left right : List ℕ}

@[simp] theorem map_size_countTable :
    (countTable capacity sizes).map Mode.size =
      sizes.eraseDups.take capacity := by
  simp [countTable, Function.comp_def]

theorem nodup_countTable (capacity : ℕ) (sizes : List ℕ) :
    ((countTable capacity sizes).map Mode.size).Nodup := by
  rw [map_size_countTable]
  exact (nodup_eraseDups sizes).sublist (List.take_sublist _ _)

theorem length_countTable :
    (countTable capacity sizes).length =
      min capacity sizes.eraseDups.length := by
  simp [countTable]

theorem mem_take_of_mem_eraseDups
    (htracked : size ∈ sizes.eraseDups.take capacity) : size ∈ sizes :=
  List.mem_eraseDups.mp (List.mem_of_mem_take htracked)

/-- A tracked size gains one. -/
theorem countTable_append_of_tracked
    (htracked : size ∈ sizes.eraseDups.take capacity) :
    countTable capacity (sizes ++ [size]) =
      (countTable capacity sizes).map (bumpCount size) := by
  rw [countTable, eraseDups_append_of_mem (mem_take_of_mem_eraseDups htracked),
    countTable, List.map_map]
  refine List.map_congr_left fun other _ => ?_
  by_cases hother : other = size
  · simp [bumpCount, hother]
  · simp [bumpCount, hother, Ne.symm hother]

/-- A new size is tracked while there is room. -/
theorem countTable_append_of_room (hnew : size ∉ sizes)
    (hroom : sizes.eraseDups.length < capacity) :
    countTable capacity (sizes ++ [size]) =
      countTable capacity sizes ++ [⟨size, 1⟩] := by
  rw [countTable, eraseDups_append_of_notMem hnew, countTable,
    List.take_of_length_le (by simpa using hroom),
    List.take_of_length_le (by omega), List.map_append]
  congr 1
  · refine List.map_congr_left fun other hother => ?_
    have hne : size ≠ other :=
      fun h => hnew (h ▸ List.mem_eraseDups.mp hother)
    simp [hne]
  · simp [List.count_eq_zero.mpr hnew]

/-- A size that is not tracked leaves a full table alone. -/
theorem countTable_append_of_full
    (hlost : size ∉ sizes.eraseDups.take capacity)
    (hfull : capacity ≤ sizes.eraseDups.length) :
    countTable capacity (sizes ++ [size]) = countTable capacity sizes := by
  have hkeys : (sizes ++ [size]).eraseDups.take capacity =
      sizes.eraseDups.take capacity := by
    by_cases hmem : size ∈ sizes
    · rw [eraseDups_append_of_mem hmem]
    · rw [eraseDups_append_of_notMem hmem, List.take_append_of_le_length hfull]
  rw [countTable, hkeys, countTable]
  refine List.map_congr_left fun other hother => ?_
  have hne : size ≠ other := fun h => hlost (h ▸ hother)
  simp [hne]

/-- A size that finds a full table is distinct from all that are tracked. -/
theorem lt_length_eraseDups_append
    (hlost : size ∉ sizes.eraseDups.take capacity)
    (hfull : capacity ≤ sizes.eraseDups.length) :
    capacity < (sizes ++ [size]).eraseDups.length := by
  by_cases hmem : size ∈ sizes
  · rw [eraseDups_append_of_mem hmem]
    by_contra hle
    rw [List.take_of_length_le (by omega)] at hlost
    exact hlost (List.mem_eraseDups.mpr hmem)
  · rw [eraseDups_append_of_notMem hmem, List.length_append,
      List.length_singleton]
    omega

/-- With room for every distinct size, only the layout depends on the order. -/
theorem countTable_perm (hperm : left.Perm right)
    (hfits : left.eraseDups.length ≤ capacity) :
    (countTable capacity left).Perm (countTable capacity right) := by
  have hkeys := eraseDups_perm hperm
  rw [countTable, countTable, List.take_of_length_le hfits,
    List.take_of_length_le (hkeys.length_eq ▸ hfits)]
  have hcounts : (fun size => (⟨size, left.count size⟩ : Mode)) =
      fun size => ⟨size, right.count size⟩ := by
    funext size
    rw [hperm.count_eq]
  rw [hcounts]
  exact hkeys.map _

/-! ## The histogram of a list of sizes -/

namespace ExactHistogram

/-- The sizes a histogram counts. -/
def trackable (sizes : List ℕ) : List ℕ :=
  sizes.filter fun size => size < maxSize

theorem trackable_append (sizes : List ℕ) (size : ℕ) :
    trackable (sizes ++ [size]) =
      if size < maxSize then trackable sizes ++ [size] else trackable sizes := by
  rw [trackable, List.filter_append]
  split <;> simp_all [trackable]

theorem trackable_perm (hperm : left.Perm right) :
    (trackable left).Perm (trackable right) := hperm.filter _

/-- A histogram that holds what a list of sizes leaves. -/
structure Holds (hist : ExactHistogram) (sizes : List ℕ) : Prop where
  entries : hist.entries = countTable cap sizes
  total : hist.total = sizes.length
  overflow : hist.overflow = decide (cap < sizes.eraseDups.length)

theorem Holds.any_iff {hist : ExactHistogram} (hholds : hist.Holds sizes) :
    (hist.entries.any fun entry => entry.size = size) = true ↔
      size ∈ sizes.eraseDups.take cap := by
  rw [hholds.entries, ← map_size_countTable, List.any_eq_true, List.mem_map]
  simp

theorem holds_record {hist : ExactHistogram} (hholds : hist.Holds sizes)
    (hsize : size < maxSize) : (hist.record size).Holds (sizes ++ [size]) := by
  have hlength : hist.total + 1 = (sizes ++ [size]).length := by
    rw [hholds.total, List.length_append, List.length_singleton]
  have hcount : hist.entries.length = min cap sizes.eraseDups.length := by
    rw [hholds.entries, length_countTable]
  rw [record, if_neg (by omega)]
  split
  · next hany =>
      have htracked := hholds.any_iff.mp hany
      refine ⟨?_, hlength, ?_⟩
      · rw [countTable_append_of_tracked htracked, ← hholds.entries]
      · rw [eraseDups_append_of_mem (mem_take_of_mem_eraseDups htracked)]
        exact hholds.overflow
  · next hany =>
      have hlost := hholds.any_iff.not.mp hany
      split
      · next hroom =>
          have hshort : sizes.eraseDups.length < cap := by omega
          have hnew : size ∉ sizes := by
            rwa [List.take_of_length_le (by omega), List.mem_eraseDups]
              at hlost
          refine ⟨?_, hlength, ?_⟩
          · rw [countTable_append_of_room hnew hshort, ← hholds.entries]
          · rw [eraseDups_append_of_notMem hnew, List.length_append,
              List.length_singleton]
            change hist.overflow = _
            rw [hholds.overflow]
            simp only [decide_eq_decide]
            omega
      · next hfull =>
          refine ⟨?_, hlength, ?_⟩
          · rw [countTable_append_of_full hlost (by omega)]
            exact hholds.entries
          · exact (decide_eq_true
              (lt_length_eraseDups_append hlost (by omega))).symm

theorem holds_ofSizes (sizes : List ℕ) :
    (ofSizes sizes).Holds (trackable sizes) := by
  induction sizes using List.reverseRecOn with
  | nil => exact ⟨rfl, rfl, rfl⟩
  | append_singleton sizes size ih =>
      rw [ofSizes_append_singleton, trackable_append]
      split
      · next hsize => exact holds_record ih hsize
      · next hsize => rwa [record, if_pos (by omega)]

end ExactHistogram

end TbjitAlloc.Analysis
