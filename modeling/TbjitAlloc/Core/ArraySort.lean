import Mathlib

/-!
# Insertion sort on an array

The sort as it is written with two loops over the cells of an array.  The inner
loop moves greater cells up by one until the value finds its place.  Sorting the
first cells leaves them in ascending order, the same values as before, and does
not touch the others.
-/

namespace TbjitAlloc.ArraySort

variable {α : Type*}

/-- The first `count` cells. -/
def cells (array : ℕ → α) (count : ℕ) : List α :=
  (List.range count).map array

section Cells

variable {count place : ℕ}

theorem cells_succ (array : ℕ → α) (count : ℕ) :
    cells array (count + 1) = cells array count ++ [array count] := by
  rw [cells, List.range_succ, List.map_append]
  rfl

/-- A cell behind the first ones is none of theirs. -/
theorem cells_update (array : ℕ → α) (value : α) (hplace : count ≤ place) :
    cells (Function.update array place value) count = cells array count := by
  refine List.map_congr_left fun index hindex => ?_
  rw [List.mem_range] at hindex
  exact Function.update_of_ne (by omega) _ _

end Cells

variable [LinearOrder α]

/-- The inner loop, for a value that is to be placed at or below `place`. -/
def sink (value : α) : ℕ → (ℕ → α) → ℕ → α
  | 0, array => Function.update array 0 value
  | place + 1, array =>
      if value < array place then
        sink value place (Function.update array (place + 1) (array place))
      else Function.update array (place + 1) value

section Sorting

variable {array : ℕ → α} {count place : ℕ} {value : α}

theorem sink_of_lt (value : α) (array : ℕ → α) {index : ℕ}
    (hindex : place < index) : sink value place array index = array index := by
  induction place generalizing array with
  | zero => exact Function.update_of_ne (by omega) _ _
  | succ place ih =>
      rw [sink]
      split
      · rw [ih _ (by omega)]
        exact Function.update_of_ne (by omega) _ _
      · exact Function.update_of_ne (by omega) _ _

/-- Sinking puts the value among the cells before its place. -/
theorem perm_sink (value : α) (place : ℕ) (array : ℕ → α) :
    (cells (sink value place array) (place + 1)).Perm
      (value :: cells array place) := by
  induction place generalizing array with
  | zero =>
      rw [sink, cells_succ, Function.update_self]
      exact .refl _
  | succ place ih =>
      rw [sink, cells_succ]
      split
      · rw [sink_of_lt _ _ (Nat.lt_succ_self place), Function.update_self]
        have hmoved := ih (Function.update array (place + 1) (array place))
        rw [cells_update _ _ (Nat.le_succ place)] at hmoved
        rw [cells_succ array place]
        exact hmoved.append_right _
      · rw [Function.update_self, cells_update _ _ le_rfl]
        exact List.perm_append_singleton _ _

theorem pairwise_sink (hsorted : (cells array place).Pairwise (· ≤ ·)) :
    (cells (sink value place array) (place + 1)).Pairwise (· ≤ ·) := by
  induction place generalizing array with
  | zero =>
      rw [cells_succ]
      exact List.pairwise_singleton _ _
  | succ place ih =>
      have hbefore := hsorted
      rw [cells_succ, List.pairwise_append] at hbefore
      obtain ⟨hfirst, -, hlast⟩ := hbefore
      rw [sink, cells_succ]
      split
      · next hless =>
          rw [sink_of_lt _ _ (Nat.lt_succ_self place), Function.update_self,
            List.pairwise_append]
          refine ⟨ih (by rwa [cells_update _ _ (Nat.le_succ place)]),
            List.pairwise_singleton _ _, fun other hother last hmem => ?_⟩
          rw [List.mem_singleton.mp hmem]
          have hold := (perm_sink value place _).subset hother
          rw [cells_update _ _ (Nat.le_succ place)] at hold
          rcases List.mem_cons.mp hold with rfl | hcell
          · exact hless.le
          · exact hlast other hcell _ (List.mem_singleton_self _)
      · next hgreatest =>
          rw [Function.update_self, cells_update _ _ le_rfl,
            List.pairwise_append]
          refine ⟨hsorted, List.pairwise_singleton _ _,
            fun other hother last hmem => ?_⟩
          rw [List.mem_singleton.mp hmem]
          refine le_trans ?_ (not_lt.mp hgreatest)
          rw [cells_succ] at hother
          rcases List.mem_append.mp hother with hcell | hcell
          · exact hlast other hcell _ (List.mem_singleton_self _)
          · exact (List.mem_singleton.mp hcell).le

/-! ## The whole sort -/

/-- What the outer loop has done to the first cells. -/
structure Sorts (array target : ℕ → α) (count : ℕ) : Prop where
  ascending : (cells target count).Pairwise (· ≤ ·)
  perm : (cells target count).Perm (cells array count)
  others : ∀ index, count ≤ index → target index = array index

theorem Sorts.sink {target : ℕ → α} (hsorts : Sorts array target count) :
    Sorts array (sink (target count) count target) (count + 1) where
  ascending := pairwise_sink hsorts.ascending
  perm := by
    have hcell := hsorts.others count le_rfl
    refine (perm_sink (target count) count target).trans ?_
    rw [cells_succ, hcell]
    exact (hsorts.perm.cons _).trans (List.perm_append_singleton _ _).symm
  others index hindex := by
    rw [sink_of_lt _ _ (by omega)]
    exact hsorts.others index (by omega)

end Sorting

end TbjitAlloc.ArraySort
