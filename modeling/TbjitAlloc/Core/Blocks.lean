import Mathlib

/-!
# Streams cut into blocks

A stream is cut into consecutive blocks of a fixed width; the last, incomplete
block is its tail.  A property of adjacent positions can be followed by a
counter that a failure resets, and the counter says how many of the latest
positions have it.
-/

namespace TbjitAlloc.Blocks

variable {A : Type*}

/-! ## Blocks -/

/-- The block with the given index. -/
def block (width : ℕ) (items : List A) (index : ℕ) : List A :=
  (items.drop (index * width)).take width

/-- The items after the last complete block. -/
def blockTail (width : ℕ) (items : List A) : List A :=
  items.drop (items.length / width * width)

section Appending

variable {width : ℕ} {items : List A}

theorem blockTail_length :
    (blockTail width items).length = items.length % width := by
  rw [blockTail, List.length_drop, Nat.mod_def, Nat.mul_comm]

@[simp] theorem blockTail_nil : blockTail width ([] : List A) = [] := by
  simp [blockTail]

theorem block_length {index : ℕ}
    (hcomplete : (index + 1) * width ≤ items.length) :
    (block width items index).length = width := by
  rw [Nat.add_one_mul] at hcomplete
  rw [block, List.length_take, List.length_drop]
  omega

/-- A complete block is not changed by what follows it. -/
theorem block_append {index : ℕ} (suffix : List A)
    (hcomplete : (index + 1) * width ≤ items.length) :
    block width (items ++ suffix) index = block width items index := by
  have hexpand : (index + 1) * width = index * width + width := by ring
  rw [block, block, List.drop_append_of_le_length (by omega),
    List.take_append_of_le_length (by rw [List.length_drop]; omega)]

theorem length_succ_div (hfull : (blockTail width items).length + 1 = width) :
    (items.length + 1) / width = items.length / width + 1 := by
  rw [blockTail_length] at hfull
  have hdvd : width ∣ items.length + 1 := by
    rw [Nat.dvd_iff_mod_eq_zero, Nat.add_mod_eq_ite]
    have hmod := Nat.mod_lt items.length (show 0 < width by omega)
    by_cases hone : width = 1
    · simp [hone, Nat.mod_one]
    · have : 1 % width = 1 := Nat.mod_eq_of_lt (by omega)
      rw [this, if_pos (by omega)]
      omega
  exact Nat.succ_div_of_dvd hdvd

/-- The item that completes a block makes the old tail and itself that block. -/
theorem block_append_of_full (item : A)
    (hfull : (blockTail width items).length + 1 = width) :
    block width (items ++ [item]) (items.length / width) =
      blockTail width items ++ [item] := by
  rw [block, List.drop_append_of_le_length (Nat.div_mul_le_self _ _),
    ← blockTail, List.take_of_length_le]
  rw [List.length_append, List.length_singleton, hfull]

theorem blockTail_append_of_full (item : A)
    (hfull : (blockTail width items).length + 1 = width) :
    blockTail width (items ++ [item]) = [] := by
  rw [blockTail, List.drop_eq_nil_iff, List.length_append,
    List.length_singleton, length_succ_div hfull]
  have hlength := Nat.div_add_mod' items.length width
  rw [blockTail_length] at hfull
  rw [Nat.add_one_mul]
  omega

theorem length_succ_div_of_room
    (hroom : (blockTail width items).length + 1 < width) :
    (items.length + 1) / width = items.length / width := by
  rw [blockTail_length] at hroom
  refine Nat.succ_div_of_not_dvd fun hdvd => ?_
  have hlength := Nat.div_add_mod' items.length width
  obtain ⟨count, hcount⟩ := hdvd
  have hlow : width * (items.length / width) < width * count := by
    rw [Nat.mul_comm]
    omega
  have hnext := Nat.mul_le_mul_left width (Nat.lt_of_mul_lt_mul_left hlow)
  rw [Nat.mul_succ, Nat.mul_comm] at hnext
  omega

/-- An item that leaves room joins the tail. -/
theorem blockTail_append_of_room (item : A)
    (hroom : (blockTail width items).length + 1 < width) :
    blockTail width (items ++ [item]) = blockTail width items ++ [item] := by
  rw [blockTail, List.length_append, List.length_singleton,
    length_succ_div_of_room hroom,
    List.drop_append_of_le_length (Nat.div_mul_le_self _ _), ← blockTail]

/-- A block is complete at exactly the positions the division counts. -/
theorem block_complete_iff {index : ℕ} (hwidth : 0 < width) :
    (index + 1) * width ≤ items.length ↔ index < items.length / width := by
  rw [← Nat.le_div_iff_mul_le hwidth, Nat.succ_le_iff]

end Appending

/-! ## Streaks -/

section Streaks

variable (holds : ℕ → Prop) [DecidablePred holds]

/-- How many of the positions just below `position` have the property without
interruption. -/
def streak : ℕ → ℕ
  | 0 => 0
  | position + 1 => if holds position then streak position + 1 else 0

/-- A streak of a given length is that many positions in a row. -/
theorem le_streak_iff {length position : ℕ} :
    length ≤ streak holds position ↔
      length ≤ position ∧
        ∀ i, position - length ≤ i → i < position → holds i := by
  induction position generalizing length with
  | zero =>
      simp only [streak, Nat.le_zero]
      exact ⟨fun h => ⟨h, fun i _ hlt => absurd hlt (Nat.not_lt_zero i)⟩, And.left⟩
  | succ position ih =>
      cases length with
      | zero =>
          simp only [Nat.zero_le, true_and, true_iff, Nat.sub_zero]
          intro i hlow hhigh
          omega
      | succ length =>
          rw [streak]
          split
          · next hholds =>
              rw [Nat.add_le_add_iff_right, ih, Nat.add_le_add_iff_right]
              refine and_congr_right fun _ => ⟨fun hrun i hlow hhigh => ?_,
                fun hrun i hlow hhigh => hrun i (by omega) (by omega)⟩
              rcases Nat.lt_succ_iff_lt_or_eq.mp hhigh with hlt | rfl
              · exact hrun i (by omega) hlt
              · exact hholds
          · next hfails =>
              refine iff_of_false (by omega) fun hrun => hfails ?_
              exact hrun.2 position (by omega) (by omega)

theorem streak_congr {other : ℕ → Prop} [DecidablePred other]
    {position : ℕ} (hsame : ∀ i < position, holds i ↔ other i) :
    streak holds position = streak other position := by
  induction position with
  | zero => rfl
  | succ position ih =>
      rw [streak, streak, ih fun i hi => hsame i (by omega)]
      simp only [hsame position (by omega)]

end Streaks

end TbjitAlloc.Blocks
