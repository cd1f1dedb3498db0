import Mathlib

/-!
# Bitmaps

A set of numbers kept as the bits of an array of words of equal width.  Adding
and removing a number change one word by one mask.
-/

namespace TbjitAlloc.Bitmap

variable {w : ℕ}

/-- The word with one bit. -/
def mask (w offset : ℕ) : BitVec w := 1#w <<< offset

def setBit (words : ℕ → BitVec w) (bit : ℕ) : ℕ → BitVec w :=
  Function.update words (bit / w) (words (bit / w) ||| mask w (bit % w))

def clearBit (words : ℕ → BitVec w) (bit : ℕ) : ℕ → BitVec w :=
  Function.update words (bit / w) (words (bit / w) &&& ~~~mask w (bit % w))

def testBit (words : ℕ → BitVec w) (bit : ℕ) : Bool :=
  (words (bit / w) >>> (bit % w)) &&& 1#w ≠ 0#w

variable {words : ℕ → BitVec w} {bit other : ℕ}

theorem getLsbD_mask {offset index : ℕ} (hindex : index < w) :
    (mask w offset).getLsbD index = decide (index = offset) := by
  rw [mask, BitVec.getLsbD_shiftLeft, BitVec.getLsbD_one,
    Bool.eq_iff_iff]
  simp only [Bool.and_eq_true, Bool.not_eq_true', decide_eq_true_eq,
    decide_eq_false_iff_not]
  omega

/-- A shifted and masked word shows one bit. -/
theorem testBit_eq (hpos : 0 < w) :
    testBit words bit = (words (bit / w)).getLsbD (bit % w) := by
  rw [testBit, Bool.eq_iff_iff, decide_eq_true_eq]
  constructor
  · intro hne
    by_contra hbit
    rw [Bool.not_eq_true] at hbit
    refine hne (BitVec.eq_of_getLsbD_eq fun index hindex => ?_)
    rw [BitVec.getLsbD_and, BitVec.getLsbD_one, BitVec.getLsbD_ushiftRight,
      BitVec.getLsbD_zero]
    by_cases hzero : index = 0
    · rw [hzero, add_zero, hbit, Bool.false_and]
    · rw [decide_eq_false hzero, Bool.and_false, Bool.and_false]
  · intro hbit hzero
    have hfirst := congrArg (fun word => word.getLsbD 0) hzero
    rw [BitVec.getLsbD_and, BitVec.getLsbD_one, BitVec.getLsbD_ushiftRight,
      BitVec.getLsbD_zero, add_zero, hbit, decide_eq_true hpos] at hfirst
    cases hfirst

theorem bit_eq_iff : other / w = bit / w ∧ other % w = bit % w ↔ other = bit := by
  constructor
  · rintro ⟨hdiv, hmod⟩
    rw [← Nat.div_add_mod other w, hdiv, hmod, Nat.div_add_mod]
  · rintro rfl
    exact ⟨rfl, rfl⟩

/-- Setting a bit adds its number and no other. -/
theorem testBit_setBit (hpos : 0 < w) :
    testBit (setBit words bit) other = (decide (other = bit) ||
      testBit words other) := by
  rw [testBit_eq hpos, testBit_eq hpos, setBit]
  by_cases hword : other / w = bit / w
  · rw [hword, Function.update_self, BitVec.getLsbD_or,
      getLsbD_mask (Nat.mod_lt _ hpos), Bool.or_comm]
    congr 1
    rw [decide_eq_decide]
    exact ⟨fun h => bit_eq_iff.mp ⟨hword, h⟩, fun heq => heq ▸ rfl⟩
  · have hne : other ≠ bit := fun heq => hword (heq ▸ rfl)
    rw [Function.update_of_ne hword, decide_eq_false hne, Bool.false_or]

/-- Clearing a bit removes its number and no other. -/
theorem testBit_clearBit (hpos : 0 < w) :
    testBit (clearBit words bit) other = (!decide (other = bit) &&
      testBit words other) := by
  rw [testBit_eq hpos, testBit_eq hpos, clearBit]
  by_cases hword : other / w = bit / w
  · rw [hword, Function.update_self, BitVec.getLsbD_and, BitVec.getLsbD_not,
      getLsbD_mask (Nat.mod_lt _ hpos), decide_eq_true (Nat.mod_lt _ hpos),
      Bool.true_and, Bool.and_comm]
    congr 2
    rw [decide_eq_decide]
    exact ⟨fun h => bit_eq_iff.mp ⟨hword, h⟩, fun heq => heq ▸ rfl⟩
  · have hne : other ≠ bit := fun heq => hword (heq ▸ rfl)
    rw [Function.update_of_ne hword, decide_eq_false hne, Bool.not_false,
      Bool.true_and]

end TbjitAlloc.Bitmap
