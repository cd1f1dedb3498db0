import Mathlib

/-!
# Equal-sized pieces of a range

A range of memory is cut into pieces of one size, laid end to end from its
start.  Pieces with different numbers do not overlap, and a piece whose number
is below the quotient of the range by the size lies inside the range.
-/

namespace TbjitAlloc.Carving

/-- Start of the piece with the given number. -/
def piece (start size number : ℕ) : ℕ :=
  start + number * size

/-- The starts of the first `count` pieces. -/
def pieces (start size count : ℕ) : List ℕ :=
  (List.range count).map (piece start size)

/-- Two half-open ranges share no address. -/
def Disjoint (left leftSize right rightSize : ℕ) : Prop :=
  left + leftSize ≤ right ∨ right + rightSize ≤ left

theorem Disjoint.symm {left leftSize right rightSize : ℕ}
    (hdisjoint : Disjoint left leftSize right rightSize) :
    Disjoint right rightSize left leftSize :=
  Or.symm hdisjoint

@[simp]
theorem piece_zero (start size : ℕ) : piece start size 0 = start := by
  simp [piece]

theorem piece_succ (start size number : ℕ) :
    piece start size (number + 1) = piece start size number + size := by
  simp only [piece, Nat.add_mul, Nat.one_mul, Nat.add_assoc]

theorem piece_add_le (start size : ℕ) {left right : ℕ} (hlt : left < right) :
    piece start size left + size ≤ piece start size right := by
  have hmul : (left + 1) * size ≤ right * size :=
    Nat.mul_le_mul_right size hlt
  rw [Nat.add_mul, Nat.one_mul] at hmul
  unfold piece
  omega

theorem start_le_piece (start size number : ℕ) :
    start ≤ piece start size number :=
  Nat.le_add_right _ _

theorem piece_disjoint (start size : ℕ) {left right : ℕ} (hne : left ≠ right) :
    Disjoint (piece start size left) size (piece start size right) size := by
  rcases Nat.lt_or_gt_of_ne hne with hlt | hlt
  · exact Or.inl (piece_add_le start size hlt)
  · exact Or.inr (piece_add_le start size hlt)

theorem piece_injective (start : ℕ) {size : ℕ} (hsize : 0 < size) :
    Function.Injective (piece start size) := by
  intro left right heq
  by_contra hne
  rcases piece_disjoint start size hne with h | h <;> omega

/-- A piece fits below a limit exactly when its number is below the number of
whole pieces between the start and the limit. -/
theorem piece_add_le_iff {start size number length : ℕ} (hsize : 0 < size) :
    piece start size number + size ≤ start + length ↔
      number < length / size := by
  rw [Nat.lt_iff_add_one_le, Nat.le_div_iff_mul_le hsize, Nat.add_mul,
    Nat.one_mul, piece]
  omega

/-- The same, for a range given by its end. -/
theorem piece_add_le_iff_of_le {start size number limit : ℕ} (hsize : 0 < size)
    (hle : start ≤ limit) :
    piece start size number + size ≤ limit ↔
      number < (limit - start) / size := by
  rw [← piece_add_le_iff hsize, Nat.add_sub_cancel' hle]

@[simp]
theorem mem_pieces {start size count address : ℕ} :
    address ∈ pieces start size count ↔
      ∃ number < count, piece start size number = address := by
  simp [pieces]

@[simp]
theorem length_pieces (start size count : ℕ) :
    (pieces start size count).length = count := by
  simp [pieces]

theorem pieces_succ (start size count : ℕ) :
    pieces start size (count + 1) =
      pieces start size count ++ [piece start size count] := by
  simp [pieces, List.range_succ]

theorem pieces_nodup (start : ℕ) {size : ℕ} (hsize : 0 < size) (count : ℕ) :
    (pieces start size count).Nodup :=
  List.nodup_range.map (piece_injective start hsize)

end TbjitAlloc.Carving
