import TbjitAlloc.Analysis.KsTest
import Mathlib.Data.Real.Basic

/-!
# The merge walk over two lists of modes

A list of modes stands for a step function: the share of the events up to a
threshold.  The gap of two such functions changes at a size only, so the largest
of the gaps the walk looks at is the greatest over all real thresholds.
-/

namespace TbjitAlloc.Analysis

/-! ## Distribution functions -/

/-- The share of the events at sizes up to a threshold. -/
noncomputable def cumulative (total : ℕ) (modes : List Mode) (x : ℝ) : ℚ :=
  (modes.map fun mode =>
    if (mode.size : ℝ) ≤ x then (mode.count : ℚ) / total else 0).sum

section Cumulative

variable {total size : ℕ} {modes left right : List Mode} {x : ℝ}

theorem cumulative_cons (mode : Mode) (modes : List Mode) :
    cumulative total (mode :: modes) x =
      (if (mode.size : ℝ) ≤ x then (mode.count : ℚ) / total else 0) +
        cumulative total modes x := by
  rw [cumulative, List.map_cons, List.sum_cons]
  rfl

theorem cumulative_perm (hperm : left.Perm right) :
    cumulative total left x = cumulative total right x :=
  (hperm.map _).sum_eq

/-- Below every size nothing has accumulated. -/
theorem cumulative_of_lt (hbelow : ∀ mode ∈ modes, x < mode.size) :
    cumulative total modes x = 0 := by
  rw [cumulative]
  refine List.sum_eq_zero fun part hpart => ?_
  obtain ⟨mode, hmode, rfl⟩ := List.mem_map.mp hpart
  exact if_neg (not_le.mpr (hbelow mode hmode))

/-- The entries of the size in front count at every threshold from it on. -/
theorem cumulative_eq_massAt_add (total : ℕ) (modes : List Mode)
    (hsize : (size : ℝ) ≤ x) :
    cumulative total modes x = massAt total size modes +
      cumulative total (modes.dropWhile fun mode => mode.size = size) x := by
  induction modes with
  | nil => simp [cumulative, massAt]
  | cons mode modes ih =>
      rw [massAt, List.takeWhile_cons, List.dropWhile_cons]
      by_cases hfront : mode.size = size
      · have hgoes : decide (mode.size = size) = true := decide_eq_true hfront
        rw [if_pos hgoes, if_pos hgoes, List.map_cons, List.sum_cons,
          cumulative_cons, hfront, if_pos hsize, ih, massAt, add_assoc]
      · have hstops : ¬decide (mode.size = size) = true := by simpa using hfront
        rw [if_neg hstops, if_neg hstops, List.map_nil, List.sum_nil, zero_add]

end Cumulative

/-! ## One round of the walk -/

/-- The order `sorted_modes` leaves. -/
def Ascending (modes : List Mode) : Prop :=
  modes.Pairwise fun left right => left.size ≤ right.size

section Round

variable {size : ℕ} {modes modesA modesB : List Mode}

theorem Ascending.dropWhile (hsorted : Ascending modes) (size : ℕ) :
    Ascending (modes.dropWhile fun mode => mode.size = size) :=
  List.Pairwise.sublist (List.dropWhile_sublist _) hsorted

/-- Once its own entries are consumed, a least size is behind the list. -/
theorem lt_of_mem_dropWhile (hsorted : Ascending modes)
    (hleast : ∀ mode ∈ modes, size ≤ mode.size) :
    ∀ mode ∈ modes.dropWhile (fun mode => mode.size = size),
      size < mode.size := by
  induction modes with
  | nil => exact fun mode hmode => absurd hmode List.not_mem_nil
  | cons first modes ih =>
      obtain ⟨hfirst, hrest⟩ := List.pairwise_cons.mp hsorted
      rw [List.dropWhile_cons]
      by_cases hfront : first.size = size
      · rw [if_pos (decide_eq_true hfront)]
        exact ih hrest fun mode hmode =>
          hleast mode (List.mem_cons_of_mem _ hmode)
      · rw [if_neg (by simpa using hfront)]
        have hlt : size < first.size :=
          lt_of_le_of_ne (hleast first List.mem_cons_self) (Ne.symm hfront)
        intro mode hmode
        rcases List.mem_cons.mp hmode with rfl | hmode
        · exact hlt
        · exact hlt.trans_le (hfirst mode hmode)

/-- The walk stops when both lists are used up. -/
theorem nextSize_eq_none :
    nextSize modesA modesB = none ↔ modesA = [] ∧ modesB = [] := by
  cases modesA <;> cases modesB <;> simp [nextSize]

/-- It goes on at the least size left, which is that of some entry. -/
theorem nextSize_spec (hsortedA : Ascending modesA)
    (hsortedB : Ascending modesB) (hnext : nextSize modesA modesB = some size) :
    (∀ mode ∈ modesA, size ≤ mode.size) ∧
      (∀ mode ∈ modesB, size ≤ mode.size) ∧
      ∃ mode ∈ modesA ++ modesB, mode.size = size := by
  cases modesA with
  | nil =>
      cases modesB with
      | nil => cases hnext
      | cons right modesB =>
          obtain rfl := Option.some.inj hnext
          refine ⟨fun mode hmode => absurd hmode List.not_mem_nil,
            fun mode hmode => ?_, right, List.mem_cons_self, rfl⟩
          rcases List.mem_cons.mp hmode with rfl | hmode
          · exact le_rfl
          · exact (List.pairwise_cons.mp hsortedB).1 mode hmode
  | cons left modesA =>
      have hleft : ∀ mode ∈ left :: modesA, left.size ≤ mode.size := by
        intro mode hmode
        rcases List.mem_cons.mp hmode with rfl | hmode
        · exact le_rfl
        · exact (List.pairwise_cons.mp hsortedA).1 mode hmode
      cases modesB with
      | nil =>
          obtain rfl := Option.some.inj hnext
          exact ⟨hleft, fun mode hmode => absurd hmode List.not_mem_nil, left,
            List.mem_cons_self, rfl⟩
      | cons right modesB =>
          have hright : ∀ mode ∈ right :: modesB, right.size ≤ mode.size := by
            intro mode hmode
            rcases List.mem_cons.mp hmode with rfl | hmode
            · exact le_rfl
            · exact (List.pairwise_cons.mp hsortedB).1 mode hmode
          obtain rfl := Option.some.inj hnext
          by_cases hless : left.size < right.size
          · rw [if_pos hless]
            exact ⟨hleft, fun mode hmode => hless.le.trans (hright mode hmode),
              left, List.mem_append_left _ List.mem_cons_self, rfl⟩
          · rw [if_neg hless]
            have hless := not_lt.mp hless
            exact ⟨fun mode hmode => hless.trans (hleft mode hmode), hright,
              right, List.mem_append_right _ List.mem_cons_self, rfl⟩

end Round

/-! ## The gap -/

section Walk

variable {totalA totalB : ℕ}

/-- The distance of the two functions at a threshold, from what has accumulated
before the entries that are left. -/
noncomputable def gap (totalA totalB : ℕ) (modesA modesB : List Mode)
    (cumA cumB : ℚ) (x : ℝ) : ℚ :=
  |(cumA + cumulative totalA modesA x) - (cumB + cumulative totalB modesB x)|

/-- A round that consumes the entries of a size keeps the gaps from that size
on. -/
theorem gap_dropWhile {size : ℕ} {x : ℝ} (hsize : (size : ℝ) ≤ x)
    (modesA modesB : List Mode) (cumA cumB : ℚ) :
    gap totalA totalB (modesA.dropWhile fun mode => mode.size = size)
        (modesB.dropWhile fun mode => mode.size = size)
        (cumA + massAt totalA size modesA) (cumB + massAt totalB size modesB)
        x =
      gap totalA totalB modesA modesB cumA cumB x := by
  rw [gap, gap, cumulative_eq_massAt_add totalA modesA hsize,
    cumulative_eq_massAt_add totalB modesB hsize, add_assoc, add_assoc]

/-- Ahead of every entry the gap is the one accumulated so far. -/
theorem gap_of_lt {modesA modesB : List Mode} {cumA cumB : ℚ} {x : ℝ}
    (hbelow : ∀ mode ∈ modesA ++ modesB, x < mode.size) :
    gap totalA totalB modesA modesB cumA cumB x = |cumA - cumB| := by
  rw [gap, cumulative_of_lt fun mode hmode =>
      hbelow mode (List.mem_append_left _ hmode),
    cumulative_of_lt fun mode hmode =>
      hbelow mode (List.mem_append_right _ hmode), add_zero, add_zero]

/-- The result of a walk: it bounds the largest gap so far and every gap at or
after an entry that is left, and it is one of them. -/
structure WalkResult (totalA totalB : ℕ) (modesA modesB : List Mode)
    (cumA cumB largest result : ℚ) : Prop where
  largest_le : largest ≤ result
  gap_le : ∀ x : ℝ, (∃ mode ∈ modesA ++ modesB, (mode.size : ℝ) ≤ x) →
    gap totalA totalB modesA modesB cumA cumB x ≤ result
  attained : result = largest ∨
    ∃ x : ℝ, (∃ mode ∈ modesA ++ modesB, (mode.size : ℝ) ≤ x) ∧
      result = gap totalA totalB modesA modesB cumA cumB x

/-- At the end of both lists nothing is left to look at. -/
theorem WalkResult.done {cumA cumB largest : ℚ} :
    WalkResult totalA totalB [] [] cumA cumB largest largest where
  largest_le := le_rfl
  gap_le _ hfrom := by simp at hfrom
  attained := .inl rfl

section Round

variable {modesA modesB : List Mode} {size : ℕ}
variable {cumA cumB largest result : ℚ}

/-- An entry left by a round is behind its size. -/
theorem lt_of_mem_left (hsortedA : Ascending modesA)
    (hsortedB : Ascending modesB) (hnext : nextSize modesA modesB = some size) :
    ∀ mode ∈ (modesA.dropWhile fun mode => mode.size = size) ++
        modesB.dropWhile fun mode => mode.size = size, size < mode.size := by
  obtain ⟨hleastA, hleastB, -⟩ := nextSize_spec hsortedA hsortedB hnext
  intro mode hmode
  rcases List.mem_append.mp hmode with hmode | hmode
  · exact lt_of_mem_dropWhile hsortedA hleastA mode hmode
  · exact lt_of_mem_dropWhile hsortedB hleastB mode hmode

/-- A threshold from an entry on is one from the next size on. -/
theorem nextSize_le_of_entry {x : ℝ} (hsortedA : Ascending modesA)
    (hsortedB : Ascending modesB) (hnext : nextSize modesA modesB = some size)
    (hfrom : ∃ mode ∈ modesA ++ modesB, (mode.size : ℝ) ≤ x) :
    (size : ℝ) ≤ x := by
  obtain ⟨hleastA, hleastB, -⟩ := nextSize_spec hsortedA hsortedB hnext
  obtain ⟨mode, hmode, hle⟩ := hfrom
  have hleast : size ≤ mode.size :=
    (List.mem_append.mp hmode).elim (hleastA mode) (hleastB mode)
  exact (Nat.cast_le.mpr hleast).trans hle

/-- One round: a walk on from the next size is a walk from here. -/
theorem WalkResult.round (hsortedA : Ascending modesA)
    (hsortedB : Ascending modesB) (hnext : nextSize modesA modesB = some size)
    (hrest : WalkResult totalA totalB
      (modesA.dropWhile fun mode => mode.size = size)
      (modesB.dropWhile fun mode => mode.size = size)
      (cumA + massAt totalA size modesA) (cumB + massAt totalB size modesB)
      (max largest |cumA + massAt totalA size modesA -
        (cumB + massAt totalB size modesB)|) result) :
    WalkResult totalA totalB modesA modesB cumA cumB largest result := by
  have hleft := lt_of_mem_left hsortedA hsortedB hnext
  obtain ⟨-, -, entry, hentry, hsize⟩ :=
    nextSize_spec hsortedA hsortedB hnext
  refine ⟨(le_max_left _ _).trans hrest.largest_le, fun x hfrom => ?_, ?_⟩
  · have hle := nextSize_le_of_entry hsortedA hsortedB hnext hfrom
    rw [← gap_dropWhile hle]
    by_cases hreached : ∃ mode ∈
        (modesA.dropWhile fun mode => mode.size = size) ++
          modesB.dropWhile fun mode => mode.size = size, (mode.size : ℝ) ≤ x
    · exact hrest.gap_le x hreached
    · -- before the next entry the gap is the one of this round
      rw [gap_of_lt fun mode hmode =>
        not_le.mp fun h => hreached ⟨mode, hmode, h⟩]
      exact (le_max_right _ _).trans hrest.largest_le
  · have hhere : (size : ℝ) ≤ size := le_rfl
    rcases hrest.attained with hlargest | ⟨x, ⟨mode, hmode, hle⟩, hresult⟩
    · rcases max_choice largest |cumA + massAt totalA size modesA -
          (cumB + massAt totalB size modesB)| with hkept | hround
      · exact .inl (hlargest.trans hkept)
      · refine .inr ⟨size, ⟨entry, hentry, by rw [hsize]⟩, ?_⟩
        rw [← gap_dropWhile hhere, gap_of_lt fun mode hmode =>
          Nat.cast_lt.mpr (hleft mode hmode)]
        exact hlargest.trans hround
    · have hbehind : (size : ℝ) ≤ x :=
        (Nat.cast_le.mpr (hleft mode hmode).le).trans hle
      refine .inr ⟨x, ⟨entry, hentry, by rwa [hsize]⟩, ?_⟩
      rw [← gap_dropWhile hbehind]
      exact hresult

end Round

/-! ## The whole walk -/

/-- Whether the walk has used up both lists after so many rounds. -/
def endsWithin : ℕ → List Mode → List Mode → Bool
  | 0, modesA, modesB => (nextSize modesA modesB).isNone
  | rounds + 1, modesA, modesB =>
      match nextSize modesA modesB with
      | none => true
      | some size =>
          endsWithin rounds (modesA.dropWhile fun mode => mode.size = size)
            (modesB.dropWhile fun mode => mode.size = size)

/-- A list that starts with the size gets shorter. -/
theorem length_dropWhile_lt {first : Mode} {modes : List Mode} {size : ℕ}
    (hfirst : first.size = size) :
    ((first :: modes).dropWhile fun mode => mode.size = size).length <
      (first :: modes).length := by
  rw [List.dropWhile_cons_of_pos (by simpa using hfirst), List.length_cons]
  exact Nat.lt_succ_of_le (List.dropWhile_sublist _).length_le

/-- Every round consumes an entry. -/
theorem length_round_lt {modesA modesB : List Mode} {size : ℕ}
    (hnext : nextSize modesA modesB = some size) :
    (modesA.dropWhile fun mode => mode.size = size).length +
        (modesB.dropWhile fun mode => mode.size = size).length <
      modesA.length + modesB.length := by
  have hshrinkA : (modesA.dropWhile fun mode => mode.size = size).length ≤
      modesA.length := (List.dropWhile_sublist _).length_le
  have hshrinkB : (modesB.dropWhile fun mode => mode.size = size).length ≤
      modesB.length := (List.dropWhile_sublist _).length_le
  have hfront : (∃ first rest, modesA = first :: rest ∧ first.size = size) ∨
      ∃ first rest, modesB = first :: rest ∧ first.size = size := by
    cases modesA <;> cases modesB <;> simp_all [nextSize]
    split at hnext <;> simp_all
  rcases hfront with ⟨first, rest, rfl, hfirst⟩ | ⟨first, rest, rfl, hfirst⟩
  · exact Nat.add_lt_add_of_lt_of_le (length_dropWhile_lt hfirst) hshrinkB
  · exact Nat.add_lt_add_of_le_of_lt hshrinkA (length_dropWhile_lt hfirst)

theorem endsWithin_length {rounds : ℕ} {modesA modesB : List Mode}
    (hrounds : modesA.length + modesB.length ≤ rounds) :
    endsWithin rounds modesA modesB = true := by
  induction rounds generalizing modesA modesB with
  | zero =>
      have hbothA : modesA = [] := List.length_eq_zero_iff.mp (by omega)
      have hbothB : modesB = [] := List.length_eq_zero_iff.mp (by omega)
      rw [hbothA, hbothB]
      rfl
  | succ rounds ih =>
      rw [endsWithin]
      cases hnext : nextSize modesA modesB with
      | none => rfl
      | some size =>
          have hless := length_round_lt hnext
          exact ih (by omega)

/-- A walk that ends gives the result of the lists it started from. -/
theorem walkResult_mergeWalk {rounds : ℕ} {modesA modesB : List Mode}
    {cumA cumB largest : ℚ} (hsortedA : Ascending modesA)
    (hsortedB : Ascending modesB)
    (hends : endsWithin rounds modesA modesB = true) :
    WalkResult totalA totalB modesA modesB cumA cumB largest
      (mergeWalk totalA totalB rounds modesA modesB cumA cumB largest) := by
  induction rounds generalizing modesA modesB cumA cumB largest with
  | zero =>
      obtain ⟨rfl, rfl⟩ :=
        nextSize_eq_none.mp (Option.isNone_iff_eq_none.mp hends)
      exact .done
  | succ rounds ih =>
      rw [endsWithin] at hends
      rw [mergeWalk]
      cases hnext : nextSize modesA modesB with
      | none =>
          obtain ⟨rfl, rfl⟩ := nextSize_eq_none.mp hnext
          exact .done
      | some size =>
          rw [hnext] at hends
          exact .round hsortedA hsortedB hnext
            (ih (hsortedA.dropWhile size) (hsortedB.dropWhile size) hends)

/-- The statistic is the greatest distance of the two functions, over all
thresholds. -/
theorem isGreatest_mergeWalk {rounds : ℕ} {modesA modesB : List Mode}
    (hsortedA : Ascending modesA) (hsortedB : Ascending modesB)
    (hends : endsWithin rounds modesA modesB = true) :
    IsGreatest
      (Set.range fun x =>
        |cumulative totalA modesA x - cumulative totalB modesB x|)
      (mergeWalk totalA totalB rounds modesA modesB 0 0 0) := by
  have hresult : WalkResult totalA totalB modesA modesB 0 0 0 _ :=
    walkResult_mergeWalk hsortedA hsortedB hends
  have hgap : ∀ x, gap totalA totalB modesA modesB 0 0 x =
      |cumulative totalA modesA x - cumulative totalB modesB x| := by
    intro x
    rw [gap, zero_add, zero_add]
  have hbefore : ∀ x : ℝ, (∀ mode ∈ modesA ++ modesB, x < mode.size) →
      gap totalA totalB modesA modesB 0 0 x = 0 := by
    intro x hbelow
    rw [gap_of_lt hbelow, sub_zero, abs_zero]
  constructor
  · rcases hresult.attained with hzero | ⟨x, -, hattained⟩
    · have hbelow : gap totalA totalB modesA modesB 0 0 (-1) = 0 :=
        hbefore (-1) fun mode _ => by
          have hnonneg : (0 : ℝ) ≤ mode.size := Nat.cast_nonneg _
          linarith
      exact ⟨-1, (hgap (-1)).symm.trans (hbelow.trans hzero.symm)⟩
    · exact ⟨x, (hgap x).symm.trans hattained.symm⟩
  · refine Set.forall_mem_range.mpr fun x => ?_
    rw [← hgap x]
    by_cases hfrom : ∃ mode ∈ modesA ++ modesB, (mode.size : ℝ) ≤ x
    · exact hresult.gap_le x hfrom
    · rw [hbefore x fun mode hmode => not_le.mp fun h => hfrom ⟨mode, hmode, h⟩]
      exact hresult.largest_le

end Walk

end TbjitAlloc.Analysis
