import Mathlib

/-!
# Ranking a list

Selection by a rank that tells the elements of a list apart.  The least
element, the list in order of rank and the shortest prefix that covers a target
depend on which elements the list has, not on their order.
-/

namespace TbjitAlloc.Ranking

variable {A R : Type*}

/-- No two different elements of the list have the same rank. -/
def Separates (rank : A → R) (entries : List A) : Prop :=
  ∀ left ∈ entries, ∀ right ∈ entries, rank left = rank right → left = right

variable {rank : A → R} {entries left right : List A}

theorem Separates.of_injective (hinjective : Function.Injective rank) :
    Separates rank entries :=
  fun _ _ _ _ hrank => hinjective hrank

theorem Separates.of_nodup (hnodup : (entries.map rank).Nodup) :
    Separates rank entries :=
  fun _ hleft _ hright hrank =>
    List.inj_on_of_nodup_map hnodup hleft hright hrank

variable [LinearOrder R]

/-- The list in ascending order of rank. -/
def ranked (rank : A → R) (entries : List A) : List A :=
  entries.insertionSort fun left right => rank left ≤ rank right

theorem ranked_perm (rank : A → R) (entries : List A) :
    (ranked rank entries).Perm entries :=
  List.perm_insertionSort _ _

theorem pairwise_ranked (rank : A → R) (entries : List A) :
    (ranked rank entries).Pairwise fun left right => rank left ≤ rank right := by
  have : Std.Total fun left right => rank left ≤ rank right :=
    ⟨fun _ _ => le_total _ _⟩
  have : IsTrans A fun left right => rank left ≤ rank right :=
    ⟨fun _ _ _ => le_trans⟩
  exact List.pairwise_insertionSort _ _

/-- The order of rank does not depend on the order of the list. -/
theorem ranked_eq_of_perm (hseparates : Separates rank left)
    (hperm : left.Perm right) : ranked rank left = ranked rank right := by
  have hsorted : (ranked rank left).Perm (ranked rank right) :=
    (ranked_perm rank left).trans (hperm.trans (ranked_perm rank right).symm)
  refine hsorted.eq_of_pairwise (fun a b ha hb hab hba => ?_)
    (pairwise_ranked rank left) (pairwise_ranked rank right)
  have hleft : a ∈ left := (ranked_perm rank left).mem_iff.mp ha
  have hright : b ∈ left :=
    hperm.mem_iff.mpr ((ranked_perm rank right).mem_iff.mp hb)
  exact hseparates a hleft b hright (le_antisymm hab hba)

/-- Neither does the least element. -/
theorem argmin_eq_of_perm (hseparates : Separates rank left)
    (hperm : left.Perm right) : left.argmin rank = right.argmin rank := by
  cases hleast : left.argmin rank with
  | none =>
      rw [List.argmin_eq_none] at hleast
      subst hleast
      rw [hperm.symm.eq_nil, List.argmin_nil]
  | some least =>
      cases hother : right.argmin rank with
      | none =>
          rw [List.argmin_eq_none] at hother
          subst hother
          rw [hperm.eq_nil, List.argmin_nil] at hleast
          cases hleast
      | some other =>
          have hmem : least ∈ left := List.argmin_mem hleast
          have hothermem : other ∈ left :=
            hperm.mem_iff.mpr (List.argmin_mem hother)
          have hle : rank least ≤ rank other :=
            List.le_of_mem_argmin hothermem hleast
          have hge : rank other ≤ rank least :=
            List.le_of_mem_argmin (hperm.mem_iff.mp hmem) hother
          rw [hseparates least hmem other hothermem (le_antisymm hle hge)]

/-- The order of rank begins with the least element. -/
theorem ranked_cons_of_argmin [DecidableEq A] {least : A}
    (hseparates : Separates rank entries)
    (hleast : entries.argmin rank = some least) :
    ranked rank entries = least :: ranked rank (entries.erase least) := by
  have hmem : least ∈ entries := List.argmin_mem hleast
  rw [ranked_eq_of_perm hseparates (List.perm_cons_erase hmem)]
  refine List.insertionSort_cons_of_forall_rel _ fun other hother => ?_
  exact List.le_of_mem_argmin (List.mem_of_mem_erase hother) hleast

/-! ## The shortest prefix that covers a target -/

/-- Take elements until their weights reach the target, or there are enough of
them. -/
def takeCovering (weight : A → ℕ) (target : ℕ) : ℕ → List A → ℕ → List A
  | 0, _, _ => []
  | _ + 1, [], _ => []
  | k + 1, entry :: rest, covered =>
      entry ::
        if target ≤ covered + weight entry then []
        else takeCovering weight target k rest (covered + weight entry)

/-- A prefix of this length is not empty and reaches the target, has the
greatest length allowed or exhausts the list. -/
def Suffices (weight : A → ℕ) (target k : ℕ) (entries : List A)
    (covered count : ℕ) : Prop :=
  0 < count ∧
    (target ≤ covered + ((entries.take count).map weight).sum ∨
      count = k ∨ entries.length ≤ count)

variable {weight : A → ℕ} {target k covered count : ℕ} {entry : A}
variable {rest : List A}

theorem suffices_one :
    Suffices weight target k (entry :: rest) covered 1 ↔
      target ≤ covered + weight entry ∨ k = 1 ∨ rest = [] := by
  simp [Suffices, eq_comm]

theorem suffices_succ (hcount : 0 < count) :
    Suffices weight target (k + 1) (entry :: rest) covered (count + 1) ↔
      Suffices weight target k rest (covered + weight entry) count := by
  simp [Suffices, hcount, add_assoc]

/-- What is taken is the shortest prefix that suffices. -/
theorem isLeast_takeCovering (hk : 0 < k) (hentries : entries ≠ []) :
    ∃ count,
      IsLeast {count | Suffices weight target k entries covered count} count ∧
        takeCovering weight target k entries covered = entries.take count := by
  induction k generalizing entries covered with
  | zero => exact absurd hk (lt_irrefl 0)
  | succ k ih =>
      cases entries with
      | nil => exact absurd rfl hentries
      | cons entry rest =>
          by_cases hone :
              Suffices weight target (k + 1) (entry :: rest) covered 1
          · refine ⟨1, ⟨hone, fun count hcount => hcount.1⟩, ?_⟩
            rw [takeCovering]
            split
            · rfl
            · rcases suffices_one.mp hone with hreached | hlast | rfl
              · contradiction
              · rw [Nat.succ_inj.mp hlast]
                rfl
              · cases k <;> rfl
          · have hmore := suffices_one.not.mp hone
            push Not at hmore
            obtain ⟨hshort, hlast, hrest⟩ := hmore
            obtain ⟨count, ⟨hcount, hleast⟩, htake⟩ :=
              @ih rest (covered + weight entry) (by omega) hrest
            refine ⟨count + 1,
              ⟨(suffices_succ hcount.1).mpr hcount, fun other hother => ?_⟩, ?_⟩
            · obtain ⟨other, rfl⟩ : ∃ n, other = n + 1 :=
                ⟨other - 1, by have := hother.1; omega⟩
              rcases Nat.eq_zero_or_pos other with rfl | hpos
              · exact absurd hother hone
              · exact Nat.succ_le_succ
                  (hleast ((suffices_succ hpos).mp hother))
            · rw [takeCovering, if_neg (by omega), htake, List.take_succ_cons]

theorem takeCovering_sublist (weight : A → ℕ) (target k : ℕ) (entries : List A)
    (covered : ℕ) :
    (takeCovering weight target k entries covered).Sublist entries := by
  induction k generalizing entries covered with
  | zero => exact List.nil_sublist _
  | succ k ih =>
      cases entries with
      | nil => exact List.Sublist.slnil
      | cons entry rest =>
          rw [takeCovering]
          split
          · exact (List.nil_sublist rest).cons_cons entry
          · exact (ih rest _).cons_cons entry

/-- With `k` elements the target is reached exactly when the selection that may
take them all stops after at most `k`. -/
theorem reaches_takeCovering_iff {all : ℕ} (hall : entries.length ≤ all)
    (hsum : target ≤ covered + (entries.map weight).sum)
    (hopen : k = 0 → covered < target) :
    target ≤ covered +
        ((takeCovering weight target k entries covered).map weight).sum ↔
      (takeCovering weight target all entries covered).length ≤ k := by
  induction k generalizing entries covered all with
  | zero =>
      have hshort := hopen rfl
      cases entries with
      | nil => exact absurd hsum (Nat.not_le.mpr hshort)
      | cons entry rest =>
          obtain ⟨all, rfl⟩ : ∃ n, all = n + 1 :=
            ⟨all - 1, by rw [List.length_cons] at hall; omega⟩
          simp only [takeCovering, List.map_nil, List.sum_nil, Nat.add_zero,
            List.length_cons]
          omega
  | succ k ih =>
      cases entries with
      | nil =>
          have hnone : ∀ n, takeCovering weight target n [] covered = [] := by
            intro n
            cases n <;> rfl
          rw [hnone, hnone]
          exact iff_of_true hsum (Nat.zero_le _)
      | cons entry rest =>
          rw [List.length_cons] at hall
          rw [List.map_cons, List.sum_cons, ← Nat.add_assoc] at hsum
          obtain ⟨all, rfl⟩ : ∃ n, all = n + 1 := ⟨all - 1, by omega⟩
          simp only [takeCovering, List.map_cons, List.sum_cons,
            List.length_cons, ← Nat.add_assoc, Nat.add_le_add_iff_right]
          split
          · next hreached => simp [hreached]
          · next hshort =>
              exact ih (Nat.le_of_succ_le_succ hall) hsum
                fun _ => Nat.not_le.mp hshort

end TbjitAlloc.Ranking
