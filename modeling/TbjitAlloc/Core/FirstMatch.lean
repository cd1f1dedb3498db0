import Mathlib

/-!
# Tables searched from the front

A table kept as a list, in which a search and an update both act on the first
entry that satisfies a predicate.
-/

namespace TbjitAlloc.FirstMatch

variable {A : Type*}

/-- Apply a function to the first entry that satisfies the predicate. -/
def updateFirst (p : A → Bool) (f : A → A) : List A → List A
  | [] => []
  | entry :: rest =>
      if p entry then f entry :: rest else entry :: updateFirst p f rest

variable {p q : A → Bool} {f : A → A} {entries : List A}

@[simp] theorem length_updateFirst :
    (updateFirst p f entries).length = entries.length := by
  induction entries with
  | nil => rfl
  | cons entry rest ih =>
      rw [updateFirst]
      split
      · rfl
      · rw [List.length_cons, ih, List.length_cons]

/-- The updated entry is the one a search finds. -/
theorem find?_updateFirst (hkeep : ∀ entry, p (f entry) = p entry) :
    (updateFirst p f entries).find? p = (entries.find? p).map f := by
  induction entries with
  | nil => rfl
  | cons entry rest ih =>
      by_cases hentry : p entry
      · simp [updateFirst, hentry, hkeep]
      · simp only [updateFirst, hentry, List.find?_cons, Bool.false_eq_true,
          if_false, ih]

/-- A search that can only find other entries is not affected. -/
theorem find?_updateFirst_of_disjoint
    (hkeep : ∀ entry, q (f entry) = q entry)
    (hdisjoint : ∀ entry, p entry = true → q entry = false) :
    (updateFirst p f entries).find? q = entries.find? q := by
  induction entries with
  | nil => rfl
  | cons entry rest ih =>
      by_cases hentry : p entry
      · simp [updateFirst, hentry, hkeep, hdisjoint entry]
      · simp only [updateFirst, hentry, List.find?_cons, Bool.false_eq_true,
          if_false, ih]

/-- A search by another predicate finds what it found before, or the updated
entry it found before. -/
theorem find?_updateFirst_cases (hkeep : ∀ entry, q (f entry) = q entry) :
    (updateFirst p f entries).find? q = entries.find? q ∨
      ∃ entry, p entry = true ∧ entries.find? q = some entry ∧
        (updateFirst p f entries).find? q = some (f entry) := by
  induction entries with
  | nil => exact .inl rfl
  | cons entry rest ih =>
      by_cases hentry : p entry <;> by_cases hfound : q entry <;>
        simp [updateFirst, hentry, hfound, hkeep, ih]

/-- Without a match there is nothing to update. -/
theorem updateFirst_of_find?_eq_none (hnone : entries.find? p = none) :
    updateFirst p f entries = entries := by
  induction entries with
  | nil => rfl
  | cons entry rest ih =>
      rw [List.find?_eq_none] at hnone ih
      rw [updateFirst, if_neg (hnone entry List.mem_cons_self),
        ih fun other hother => hnone other (List.mem_cons_of_mem _ hother)]

/-- Where at most one entry satisfies the predicate, updating the first is
updating each. -/
theorem updateFirst_eq_map
    (honly : entries.Pairwise fun a b => p a = true → p b = false) :
    updateFirst p f entries =
      entries.map fun entry => if p entry then f entry else entry := by
  induction entries with
  | nil => rfl
  | cons entry rest ih =>
      rw [List.pairwise_cons] at honly
      rw [updateFirst, List.map_cons]
      split
      · next hentry =>
          have hrest : ∀ other ∈ rest,
              (if p other then f other else other) = other :=
            fun other hother => if_neg (by simp [honly.1 other hother hentry])
          rw [List.map_congr_left hrest, List.map_id']
      · rw [ih honly.2]

/-! ## Two tables -/

section Related

variable {Related Next : A → A → Prop} {left right : List A} {g : A → A}

/-- Searches of related tables find related entries, or none. -/
theorem rel_find? (hsame : ∀ a b, Related a b → p a = p b)
    (hrelated : List.Forall₂ Related left right) :
    Option.Rel Related (left.find? p) (right.find? p) := by
  induction hrelated with
  | nil => exact .none
  | cons hentry _ ih =>
      rw [List.find?_cons, List.find?_cons, ← hsame _ _ hentry]
      split
      · exact .some hentry
      · exact ih

/-- Updating the first match of both keeps what the updates keep. -/
theorem forall₂_updateFirst (hsame : ∀ a b, Related a b → p a = p b)
    (hupdate : ∀ a b, Related a b → p a = true → Related (f a) (g b))
    (hrelated : List.Forall₂ Related left right) :
    List.Forall₂ Related (updateFirst p f left) (updateFirst p g right) := by
  induction hrelated with
  | nil => exact .nil
  | cons hentry hrest ih =>
      rw [updateFirst, updateFirst, ← hsame _ _ hentry]
      split
      · next hmatch => exact .cons (hupdate _ _ hentry hmatch) hrest
      · exact .cons hentry ih

/-- Where at most one entry matches, the others may pass to another relation. -/
theorem forall₂_updateFirst_of_only
    (honly : left.Pairwise fun a b => p a = true → p b = false)
    (hsame : ∀ a b, Related a b → p a = p b)
    (hupdate : ∀ a b, Related a b → p a = true → Next (f a) (g b))
    (hother : ∀ a b, Related a b → p a = false → Next a b)
    (hrelated : List.Forall₂ Related left right) :
    List.Forall₂ Next (updateFirst p f left) (updateFirst p g right) := by
  induction hrelated with
  | nil => exact .nil
  | @cons a b l m hentry hrest ih =>
      rw [List.pairwise_cons] at honly
      rw [updateFirst, updateFirst, ← hsame _ _ hentry]
      by_cases hmatch : p a = true
      · rw [if_pos hmatch, if_pos hmatch]
        have hothers : ∀ c ∈ l, p c = false :=
          fun c hc => honly.1 c hc hmatch
        have hrest := (List.forall₂_and_left l m).mpr ⟨hothers, hrest⟩
        exact .cons (hupdate _ _ hentry hmatch)
          (hrest.imp fun c d hpair => hother c d hpair.2 hpair.1)
      · rw [if_neg hmatch, if_neg hmatch]
        exact .cons (hother _ _ hentry (Bool.eq_false_iff.mpr hmatch))
          (ih honly.2)

end Related

end TbjitAlloc.FirstMatch
