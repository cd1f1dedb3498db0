import Mathlib

/-!
# A majority vote in constant space

One candidate is remembered with a lead.  A vote for it raises the lead and a
vote against lowers it; the vote that takes the lead to zero puts its own
candidate in place at once, with a lead of one.  The lead is a machine counter
that wraps at `width`.  The lead never exceeds the votes cast for the leader,
and a candidate with more than half of the votes is the leader.
-/

namespace TbjitAlloc.MajorityVote

structure Tally (Candidate : Type*) where
  leader : Candidate
  lead : ℕ

variable {Candidate : Type*} [DecidableEq Candidate]

namespace Tally

def cast (width : ℕ) (tally : Tally Candidate) (vote : Candidate) :
    Tally Candidate :=
  if tally.lead = 0 ∨ vote = tally.leader then
    ⟨vote, (tally.lead + 1) % width⟩
  else if tally.lead - 1 = 0 then ⟨vote, 1⟩
  else ⟨tally.leader, tally.lead - 1⟩

def castAll (width : ℕ) (tally : Tally Candidate) (votes : List Candidate) :
    Tally Candidate :=
  votes.foldl (cast width) tally

theorem castAll_append (width : ℕ) (tally : Tally Candidate)
    (votes : List Candidate) (vote : Candidate) :
    tally.castAll width (votes ++ [vote]) =
      (tally.castAll width votes).cast width vote := by
  rw [castAll, List.foldl_append]
  rfl

/-- What one vote does: it raises the lead of its candidate, takes over, or
lowers the lead of another. -/
theorem cast_cases (width : ℕ) (tally : Tally Candidate) (vote : Candidate) :
    ((tally.lead = 0 ∨ vote = tally.leader) ∧
        tally.cast width vote = ⟨vote, (tally.lead + 1) % width⟩) ∨
      (vote ≠ tally.leader ∧ tally.lead = 1 ∧
        tally.cast width vote = ⟨vote, 1⟩) ∨
      (vote ≠ tally.leader ∧ 1 < tally.lead ∧
        tally.cast width vote = ⟨tally.leader, tally.lead - 1⟩) := by
  rw [cast]
  by_cases hfor : tally.lead = 0 ∨ vote = tally.leader
  · exact .inl ⟨hfor, if_pos hfor⟩
  · rw [if_neg hfor]
    obtain ⟨hlead, hother⟩ := not_or.mp hfor
    by_cases hlast : tally.lead - 1 = 0
    · exact .inr (.inl ⟨hother, by omega, if_pos hlast⟩)
    · exact .inr (.inr ⟨hother, by omega, if_neg hlast⟩)

/-- The votes cast so far bound the lead, and one vote keeps the bound. -/
theorem lead_cast_le (width : ℕ) {tally : Tally Candidate}
    {votes : List Candidate} (hlead : tally.lead ≤ votes.count tally.leader)
    (vote : Candidate) :
    (tally.cast width vote).lead ≤
      (votes ++ [vote]).count (tally.cast width vote).leader := by
  rcases cast_cases width tally vote with
    ⟨hfor, hcast⟩ | ⟨-, -, hcast⟩ | ⟨-, -, hcast⟩
  · rw [hcast, List.count_append, List.count_singleton_self]
    have hbound : tally.lead ≤ votes.count vote := by
      rcases hfor with hzero | rfl
      · exact hzero ▸ Nat.zero_le _
      · exact hlead
    exact (Nat.mod_le _ _).trans (Nat.add_le_add_right hbound 1)
  · rw [hcast, List.count_append, List.count_singleton_self]
    exact Nat.le_add_left 1 _
  · rw [hcast, List.count_append]
    exact (Nat.sub_le _ _).trans (hlead.trans (Nat.le_add_right _ _))

/-- Where a candidate stands: as the leader its lead is at least its surplus,
and another leader's lead is at most its deficit and one. -/
structure Standing (votes : List Candidate) (candidate : Candidate)
    (tally : Tally Candidate) : Prop where
  lead_pos : votes ≠ [] → 0 < tally.lead
  ahead : tally.leader = candidate →
    2 * votes.count candidate ≤ tally.lead + votes.length
  behind : votes ≠ [] → tally.leader ≠ candidate →
    tally.lead + 2 * votes.count candidate ≤ votes.length + 1

theorem standing_nil (candidate : Candidate) (tally : Tally Candidate) :
    Standing [] candidate tally where
  lead_pos := fun hvotes => absurd rfl hvotes
  ahead := fun _ => Nat.zero_le _
  behind := fun hvotes => absurd rfl hvotes

/-- One vote, as long as the counter does not wrap. -/
theorem Standing.cast {width : ℕ} {votes : List Candidate}
    {candidate : Candidate} {tally : Tally Candidate}
    (hstanding : Standing votes candidate tally)
    (hempty : votes = [] → tally.lead = 0) (hwidth : tally.lead + 1 < width)
    (vote : Candidate) :
    Standing (votes ++ [vote]) candidate (tally.cast width vote) := by
  have hcount : (votes ++ [vote]).count candidate =
      votes.count candidate + if vote = candidate then 1 else 0 := by
    rw [List.count_append, List.count_singleton]
    simp only [beq_iff_eq]
  have hlength : (votes ++ [vote]).length = votes.length + 1 :=
    List.length_append
  by_cases hfirst : votes = []
  · -- the first vote makes its candidate the leader
    subst hfirst
    have hzero := hempty rfl
    have hcast : tally.cast width vote = ⟨vote, 1⟩ := by
      rw [Tally.cast, if_pos (.inl hzero), hzero, Nat.mod_eq_of_lt (by omega)]
    rw [hcast]
    constructor
    · exact fun _ => Nat.one_pos
    · intro hleader
      rw [hcount, hlength, if_pos hleader]
      simp
    · intro _ hleader
      rw [hcount, hlength, if_neg hleader]
      simp
  have hpos := hstanding.lead_pos hfirst
  have hahead := hstanding.ahead
  have hbehind := hstanding.behind hfirst
  rcases cast_cases width tally vote with
    ⟨hfor, hcast⟩ | ⟨hother, hlast, hcast⟩ | ⟨hother, hmore, hcast⟩
  · obtain rfl : vote = tally.leader := hfor.resolve_left (by omega)
    rw [hcast, Nat.mod_eq_of_lt hwidth]
    constructor
    · exact fun _ => Nat.succ_pos _
    · intro hleader
      have hsurplus := hahead hleader
      rw [hcount, hlength, if_pos hleader]
      dsimp only
      omega
    · intro _ hleader
      have hdeficit := hbehind hleader
      rw [hcount, hlength, if_neg hleader]
      dsimp only
      omega
  · rw [hcast]
    constructor
    · exact fun _ => Nat.one_pos
    · intro hleader
      have hdeficit := hbehind fun hold => hother (hleader.trans hold.symm)
      rw [hcount, hlength, if_pos hleader]
      dsimp only
      omega
    · intro _ hleader
      rw [hcount, hlength, if_neg hleader]
      dsimp only
      by_cases hold : tally.leader = candidate
      · have hsurplus := hahead hold
        omega
      · have hdeficit := hbehind hold
        omega
  · rw [hcast]
    constructor
    · exact fun _ => Nat.sub_pos_of_lt hmore
    · intro hleader
      have hsurplus := hahead hleader
      rw [hcount, hlength,
        if_neg fun hvote => hother (hvote.trans hleader.symm)]
      dsimp only
      omega
    · intro _ hleader
      have hdeficit := hbehind hleader
      rw [hcount, hlength]
      dsimp only
      split <;> omega

variable {width : ℕ} {tally : Tally Candidate} {votes : List Candidate}

theorem lead_le_count (width : ℕ) (votes : List Candidate)
    (hzero : tally.lead = 0) :
    (tally.castAll width votes).lead ≤
      votes.count (tally.castAll width votes).leader := by
  induction votes using List.reverseRecOn with
  | nil => exact hzero ▸ Nat.zero_le _
  | append_singleton votes vote ih =>
      rw [castAll_append]
      exact lead_cast_le width ih vote

theorem standing_castAll (hzero : tally.lead = 0)
    (hwidth : votes.length < width) (candidate : Candidate) :
    Standing votes candidate (tally.castAll width votes) := by
  induction votes using List.reverseRecOn with
  | nil => exact standing_nil candidate _
  | append_singleton votes vote ih =>
      rw [List.length_append, List.length_singleton] at hwidth
      have hlead : (tally.castAll width votes).lead ≤ votes.length :=
        (lead_le_count width votes hzero).trans List.count_le_length
      rw [castAll_append]
      refine (ih (by omega)).cast ?_ (by omega) vote
      rintro rfl
      exact hzero

/-- Whoever has more than half of the votes leads. -/
theorem leader_of_majority (hzero : tally.lead = 0)
    (hwidth : votes.length < width) {candidate : Candidate}
    (hmajority : votes.length < 2 * votes.count candidate) :
    (tally.castAll width votes).leader = candidate := by
  have hstanding := standing_castAll hzero hwidth candidate
  by_contra hleader
  have hvotes : votes ≠ [] := by
    rintro rfl
    exact absurd hmajority (Nat.lt_irrefl 0)
  have hpos := hstanding.lead_pos hvotes
  have hdeficit := hstanding.behind hvotes hleader
  omega

end Tally

end TbjitAlloc.MajorityVote
