import TbjitAlloc.Analysis.Histogram
import TbjitAlloc.Core.Ranking

/-!
# The order of modes

The queries of a histogram read its table in two orders, by count and by size.
Each of them depends on which modes the table holds and not on how it lays them
out.
-/

namespace TbjitAlloc.Analysis

open Ranking
open ExactHistogram

namespace Mode

/-- Higher counts first, then lower sizes. -/
def rank (mode : Mode) : ℕᵒᵈ ×ₗ ℕ :=
  toLex (OrderDual.toDual mode.count, mode.size)

theorem rank_lt_iff {left right : Mode} :
    left.rank < right.rank ↔
      right.count < left.count ∨
        left.count = right.count ∧ left.size < right.size := by
  simp [rank, Prod.Lex.toLex_lt_toLex]

theorem rank_injective : Function.Injective rank := by
  rintro ⟨size, count⟩ ⟨size', count'⟩ hrank
  simp only [rank, toLex_inj, Prod.mk.injEq, OrderDual.toDual_inj] at hrank
  rw [hrank.1, hrank.2]

theorem separates_rank (modes : List Mode) : Separates rank modes :=
  .of_injective rank_injective

end Mode

open Mode (rank separates_rank)

theorem better_iff {entry best : Mode} :
    better entry best = true ↔ entry.rank < best.rank := by
  simp [better, Mode.rank_lt_iff]

/-- The scan of `dominant_index` finds the mode of least rank. -/
theorem dominantMode_eq_argmin (modes : List Mode) :
    dominantMode modes = modes.argmin rank := by
  rw [dominantMode, List.argmin]
  congr 1
  funext best entry
  cases best with
  | none => rfl
  | some best =>
      by_cases hbetter : entry.rank < best.rank
      · simp [List.argAux, better_iff.mpr hbetter, hbetter]
      · simp [List.argAux, better_iff, hbetter]

theorem dominantMode_eq_of_perm {left right : List Mode}
    (hperm : left.Perm right) : dominantMode left = dominantMode right := by
  rw [dominantMode_eq_argmin, dominantMode_eq_argmin,
    argmin_eq_of_perm (separates_rank left) hperm]

/-! ## Selection -/

/-- The modes with their counts left. -/
def live (modes : List Mode) : List Mode :=
  modes.filter fun mode => mode.count ≠ 0

/-- A round of `top_k_modes` uses up the mode it has selected. -/
def useUp (size : ℕ) (mode : Mode) : Mode :=
  if mode.size = size then { mode with count := 0 } else mode

@[simp] theorem useUp_size (size : ℕ) (mode : Mode) :
    (useUp size mode).size = mode.size := by
  rw [useUp]
  split <;> rfl

theorem live_useUp (size : ℕ) (modes : List Mode) :
    live (modes.map (useUp size)) =
      (live modes).filter fun mode => mode.size ≠ size := by
  induction modes with
  | nil => rfl
  | cons mode rest ih =>
      rw [live] at ih ⊢
      by_cases hsize : mode.size = size <;>
        by_cases hcount : mode.count = 0 <;>
          simp_all [live, useUp]

/-- Where sizes are distinct, the others are left. -/
theorem live_useUp_eq_erase {modes : List Mode} {best : Mode}
    (hdistinct : (modes.map Mode.size).Nodup) (hbest : best ∈ live modes) :
    live (modes.map (useUp best.size)) = (live modes).erase best := by
  have hnodup : (live modes).Nodup := hdistinct.of_map.filter _
  rw [live_useUp, hnodup.erase_eq_filter]
  refine List.filter_congr fun mode hmode => ?_
  have hsame : mode.size = best.size ↔ mode = best :=
    ⟨Separates.of_nodup hdistinct mode (List.mem_of_mem_filter hmode) best
      (List.mem_of_mem_filter hbest), fun h => by rw [h]⟩
  by_cases hmodes : mode = best
  · simp [hmodes]
  · simp [hsame, hmodes]

/-- One round of the selection. -/
theorem selectModes_succ (target k covered : ℕ) (modes : List Mode) :
    selectModes target (k + 1) modes covered =
      ((live modes).argmin rank).elim [] fun best =>
        best ::
          if target ≤ covered + best.count then []
          else selectModes target k (modes.map (useUp best.size))
            (covered + best.count) := by
  rw [selectModes, ← dominantMode_eq_argmin]
  cases hbest : dominantMode (live modes) <;> rw [live] at hbest <;>
    rw [hbest] <;> rfl

/-- The destructive selection of `top_k_modes` takes the live modes in the
order of rank until enough events are covered. -/
theorem selectModes_eq_takeCovering {target k covered : ℕ} {modes : List Mode}
    (hdistinct : (modes.map Mode.size).Nodup) :
    selectModes target k modes covered =
      takeCovering Mode.count target k (ranked rank (live modes)) covered := by
  induction k generalizing modes covered with
  | zero => rfl
  | succ k ih =>
      rw [selectModes_succ]
      cases hbest : (live modes).argmin rank with
      | none =>
          rw [List.argmin_eq_none.mp hbest]
          rfl
      | some best =>
          have hmem : best ∈ live modes := List.argmin_mem hbest
          have hsizes :
              ((modes.map (useUp best.size)).map Mode.size).Nodup := by
            rw [List.map_map]
            simpa [Function.comp_def] using hdistinct
          have hrest := @ih (covered + best.count) _ hsizes
          rw [live_useUp_eq_erase hdistinct hmem] at hrest
          rw [ranked_cons_of_argmin (separates_rank _) hbest, takeCovering,
            ← hrest, Option.elim_some]

/-- What is selected does not depend on the layout of the table. -/
theorem selectModes_eq_of_perm {target k covered : ℕ} {left right : List Mode}
    (hdistinct : (left.map Mode.size).Nodup) (hperm : left.Perm right) :
    selectModes target k left covered = selectModes target k right covered := by
  have hother : (right.map Mode.size).Nodup :=
    (hperm.map _).nodup_iff.mp hdistinct
  have hlive : (live left).Perm (live right) := hperm.filter _
  rw [selectModes_eq_takeCovering hdistinct, selectModes_eq_takeCovering hother,
    ranked_eq_of_perm (separates_rank _) hlive]

/-! ## The ascending order -/

/-- The sizes that a list of modes counts. -/
def sizesOf (modes : List Mode) : List ℕ :=
  modes.flatMap fun mode => List.replicate mode.count mode.size

/-- The walk of `quantile` to the mode at which the cumulative count passes the
target. -/
def walkTo (target : ℕ) : ℕ → List Mode → Option ℕ
  | _, [] => none
  | covered, mode :: rest =>
      if target < covered + mode.count then some mode.size
      else walkTo target (covered + mode.count) rest

/-- The walk stops at the size at the target's place. -/
theorem walkTo_eq_getElem? {target covered : ℕ} {modes : List Mode}
    (hcovered : covered ≤ target) :
    walkTo target covered modes = (sizesOf modes)[target - covered]? := by
  induction modes generalizing covered with
  | nil => rfl
  | cons mode rest ih =>
      have hsplit : sizesOf (mode :: rest) =
          List.replicate mode.count mode.size ++ sizesOf rest := rfl
      rw [walkTo, hsplit]
      by_cases hreached : target < covered + mode.count
      · rw [if_pos hreached, List.getElem?_append_left
          (by rw [List.length_replicate]; omega),
          List.getElem?_replicate, if_pos (by omega)]
      · rw [if_neg hreached, ih (by omega), List.getElem?_append_right
          (by rw [List.length_replicate]; omega), List.length_replicate]
        congr 1
        omega

end TbjitAlloc.Analysis
