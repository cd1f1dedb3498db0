import TbjitAlloc.Core.Blocks
import TbjitAlloc.Analysis.Stream

/-!
# The block specification of specialization

The sizes a site sees outside the Compiled phase since its last restart are cut
into blocks of one window each.  The analyzer keeps two rotating windows and a
streak counter; what it decides is the plain statement about blocks, that a
site enters Compiled with the first block that ends enough stable adjacent
pairs.
-/

namespace TbjitAlloc.Analysis

open TbjitAlloc.Blocks
open TbjitAlloc.Codegen
open TbjitAlloc.Transition

section Specification

variable (knobs : Knobs)

def blockHistogram (sizes : List ℕ) (index : ℕ) : ExactHistogram :=
  .ofSizes (block knobs.windowSize sizes index)

/-- The pair of blocks `index` and `index + 1` is stable. -/
def StablePair (sizes : List ℕ) (index : ℕ) : Prop :=
  knobs.ksStable (blockHistogram knobs sizes (index + 1))
    (blockHistogram knobs sizes index) = true

instance (sizes : List ℕ) : DecidablePred (StablePair knobs sizes) :=
  fun _ => inferInstanceAs (Decidable (_ = true))

/-- Block `index` is complete, and the adjacent pairs ending with it are stable
for as many pairs as the threshold asks. -/
def EndsStableRun (sizes : List ℕ) (index : ℕ) : Prop :=
  (index + 1) * knobs.windowSize ≤ sizes.length ∧
    knobs.stableWindows ≤ index ∧
      ∀ i, index - knobs.stableWindows ≤ i → i < index →
        StablePair knobs sizes i

def FirstStableRun (sizes : List ℕ) (index : ℕ) : Prop :=
  EndsStableRun knobs sizes index ∧
    ∀ i < index, ¬EndsStableRun knobs sizes i

/-- The sizes grew by one size, the last of block `index`. -/
def CompletesBlock (before after : List ℕ) (index : ℕ) : Prop :=
  (∃ size, after = before ++ [size]) ∧
    after.length = (index + 1) * knobs.windowSize

end Specification

section Blocks

variable {knobs : Knobs} {sizes : List ℕ} {index : ℕ}

theorem endsStableRun_iff :
    EndsStableRun knobs sizes index ↔
      (index + 1) * knobs.windowSize ≤ sizes.length ∧
        knobs.stableWindows ≤ streak (StablePair knobs sizes) index := by
  rw [EndsStableRun, le_streak_iff]

theorem blockHistogram_append (suffix : List ℕ)
    (hcomplete : (index + 1) * knobs.windowSize ≤ sizes.length) :
    blockHistogram knobs (sizes ++ suffix) index =
      blockHistogram knobs sizes index := by
  rw [blockHistogram, blockHistogram, block_append suffix hcomplete]

theorem stablePair_append (suffix : List ℕ)
    (hcomplete : (index + 2) * knobs.windowSize ≤ sizes.length) :
    StablePair knobs (sizes ++ suffix) index ↔
      StablePair knobs sizes index := by
  have hearlier : (index + 1) * knobs.windowSize ≤ sizes.length :=
    (Nat.mul_le_mul_right _ (by omega)).trans hcomplete
  rw [StablePair, StablePair, blockHistogram_append suffix hcomplete,
    blockHistogram_append suffix hearlier]

/-- What is known of complete blocks is not changed by later sizes. -/
theorem streak_append (suffix : List ℕ)
    (hcomplete : (index + 1) * knobs.windowSize ≤ sizes.length) :
    streak (StablePair knobs (sizes ++ suffix)) index =
      streak (StablePair knobs sizes) index := by
  refine streak_congr _ fun i hi => stablePair_append suffix ?_
  exact (Nat.mul_le_mul_right _ (by omega)).trans hcomplete

theorem endsStableRun_append (suffix : List ℕ)
    (hcomplete : (index + 1) * knobs.windowSize ≤ sizes.length) :
    EndsStableRun knobs (sizes ++ suffix) index ↔
      EndsStableRun knobs sizes index := by
  rw [endsStableRun_iff, endsStableRun_iff, streak_append suffix hcomplete,
    List.length_append]
  exact and_congr_left fun _ => ⟨fun _ => hcomplete, fun _ => by omega⟩

/-- Without a newly completed block there is no new run. -/
theorem endsStableRun_append_of_room (size : ℕ)
    (hroom : (blockTail knobs.windowSize sizes).length + 1 < knobs.windowSize) :
    EndsStableRun knobs (sizes ++ [size]) index ↔
      EndsStableRun knobs sizes index := by
  by_cases hcomplete : (index + 1) * knobs.windowSize ≤ sizes.length
  · exact endsStableRun_append [size] hcomplete
  · refine iff_of_false (fun hrun => hcomplete ?_)
      (fun hrun => hcomplete hrun.1)
    have hindex := (block_complete_iff knobs.windowSize_pos).mp hrun.1
    rw [List.length_append, List.length_singleton,
      length_succ_div_of_room hroom] at hindex
    exact (block_complete_iff knobs.windowSize_pos).mpr hindex

/-- The size that fills a block adds that block's run and no other. -/
theorem endsStableRun_append_of_full (size : ℕ)
    (hfull : (blockTail knobs.windowSize sizes).length + 1 = knobs.windowSize) :
    EndsStableRun knobs (sizes ++ [size]) index ↔
      EndsStableRun knobs sizes index ∨
        index = sizes.length / knobs.windowSize ∧
          knobs.stableWindows ≤
            streak (StablePair knobs (sizes ++ [size])) index := by
  by_cases hcomplete : (index + 1) * knobs.windowSize ≤ sizes.length
  · rw [endsStableRun_append [size] hcomplete]
    have hindex := (block_complete_iff knobs.windowSize_pos).mp hcomplete
    exact ⟨.inl, fun h => h.resolve_right fun h => by omega⟩
  · rw [@endsStableRun_iff knobs (sizes ++ [size])]
    have hindex := @block_complete_iff _ knobs.windowSize (sizes ++ [size])
      index knobs.windowSize_pos
    rw [List.length_append, List.length_singleton,
      length_succ_div hfull] at hindex
    rw [List.length_append, List.length_singleton, hindex]
    have hnew : ¬index < sizes.length / knobs.windowSize :=
      fun h => hcomplete ((block_complete_iff knobs.windowSize_pos).mpr h)
    constructor
    · rintro ⟨hlt, hstreak⟩
      exact .inr ⟨by omega, hstreak⟩
    · rintro (hrun | ⟨hlast, hstreak⟩)
      · exact absurd hrun.1 hcomplete
      · exact ⟨by omega, hstreak⟩

theorem completesBlock_of_full (size : ℕ)
    (hfull : (blockTail knobs.windowSize sizes).length + 1 = knobs.windowSize) :
    CompletesBlock knobs sizes (sizes ++ [size])
      (sizes.length / knobs.windowSize) := by
  refine ⟨⟨size, rfl⟩, ?_⟩
  rw [blockTail_length] at hfull
  have hlength := Nat.div_add_mod' sizes.length knobs.windowSize
  rw [List.length_append, List.length_singleton, Nat.add_one_mul]
  omega

end Blocks

end TbjitAlloc.Analysis
