import TbjitAlloc.Analysis.Histogram

/-!
# The two-sample Kolmogorov-Smirnov test

The comparison of two windows, over the rationals.  The source compares the
largest gap with `c * sqrt ((a + b) / (a * b))` in doubles; both sides are
squared here, so that the test is decided in exact arithmetic.
-/

namespace TbjitAlloc.Analysis

open ExactHistogram

/-- The part of a sample that lies at one size. -/
def massAt (total size : ℕ) (modes : List Mode) : ℚ :=
  ((modes.takeWhile fun mode => mode.size = size).map
    fun mode => (mode.count : ℚ) / total).sum

/-- The size at which the merge continues. -/
def nextSize : List Mode → List Mode → Option ℕ
  | [], [] => none
  | [], mode :: _ => some mode.size
  | mode :: _, [] => some mode.size
  | left :: _, right :: _ =>
      some (if left.size < right.size then left.size else right.size)

/-- The merge walk over both sorted lists, carrying the two cumulative
fractions and the largest gap so far.  Every round consumes an entry, so the
number of entries is enough fuel. -/
def mergeWalk (totalA totalB : ℕ) :
    ℕ → List Mode → List Mode → ℚ → ℚ → ℚ → ℚ
  | 0, _, _, _, _, largest => largest
  | fuel + 1, modesA, modesB, cumA, cumB, largest =>
      match nextSize modesA modesB with
      | none => largest
      | some size =>
          let cumA := cumA + massAt totalA size modesA
          let cumB := cumB + massAt totalB size modesB
          mergeWalk totalA totalB fuel
            (modesA.dropWhile fun mode => mode.size = size)
            (modesB.dropWhile fun mode => mode.size = size)
            cumA cumB (max largest |cumA - cumB|)

/-- The statistic `max |F_a - F_b|`. -/
def ksStatistic (a b : ExactHistogram) : ℚ :=
  mergeWalk a.total b.total (a.entries.length + b.entries.length)
    a.sortedModes b.sortedModes 0 0 0

/-- The tabulated critical coefficient. -/
def criticalCoefficient (alpha : ℚ) : ℚ :=
  if alpha ≤ 1 / 100 then 16276 / 10000
  else if alpha ≤ 5 / 100 then 13581 / 10000 else 12239 / 10000

def ksStable (alpha : ℚ) (a b : ExactHistogram) : Bool :=
  if a.total = 0 ∨ b.total = 0 then false
  else if a.overflow || b.overflow then false
  else
    ksStatistic a b ^ 2 * (a.total * b.total) <
      criticalCoefficient alpha ^ 2 * (a.total + b.total)

example : ksStable (5 / 100) (ofSizes [16, 16, 16, 16, 16, 16])
    (ofSizes [32, 16, 16, 16, 16, 16]) = true := by decide +kernel

example : ksStable (5 / 100) (ofSizes [32, 32, 32, 32, 32, 16])
    (ofSizes [16, 16, 16, 16, 16, 16]) = false := by decide +kernel

end TbjitAlloc.Analysis
