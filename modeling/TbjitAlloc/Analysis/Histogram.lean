import TbjitAlloc.Codegen.Compile

/-!
# Size histograms

The sparse histogram a window keeps: at most `cap` distinct sizes with their
counts, in order of first appearance.  Recording one size more sets the
overflow flag and counts the event without tracking it.  Fractions of a total
are taken in exact arithmetic where the source uses doubles.
-/

namespace TbjitAlloc.Analysis

open TbjitAlloc.Codegen

/-- `ExactHistogram::CAP`, at its default. -/
def cap : ℕ := 64

structure Mode where
  size : ℕ
  count : ℕ
  deriving DecidableEq, Repr

@[ext] structure ExactHistogram where
  entries : List Mode
  overflow : Bool
  total : ℕ
  entries_le : entries.length ≤ cap
  deriving DecidableEq

namespace ExactHistogram

/-- The histogram `reset` leaves. -/
def empty : ExactHistogram := ⟨[], false, 0, Nat.zero_le _⟩

def bumpCount (size : ℕ) (entry : Mode) : Mode :=
  if entry.size = size then { entry with count := entry.count + 1 } else entry

def record (hist : ExactHistogram) (size : ℕ) : ExactHistogram :=
  if maxSize ≤ size then hist
  else if hist.entries.any (fun entry => entry.size = size) then
    { hist with
      entries := hist.entries.map (bumpCount size)
      total := hist.total + 1
      entries_le := by rw [List.length_map]; exact hist.entries_le }
  else if hroom : hist.entries.length < cap then
    { hist with
      entries := hist.entries ++ [⟨size, 1⟩]
      total := hist.total + 1
      entries_le := by rw [List.length_append]; exact hroom }
  else { hist with overflow := true, total := hist.total + 1 }

/-- The comparison of `dominant_index`: the higher count wins, then the lower
size. -/
def better (entry best : Mode) : Bool :=
  best.count < entry.count ||
    (entry.count = best.count && entry.size < best.size)

/-- The entry at `dominant_index`, if there is one. -/
def dominantMode (entries : List Mode) : Option Mode :=
  entries.foldl
    (fun best entry =>
      match best with
      | none => some entry
      | some best => if better entry best then some entry else some best)
    none

def dominantSize (hist : ExactHistogram) : ℕ :=
  match dominantMode hist.entries with
  | none => 0
  | some best => best.size

/-- `fraction * total`, truncated to an integer. -/
def coverage (fraction : ℚ) (total : ℕ) : ℕ := (fraction * total).floor.toNat

def isMonomorphic (hist : ExactHistogram) (fraction : ℚ) : Bool :=
  if hist.total = 0 then false
  else
    match dominantMode hist.entries with
    | none => false
    | some best => coverage fraction hist.total ≤ best.count

/-- The selection loop of `top_k_modes`: take the best entry that is left until
enough modes are written or enough events are covered. -/
def selectModes (target : ℕ) : ℕ → List Mode → ℕ → List Mode
  | 0, _, _ => []
  | k + 1, remaining, covered =>
      match dominantMode (remaining.filter fun entry => entry.count ≠ 0) with
      | none => []
      | some best =>
          best ::
            if target ≤ covered + best.count then []
            else
              selectModes target k
                (remaining.map fun entry =>
                  if entry.size = best.size then { entry with count := 0 }
                  else entry)
                (covered + best.count)

def topKModes (hist : ExactHistogram) (k : ℕ) (coverageTarget : ℚ) :
    List Mode :=
  if hist.total = 0 ∨ k = 0 then []
  else selectModes (coverage coverageTarget hist.total) k hist.entries 0

def sortedModes (hist : ExactHistogram) : List Mode :=
  hist.entries.insertionSort fun left right => left.size ≤ right.size

/-- The histogram of a list of sizes. -/
def ofSizes (sizes : List ℕ) : ExactHistogram := sizes.foldl record empty

@[simp] theorem ofSizes_nil : ofSizes [] = empty := rfl

@[simp] theorem ofSizes_append_singleton (sizes : List ℕ) (size : ℕ) :
    ofSizes (sizes ++ [size]) = (ofSizes sizes).record size := by
  simp [ofSizes, List.foldl_append]

end ExactHistogram

end TbjitAlloc.Analysis
