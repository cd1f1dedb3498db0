import TbjitAlloc.Analysis.CountTable
import TbjitAlloc.Core.FirstMatch

/-!
# The sparse histogram, cell by cell

The histogram for an arbitrary capacity, with the array it writes and the
widths of its counters.  A reset moves the length back and leaves the cells as
they are.  Every history of records and resets leaves the count table of the
sizes recorded since the last reset, the counts reduced to 32 bits and the
total to 64.
-/

namespace TbjitAlloc.Analysis

open Codegen (maxSize)
open ExactHistogram (bumpCount dominantMode coverage selectModes)
open FirstMatch

/-- An `ExactHistogram` with `CAP` for capacity: `slots` is `entries`, of which
the first `n` are in use. -/
structure SparseHistogram (capacity : ℕ) where
  slots : List Mode
  n : ℕ
  overflow : Bool
  total : ℕ
  slots_length : slots.length = capacity
  n_le : n ≤ capacity

/-- A call that changes a histogram. -/
inductive HistogramCall
  | record (size : ℕ)
  | reset
  deriving DecidableEq

namespace SparseHistogram

variable {capacity : ℕ}

def initial (capacity : ℕ) : SparseHistogram capacity where
  slots := List.replicate capacity ⟨0, 0⟩
  n := 0
  overflow := false
  total := 0
  slots_length := List.length_replicate
  n_le := Nat.zero_le _

/-- The entries in use. -/
def tracked (hist : SparseHistogram capacity) : List Mode :=
  hist.slots.take hist.n

def hasSize (size : ℕ) (entry : Mode) : Bool := entry.size = size

/-- `++entries[i].count`. -/
def increment (entry : Mode) : Mode :=
  { entry with count := (entry.count + 1) % 2 ^ 32 }

@[simp] theorem length_tracked (hist : SparseHistogram capacity) :
    hist.tracked.length = hist.n := by
  rw [tracked, List.length_take, hist.slots_length]
  exact min_eq_left hist.n_le

def record (hist : SparseHistogram capacity) (size : ℕ) :
    SparseHistogram capacity :=
  if maxSize ≤ size then hist
  else if hist.tracked.any (hasSize size) then
    { hist with
      slots := updateFirst (hasSize size) increment hist.tracked ++
        hist.slots.drop hist.n
      total := (hist.total + 1) % 2 ^ 64
      slots_length := by
        rw [List.length_append, length_updateFirst, length_tracked,
          List.length_drop, hist.slots_length]
        exact Nat.add_sub_of_le hist.n_le }
  else if hroom : hist.n < capacity then
    { hist with
      slots := hist.slots.set hist.n ⟨size, 1⟩
      n := (hist.n + 1) % 2 ^ 16
      total := (hist.total + 1) % 2 ^ 64
      slots_length := by rw [List.length_set, hist.slots_length]
      n_le := (Nat.mod_le _ _).trans hroom }
  else { hist with overflow := true, total := (hist.total + 1) % 2 ^ 64 }

def reset (hist : SparseHistogram capacity) : SparseHistogram capacity :=
  { hist with n := 0, overflow := false, total := 0, n_le := Nat.zero_le _ }

/-- The cell `dominant_index` finds, and its size. -/
def dominantSize (hist : SparseHistogram capacity) : ℕ :=
  ((dominantMode hist.tracked).map Mode.size).getD 0

/-- Insertion into the output of `sorted_modes`: entries of greater size move
up.  The output is kept last entry first, in the order the loop meets it. -/
def insertMode (out : List Mode) (entry : Mode) : List Mode :=
  out.orderedInsert (fun inserted other => other.size ≤ inserted.size) entry

def sortedModes (hist : SparseHistogram capacity) (limit : ℕ) : List Mode :=
  ((hist.tracked.take limit).foldl insertMode []).reverse

def quantile (hist : SparseHistogram capacity) (p : ℚ) : ℕ :=
  if hist.total = 0 then 0
  else
    let sorted := hist.sortedModes capacity
    (walkTo (coverage p (hist.total - 1)) 0 sorted).getD
      ((sorted.getLast?.map Mode.size).getD 0)

def topKModes (hist : SparseHistogram capacity) (k : ℕ)
    (coverageTarget : ℚ) : List Mode :=
  if hist.total = 0 ∨ k = 0 then []
  else selectModes (coverage coverageTarget hist.total) k hist.tracked 0

def call (hist : SparseHistogram capacity) :
    HistogramCall → SparseHistogram capacity
  | .record size => hist.record size
  | .reset => hist.reset

/-- The histogram after a sequence of calls. -/
def run (capacity : ℕ) (calls : List HistogramCall) :
    SparseHistogram capacity :=
  calls.foldl call (initial capacity)

end SparseHistogram

/-! ## What was recorded -/

/-- The sizes recorded, as far as they are trackable, since the last reset. -/
def note (sizes : List ℕ) : HistogramCall → List ℕ
  | .record size => if size < maxSize then sizes ++ [size] else sizes
  | .reset => []

def recorded (calls : List HistogramCall) : List ℕ := calls.foldl note []

theorem recorded_append (calls : List HistogramCall) (call : HistogramCall) :
    recorded (calls ++ [call]) = note (recorded calls) call := by
  rw [recorded, List.foldl_append]
  rfl

theorem lt_of_mem_recorded {calls : List HistogramCall} :
    ∀ size ∈ recorded calls, size < maxSize := by
  induction calls using List.reverseRecOn with
  | nil => simp [recorded]
  | append_singleton calls call ih =>
      rw [recorded_append]
      cases call with
      | reset => simp [note]
      | record size =>
          rw [note]
          split
          · next hsize =>
              intro other hother
              rcases List.mem_append.mp hother with hold | hnew
              · exact ih other hold
              · rwa [List.mem_singleton.mp hnew]
          · exact ih

theorem length_eraseDups_le {sizes : List ℕ}
    (hsizes : ∀ size ∈ sizes, size < maxSize) :
    sizes.eraseDups.length ≤ maxSize := by
  have hsubset : sizes.eraseDups ⊆ List.range maxSize := fun size hmem =>
    List.mem_range.mpr (hsizes size (List.mem_eraseDups.mp hmem))
  simpa using
    (List.subperm_of_subset (nodup_eraseDups sizes) hsubset).length_le

/-! ## What the cells hold -/

/-- A count as a 32-bit cell stores it. -/
def Mode.wrap (mode : Mode) : Mode :=
  { mode with count := mode.count % 2 ^ 32 }

@[simp] theorem Mode.wrap_size (mode : Mode) : mode.wrap.size = mode.size := rfl

namespace SparseHistogram

/-- The histogram that a list of sizes leaves, whatever the cells beyond its
length hold. -/
structure Holds {capacity : ℕ} (hist : SparseHistogram capacity)
    (sizes : List ℕ) : Prop where
  tracked : hist.tracked = (countTable capacity sizes).map Mode.wrap
  total : hist.total = sizes.length % 2 ^ 64
  overflow : hist.overflow = decide (capacity < sizes.eraseDups.length)

variable {capacity size : ℕ} {hist : SparseHistogram capacity}
variable {sizes : List ℕ}

theorem Holds.keys (hholds : hist.Holds sizes) :
    hist.tracked.map Mode.size = sizes.eraseDups.take capacity := by
  rw [hholds.tracked, List.map_map, ← map_size_countTable]
  rfl

theorem Holds.n_eq (hholds : hist.Holds sizes) :
    hist.n = min capacity sizes.eraseDups.length := by
  rw [← length_tracked, hholds.tracked, List.length_map, length_countTable]

theorem Holds.any_iff (hholds : hist.Holds sizes) :
    hist.tracked.any (hasSize size) = true ↔
      size ∈ sizes.eraseDups.take capacity := by
  rw [← hholds.keys, List.any_eq_true, List.mem_map]
  simp [hasSize]

theorem Holds.nodup (hholds : hist.Holds sizes) :
    (hist.tracked.map Mode.size).Nodup := by
  rw [hholds.keys]
  exact (nodup_eraseDups sizes).sublist (List.take_sublist _ _)

theorem tracked_update {entries : List Mode}
    (hlength : entries.length = hist.n) :
    (entries ++ hist.slots.drop hist.n).take hist.n = entries := by
  rw [← hlength, List.take_left]

theorem tracked_set (entry : Mode) (hroom : hist.n < capacity) :
    (hist.slots.set hist.n entry).take (hist.n + 1) =
      hist.tracked ++ [entry] := by
  have hlength : hist.n < hist.slots.length := by rwa [hist.slots_length]
  rw [List.take_succ_eq_append_getElem (by rwa [List.length_set]),
    List.take_set_of_le (le_refl _), List.getElem_set_self]
  rfl

/-- The cell that is incremented is the only one of its size. -/
theorem Holds.increment (hholds : hist.Holds sizes) :
    updateFirst (hasSize size) increment hist.tracked =
      ((countTable capacity sizes).map (bumpCount size)).map Mode.wrap := by
  have honly : hist.tracked.Pairwise fun a b =>
      hasSize size a = true → hasSize size b = false := by
    refine (List.pairwise_map.mp hholds.nodup).imp fun {a b} hne ha => ?_
    have hsize : a.size = size := of_decide_eq_true ha
    exact decide_eq_false fun hb => hne (hsize.trans hb.symm)
  rw [updateFirst_eq_map honly, hholds.tracked, List.map_map, List.map_map]
  refine List.map_congr_left fun entry _ => ?_
  by_cases hsize : entry.size = size <;>
    simp [hasSize, SparseHistogram.increment, bumpCount, Mode.wrap, hsize]

theorem holds_record (hholds : hist.Holds sizes)
    (hsizes : ∀ size ∈ sizes, size < maxSize) (hsize : size < maxSize) :
    (hist.record size).Holds (sizes ++ [size]) := by
  have htotal : (hist.total + 1) % 2 ^ 64 =
      (sizes ++ [size]).length % 2 ^ 64 := by
    rw [hholds.total, List.length_append, List.length_singleton, Nat.mod_add_mod]
  have hn := hholds.n_eq
  rw [record, if_neg (by omega)]
  split
  · next hany =>
      have htracked := hholds.any_iff.mp hany
      refine ⟨?_, htotal, ?_⟩
      · rw [countTable_append_of_tracked htracked, ← hholds.increment]
        exact tracked_update (length_updateFirst.trans (length_tracked hist))
      · rw [eraseDups_append_of_mem (mem_take_of_mem_eraseDups htracked)]
        exact hholds.overflow
  · next hany =>
      have hlost := hholds.any_iff.not.mp hany
      split
      · next hroom =>
          have hshort : sizes.eraseDups.length < capacity := by omega
          have hnew : size ∉ sizes := by
            rwa [List.take_of_length_le (by omega), List.mem_eraseDups]
              at hlost
          -- fewer than 4096 sizes are distinct, so `n` does not wrap
          have hnext : (hist.n + 1) % 2 ^ 16 = hist.n + 1 := by
            have hbound := length_eraseDups_le hsizes
            rw [maxSize] at hbound
            exact Nat.mod_eq_of_lt (by omega)
          refine ⟨?_, htotal, ?_⟩
          · rw [countTable_append_of_room hnew hshort, List.map_append,
              ← hholds.tracked]
            change (hist.slots.set hist.n ⟨size, 1⟩).take
              ((hist.n + 1) % 2 ^ 16) = _
            rw [hnext, tracked_set _ hroom]
            rfl
          · rw [eraseDups_append_of_notMem hnew, List.length_append,
              List.length_singleton]
            change hist.overflow = _
            rw [hholds.overflow]
            simp only [decide_eq_decide]
            omega
      · next hfull =>
          refine ⟨?_, htotal, ?_⟩
          · rw [countTable_append_of_full hlost (by omega)]
            exact hholds.tracked
          · exact (decide_eq_true
              (lt_length_eraseDups_append hlost (by omega))).symm

/-- Stale cells are out of reach after a reset. -/
theorem holds_reset (hist : SparseHistogram capacity) :
    hist.reset.Holds [] :=
  ⟨by simp [tracked, reset, countTable], rfl, rfl⟩

theorem holds_call (hholds : hist.Holds sizes)
    (hsizes : ∀ size ∈ sizes, size < maxSize) (call : HistogramCall) :
    (hist.call call).Holds (note sizes call) := by
  cases call with
  | reset => exact holds_reset hist
  | record size =>
      rw [note]
      split
      · next hsize => exact holds_record hholds hsizes hsize
      · next hsize =>
          have hsame : hist.call (.record size) = hist := by
            rw [call, record, if_pos (by omega)]
          rwa [hsame]

/-- Every sequence of calls. -/
theorem holds_run (capacity : ℕ) (calls : List HistogramCall) :
    (run capacity calls).Holds (recorded calls) := by
  induction calls using List.reverseRecOn with
  | nil => exact ⟨by simp [run, tracked, initial, recorded, countTable], rfl, rfl⟩
  | append_singleton calls call ih =>
      rw [recorded_append, run, List.foldl_append]
      exact holds_call ih lt_of_mem_recorded call

/-! ## The sorted snapshot -/

/-- The insertions sort, whatever the list. -/
theorem foldl_insertMode (entries : List Mode) :
    entries.foldl insertMode [] =
      entries.reverse.insertionSort fun inserted other =>
        other.size ≤ inserted.size := by
  rw [List.insertionSort, List.foldr_reverse]
  rfl

theorem sortedModes_perm {limit : ℕ} (hlimit : hist.n ≤ limit) :
    (hist.sortedModes limit).Perm hist.tracked := by
  rw [sortedModes, foldl_insertMode,
    List.take_of_length_le (by rwa [length_tracked])]
  exact (List.reverse_perm _).trans
    ((List.perm_insertionSort _ _).trans (List.reverse_perm _))

theorem pairwise_sortedModes (hist : SparseHistogram capacity) (limit : ℕ) :
    (hist.sortedModes limit).Pairwise fun left right =>
      left.size ≤ right.size := by
  have : Std.Total fun left right : Mode => right.size ≤ left.size :=
    ⟨fun _ _ => le_total _ _⟩
  have : IsTrans Mode fun left right => right.size ≤ left.size :=
    ⟨fun _ _ _ hleft hright => le_trans hright hleft⟩
  rw [sortedModes, foldl_insertMode, List.pairwise_reverse]
  exact List.pairwise_insertionSort _ _

end SparseHistogram

end TbjitAlloc.Analysis
