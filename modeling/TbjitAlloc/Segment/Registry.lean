import TbjitAlloc.Core.Bitmap
import TbjitAlloc.Core.Transition
import TbjitAlloc.Segment.Heap

/-!
# The segment registry, bit by bit

The registry of the heap model has a predicate for the page map and a list for
the reaper's index.  Here both are as the source has them: words of 64 bits, and
an array with a count whose entries are removed by swapping in the last one.
They describe one set as long as the index has room; past its capacity segments
are managed but not indexed.
-/

namespace TbjitAlloc.Segment

open TbjitAlloc.Bitmap
open TbjitAlloc.Transition

/-- `PM_SLOTS`. -/
def pagemapSlots (layout : SegmentLayout) : ℕ := 2 ^ (48 - layout.shift)

/-- The page map, the index with its count, and the headers of the segments that
are mapped. -/
structure Registry where
  pagemap : ℕ → BitVec 64
  index : ℕ → ℕ
  count : ℕ
  header : ℕ → Option SegmentHeader

def Registry.empty : Registry where
  pagemap := fun _ => 0
  index := fun _ => 0
  count := 0
  header := fun _ => none

namespace Registry

variable (layout : SegmentLayout)

def pagemapMark (words : ℕ → BitVec 64) (seg : ℕ) (set : Bool) :
    ℕ → BitVec 64 :=
  let bit := seg >>> layout.shift
  if pagemapSlots layout ≤ bit then words
  else if set then setBit words bit else clearBit words bit

def isManaged (registry : Registry) (seg : ℕ) : Bool :=
  if seg = 0 then false
  else
    let bit := seg >>> layout.shift
    if pagemapSlots layout ≤ bit then false else testBit registry.pagemap bit

def registerSegment (registry : Registry) (seg : ℕ) : Registry :=
  let marked := { registry with
    pagemap := pagemapMark layout registry.pagemap seg true }
  if registry.count < maxSegments then
    { marked with
      index := Function.update registry.index registry.count seg
      count := registry.count + 1 }
  else marked

/-- The loop of `unregister_segment`: the first entry that is the segment is
overwritten with the last one, whose place becomes null. -/
def swapOut (registry : Registry) (seg : ℕ) : Registry :=
  match (List.range registry.count).find? fun i => registry.index i = seg with
  | none => registry
  | some i =>
      { registry with
        index := Function.update
          (Function.update registry.index i
            (registry.index (registry.count - 1)))
          (registry.count - 1) 0
        count := registry.count - 1 }

def unregisterSegment (registry : Registry) (seg : ℕ) : Registry :=
  swapOut
    { registry with
      pagemap := pagemapMark layout registry.pagemap seg false } seg

/-- `free_segment`; the header is unmapped with the segment. -/
def freeSegment (registry : Registry) (seg : ℕ) : Registry :=
  if seg = 0 then registry
  else
    { unregisterSegment layout registry seg with
      header := Function.update registry.header seg none }

/-- `decommit_segment`, of which only the mark is seen here. -/
def decommitSegment (pageSize : ℕ) (registry : Registry) (seg : ℕ) :
    Registry :=
  if pageSize = 0 ∨ layout.segmentSize ≤ pageSize then registry
  else
    { registry with
      header := Function.update registry.header seg
        ((registry.header seg).map fun header =>
          { header with decommitted := true }) }

/-- The part of a sweep under the index lock. -/
def eligibleSegments (mode : ReapMode) (pred : Option (ℕ → Bool))
    (registry : Registry) : List ℕ :=
  ((List.range registry.count).map registry.index).filter fun seg =>
    seg ≠ 0 ∧ (registry.header seg).any (eligible mode pred)

def reclaimSegment (mode : ReapMode) (pageSize : ℕ) (registry : Registry)
    (seg : ℕ) : Registry :=
  if mode = .madvise then decommitSegment layout pageSize registry seg
  else freeSegment layout registry seg

def reaperSweep (mode : ReapMode) (pred : Option (ℕ → Bool)) (pageSize : ℕ)
    (registry : Registry) : Registry × ℕ :=
  let selected := eligibleSegments mode pred registry
  (selected.foldl (reclaimSegment layout mode pageSize) registry,
    selected.length)

/-! ## Sequences of operations -/

/-- A segment is registered with the header its creator has written; whoever
uses it may rewrite the header. -/
inductive Op
  | register (seg : ℕ) (header : SegmentHeader)
  | unregister (seg : ℕ)
  | write (seg : ℕ) (header : SegmentHeader)
  | sweep (mode : ReapMode) (pred : Option (ℕ → Bool)) (pageSize : ℕ)

/-- The registry, and what its callers have done: the segments registered and
not unregistered since, be it by a caller or by a sweep. -/
structure History where
  registry : Registry
  registered : Finset ℕ

def History.empty : History where
  registry := .empty
  registered := ∅

def step (history : History) : Op → Option History
  | .register seg header =>
      some
        { registry := registerSegment layout
            { history.registry with
              header := Function.update history.registry.header seg
                (some header) } seg
          registered := insert seg history.registered }
  | .unregister seg =>
      some
        { registry := unregisterSegment layout history.registry seg
          registered := history.registered.erase seg }
  | .write seg header =>
      some { history with
        registry := { history.registry with
          header := Function.update history.registry.header seg
            ((history.registry.header seg).map fun _ => header) } }
  | .sweep mode pred pageSize =>
      some
        { registry := (reaperSweep layout mode pred pageSize
            history.registry).1
          registered :=
            if mode = .madvise then history.registered
            else history.registered \
              (eligibleSegments mode pred history.registry).toFinset }

/-- Segments are aligned, below `2^48` and registered once at a time, and a page
is smaller than a segment. -/
def Valid (history : History) : Op → Prop
  | .register seg _ =>
      seg ≠ 0 ∧ layout.segmentSize ∣ seg ∧ seg < 2 ^ 48 ∧
        seg ∉ history.registered
  | .unregister seg => layout.segmentSize ∣ seg
  | .write _ _ => True
  | .sweep _ _ pageSize => 0 < pageSize ∧ pageSize < layout.segmentSize

/-! ## The bits -/

section Bits

variable {layout}

theorem shiftRight_eq (seg : ℕ) :
    seg >>> layout.shift = seg / layout.segmentSize :=
  Nat.shiftRight_eq_div_pow seg layout.shift

theorem segmentSize_pos : 0 < layout.segmentSize :=
  Nat.two_pow_pos layout.shift

/-- The page map has a bit for every segment below `2^48` and for no other. -/
theorem div_lt_pagemapSlots {seg : ℕ} :
    seg / layout.segmentSize < pagemapSlots layout ↔ seg < 2 ^ 48 := by
  have hpow : 2 ^ 48 = pagemapSlots layout * layout.segmentSize := by
    rw [pagemapSlots, SegmentLayout.segmentSize, ← pow_add]
    have := layout.shift_lt
    congr 1
    omega
  rw [Nat.div_lt_iff_lt_mul segmentSize_pos, hpow]

/-- Marking a segment changes its own bit. -/
theorem testBit_pagemapMark {words : ℕ → BitVec 64} {seg bit : ℕ} {set : Bool}
    (hbit : bit < pagemapSlots layout) :
    testBit (pagemapMark layout words seg set) bit =
      if bit = seg / layout.segmentSize then set else testBit words bit := by
  rw [pagemapMark, shiftRight_eq]
  split
  · next hbeyond => rw [if_neg (by omega)]
  · split
    · next hset =>
        rw [testBit_setBit (by decide), hset]
        split <;> simp [*]
    · next hset =>
        rw [testBit_clearBit (by decide), Bool.eq_false_iff.mpr hset]
        split <;> simp [*]

end Bits

/-! ## The invariant -/

structure Inv (layout : SegmentLayout) (registry : Registry)
    (registered : Finset ℕ) : Prop where
  bit_iff : ∀ bit < pagemapSlots layout,
    testBit registry.pagemap bit = true ↔
      bit * layout.segmentSize ∈ registered
  placed : ∀ seg ∈ registered,
    seg ≠ 0 ∧ layout.segmentSize ∣ seg ∧ seg < 2 ^ 48
  count_le : registry.count ≤ maxSegments
  distinct : ∀ i < registry.count, ∀ j < registry.count,
    registry.index i = registry.index j → i = j
  known : ∀ i < registry.count, registry.index i ∈ registered
  beyond : ∀ i, registry.count ≤ i → registry.index i = 0
  mapped : ∀ seg ∈ registered, registry.header seg ≠ none

theorem inv_empty (layout : SegmentLayout) : Inv layout .empty ∅ where
  bit_iff := by
    intro bit _
    rw [testBit_eq (by decide)]
    simp [Registry.empty]
  placed := fun _ h => absurd h (Finset.notMem_empty _)
  count_le := Nat.zero_le _
  distinct := fun _ h => absurd h (Nat.not_lt_zero _)
  known := fun _ h => absurd h (Nat.not_lt_zero _)
  beyond := fun _ _ => rfl
  mapped := fun _ h => absurd h (Finset.notMem_empty _)

/-- The segment has an entry below the count. -/
def Indexed (registry : Registry) (seg : ℕ) : Prop :=
  ∃ i < registry.count, registry.index i = seg

section Operations

variable {layout} {registry : Registry} {registered : Finset ℕ} {seg : ℕ}

/-- A bit is the bit of one aligned segment. -/
theorem mul_eq_iff (hseg : layout.segmentSize ∣ seg) (bit : ℕ) :
    bit = seg / layout.segmentSize ↔ bit * layout.segmentSize = seg := by
  constructor
  · rintro rfl
    exact Nat.div_mul_cancel hseg
  · rintro rfl
    exact (Nat.mul_div_cancel _ segmentSize_pos).symm

/-- A segment is managed exactly while it is registered. -/
theorem Inv.isManaged_iff (hinv : Inv layout registry registered)
    (hseg : layout.segmentSize ∣ seg) :
    isManaged layout registry seg = true ↔ seg ∈ registered := by
  rw [isManaged, shiftRight_eq]
  split
  · next hnull =>
      simp only [Bool.false_eq_true, false_iff]
      exact fun hmem => (hinv.placed seg hmem).1 hnull
  · dsimp only
    split
    · next hbeyond =>
        simp only [Bool.false_eq_true, false_iff]
        intro hmem
        exact absurd (div_lt_pagemapSlots.mpr (hinv.placed seg hmem).2.2)
          (Nat.not_lt.mpr hbeyond)
    · next hbit =>
        rw [hinv.bit_iff _ (Nat.not_le.mp hbit), Nat.div_mul_cancel hseg]

/-- Every address of a registered segment is managed, and no other. -/
theorem Inv.isManaged_segmentOf_iff (hinv : Inv layout registry registered)
    (ptr : ℕ) :
    isManaged layout registry (segmentOf layout ptr) = true ↔
      ∃ base ∈ registered, base ≤ ptr ∧ ptr < segmentEnd layout base := by
  rw [hinv.isManaged_iff (dvd_segmentOf ptr)]
  constructor
  · exact fun hmem => ⟨_, hmem, segmentOf_le ptr, lt_segmentEnd_segmentOf ptr⟩
  · rintro ⟨base, hbase, hlow, hhigh⟩
    rwa [segmentOf_eq (hinv.placed base hbase).2.1 hlow hhigh]

theorem Inv.writeHeader (hinv : Inv layout registry registered)
    (header : Option SegmentHeader)
    (hheader : seg ∈ registered → header ≠ none) :
    Inv layout { registry with
      header := Function.update registry.header seg header } registered :=
  { hinv with
    mapped := by
      intro other hother
      by_cases heq : other = seg
      · rw [heq]
        dsimp only
        rw [Function.update_self]
        exact hheader (heq ▸ hother)
      · dsimp only
        rw [Function.update_of_ne heq]
        exact hinv.mapped other hother }

theorem Inv.registerSegment (hinv : Inv layout registry registered)
    (hnull : seg ≠ 0) (hseg : layout.segmentSize ∣ seg) (hlow : seg < 2 ^ 48)
    (hfresh : seg ∉ registered) (hheader : registry.header seg ≠ none) :
    Inv layout (registerSegment layout registry seg)
      (insert seg registered) := by
  have hmarked : Inv layout { registry with
      pagemap := pagemapMark layout registry.pagemap seg true }
      (insert seg registered) :=
    { hinv with
      bit_iff := by
        intro bit hbit
        rw [testBit_pagemapMark hbit, Finset.mem_insert,
          ← mul_eq_iff hseg, ← hinv.bit_iff bit hbit]
        split <;> simp [*]
      placed := by
        intro other hother
        rcases Finset.mem_insert.mp hother with rfl | hold
        · exact ⟨hnull, hseg, hlow⟩
        · exact hinv.placed other hold
      known := fun i hi => Finset.mem_insert_of_mem (hinv.known i hi)
      mapped := by
        intro other hother
        rcases Finset.mem_insert.mp hother with rfl | hold
        · exact hheader
        · exact hinv.mapped other hold }
  rw [Registry.registerSegment]
  dsimp only
  split
  swap
  · exact hmarked
  next hroom =>
  refine { hmarked with
    count_le := hroom
    distinct := fun i hi j hj heq => ?_
    known := fun i hi => ?_
    beyond := fun i hi => ?_ }
  · dsimp only at hi hj heq
    -- The new entry is none of the old ones.
    have hother : ∀ k < registry.count, registry.index k ≠ seg := by
      rintro k hk rfl
      exact hfresh (hinv.known k hk)
    rcases Nat.lt_succ_iff_lt_or_eq.mp hi with hi | rfl <;>
      rcases Nat.lt_succ_iff_lt_or_eq.mp hj with hj | rfl
    · rw [Function.update_of_ne hi.ne, Function.update_of_ne hj.ne] at heq
      exact hinv.distinct i hi j hj heq
    · rw [Function.update_of_ne hi.ne, Function.update_self] at heq
      exact absurd heq (hother i hi)
    · rw [Function.update_of_ne hj.ne, Function.update_self] at heq
      exact absurd heq.symm (hother j hj)
    · rfl
  · dsimp only at hi ⊢
    rcases Nat.lt_succ_iff_lt_or_eq.mp hi with hi | rfl
    · rw [Function.update_of_ne hi.ne]
      exact Finset.mem_insert_of_mem (hinv.known i hi)
    · rw [Function.update_self]
      exact Finset.mem_insert_self _ _
  · dsimp only at hi ⊢
    rw [Function.update_of_ne (by omega)]
    exact hinv.beyond i (by omega)

/-- What the search of `swapOut` finds. -/
theorem find?_index (registry : Registry) (seg : ℕ) :
    (∃ i < registry.count, registry.index i = seg ∧
        (List.range registry.count).find?
          (fun i => registry.index i = seg) = some i) ∨
      (∀ i < registry.count, registry.index i ≠ seg) ∧
        (List.range registry.count).find?
          (fun i => registry.index i = seg) = none := by
  cases hfind : (List.range registry.count).find?
      fun i => registry.index i = seg with
  | none =>
      refine .inr ⟨fun i hi => ?_, rfl⟩
      have := List.find?_eq_none.mp hfind i (List.mem_range.mpr hi)
      rwa [decide_eq_true_eq] at this
  | some i =>
      have hfound := List.find?_some hfind
      rw [decide_eq_true_eq] at hfound
      exact .inl ⟨i, List.mem_range.mp (List.mem_of_find?_eq_some hfind),
        hfound, rfl⟩

/-- The entries after an entry `i` is swapped out. -/
theorem update_index {index : ℕ → ℕ} {count i j : ℕ} (hj : j < count - 1) :
    Function.update (Function.update index i (index (count - 1)))
        (count - 1) 0 j =
      index (if j = i then count - 1 else j) := by
  rw [Function.update_of_ne hj.ne]
  split
  · next heq => rw [heq, Function.update_self]
  · next hne => rw [Function.update_of_ne hne]

/-- Removing a segment from the index removes that segment only. -/
theorem mem_swapOut (hdistinct : ∀ i < registry.count, ∀ j < registry.count,
      registry.index i = registry.index j → i = j) (other : ℕ) :
    Indexed (swapOut registry seg) other ↔
      Indexed registry other ∧ other ≠ seg := by
  unfold Indexed
  rcases find?_index registry seg with ⟨i, hi, hindex, hfind⟩ | ⟨habsent, hfind⟩
  · simp only [swapOut, hfind]
    constructor
    · rintro ⟨j, hj, hother⟩
      rw [update_index hj] at hother
      refine ⟨⟨_, by split <;> omega, hother⟩, ?_⟩
      rintro rfl
      have heq := hdistinct _ (by split <;> omega) i hi
        (hother.trans hindex.symm)
      split at heq <;> omega
    · rintro ⟨⟨j, hj, hother⟩, hne⟩
      by_cases hlast : j = registry.count - 1
      · -- The last entry has moved to the place of the removed one.
        have hplace : i < registry.count - 1 := by
          refine lt_of_le_of_ne (by omega) fun heq => hne ?_
          rw [← hother, ← hindex, heq, hlast]
        exact ⟨i, hplace, by rw [update_index hplace, if_pos rfl, ← hlast,
          hother]⟩
      · have hplace : j < registry.count - 1 := by omega
        refine ⟨j, hplace, ?_⟩
        rw [update_index hplace, if_neg, hother]
        rintro rfl
        exact hne (hother.symm.trans hindex)
  · simp only [swapOut, hfind]
    constructor
    · rintro ⟨j, hj, rfl⟩
      exact ⟨⟨j, hj, rfl⟩, habsent j hj⟩
    · exact And.left

@[simp] theorem swapOut_header (registry : Registry) (seg : ℕ) :
    (swapOut registry seg).header = registry.header := by
  rw [swapOut]
  split <;> rfl

@[simp] theorem swapOut_pagemap (registry : Registry) (seg : ℕ) :
    (swapOut registry seg).pagemap = registry.pagemap := by
  rw [swapOut]
  split <;> rfl

theorem unregisterSegment_header (layout : SegmentLayout)
    (registry : Registry) (seg : ℕ) :
    (unregisterSegment layout registry seg).header = registry.header := by
  rw [unregisterSegment, swapOut_header]

/-- Unregistering a segment takes its entry out of the index, if it has one. -/
theorem indexed_unregisterSegment (hinv : Inv layout registry registered)
    (other : ℕ) :
    Indexed (unregisterSegment layout registry seg) other ↔
      Indexed registry other ∧ other ≠ seg :=
  @mem_swapOut
    { registry with
      pagemap := pagemapMark layout registry.pagemap seg false } seg
    hinv.distinct other

theorem Inv.unregisterSegment (hinv : Inv layout registry registered)
    (hseg : layout.segmentSize ∣ seg) :
    Inv layout (unregisterSegment layout registry seg)
      (registered.erase seg) := by
  constructor
  · intro bit hbit
    rw [Registry.unregisterSegment, swapOut_pagemap]
    dsimp only
    rw [testBit_pagemapMark hbit, Finset.mem_erase, ne_eq,
      ← mul_eq_iff hseg, ← hinv.bit_iff bit hbit]
    split <;> simp [*]
  · intro other hother
    exact hinv.placed other (Finset.mem_of_mem_erase hother)
  · rw [Registry.unregisterSegment, swapOut]
    split
    · exact hinv.count_le
    · exact (Nat.sub_le _ _).trans hinv.count_le
  · rw [Registry.unregisterSegment, swapOut]
    split
    · exact hinv.distinct
    · next i hfind =>
        intro j hj k hk heq
        dsimp only at hj hk heq
        rw [update_index hj, update_index hk] at heq
        have hi := List.mem_range.mp (List.mem_of_find?_eq_some hfind)
        dsimp only at hi
        have hsame := hinv.distinct _ (by split <;> omega) _
          (by split <;> omega) heq
        split at hsame <;> split at hsame <;> omega
  · intro i hi
    obtain ⟨⟨j, hj, hold⟩, hne⟩ :=
      (indexed_unregisterSegment hinv _).mp ⟨i, hi, rfl⟩
    exact Finset.mem_erase.mpr ⟨hne, hold ▸ hinv.known j hj⟩
  · rw [Registry.unregisterSegment, swapOut]
    split
    · exact hinv.beyond
    · next i hfind =>
        intro j hj
        dsimp only at hj ⊢
        by_cases hlast : j = registry.count - 1
        · rw [hlast, Function.update_self]
        · have hi := List.mem_range.mp (List.mem_of_find?_eq_some hfind)
          dsimp only at hi
          rw [Function.update_of_ne hlast, Function.update_of_ne (by omega)]
          exact hinv.beyond j (by omega)
  · intro other hother
    rw [unregisterSegment_header]
    exact hinv.mapped other (Finset.mem_of_mem_erase hother)

theorem Inv.freeSegment (hinv : Inv layout registry registered)
    (hnull : seg ≠ 0) (hseg : layout.segmentSize ∣ seg) :
    Inv layout (freeSegment layout registry seg) (registered.erase seg) := by
  rw [Registry.freeSegment, if_neg hnull,
    ← unregisterSegment_header layout registry seg]
  refine (hinv.unregisterSegment hseg).writeHeader none fun hmem => ?_
  exact absurd rfl (Finset.ne_of_mem_erase hmem)

theorem Inv.decommitSegment (hinv : Inv layout registry registered)
    (pageSize : ℕ) :
    Inv layout (decommitSegment layout pageSize registry seg) registered := by
  rw [Registry.decommitSegment]
  split
  · exact hinv
  · refine hinv.writeHeader _ fun hmem => ?_
    rw [ne_eq, Option.map_eq_none_iff]
    exact hinv.mapped seg hmem

end Operations

/-! ## The sweep -/

/-- What makes a sweep select an indexed segment. -/
def Reapable (mode : ReapMode) (pred : Option (ℕ → Bool))
    (header : SegmentHeader) : Prop :=
  header.retired = true ∧ header.liveChunks = 0 ∧
    (mode = .conservative → ∀ p ∈ pred, p header.allocSite = true) ∧
    (mode = .madvise → header.decommitted = false)

def Selected (registry : Registry) (mode : ReapMode) (pred : Option (ℕ → Bool))
    (seg : ℕ) : Prop :=
  Indexed registry seg ∧
    ∃ header, registry.header seg = some header ∧ Reapable mode pred header

theorem eligible_iff (mode : ReapMode) (pred : Option (ℕ → Bool))
    (header : SegmentHeader) :
    eligible mode pred header = true ↔ Reapable mode pred header := by
  rw [eligible, Reapable]
  cases mode <;> cases pred <;> simp [and_assoc]

section Sweep

variable {layout} {registry : Registry} {registered : Finset ℕ}
variable {mode : ReapMode} {pred : Option (ℕ → Bool)} {pageSize : ℕ}

theorem Inv.mem_eligibleSegments (hinv : Inv layout registry registered)
    (seg : ℕ) :
    seg ∈ eligibleSegments mode pred registry ↔
      Selected registry mode pred seg := by
  rw [eligibleSegments, List.mem_filter, List.mem_map, Selected, Indexed]
  simp only [List.mem_range, decide_eq_true_eq, Option.any_eq_true,
    eligible_iff]
  constructor
  · exact fun h => ⟨h.1, h.2.2⟩
  · rintro ⟨⟨i, hi, rfl⟩, hheader⟩
    exact ⟨⟨i, hi, rfl⟩, (hinv.placed _ (hinv.known i hi)).1, hheader⟩

theorem Inv.placed_eligibleSegments (hinv : Inv layout registry registered) :
    ∀ seg ∈ eligibleSegments mode pred registry,
      seg ≠ 0 ∧ layout.segmentSize ∣ seg := by
  intro seg hseg
  obtain ⟨⟨i, hi, rfl⟩, -⟩ := (hinv.mem_eligibleSegments seg).mp hseg
  obtain ⟨hnull, hdvd, -⟩ := hinv.placed _ (hinv.known i hi)
  exact ⟨hnull, hdvd⟩

theorem Inv.nodup_eligibleSegments (hinv : Inv layout registry registered) :
    (eligibleSegments mode pred registry).Nodup := by
  refine List.Nodup.filter _ (List.Nodup.map_on ?_ List.nodup_range)
  intro i hi j hj heq
  exact hinv.distinct i (List.mem_range.mp hi) j (List.mem_range.mp hj) heq

/-- Reclaiming one segment. -/
theorem Inv.reclaimSegment (hinv : Inv layout registry registered) {seg : ℕ}
    (hnull : seg ≠ 0) (hseg : layout.segmentSize ∣ seg) :
    Inv layout (reclaimSegment layout mode pageSize registry seg)
      (if mode = .madvise then registered else registered.erase seg) := by
  rw [Registry.reclaimSegment]
  split
  · exact hinv.decommitSegment pageSize
  · exact hinv.freeSegment hnull hseg

theorem Inv.foldl_reclaimSegment (hinv : Inv layout registry registered)
    {segs : List ℕ} (hsegs : ∀ seg ∈ segs, seg ≠ 0 ∧ layout.segmentSize ∣ seg) :
    Inv layout (segs.foldl (Registry.reclaimSegment layout mode pageSize)
        registry)
      (if mode = .madvise then registered
        else registered \ segs.toFinset) := by
  induction segs generalizing registry registered with
  | nil => simpa using hinv
  | cons seg segs ih =>
      obtain ⟨hnull, hseg⟩ := hsegs seg List.mem_cons_self
      have hreclaimed : Inv layout
          (Registry.reclaimSegment layout mode pageSize registry seg) _ :=
        hinv.reclaimSegment hnull hseg
      have hrest := ih hreclaimed fun other hother =>
        hsegs other (List.mem_cons_of_mem _ hother)
      rw [List.foldl_cons]
      convert hrest using 1
      split
      · rfl
      · rw [List.toFinset_cons, Finset.sdiff_insert, Finset.erase_sdiff_comm]

/-- What reclaiming does to the index. -/
theorem indexed_reclaimSegment (hinv : Inv layout registry registered)
    {seg : ℕ} (hnull : seg ≠ 0) (other : ℕ) :
    Indexed (reclaimSegment layout mode pageSize registry seg) other ↔
      Indexed registry other ∧ (mode = .madvise ∨ other ≠ seg) := by
  rw [reclaimSegment]
  split
  · next hmode =>
      rw [decommitSegment]
      split <;> simp [Indexed, hmode]
  · next hmode =>
      rw [freeSegment, if_neg hnull]
      exact (indexed_unregisterSegment hinv other).trans (by simp [hmode])

theorem indexed_foldl_reclaimSegment (hinv : Inv layout registry registered)
    {segs : List ℕ} (hsegs : ∀ seg ∈ segs, seg ≠ 0 ∧ layout.segmentSize ∣ seg)
    (other : ℕ) :
    Indexed (segs.foldl (reclaimSegment layout mode pageSize) registry) other ↔
      Indexed registry other ∧ (mode = .madvise ∨ other ∉ segs) := by
  induction segs generalizing registry registered with
  | nil => simp
  | cons seg segs ih =>
      obtain ⟨hnull, hseg⟩ := hsegs seg List.mem_cons_self
      rw [List.foldl_cons, ih (hinv.reclaimSegment hnull hseg) fun other hother =>
        hsegs other (List.mem_cons_of_mem _ hother),
        indexed_reclaimSegment hinv hnull, List.mem_cons, not_or]
      tauto

theorem reclaimSegment_header_of_ne {seg other : ℕ} (hne : other ≠ seg) :
    (reclaimSegment layout mode pageSize registry seg).header other =
      registry.header other := by
  rw [reclaimSegment]
  split
  · rw [decommitSegment]
    split
    · rfl
    · exact Function.update_of_ne hne _ _
  · rw [freeSegment]
    split
    · rfl
    · exact Function.update_of_ne hne _ _

theorem foldl_reclaimSegment_header {segs : List ℕ} {other : ℕ}
    (hother : other ∉ segs) :
    (segs.foldl (reclaimSegment layout mode pageSize) registry).header other =
      registry.header other := by
  induction segs generalizing registry with
  | nil => rfl
  | cons seg segs ih =>
      rw [List.mem_cons, not_or] at hother
      rw [List.foldl_cons, ih hother.2, reclaimSegment_header_of_ne hother.1]

/-- In the madvise mode each of the segments is marked. -/
theorem foldl_reclaimSegment_decommitted (hpage : 0 < pageSize)
    (hsmall : pageSize < layout.segmentSize) {segs : List ℕ}
    (hnodup : segs.Nodup) {seg : ℕ} (hseg : seg ∈ segs) :
    (segs.foldl (reclaimSegment layout .madvise pageSize) registry).header seg =
      (registry.header seg).map fun header =>
        { header with decommitted := true } := by
  induction segs generalizing registry with
  | nil => cases hseg
  | cons first segs ih =>
      rw [List.nodup_cons] at hnodup
      rw [List.foldl_cons]
      by_cases heq : seg = first
      · subst heq
        rw [foldl_reclaimSegment_header hnodup.1, reclaimSegment, if_pos rfl,
          decommitSegment, if_neg (by omega)]
        exact Function.update_self _ _ _
      · rw [ih hnodup.2 ((List.mem_cons.mp hseg).resolve_left heq),
          reclaimSegment_header_of_ne heq]

end Sweep

/-! ## Runs -/

section Runs

variable {layout} {history : History}

theorem inv_step {op : Op} {target : History}
    (hinv : Inv layout history.registry history.registered)
    (hvalid : Valid layout history op)
    (hstep : step layout history op = some target) :
    Inv layout target.registry target.registered := by
  cases op with
  | register seg header =>
      cases hstep
      obtain ⟨hnull, hseg, hlow, hfresh⟩ := hvalid
      refine (hinv.writeHeader (some header)
        fun _ => Option.some_ne_none _).registerSegment hnull hseg hlow hfresh ?_
      dsimp only
      rw [Function.update_self]
      exact Option.some_ne_none _
  | unregister seg =>
      cases hstep
      exact hinv.unregisterSegment hvalid
  | write seg header =>
      cases hstep
      refine hinv.writeHeader _ fun hmem => ?_
      rw [ne_eq, Option.map_eq_none_iff]
      exact hinv.mapped seg hmem
  | sweep mode pred pageSize =>
      cases hstep
      exact hinv.foldl_reclaimSegment hinv.placed_eligibleSegments

theorem inv_reachable
    (hreach : ReachableWhen (step layout) (Valid layout) .empty history) :
    Inv layout history.registry history.registered :=
  @ReachableWhen.invariant _ _ _ _ _
    (fun history => Inv layout history.registry history.registered)
    (inv_empty layout)
    (fun _ _ _ hinv hvalid hstep => inv_step hinv hvalid hstep) _ hreach

/-- A segment gets the entry after the last one, if there is room. -/
theorem indexed_registerSegment {registry : Registry} {seg : ℕ}
    (hroom : registry.count < maxSegments) :
    Indexed (registerSegment layout registry seg) seg := by
  rw [registerSegment, if_pos hroom]
  exact ⟨registry.count, Nat.lt_succ_self _, Function.update_self _ _ _⟩

/-- What a sweep does, against what it selects. -/
structure SweepExact (layout : SegmentLayout) (registry : Registry)
    (mode : ReapMode) (pred : Option (ℕ → Bool)) (pageSize : ℕ)
    (selected : Finset ℕ) : Prop where
  selected_iff : ∀ seg, seg ∈ selected ↔ Selected registry mode pred seg
  returned : (reaperSweep layout mode pred pageSize registry).2 = selected.card
  managed_iff : ∀ seg, layout.segmentSize ∣ seg →
    (isManaged layout (reaperSweep layout mode pred pageSize registry).1 seg =
        true ↔
      isManaged layout registry seg = true ∧
        (mode = .madvise ∨ seg ∉ selected))
  indexed_iff : ∀ seg,
    Indexed (reaperSweep layout mode pred pageSize registry).1 seg ↔
      Indexed registry seg ∧ (mode = .madvise ∨ seg ∉ selected)
  decommitted : mode = .madvise → ∀ seg ∈ selected,
    (reaperSweep layout mode pred pageSize registry).1.header seg =
      (registry.header seg).map fun header =>
        { header with decommitted := true }
  others : ∀ seg, seg ∉ selected →
    (reaperSweep layout mode pred pageSize registry).1.header seg =
      registry.header seg

theorem Inv.sweepExact {registry : Registry} {registered : Finset ℕ}
    (hinv : Inv layout registry registered) (mode : ReapMode)
    (pred : Option (ℕ → Bool)) {pageSize : ℕ} (hpage : 0 < pageSize)
    (hsmall : pageSize < layout.segmentSize) :
    SweepExact layout registry mode pred pageSize
      (eligibleSegments mode pred registry).toFinset where
  selected_iff := by
    intro seg
    rw [List.mem_toFinset, hinv.mem_eligibleSegments]
  returned := (List.toFinset_card_of_nodup hinv.nodup_eligibleSegments).symm
  managed_iff := by
    intro seg hseg
    have hswept : Inv layout (reaperSweep layout mode pred pageSize registry).1
        _ := hinv.foldl_reclaimSegment hinv.placed_eligibleSegments
    rw [hswept.isManaged_iff hseg, hinv.isManaged_iff hseg]
    by_cases hmode : mode = .madvise <;> simp [hmode]
  indexed_iff := by
    intro seg
    rw [List.mem_toFinset]
    exact indexed_foldl_reclaimSegment hinv hinv.placed_eligibleSegments seg
  decommitted := by
    rintro rfl seg hseg
    exact foldl_reclaimSegment_decommitted hpage hsmall
      hinv.nodup_eligibleSegments (List.mem_toFinset.mp hseg)
  others := fun _ hseg => foldl_reclaimSegment_header fun hmem =>
    hseg (List.mem_toFinset.mpr hmem)

/-- Registry, page map and reaper agree after every sequence of operations. -/
theorem agree_reachable
    (hreach : ReachableWhen (step layout) (Valid layout) .empty history) :
    (∀ ptr, isManaged layout history.registry (segmentOf layout ptr) = true ↔
      ∃ base ∈ history.registered, base ≤ ptr ∧
        ptr < segmentEnd layout base) ∧
    history.registry.count ≤ maxSegments ∧
    (∀ i < history.registry.count,
      history.registry.index i ∈ history.registered ∧
      ∀ j < history.registry.count,
        history.registry.index i = history.registry.index j → i = j) ∧
    (∀ i, history.registry.count ≤ i → history.registry.index i = 0) ∧
    (∀ seg header target, Valid layout history (.register seg header) →
      step layout history (.register seg header) = some target →
      isManaged layout target.registry seg = true ∧
        (history.registry.count < maxSegments →
          Indexed target.registry seg)) ∧
    ∀ mode pred pageSize, 0 < pageSize → pageSize < layout.segmentSize →
      ∃ selected, SweepExact layout history.registry mode pred pageSize
        selected := by
  have hinv := inv_reachable hreach
  refine ⟨hinv.isManaged_segmentOf_iff, hinv.count_le,
    fun i hi => ⟨hinv.known i hi, hinv.distinct i hi⟩, hinv.beyond, ?_, ?_⟩
  · intro seg header target hvalid hstep
    have htarget := inv_step hinv hvalid hstep
    cases hstep
    exact ⟨(htarget.isManaged_iff hvalid.2.1).mpr (Finset.mem_insert_self _ _),
      fun hroom => indexed_registerSegment hroom⟩
  · exact fun mode pred pageSize hpage hsmall =>
      ⟨_, hinv.sweepExact mode pred hpage hsmall⟩

/-- A segment that has lost its chunks and its slot. -/
def retiredHeader : SegmentHeader where
  strategy := .bumpAlloc
  retired := true
  classIdx := 0
  decommitted := false
  slotIndex := 0
  allocSite := 0
  ownerTid := 1
  liveChunks := 0
  chunkSize := 32
  remoteHead := 0
  bumpPtr := 0
  bumpLimit := 0
  nextInSite := 0

/-- Of three neighbours the first is unregistered and the second swept. -/
theorem agree_neighbours :
    ∃ history, run (step .default) .empty
        [.register 0x200000 retiredHeader, .register 0x400000 retiredHeader,
          .register 0x600000 { retiredHeader with retired := false },
          .unregister 0x200000, .sweep .eager none 4096] = some history ∧
      isManaged .default history.registry (segmentOf .default 0x3fffff) =
        false ∧
      isManaged .default history.registry (segmentOf .default 0x5fffff) =
        false ∧
      isManaged .default history.registry (segmentOf .default 0x6fffff) =
        true := by
  have hreach : ReachableWhen (step .default) (Valid .default) .empty _ :=
    .act (.sweep .eager none 4096) (.act (.unregister 0x200000)
      (.act (.register 0x600000 { retiredHeader with retired := false })
        (.act (.register 0x400000 retiredHeader)
          (.act (.register 0x200000 retiredHeader) .start ?first rfl) ?second
          rfl) ?third rfl) ?unregister rfl) ?sweep rfl
  case first => exact ⟨by decide, by decide, by decide, by decide⟩
  case second => exact ⟨by decide, by decide, by decide, by decide⟩
  case third => exact ⟨by decide, by decide, by decide, by decide⟩
  case unregister =>
    exact (by decide : SegmentLayout.default.segmentSize ∣ 0x200000)
  case sweep => exact ⟨by decide, by decide⟩
  have hmanaged := (agree_reachable hreach).1
  refine ⟨_, rfl, ?_, ?_, (hmanaged 0x6fffff).mpr ⟨0x600000, by decide,
    by decide, by decide⟩⟩
  · rw [Bool.eq_false_iff, ne_eq, hmanaged 0x3fffff]
    decide
  · rw [Bool.eq_false_iff, ne_eq, hmanaged 0x5fffff]
    decide

end Runs

/-! ## The heap's registry -/

section Heap

variable {layout} {registry : Registry} {heap : Heap} {seg : ℕ}

/-- The heap model's page map and index are those of the registry. -/
structure Agrees (layout : SegmentLayout) (registry : Registry) (heap : Heap) :
    Prop where
  pagemap : ∀ bit < pagemapSlots layout,
    testBit registry.pagemap bit = heap.pagemap bit
  index : (List.range registry.count).map registry.index = heap.index

theorem Agrees.isManaged_eq (hagrees : Agrees layout registry heap)
    (hlow : seg < 2 ^ 48) :
    isManaged layout registry seg = Segment.isManaged layout heap seg := by
  have hbit : seg / layout.segmentSize < pagemapSlots layout :=
    div_lt_pagemapSlots.mpr hlow
  rw [isManaged, shiftRight_eq, Segment.isManaged]
  split
  · next hnull => simp [hnull]
  · next hnull =>
      rw [if_neg (Nat.not_le.mpr hbit), hagrees.pagemap _ hbit]
      simp [hnull]

theorem Agrees.registerSegment (hagrees : Agrees layout registry heap) :
    Agrees layout (registerSegment layout registry seg)
      (Segment.registerSegment layout heap seg) := by
  have hlength : heap.index.length = registry.count := by
    rw [← hagrees.index, List.length_map, List.length_range]
  constructor
  · intro bit hbit
    have hmark : (Registry.registerSegment layout registry seg).pagemap =
        pagemapMark layout registry.pagemap seg true := by
      rw [Registry.registerSegment]
      split <;> rfl
    rw [hmark, testBit_pagemapMark hbit, Segment.registerSegment]
    dsimp only
    rw [hagrees.pagemap bit hbit, Function.update_apply]
  · rw [Registry.registerSegment, Segment.registerSegment]
    dsimp only
    rw [hlength]
    split
    · rw [List.range_succ, List.map_append, ← hagrees.index]
      congr 1
      · refine List.map_congr_left fun i hi => ?_
        exact Function.update_of_ne (List.mem_range.mp hi).ne _ _
      · simp
    · exact hagrees.index

/-- The loop over the array is the list's swap-removal. -/
theorem map_swapOut (hdistinct : ∀ i < registry.count, ∀ j < registry.count,
      registry.index i = registry.index j → i = j) :
    (List.range (swapOut registry seg).count).map (swapOut registry seg).index =
      swapRemove ((List.range registry.count).map registry.index) seg := by
  have hnodup : ((List.range registry.count).map registry.index).Nodup :=
    List.Nodup.map_on (fun i hi j hj heq => hdistinct i (List.mem_range.mp hi) j
      (List.mem_range.mp hj) heq) List.nodup_range
  rcases find?_index registry seg with ⟨i, hi, rfl, hfind⟩ | ⟨habsent, hfind⟩
  · have hmem : registry.index i ∈
        (List.range registry.count).map registry.index :=
      List.mem_map.mpr ⟨i, List.mem_range.mpr hi, rfl⟩
    have hidx : ((List.range registry.count).map registry.index).idxOf
        (registry.index i) = i := by
      have hplace :
          i < ((List.range registry.count).map registry.index).length := by
        simpa using hi
      have hget : ((List.range registry.count).map registry.index)[i] =
          registry.index i := by simp
      conv_lhs => rw [← hget]
      exact hnodup.idxOf_getElem i hplace
    have hlast : ((List.range registry.count).map registry.index).getLastD 0 =
        registry.index (registry.count - 1) := by
      rw [List.getLastD_eq_getLast?, List.getLast?_eq_getElem?]
      simp [List.getElem?_range (show registry.count - 1 < registry.count by
        omega)]
    simp only [swapOut, hfind, swapRemove, if_pos hmem, hidx, hlast]
    refine List.ext_getElem (by simp) fun j hj _ => ?_
    have hplace : j < registry.count - 1 := by simpa using hj
    rw [List.getElem_map, List.getElem_range, update_index hplace,
      List.getElem_dropLast, List.getElem_set]
    by_cases heq : i = j
    · rw [if_pos heq, if_pos heq.symm]
    · rw [if_neg heq, if_neg (Ne.symm heq), List.getElem_map,
        List.getElem_range]
  · have hmem : seg ∉ (List.range registry.count).map registry.index := by
      intro hmem
      obtain ⟨i, hi, heq⟩ := List.mem_map.mp hmem
      exact habsent i (List.mem_range.mp hi) heq
    simp only [swapOut, hfind, swapRemove, if_neg hmem]

theorem Agrees.unregisterSegment (hagrees : Agrees layout registry heap)
    {registered : Finset ℕ} (hinv : Inv layout registry registered) :
    Agrees layout (unregisterSegment layout registry seg)
      (Segment.unregisterSegment layout heap seg) where
  pagemap := by
    intro bit hbit
    rw [Registry.unregisterSegment, swapOut_pagemap,
      Segment.unregisterSegment]
    dsimp only
    rw [testBit_pagemapMark hbit, hagrees.pagemap bit hbit,
      Function.update_apply]
  index := by
    rw [Segment.unregisterSegment, ← hagrees.index]
    exact @map_swapOut
      { registry with
        pagemap := pagemapMark layout registry.pagemap seg false } seg
      hinv.distinct

end Heap

end Registry

end TbjitAlloc.Segment
