import TbjitAlloc.Common

/-!
# Resolving a trace

`resolve` turns recorded events into operations on numbered slots: an allocation
fills the next slot, a free refers to the slot of the allocation it matches.
The map from pointers to slots, the flags of the freed slots and the counters
are followed event by event.
-/

namespace TbjitAlloc.Replay

/-- An operation of the replay.  The routine of an allocation is filled in later
and plays no part here. -/
inductive Op
  | alloc (id size slot : ℕ)
  | free (slot : ℕ)
  deriving DecidableEq

def Op.filled : Op → Option ℕ
  | .alloc _ _ slot => some slot
  | .free _ => none

def Op.freed : Op → Option ℕ
  | .alloc _ _ _ => none
  | .free slot => some slot

/-- The slot that the operation indexes. -/
def Op.slot : Op → ℕ
  | .alloc _ _ slot => slot
  | .free slot => slot

/-- The slots that operations fill, and those they free, in order. -/
def filledSlots (ops : List Op) : List ℕ := ops.filterMap Op.filled

def freedSlots (ops : List Op) : List ℕ := ops.filterMap Op.freed

structure Resolved where
  ops : List Op
  leaked : List ℕ
  nAllocs : ℕ
  totalFrees : ℕ
  matchedFrees : ℕ

/-- The variables of the loop: `liveIndex` is the map, `freed` the flags. -/
structure ResolveState where
  ops : List Op
  freed : List Bool
  liveIndex : ℕ → Option ℕ
  nAllocs : ℕ
  totalFrees : ℕ
  matchedFrees : ℕ

namespace ResolveState

def initial : ResolveState where
  ops := []
  freed := []
  liveIndex := fun _ => none
  nAllocs := 0
  totalFrees := 0
  matchedFrees := 0

def resolveAlloc (state : ResolveState) (event : AllocEvent) : ResolveState :=
  { state with
    ops := state.ops ++ [.alloc event.callSite event.size state.nAllocs]
    freed := state.freed ++ [false]
    liveIndex :=
      if event.ptr ≠ 0 then
        Function.update state.liveIndex event.ptr (some state.nAllocs)
      else state.liveIndex
    nAllocs := (state.nAllocs + 1) % 2 ^ 32 }

/-- A free that matches nothing is counted and skipped. -/
def resolveFree (state : ResolveState) (event : AllocEvent) : ResolveState :=
  let state := { state with totalFrees := (state.totalFrees + 1) % 2 ^ 64 }
  match state.liveIndex event.ptr with
  | none => state
  | some slot =>
      { state with
        ops := state.ops ++ [.free slot]
        freed := state.freed.set slot true
        liveIndex := Function.update state.liveIndex event.ptr none
        matchedFrees := (state.matchedFrees + 1) % 2 ^ 64 }

def step (state : ResolveState) (event : AllocEvent) : ResolveState :=
  if event.size ≠ 0 then state.resolveAlloc event else state.resolveFree event

/-- The state after the events. -/
def after (events : List AllocEvent) : ResolveState :=
  events.foldl step initial

theorem after_append (events : List AllocEvent) (event : AllocEvent) :
    after (events ++ [event]) = (after events).step event := by
  rw [after, List.foldl_append]
  rfl

/-- The slots below `n_allocs` whose flag is not set. -/
def leaked (state : ResolveState) : List ℕ :=
  (List.range state.nAllocs).filter fun slot => state.freed[slot]? ≠ some true

end ResolveState

theorem ResolveState.lt_of_mem_leaked {state : ResolveState} {slot : ℕ}
    (hslot : slot ∈ state.leaked) : slot < state.nAllocs :=
  List.mem_range.mp (List.mem_filter.mp hslot).1

def resolve (events : List AllocEvent) : Resolved where
  ops := (ResolveState.after events).ops
  leaked := (ResolveState.after events).leaked
  nAllocs := (ResolveState.after events).nAllocs
  totalFrees := (ResolveState.after events).totalFrees
  matchedFrees := (ResolveState.after events).matchedFrees

/-! ## Operations one after another -/

section Ops

variable {ops : List Op} {slot : ℕ}

@[simp] theorem filledSlots_alloc (ops : List Op) (id size slot : ℕ) :
    filledSlots (ops ++ [.alloc id size slot]) = filledSlots ops ++ [slot] := by
  simp [filledSlots, Op.filled]

@[simp] theorem filledSlots_free (ops : List Op) (slot : ℕ) :
    filledSlots (ops ++ [.free slot]) = filledSlots ops := by
  simp [filledSlots, Op.filled]

@[simp] theorem freedSlots_alloc (ops : List Op) (id size slot : ℕ) :
    freedSlots (ops ++ [.alloc id size slot]) = freedSlots ops := by
  simp [freedSlots, Op.freed]

@[simp] theorem freedSlots_free (ops : List Op) (slot : ℕ) :
    freedSlots (ops ++ [.free slot]) = freedSlots ops ++ [slot] := by
  simp [freedSlots, Op.freed]

/-- An element of a list with one more at its end is that one or of the list. -/
theorem split_append_singleton {α : Type*} {items before after : List α}
    {last item : α} (hsplit : items ++ [last] = before ++ item :: after) :
    (items = before ∧ last = item) ∨
      ∃ rest, items = before ++ item :: rest := by
  cases after using List.reverseRecOn with
  | nil =>
      obtain ⟨hinit, hlast⟩ := List.append_inj' hsplit rfl
      exact .inl ⟨hinit, List.singleton_injective hlast⟩
  | append_singleton rest other =>
      rw [← List.cons_append, ← List.append_assoc] at hsplit
      exact .inr ⟨rest, (List.append_inj' hsplit rfl).1⟩

/-- Every free refers to a slot that was filled before and not freed since. -/
def FreesEarlier (ops : List Op) : Prop :=
  ∀ before slot after, ops = before ++ .free slot :: after →
    slot ∈ filledSlots before ∧ slot ∉ freedSlots before

theorem FreesEarlier.nil : FreesEarlier [] := by
  intro before slot after hops
  simp at hops

theorem FreesEarlier.append {op : Op} (hops : FreesEarlier ops)
    (hop : ∀ slot, op = .free slot →
      slot ∈ filledSlots ops ∧ slot ∉ freedSlots ops) :
    FreesEarlier (ops ++ [op]) := by
  intro before slot after hsplit
  rcases split_append_singleton hsplit with ⟨rfl, hlast⟩ | ⟨rest, hinit⟩
  · exact hop slot hlast
  · exact hops before slot rest hinit

theorem FreesEarlier.init {op : Op} (hops : FreesEarlier (ops ++ [op])) :
    FreesEarlier ops := by
  intro before slot after hsplit
  refine hops before slot (after ++ [op]) ?_
  rw [hsplit, List.append_assoc, List.cons_append]

/-- Only filled slots are freed. -/
theorem FreesEarlier.mem_filled (hops : FreesEarlier ops)
    (hslot : slot ∈ freedSlots ops) : slot ∈ filledSlots ops := by
  obtain ⟨op, hop, hfreed⟩ := List.mem_filterMap.mp hslot
  cases op with
  | alloc id size other => cases hfreed
  | free other =>
      obtain rfl := Option.some.inj hfreed
      obtain ⟨before, after, rfl⟩ := List.append_of_mem hop
      rw [filledSlots, List.filterMap_append]
      exact List.mem_append_left _ (hops before other after rfl).1

end Ops

/-! ## The loop -/

/-- The events that are allocations. -/
def allocs (events : List AllocEvent) : List AllocEvent :=
  events.filter fun event => event.size ≠ 0

/-- The allocations of a pointer that no operation frees. -/
def Unfreed (events : List AllocEvent) (ops : List Op) (ptr : ℕ) : Set ℕ :=
  {slot | ((allocs events)[slot]?).map AllocEvent.ptr = some ptr ∧
    slot ∉ freedSlots ops}

/-- What holds after every event, while the slots are fewer than `2^32`. -/
structure ResolveOk (events : List AllocEvent) (state : ResolveState) :
    Prop where
  nAllocs : state.nAllocs = (allocs events).length
  filled : filledSlots state.ops = List.range state.nAllocs
  length_freed : state.freed.length = state.nAllocs
  freed_iff : ∀ slot, state.freed[slot]? = some true ↔
    slot ∈ freedSlots state.ops
  nodup : (freedSlots state.ops).Nodup
  matched : state.matchedFrees = (freedSlots state.ops).length
  live : ∀ ptr slot, state.liveIndex ptr = some slot →
    ptr ≠ 0 ∧ IsGreatest (Unfreed events state.ops ptr) slot
  earlier : FreesEarlier state.ops

section Loop

variable {events : List AllocEvent} {state : ResolveState}
variable {event : AllocEvent}

theorem allocs_append_of_alloc (hsize : event.size ≠ 0) :
    allocs (events ++ [event]) = allocs events ++ [event] := by
  simp [allocs, hsize]

theorem allocs_append_of_free (hsize : event.size = 0) :
    allocs (events ++ [event]) = allocs events := by
  simp [allocs, hsize]

theorem ResolveOk.freed_lt (hok : ResolveOk events state) :
    ∀ slot ∈ freedSlots state.ops, slot < state.nAllocs := by
  intro slot hslot
  have hflag := (hok.freed_iff slot).mpr hslot
  obtain ⟨hlt, -⟩ := List.getElem?_eq_some_iff.mp hflag
  rwa [hok.length_freed] at hlt

/-- What a pass indexes lies in an array of `n_allocs` slots. -/
theorem ResolveOk.slot_lt (hok : ResolveOk events state) :
    ∀ op ∈ state.ops, op.slot < state.nAllocs := by
  intro op hop
  cases op with
  | alloc id size slot =>
      have hfilled : slot ∈ filledSlots state.ops :=
        List.mem_filterMap.mpr ⟨_, hop, rfl⟩
      rw [hok.filled] at hfilled
      exact List.mem_range.mp hfilled
  | free slot =>
      exact hok.freed_lt slot (List.mem_filterMap.mpr ⟨_, hop, rfl⟩)

theorem mem_unfreed_alloc (hsize : event.size ≠ 0) {ops : List Op}
    {id size slot ptr other : ℕ} :
    other ∈ Unfreed (events ++ [event]) (ops ++ [.alloc id size slot]) ptr ↔
      other ∈ Unfreed events ops ptr ∨
        other = (allocs events).length ∧ event.ptr = ptr ∧
          other ∉ freedSlots ops := by
  rw [Unfreed, Set.mem_ofPred_eq, allocs_append_of_alloc hsize,
    freedSlots_alloc, Unfreed, Set.mem_ofPred_eq]
  by_cases hold : other < (allocs events).length
  · rw [List.getElem?_append_left hold]
    simp [hold.ne]
  · rw [List.getElem?_append_right (not_lt.mp hold),
      List.getElem?_eq_none (not_lt.mp hold), List.getElem?_singleton]
    by_cases hlast : other = (allocs events).length
    · simp [hlast]
    · have hlater : ¬other ≤ (allocs events).length := by omega
      simp [hlast, hlater, Nat.sub_eq_zero_iff_le]

/-- A new slot is the newest of its pointer and of no other. -/
theorem ResolveOk.live_resolveAlloc (hok : ResolveOk events state)
    (hsize : event.size ≠ 0) {ptr slot : ℕ}
    (hlive : (state.resolveAlloc event).liveIndex ptr = some slot) :
    ptr ≠ 0 ∧ IsGreatest
      (Unfreed (events ++ [event]) (state.resolveAlloc event).ops ptr)
      slot := by
  have hnew : ∀ ptr, event.ptr ≠ ptr →
      Unfreed (events ++ [event]) (state.resolveAlloc event).ops ptr =
        Unfreed events state.ops ptr := by
    intro ptr hptr
    ext other
    rw [ResolveState.resolveAlloc, mem_unfreed_alloc hsize]
    simp [hptr]
  have hkept : ∀ ptr, event.ptr ≠ ptr → state.liveIndex ptr = some slot →
      ptr ≠ 0 ∧ IsGreatest
        (Unfreed (events ++ [event]) (state.resolveAlloc event).ops ptr)
        slot := by
    intro ptr hptr hold
    rw [hnew ptr hptr]
    exact hok.live ptr slot hold
  rw [ResolveState.resolveAlloc] at hlive
  dsimp only at hlive
  by_cases hnull : event.ptr ≠ 0
  · rw [if_pos hnull] at hlive
    by_cases hptr : event.ptr = ptr
    · rw [← hptr, Function.update_self] at hlive
      obtain rfl := Option.some.inj hlive
      refine ⟨hptr ▸ hnull, ?_, fun other hother => ?_⟩
      · refine (mem_unfreed_alloc hsize).mpr (.inr ⟨hok.nAllocs, hptr, ?_⟩)
        exact fun hfreed => (hok.freed_lt _ hfreed).false
      · rcases (mem_unfreed_alloc hsize).mp hother with ⟨hold, -⟩ | ⟨heq, -⟩
        · obtain ⟨event', hevent, -⟩ := Option.map_eq_some_iff.mp hold
          obtain ⟨hlt, -⟩ := List.getElem?_eq_some_iff.mp hevent
          rw [hok.nAllocs]
          exact hlt.le
        · rw [heq, hok.nAllocs]
    · rw [Function.update_of_ne (Ne.symm hptr)] at hlive
      exact hkept ptr hptr hlive
  · rw [if_neg hnull] at hlive
    refine hkept ptr (fun hptr => ?_) hlive
    exact (hok.live ptr slot hlive).1 (hptr ▸ not_not.mp hnull)

theorem ResolveOk.resolveAlloc (hok : ResolveOk events state)
    (hsize : event.size ≠ 0) (hroom : state.nAllocs + 1 < 2 ^ 32) :
    ResolveOk (events ++ [event]) (state.resolveAlloc event) where
  nAllocs := by
    rw [allocs_append_of_alloc hsize, List.length_append, List.length_singleton,
      ← hok.nAllocs]
    exact Nat.mod_eq_of_lt hroom
  filled := by
    rw [ResolveState.resolveAlloc, filledSlots_alloc, hok.filled,
      Nat.mod_eq_of_lt hroom, List.range_succ]
  length_freed := by
    rw [ResolveState.resolveAlloc, Nat.mod_eq_of_lt hroom, List.length_append,
      hok.length_freed, List.length_singleton]
  freed_iff slot := by
    rw [ResolveState.resolveAlloc, freedSlots_alloc, ← hok.freed_iff]
    by_cases hslot : slot < state.freed.length
    · rw [List.getElem?_append_left hslot]
    · rw [List.getElem?_append_right (not_lt.mp hslot),
        List.getElem?_eq_none (not_lt.mp hslot), List.getElem?_singleton]
      split <;> simp
  nodup := by
    rw [ResolveState.resolveAlloc, freedSlots_alloc]
    exact hok.nodup
  matched := by
    rw [ResolveState.resolveAlloc, freedSlots_alloc]
    exact hok.matched
  live _ _ hlive := hok.live_resolveAlloc hsize hlive
  earlier := by
    refine hok.earlier.append fun slot hop => ?_
    cases hop

theorem mem_unfreed_free (hsize : event.size = 0) {ops : List Op}
    {slot ptr other : ℕ} :
    other ∈ Unfreed (events ++ [event]) (ops ++ [.free slot]) ptr ↔
      other ∈ Unfreed events ops ptr ∧ other ≠ slot := by
  rw [Unfreed, Set.mem_ofPred_eq, allocs_append_of_free hsize, freedSlots_free,
    Unfreed, Set.mem_ofPred_eq, List.mem_append, List.mem_singleton, not_or,
    and_assoc]

/-- Slots of other pointers stay the newest of theirs. -/
theorem ResolveOk.live_free (hok : ResolveOk events state)
    (hsize : event.size = 0) {freed ptr slot : ℕ}
    (hfreed : state.liveIndex event.ptr = some freed)
    (hlive : Function.update state.liveIndex event.ptr none ptr = some slot) :
    ptr ≠ 0 ∧ IsGreatest
      (Unfreed (events ++ [event]) (state.ops ++ [.free freed]) ptr) slot := by
  by_cases hptr : ptr = event.ptr
  · rw [hptr, Function.update_self] at hlive
    cases hlive
  · rw [Function.update_of_ne hptr] at hlive
    obtain ⟨hnull, hmem, hgreatest⟩ := hok.live ptr slot hlive
    obtain ⟨-, ⟨hother, -⟩, -⟩ := hok.live event.ptr freed hfreed
    have hslot : slot ≠ freed := by
      intro hsame
      rw [← hsame, hmem.1] at hother
      exact hptr (Option.some.inj hother)
    refine ⟨hnull, (mem_unfreed_free hsize).mpr ⟨hmem, hslot⟩,
      fun other hother => ?_⟩
    exact hgreatest ((mem_unfreed_free hsize).mp hother).1

theorem ResolveOk.resolveFree (hok : ResolveOk events state)
    (hsize : event.size = 0) (hroom : state.nAllocs < 2 ^ 32) :
    ResolveOk (events ++ [event]) (state.resolveFree event) := by
  have hevents : allocs (events ++ [event]) = allocs events :=
    allocs_append_of_free hsize
  rw [ResolveState.resolveFree]
  dsimp only
  cases hlive : state.liveIndex event.ptr with
  | none =>
      have hsame : ∀ ptr, Unfreed (events ++ [event]) state.ops ptr =
          Unfreed events state.ops ptr := by
        intro ptr
        rw [Unfreed, hevents, Unfreed]
      refine { hok with nAllocs := ?_, live := fun ptr slot hold => ?_ }
      · rw [hevents]
        exact hok.nAllocs
      · rw [hsame]
        exact hok.live ptr slot hold
  | some slot =>
      obtain ⟨-, hmem, -⟩ := hok.live event.ptr slot hlive
      have hslot : slot < state.freed.length := by
        obtain ⟨event', hevent, -⟩ := Option.map_eq_some_iff.mp hmem.1
        obtain ⟨hlt, -⟩ := List.getElem?_eq_some_iff.mp hevent
        rwa [hok.length_freed, hok.nAllocs]
      -- every freed slot is one of fewer than 2^32
      have hbound : (freedSlots state.ops).length ≤ state.nAllocs := by
        have hsubset : freedSlots state.ops ⊆ List.range state.nAllocs :=
          fun other hother => List.mem_range.mpr (hok.freed_lt other hother)
        simpa using
          (List.subperm_of_subset hok.nodup hsubset).length_le
      exact
        { nAllocs := by rw [hevents, hok.nAllocs]
          filled := by rw [filledSlots_free, hok.filled]
          length_freed := by rw [List.length_set, hok.length_freed]
          freed_iff := fun other => by
            rw [freedSlots_free, List.mem_append, List.mem_singleton,
              ← hok.freed_iff, List.getElem?_set]
            by_cases hother : slot = other
            · simp [hother, hother ▸ hslot]
            · simp [hother, Ne.symm hother]
          nodup := by
            rw [freedSlots_free]
            refine hok.nodup.append (List.nodup_singleton slot) ?_
            simpa using hmem.2
          matched := by
            have hlt : (freedSlots state.ops).length + 1 < 2 ^ 64 := by omega
            rw [freedSlots_free, List.length_append, List.length_singleton]
            change (state.matchedFrees + 1) % 2 ^ 64 = _
            rw [hok.matched, Nat.mod_eq_of_lt hlt]
          live := fun ptr other hother => hok.live_free hsize hlive hother
          earlier := by
            refine hok.earlier.append fun other hop => ?_
            obtain rfl := Op.free.inj hop
            refine ⟨?_, hmem.2⟩
            rw [hok.filled, List.mem_range, ← hok.length_freed]
            exact hslot }

theorem resolveOk_after (events : List AllocEvent)
    (hroom : (allocs events).length < 2 ^ 32) :
    ResolveOk events (ResolveState.after events) := by
  induction events using List.reverseRecOn with
  | nil =>
      exact
        { nAllocs := rfl
          filled := rfl
          length_freed := rfl
          freed_iff := fun slot => by
            simp [ResolveState.after, ResolveState.initial, freedSlots]
          nodup := .nil
          matched := rfl
          live := fun ptr slot hlive =>
            absurd hlive.symm (Option.some_ne_none _)
          earlier := .nil }
  | append_singleton events event ih =>
      rw [ResolveState.after_append, ResolveState.step]
      by_cases hsize : event.size ≠ 0
      · rw [if_pos hsize]
        rw [allocs_append_of_alloc hsize, List.length_append,
          List.length_singleton] at hroom
        have hok := ih (by omega)
        exact hok.resolveAlloc hsize (by rw [hok.nAllocs]; exact hroom)
      · rw [if_neg hsize]
        rw [allocs_append_of_free (not_not.mp hsize)] at hroom
        have hok := ih hroom
        exact hok.resolveFree (not_not.mp hsize)
          (by rw [hok.nAllocs]; exact hroom)

end Loop

end TbjitAlloc.Replay
