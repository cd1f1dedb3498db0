import TbjitAlloc.Replay.Resolve

/-!
# A pass over the operations

`run_pass` and `reclaim_leaked` with the allocator behind them.  The allocator
may answer with null or with any block that is not in use; it is asked to free
blocks that are in use only.  What it handed out and what it got back in the
pass is logged.
-/

namespace TbjitAlloc.Replay

/-- `live` is the array of slots, `blocks` the blocks in use.  The array has
`n_allocs` entries, and below `2^32` allocations nothing indexes past them. -/
structure PassState where
  live : ℕ → ℕ
  blocks : List ℕ
  handed : List ℕ
  returned : List ℕ

/-- What goes wrong: the allocator hands out a block that is in use, or it is
given one that is not. -/
inductive Fault
  | reusedBlock
  | badFree
  deriving DecidableEq

namespace PassState

/-- `live[slot] = ptr`. -/
def setLive (state : PassState) (slot ptr : ℕ) : PassState :=
  { state with live := Function.update state.live slot ptr }

/-- An allocation that is answered with `ptr`. -/
def take (state : PassState) (slot ptr : ℕ) : Except Fault PassState :=
  if ptr = 0 then .ok (state.setLive slot 0)
  else if ptr ∈ state.blocks then .error .reusedBlock
  else
    .ok { state.setLive slot ptr with
      blocks := ptr :: state.blocks
      handed := ptr :: state.handed }

/-- The allocator gets a block back. -/
def giveBack (state : PassState) (ptr : ℕ) : PassState :=
  { state with
    blocks := state.blocks.erase ptr
    returned := ptr :: state.returned }

/-- `free` and `managed_aware_free`: null is ignored. -/
def release (state : PassState) (ptr : ℕ) : Except Fault PassState :=
  if ptr = 0 then .ok state
  else if ptr ∈ state.blocks then .ok (state.giveBack ptr)
  else .error .badFree

/-- One operation; `answer` is what the allocator returns if it is asked. -/
def runOp (state : PassState) (answer : ℕ) : Op → Except Fault PassState
  | .alloc _ _ slot => state.take slot answer
  | .free slot => state.release (state.live slot)

/-- `run_pass` with any backend, whose answers are given in turn. -/
def runPass (answers : ℕ → ℕ) (state : PassState) :
    List Op → Except Fault PassState
  | [] => .ok state
  | op :: ops =>
      (state.runOp (answers 0) op).bind fun next =>
        runPass (fun n => answers (n + 1)) next ops

def reclaimLeaked (state : PassState) : List ℕ → Except Fault PassState
  | [] => .ok state
  | slot :: leaked =>
      if state.live slot = 0 then reclaimLeaked state leaked
      else
        (state.release (state.live slot)).bind fun next =>
          reclaimLeaked (next.setLive slot 0) leaked

/-- A pass and the reclaiming of what it leaked. -/
def replay (answers : ℕ → ℕ) (state : PassState) (resolved : Resolved) :
    Except Fault PassState :=
  (state.runPass answers resolved.ops).bind fun next =>
    next.reclaimLeaked resolved.leaked

theorem runPass_append (answers : ℕ → ℕ) (state : PassState) (ops : List Op)
    (op : Op) :
    state.runPass answers (ops ++ [op]) =
      (state.runPass answers ops).bind fun next =>
        next.runOp (answers ops.length) op := by
  induction ops generalizing answers state with
  | nil =>
      change (state.runOp (answers 0) op).bind _ = state.runOp (answers 0) op
      cases state.runOp (answers 0) op with
      | error fault => rfl
      | ok next => rfl
  | cons first ops ih =>
      rw [List.cons_append, runPass, runPass]
      cases state.runOp (answers 0) first with
      | error fault => rfl
      | ok next => exact ih _ next

/-! ## Slots and blocks -/

/-- The blocks that slots hold. -/
def owned (live : ℕ → ℕ) (slots : List ℕ) : List ℕ :=
  (slots.map live).filter (· ≠ 0)

/-- The blocks in use are those of the slots that are out and those of others,
and what was handed out is there or was returned. -/
structure Holds (others : List ℕ) (state : PassState) (out : List ℕ) :
    Prop where
  nodup : out.Nodup
  blocks : state.blocks.Perm (owned state.live out ++ others)
  handed : state.handed.Perm (owned state.live out ++ state.returned)

section Slots

variable {live : ℕ → ℕ} {others out left right : List ℕ} {slot ptr : ℕ}
variable {state : PassState}

theorem owned_perm (hperm : left.Perm right) :
    (owned live left).Perm (owned live right) :=
  (hperm.map live).filter _

theorem owned_update (hslot : slot ∉ out) :
    owned (Function.update live slot ptr) out = owned live out := by
  rw [owned, owned]
  congr 1
  refine List.map_congr_left fun other hother => ?_
  have hne : other ≠ slot := fun h => hslot (h ▸ hother)
  exact Function.update_of_ne hne _ _

theorem owned_cons_of_null (hnull : live slot = 0) :
    owned live (slot :: out) = owned live out := by
  simp [owned, hnull]

theorem owned_cons_of_ne (hptr : live slot ≠ 0) :
    owned live (slot :: out) = live slot :: owned live out := by
  simp [owned, hptr]

theorem Holds.perm (hholds : Holds others state left)
    (hperm : left.Perm right) :
    Holds others state right where
  nodup := hperm.nodup_iff.mp hholds.nodup
  blocks := hholds.blocks.trans ((owned_perm hperm).append_right others)
  handed := hholds.handed.trans ((owned_perm hperm).append_right _)

theorem Holds.take (hholds : Holds others state out) (hslot : slot ∉ out)
    {next : PassState} (hnext : state.take slot ptr = .ok next) :
    Holds others next (slot :: out) := by
  have hnodup : (slot :: out).Nodup := List.nodup_cons.mpr ⟨hslot, hholds.nodup⟩
  rw [PassState.take] at hnext
  split at hnext
  · obtain rfl := Except.ok.inj hnext
    have hself : (state.setLive slot 0).live slot = 0 :=
      Function.update_self _ _ _
    have hsame : owned (state.setLive slot 0).live (slot :: out) =
        owned state.live out :=
      (owned_cons_of_null hself).trans (owned_update hslot)
    refine ⟨hnodup, ?_, ?_⟩
    · rw [hsame]
      exact hholds.blocks
    · rw [hsame]
      exact hholds.handed
  · next hptr =>
      split at hnext
      · cases hnext
      · obtain rfl := Except.ok.inj hnext
        have hself : (state.setLive slot ptr).live slot = ptr :=
          Function.update_self _ _ _
        have hmore : owned (state.setLive slot ptr).live (slot :: out) =
            ptr :: owned state.live out := by
          rw [owned_cons_of_ne (by rwa [hself]), hself]
          exact congrArg (ptr :: ·) (owned_update hslot)
        refine ⟨hnodup, ?_, ?_⟩
        · rw [hmore]
          exact hholds.blocks.cons ptr
        · rw [hmore]
          exact hholds.handed.cons ptr

/-- The block of a slot that is out can be freed. -/
theorem Holds.release (hholds : Holds others state (slot :: out)) :
    ∃ next, state.release (state.live slot) = .ok next ∧
      next.live = state.live ∧ Holds others next out := by
  have hnodup := (List.nodup_cons.mp hholds.nodup).2
  by_cases hnull : state.live slot = 0
  · refine ⟨state, if_pos hnull, rfl, hnodup, ?_, ?_⟩
    · rw [← owned_cons_of_null hnull]
      exact hholds.blocks
    · rw [← owned_cons_of_null hnull]
      exact hholds.handed
  · have hblocks := hholds.blocks
    have hhanded := hholds.handed
    rw [owned_cons_of_ne hnull] at hblocks hhanded
    have hmem : state.live slot ∈ state.blocks :=
      hblocks.mem_iff.mpr List.mem_cons_self
    refine ⟨state.giveBack (state.live slot), ?_, rfl, hnodup, ?_, ?_⟩
    · rw [PassState.release, if_neg hnull, if_pos hmem]
    · have herased := hblocks.erase (state.live slot)
      rwa [List.cons_append, List.erase_cons_head] at herased
    · exact hhanded.trans List.perm_middle.symm

end Slots

/-! ## The whole pass -/

section Run

variable {ops : List Op} {others out : List ℕ} {state : PassState}
variable {answers : ℕ → ℕ}

theorem ok_ne_error (state : PassState) (fault : Fault) :
    Except.ok state ≠ Except.error fault := fun hsame => by cases hsame

/-- The slots that are filled and not freed. -/
def IsOut (ops : List Op) (out : List ℕ) : Prop :=
  ∀ slot, slot ∈ out ↔ slot ∈ filledSlots ops ∧ slot ∉ freedSlots ops

/-- An operation on slots in order does not fail on a free. -/
theorem Holds.runOp {op : Op} (hholds : Holds others state out)
    (hout : IsOut ops out) (hfresh : (filledSlots (ops ++ [op])).Nodup)
    (hearlier : FreesEarlier (ops ++ [op])) (answer : ℕ) :
    state.runOp answer op ≠ .error .badFree ∧
      ∀ next, state.runOp answer op = .ok next →
        ∃ out, Holds others next out ∧ IsOut (ops ++ [op]) out := by
  cases op with
  | alloc id size slot =>
      rw [filledSlots_alloc] at hfresh
      have hnew : slot ∉ filledSlots ops := fun hslot =>
        List.disjoint_of_nodup_append hfresh hslot
          (List.mem_singleton_self slot)
      have hslot : slot ∉ out := fun h => hnew ((hout slot).mp h).1
      refine ⟨?_, fun next hnext => ⟨slot :: out, hholds.take hslot hnext, ?_⟩⟩
      · rw [PassState.runOp, PassState.take]
        split
        · exact ok_ne_error _ _
        · split
          · simp
          · exact ok_ne_error _ _
      · intro other
        rw [List.mem_cons, hout other, filledSlots_alloc, freedSlots_alloc,
          List.mem_append, List.mem_singleton]
        constructor
        · rintro (rfl | ⟨hfilled, hfreed⟩)
          · exact ⟨.inr rfl, fun hfreed =>
              hnew (hearlier.init.mem_filled hfreed)⟩
          · exact ⟨.inl hfilled, hfreed⟩
        · rintro ⟨hfilled | rfl, hfreed⟩
          · exact .inr ⟨hfilled, hfreed⟩
          · exact .inl rfl
  | free slot =>
      have hslot : slot ∈ out := (hout slot).mpr (hearlier ops slot [] rfl)
      have hperm := List.perm_cons_erase hslot
      obtain ⟨next, hnext, -, hheld⟩ := (hholds.perm hperm).release
      rw [PassState.runOp, hnext]
      refine ⟨ok_ne_error _ _, fun target htarget => ?_⟩
      obtain rfl := Except.ok.inj htarget
      refine ⟨out.erase slot, hheld, fun other => ?_⟩
      rw [hholds.nodup.mem_erase_iff, hout other, filledSlots_free,
        freedSlots_free, List.mem_append, List.mem_singleton]
      tauto

/-- A pass over slots in order fails on no free, whatever the allocator
answers. -/
theorem runPass_holds (hfresh : (filledSlots ops).Nodup)
    (hearlier : FreesEarlier ops) (start : PassState)
    (hstart : Holds others start []) (answers : ℕ → ℕ) :
    start.runPass answers ops ≠ .error .badFree ∧
      ∀ next, start.runPass answers ops = .ok next →
        ∃ out, Holds others next out ∧ IsOut ops out := by
  induction ops using List.reverseRecOn with
  | nil =>
      refine ⟨ok_ne_error _ _, fun next hnext => ?_⟩
      obtain rfl := Except.ok.inj hnext
      exact ⟨[], hstart, fun slot => by simp [filledSlots]⟩
  | append_singleton ops op ih =>
      have hprefix : (filledSlots ops).Nodup := by
        rw [filledSlots, List.filterMap_append] at hfresh
        exact hfresh.of_append_left
      obtain ⟨hsafe, hheld⟩ := ih hprefix hearlier.init
      rw [runPass_append]
      cases hnext : start.runPass answers ops with
      | error fault =>
          rw [hnext] at hsafe
          exact ⟨hsafe, fun next hnext =>
            absurd hnext.symm (ok_ne_error next fault)⟩
      | ok next =>
          obtain ⟨out, hholds, hout⟩ := hheld next hnext
          exact hholds.runOp hout hfresh hearlier _

/-- Reclaiming every slot that is out succeeds and leaves the others. -/
theorem Holds.reclaimLeaked (hholds : Holds others state out) :
    ∃ done, state.reclaimLeaked out = .ok done ∧ Holds others done [] := by
  induction out generalizing state with
  | nil => exact ⟨state, rfl, hholds⟩
  | cons slot out ih =>
      have hslot : slot ∉ out := (List.nodup_cons.mp hholds.nodup).1
      obtain ⟨next, hnext, hlive, hheld⟩ := hholds.release
      rw [PassState.reclaimLeaked]
      by_cases hnull : state.live slot = 0
      · rw [PassState.release, if_pos hnull] at hnext
        obtain rfl := Except.ok.inj hnext
        rw [if_pos hnull]
        exact ih hheld
      · rw [if_neg hnull, hnext]
        have hcleared : Holds others (next.setLive slot 0) out := by
          have hsame : owned (next.setLive slot 0).live out =
              owned next.live out := owned_update hslot
          refine ⟨hheld.nodup, ?_, ?_⟩
          · rw [hsame]
            exact hheld.blocks
          · rw [hsame]
            exact hheld.handed
        exact ih hcleared

end Run

end PassState

end TbjitAlloc.Replay
