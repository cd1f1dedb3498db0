import TbjitAlloc.Replay.Pass

/-!
# A resolved trace is balanced

With fewer allocations than the slots can number, `resolve` yields operations
on slots in order, each free at the newest allocation of its pointer that no
free has matched, and a pass with its reclaiming gives every block back exactly
once.  The number of allocations has 32 bits.
-/

namespace TbjitAlloc.Replay

open PassState

/-- A pass starts with whatever the slots and the other blocks are. -/
def passStart (live : ℕ → ℕ) (blocks : List ℕ) : PassState where
  live := live
  blocks := blocks
  handed := []
  returned := []

/-- What the replay relies on. -/
structure Balanced (events : List AllocEvent) : Prop where
  fresh : filledSlots (resolve events).ops =
    List.range (allocs events).length
  earlier : FreesEarlier (resolve events).ops
  nodup : (freedSlots (resolve events).ops).Nodup
  newest : ∀ before slot after,
    (resolve events).ops = before ++ .free slot :: after →
      ∃ past event future, events = past ++ event :: future ∧
        event.size = 0 ∧ (resolve past).ops = before ∧
        IsGreatest (Unfreed past before event.ptr) slot
  leaked_nodup : (resolve events).leaked.Nodup
  leaked_iff : ∀ slot, slot ∈ (resolve events).leaked ↔
    slot ∈ filledSlots (resolve events).ops ∧
      slot ∉ freedSlots (resolve events).ops
  count : (resolve events).nAllocs =
    (resolve events).matchedFrees + (resolve events).leaked.length
  pass : ∀ answers live blocks,
    replay answers (passStart live blocks) (resolve events) ≠
        .error .badFree ∧
      ∀ done, replay answers (passStart live blocks) (resolve events) =
          .ok done →
        done.blocks.Perm blocks ∧ done.returned.Perm done.handed

section Loop

variable {events : List AllocEvent} {state : ResolveState}

theorem resolve_ops (events : List AllocEvent) :
    (resolve events).ops = (ResolveState.after events).ops := rfl

/-- One event adds at most one operation, and a free only for a free event that
finds its pointer in the map. -/
theorem ops_step (state : ResolveState) (event : AllocEvent) :
    (state.step event).ops = state.ops ∨
      (∃ id size slot, (state.step event).ops =
        state.ops ++ [.alloc id size slot]) ∨
      ∃ slot, event.size = 0 ∧ state.liveIndex event.ptr = some slot ∧
        (state.step event).ops = state.ops ++ [.free slot] := by
  rw [ResolveState.step]
  by_cases hsize : event.size ≠ 0
  · rw [if_pos hsize]
    exact .inr (.inl ⟨_, _, _, rfl⟩)
  · rw [if_neg hsize, ResolveState.resolveFree]
    dsimp only
    cases hlive : state.liveIndex event.ptr with
    | none => exact .inl rfl
    | some slot => exact .inr (.inr ⟨slot, not_not.mp hsize, rfl, rfl⟩)

theorem length_allocs_le_append (past : List AllocEvent) (event : AllocEvent) :
    (allocs past).length ≤ (allocs (past ++ [event])).length := by
  rw [allocs, allocs, List.filter_append, List.length_append]
  exact Nat.le_add_right _ _

/-- Every free in the result stands for an event, at which its slot was the
newest of the event's pointer. -/
theorem newest_of_free (hroom : (allocs events).length < 2 ^ 32) :
    ∀ before slot after,
      (resolve events).ops = before ++ .free slot :: after →
        ∃ past event future, events = past ++ event :: future ∧
          event.size = 0 ∧ (resolve past).ops = before ∧
          IsGreatest (Unfreed past before event.ptr) slot := by
  induction events using List.reverseRecOn with
  | nil =>
      intro before slot after hops
      simp [resolve, ResolveState.after, ResolveState.initial] at hops
  | append_singleton events event ih =>
      have hless : (allocs events).length < 2 ^ 32 :=
        (length_allocs_le_append events event).trans_lt hroom
      have hok := resolveOk_after events hless
      have hold : ∀ before slot after,
          (resolve events).ops = before ++ .free slot :: after →
            ∃ past other future, events ++ [event] = past ++ other :: future ∧
              other.size = 0 ∧ (resolve past).ops = before ∧
              IsGreatest (Unfreed past before other.ptr) slot := by
        intro before slot after hops
        obtain ⟨past, other, future, hevents, hfacts⟩ :=
          ih hless before slot after hops
        refine ⟨past, other, future ++ [event], ?_, hfacts⟩
        rw [hevents, List.append_assoc, List.cons_append]
      intro before slot after hops
      rw [resolve_ops, ResolveState.after_append] at hops
      rcases ops_step (ResolveState.after events) event with
        hsame | ⟨id, size, new, hnew⟩ | ⟨freed, hsize, hlive, hnew⟩
      · exact hold before slot after (hsame.symm.trans hops)
      · rw [hnew] at hops
        rcases split_append_singleton hops with ⟨-, hlast⟩ | ⟨rest, hinit⟩
        · cases hlast
        · exact hold before slot rest hinit
      · rw [hnew] at hops
        rcases split_append_singleton hops with
          ⟨hbefore, hlast⟩ | ⟨rest, hinit⟩
        · obtain rfl := Op.free.inj hlast
          refine ⟨events, event, [], rfl, hsize, hbefore, ?_⟩
          rw [← hbefore]
          exact (hok.live event.ptr freed hlive).2
        · exact hold before slot rest hinit

theorem nodup_leaked (state : ResolveState) : state.leaked.Nodup :=
  List.nodup_range.filter _

theorem ResolveOk.mem_leaked (hok : ResolveOk events state) (slot : ℕ) :
    slot ∈ state.leaked ↔
      slot ∈ filledSlots state.ops ∧ slot ∉ freedSlots state.ops := by
  rw [ResolveState.leaked, List.mem_filter, hok.filled, ← hok.freed_iff]
  simp

/-- Slots are freed by a match or leaked. -/
theorem ResolveOk.nAllocs_eq (hok : ResolveOk events state) :
    state.nAllocs = state.matchedFrees + state.leaked.length := by
  have hnodup : (freedSlots state.ops ++ state.leaked).Nodup := by
    refine hok.nodup.append (nodup_leaked state) fun slot hfreed hleft => ?_
    exact ((hok.mem_leaked slot).mp hleft).2 hfreed
  have hperm : (freedSlots state.ops ++ state.leaked).Perm
      (List.range state.nAllocs) := by
    rw [List.perm_ext_iff_of_nodup hnodup List.nodup_range]
    intro slot
    have hfilled : slot ∈ freedSlots state.ops →
        slot ∈ filledSlots state.ops := fun hfreed =>
      hok.earlier.mem_filled hfreed
    rw [List.mem_append, hok.mem_leaked, ← hok.filled]
    tauto
  rw [hok.matched, ← List.length_append, hperm.length_eq, List.length_range]

end Loop

/-- A pass and its reclaiming free nothing twice and give every block back. -/
theorem replay_gives_back {events : List AllocEvent}
    (hok : ResolveOk events (ResolveState.after events))
    (answers live : ℕ → ℕ) (blocks : List ℕ) :
    replay answers (passStart live blocks) (resolve events) ≠
        .error .badFree ∧
      ∀ done, replay answers (passStart live blocks) (resolve events) =
          .ok done →
        done.blocks.Perm blocks ∧ done.returned.Perm done.handed := by
  have hfresh : (filledSlots (resolve events).ops).Nodup := by
    rw [resolve_ops, hok.filled]
    exact List.nodup_range
  have hstart : Holds blocks (passStart live blocks) [] :=
    ⟨.nil, .refl _, .refl _⟩
  obtain ⟨hsafe, hheld⟩ := runPass_holds hfresh hok.earlier _ hstart answers
  rw [replay]
  cases hnext : (passStart live blocks).runPass answers
      (resolve events).ops with
  | error fault =>
      rw [hnext] at hsafe
      exact ⟨hsafe, fun done hdone =>
        absurd hdone.symm (ok_ne_error done fault)⟩
  | ok next =>
      obtain ⟨out, hholds, hout⟩ := hheld next hnext
      have hleaked : out.Perm (resolve events).leaked :=
        (List.perm_ext_iff_of_nodup hholds.nodup (nodup_leaked _)).mpr
          fun slot => (hout slot).trans (hok.mem_leaked slot).symm
      obtain ⟨done, hdone, hend⟩ := (hholds.perm hleaked).reclaimLeaked
      have hresult : ((Except.ok next).bind fun next =>
          next.reclaimLeaked (resolve events).leaked) =
            (.ok done : Except Fault PassState) := hdone
      rw [hresult]
      refine ⟨ok_ne_error _ _, fun target htarget => ?_⟩
      obtain rfl := Except.ok.inj htarget
      exact ⟨hend.blocks, hend.handed.symm⟩

/-- Fewer than `2^32` allocations are resolved into a balanced program. -/
theorem resolve_balanced (events : List AllocEvent)
    (hroom : (allocs events).length < 2 ^ 32) : Balanced events := by
  have hok := resolveOk_after events hroom
  exact
    { fresh := by rw [resolve_ops, hok.filled, hok.nAllocs]
      earlier := hok.earlier
      nodup := hok.nodup
      newest := newest_of_free hroom
      leaked_nodup := nodup_leaked _
      leaked_iff := hok.mem_leaked
      count := hok.nAllocs_eq
      pass := replay_gives_back hok }

/-- A pointer that comes back without a recorded free, a free that matches
nothing, and a failed allocation. -/
theorem resolve_balanced_reused :
    Balanced [⟨7, 16, 1, 64⟩, ⟨7, 16, 1, 64⟩, ⟨9, 0, 1, 64⟩, ⟨9, 0, 1, 64⟩,
      ⟨7, 16, 1, 0⟩, ⟨9, 0, 1, 0⟩] :=
  resolve_balanced _ (by decide)

/-! ## One slot too many -/

section Wrapped

variable {event : AllocEvent}

theorem after_replicate (hsize : event.size ≠ 0) (count : ℕ) :
    (ResolveState.after (List.replicate count event)).nAllocs =
        count % 2 ^ 32 ∧
      freedSlots (ResolveState.after (List.replicate count event)).ops = [] ∧
      (filledSlots
        (ResolveState.after (List.replicate count event)).ops).length =
          count := by
  induction count with
  | zero => exact ⟨rfl, rfl, rfl⟩
  | succ count ih =>
      obtain ⟨hcount, hfreed, hfilled⟩ := ih
      rw [List.replicate_succ', ResolveState.after_append, ResolveState.step,
        if_pos hsize, ResolveState.resolveAlloc]
      refine ⟨?_, ?_, ?_⟩
      · rw [hcount, Nat.mod_add_mod]
      · rw [freedSlots_alloc, hfreed]
      · rw [filledSlots_alloc, List.length_append, hfilled,
          List.length_singleton]

/-- A counter that has come back to zero reclaims nothing. -/
theorem not_balanced_of_wrap (hsize : event.size ≠ 0) {count : ℕ}
    (hpos : 0 < count) (hwrap : count % 2 ^ 32 = 0) :
    ¬Balanced (List.replicate count event) := by
  intro hbalanced
  obtain ⟨hcount, hfreed, hfilled⟩ := after_replicate hsize count
  have hnone : (resolve (List.replicate count event)).leaked = [] := by
    rw [resolve, ResolveState.leaked, hcount, hwrap]
    rfl
  obtain ⟨slot, hslot⟩ := List.length_pos_iff_exists_mem.mp (hfilled ▸ hpos)
  have hleaked := (hbalanced.leaked_iff slot).mpr
    ⟨hslot, by rw [resolve_ops, hfreed]; exact List.not_mem_nil⟩
  rw [hnone] at hleaked
  exact List.not_mem_nil hleaked

/-- `2^32` allocations. -/
theorem not_balanced_wrapped :
    ¬Balanced (List.replicate (2 ^ 32) ⟨7, 16, 1, 64⟩) :=
  not_balanced_of_wrap (by decide) (Nat.two_pow_pos 32) (Nat.mod_self _)

end Wrapped

end TbjitAlloc.Replay
