import TbjitAlloc.Replay.Backends
import TbjitAlloc.Replay.Balance

/-!
# The harness as a client

The requests that a measurement makes, read as the calls of a client: against
allocators that never hand out a block in use, it gives back only blocks it
holds, and after every pass and the reclaiming it holds none.  Each operation of
any backend is an operation of the pass over slots, whose balance is known.
-/

namespace TbjitAlloc.Replay

open TbjitAlloc.Analysis
open TbjitAlloc.Codegen
open TbjitAlloc.Deopt
open TbjitAlloc.Dispatch
open TbjitAlloc.Trace

/-! ## What the client holds -/

/-- The blocks in use after one more request, which is answered with `ptr`. -/
def useAfter (blocks : List ℕ) (ptr : ℕ) : Request → List ℕ
  | .routine _ _ => if ptr = 0 then blocks else ptr :: blocks
  | .malloc _ => if ptr = 0 then blocks else ptr :: blocks
  | .managedAwareFree block => blocks.erase block
  | .free block => blocks.erase block
  | .reaperSweep => blocks

/-- The requests so far and the blocks in use. -/
def useStep (reply : List Request → Reply) (past : List Request × List ℕ)
    (request : Request) : List Request × List ℕ :=
  (past.1 ++ [request],
    useAfter past.2 (reply (past.1 ++ [request])).ptr request)

/-- The blocks in use after the requests. -/
def inUse (reply : List Request → Reply) (requests : List Request) : List ℕ :=
  (requests.foldl (useStep reply) ([], [])).2

/-- Only blocks in use are given back. -/
inductive Proper (reply : List Request → Reply) : List Request → Prop
  | nil : Proper reply []
  | allocate {requests : List Request} {request : Request}
      (hproper : Proper reply requests)
      (hallocates : Bench.Allocates request = true) :
      Proper reply (requests ++ [request])
  | managedAwareFree {requests : List Request} {ptr : ℕ}
      (hproper : Proper reply requests) (hheld : ptr ∈ inUse reply requests) :
      Proper reply (requests ++ [.managedAwareFree ptr])
  | free {requests : List Request} {ptr : ℕ}
      (hproper : Proper reply requests) (hheld : ptr ∈ inUse reply requests) :
      Proper reply (requests ++ [.free ptr])
  | reaperSweep {requests : List Request} (hproper : Proper reply requests) :
      Proper reply (requests ++ [.reaperSweep])

/-- A proper client is never handed a block in use. -/
def Honest (reply : List Request → Reply) : Prop :=
  ∀ requests request, Proper reply requests →
    Bench.Allocates request = true →
      (reply (requests ++ [request])).ptr ∉ inUse reply requests

section Uses

variable (reply : List Request → Reply) (requests : List Request)

theorem useStep_past :
    (requests.foldl (useStep reply) ([], [])).1 = requests := by
  induction requests using List.reverseRecOn with
  | nil => rfl
  | append_singleton requests request ih =>
      rw [List.foldl_append, List.foldl_cons, List.foldl_nil, useStep, ih]

theorem inUse_append (request : Request) :
    inUse reply (requests ++ [request]) =
      useAfter (inUse reply requests) (reply (requests ++ [request])).ptr
        request := by
  rw [inUse, List.foldl_append, List.foldl_cons, List.foldl_nil, useStep,
    useStep_past]
  rfl

theorem useAfter_of_allocates {request : Request}
    (hallocates : Bench.Allocates request = true) (blocks : List ℕ) (ptr : ℕ) :
    useAfter blocks ptr request =
      if ptr = 0 then blocks else ptr :: blocks := by
  cases request with
  | routine fn size => rfl
  | malloc size => rfl
  | managedAwareFree ptr => cases hallocates
  | free ptr => cases hallocates
  | reaperSweep => cases hallocates

theorem mem_useAfter {request : Request} {blocks : List ℕ} {ptr block : ℕ}
    (hmem : block ∈ useAfter blocks ptr request) :
    block = ptr ∨ block ∈ blocks := by
  by_cases hallocates : Bench.Allocates request = true
  · rw [useAfter_of_allocates hallocates] at hmem
    split at hmem
    · exact .inr hmem
    · exact List.mem_cons.mp hmem
  · cases request with
    | routine fn size => exact absurd rfl hallocates
    | malloc size => exact absurd rfl hallocates
    | managedAwareFree ptr => exact .inr (List.mem_of_mem_erase hmem)
    | free ptr => exact .inr (List.mem_of_mem_erase hmem)
    | reaperSweep => exact .inr hmem

end Uses

/-! ## Operations of any backend -/

section Operations

variable {reply : List Request → Reply} {bench : Bench} {request : Request}

theorem foldl_handle_log (deopts : List DequeuedDeopt) (bench : Bench) :
    (deopts.foldl Bench.handle bench).live = bench.live ∧
      (deopts.foldl Bench.handle bench).requests = bench.requests := by
  induction deopts generalizing bench with
  | nil => exact ⟨rfl, rfl⟩
  | cons deopt deopts ih =>
      have hhandle : (bench.handle deopt).live = bench.live ∧
          (bench.handle deopt).requests = bench.requests := by
        rw [Bench.handle]
        split <;> exact ⟨rfl, rfl⟩
      obtain ⟨hlive, hrequests⟩ := ih (bench.handle deopt)
      exact ⟨hlive.trans hhandle.1, hrequests.trans hhandle.2⟩

theorem ask_live : (bench.ask reply request).2.live = bench.live :=
  (foldl_handle_log _ _).1

theorem ask_requests :
    (bench.ask reply request).2.requests = bench.requests ++ [request] :=
  (foldl_handle_log _ _).2

/-- Whatever the backend, an allocation asks once for a block. -/
theorem runOp_alloc (reply : List Request → Reply) (backend : Backend)
    (state : Harness) (id size slot fn : ℕ) :
    ∃ request, Bench.Allocates request = true ∧
      (state.runOp reply backend (.alloc id size slot, fn)).bench =
        (state.bench.ask reply request).2.setLive slot
          (state.bench.ask reply request).1 := by
  have hask : ∀ request, (state.ask reply request).2.bench =
      (state.bench.ask reply request).2 := fun _ => rfl
  cases backend with
  | glibc => exact ⟨.malloc size, rfl, rfl⟩
  | bound => exact ⟨serve fn size, allocates_serve fn size, rfl⟩
  | sim =>
      have hfill : (state.enter.fill id).bench = state.bench := by
        rw [Harness.fill]
        split <;> rfl
      by_cases hguard : state.guard = true
      · refine ⟨.malloc size, rfl, ?_⟩
        simp only [Harness.runOp, Harness.alloc, Harness.simAlloc, hguard,
          if_true]
        rfl
      · refine ⟨serve (state.enter.fill id).cache.fn size,
          allocates_serve _ _, ?_⟩
        simp only [Harness.runOp, Harness.alloc, Harness.simAlloc, hguard,
          Harness.ask, hfill]
        rfl

/-- The slots and blocks of the pass are those of the bench. -/
structure Mirrors (reply : List Request → Reply) (bench : Bench)
    (state : PassState) : Prop where
  live : state.live = bench.live
  blocks : state.blocks = inUse reply bench.requests
  proper : Proper reply bench.requests

variable {state : PassState}

theorem Mirrors.ask (hmirrors : Mirrors reply bench state)
    (hproper : Proper reply (bench.requests ++ [request])) :
    Mirrors reply (bench.ask reply request).2
      { state with
        blocks := useAfter state.blocks (bench.ask reply request).1
          request } where
  live := hmirrors.live.trans ask_live.symm
  blocks := by
    rw [ask_requests, inUse_append, hmirrors.blocks]
    rfl
  proper := by rwa [ask_requests]

theorem Mirrors.setLive (hmirrors : Mirrors reply bench state) (slot ptr : ℕ) :
    Mirrors reply (bench.setLive slot ptr) (state.setLive slot ptr) where
  live := by
    rw [Bench.setLive, PassState.setLive, hmirrors.live]
  blocks := hmirrors.blocks
  proper := hmirrors.proper

theorem Mirrors.take (hmirrors : Mirrors reply bench state)
    (hhonest : Honest reply) (hallocates : Bench.Allocates request = true)
    (slot : ℕ) :
    ∃ next, state.take slot (bench.ask reply request).1 = .ok next ∧
      Mirrors reply ((bench.ask reply request).2.setLive slot
        (bench.ask reply request).1) next := by
  have hfresh : (bench.ask reply request).1 ∉ state.blocks := by
    rw [hmirrors.blocks]
    exact hhonest bench.requests request hmirrors.proper hallocates
  have hafter := (hmirrors.ask (hmirrors.proper.allocate hallocates)).setLive
    slot (bench.ask reply request).1
  rw [useAfter_of_allocates hallocates] at hafter
  rw [PassState.take]
  split at hafter
  · next hnull =>
      rw [if_pos hnull]
      rw [hnull] at hafter ⊢
      exact ⟨_, rfl, hafter⟩
  · next hblock =>
      rw [if_neg hblock, if_neg hfresh]
      exact ⟨_, rfl, hafter.live, hafter.blocks, hafter.proper⟩

/-- What is released is a block in use, or the pass fails. -/
theorem Mirrors.release (hmirrors : Mirrors reply bench state)
    (backend : Backend) (ptr : ℕ) :
    state.release ptr = .error .badFree ∨
      ∃ next, state.release ptr = .ok next ∧
        Mirrors reply (bench.release reply backend ptr) next := by
  rw [PassState.release, Bench.release]
  by_cases hnull : ptr = 0
  · rw [if_pos hnull, if_pos hnull]
    exact .inr ⟨state, rfl, hmirrors⟩
  · rw [if_neg hnull, if_neg hnull]
    by_cases hheld : ptr ∈ state.blocks
    · rw [if_pos hheld]
      rw [hmirrors.blocks] at hheld
      refine .inr ⟨_, rfl, ?_⟩
      split
      · have hafter := hmirrors.ask (hmirrors.proper.free hheld)
        exact ⟨hafter.live, hafter.blocks, hafter.proper⟩
      · have hafter := hmirrors.ask (hmirrors.proper.managedAwareFree hheld)
        exact ⟨hafter.live, hafter.blocks, hafter.proper⟩
    · exact .inl (if_neg hheld)

end Operations

/-! ## Passes -/

section Passes

variable {reply : List Request → Reply} {harness : Harness}
variable {state : PassState}

theorem Mirrors.runOp (hmirrors : Mirrors reply harness.bench state)
    (hhonest : Honest reply) (backend : Backend) (op : Op) (fn : ℕ) :
    ∃ answer, state.runOp answer op = .error .badFree ∨
      ∃ next, state.runOp answer op = .ok next ∧
        Mirrors reply (harness.runOp reply backend (op, fn)).bench next := by
  cases op with
  | alloc id size slot =>
      obtain ⟨request, hallocates, hbench⟩ :=
        runOp_alloc reply backend harness id size slot fn
      obtain ⟨next, hnext, hafter⟩ := hmirrors.take hhonest hallocates slot
      exact ⟨_, .inr ⟨next, hnext, by rwa [hbench]⟩⟩
  | free slot =>
      refine ⟨0, ?_⟩
      rw [PassState.runOp, hmirrors.live]
      exact hmirrors.release backend (harness.bench.live slot)

/-- For some answers of the allocator a pass runs as the harness does. -/
theorem Mirrors.runPass (hmirrors : Mirrors reply harness.bench state)
    (hhonest : Honest reply) (backend : Backend) (ops : List (Op × ℕ)) :
    ∃ answers, state.runPass answers (ops.map Prod.fst) = .error .badFree ∨
      ∃ next, state.runPass answers (ops.map Prod.fst) = .ok next ∧
        Mirrors reply (harness.runPass reply backend ops).bench next := by
  induction ops generalizing harness state with
  | nil => exact ⟨fun _ => 0, .inr ⟨state, rfl, hmirrors⟩⟩
  | cons op ops ih =>
      obtain ⟨answer, hfails | ⟨next, hnext, hafter⟩⟩ :=
        hmirrors.runOp hhonest backend op.1 op.2
      · refine ⟨fun _ => answer, .inl ?_⟩
        rw [List.map_cons, PassState.runPass, hfails]
        rfl
      · obtain ⟨answers, hrest⟩ := ih hafter
        refine ⟨fun n => if n = 0 then answer else answers (n - 1), ?_⟩
        rw [List.map_cons, PassState.runPass, if_pos rfl, hnext]
        exact hrest

theorem Mirrors.reclaimLeaked (hmirrors : Mirrors reply harness.bench state)
    (backend : Backend) (leaked : List ℕ) :
    state.reclaimLeaked leaked = .error .badFree ∨
      ∃ done, state.reclaimLeaked leaked = .ok done ∧
        Mirrors reply (harness.reclaimLeaked reply backend leaked).bench
          done := by
  induction leaked generalizing harness state with
  | nil => exact .inr ⟨state, rfl, hmirrors⟩
  | cons slot leaked ih =>
      rw [PassState.reclaimLeaked, Harness.reclaimLeaked, List.foldl_cons,
        hmirrors.live]
      by_cases hnull : harness.bench.live slot = 0
      · rw [if_pos hnull, Harness.reclaimSlot, if_pos hnull]
        exact ih hmirrors
      · rw [if_neg hnull, Harness.reclaimSlot, if_neg hnull]
        rcases hmirrors.release backend (harness.bench.live slot) with
          hfails | ⟨next, hnext, hafter⟩
        · rw [hfails]
          exact .inl rfl
        · rw [hnext]
          exact ih (hafter.setLive slot 0)

theorem Mirrors.sweep (hmirrors : Mirrors reply harness.bench state)
    (backend : Backend) :
    Mirrors reply (harness.sweep reply backend).bench state := by
  rw [Harness.sweep]
  split
  · exact hmirrors
  · have hafter := hmirrors.ask hmirrors.proper.reaperSweep
    exact ⟨hafter.live, hafter.blocks, hafter.proper⟩

/-- Nothing but blocks in use was given back, and none is in use. -/
structure Idle (reply : List Request → Reply) (bench : Bench) : Prop where
  proper : Proper reply bench.requests
  returned : inUse reply bench.requests = []

variable {events : List AllocEvent} {ops : List (Op × ℕ)}

/-- A pass, anything that neither takes nor gives a block, and the reclaiming of
what the pass leaked. -/
theorem Idle.pass (hidle : Idle reply harness.bench) (hhonest : Honest reply)
    (hroom : (allocs events).length < 2 ^ 32)
    (hops : ops.map Prod.fst = (resolve events).ops) (backend : Backend)
    {between : Harness → Harness}
    (hbetween : ∀ {harness state}, Mirrors reply harness.bench state →
      Mirrors reply (between harness).bench state) :
    Idle reply ((between (harness.runPass reply backend ops)).reclaimLeaked
      reply backend (resolve events).leaked).bench := by
  have hstart : Mirrors reply harness.bench
      (passStart harness.bench.live []) :=
    ⟨rfl, hidle.returned.symm, hidle.proper⟩
  obtain ⟨answers, hpass⟩ := hstart.runPass hhonest backend ops
  obtain ⟨hsafe, hends⟩ := replay_gives_back
    (resolveOk_after events hroom) answers harness.bench.live []
  rw [hops] at hpass
  rw [PassState.replay] at hsafe hends
  rcases hpass with hfails | ⟨next, hnext, hafter⟩
  · rw [hfails] at hsafe
    exact absurd rfl hsafe
  · rw [hnext] at hsafe hends
    rcases (hbetween hafter).reclaimLeaked backend (resolve events).leaked with
      hfails | ⟨done, hdone, hlast⟩
    · exact absurd hfails hsafe
    · have hnone := (hends done hdone).1
      exact ⟨hlast.proper, hlast.blocks.symm.trans hnone.eq_nil⟩

theorem Idle.measure (hidle : Idle reply harness.bench)
    (hhonest : Honest reply) (hroom : (allocs events).length < 2 ^ 32)
    (hops : ops.map Prod.fst = (resolve events).ops) (backend : Backend)
    (later : ℕ) :
    Idle reply (harness.measure reply backend later ops
      (resolve events).leaked).bench := by
  rw [Harness.measure]
  induction later with
  | zero =>
      exact hidle.pass hhonest hroom hops backend fun hmirrors =>
        hmirrors.sweep backend
  | succ later ih =>
      rw [Function.iterate_succ_apply']
      have hsame : ∀ {harness : Harness} {state : PassState},
          Mirrors reply harness.bench state →
            Mirrors reply (id harness).bench state := fun hmirrors => hmirrors
      exact ih.pass hhonest hroom hops backend hsame

end Passes

/-- Against honest allocators the harness is a proper client with every backend:
in all of its passes it gives back only blocks that it holds, and in the end it
holds none. -/
theorem boundBench_proper {records : List EventRecord}
    {reply : List Request → Reply} (hhonest : Honest reply)
    (hroom : (allocs (records.map EventRecord.event)).length < 2 ^ 32)
    (knobs : Knobs) (compile : ℕ → RoutineSpec → Option ℕ) (backend : Backend)
    (passes : ℕ) (profile : Bool) :
    ∃ final,
      boundBench knobs compile reply backend passes profile records =
        some final ∧
      Proper reply final.bench.requests ∧
      inUse reply final.bench.requests = [] := by
  obtain ⟨learned, hlearned, -⟩ := learningPass_lookup knobs compile records
  have hinitial : Idle reply Harness.initial.bench := ⟨.nil, rfl⟩
  have hstart : Idle reply (Harness.start learned.dispatch).bench := ⟨.nil, rfl⟩
  have hplain : ((resolve (records.map EventRecord.event)).ops.map fun op =>
      (op, 0)).map Prod.fst = (resolve (records.map EventRecord.event)).ops :=
    List.map_map.trans (List.map_id _)
  have hbound : ((resolve (records.map EventRecord.event)).ops.map
      (resolveFn learned.dispatch)).map Prod.fst =
        (resolve (records.map EventRecord.event)).ops := by
    have hfst : Prod.fst ∘ resolveFn learned.dispatch = id := by
      funext op
      cases op <;> rfl
    rw [List.map_map, hfst, List.map_id]
  have hall : ∃ final,
      boundBench knobs compile reply backend passes profile records =
        some final ∧ Idle reply final.bench := by
    unfold boundBench
    dsimp only
    split
    · exact ⟨_, rfl, hinitial⟩
    · cases backend with
      | glibc => exact ⟨_, rfl, hinitial.measure hhonest hroom hplain _ _⟩
      | bound =>
          rw [hlearned]
          exact ⟨_, rfl, hstart.measure hhonest hroom hbound _ _⟩
      | sim =>
          rw [hlearned]
          exact ⟨_, rfl, hstart.measure hhonest hroom hplain _ _⟩
  obtain ⟨final, hfinal, hidle⟩ := hall
  exact ⟨final, hfinal, hidle.proper, hidle.returned⟩

/-- A reply that is never repeated is honest: what is in use lies below. -/
theorem honest_reportsDeopts : Honest reportsDeopts := by
  have hbelow : ∀ requests, ∀ ptr ∈ inUse reportsDeopts requests,
      ptr ≤ 16 * requests.length := by
    intro requests
    induction requests using List.reverseRecOn with
    | nil => exact fun _ hptr => by cases hptr
    | append_singleton requests request ih =>
        intro ptr hptr
        rw [List.length_append, List.length_singleton]
        rw [inUse_append] at hptr
        rcases mem_useAfter hptr with rfl | hold
        · simp [reportsDeopts]
        · have hle := ih ptr hold
          omega
  intro requests request _ _ hmem
  have hle := hbelow requests _ hmem
  simp [reportsDeopts] at hle

theorem boundBench_proper_twoAllocations :
    ∃ final,
      boundBench singleEventKnobs (fun _ _ => some 65536) reportsDeopts .sim 1
        false twoAllocations = some final ∧
      Proper reportsDeopts final.bench.requests ∧
      inUse reportsDeopts final.bench.requests = [] :=
  boundBench_proper honest_reportsDeopts (by decide) _ _ _ _ _

end TbjitAlloc.Replay
