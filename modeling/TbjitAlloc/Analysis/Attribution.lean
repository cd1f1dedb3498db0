import TbjitAlloc.Analysis.PostWindow

/-!
# Attribution of frees on the generic path

A free of a block no segment manages is attributed to the first site that has
the block on top of its stack.  A block freed out of order leaves its entry
behind, so the stacks name the right sites only as long as no address is handed
out again while another site still has an entry for it.
-/

namespace TbjitAlloc.Analysis

open CallSiteSummary (pushLifo sameBooks_processAlloc)
open TbjitAlloc.Codegen
open TbjitAlloc.Transition

/-- The analyzer with what the real allocator has handed out: the blocks that
are live, and the site of the most recent allocation of each address. -/
structure GenericRun where
  analyzer : Analyzer
  owner : ℕ → Option ℕ
  live : ℕ → Bool

/-- An event, and what `compile` answers if it is asked. -/
structure GenericCall where
  event : AllocEvent
  compile : RoutineSpec → Option ℕ

namespace GenericRun

def initial : GenericRun := ⟨.empty, fun _ => none, fun _ => false⟩

/-- `process_event`, where no segment manages the block. -/
def processed (knobs : Knobs) (state : GenericRun) (call : GenericCall) :
    Analyzer :=
  (state.analyzer.processEvent knobs call.compile none call.event).1

/-- An allocator returns a block that is not live, or null, and a block is freed
once. -/
def step (knobs : Knobs) (state : GenericRun) (call : GenericCall) :
    Option GenericRun :=
  let ptr := call.event.ptr
  let next := { state with analyzer := state.processed knobs call }
  if ptr = 0 then some next
  else if call.event.size = 0 then
    if state.live ptr then
      some { next with live := Function.update state.live ptr false }
    else none
  else if state.live ptr then none
  else
    some { next with
      owner := Function.update state.owner ptr (some call.event.callSite)
      live := Function.update state.live ptr true }

end GenericRun

/-- What a free event updates on the site it is attributed to. -/
def freeBooks (summary : CallSiteSummary) : ℕ × ThreadDist × PairCandidate :=
  (summary.freeCount, summary.freeDist, summary.topPair)

section Property

variable (knobs : Knobs) (state : GenericRun) (call : GenericCall)

/-- A free event updates only the site of the most recent allocation of its
block. -/
def Attributed : Prop :=
  call.event.size = 0 → ∀ id,
    freeBooks ((state.processed knobs call).summaryOf id) ≠
        freeBooks (state.analyzer.summaryOf id) →
      state.owner call.event.ptr = some id

/-- The block an allocation returns is on the stack of no other site. -/
def NotStale : Prop :=
  call.event.size ≠ 0 → ∀ id,
    call.event.ptr ∈ (state.analyzer.summaryOf id).lifoStack →
      id = call.event.callSite

end Property

section Invariant

variable {knobs : Knobs} {state next : GenericRun} {call : GenericCall}

/-- Every entry of a stack is a block whose most recent allocation is the
site's. -/
def StacksOwned (state : GenericRun) : Prop :=
  ∀ id, ∀ ptr ∈ (state.analyzer.summaryOf id).lifoStack,
    state.owner ptr = some id

theorem mem_of_mem_pushLifo {stack : List ℕ} {ptr other : ℕ}
    (hmem : other ∈ pushLifo stack ptr) :
    other ∈ stack ∨ other = ptr ∧ ptr ≠ 0 := by
  rw [pushLifo] at hmem
  split at hmem
  · exact .inl hmem
  · next hptr =>
      split at hmem <;> rw [List.mem_append, List.mem_singleton] at hmem
      · exact hmem.imp id fun heq => ⟨heq, hptr⟩
      · exact hmem.imp List.mem_of_mem_tail fun heq => ⟨heq, hptr⟩

/-- A free event takes at most the top entry from a stack. -/
theorem mem_stack_of_free (hfree : call.event.size = 0) {id ptr : ℕ}
    (hmem : ptr ∈ ((state.processed knobs call).summaryOf id).lifoStack) :
    ptr ∈ (state.analyzer.summaryOf id).lifoStack := by
  rw [GenericRun.processed, Analyzer.processEvent, if_pos hfree] at hmem
  rcases state.analyzer.summaryOf_processFree none call.event id with
    hsame | ⟨managed, hfreed⟩
  · rwa [hsame] at hmem
  · rw [hfreed, CallSiteSummary.recordFree] at hmem
    dsimp only at hmem
    split at hmem
    · exact List.mem_of_mem_dropLast hmem
    · exact hmem

/-- An allocation event puts its block on the stack of its site, at most. -/
theorem mem_stack_of_alloc (halloc : call.event.size ≠ 0) {id ptr : ℕ}
    (hmem : ptr ∈ ((state.processed knobs call).summaryOf id).lifoStack) :
    ptr ∈ (state.analyzer.summaryOf id).lifoStack ∨
      id = call.event.callSite ∧ ptr = call.event.ptr ∧ call.event.ptr ≠ 0 := by
  rw [GenericRun.processed] at hmem
  by_cases hid : id = call.event.callSite
  · subst hid
    by_cases htracked : call.event.size < maxSize
    · rcases state.analyzer.summaryOf_processEvent knobs call.compile none
        halloc htracked with ⟨-, hsame, -⟩ | ⟨-, hnext, -⟩
      · rw [hsame] at hmem
        exact .inl hmem
      · rw [hnext, (sameBooks_processAlloc _ _ _ _).lifoStack] at hmem
        exact (mem_of_mem_pushLifo hmem).imp id fun heq => ⟨rfl, heq⟩
    · rw [Analyzer.processEvent, if_neg halloc, if_pos (by omega)] at hmem
      exact .inl hmem
  · rw [Analyzer.summaryOf_processEvent_of_ne _ _ _ halloc hid] at hmem
    exact .inl hmem

theorem stacksOwned_step (howned : StacksOwned state)
    (hstale : NotStale state call)
    (hstep : GenericRun.step knobs state call = some next) :
    StacksOwned next := by
  rw [GenericRun.step] at hstep
  dsimp only at hstep
  split at hstep
  · next hnull =>
      obtain rfl := Option.some.inj hstep
      intro id ptr hmem
      by_cases hfree : call.event.size = 0
      · exact howned id ptr (mem_stack_of_free hfree hmem)
      · rcases mem_stack_of_alloc hfree hmem with hold | ⟨-, -, hptr⟩
        · exact howned id ptr hold
        · exact absurd hnull hptr
  · split at hstep
    · next hfree =>
        split at hstep
        · obtain rfl := Option.some.inj hstep
          exact fun id ptr hmem => howned id ptr (mem_stack_of_free hfree hmem)
        · cases hstep
    · next halloc =>
        split at hstep
        · cases hstep
        · obtain rfl := Option.some.inj hstep
          intro id ptr hmem
          change Function.update state.owner call.event.ptr
            (some call.event.callSite) ptr = some id
          rcases mem_stack_of_alloc halloc hmem with hold | ⟨rfl, rfl, -⟩
          · by_cases hsame : ptr = call.event.ptr
            · subst hsame
              rw [Function.update_self, hstale halloc id hold]
            · rw [Function.update_of_ne hsame, howned id ptr hold]
          · rw [Function.update_self]

theorem stacksOwned_reachable
    (hreach : ReachableWhen (GenericRun.step knobs) NotStale .initial state) :
    StacksOwned state := by
  have hinitial : StacksOwned .initial := fun _ _ hmem =>
    absurd hmem List.not_mem_nil
  exact hreach.invariant hinitial fun _ _ _ howned hstale hstep =>
    stacksOwned_step howned hstale hstep

/-- In a run in which no block is handed out while it is on the stack of another
site, every free event updates only the site of the most recent allocation of
its block. -/
theorem attributed_of_notStale
    (hreach : ReachableWhen (GenericRun.step knobs) NotStale .initial state)
    (call : GenericCall) : Attributed knobs state call := by
  intro hfree id hchanged
  rw [GenericRun.processed, Analyzer.processEvent, if_pos hfree] at hchanged
  have hcases := Analyzer.find_processFree_generic state.analyzer call.event id
  rcases hcases with hsame | ⟨summary, htop, hfind, -⟩
  · rw [Analyzer.summaryOf, hsame] at hchanged
    exact absurd rfl hchanged
  · refine stacksOwned_reachable hreach id call.event.ptr ?_
    rw [Analyzer.summaryOf_of_find hfind]
    rw [CallSiteSummary.lifoTop, decide_eq_true_eq] at htop
    exact List.mem_of_getLast? htop

end Invariant

/-! ## Two sites and one address -/

/-- The check of `NotStale`. -/
def notStale (state : GenericRun) (call : GenericCall) : Bool :=
  call.event.size = 0 || state.analyzer.summaries.all fun summary =>
    decide (call.event.ptr ∈ summary.lifoStack →
      summary.id = call.event.callSite)

theorem notStale_of_check (state : GenericRun) (call : GenericCall)
    (hcheck : notStale state call = true) : NotStale state call := by
  intro halloc id hmem
  rw [notStale, decide_eq_false halloc, Bool.false_or] at hcheck
  rw [Analyzer.summaryOf] at hmem
  cases hfind : state.analyzer.find id with
  | none =>
      rw [hfind] at hmem
      exact absurd hmem List.not_mem_nil
  | some summary =>
      rw [hfind] at hmem
      have hentry := List.all_eq_true.mp hcheck summary
        (List.mem_of_find?_eq_some hfind)
      rw [← Analyzer.id_of_find hfind]
      exact (of_decide_eq_true hentry) hmem

def allocation (site ptr : ℕ) : GenericCall :=
  ⟨⟨site, 16, 1, ptr⟩, fun _ => none⟩

/-- Frees are made at site 9. -/
def release (ptr : ℕ) : GenericCall := ⟨⟨9, 0, 1, ptr⟩, fun _ => none⟩

def freesOf (analyzer : Analyzer) (id : ℕ) : ℕ :=
  (analyzer.summaryOf id).freeCount

/-- Site 1 allocates a block and frees it, and site 2 is given its address. -/
def handedOn : List GenericCall :=
  [allocation 1 4096, release 4096, allocation 2 4096]

/-- The next free of the address may count on site 2 only. -/
theorem attributed_handedOn :
    ∃ state, state.owner 4096 = some 2 ∧ freesOf state.analyzer 1 = 1 ∧
      Attributed sixEventKnobs state (release 4096) := by
  have hobserved : (run (fun state call =>
      if notStale state call then GenericRun.step sixEventKnobs state call
      else none) .initial handedOn).map (fun state =>
        (state.owner 4096, freesOf state.analyzer 1)) =
          some (some 2, 1) := by decide +kernel
  obtain ⟨state, hrun, hobserved⟩ := Option.map_eq_some_iff.mp hobserved
  obtain ⟨howner, hfrees⟩ := Prod.mk.inj hobserved
  exact ⟨state, howner, hfrees, attributed_of_notStale
    (reachableWhen_of_run notStale_of_check .start hrun) _⟩

/-- Site 1 frees the older of two blocks first, whose entry stays, and site 2 is
given that address; then the younger block is freed. -/
def outOfOrder : List GenericCall :=
  [allocation 1 4096, allocation 1 8192, release 4096, allocation 2 4096,
    release 8192]

/-- The free of site 2's block counts on site 1. -/
theorem outOfOrder_misattributes :
    ∃ state, Reachable (GenericRun.step sixEventKnobs) .initial state ∧
      state.live 4096 = true ∧ state.owner 4096 = some 2 ∧
      freesOf state.analyzer 1 = 1 ∧
      freesOf (state.processed sixEventKnobs (release 4096)) 1 = 2 ∧
      ¬Attributed sixEventKnobs state (release 4096) := by
  have hobserved : (run (GenericRun.step sixEventKnobs) .initial
      outOfOrder).map (fun state =>
        ((state.live 4096, state.owner 4096), freesOf state.analyzer 1,
          freesOf (state.processed sixEventKnobs (release 4096)) 1)) =
        some ((true, some 2), 1, 2) := by
    decide +kernel
  obtain ⟨state, hrun, hobserved⟩ := Option.map_eq_some_iff.mp hobserved
  simp only [Prod.mk.injEq] at hobserved
  obtain ⟨⟨hlive, howner⟩, hbefore, hafter⟩ := hobserved
  refine ⟨state, reachable_of_run .start hrun, hlive, howner, hbefore, hafter,
    fun hattributed => ?_⟩
  have hchanged : freeBooks ((state.processed sixEventKnobs
      (release 4096)).summaryOf 1) ≠ freeBooks (state.analyzer.summaryOf 1) := by
    intro hsame
    have hcount : 2 = 1 :=
      hafter.symm.trans ((congrArg Prod.fst hsame).trans hbefore)
    exact absurd hcount (by decide)
  have howned : state.owner 4096 = some 1 := hattributed rfl 1 hchanged
  rw [howner] at howned
  exact absurd howned (by decide)

end TbjitAlloc.Analysis
