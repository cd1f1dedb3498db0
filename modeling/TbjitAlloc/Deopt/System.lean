import TbjitAlloc.Deopt.Once
import TbjitAlloc.Dispatch.InlineCache

/-!
# Calls of malloc, and the pages they run in

The deopt machine is joined with the inline cache: each thread makes one call of
`malloc` after another, marks a safe point in every 32nd, obtains a routine
through its cache or a lookup, runs it, and may find a guard that fails.  The
cache model makes each access to a routine pointer and to the generation a step
of its own; there `install` and `revert` are two steps each.  A code page is
mapped by `compile` and unmapped when the drain reclaims it, and its address may
then be used again.
-/

namespace TbjitAlloc.Deopt

open TbjitAlloc.Analysis
open TbjitAlloc.Codegen
open TbjitAlloc.Dispatch
open TbjitAlloc.Transition

/-- Where a thread's call of `malloc` is. -/
inductive CallPhase
  | outside
  /-- In `mark_safe_point`. -/
  | marking (id : CallSiteID)
  /-- From the load of the generation on: the prologue, then the routine. -/
  | running
  /-- `handle` has returned, and the epilogue is to leave the page. -/
  | leaving
  deriving DecidableEq

structure System where
  deopt : State
  cache : InlineCache.State
  call : ℕ → CallPhase
  /-- `tl_safe_point_counter`. -/
  counter : ℕ → ℕ
  /-- The code pages that are mapped. -/
  mapped : List ℕ

def System.initial : System where
  deopt := .initial
  cache := .initial
  call := fun _ => .outside
  counter := fun _ => 0
  mapped := []

/-- The steps of `drain_pending`. -/
def Action.drains : Action → Bool
  | .drain => true
  | .pop => true
  | .reset => true
  | .scan => true
  | .visit => true
  | _ => false

/-- The pages that the next step of the drain passes to `reclaim`. -/
def State.due (state : State) : List ℕ :=
  match state.background with
  | .scanning [] minEpoch =>
      (state.pending.filter fun entry =>
        decide (entry.epoch < minEpoch)).map PendingReclaim.page
  | _ => []

/-- The routine a prologue has obtained; zero stands for none. -/
def routineOf : InlineCache.MallocPc → ℕ
  | .fill _ _ _ fn => fn
  | .call _ _ fn => fn
  | _ => 0

namespace System

def goto (system : System) (tid : ℕ) (phase : CallPhase) : System :=
  { system with call := Function.update system.call tid phase }

/-- One step of the cache model. -/
def access (system : System) (action : InlineCache.Action) : Option System :=
  (InlineCache.step system.cache action).map fun cache =>
    { system with cache := cache }

/-! ## Allocator threads -/

/-- The prologue begins. -/
def enter (system : System) (tid : ℕ) (id : CallSiteID) : Option System :=
  (system.goto tid .running).access (.malloc tid id)

/-- A call of `malloc`.  Every 32nd marks a safe point first. -/
def malloc (system : System) (tid : ℕ) (id : CallSiteID) : Option System :=
  if system.call tid = .outside then
    let count := system.counter tid + 1
    let counted :=
      { system with counter := Function.update system.counter tid count }
    if count % 32 = 0 then some (counted.goto tid (.marking id))
    else counted.enter tid id
  else none

/-- One step of `mark_safe_point`. -/
def register (system : System) (tid : ℕ) : Option System :=
  match system.call tid with
  | .marking _ =>
      (system.deopt.register tid).map fun deopt => { system with deopt := deopt }
  | _ => none

def loadEpoch (system : System) (tid : ℕ) : Option System :=
  match system.call tid with
  | .marking _ =>
      (system.deopt.loadEpoch tid).map fun deopt =>
        { system with deopt := deopt }
  | _ => none

def storeEpoch (system : System) (tid : ℕ) : Option System :=
  match system.call tid with
  | .marking id =>
      (system.deopt.storeEpoch tid).bind fun deopt =>
        { system with deopt := deopt }.enter tid id
  | _ => none

/-- One access of the prologue. -/
def prologue (system : System) (tid : ℕ) : Option System :=
  match system.cache.mallocs tid with
  | .call _ _ _ => none
  | _ => system.access (.mallocStep tid)

/-- A guard fails in the routine, which calls `handle`. -/
def guardFails (system : System) (tid : ℕ) (reason : DeoptReason) :
    Option System :=
  match system.call tid, system.cache.mallocs tid with
  | .running, .call id _ page =>
      if page ≠ 0 then
        (system.deopt.handle tid ⟨id, page, reason⟩).bind fun deopt =>
          let called := { system with deopt := deopt }
          if system.deopt.enabled then called.access (.revert (tid + 1) id)
          else some (called.goto tid .leaving)
      else none
  | _, _ => none

/-- One access of the revert in `handle`. -/
def revertStep (system : System) (tid : ℕ) : Option System :=
  match system.deopt.thread tid with
  | .reverted _ => system.access (.updateStep (tid + 1))
  | _ => none

/-- The rest of `handle`, once the revert has returned. -/
def enqueue (system : System) (tid : ℕ) : Option System :=
  if system.cache.updates (tid + 1) = .idle then
    (system.deopt.enqueue tid).map fun deopt =>
      { system with deopt := deopt }.goto tid .leaving
  else none

/-- The call returns, from the routine, its epilogue or the generic path. -/
def leave (system : System) (tid : ℕ) : Option System :=
  match system.cache.mallocs tid with
  | .call _ _ _ =>
      if system.deopt.thread tid = .outside then
        (system.goto tid .outside).access (.mallocStep tid)
      else none
  | _ => none

/-! ## The background thread -/

/-- `process_event`, up to the start of the install.  The page of a new routine
was mapped by `compile`, and no page is mapped twice. -/
def event (knobs : Knobs) (system : System) (segSite : Option ℕ)
    (ev : AllocEvent) (compile : RoutineSpec → Option ℕ) : Option System :=
  if system.cache.updates 0 = .idle then
    (system.deopt.event knobs segSite ev compile).bind fun deopt =>
      let processed := { system with deopt := deopt }
      match (system.deopt.analyzer.processEvent knobs compile segSite
        ev).2.compiled with
      | some (spec, some page) =>
          if page = 0 ∨ page ∈ system.mapped then none
          else
            { processed with mapped := page :: system.mapped }.access
              (.install 0 spec.id page)
      | _ => some processed
  else none

/-- One access of the install. -/
def installStep (system : System) : Option System :=
  system.access (.updateStep 0)

/-- One step of `drain_pending`, when no install is on its way. -/
def drainStep (knobs : Knobs) (system : System) (action : Action) :
    Option System :=
  if action.drains = true ∧ system.cache.updates 0 = .idle then
    (Deopt.step knobs system.deopt action).map fun deopt =>
      { system with
        deopt := deopt
        mapped := system.mapped.filter fun page => page ∉ system.deopt.due }
  else none

inductive Action
  | malloc (tid : ℕ) (id : CallSiteID)
  | register (tid : ℕ)
  | loadEpoch (tid : ℕ)
  | storeEpoch (tid : ℕ)
  | prologue (tid : ℕ)
  | guardFails (tid : ℕ) (reason : DeoptReason)
  | revertStep (tid : ℕ)
  | enqueue (tid : ℕ)
  | leave (tid : ℕ)
  | setEnabled (on : Bool)
  | event (segSite : Option ℕ) (ev : AllocEvent)
      (compile : RoutineSpec → Option ℕ)
  | installStep
  | drainStep (action : Deopt.Action)

def step (knobs : Knobs) (system : System) : Action → Option System
  | .malloc tid id => system.malloc tid id
  | .register tid => system.register tid
  | .loadEpoch tid => system.loadEpoch tid
  | .storeEpoch tid => system.storeEpoch tid
  | .prologue tid => system.prologue tid
  | .guardFails tid reason => system.guardFails tid reason
  | .revertStep tid => system.revertStep tid
  | .enqueue tid => system.enqueue tid
  | .leave tid => system.leave tid
  | .setEnabled on =>
      some { system with deopt := { system.deopt with enabled := on } }
  | .event segSite ev compile => system.event knobs segSite ev compile
  | .installStep => system.installStep
  | .drainStep action => system.drainStep knobs action

/-- The thread has obtained the page's routine for a call in progress, or
executes in the page. -/
def Holds (system : System) (tid page : ℕ) : Prop :=
  page ≠ 0 ∧ routineOf (system.cache.mallocs tid) = page

/-- No page that is about to be reclaimed is in use, and none in use is
unmapped. -/
def Safe (system : System) : Prop :=
  ∀ tid page, system.Holds tid page →
    page ∉ system.deopt.due ∧ page ∈ system.mapped

/-- The routine the next access of a prologue obtains. -/
def obtains (system : System) (tid : ℕ) : ℕ :=
  match system.cache.mallocs tid with
  | .generation id _ =>
      if id = (system.cache.cache tid).id ∧
          system.cache.generation = (system.cache.cache tid).gen then
        (system.cache.cache tid).fn
      else 0
  | .lookup id _ _ => system.cache.routine id
  | _ => 0

/-- The page `compile` maps for an event, if it is asked for a routine. -/
def mappedBy (knobs : Knobs) (system : System) (segSite : Option ℕ)
    (ev : AllocEvent) (compile : RoutineSpec → Option ℕ) : Option ℕ :=
  (system.deopt.analyzer.processEvent knobs compile segSite
    ev).2.compiled.bind Prod.snd

/-- A thread that obtains a routine is registered.  No page is mapped at an
address for which an earlier deopt is still to be reclaimed. -/
def Registered (knobs : Knobs) (system : System) : Action → Prop
  | .prologue tid => system.obtains tid ≠ 0 → tid ∈ system.deopt.threads
  | .event segSite ev compile =>
      ∀ page, system.mappedBy knobs segSite ev compile = some page →
        page ∉ system.deopt.outstanding.map DequeuedDeopt.page ∧
          page ∉ system.deopt.pending.map PendingReclaim.page
  | _ => True

end System

end TbjitAlloc.Deopt
