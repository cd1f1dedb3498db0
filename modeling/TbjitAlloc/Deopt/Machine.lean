import TbjitAlloc.Analysis.Stream
import TbjitAlloc.Dispatch.Table

/-!
# Deoptimization

A failed guard takes effect in two halves.  The thread in the routine reverts
the dispatch entry and queues the call site with its page; the background thread
later drains the queue, restarts the analysis of each site, and unmaps a page
once every registered thread has passed a safe point since.  Both the queue and
the list of pages that wait are bounded.  Every access to what the parties share
is a step of its own, except that the queue is handled under its mutex.
-/

namespace TbjitAlloc.Deopt

open TbjitAlloc.Analysis
open TbjitAlloc.Codegen
open TbjitAlloc.Dispatch
open TbjitAlloc.Transition

/-- `MAX_PENDING`. -/
def maxPending : ℕ := 256

/-- `DEOPT_QUEUE_CAP`. -/
def deoptQueueCap : ℕ := 256

structure DequeuedDeopt where
  id : CallSiteID
  page : ℕ
  reason : DeoptReason
  deriving DecidableEq

structure PendingReclaim where
  page : ℕ
  epoch : ℕ
  deriving DecidableEq

/-- Where a thread is in `mark_safe_point` or `handle`. -/
inductive ThreadPhase
  | outside
  /-- Has loaded the global epoch and is to publish it. -/
  | loaded (epoch : ℕ)
  /-- Has reverted the dispatch entry and is to queue the deopt. -/
  | reverted (deopt : DequeuedDeopt)
  deriving DecidableEq

/-- Where the background thread is: processing events, or in `drain_pending`. -/
inductive Background
  | working
  /-- At the head of the loop over the queue. -/
  | popping
  /-- Has taken an entry off the queue. -/
  | resetting (deopt : DequeuedDeopt)
  /-- Has seen the queue empty while pages wait. -/
  | emptied
  /-- Walks the rest of the thread list, with the least epoch seen so far. -/
  | scanning (rest : List ℕ) (minEpoch : ℕ)
  /-- `drain_pending` has just returned. -/
  | returned
  deriving DecidableEq

/-- The shared state and the positions of the parties.  The queue is the FIFO
list of its live entries, oldest first, and `threads` is `g_thread_list`. -/
structure State where
  analyzer : Analyzer
  dispatch : Table
  enabled : Bool
  queue : List DequeuedDeopt
  epoch : ℕ
  pending : List PendingReclaim
  threads : List ℕ
  threadEpoch : ℕ → ℕ
  thread : ℕ → ThreadPhase
  background : Background
  /-- Pages passed to `codegen::reclaim`, in order. -/
  reclaimed : List ℕ

def State.initial : State where
  analyzer := .empty
  dispatch := .initial
  enabled := true
  queue := []
  epoch := 0
  pending := []
  threads := []
  threadEpoch := fun _ => 0
  thread := fun _ => .outside
  background := .working
  reclaimed := []

/-- The background thread may go on with its loop. -/
def Background.betweenDrains : Background → Bool
  | .working => true
  | .returned => true
  | _ => false

namespace State

def goto (state : State) (tid : ℕ) (phase : ThreadPhase) : State :=
  { state with thread := Function.update state.thread tid phase }

/-! ## Allocator threads -/

/-- The registration in `mark_safe_point`, on a thread's first call. -/
def register (state : State) (tid : ℕ) : Option State :=
  if state.thread tid = .outside ∧ tid ∉ state.threads then
    some { state with threads := tid :: state.threads }
  else none

def loadEpoch (state : State) (tid : ℕ) : Option State :=
  if state.thread tid = .outside ∧ tid ∈ state.threads then
    some (state.goto tid (.loaded state.epoch))
  else none

def storeEpoch (state : State) (tid : ℕ) : Option State :=
  match state.thread tid with
  | .loaded epoch =>
      some { state.goto tid .outside with
        threadEpoch := Function.update state.threadEpoch tid epoch }
  | _ => none

/-- `handle` up to the revert.  A disabled `handle` returns at once. -/
def handle (state : State) (tid : ℕ) (deopt : DequeuedDeopt) : Option State :=
  if state.thread tid = .outside then
    some (if state.enabled then
      { state.goto tid (.reverted deopt) with
        dispatch := revert state.dispatch deopt.id }
    else state)
  else none

/-- The rest of `handle`.  A full queue drops the deopt. -/
def enqueue (state : State) (tid : ℕ) : Option State :=
  match state.thread tid with
  | .reverted deopt =>
      some { state.goto tid .outside with
        queue := if state.queue.length < deoptQueueCap then
          state.queue ++ [deopt] else state.queue }
  | _ => none

/-! ## The background thread -/

/-- `process_event`.  A routine that was compiled is installed. -/
def event (knobs : Knobs) (state : State) (segSite : Option ℕ)
    (ev : AllocEvent) (compile : RoutineSpec → Option ℕ) : Option State :=
  if state.background.betweenDrains then
    let result := state.analyzer.processEvent knobs compile segSite ev
    let next := { state with
      analyzer := result.1
      background := .working }
    match result.2.compiled with
    | some (spec, some page) =>
        (install state.dispatch spec.id page).map fun dispatch =>
          { next with dispatch := dispatch }
    | _ => some next
  else none

/-- `drain_pending` is called. -/
def drain (state : State) : Option State :=
  if state.background.betweenDrains then
    some { state with background := .popping }
  else none

/-- One look at the queue. -/
def pop (state : State) : Option State :=
  if state.background = .popping then
    match state.queue with
    | [] =>
        some { state with
          background := if state.pending = [] then .returned else .emptied }
    | deopt :: rest =>
        some { state with
          queue := rest
          background := .resetting deopt }
  else none

/-- The body of the loop.  A page that finds the list full is forgotten. -/
def reset (knobs : Knobs) (state : State) : Option State :=
  match state.background with
  | .resetting deopt =>
      some { state with
        analyzer := state.analyzer.resetCallSite knobs deopt.id deopt.reason
        epoch := state.epoch + 1
        pending := if state.pending.length < maxPending then
          state.pending ++ [⟨deopt.page, state.epoch⟩] else state.pending
        background := .popping }
  | _ => none

/-- Load the global epoch and the head of the thread list. -/
def scan (state : State) : Option State :=
  if state.background = .emptied then
    some { state with background := .scanning state.threads state.epoch }
  else none

/-- The epoch of one more thread, or the pass over the pages that wait. -/
def visit (state : State) : Option State :=
  match state.background with
  | .scanning (tid :: rest) minEpoch =>
      some { state with
        background := .scanning rest (min minEpoch (state.threadEpoch tid)) }
  | .scanning [] minEpoch =>
      let due := fun entry : PendingReclaim => decide (entry.epoch < minEpoch)
      some { state with
        pending := state.pending.filter fun entry => !due entry
        reclaimed :=
          state.reclaimed ++ (state.pending.filter due).map PendingReclaim.page
        background := .returned }
  | _ => none

end State

inductive Action
  | register (tid : ℕ)
  | loadEpoch (tid : ℕ)
  | storeEpoch (tid : ℕ)
  | handle (tid : ℕ) (deopt : DequeuedDeopt)
  | enqueue (tid : ℕ)
  | setEnabled (on : Bool)
  | event (segSite : Option ℕ) (ev : AllocEvent)
      (compile : RoutineSpec → Option ℕ)
  | drain
  | pop
  | reset
  | scan
  | visit

def step (knobs : Knobs) (state : State) : Action → Option State
  | .register tid => state.register tid
  | .loadEpoch tid => state.loadEpoch tid
  | .storeEpoch tid => state.storeEpoch tid
  | .handle tid deopt => state.handle tid deopt
  | .enqueue tid => state.enqueue tid
  | .setEnabled on => some { state with enabled := on }
  | .event segSite ev compile => state.event knobs segSite ev compile
  | .drain => state.drain
  | .pop => state.pop
  | .reset => state.reset knobs
  | .scan => state.scan
  | .visit => state.visit

end TbjitAlloc.Deopt
