import TbjitAlloc.Dispatch.InlineCache
import TbjitAlloc.Replay.Learning
import TbjitAlloc.Replay.Pass

/-!
# The backends of the harness

The harness replays the operations of a trace many times.  Its bound backend
calls the routine that was resolved for an operation beforehand; its sim backend
goes through the prologue of the trampoline's `malloc`, with an inline cache.
The allocators behind them answer each request by all requests so far, and a
routine may report deopts at any time.

A bench is what the allocators see.  The prologue of the sim backend adds the
thread's own variables to it, and they show in no request.
-/

namespace TbjitAlloc.Replay

open TbjitAlloc.Analysis
open TbjitAlloc.Codegen
open TbjitAlloc.Deopt
open TbjitAlloc.Dispatch
open TbjitAlloc.Dispatch.InlineCache (Cache)
open TbjitAlloc.Trace

inductive Backend
  | glibc
  | bound
  | sim
  deriving DecidableEq

/-- What the harness asks of the allocators. -/
inductive Request
  | routine (fn size : ℕ)
  | malloc (size : ℕ)
  | managedAwareFree (ptr : ℕ)
  | free (ptr : ℕ)
  | reaperSweep
  deriving DecidableEq

/-- A block where one was asked for, and the deopts reported on the way. -/
structure Reply where
  ptr : ℕ
  deopts : List DequeuedDeopt

/-- `op.fn ? op.fn(op.size) : g_real_malloc(op.size)`. -/
def serve (fn size : ℕ) : Request :=
  if fn ≠ 0 then .routine fn size else .malloc size

/-- The dispatch table, the deopts, the array of slots and the requests made.
The array has `n_allocs` entries; below `2^32` allocations every operation and
every leaked slot indexes one of them. -/
structure Bench where
  dispatch : Table
  enabled : Bool
  queue : List DequeuedDeopt
  live : ℕ → ℕ
  requests : List Request

namespace Bench

/-- `deopt::handle`. -/
def handle (bench : Bench) (deopt : DequeuedDeopt) : Bench :=
  if bench.enabled then
    { bench with
      dispatch := revert bench.dispatch deopt.id
      queue := if bench.queue.length < deoptQueueCap then
        bench.queue ++ [deopt] else bench.queue }
  else bench

/-- A request and what it brings about; `reply` answers it by all requests so
far. -/
def ask (reply : List Request → Reply) (bench : Bench) (request : Request) :
    ℕ × Bench :=
  let requests := bench.requests ++ [request]
  ((reply requests).ptr,
    (reply requests).deopts.foldl handle { bench with requests := requests })

/-- `live[slot] = ptr`. -/
def setLive (bench : Bench) (slot ptr : ℕ) : Bench :=
  { bench with live := Function.update bench.live slot ptr }

/-- `free` or `managed_aware_free`; both ignore null. -/
def release (reply : List Request → Reply) (backend : Backend) (bench : Bench)
    (ptr : ℕ) : Bench :=
  if ptr = 0 then bench
  else
    (bench.ask reply
      (if backend = .glibc then .free ptr else .managedAwareFree ptr)).2

end Bench

/-- The bench with `sim_guard`, `sim_ic_id`, `sim_ic_fn`, `sim_ic_gen` and
`sim_safe_ctr`.  Safe points publish an epoch that nothing here advances; `epoch`
is the one published last. -/
structure Harness where
  bench : Bench
  guard : Bool
  cache : Cache
  safeCtr : ℕ
  epoch : Option ℕ

namespace Harness

def ask (reply : List Request → Reply) (state : Harness) (request : Request) :
    ℕ × Harness :=
  ((state.bench.ask reply request).1,
    { state with bench := (state.bench.ask reply request).2 })

/-- The guard is set, and every 32nd call marks a safe point. -/
def enter (state : Harness) : Harness :=
  let safeCtr := (state.safeCtr + 1) % 2 ^ 32
  { state with
    guard := true
    safeCtr := safeCtr
    epoch := if safeCtr % 32 = 0 then some 0 else state.epoch }

/-- The cache is filled with what the table answers, unless it holds the site
under the current generation. -/
def fill (state : Harness) (id : CallSiteID) : Harness :=
  let curGen := state.bench.dispatch.generation
  if id = state.cache.id ∧ curGen = state.cache.gen then state
  else { state with cache := ⟨id, lookup state.bench.dispatch id, curGen⟩ }

def simAlloc (reply : List Request → Reply) (state : Harness) (id size : ℕ) :
    ℕ × Harness :=
  if state.guard then state.ask reply (.malloc size)
  else
    let state := state.enter.fill id
    let result := state.ask reply (serve state.cache.fn size)
    (result.1, { result.2 with guard := false })

/-- The allocation of a backend for an operation with its routine. -/
def alloc (reply : List Request → Reply) (backend : Backend) (state : Harness)
    (id size fn : ℕ) : ℕ × Harness :=
  match backend with
  | .glibc => state.ask reply (.malloc size)
  | .bound => state.ask reply (serve fn size)
  | .sim => state.simAlloc reply id size

/-- One operation, with the routine that was resolved for it. -/
def runOp (reply : List Request → Reply) (backend : Backend)
    (state : Harness) : Op × ℕ → Harness
  | (.alloc id size slot, fn) =>
      let result := state.alloc reply backend id size fn
      { result.2 with bench := result.2.bench.setLive slot result.1 }
  | (.free slot, _) =>
      { state with
        bench := state.bench.release reply backend (state.bench.live slot) }

def runPass (reply : List Request → Reply) (backend : Backend)
    (state : Harness) (ops : List (Op × ℕ)) : Harness :=
  ops.foldl (runOp reply backend) state

/-- One turn of the loop of `reclaim_leaked`. -/
def reclaimSlot (reply : List Request → Reply) (backend : Backend)
    (state : Harness) (slot : ℕ) : Harness :=
  if state.bench.live slot = 0 then state
  else
    { state with
      bench := (state.bench.release reply backend
        (state.bench.live slot)).setLive slot 0 }

def reclaimLeaked (reply : List Request → Reply) (backend : Backend)
    (state : Harness) (leaked : List ℕ) : Harness :=
  leaked.foldl (reclaimSlot reply backend) state

/-- The sweep after the first pass. -/
def sweep (reply : List Request → Reply) (backend : Backend)
    (state : Harness) : Harness :=
  if backend = .glibc then state else (state.ask reply .reaperSweep).2

/-- A pass, and what it leaked. -/
def round (reply : List Request → Reply) (backend : Backend)
    (ops : List (Op × ℕ)) (leaked : List ℕ) (state : Harness) : Harness :=
  (state.runPass reply backend ops).reclaimLeaked reply backend leaked

end Harness

/-- `resolve_fns`. -/
def resolveFn (dispatch : Table) : Op → Op × ℕ
  | .alloc id size slot => (.alloc id size slot, lookup dispatch id)
  | .free slot => (.free slot, 0)

/-- The state before anything runs. -/
def Harness.initial : Harness where
  bench :=
    { dispatch := .initial
      enabled := true
      queue := []
      live := fun _ => 0
      requests := [] }
  guard := false
  cache := ⟨0, 0, 0⟩
  safeCtr := 0
  epoch := none

/-- The state after the learning pass, which disables deopts. -/
def Harness.start (dispatch : Table) : Harness :=
  { Harness.initial with
    bench := { Harness.initial.bench with
      dispatch := dispatch
      enabled := false } }

/-- The warmup passes. -/
def warmup : ℕ := 3

/-- The passes after the first: the warmup, the timed ones, and with `--profile`
one more. -/
def laterPasses (passes : ℕ) (profile : Bool) : ℕ :=
  warmup + max passes 1 + profile.toNat

/-- The pass that measures space, and those after it. -/
def Harness.measure (reply : List Request → Reply) (backend : Backend)
    (later : ℕ) (ops : List (Op × ℕ)) (leaked : List ℕ) (state : Harness) :
    Harness :=
  (round reply backend ops leaked)^[later]
    (((state.runPass reply backend ops).sweep reply backend).reclaimLeaked reply
      backend leaked)

/-- `main` of the harness once the trace is read, on a host where it can time;
`none` is a failed assertion in the learning pass. -/
def boundBench (knobs : Knobs) (compile : ℕ → RoutineSpec → Option ℕ)
    (reply : List Request → Reply) (backend : Backend) (passes : ℕ)
    (profile : Bool) (records : List EventRecord) : Option Harness :=
  let resolved := resolve (records.map EventRecord.event)
  let later := laterPasses passes profile
  let unresolved := resolved.ops.map fun op => (op, 0)
  if resolved.nAllocs = 0 then some .initial
  else
    match backend with
    | .glibc =>
        some (Harness.initial.measure reply .glibc later unresolved
          resolved.leaked)
    | .bound =>
        (learningPass knobs compile records).map fun learned =>
          (Harness.start learned.dispatch).measure reply .bound later
            (resolved.ops.map (resolveFn learned.dispatch)) resolved.leaked
    | .sim =>
        (learningPass knobs compile records).map fun learned =>
          (Harness.start learned.dispatch).measure reply .sim later unresolved
            resolved.leaked

/-! ## The plain backend -/

namespace Bench

/-- The backend that looks the routine up whenever it allocates. -/
def plainOp (reply : List Request → Reply) (bench : Bench) : Op → Bench
  | .alloc id size slot =>
      let result := bench.ask reply (serve (lookup bench.dispatch id) size)
      result.2.setLive slot result.1
  | .free slot => bench.release reply .sim (bench.live slot)

def plainReclaim (reply : List Request → Reply) (bench : Bench) (slot : ℕ) :
    Bench :=
  if bench.live slot = 0 then bench
  else (bench.release reply .sim (bench.live slot)).setLive slot 0

def plainRound (reply : List Request → Reply) (ops : List Op)
    (leaked : List ℕ) (bench : Bench) : Bench :=
  leaked.foldl (plainReclaim reply) (ops.foldl (plainOp reply) bench)

def plainMeasure (reply : List Request → Reply) (later : ℕ) (ops : List Op)
    (leaked : List ℕ) (bench : Bench) : Bench :=
  (plainRound reply ops leaked)^[later]
    (leaked.foldl (plainReclaim reply)
      ((ops.foldl (plainOp reply) bench).ask reply .reaperSweep).2)

/-- What an allocation asks for when each site has this routine. -/
def request (routine : CallSiteID → ℕ) : Op → Option Request
  | .alloc id size _ => some (serve (routine id) size)
  | .free _ => none

/-- The request is one for a block. -/
def Allocates : Request → Bool
  | .routine _ _ => true
  | .malloc _ => true
  | _ => false

/-- The requests for blocks, in order. -/
def served (bench : Bench) : List Request := bench.requests.filter Allocates

end Bench

/-- A site cached under the current generation is cached with the routine that
the table has for it. -/
structure Fresh (dispatch : Table) (cache : Cache) : Prop where
  gen_le : cache.gen ≤ dispatch.generation
  fn : cache.gen = dispatch.generation → cache.fn = lookup dispatch cache.id

/-! ## Requests -/

section Asking

variable {reply : List Request → Reply} {bench : Bench} {cache : Cache}
variable {dispatch : Table} {request : Request}

theorem allocates_serve (fn size : ℕ) : Bench.Allocates (serve fn size) = true := by
  rw [serve]
  split <;> rfl

theorem Fresh.revert (hfresh : Fresh dispatch cache) (id : CallSiteID) :
    Fresh (revert dispatch id) cache := by
  rw [Dispatch.revert]
  split
  · exact hfresh
  · split
    · have hle := hfresh.gen_le
      refine ⟨by dsimp only; omega, fun hgen => ?_⟩
      dsimp only at hgen
      omega
    · exact hfresh

theorem Fresh.handle (hfresh : Fresh bench.dispatch cache)
    (deopts : List DequeuedDeopt) :
    Fresh (deopts.foldl Bench.handle bench).dispatch cache := by
  induction deopts generalizing bench with
  | nil => exact hfresh
  | cons deopt deopts ih =>
      rw [List.foldl_cons]
      refine ih ?_
      rw [Bench.handle]
      split
      · exact hfresh.revert deopt.id
      · exact hfresh

theorem Fresh.ask (hfresh : Fresh bench.dispatch cache) :
    Fresh (bench.ask reply request).2.dispatch cache := by
  have hsame : Fresh { bench with
      requests := bench.requests ++ [request] : Bench }.dispatch cache := hfresh
  exact hsame.handle _

/-- While deopts are disabled, reporting them does nothing. -/
theorem foldl_handle (bench : Bench) (hdisabled : bench.enabled = false)
    (deopts : List DequeuedDeopt) : deopts.foldl Bench.handle bench = bench := by
  induction deopts with
  | nil => rfl
  | cons deopt deopts ih =>
      rw [List.foldl_cons, Bench.handle, if_neg (by rw [hdisabled]; decide), ih]

theorem ask_of_disabled (hdisabled : bench.enabled = false) :
    (bench.ask reply request).2 =
      { bench with requests := bench.requests ++ [request] } :=
  foldl_handle { bench with requests := bench.requests ++ [request] } hdisabled _

end Asking

/-! ## Backends that serve as the plain one does -/

/-- From a state with the invariant on, the harness does to its bench what the
plain backend does. -/
def Follows (Inv : Harness → Prop) (step : Harness → Harness)
    (plain : Bench → Bench) : Prop :=
  ∀ state, Inv state →
    (step state).bench = plain state.bench ∧ Inv (step state)

section Following

variable {Inv : Harness → Prop} {step next : Harness → Harness}
variable {plain plainNext : Bench → Bench}

theorem Follows.comp (hnext : Follows Inv next plainNext)
    (hstep : Follows Inv step plain) :
    Follows Inv (fun state => next (step state))
      (fun bench => plainNext (plain bench)) := by
  intro state hinv
  obtain ⟨hbench, hafter⟩ := hstep state hinv
  obtain ⟨hlast, hlastInv⟩ := hnext (step state) hafter
  exact ⟨by rw [hlast, hbench], hlastInv⟩

theorem Follows.foldl {Item Target : Type} {resolved : Item → Target}
    {act : Harness → Target → Harness} {plainAct : Bench → Item → Bench}
    (hact : ∀ item, Follows Inv (fun state => act state (resolved item))
      (fun bench => plainAct bench item)) (items : List Item) :
    Follows Inv (fun state => (items.map resolved).foldl act state)
      (fun bench => items.foldl plainAct bench) := by
  induction items with
  | nil => exact fun state hinv => ⟨rfl, hinv⟩
  | cons item items ih => exact ih.comp (hact item)

theorem Follows.iterate (hstep : Follows Inv step plain) (count : ℕ) :
    Follows Inv step^[count] plain^[count] := by
  induction count with
  | zero => exact fun state hinv => ⟨rfl, hinv⟩
  | succ count ih =>
      intro state hinv
      rw [Function.iterate_succ_apply, Function.iterate_succ_apply]
      exact ih.comp hstep state hinv

variable {reply : List Request → Reply} {backend : Backend}
variable {resolved : Op → Op × ℕ}

/-- A backend that follows the plain one in every operation follows it in the
whole measurement. -/
theorem Follows.measure
    (hop : ∀ op, Follows Inv
      (fun state => state.runOp reply backend (resolved op))
      fun bench => bench.plainOp reply op)
    (hreclaim : ∀ slot, Follows Inv
      (fun state => state.reclaimSlot reply backend slot)
      fun bench => bench.plainReclaim reply slot)
    (hsweep : Follows Inv (fun state => state.sweep reply backend)
      fun bench => (bench.ask reply .reaperSweep).2)
    (later : ℕ) (ops : List Op) (leaked : List ℕ) :
    Follows Inv
      (fun state =>
        state.measure reply backend later (ops.map resolved) leaked)
      fun bench => bench.plainMeasure reply later ops leaked := by
  have hpass := Follows.foldl hop ops
  have hleaked := @Follows.foldl Inv ℕ ℕ id _ _ hreclaim leaked
  rw [List.map_id] at hleaked
  exact ((hleaked.comp hpass).iterate later).comp
    (hleaked.comp (hsweep.comp hpass))

end Following

section Backends

variable {reply : List Request → Reply} {dispatch : Table}

/-- The sim backend between two operations. -/
structure Ready (state : Harness) : Prop where
  guard : state.guard = false
  fresh : Fresh state.bench.dispatch state.cache

theorem Ready.release {state : Harness} (hready : Ready state) (ptr : ℕ) :
    Ready { state with bench := state.bench.release reply .sim ptr } := by
  refine ⟨hready.guard, ?_⟩
  dsimp only
  rw [Bench.release]
  split
  · exact hready.fresh
  · exact hready.fresh.ask

/-- What the cache holds after the prologue is what the table holds. -/
theorem Ready.fill {state : Harness} (hready : Ready state)
    (id : CallSiteID) :
    (state.enter.fill id).bench = state.bench ∧
      (state.enter.fill id).cache.fn = lookup state.bench.dispatch id ∧
      Fresh state.bench.dispatch (state.enter.fill id).cache := by
  rw [Harness.fill]
  split
  · next hhit =>
      refine ⟨rfl, ?_, hready.fresh⟩
      rw [hhit.1]
      exact hready.fresh.fn hhit.2.symm
  · exact ⟨rfl, rfl, le_refl _, fun _ => rfl⟩

theorem follows_sim_op (op : Op) :
    Follows Ready (fun state => state.runOp reply .sim (op, 0))
      fun bench => bench.plainOp reply op := by
  intro state hready
  cases op with
  | alloc id size slot =>
      obtain ⟨hbench, hfn, hfresh⟩ := hready.fill id
      have halloc : state.alloc reply .sim id size 0 =
          ((state.bench.ask reply
              (serve (lookup state.bench.dispatch id) size)).1,
            { state.enter.fill id with
              bench := (state.bench.ask reply
                (serve (lookup state.bench.dispatch id) size)).2
              guard := false }) := by
        rw [Harness.alloc, Harness.simAlloc, if_neg (by rw [hready.guard]; decide)]
        dsimp only
        rw [Harness.ask, hbench, hfn]
      simp only [Harness.runOp, halloc]
      exact ⟨rfl, rfl, hfresh.ask⟩
  | free slot => exact ⟨rfl, hready.release _⟩

theorem follows_sim_reclaim (slot : ℕ) :
    Follows Ready (fun state => state.reclaimSlot reply .sim slot)
      fun bench => bench.plainReclaim reply slot := by
  intro state hready
  dsimp only
  rw [Harness.reclaimSlot, Bench.plainReclaim]
  split
  · exact ⟨rfl, hready⟩
  · exact ⟨rfl, hready.guard, (hready.release _).fresh⟩

theorem follows_sim_sweep (reply : List Request → Reply) :
    Follows Ready (fun state => state.sweep reply .sim)
      fun bench => (bench.ask reply .reaperSweep).2 :=
  fun _ hready => ⟨rfl, hready.guard, hready.fresh.ask⟩

end Backends

/-! ## Deopts disabled -/

/-- Deopts are disabled and the table is the one by which the routines were
resolved. -/
structure Unchanged (dispatch : Table) (bench : Bench) : Prop where
  enabled : bench.enabled = false
  dispatch : bench.dispatch = dispatch
  queue : bench.queue = []

/-- The table stays, and these blocks are asked for. -/
def Serves (dispatch : Table) (plain : Bench → Bench)
    (requests : List Request) : Prop :=
  ∀ bench, Unchanged dispatch bench →
    Unchanged dispatch (plain bench) ∧
      (plain bench).served = bench.served ++ requests

section Serving

variable {dispatch : Table} {plain next : Bench → Bench}
variable {earlier later : List Request}

theorem serves_id (dispatch : Table) : Serves dispatch id [] :=
  fun _ hsame => ⟨hsame, (List.append_nil _).symm⟩

theorem Serves.comp (hnext : Serves dispatch next later)
    (hplain : Serves dispatch plain earlier) :
    Serves dispatch (fun bench => next (plain bench)) (earlier ++ later) := by
  intro bench hsame
  obtain ⟨hafter, hserved⟩ := hplain bench hsame
  obtain ⟨hlast, hlastServed⟩ := hnext (plain bench) hafter
  exact ⟨hlast, by rw [hlastServed, hserved, List.append_assoc]⟩

theorem Serves.foldl {Item : Type} {act : Bench → Item → Bench}
    {asked : Item → List Request}
    (hact : ∀ item, Serves dispatch (fun bench => act bench item) (asked item))
    (items : List Item) :
    Serves dispatch (fun bench => items.foldl act bench)
      (items.flatMap asked) := by
  induction items with
  | nil => exact serves_id dispatch
  | cons item items ih => exact ih.comp (hact item)

theorem Serves.iterate (hplain : Serves dispatch plain earlier) (count : ℕ) :
    Serves dispatch plain^[count] (List.replicate count earlier).flatten := by
  induction count with
  | zero => exact serves_id dispatch
  | succ count ih => exact ih.comp hplain

variable (reply : List Request → Reply)

theorem serves_ask (dispatch : Table) (request : Request) :
    Serves dispatch (fun bench => (bench.ask reply request).2)
      ([request].filter Bench.Allocates) := by
  intro bench hsame
  dsimp only
  rw [ask_of_disabled hsame.enabled]
  refine ⟨⟨hsame.enabled, hsame.dispatch, hsame.queue⟩, ?_⟩
  rw [Bench.served, Bench.served, List.filter_append]

theorem serves_release (dispatch : Table) (backend : Backend) (ptr : ℕ) :
    Serves dispatch (fun bench => bench.release reply backend ptr) [] := by
  intro bench hsame
  dsimp only
  rw [Bench.release]
  split
  · exact serves_id dispatch bench hsame
  · split
    · exact serves_ask reply dispatch (.free ptr) bench hsame
    · exact serves_ask reply dispatch (.managedAwareFree ptr) bench hsame

theorem serves_plainOp (dispatch : Table) (op : Op) :
    Serves dispatch (fun bench => bench.plainOp reply op)
      (Bench.request (lookup dispatch) op).toList := by
  intro bench hsame
  cases op with
  | alloc id size slot =>
      obtain ⟨hafter, hserved⟩ := serves_ask reply dispatch
        (serve (lookup bench.dispatch id) size) bench hsame
      refine ⟨⟨hafter.enabled, hafter.dispatch, hafter.queue⟩,
        hserved.trans ?_⟩
      rw [List.filter_singleton, allocates_serve, hsame.dispatch]
      rfl
  | free slot =>
      exact serves_release reply dispatch .sim (bench.live slot) bench hsame

theorem serves_plainReclaim (dispatch : Table) (slot : ℕ) :
    Serves dispatch (fun bench => bench.plainReclaim reply slot) [] := by
  intro bench hsame
  dsimp only
  rw [Bench.plainReclaim]
  split
  · exact serves_id dispatch bench hsame
  · obtain ⟨hafter, hserved⟩ := serves_release reply dispatch .sim
      (bench.live slot) bench hsame
    exact ⟨⟨hafter.enabled, hafter.dispatch, hafter.queue⟩, hserved⟩

/-- Every pass of the measurement asks for the same blocks. -/
theorem serves_plainMeasure (dispatch : Table) (later : ℕ) (ops : List Op)
    (leaked : List ℕ) :
    Serves dispatch (fun bench => bench.plainMeasure reply later ops leaked)
      (List.replicate (1 + later)
        (ops.filterMap (Bench.request (lookup dispatch)))).flatten := by
  have hpass : Serves dispatch
      (fun bench => ops.foldl (Bench.plainOp reply) bench)
      (ops.filterMap (Bench.request (lookup dispatch))) := by
    rw [List.filterMap_eq_flatMap_toList]
    exact Serves.foldl (serves_plainOp reply dispatch) ops
  have hleaked : Serves dispatch
      (fun bench => leaked.foldl (Bench.plainReclaim reply) bench) [] := by
    have hfold := Serves.foldl (serves_plainReclaim reply dispatch) leaked
    rwa [List.flatMap_eq_nil_iff.mpr fun _ _ => rfl] at hfold
  have hround := hleaked.comp hpass
  have hfirst := hleaked.comp
    ((serves_ask reply dispatch .reaperSweep).comp hpass)
  have hnone : [Request.reaperSweep].filter Bench.Allocates = [] := rfl
  rw [hnone, List.append_nil, List.append_nil] at hfirst
  rw [List.append_nil] at hround
  rw [Nat.add_comm, List.replicate_succ, List.flatten_cons]
  exact (hround.iterate later).comp hfirst

/-- The bound backend calls what the plain one looks up. -/
theorem follows_bound_op (op : Op) :
    Follows (fun state => Unchanged dispatch state.bench)
      (fun state => state.runOp reply .bound (resolveFn dispatch op))
      fun bench => bench.plainOp reply op := by
  intro state hsame
  have hplain := serves_plainOp reply dispatch op state.bench hsame
  cases op with
  | alloc id size slot =>
      have hbench : (state.runOp reply .bound
          (resolveFn dispatch (.alloc id size slot))).bench =
            state.bench.plainOp reply (.alloc id size slot) := by
        rw [Bench.plainOp, hsame.dispatch]
        rfl
      have hafter : Unchanged dispatch (state.runOp reply .bound
          (resolveFn dispatch (.alloc id size slot))).bench := by
        rw [hbench]
        exact hplain.1
      exact ⟨hbench, hafter⟩
  | free slot => exact ⟨rfl, hplain.1⟩

theorem follows_bound_reclaim (slot : ℕ) :
    Follows (fun state => Unchanged dispatch state.bench)
      (fun state => state.reclaimSlot reply .bound slot)
      fun bench => bench.plainReclaim reply slot := by
  intro state hsame
  have hplain := (serves_plainReclaim reply dispatch slot state.bench hsame).1
  have hbench : (state.reclaimSlot reply .bound slot).bench =
      state.bench.plainReclaim reply slot := by
    rw [Harness.reclaimSlot, Bench.plainReclaim]
    split <;> rfl
  have hafter : Unchanged dispatch
      (state.reclaimSlot reply .bound slot).bench := by
    rw [hbench]
    exact hplain
  exact ⟨hbench, hafter⟩

theorem follows_bound_sweep :
    Follows (fun state => Unchanged dispatch state.bench)
      (fun state => state.sweep reply .bound)
      fun bench => (bench.ask reply .reaperSweep).2 :=
  fun state hsame =>
    ⟨rfl, (serves_ask reply dispatch .reaperSweep state.bench hsame).1⟩

end Serving

/-- No pass reaches outside the array of slots. -/
theorem resolve_slots {events : List AllocEvent}
    (hroom : (allocs events).length < 2 ^ 32) :
    (resolve events).nAllocs = (allocs events).length ∧
      (∀ op ∈ (resolve events).ops, op.slot < (resolve events).nAllocs) ∧
      ∀ slot ∈ (resolve events).leaked, slot < (resolve events).nAllocs := by
  have hok := resolveOk_after events hroom
  exact ⟨hok.nAllocs, hok.slot_lt, fun _ hslot =>
    ResolveState.lt_of_mem_leaked hslot⟩

/-- The sim and the bound backend ask the allocators for the same, one request
after the other, and fill the same slots, all of them in the array; every pass
asks for the blocks of the trace from the routines that the learning pass left,
and no deopt is queued. -/
theorem boundBench_sim_bound {records : List EventRecord}
    (hallocs : allocs (records.map EventRecord.event) ≠ [])
    (hroom : (allocs (records.map EventRecord.event)).length < 2 ^ 32)
    (knobs : Knobs) (compile : ℕ → RoutineSpec → Option ℕ)
    (reply : List Request → Reply) (passes : ℕ) (profile : Bool) :
    ∃ learned sim bound, learningPass knobs compile records = some learned ∧
      boundBench knobs compile reply .sim passes profile records = some sim ∧
      boundBench knobs compile reply .bound passes profile records =
        some bound ∧
      sim.bench = bound.bench ∧
      bound.bench.dispatch = learned.dispatch ∧ bound.bench.queue = [] ∧
      bound.bench.served =
        (List.replicate (1 + laterPasses passes profile)
          ((resolve (records.map EventRecord.event)).ops.filterMap
            (Bench.request (lookup learned.dispatch)))).flatten ∧
      (∀ op ∈ (resolve (records.map EventRecord.event)).ops,
        op.slot < (resolve (records.map EventRecord.event)).nAllocs) ∧
      ∀ slot ∈ (resolve (records.map EventRecord.event)).leaked,
        slot < (resolve (records.map EventRecord.event)).nAllocs := by
  obtain ⟨hcount, hops, hleaked⟩ := resolve_slots hroom
  have hsome : (resolve (records.map EventRecord.event)).nAllocs ≠ 0 := by
    rw [hcount]
    exact fun hzero => hallocs (List.length_eq_zero_iff.mp hzero)
  obtain ⟨learned, hlearned, -, -, hgeneration, -⟩ :=
    learningPass_lookup knobs compile records
  have hready : Ready (.start learned.dispatch) :=
    ⟨rfl, Nat.zero_le _, fun hzero => absurd hzero hgeneration.ne⟩
  have hsame : Unchanged learned.dispatch (Harness.start learned.dispatch).bench :=
    ⟨rfl, rfl, rfl⟩
  have hsim := Follows.measure follows_sim_op follows_sim_reclaim
    (follows_sim_sweep reply) (laterPasses passes profile)
    (resolve (records.map EventRecord.event)).ops
    (resolve (records.map EventRecord.event)).leaked _ hready
  have hbound := Follows.measure (follows_bound_op reply)
    (follows_bound_reclaim reply) (follows_bound_sweep reply)
    (laterPasses passes profile)
    (resolve (records.map EventRecord.event)).ops
    (resolve (records.map EventRecord.event)).leaked _ hsame
  have hserved := (serves_plainMeasure reply learned.dispatch
    (laterPasses passes profile)
    (resolve (records.map EventRecord.event)).ops
    (resolve (records.map EventRecord.event)).leaked _ hsame).2
  refine ⟨learned, _, _, hlearned, ?_, ?_, hsim.1.trans hbound.1.symm,
    hbound.2.dispatch, hbound.2.queue, ?_, hops, hleaked⟩
  · rw [boundBench, if_neg hsome, hlearned]
    rfl
  · rw [boundBench, if_neg hsome, hlearned]
    rfl
  · rw [hbound.1]
    exact hserved

/-- Two allocations of a site, which is compiled on the second. -/
def twoAllocations : List EventRecord :=
  [⟨7, 16, 0, 1, [0, 0, 0, 0], 4096⟩, ⟨7, 16, 1, 1, [0, 0, 0, 0], 8192⟩]

/-- Every request is answered with another block, and with a deopt. -/
def reportsDeopts (requests : List Request) : Reply :=
  ⟨16 * requests.length, [⟨7, 65536, .other⟩]⟩

theorem boundBench_sim_bound_twoAllocations :
    ∃ sim bound,
      boundBench singleEventKnobs (fun _ _ => some 65536) reportsDeopts .sim 1
        false twoAllocations = some sim ∧
      boundBench singleEventKnobs (fun _ _ => some 65536) reportsDeopts .bound 1
        false twoAllocations = some bound ∧
      sim.bench = bound.bench ∧
      bound.bench.served = List.replicate 10 (.routine 65536 16) := by
  have hlearns : (learningPass singleEventKnobs (fun _ _ => some 65536)
      twoAllocations).any (fun learned =>
        lookup learned.dispatch 7 = 65536) := by
    decide +kernel
  obtain ⟨_, hpass, hroutine⟩ := (Option.any_eq_true _ _).mp hlearns
  obtain ⟨learned, sim, bound, hlearned, hsim, hbound, hsame, -, -, hserved,
      -⟩ :=
    @boundBench_sim_bound twoAllocations (by decide) (by decide)
      singleEventKnobs (fun _ _ => some 65536) reportsDeopts 1 false
  obtain rfl := Option.some.inj (hpass.symm.trans hlearned)
  refine ⟨sim, bound, hsim, hbound, hsame, hserved.trans ?_⟩
  have hops : (resolve (twoAllocations.map EventRecord.event)).ops =
      [.alloc 7 16 0, .alloc 7 16 1] := by decide
  rw [hops]
  simp [Bench.request, serve, of_decide_eq_true hroutine, laterPasses, warmup,
    List.replicate]

end TbjitAlloc.Replay
