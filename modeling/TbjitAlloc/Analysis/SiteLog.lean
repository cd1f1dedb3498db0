import TbjitAlloc.Analysis.Coverage
import TbjitAlloc.Core.MajorityVote

/-!
# What happened at a site

Beside the analyzer a log is kept for each site: the allocation events and the
free events its counters count, which of its allocations the stack tracks, and
which were popped from the top of the stack, with the free event that popped
them.  Allocations are named by their place among the site's allocation events,
so that two allocations of one address are told apart.
-/

namespace TbjitAlloc.Analysis

open CallSiteSummary (pushLifo lifoDepth sameBooks_processAlloc)
open TbjitAlloc.Codegen
open TbjitAlloc.MajorityVote
open TbjitAlloc.Transition

/-- `tracked` is the stack, oldest entry first; `popped` is in the order of the
frees. -/
structure SiteLog where
  allocs : List AllocEvent
  frees : List AllocEvent
  tracked : List ℕ
  popped : List (ℕ × AllocEvent)

namespace SiteLog

def empty : SiteLog := ⟨[], [], [], []⟩

/-- The pointer of an allocation. -/
def ptrOf (log : SiteLog) (index : ℕ) : Option ℕ :=
  (log.allocs[index]?).map AllocEvent.ptr

/-- An allocation is tracked unless it failed; the oldest gives way. -/
def observeAlloc (log : SiteLog) (event : AllocEvent) : SiteLog :=
  { log with
    allocs := log.allocs ++ [event]
    tracked :=
      if event.ptr = 0 then log.tracked
      else if log.tracked.length < lifoDepth then
        log.tracked ++ [log.allocs.length]
      else log.tracked.tail ++ [log.allocs.length] }

/-- A free that no segment claims pops the newest tracked allocation, if that
is what it frees. -/
def observeFree (log : SiteLog) (managed : Bool) (event : AllocEvent) :
    SiteLog :=
  let log := { log with frees := log.frees ++ [event] }
  match log.tracked.getLast? with
  | none => log
  | some index =>
      if managed = false ∧ log.ptrOf index = some event.ptr then
        { log with
          tracked := log.tracked.dropLast
          popped := log.popped ++ [(index, event)] }
      else log

/-- The allocations that frees made at `site` popped. -/
def poppedBy (log : SiteLog) (site : ℕ) : List ℕ :=
  (log.popped.filter fun entry => entry.2.callSite = site).map Prod.fst

/-- The sites of the frees that popped. -/
def voters (log : SiteLog) : List ℕ :=
  log.popped.map fun entry => entry.2.callSite

theorem length_poppedBy (log : SiteLog) (site : ℕ) :
    (log.poppedBy site).length = log.voters.count site := by
  rw [poppedBy, voters, List.length_map, List.count, List.countP_map,
    List.countP_eq_length_filter]
  congr 1

end SiteLog

/-! ## Logged runs -/

structure Logged where
  analyzer : Analyzer
  log : ℕ → SiteLog

namespace Logged

def initial : Logged := ⟨.empty, fun _ => .empty⟩

/-- The log of a site after a step from `before` to `after`: the event goes to
the log of the site that counts it. -/
def follow (before after : Analyzer) (log : ℕ → SiteLog) (op : StreamOp)
    (id : ℕ) : SiteLog :=
  match op with
  | .process segSite event _ =>
      if event.size = 0 then
        if (after.summaryOf id).freeCount = (before.summaryOf id).freeCount then
          log id
        else (log id).observeFree segSite.isSome event
      else if (after.summaryOf id).eventCount =
          (before.summaryOf id).eventCount then log id
      else (log id).observeAlloc event
  | .reset _ _ => log id

def after (knobs : Knobs) (state : Logged) (op : StreamOp) : Logged :=
  let next := (Tracked.apply knobs state.analyzer op).1
  ⟨next, follow state.analyzer next state.log op⟩

/-- Every call returns. -/
def step (knobs : Knobs) (state : Logged) (op : StreamOp) : Option Logged :=
  some (after knobs state op)

def afterAll (knobs : Knobs) (state : Logged) (ops : List StreamOp) : Logged :=
  ops.foldl (after knobs) state

theorem reachable_afterAll {knobs : Knobs} {start state : Logged}
    (hreach : Reachable (step knobs) start state) (ops : List StreamOp) :
    Reachable (step knobs) start (afterAll knobs state ops) := by
  induction ops generalizing state with
  | nil => exact hreach
  | cons op ops ih =>
      rw [afterAll, List.foldl_cons]
      exact ih (hreach.next rfl)

/-- The step hands a specification of this strategy for this site to the
compiler. -/
def Picks (knobs : Knobs) (state : Logged) (op : StreamOp) (id : ℕ)
    (strategy : Strategy) : Prop :=
  ∃ segSite event compile spec answer, op = .process segSite event compile ∧
    event.callSite = id ∧
    (Tracked.apply knobs state.analyzer op).2.compiled = some (spec, answer) ∧
    spec.strategy = strategy

end Logged

/-! ## One step at one site -/

section Cases

variable {knobs : Knobs} {analyzer : Analyzer} {event : AllocEvent} {id : ℕ}

theorem summaryOf_processFree_managed (analyzer : Analyzer) (site : ℕ)
    (event : AllocEvent) (id : ℕ) :
    (analyzer.processFree (some site) event).summaryOf id =
        analyzer.summaryOf id ∨
      (analyzer.processFree (some site) event).summaryOf id =
        (analyzer.summaryOf id).recordFree true event := by
  unfold Analyzer.processFree
  split
  · exact .inl rfl
  · dsimp only
    by_cases hid : id = site
    · subst hid
      rw [Analyzer.summaryOf, Analyzer.find_modify_self
        fun _ => CallSiteSummary.recordFree_id _ _ _]
      cases hslot : (analyzer.ensure id).find id with
      | none =>
          left
          rcases Analyzer.find_ensure_self analyzer id with
            hsame | ⟨-, hfresh⟩
          · rw [Analyzer.summaryOf, ← hsame, hslot]
            rfl
          · rw [hslot] at hfresh
            cases hfresh
      | some summary =>
          right
          rw [Analyzer.summaryOf_ensure hslot]
          rfl
    · left
      rw [Analyzer.summaryOf, Analyzer.find_modify_of_ne
        (fun _ => CallSiteSummary.recordFree_id _ _ _) hid,
        Analyzer.find_ensure_of_ne hid]
      rfl

/-- A free event leaves a site as it was, or counts there; if no segment claims
the block, it is on top of the site's stack. -/
theorem summaryOf_processFree_cases (analyzer : Analyzer)
    (segSite : Option ℕ) (event : AllocEvent) (id : ℕ) :
    (analyzer.processFree segSite event).summaryOf id = analyzer.summaryOf id ∨
      (analyzer.processFree segSite event).summaryOf id =
          (analyzer.summaryOf id).recordFree segSite.isSome event ∧
        (segSite = none → (analyzer.summaryOf id).lifoTop event.ptr = true) := by
  cases segSite with
  | some site =>
      exact (summaryOf_processFree_managed analyzer site event id).imp_right
        fun hfreed => ⟨hfreed,
          fun hnone => absurd hnone (Option.some_ne_none _)⟩
  | none =>
      rcases Analyzer.find_processFree_generic analyzer event id with
        hsame | ⟨summary, htop, hfind, hfreed⟩
      · exact .inl (by rw [Analyzer.summaryOf, hsame, Analyzer.summaryOf])
      · rw [Analyzer.summaryOf_of_find hfind]
        exact .inr ⟨Analyzer.summaryOf_of_find hfreed, fun _ => htop⟩

/-- What one step can do to one site and its log. -/
theorem Logged.site_cases (knobs : Knobs) (state : Logged) (op : StreamOp)
    (id : ℕ) :
    let next := Logged.after knobs state op
    (next.analyzer.summaryOf id = state.analyzer.summaryOf id ∧
      next.log id = state.log id) ∨
    (∃ segSite event compile, op = .process segSite event compile ∧
      event.callSite = id ∧
      next.analyzer.summaryOf id =
        ((state.analyzer.summaryOf id).processAlloc knobs compile event).1 ∧
      next.log id = (state.log id).observeAlloc event) ∨
    (∃ segSite event compile, op = .process segSite event compile ∧
      event.size = 0 ∧
      next.analyzer.summaryOf id =
        (state.analyzer.summaryOf id).recordFree segSite.isSome event ∧
      (segSite = none →
        (state.analyzer.summaryOf id).lifoTop event.ptr = true) ∧
      next.log id = (state.log id).observeFree segSite.isSome event) ∨
    (∃ reason, op = .reset id reason ∧
      next.analyzer.summaryOf id =
        (state.analyzer.summaryOf id).reset knobs reason ∧
      next.log id = state.log id) := by
  cases op with
  | process segSite event compile =>
      dsimp only [Logged.after, Logged.follow, Tracked.apply]
      by_cases hfree : event.size = 0
      · rw [if_pos hfree, Analyzer.processEvent, if_pos hfree]
        rcases summaryOf_processFree_cases state.analyzer segSite event id with
          hsame | ⟨hfreed, htop⟩
        · rw [hsame, if_pos rfl]
          exact .inl ⟨rfl, rfl⟩
        · have hcounted : ((state.analyzer.summaryOf id).recordFree
              segSite.isSome event).freeCount ≠
              (state.analyzer.summaryOf id).freeCount :=
            Nat.succ_ne_self _
          rw [hfreed, if_neg hcounted]
          exact .inr (.inr (.inl
            ⟨segSite, event, compile, rfl, hfree, rfl, htop, rfl⟩))
      · rw [if_neg hfree]
        by_cases hid : id = event.callSite
        · subst hid
          by_cases htracked : event.size < maxSize
          · rcases state.analyzer.summaryOf_processEvent knobs compile segSite
              hfree htracked with ⟨-, hsame, -⟩ | ⟨-, hnext, -⟩
            · rw [hsame, if_pos rfl]
              exact .inl ⟨rfl, rfl⟩
            · have hcounted : ((state.analyzer.summaryOf
                  event.callSite).processAlloc knobs compile
                    event).1.eventCount ≠
                  (state.analyzer.summaryOf event.callSite).eventCount := by
                rw [(sameBooks_processAlloc _ _ _ _).eventCount]
                exact Nat.succ_ne_self _
              rw [hnext, if_neg hcounted]
              exact .inr (.inl
                ⟨segSite, event, compile, rfl, rfl, rfl, rfl⟩)
          · rw [Analyzer.processEvent, if_neg hfree, if_pos (by omega),
              if_pos rfl]
            exact .inl ⟨rfl, rfl⟩
        · rw [Analyzer.summaryOf_processEvent_of_ne knobs compile segSite hfree
            hid, if_pos rfl]
          exact .inl ⟨rfl, rfl⟩
  | reset other reason =>
      dsimp only [Logged.after, Logged.follow, Tracked.apply]
      simp only [Analyzer.summaryOf]
      by_cases hid : id = other
      · subst hid
        rw [Analyzer.find_resetCallSite_self]
        cases state.analyzer.find id with
        | none => exact .inl ⟨rfl, trivial⟩
        | some summary => exact .inr (.inr (.inr ⟨reason, rfl, rfl, trivial⟩))
      · exact .inl ⟨by rw [Analyzer.find_resetCallSite_of_ne hid], trivial⟩

end Cases

/-! ## What a pick was made on -/

section Picks

variable {knobs : Knobs} {compile : RoutineSpec → Option ℕ}
variable {spec : RoutineSpec} {answer : Option ℕ}

/-- The two patterns that override the choice read the books alone. -/
theorem patterns_of_sameBooks {before after : CallSiteSummary}
    (hbooks : CallSiteSummary.SameBooks before after) :
    after.pairedPattern = before.pairedPattern ∧
      after.pcPattern = before.pcPattern := by
  simp only [CallSiteSummary.pairedPattern, CallSiteSummary.pcPattern,
    hbooks.eventCount, hbooks.topPair, hbooks.allocDist, hbooks.freeDist,
    and_self]

/-- A free choice of either strategy is made on its pattern. -/
theorem patterns_of_pick {summary : CallSiteSummary} {strategy : Strategy}
    (hpicked : strategy = summary.pickStrategy .generic) :
    (strategy = .pairedStack → summary.pairedPattern = true) ∧
      (strategy = .producerConsumer → summary.pcPattern = true) := by
  rw [CallSiteSummary.pickStrategy, if_neg (by decide)] at hpicked
  split at hpicked
  · next hpaired =>
      refine ⟨fun _ => hpaired, fun hother => ?_⟩
      exact absurd (hpicked.symm.trans hother) Strategy.noConfusion
  · split at hpicked
    · next hpc =>
        refine ⟨fun hother => ?_, fun _ => hpc⟩
        exact absurd (hpicked.symm.trans hother) Strategy.noConfusion
    · have hneither : strategy ≠ .pairedStack ∧
          strategy ≠ .producerConsumer := by
        rw [hpicked]
        split
        · split <;> exact ⟨Strategy.noConfusion, Strategy.noConfusion⟩
        · split <;> exact ⟨Strategy.noConfusion, Strategy.noConfusion⟩
      exact ⟨fun h => absurd h hneither.1, fun h => absurd h hneither.2⟩

theorem patterns_of_compiled {summary : CallSiteSummary} {event : AllocEvent}
    (hforced : knobs.forced = .generic)
    (hcompiled : (summary.processAlloc knobs compile event).2.compiled =
      some (spec, answer)) :
    let next := (summary.processAlloc knobs compile event).1
    (spec.strategy = .pairedStack → next.pairedPattern = true) ∧
      (spec.strategy = .producerConsumer → next.pcPattern = true) := by
  dsimp only
  rw [CallSiteSummary.processAlloc, CallSiteSummary.recordSize] at hcompiled ⊢
  split at hcompiled
  · next hphase =>
      rw [if_pos hphase]
      dsimp only at hcompiled ⊢
      split at hcompiled
      · next hfull =>
          rw [if_pos hfull]
          obtain ⟨-, hstrategy, -⟩ := spec_of_compiled hcompiled
          have hbooks := patterns_of_sameBooks
            (CallSiteSummary.sameBooks_advancePrespec knobs compile
              ((summary.recordAlloc event).recordActive event.size))
          rw [hbooks.1, hbooks.2]
          rw [hforced] at hstrategy
          have hpatterns := patterns_of_pick hstrategy
          exact hpatterns
      · cases hcompiled
  · dsimp only at hcompiled
    split at hcompiled
    · rw [(checkPostspec_eq _).2] at hcompiled
      cases hcompiled
    · cases hcompiled

/-- The patterns as the site's summary has them afterwards. -/
theorem Logged.patterns_of_picks {state : Logged} {op : StreamOp} {id : ℕ}
    {strategy : Strategy} (hforced : knobs.forced = .generic)
    (hpicks : Logged.Picks knobs state op id strategy) :
    let next := (Logged.after knobs state op).analyzer.summaryOf id
    (strategy = .pairedStack → next.pairedPattern = true) ∧
      (strategy = .producerConsumer → next.pcPattern = true) := by
  obtain ⟨segSite, event, compile, spec, answer, rfl, rfl, hcompiled, rfl⟩ :=
    hpicks
  dsimp only [Logged.after]
  rw [Tracked.apply] at hcompiled ⊢
  by_cases hfree : event.size = 0
  · rw [Analyzer.processEvent, if_pos hfree] at hcompiled
    cases hcompiled
  · by_cases htracked : event.size < maxSize
    · rcases state.analyzer.summaryOf_processEvent knobs compile segSite hfree
        htracked with ⟨-, -, hcalls⟩ | ⟨-, hnext, hcalls⟩
      · rw [hcalls] at hcompiled
        cases hcompiled
      · rw [hcalls] at hcompiled
        rw [hnext]
        exact patterns_of_compiled hforced hcompiled
    · rw [Analyzer.processEvent, if_neg hfree, if_pos (by omega)] at hcompiled
      cases hcompiled

end Picks

/-! ## The counters count the log -/

/-- The distribution of a list of events. -/
def distOf (events : List AllocEvent) : ThreadDist :=
  (events.map AllocEvent.threadId).foldl ThreadDist.record ⟨0, 0, 0⟩

theorem distOf_append (events : List AllocEvent) (event : AllocEvent) :
    distOf (events ++ [event]) = (distOf events).record event.threadId := by
  rw [distOf, List.map_append, List.foldl_append]
  rfl

/-- What ties a summary to its log: the counters and distributions are those of
the events, the stack holds the pointers of the tracked allocations, and no
allocation is tracked or popped twice. -/
structure LogOk (summary : CallSiteSummary) (log : SiteLog) : Prop where
  eventCount : summary.eventCount = log.allocs.length
  allocDist : summary.allocDist = distOf log.allocs
  freeDist : summary.freeDist = distOf log.frees
  stack : summary.lifoStack.map some = log.tracked.map log.ptrOf
  distinct : (log.tracked ++ log.popped.map Prod.fst).Nodup
  inside : ∀ index ∈ log.tracked ++ log.popped.map Prod.fst,
    index < log.allocs.length

section Invariant

variable {knobs : Knobs} {summary : CallSiteSummary} {log : SiteLog}
variable {event : AllocEvent}

theorem logOk_fresh (id : ℕ) : LogOk (.fresh id) .empty where
  eventCount := rfl
  allocDist := rfl
  freeDist := rfl
  stack := rfl
  distinct := List.nodup_nil
  inside := fun _ hmem => absurd hmem List.not_mem_nil

theorem LogOk.length_tracked (hok : LogOk summary log) :
    log.tracked.length = summary.lifoStack.length := by
  have hlength := congrArg List.length hok.stack
  rw [List.length_map, List.length_map] at hlength
  exact hlength.symm

/-- The tracked allocations after one more, by their pointers. -/
theorem LogOk.stack_observeAlloc (hok : LogOk summary log) :
    (pushLifo summary.lifoStack event.ptr).map some =
      (log.observeAlloc event).tracked.map
        (log.observeAlloc event).ptrOf := by
  have hold : ∀ index ∈ log.tracked,
      (log.observeAlloc event).ptrOf index = log.ptrOf index := by
    intro index hmem
    have hindex := hok.inside index (List.mem_append_left _ hmem)
    rw [SiteLog.ptrOf, SiteLog.ptrOf]
    exact congrArg _ (List.getElem?_append_left hindex)
  have hnew : (log.observeAlloc event).ptrOf log.allocs.length =
      some event.ptr := by
    rw [SiteLog.ptrOf]
    exact congrArg (Option.map AllocEvent.ptr) List.getElem?_concat_length
  have hkept : log.tracked.map (log.observeAlloc event).ptrOf =
      summary.lifoStack.map some := by
    rw [hok.stack]
    exact List.map_congr_left hold
  rw [pushLifo, SiteLog.observeAlloc]
  dsimp only
  rw [hok.length_tracked]
  split
  · exact hkept.symm
  · split
    · rw [List.map_append, List.map_append, ← hkept]
      exact congrArg _ (congrArg (fun ptr => [ptr]) hnew.symm)
    · rw [List.map_append, List.map_append, List.map_tail, ← hkept,
        List.map_tail]
      exact congrArg _ (congrArg (fun ptr => [ptr]) hnew.symm)

/-- An allocation that is processed. -/
theorem LogOk.processAlloc (hok : LogOk summary log) (event : AllocEvent)
    (compile : RoutineSpec → Option ℕ) :
    LogOk (summary.processAlloc knobs compile event).1
      (log.observeAlloc event) := by
  have hbooks := sameBooks_processAlloc knobs compile summary event
  have hsublist : ((log.observeAlloc event).tracked).Sublist
      (log.tracked ++ [log.allocs.length]) := by
    rw [SiteLog.observeAlloc]
    dsimp only
    split
    · exact List.sublist_append_left _ _
    · split
      · exact List.Sublist.refl _
      · exact (List.tail_sublist _).append_right _
  have hfresh : log.allocs.length ∉
      log.tracked ++ log.popped.map Prod.fst := fun hmem =>
    absurd (hok.inside _ hmem) (Nat.lt_irrefl _)
  have hall : ((log.tracked ++ [log.allocs.length]) ++
      log.popped.map Prod.fst).Perm
        (log.allocs.length :: (log.tracked ++ log.popped.map Prod.fst)) := by
    rw [List.append_assoc]
    exact List.perm_middle
  constructor
  · rw [hbooks.eventCount]
    change summary.eventCount + 1 = (log.allocs ++ [event]).length
    rw [hok.eventCount, List.length_append, List.length_singleton]
  · rw [hbooks.allocDist]
    change summary.allocDist.record event.threadId =
      distOf (log.allocs ++ [event])
    rw [hok.allocDist, distOf_append]
  · rw [hbooks.freeDist]
    exact hok.freeDist
  · rw [hbooks.lifoStack]
    exact hok.stack_observeAlloc
  · have hnodup := hall.nodup_iff.mpr (List.nodup_cons.mpr
      ⟨hfresh, hok.distinct⟩)
    exact hnodup.sublist (hsublist.append_right _)
  · intro index hmem
    have hmem := (hsublist.append_right _).subset hmem
    change index < (log.allocs ++ [event]).length
    rw [List.length_append, List.length_singleton]
    rcases List.mem_cons.mp (hall.mem_iff.mp hmem) with rfl | hold
    · exact Nat.lt_succ_self _
    · exact Nat.lt_succ_of_lt (hok.inside index hold)

/-- A free that no segment claims pops the newest tracked allocation. -/
theorem LogOk.observeFree_of_top (hok : LogOk summary log)
    (htop : summary.lifoTop event.ptr = true) :
    ∃ rest index, log.tracked = rest ++ [index] ∧
      log.observeFree false event =
        { log with
          frees := log.frees ++ [event]
          tracked := rest
          popped := log.popped ++ [(index, event)] } := by
  rw [CallSiteSummary.lifoTop, decide_eq_true_eq] at htop
  have hptr : (log.tracked.map log.ptrOf).getLast? = some (some event.ptr) := by
    rw [← hok.stack, List.getLast?_map, htop, Option.map_some]
  rw [List.getLast?_map, Option.map_eq_some_iff] at hptr
  obtain ⟨index, hlast, hptr⟩ := hptr
  obtain ⟨rest, hrest⟩ := List.getLast?_eq_some_iff.mp hlast
  refine ⟨rest, index, hrest, ?_⟩
  rw [SiteLog.observeFree]
  dsimp only
  rw [hlast]
  dsimp only
  rw [if_pos ⟨rfl, hptr⟩, hrest, List.dropLast_concat]

theorem observeFree_managed (log : SiteLog) (event : AllocEvent) :
    log.observeFree true event = { log with frees := log.frees ++ [event] } := by
  rw [SiteLog.observeFree]
  dsimp only
  split
  · rfl
  · exact if_neg fun hpops => Bool.noConfusion hpops.1

/-- A free that is counted. -/
theorem LogOk.recordFree (hok : LogOk summary log) (managed : Bool)
    (htop : managed = false → summary.lifoTop event.ptr = true) :
    LogOk (summary.recordFree managed event)
      (log.observeFree managed event) := by
  have hdist : summary.freeDist.record event.threadId =
      distOf (log.frees ++ [event]) := by
    rw [hok.freeDist, distOf_append]
  cases managed with
  | true =>
      rw [observeFree_managed]
      refine ⟨hok.eventCount, hok.allocDist, hdist, ?_, hok.distinct,
        hok.inside⟩
      have hkept : (summary.recordFree true event).lifoStack =
          summary.lifoStack := by
        simp [CallSiteSummary.recordFree]
      rw [hkept]
      exact hok.stack
  | false =>
      obtain ⟨rest, index, hrest, hlog⟩ := hok.observeFree_of_top (htop rfl)
      rw [hlog]
      have hpopped : (summary.recordFree false event).lifoStack =
          summary.lifoStack.dropLast := by
        rw [CallSiteSummary.recordFree]
        exact if_pos ⟨Bool.false_ne_true, htop rfl⟩
      have hmoved : (rest ++ (log.popped ++ [(index, event)]).map
          Prod.fst).Perm (log.tracked ++ log.popped.map Prod.fst) := by
        rw [hrest, List.map_append, List.append_assoc]
        exact List.perm_append_comm.append_left _
      refine ⟨hok.eventCount, hok.allocDist, hdist, ?_, ?_, ?_⟩
      · rw [hpopped, List.map_dropLast, hok.stack, hrest, List.map_append,
          List.map_singleton, List.dropLast_concat]
        rfl
      · exact hmoved.nodup_iff.mpr hok.distinct
      · exact fun index hmem => hok.inside index (hmoved.mem_iff.mp hmem)

theorem LogOk.reset (hok : LogOk summary log) (reason : DeoptReason) :
    LogOk (summary.reset knobs reason) log :=
  ⟨hok.eventCount, hok.allocDist, hok.freeDist, hok.stack, hok.distinct,
    hok.inside⟩

/-- Every site's log is in step with its summary. -/
def LogsOk (state : Logged) : Prop :=
  ∀ id, LogOk (state.analyzer.summaryOf id) (state.log id)

theorem logsOk_step {state target : Logged} {op : StreamOp}
    (hok : LogsOk state) (hstep : Logged.step knobs state op = some target) :
    LogsOk target := by
  obtain rfl := Option.some.inj hstep
  intro id
  rcases Logged.site_cases knobs state op id with
    ⟨hsummary, hlog⟩ |
    ⟨segSite, event, compile, -, -, hsummary, hlog⟩ |
    ⟨segSite, event, compile, -, -, hsummary, htop, hlog⟩ |
    ⟨reason, -, hsummary, hlog⟩
  · rw [hsummary, hlog]
    exact hok id
  · rw [hsummary, hlog]
    exact (hok id).processAlloc event compile
  · rw [hsummary, hlog]
    refine (hok id).recordFree segSite.isSome fun hnone => htop ?_
    exact Option.not_isSome_iff_eq_none.mp (Bool.eq_false_iff.mp hnone)
  · rw [hsummary, hlog]
    exact (hok id).reset reason

theorem logsOk_reachable {state : Logged}
    (hreach : Reachable (Logged.step knobs) .initial state) : LogsOk state := by
  have hinitial : LogsOk .initial := fun id => logOk_fresh id
  exact hreach.invariant hinitial fun _ _ _ hok hstep => logsOk_step hok hstep

end Invariant

end TbjitAlloc.Analysis
