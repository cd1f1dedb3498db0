import TbjitAlloc.Trace.Capture
import TbjitAlloc.Analysis.OracleBound

/-!
# Replaying a trace

The replay tool feeds the records of a trace file to `process_event`.  The table
considered here is the one these calls leave by themselves: no segment is the
caller's, so that a free is looked for on the sites' stacks, and nothing resets a
site.  The tool is linked with the trampoline, which puts the tool's own
allocations beside them; these are left out.

A run that was captured without specializing, as under `TBJIT_TRACE_ONLY`, is
reproduced: the sites, their counts and what is remembered of their threads and
blocks come out the same under any settings, and the whole table of sites under
the settings of the run.
-/

namespace TbjitAlloc.Trace

open TbjitAlloc.Analysis
open TbjitAlloc.Analysis.CallSiteSummary (SameBooks)
open TbjitAlloc.Codegen
open TbjitAlloc.Records

/-! ## The tool -/

/-- The loop over `argv[1..]`; `none` is a usage error. -/
def parseArgs (path : Option String) (oracle : Bool) :
    List String → Option (String × Bool)
  | [] => path.map fun path => (path, oracle)
  | arg :: args =>
      if arg = "--oracle" then parseArgs path true args
      else if path.isNone then parseArgs (some arg) oracle args
      else none

/-- The table that `process_event` leaves, called on the records and on nothing
else; `compile` answers by position. -/
def replayEvents (knobs : Knobs) (compile : ℕ → RoutineSpec → Option ℕ)
    (records : List EventRecord) : Analyzer :=
  (EventCall.run knobs
    (answered compile (records.map fun record => (none, record.event)))).1

/-- How `main` ends.  `replayed` has the records it hands to `process_event` and
the mode it sets before. -/
inductive ReplayResult
  | usage
  | openFailed (path : String)
  | unreadable (error : TraceError)
  | replayed (records : List EventRecord) (oracle : Bool)

/-- The exit status. -/
def ReplayResult.status : ReplayResult → ℕ
  | .replayed _ _ => 0
  | _ => 1

/-- What an error prints, after the tool's name. -/
def ReplayResult.message (argv0 : String) : ReplayResult → String
  | .usage => "usage: " ++ argv0 ++ " <trace-file> [--oracle]\n"
  | .openFailed path => "replay: open " ++ path ++ " failed\n"
  | .unreadable error => error.replayMessage
  | .replayed _ _ => ""

/-- `main` of the replay tool up to the calls of `process_event`, given the files
that can be opened. -/
def replayMain (fopen : String → Option Bytes) (args : List String) :
    ReplayResult :=
  match parseArgs none false args with
  | none => .usage
  | some (path, oracle) =>
      match fopen path with
      | none => .openFailed path
      | some file =>
          match readTrace file with
          | .error error => .unreadable error
          | .ok records => .replayed records oracle

/-- The flag may stand anywhere and more than once; apart from it there is
exactly one argument. -/
theorem parseArgs_eq_some_iff {args : List String} {path : String}
    {oracle : Bool} :
    parseArgs none false args = some (path, oracle) ↔
      args.filter (fun arg => arg ≠ "--oracle") = [path] ∧
        oracle = decide ("--oracle" ∈ args) := by
  suffices hany : ∀ (args : List String) (start : Option String) (on : Bool),
      parseArgs start on args = some (path, oracle) ↔
        start.toList ++ args.filter (fun arg => arg ≠ "--oracle") = [path] ∧
          oracle = (on || decide ("--oracle" ∈ args)) by
    simpa using hany args none false
  intro args
  induction args with
  | nil =>
      intro start on
      cases start with
      | none => simp [parseArgs]
      | some start => simp [parseArgs, eq_comm]
  | cons arg args ih =>
      intro start on
      rw [parseArgs]
      by_cases hflag : arg = "--oracle"
      · subst hflag
        rw [if_pos rfl, ih]
        simp
      · rw [if_neg hflag]
        cases start with
        | none =>
            rw [if_pos Option.isNone_none, ih]
            simp [hflag, Ne.symm hflag]
        | some start =>
            rw [if_neg (by rw [Option.isNone_some]; decide)]
            simp [hflag]

/-! ## Runs that do not specialize -/

section TraceOnly

variable {knobs knobs' : Knobs} {compile compile' : RoutineSpec → Option ℕ}
variable {online oracle : CallSiteSummary} {left right : Analyzer}

/-- Under `TBJIT_TRACE_ONLY` the code generator is not called. -/
theorem processAlloc_traceOnly (honly : knobs.traceOnly = true)
    (compile compile' : RoutineSpec → Option ℕ) (summary : CallSiteSummary)
    (event : AllocEvent) :
    summary.processAlloc knobs compile event =
        summary.processAlloc knobs compile' event ∧
      (summary.processAlloc knobs compile event).2.compiled = none := by
  unfold CallSiteSummary.processAlloc CallSiteSummary.recordSize
    CallSiteSummary.advancePrespec CallSiteSummary.checkPostspec
  rw [honly]
  simp only [Bool.or_true, if_true]
  refine ⟨trivial, ?_⟩
  split
  · split
    · split
      · split <;> rfl
      · rfl
    · rfl
  · split
    · split
      · rfl
      · split <;> rfl
    · rfl

theorem process_traceOnly (honly : knobs.traceOnly = true)
    (compile compile' : RoutineSpec → Option ℕ) (analyzer : Analyzer)
    (segSite : Option ℕ) (event : AllocEvent) :
    analyzer.processEvent knobs compile segSite event =
        analyzer.processEvent knobs compile' segSite event ∧
      (analyzer.processEvent knobs compile segSite event).2.compiled = none := by
  have hsame : (fun summary : CallSiteSummary =>
      summary.processAlloc knobs compile event) =
        fun summary => summary.processAlloc knobs compile' event :=
    funext fun summary =>
      (processAlloc_traceOnly honly compile compile' summary event).1
  unfold Analyzer.processEvent
  split
  · exact ⟨rfl, rfl⟩
  · split
    · exact ⟨rfl, rfl⟩
    · dsimp only
      split
      · exact ⟨rfl, rfl⟩
      · next summary _ =>
          refine ⟨?_, (processAlloc_traceOnly honly compile compile' summary
            event).2⟩
          simp only [fun summary => congrFun hsame summary]

/-! ## The books under any settings -/

theorem respectsKeys_sameBooks : RespectsKeys SameBooks :=
  fun _ _ hbooks => ⟨hbooks.id.symm, hbooks.lifoStack.symm⟩

theorem sameBooks_refl (summary : CallSiteSummary) :
    SameBooks summary summary :=
  ⟨rfl, rfl, rfl, rfl, rfl, rfl, rfl, rfl⟩

theorem sameBooks_processAlloc_any (hbooks : SameBooks online oracle)
    (event : AllocEvent) :
    SameBooks (online.processAlloc knobs compile event).1
      (oracle.processAlloc knobs' compile' event).1 :=
  sameBooks_trans
    (sameBooks_symm
      (CallSiteSummary.sameBooks_processAlloc knobs compile online event))
    (sameBooks_trans (sameBooks_recordAlloc hbooks event)
      (CallSiteSummary.sameBooks_processAlloc knobs' compile' oracle event))

theorem sameBooks_recordFree (hbooks : SameBooks online oracle)
    (managed : Bool) (event : AllocEvent) :
    SameBooks (online.recordFree managed event)
      (oracle.recordFree managed event) := by
  have htop : oracle.lifoTop event.ptr = online.lifoTop event.ptr := by
    rw [CallSiteSummary.lifoTop, CallSiteSummary.lifoTop, hbooks.lifoStack]
  refine ⟨hbooks.id, hbooks.eventCount, ?_, hbooks.deoptCount,
    hbooks.allocDist, ?_, ?_, ?_⟩
  · exact congrArg (· + 1) hbooks.freeCount
  · exact congrArg (fun dist => dist.record event.threadId) hbooks.freeDist
  · simp only [CallSiteSummary.recordFree, htop, hbooks.lifoStack]
  · simp only [CallSiteSummary.recordFree, CallSiteSummary.freedPair, htop,
      hbooks.topPair]

/-- One event, processed under two settings. -/
theorem sameBooks_process (hcoupled : Coupled SameBooks left right)
    (segSite : Option ℕ) (event : AllocEvent) :
    Coupled SameBooks
      (EventCall.process knobs left ⟨segSite, event, compile⟩).1
      (EventCall.process knobs' right ⟨segSite, event, compile'⟩).1 := by
  have hfresh : ∀ id, left.find id = none →
      left.summaries.length < maxCallSites →
        SameBooks (.fresh id) (.fresh id) :=
    fun id _ _ => sameBooks_refl (.fresh id)
  by_cases hfree : event.size = 0
  · rw [process_of_free _ _ hfree, process_of_free _ _ hfree]
    exact hcoupled.processFree respectsKeys_sameBooks segSite event hfresh
      fun managed _ _ hbooks => sameBooks_recordFree hbooks managed event
  · by_cases htracked : event.size < maxSize
    · exact hcoupled.processAlloc respectsKeys_sameBooks rfl ⟨hfree, htracked⟩
        ⟨hfree, htracked⟩ hfresh
        (fun _ _ hbooks _ => sameBooks_processAlloc_any hbooks event)
        fun _ _ hbooks _ => hbooks
    · rw [process_of_untracked _ _ (Nat.not_lt.mp htracked),
        process_of_untracked _ _ (Nat.not_lt.mp htracked)]
      exact hcoupled

theorem totalEvents_eq (hcoupled : Coupled SameBooks left right) :
    left.capturable.totalEvents = right.capturable.totalEvents := by
  have hcounts : left.summaries.map CallSiteSummary.eventCount =
      right.summaries.map CallSiteSummary.eventCount := by
    rw [← List.forall₂_eq_eq_eq, List.forall₂_map_left_iff,
      List.forall₂_map_right_iff]
    exact hcoupled.related.imp fun _ _ hbooks => hbooks.eventCount.symm
  rw [Analyzer.capturable, Analyzer.capturable, hcounts]

end TraceOnly

/-! ## The capturing process -/

theorem replayEvents_append (knobs : Knobs)
    (compile : ℕ → RoutineSpec → Option ℕ) (records : List EventRecord)
    (record : EventRecord) :
    replayEvents knobs compile (records ++ [record]) =
      (EventCall.process knobs (replayEvents knobs compile records)
        ⟨none, record.event, compile records.length⟩).1 := by
  rw [replayEvents, List.map_append, List.map_singleton, answered_append,
    EventCall.run_append, List.length_map]
  rfl

namespace Process

/-- The records of the events handled. -/
def handled (proc : Process) : List EventRecord :=
  proc.processed.map Prod.snd

/-- What a step does to the table of sites: nothing, restart a site that had a
routine, or process an event. -/
theorem step_cases {knobs : Knobs} {proc target : Process} {move : Move}
    (hstep : proc.step knobs move = some target) :
    (target.analyzer = proc.analyzer ∧ target.installed = proc.installed ∧
      target.processed = proc.processed) ∨
    (∃ id ∈ proc.installed, target.installed = proc.installed) ∨
    ∃ (tid : ℕ) (event : AllocEvent) (chance : Chance),
      (∀ site ∈ chance.segSite, site ∈ proc.installed) ∧
      target.analyzer = (proc.analyzer.processEvent knobs chance.compile
        chance.segSite event).1 ∧
      target.installed = (installedSite (proc.analyzer.processEvent knobs
        chance.compile chance.segSite event).2).toList ++ proc.installed ∧
      target.processed = proc.processed ++ [(tid, chance.record event)] := by
  have hquiet : ∀ {guard : Prop} [Decidable guard] {next : Process},
      (if guard then some next else none) = some target →
        next.analyzer = proc.analyzer → next.installed = proc.installed →
          next.processed = proc.processed →
            target.analyzer = proc.analyzer ∧
              target.installed = proc.installed ∧
              target.processed = proc.processed := by
    intro guard _ next hnext hanalyzer hinstalled hprocessed
    split at hnext
    · obtain rfl := Option.some.inj hnext
      exact ⟨hanalyzer, hinstalled, hprocessed⟩
    · cases hnext
  cases move with
  | enter tid => exact .inl (hquiet hstep rfl rfl rfl)
  | leave tid => exact .inl (hquiet hstep rfl rfl rfl)
  | register tid => exact .inl (hquiet hstep rfl rfl rfl)
  | push tid call =>
      change proc.push tid call = some target at hstep
      unfold push at hstep
      split at hstep
      · obtain ⟨channel, -, rfl⟩ := Option.map_eq_some_iff.mp hstep
        exact .inl ⟨rfl, rfl, rfl⟩
      · cases hstep
  | pushStep tid =>
      obtain ⟨outcome, -, rfl⟩ := Option.map_eq_some_iff.mp hstep
      exact .inl ⟨rfl, rfl, rfl⟩
  | openFile start => exact .inl (hquiet hstep rfl rfl rfl)
  | enable => exact .inl (hquiet hstep rfl rfl rfl)
  | shutDown => exact .inl (hquiet hstep rfl rfl rfl)
  | stop => exact .inl (hquiet hstep rfl rfl rfl)
  | close => exact .inl (hquiet hstep rfl rfl rfl)
  | reset id reason =>
      change proc.reset knobs id reason = some target at hstep
      unfold reset at hstep
      split at hstep
      · split at hstep
        · next hinstalled =>
            obtain rfl := Option.some.inj hstep
            exact .inr (.inl ⟨id, hinstalled, rfl⟩)
        · cases hstep
      · cases hstep
  | collect park chance =>
      change proc.collect knobs park chance = some target at hstep
      unfold collect at hstep
      split at hstep
      · obtain rfl := Option.some.inj hstep
        exact .inl ⟨rfl, rfl, rfl⟩
      · obtain rfl := Option.some.inj hstep
        exact .inl ⟨rfl, rfl, rfl⟩
      · obtain rfl := Option.some.inj hstep
        exact .inl ⟨rfl, rfl, rfl⟩
      · next tid rest _ =>
          unfold drainStep at hstep
          dsimp only at hstep
          split at hstep
          · obtain rfl := Option.some.inj hstep
            exact .inl ⟨rfl, rfl, rfl⟩
          · obtain rfl := Option.some.inj hstep
            exact .inl ⟨rfl, rfl, rfl⟩
          · next event _ =>
              split at hstep
              · next hsite =>
                  obtain rfl := Option.some.inj hstep
                  exact .inr (.inr ⟨tid, event, chance, hsite, rfl, rfl, rfl⟩)
              · cases hstep
      · obtain rfl := Option.some.inj hstep
        exact .inl ⟨rfl, rfl, rfl⟩
      · obtain rfl := Option.some.inj hstep
        exact .inl ⟨rfl, rfl, rfl⟩
      · cases hstep

end Process

/-- Until a routine is installed, a replay keeps the books of the process. -/
def Reproduced (knobs' : Knobs) (compile : ℕ → RoutineSpec → Option ℕ)
    (proc : Process) : Prop :=
  proc.installed = [] →
    Coupled SameBooks proc.analyzer (replayEvents knobs' compile proc.handled)

/-- A process that only captures installs nothing, and a replay under its
settings leaves its table. -/
structure CaptureOnly (knobs : Knobs) (compile : ℕ → RoutineSpec → Option ℕ)
    (proc : Process) : Prop where
  installed : proc.installed = []
  analyzer : replayEvents knobs compile proc.handled = proc.analyzer

section Runs

variable {knobs knobs' : Knobs} {compile : ℕ → RoutineSpec → Option ℕ}
variable {proc target : Process} {bytes : Bytes}

theorem Reproduced.step (hinv : Reproduced knobs' compile proc) {move : Move}
    (hstep : proc.step knobs move = some target) :
    Reproduced knobs' compile target := by
  intro hnone
  rcases Process.step_cases hstep with ⟨hanalyzer, hinstalled, hprocessed⟩ |
    ⟨id, hid, hinstalled⟩ |
    ⟨tid, event, chance, hsite, hanalyzer, hinstalled, hprocessed⟩
  · rw [hanalyzer, Process.handled, hprocessed]
    exact hinv (hinstalled ▸ hnone)
  · rw [hinstalled] at hnone
    rw [hnone] at hid
    exact absurd hid List.not_mem_nil
  · rw [hinstalled] at hnone
    have hbefore := (List.append_eq_nil_iff.mp hnone).2
    have hgeneric : chance.segSite = none :=
      Option.eq_none_iff_forall_not_mem.mpr fun site hmem =>
        absurd (hsite site hmem) (by rw [hbefore]; exact List.not_mem_nil)
    rw [hanalyzer, Process.handled, hprocessed, List.map_append,
      List.map_singleton, replayEvents_append, hgeneric]
    exact sameBooks_process (hinv hbefore) none event

theorem reproduced_of_reachable
    (hreach : Transition.Reachable (Process.step knobs) .initial proc)
    (knobs' : Knobs) (compile : ℕ → RoutineSpec → Option ℕ) :
    Reproduced knobs' compile proc :=
  hreach.invariant (fun _ => ⟨.nil, List.nodup_nil⟩)
    fun _ _ _ hinv hstep => hinv.step hstep

theorem CaptureOnly.step (honly : knobs.traceOnly = true)
    (hinv : CaptureOnly knobs compile proc) {move : Move}
    (hstep : proc.step knobs move = some target) :
    CaptureOnly knobs compile target := by
  rcases Process.step_cases hstep with ⟨hanalyzer, hinstalled, hprocessed⟩ |
    ⟨id, hid, -⟩ |
    ⟨tid, event, chance, hsite, hanalyzer, hinstalled, hprocessed⟩
  · refine ⟨hinstalled.trans hinv.installed, ?_⟩
    rw [hanalyzer, Process.handled, hprocessed]
    exact hinv.analyzer
  · rw [hinv.installed] at hid
    exact absurd hid List.not_mem_nil
  · have hgeneric : chance.segSite = none :=
      Option.eq_none_iff_forall_not_mem.mpr fun site hmem =>
        absurd (hsite site hmem)
          (by rw [hinv.installed]; exact List.not_mem_nil)
    obtain ⟨hanswer, hcompiled⟩ := process_traceOnly honly chance.compile
      (compile proc.handled.length) proc.analyzer chance.segSite event
    refine ⟨?_, ?_⟩
    · rw [hinstalled, installedSite, hcompiled, hinv.installed]
      rfl
    · rw [hanalyzer, hanswer, Process.handled, hprocessed, List.map_append,
        List.map_singleton, replayEvents_append]
      change (EventCall.process knobs (replayEvents knobs compile
        proc.handled) _).1 = _
      rw [hinv.analyzer, hgeneric]
      rfl

theorem captureOnly_of_reachable (honly : knobs.traceOnly = true)
    (hreach : Transition.Reachable (Process.step knobs) .initial proc)
    (compile : ℕ → RoutineSpec → Option ℕ) :
    CaptureOnly knobs compile proc :=
  hreach.invariant ⟨rfl, rfl⟩ fun _ _ _ hinv hstep => hinv.step honly hstep

/-- A run in which no routine has been installed is reproduced from its trace,
whenever it ended.  The tool finds every event the process handled, and under any
settings `process_event`, fed these records, arrives at the same sites in the same
order with the same books, so that the total of the oracle is that of the run. -/
theorem replayMain_captured
    (hreach : Transition.Reachable (Process.step knobs) .initial proc)
    (hnone : proc.installed = []) (hfile : proc.file = some bytes)
    {fopen : String → Option Bytes} {args : List String} {path : String}
    (hargs : args.filter (fun arg => arg ≠ "--oracle") = [path])
    (hopen : fopen path = some bytes) :
    replayMain fopen args =
        .replayed proc.handled (decide ("--oracle" ∈ args)) ∧
      ∀ (knobs' : Knobs) (compile : ℕ → RoutineSpec → Option ℕ),
        Coupled SameBooks proc.analyzer
          (replayEvents knobs' compile proc.handled) ∧
        (replayEvents knobs' compile proc.handled).capturable.totalEvents =
          proc.analyzer.capturable.totalEvents := by
  have hparsed := parseArgs_eq_some_iff.mpr ⟨hargs, rfl⟩
  have hread := (captured_of_reachable hreach).readTrace_eq hfile
  refine ⟨?_, fun knobs' compile => ?_⟩
  · rw [replayMain, hparsed]
    dsimp only
    rw [hopen]
    dsimp only
    rw [hread]
    rfl
  · have hbooks := reproduced_of_reachable hreach knobs' compile hnone
    exact ⟨hbooks, (totalEvents_eq hbooks).symm⟩

/-- The run of two threads. -/
theorem replayMain_captured_twoThreads :
    ∃ proc bytes,
      Transition.run (Process.step sixEventKnobs) .initial twoThreads =
        some proc ∧
      replayMain (fun _ => some bytes) ["--oracle", "run.trace"] =
        .replayed twoThreadsRecords true ∧
      (replayEvents (sixEventKnobs.setOracleMode true) (fun _ _ => some 4096)
          twoThreadsRecords).capturable.totalEvents =
        proc.analyzer.capturable.totalEvents := by
  have hrun : (Transition.run (Process.step sixEventKnobs) .initial
      twoThreads).any (fun proc => proc.file.isSome ∧ proc.installed = [] ∧
        proc.handled = twoThreadsRecords) := by
    decide +kernel
  obtain ⟨proc, hproc, hends⟩ := (Option.any_eq_true _ _).mp hrun
  obtain ⟨hfile, hnone, hhandled⟩ := of_decide_eq_true hends
  obtain ⟨bytes, hbytes⟩ := Option.isSome_iff_exists.mp hfile
  let fopen : String → Option Bytes := fun _ => some bytes
  have hargs : ["--oracle", "run.trace"].filter
      (fun arg => arg ≠ "--oracle") = ["run.trace"] := by decide
  have hopen : fopen "run.trace" = some bytes := rfl
  obtain ⟨hreplayed, hbooks⟩ := replayMain_captured
    (Transition.reachable_of_run .start hproc) hnone hbytes hargs hopen
  rw [hhandled] at hreplayed hbooks
  exact ⟨proc, bytes, hproc, hreplayed, (hbooks _ _).2⟩

/-- A run under `TBJIT_TRACE_ONLY` specializes nothing, and the records of its
trace, processed under its own settings, leave exactly its table of sites. -/
theorem replayEvents_traceOnly (honly : knobs.traceOnly = true)
    (hreach : Transition.Reachable (Process.step knobs) .initial proc)
    (hfile : proc.file = some bytes)
    (compile : ℕ → RoutineSpec → Option ℕ) :
    proc.installed = [] ∧
      (readTrace bytes).map (replayEvents knobs compile) =
        .ok proc.analyzer := by
  have honce := captureOnly_of_reachable honly hreach compile
  refine ⟨honce.installed, ?_⟩
  rw [(captured_of_reachable hreach).readTrace_eq hfile]
  exact congrArg Except.ok honce.analyzer

theorem replayEvents_traceOnly_twoThreads :
    ∃ (proc : Process) (bytes : Bytes), proc.handled = twoThreadsRecords ∧
      (readTrace bytes).map (replayEvents
          { sixEventKnobs with traceOnly := true } fun _ _ => none) =
        .ok proc.analyzer := by
  have hrun : (Transition.run (Process.step
      { sixEventKnobs with traceOnly := true }) .initial twoThreads).any
        (fun proc => proc.file.isSome ∧
          proc.handled = twoThreadsRecords) := by
    decide +kernel
  obtain ⟨proc, hproc, hends⟩ := (Option.any_eq_true _ _).mp hrun
  obtain ⟨hfile, hhandled⟩ := of_decide_eq_true hends
  obtain ⟨bytes, hbytes⟩ := Option.isSome_iff_exists.mp hfile
  exact ⟨proc, bytes, hhandled,
    (replayEvents_traceOnly rfl (Transition.reachable_of_run .start hproc)
      hbytes _).2⟩

end Runs

end TbjitAlloc.Trace
