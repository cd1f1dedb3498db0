import TbjitAlloc.Analysis.PostWindow
import TbjitAlloc.Analysis.TwoRuns

/-!
# The oracle as an upper bound

In oracle mode the drift check never deoptimizes.  A stream replayed in oracle
mode and online leaves the same books, and every site that ends Compiled online
ends Compiled under the oracle, so that what the oracle captures bounds what
the online analyzer captures.
-/

namespace TbjitAlloc.Analysis

open TbjitAlloc.Codegen
open CallSiteSummary (SameBooks)

structure OracleResult where
  totalEvents : ℕ
  capturedEvents : ℕ
  deriving DecidableEq

/-- `capturable`. -/
def Analyzer.capturable (analyzer : Analyzer) : OracleResult where
  totalEvents := (analyzer.summaries.map CallSiteSummary.eventCount).sum
  capturedEvents :=
    ((analyzer.summaries.filter fun summary => summary.phase = .compiled).map
      CallSiteSummary.eventCount).sum

/-- `set_oracle_mode`. -/
def Knobs.setOracleMode (knobs : Knobs) (on : Bool) : Knobs :=
  { knobs with oracleMode := on }

/-- The events of a stream, with the segment registry's answer to each, as a
run sees them in which `compile` answers by position. -/
def answered (compile : ℕ → RoutineSpec → Option ℕ)
    (events : List (Option ℕ × AllocEvent)) : List EventCall :=
  events.mapIdx fun index item => ⟨item.1, item.2, compile index⟩

theorem answered_append (compile : ℕ → RoutineSpec → Option ℕ)
    (events : List (Option ℕ × AllocEvent)) (item : Option ℕ × AllocEvent) :
    answered compile (events ++ [item]) =
      answered compile events ++ [⟨item.1, item.2, compile events.length⟩] := by
  rw [answered, List.mapIdx_append]
  simp [answered]

/-- Online and under the oracle, a site has the same books, and the two
summaries are the same until the oracle's is Compiled. -/
structure Bounded (online oracle : CallSiteSummary) : Prop where
  books : SameBooks online oracle
  agree : online = oracle ∨ oracle.phase = .compiled

theorem respectsKeys_bounded : RespectsKeys Bounded :=
  fun _ _ hbounded =>
    ⟨hbounded.books.id.symm, hbounded.books.lifoStack.symm⟩

theorem bounded_refl (summary : CallSiteSummary) : Bounded summary summary :=
  ⟨⟨rfl, rfl, rfl, rfl, rfl, rfl, rfl, rfl⟩, .inl rfl⟩

/-! ## One event -/

section Steps

variable {knobs : Knobs} {compile compile' : RoutineSpec → Option ℕ}
variable {online oracle summary : CallSiteSummary} {event : AllocEvent}

/-- Under the oracle a Compiled site stays Compiled. -/
theorem processAlloc_oracle_compiled (hphase : summary.phase = .compiled) :
    (summary.processAlloc (knobs.setOracleMode true) compile event).1.phase =
      .compiled := by
  have hcompiled := recordAlloc_compiled hphase event
  rw [processAlloc_of_compiled hphase]
  split
  · exact hcompiled
  · exact hcompiled

/-- Neither the mode nor the answers of `compile` show before a site is
Compiled. -/
theorem advancePrespec_agree (summary : CallSiteSummary) :
    (summary.advancePrespec (knobs.setOracleMode false) compile).1 =
        (summary.advancePrespec (knobs.setOracleMode true) compile').1 ∨
      (summary.advancePrespec (knobs.setOracleMode true) compile').1.phase =
        .compiled := by
  have hstable : ∀ on, summary.prespecStable (knobs.setOracleMode on) =
      summary.prespecStable knobs := fun _ => rfl
  unfold CallSiteSummary.advancePrespec
  rw [hstable, hstable]
  cases summary.prespecStable knobs with
  | false => exact .inl rfl
  | true =>
      by_cases hreached : knobs.stableWindows ≤ summary.stableWindows + 1
      · by_cases hexcluded : (summary.blacklisted || knobs.traceOnly) = true
        · left
          simp [Knobs.setOracleMode, hreached, hexcluded]
        · right
          simp only [Knobs.setOracleMode, hreached, hexcluded, if_true]
          rfl
      · left
        simp [Knobs.setOracleMode, hreached]

theorem processAlloc_agree (summary : CallSiteSummary) (event : AllocEvent) :
    (summary.processAlloc (knobs.setOracleMode false) compile event).1 =
        (summary.processAlloc (knobs.setOracleMode true) compile' event).1 ∨
      (summary.processAlloc (knobs.setOracleMode true) compile' event).1.phase =
        .compiled := by
  by_cases hphase : summary.phase = .compiled
  · exact .inr (processAlloc_oracle_compiled hphase)
  · rw [processAlloc_of_outside hphase, processAlloc_of_outside hphase]
    by_cases hfull : ((summary.recordAlloc event).recordActive event.size
        |>.windows ((summary.recordAlloc event).recordActive
          event.size).active).full knobs.windowSize = true
    · simp only [Knobs.setOracleMode, hfull, if_true]
      exact advancePrespec_agree _
    · simp only [Knobs.setOracleMode, hfull]
      exact .inl rfl

theorem sameBooks_symm (hbooks : SameBooks online oracle) :
    SameBooks oracle online :=
  ⟨hbooks.id.symm, hbooks.eventCount.symm, hbooks.freeCount.symm,
    hbooks.deoptCount.symm, hbooks.allocDist.symm, hbooks.freeDist.symm,
    hbooks.lifoStack.symm, hbooks.topPair.symm⟩

theorem sameBooks_trans (hfirst : SameBooks online summary)
    (hsecond : SameBooks summary oracle) : SameBooks online oracle :=
  ⟨hsecond.id.trans hfirst.id, hsecond.eventCount.trans hfirst.eventCount,
    hsecond.freeCount.trans hfirst.freeCount,
    hsecond.deoptCount.trans hfirst.deoptCount,
    hsecond.allocDist.trans hfirst.allocDist,
    hsecond.freeDist.trans hfirst.freeDist,
    hsecond.lifoStack.trans hfirst.lifoStack,
    hsecond.topPair.trans hfirst.topPair⟩

theorem sameBooks_recordAlloc (hbooks : SameBooks online oracle)
    (event : AllocEvent) :
    SameBooks (online.recordAlloc event) (oracle.recordAlloc event) := by
  refine ⟨hbooks.id, ?_, hbooks.freeCount, hbooks.deoptCount, ?_,
    hbooks.freeDist, ?_, hbooks.topPair⟩
  · exact congrArg (· + 1) hbooks.eventCount
  · exact congrArg (fun dist => dist.record event.threadId) hbooks.allocDist
  · exact congrArg (fun stack => CallSiteSummary.pushLifo stack event.ptr)
      hbooks.lifoStack

theorem bounded_processAlloc (hbounded : Bounded online oracle)
    (event : AllocEvent) :
    Bounded
      (online.processAlloc (knobs.setOracleMode false) compile event).1
      (oracle.processAlloc (knobs.setOracleMode true) compile' event).1 := by
  refine ⟨?_, ?_⟩
  · have honline := CallSiteSummary.sameBooks_processAlloc
      (knobs.setOracleMode false) compile online event
    have horacle := CallSiteSummary.sameBooks_processAlloc
      (knobs.setOracleMode true) compile' oracle event
    exact sameBooks_trans (sameBooks_symm honline)
      (sameBooks_trans (sameBooks_recordAlloc hbounded.books event) horacle)
  · rcases hbounded.agree with rfl | hcompiled
    · exact processAlloc_agree online event
    · exact .inr (processAlloc_oracle_compiled hcompiled)

theorem bounded_recordFree (hbounded : Bounded online oracle) (managed : Bool)
    (event : AllocEvent) :
    Bounded (online.recordFree managed event)
      (oracle.recordFree managed event) := by
  have hbooks := hbounded.books
  have htop : oracle.lifoTop event.ptr = online.lifoTop event.ptr := by
    rw [CallSiteSummary.lifoTop, CallSiteSummary.lifoTop, hbooks.lifoStack]
  refine ⟨⟨hbooks.id, hbooks.eventCount, ?_, hbooks.deoptCount,
    hbooks.allocDist, ?_, ?_, ?_⟩, ?_⟩
  · exact congrArg (· + 1) hbooks.freeCount
  · exact congrArg (fun dist => dist.record event.threadId) hbooks.freeDist
  · simp only [CallSiteSummary.recordFree, htop, hbooks.lifoStack]
  · simp only [CallSiteSummary.recordFree, CallSiteSummary.freedPair, htop,
      hbooks.topPair]
  · rcases hbounded.agree with rfl | hcompiled
    · exact .inl rfl
    · exact .inr hcompiled

end Steps

/-! ## Every stream -/

section Streams

variable (knobs : Knobs) {compile compile' : ℕ → RoutineSpec → Option ℕ}
variable {left right : Analyzer}

theorem bounded_process (hcoupled : Coupled Bounded left right)
    (segSite : Option ℕ) (event : AllocEvent)
    (answer answer' : RoutineSpec → Option ℕ) :
    Coupled Bounded
      (EventCall.process (knobs.setOracleMode false) left
        ⟨segSite, event, answer⟩).1
      (EventCall.process (knobs.setOracleMode true) right
        ⟨segSite, event, answer'⟩).1 := by
  have hfresh : ∀ id, left.find id = none →
      left.summaries.length < maxCallSites →
        Bounded (.fresh id) (.fresh id) := fun id _ _ => bounded_refl (.fresh id)
  by_cases hfree : event.size = 0
  · rw [process_of_free _ _ hfree, process_of_free _ _ hfree]
    exact hcoupled.processFree respectsKeys_bounded segSite event hfresh
      fun managed _ _ hbounded => bounded_recordFree hbounded managed event
  · by_cases htracked : event.size < maxSize
    · exact hcoupled.processAlloc respectsKeys_bounded rfl ⟨hfree, htracked⟩
        ⟨hfree, htracked⟩ hfresh
        (fun _ _ hbounded _ => bounded_processAlloc hbounded event)
        fun _ _ hbounded _ => hbounded
    · rw [process_of_untracked _ _ (Nat.not_lt.mp htracked),
        process_of_untracked _ _ (Nat.not_lt.mp htracked)]
      exact hcoupled

/-- The two runs stay coupled over every stream. -/
theorem bounded_run (events : List (Option ℕ × AllocEvent)) :
    Coupled Bounded
      (EventCall.run (knobs.setOracleMode false) (answered compile events)).1
      (EventCall.run (knobs.setOracleMode true) (answered compile' events)).1 := by
  induction events using List.reverseRecOn with
  | nil => exact ⟨.nil, List.nodup_nil⟩
  | append_singleton events item ih =>
      rw [answered_append, answered_append, EventCall.run_append,
        EventCall.run_append]
      exact bounded_process knobs ih _ _ _ _

/-- What related tables capture. -/
theorem captured_le {online oracle : List CallSiteSummary}
    (hrelated : List.Forall₂ Bounded online oracle) :
    (online.map CallSiteSummary.eventCount).sum =
        (oracle.map CallSiteSummary.eventCount).sum ∧
      ((online.filter fun summary => summary.phase = .compiled).map
          CallSiteSummary.eventCount).sum ≤
        ((oracle.filter fun summary => summary.phase = .compiled).map
          CallSiteSummary.eventCount).sum := by
  induction hrelated with
  | nil => exact ⟨rfl, le_refl _⟩
  | @cons summary other _ _ hentry _ ih =>
      obtain ⟨htotal, hcaptured⟩ := ih
      have hcount := hentry.books.eventCount
      refine ⟨?_, ?_⟩
      · rw [List.map_cons, List.map_cons, List.sum_cons, List.sum_cons, hcount,
          htotal]
      · by_cases honline : summary.phase = .compiled
        · have horacle : other.phase = .compiled := by
            rcases hentry.agree with rfl | hcompiled
            · exact honline
            · exact hcompiled
          simpa [List.filter_cons, honline, horacle, hcount] using hcaptured
        · by_cases horacle : other.phase = .compiled
          · simp only [List.filter_cons, honline, horacle, decide_false,
              decide_true, if_true, List.map_cons, List.sum_cons]
            exact hcaptured.trans (Nat.le_add_left _ _)
          · simpa [List.filter_cons, honline, horacle] using hcaptured

/-- The oracle's result bounds the online one, site by site. -/
structure OracleBounds (online oracle : Analyzer) : Prop where
  total : online.capturable.totalEvents = oracle.capturable.totalEvents
  captured : online.capturable.capturedEvents ≤
    oracle.capturable.capturedEvents
  compiled : ∀ id summary, online.find id = some summary →
    summary.phase = .compiled →
      ∃ other, oracle.find id = some other ∧ other.phase = .compiled ∧
        other.eventCount = summary.eventCount

theorem oracleBounds_of_coupled (hcoupled : Coupled Bounded left right) :
    OracleBounds left right where
  total := (captured_le hcoupled.related).1
  captured := (captured_le hcoupled.related).2
  compiled id summary hfind hphase := by
    have hrel := hcoupled.find respectsKeys_bounded id
    rw [hfind] at hrel
    generalize hother : right.find id = found at hrel
    cases hrel with
    | @some _ other hbounded =>
        refine ⟨other, rfl, ?_, hbounded.books.eventCount⟩
        rcases hbounded.agree with rfl | hcompiled
        · exact hphase
        · exact hcompiled

/-- Under the oracle a Compiled site stays Compiled over one event. -/
theorem getPhase_process_oracle {analyzer : Analyzer} {id : ℕ}
    (call : EventCall) (hphase : analyzer.getPhase id = .compiled) :
    (call.process (knobs.setOracleMode true) analyzer).1.getPhase id =
      .compiled := by
  rw [Analyzer.getPhase_eq] at hphase ⊢
  obtain ⟨hsame, -⟩ | ⟨_, event, _, -, -, -, -, hnext, -⟩ |
      ⟨_, _, hfreed, -⟩ | ⟨_, hop, -, -⟩ :=
    Tracked.site_cases (knobs.setOracleMode true) ⟨analyzer, fun _ => .empty⟩
      (.process call.segSite call.event call.compile) id
  · exact (congrArg CallSiteSummary.phase hsame).trans hphase
  · exact (congrArg CallSiteSummary.phase hnext).trans
      (processAlloc_oracle_compiled hphase)
  · exact (congrArg CallSiteSummary.phase hfreed).trans hphase
  · cases hop

/-- It stays Compiled over whatever follows. -/
theorem getPhase_oracle_append (events more : List (Option ℕ × AllocEvent))
    {id : ℕ}
    (hphase : (EventCall.run (knobs.setOracleMode true)
      (answered compile events)).1.getPhase id = .compiled) :
    (EventCall.run (knobs.setOracleMode true)
      (answered compile (events ++ more))).1.getPhase id = .compiled := by
  induction more using List.reverseRecOn with
  | nil => rwa [List.append_nil]
  | append_singleton more item ih =>
      rw [← List.append_assoc, answered_append, EventCall.run_append]
      exact getPhase_process_oracle knobs _ ih

/-- Over every stream the oracle's result bounds the online one, and what
follows never takes a site out of the Compiled phase under the oracle. -/
theorem oracleBounds_run (knobs : Knobs)
    (events : List (Option ℕ × AllocEvent))
    (compileOnline compileOracle : ℕ → RoutineSpec → Option ℕ) :
    let online := fun events => (EventCall.run (knobs.setOracleMode false)
      (answered compileOnline events)).1
    let oracle := fun events => (EventCall.run (knobs.setOracleMode true)
      (answered compileOracle events)).1
    OracleBounds (online events) (oracle events) ∧
      ∀ more id, (oracle events).getPhase id = .compiled →
        (oracle (events ++ more)).getPhase id = .compiled :=
  ⟨oracleBounds_of_coupled (bounded_run knobs events),
    fun more _ hphase => getPhase_oracle_append knobs events more hphase⟩

end Streams

end TbjitAlloc.Analysis
