import TbjitAlloc.Deopt.Agreement
import TbjitAlloc.Trace.Replay

/-!
# The learning pass

Before it times anything the harness drives every event of the trace through
`process_event`, in oracle mode and before there are any segments.  No site
leaves Compiled then, so a site is compiled at most once and its routine stays
installed.
-/

namespace TbjitAlloc.Replay

open TbjitAlloc.Analysis
open TbjitAlloc.Codegen
open TbjitAlloc.Deopt
open TbjitAlloc.Dispatch
open TbjitAlloc.Probing
open TbjitAlloc.Trace

/-- The table of sites and the dispatch table. -/
structure Learned where
  analyzer : Analyzer
  dispatch : Table

namespace Learned

def initial : Learned := ⟨.empty, .initial⟩

/-- `process_event` with what it installs; `none` is the failed assertion of
`install`. -/
def processEvent (knobs : Knobs) (learned : Learned) (call : EventCall) :
    Option Learned :=
  let result := call.process knobs learned.analyzer
  match result.2.compiled with
  | some (spec, some page) =>
      (install learned.dispatch spec.id page).map fun dispatch =>
        ⟨result.1, dispatch⟩
  | _ => some ⟨result.1, learned.dispatch⟩

end Learned

/-- The loop over the events; `compile` answers by position. -/
def learningPass (knobs : Knobs) (compile : ℕ → RoutineSpec → Option ℕ)
    (records : List EventRecord) : Option Learned :=
  (answered compile (records.map fun record => (none, record.event))).foldlM
    (Learned.processEvent (knobs.setOracleMode true)) .initial

/-! ## One event -/

section Event

variable {knobs : Knobs} {summary : CallSiteSummary} {event : AllocEvent}
variable {compile : RoutineSpec → Option ℕ}

/-- Only a site that was not Compiled gets a routine, and no site loses one. -/
theorem processAlloc_codePage (knobs : Knobs)
    (compile : RoutineSpec → Option ℕ) (summary : CallSiteSummary)
    (event : AllocEvent) :
    let next := summary.processAlloc (knobs.setOracleMode true) compile event
    (∃ spec page, next.2.compiled = some (spec, some page) ∧
        next.1.codePage = some page) ∨
      (∀ spec page, next.2.compiled ≠ some (spec, some page)) ∧
        next.1.codePage = summary.codePage ∧
          (summary.phase = .compiled → next.1.phase = .compiled) := by
  by_cases hphase : summary.phase = .compiled
  · have hkept : (summary.processAlloc (knobs.setOracleMode true) compile
        event).1.phase = .compiled := processAlloc_oracle_compiled hphase
    refine .inr ⟨fun spec page hcompiled => ?_, ?_, fun _ => hkept⟩
    · exact (specializes_of_processAlloc hcompiled).1 hphase
    · rw [processAlloc_of_compiled hphase]
      split <;> rfl
  · rw [processAlloc_of_outside hphase]
    dsimp only
    split
    · by_cases hspecializes : Specializes (knobs.setOracleMode true)
          ((summary.recordAlloc event).recordActive event.size)
      · rw [advancePrespec_of_specializes hspecializes,
          CallSiteSummary.specialize]
        dsimp only
        split
        · next hsome =>
            obtain ⟨page, hpage⟩ := Option.isSome_iff_exists.mp hsome
            exact .inl ⟨_, page, by rw [hpage], hpage⟩
        · next hnone =>
            rw [Option.not_isSome_iff_eq_none] at hnone
            refine .inr ⟨fun spec page hcompiled => ?_, rfl,
              fun h => absurd h hphase⟩
            rw [hnone] at hcompiled
            cases hcompiled
      · rw [advancePrespec_of_not_specializes hspecializes]
        exact .inr ⟨fun _ _ hnone => (by cases hnone), rfl,
          fun h => absurd h hphase⟩
    · exact .inr ⟨fun _ _ hnone => (by cases hnone), rfl,
        fun h => absurd h hphase⟩

end Event

/-- A site keeps its page, and it stays Compiled. -/
structure Keeps (before after : CallSiteSummary) : Prop where
  codePage : after.codePage = before.codePage
  compiled : before.phase = .compiled → after.phase = .compiled

section Sites

variable {knobs : Knobs} {analyzer : Analyzer} {call : EventCall}
variable {id : CallSiteID}

theorem Keeps.refl (summary : CallSiteSummary) : Keeps summary summary :=
  ⟨rfl, fun hcompiled => hcompiled⟩

/-- An event compiles a routine for its site, which had none, or no site's
changes. -/
theorem process_oracle (knobs : Knobs) (analyzer : Analyzer)
    (call : EventCall) :
    let next := call.process (knobs.setOracleMode true) analyzer
    (∃ spec page, next.2.compiled = some (spec, some page) ∧
        spec.id = call.event.callSite ∧
        (analyzer.summaryOf spec.id).phase ≠ .compiled ∧
        (next.1.find spec.id).isSome ∧
        (next.1.summaryOf spec.id).phase = .compiled ∧
        (next.1.summaryOf spec.id).codePage = some page ∧
        ∀ id, id ≠ spec.id →
          Keeps (analyzer.summaryOf id) (next.1.summaryOf id)) ∨
      (∀ spec page, next.2.compiled ≠ some (spec, some page)) ∧
        ∀ id, Keeps (analyzer.summaryOf id) (next.1.summaryOf id) := by
  dsimp only
  by_cases hfree : call.event.size = 0
  · rw [process_of_free _ _ hfree]
    refine .inr ⟨fun _ _ hnone => (by cases hnone), fun id => ?_⟩
    rcases analyzer.summaryOf_processFree call.segSite call.event id with
      hsame | ⟨managed, hfreed⟩
    · rw [hsame]
      exact .refl _
    · rw [hfreed]
      exact ⟨rfl, fun hcompiled => hcompiled⟩
  · by_cases htracked : call.event.size < maxSize
    · have hother : ∀ id, id ≠ call.event.callSite →
          Keeps (analyzer.summaryOf id)
            ((call.process (knobs.setOracleMode true) analyzer).1.summaryOf
              id) := by
        intro id hne
        rw [EventCall.process,
          Analyzer.summaryOf_processEvent_of_ne _ _ _ hfree hne]
        exact .refl _
      rcases analyzer.summaryOf_processEvent (knobs.setOracleMode true)
          call.compile call.segSite hfree htracked with
        ⟨-, hsame, hcalls⟩ | ⟨hfound, hnext, hcalls⟩
      · refine .inr ⟨fun spec page hcompiled => ?_, fun id => ?_⟩
        · rw [EventCall.process, hcalls] at hcompiled
          cases hcompiled
        · by_cases hid : id = call.event.callSite
          · rw [hid, EventCall.process, hsame]
            exact .refl _
          · exact hother id hid
      · rcases processAlloc_codePage knobs call.compile
            (analyzer.summaryOf call.event.callSite) call.event with
          ⟨spec, page, hcompiled, hpage⟩ | ⟨hnone, hpage, hkept⟩
        · obtain ⟨hphase, -, -, hid, hafter⟩ :=
            specializes_of_processAlloc hcompiled
          rw [summaryOf_id] at hid
          refine .inl ⟨spec, page, ?_, hid, ?_⟩
          · rw [EventCall.process, hcalls, hcompiled]
          · rw [hid, EventCall.process, hnext]
            exact ⟨hphase, hfound, hafter, hpage, hother⟩
        · refine .inr ⟨fun spec page => ?_, fun id => ?_⟩
          · rw [EventCall.process, hcalls]
            exact hnone spec page
          · by_cases hid : id = call.event.callSite
            · rw [hid, EventCall.process, hnext]
              exact ⟨hpage, hkept⟩
            · exact hother id hid
    · rw [process_of_untracked _ _ (Nat.not_lt.mp htracked)]
      exact .inr ⟨fun _ _ hnone => (by cases hnone), fun id => .refl _⟩

/-- A site that has a slot keeps it. -/
theorem process_found (hfound : (analyzer.find id).isSome) :
    ((call.process knobs analyzer).1.find id).isSome := by
  by_cases hfree : call.event.size = 0
  · rw [process_of_free _ _ hfree]
    rcases Analyzer.find_processFree analyzer call.segSite call.event id with
      hsame | ⟨managed, hfreed⟩ | ⟨hnone, -⟩
    · rwa [hsame]
    · rwa [hfreed, Option.isSome_map]
    · rw [hnone] at hfound
      cases hfound
  · by_cases htracked : call.event.size < maxSize
    · by_cases hid : id = call.event.callSite
      · obtain ⟨summary, hsummary⟩ := Option.isSome_iff_exists.mp hfound
        rw [hid] at hsummary ⊢
        rw [EventCall.process, Analyzer.find_processEvent_self _ _ _ _ hfree
          htracked, Analyzer.ensure_of_found hsummary, Option.isSome_map,
          hsummary]
        rfl
      · rwa [EventCall.process, Analyzer.find_processEvent_of_ne hfree hid]
    · rwa [process_of_untracked _ _ (Nat.not_lt.mp htracked)]

end Sites

/-! ## The invariant -/

/-- Every site's entry holds its page, but the id zero may have lost its own. -/
structure Learned.Ok (learned : Learned) : Prop where
  table : Represents learned.dispatch (lookup learned.dispatch)
  stored : ∀ id, Stored tableSize (occupied learned.dispatch.entries) id →
    (learned.analyzer.find id).isSome
  idle : ∀ id, (learned.analyzer.summaryOf id).phase ≠ .compiled →
    (learned.analyzer.summaryOf id).codePage = none
  routine : ∀ id,
    lookup learned.dispatch id =
        (learned.analyzer.summaryOf id).codePage.getD 0 ∨
      id = 0 ∧ lookup learned.dispatch id = 0
  generation : 0 < learned.dispatch.generation

namespace Learned

section Pass

variable {knobs : Knobs} {learned : Learned} {call : EventCall}

theorem ok_initial : Ok .initial where
  table := by
    have hnone : lookup Table.initial = fun _ => 0 :=
      funext represents_initial.lookup_eq
    rw [initial, hnone]
    exact represents_initial
  stored := by
    rintro id ⟨slot, -, hid⟩
    cases hid
  idle := fun _ _ => rfl
  routine := fun id => .inl (represents_initial.lookup_eq id)
  generation := Nat.one_pos

/-- There is room in the dispatch table for every site of the other. -/
theorem Ok.find_ne_none (hok : learned.Ok) {analyzer : Analyzer}
    {id : CallSiteID} (hid : (analyzer.find id).isSome)
    (hfound : ∀ id, (learned.analyzer.find id).isSome →
      (analyzer.find id).isSome) :
    find learned.dispatch.entries id ≠ none := by
  have hmem : ∀ id, (analyzer.find id).isSome →
      id ∈ (analyzer.summaries.map CallSiteSummary.id).toFinset := by
    intro id hid
    obtain ⟨summary, hsummary⟩ := Option.isSome_iff_exists.mp hid
    rw [List.mem_toFinset, List.mem_map]
    exact ⟨summary, List.mem_of_find?_eq_some hsummary,
      Analyzer.id_of_find hsummary⟩
  refine hok.table.find_ne_none ?_ (fun other hother =>
    hmem other (hfound other (hok.stored other hother))) (hmem id hid)
  calc (analyzer.summaries.map CallSiteSummary.id).toFinset.card
      ≤ (analyzer.summaries.map CallSiteSummary.id).length :=
        List.toFinset_card_le _
    _ = analyzer.summaries.length := List.length_map _
    _ ≤ tableSize := analyzer.summaries_le

/-- An event meets no failed assertion and keeps the invariant. -/
theorem Ok.processEvent (hok : learned.Ok) (knobs : Knobs) (call : EventCall) :
    ∃ next, learned.processEvent (knobs.setOracleMode true) call = some next ∧
      next.analyzer =
        (call.process (knobs.setOracleMode true) learned.analyzer).1 ∧
      next.Ok := by
  have hfound : ∀ id, (learned.analyzer.find id).isSome →
      ((call.process (knobs.setOracleMode true) learned.analyzer).1.find
        id).isSome := fun id => process_found
  rw [Learned.processEvent]
  rcases process_oracle knobs learned.analyzer call with
    ⟨spec, page, hcompiled, -, hphase, hslot, hafter, hpage, hother⟩ |
    ⟨hnone, hkeeps⟩
  · obtain ⟨slot, hslot⟩ := Option.ne_none_iff_exists'.mp
      (hok.find_ne_none hslot hfound)
    have hinstall : install learned.dispatch spec.id page =
        some ⟨Function.update learned.dispatch.entries slot ⟨page, spec.id⟩,
          learned.dispatch.generation + 1⟩ := by
      rw [install, hslot, Option.map_some]
    obtain ⟨htable, hself, hrest⟩ := hok.table.lookup_install_cases hinstall
    simp only [hcompiled, hinstall, Option.map_some]
    refine ⟨_, rfl, rfl, htable, fun id hid => ?_, fun id hid => ?_,
      fun id => ?_, Nat.succ_pos _⟩
    · have happly : apply learned.dispatch (.install spec.id page) = _ :=
        hinstall
      rcases stored_apply happly hid with
        hold | hnew
      · exact hfound id (hok.stored id hold)
      · obtain rfl := Option.some.inj hnew
        assumption
    · have hne : id ≠ spec.id := by
        rintro rfl
        exact hid hafter
      rw [(hother id hne).codePage]
      exact hok.idle id fun h => hid ((hother id hne).compiled h)
    · by_cases hne : id = spec.id
      · rw [hne]
        exact .inl (by rw [hself, hpage]; rfl)
      · dsimp only
        rw [(hother id hne).codePage]
        rcases hrest id hne with hsame | hlost
        · rw [hsame]
          exact hok.routine id
        · exact .inr hlost
  · have hquiet : Learned.processEvent (knobs.setOracleMode true) learned call =
        some ⟨(call.process (knobs.setOracleMode true) learned.analyzer).1,
          learned.dispatch⟩ := by
      rw [Learned.processEvent]
      split
      · next spec page hcompiled => exact absurd hcompiled (hnone spec page)
      · rfl
    rw [Learned.processEvent] at hquiet
    refine ⟨_, hquiet, rfl, hok.table,
      fun id hid => hfound id (hok.stored id hid), fun id hid => ?_,
      fun id => ?_, hok.generation⟩
    · rw [(hkeeps id).codePage]
      exact hok.idle id fun h => hid ((hkeeps id).compiled h)
    · dsimp only
      rw [(hkeeps id).codePage]
      exact hok.routine id

/-- The pass over any events. -/
theorem ok_foldlM (knobs : Knobs) (calls : List EventCall) :
    ∃ learned,
      calls.foldlM (Learned.processEvent (knobs.setOracleMode true)) initial =
        some learned ∧
      learned.analyzer =
        (EventCall.run (knobs.setOracleMode true) calls).1 ∧
      learned.Ok := by
  induction calls using List.reverseRecOn with
  | nil => exact ⟨initial, rfl, rfl, ok_initial⟩
  | append_singleton calls call ih =>
      obtain ⟨learned, hlearned, hanalyzer, hok⟩ := ih
      obtain ⟨next, hnext, hafter, hnextOk⟩ := hok.processEvent knobs call
      refine ⟨next, ?_, ?_, hnextOk⟩
      · simp [List.foldlM_append, hlearned, hnext]
      · rw [hafter, hanalyzer, EventCall.run_append]

end Pass

end Learned

/-- The sites for which routines are compiled, in order. -/
def installedSites (knobs : Knobs) (calls : List EventCall) : List ℕ :=
  (EventCall.run knobs calls).2.filterMap installedSite

theorem installedSite_eq_none {calls : Calls}
    (hnone : ∀ spec page, calls.compiled ≠ some (spec, some page)) :
    installedSite calls = none := by
  rw [installedSite]
  split
  · next spec page hcall => exact absurd hcall (hnone spec page)
  · rfl

/-- A site for which a routine was compiled is Compiled, and there is no second
routine. -/
theorem installedSites_nodup (knobs : Knobs) (calls : List EventCall) :
    (installedSites (knobs.setOracleMode true) calls).Nodup ∧
      ∀ id ∈ installedSites (knobs.setOracleMode true) calls,
        ((EventCall.run (knobs.setOracleMode true) calls).1.summaryOf id).phase =
          .compiled := by
  induction calls using List.reverseRecOn with
  | nil => exact ⟨.nil, fun id hid => by cases hid⟩
  | append_singleton calls call ih =>
      obtain ⟨hnodup, hcompiled⟩ := ih
      rw [installedSites] at hnodup hcompiled ⊢
      rw [EventCall.run_append, List.filterMap_append]
      rcases process_oracle knobs
          (EventCall.run (knobs.setOracleMode true) calls).1 call with
        ⟨spec, page, hcall, -, hphase, -, hafter, -, hother⟩ | ⟨hnone, hkeeps⟩
      · have hnew : [(call.process (knobs.setOracleMode true)
            (EventCall.run (knobs.setOracleMode true) calls).1).2].filterMap
              installedSite = [spec.id] := by
          simp [installedSite, hcall]
        dsimp only
        rw [hnew]
        refine ⟨hnodup.append (List.nodup_singleton _) ?_, fun id hid => ?_⟩
        · rw [List.disjoint_singleton]
          exact fun hold => hphase (hcompiled _ hold)
        · by_cases hne : id = spec.id
          · rw [hne, hafter]
          · refine (hother id hne).compiled (hcompiled id ?_)
            simpa [hne] using hid
      · have hnew : [(call.process (knobs.setOracleMode true)
            (EventCall.run (knobs.setOracleMode true) calls).1).2].filterMap
              installedSite = [] := by
          simp [installedSite_eq_none hnone]
        dsimp only
        rw [hnew, List.append_nil]
        exact ⟨hnodup, fun id hid => (hkeeps id).compiled (hcompiled id hid)⟩

/-- The learning pass runs to its end on every trace.  The sites are those of a
replay in oracle mode, and every site's calls are dispatched to the routine that
was compiled for it, of which there is only one, or to none. -/
theorem learningPass_lookup (knobs : Knobs)
    (compile : ℕ → RoutineSpec → Option ℕ) (records : List EventRecord) :
    ∃ learned, learningPass knobs compile records = some learned ∧
      learned.analyzer =
        replayEvents (knobs.setOracleMode true) compile records ∧
      (installedSites (knobs.setOracleMode true) (answered compile
        (records.map fun record => (none, record.event)))).Nodup ∧
      0 < learned.dispatch.generation ∧
      ∀ id, (id ≠ 0 → lookup learned.dispatch id =
          (learned.analyzer.summaryOf id).codePage.getD 0) ∧
        (learned.analyzer.getPhase id ≠ .compiled →
          lookup learned.dispatch id = 0) := by
  obtain ⟨learned, hlearned, hanalyzer, hok⟩ := Learned.ok_foldlM knobs
    (answered compile (records.map fun record => (none, record.event)))
  refine ⟨learned, hlearned, hanalyzer, (installedSites_nodup knobs _).1,
    hok.generation, fun id => ⟨?_, ?_⟩⟩
  · intro hid
    exact (hok.routine id).resolve_right fun hzero => hid hzero.1
  · intro hphase
    rw [Analyzer.getPhase_eq] at hphase
    rcases hok.routine id with hpage | hzero
    · rw [hpage, hok.idle id hphase]
      rfl
    · exact hzero.2

end TbjitAlloc.Replay
