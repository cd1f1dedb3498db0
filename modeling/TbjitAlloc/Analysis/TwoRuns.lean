import TbjitAlloc.Analysis.Stream

/-!
# Two runs side by side

Two streams of events are processed from the reset state, and the tables they
leave are compared entry by entry.  A relation between summaries that respects
the identifiers and the outstanding allocations is kept by an event as soon as
it is kept by what the event does to the one summary it concerns.
-/

namespace TbjitAlloc.Analysis

open TbjitAlloc.Codegen
open TbjitAlloc.FirstMatch

/-- A call of `process_event`, with the site its pointer belongs to and what
`compile` answers. -/
structure EventCall where
  segSite : Option ℕ
  event : AllocEvent
  compile : RoutineSpec → Option ℕ

namespace EventCall

/-- The event is an allocation of a size that is tracked. -/
def Allocates (call : EventCall) : Prop :=
  call.event.size ≠ 0 ∧ call.event.size < maxSize

instance : DecidablePred Allocates :=
  fun _ => inferInstanceAs (Decidable (_ ∧ _))

def process (knobs : Knobs) (analyzer : Analyzer) (call : EventCall) :
    Analyzer × Calls :=
  analyzer.processEvent knobs call.compile call.segSite call.event

/-- The state a stream of events leaves and the calls it makes. -/
def run (knobs : Knobs) (calls : List EventCall) : Analyzer × List Calls :=
  calls.foldl
    (fun state call =>
      let next := call.process knobs state.1
      (next.1, state.2 ++ [next.2]))
    (.empty, [])

theorem run_append (knobs : Knobs) (calls : List EventCall) (call : EventCall) :
    run knobs (calls ++ [call]) =
      ((call.process knobs (run knobs calls).1).1,
        (run knobs calls).2 ++ [(call.process knobs (run knobs calls).1).2]) := by
  rw [run, List.foldl_append]
  rfl

end EventCall

/-! ## Tables of related summaries -/

/-- The tables agree entry by entry, and no site has two entries. -/
structure Coupled (Related : CallSiteSummary → CallSiteSummary → Prop)
    (left right : Analyzer) : Prop where
  related : List.Forall₂ Related left.summaries right.summaries
  distinct : (left.summaries.map CallSiteSummary.id).Nodup

/-- Related summaries are of one site and have the same outstanding
allocations, so that searches of two tables agree. -/
def RespectsKeys (Related : CallSiteSummary → CallSiteSummary → Prop) : Prop :=
  ∀ left right, Related left right →
    left.id = right.id ∧ left.lifoStack = right.lifoStack

section Coupling

variable {Related Next : CallSiteSummary → CallSiteSummary → Prop}
variable {left right : Analyzer} {id : ℕ}

theorem hasId_of_respectsKeys (hkeys : RespectsKeys Related) (id : ℕ) :
    ∀ summary other, Related summary other →
      Analyzer.hasId id summary = Analyzer.hasId id other := by
  intro summary other hrelated
  rw [Analyzer.hasId, Analyzer.hasId, (hkeys _ _ hrelated).1]

/-- Searches by identifier find related summaries, or none. -/
theorem Coupled.find (hcoupled : Coupled Related left right)
    (hkeys : RespectsKeys Related) (id : ℕ) :
    Option.Rel Related (left.find id) (right.find id) :=
  rel_find? (hasId_of_respectsKeys hkeys id) hcoupled.related

/-- A slot is made in both tables or in neither. -/
theorem Coupled.ensure (hcoupled : Coupled Related left right)
    (hkeys : RespectsKeys Related)
    (hfresh : left.find id = none → left.summaries.length < maxCallSites →
      Related (.fresh id) (.fresh id)) :
    Coupled Related (left.ensure id) (right.ensure id) := by
  have hfind := hcoupled.find hkeys id
  have hlength := hcoupled.related.length_eq
  unfold Analyzer.ensure
  cases hleft : left.find id with
  | some summary =>
      cases hright : right.find id with
      | some other => exact hcoupled
      | none =>
          rw [hleft, hright] at hfind
          cases hfind
  | none =>
      cases hright : right.find id with
      | some other =>
          rw [hleft, hright] at hfind
          cases hfind
      | none =>
          dsimp only
          by_cases hroom : left.summaries.length < maxCallSites
          · rw [dif_pos hroom, dif_pos (hlength ▸ hroom)]
            refine ⟨?_, ?_⟩
            · exact List.rel_append hcoupled.related
                (.cons (hfresh hleft hroom) .nil)
            · rw [List.map_append, List.map_singleton]
              refine hcoupled.distinct.append (List.nodup_singleton _) ?_
              rw [List.disjoint_singleton]
              intro hmem
              obtain ⟨summary, hsummary, hid⟩ := List.mem_map.mp hmem
              have hnone := List.find?_eq_none.mp hleft summary hsummary
              exact hnone (Analyzer.hasId_iff.mpr hid)
          · rw [dif_neg hroom, dif_neg (hlength ▸ hroom)]
            exact hcoupled

theorem map_id_modify {f : CallSiteSummary → CallSiteSummary}
    (hkeep : ∀ summary, (f summary).id = summary.id)
    (p : CallSiteSummary → Bool) (summaries : List CallSiteSummary) :
    (updateFirst p f summaries).map CallSiteSummary.id =
      summaries.map CallSiteSummary.id := by
  induction summaries with
  | nil => rfl
  | cons summary rest ih =>
      rw [updateFirst]
      split
      · rw [List.map_cons, List.map_cons, hkeep]
      · rw [List.map_cons, List.map_cons, ih]

/-- Both tables update the summary of a site. -/
theorem Coupled.modify_site {f g : CallSiteSummary → CallSiteSummary}
    (hcoupled : Coupled Related left right) (hkeys : RespectsKeys Related)
    (hkeep : ∀ summary, (f summary).id = summary.id)
    (hsite : ∀ summary other, Related summary other → summary.id = id →
      Next (f summary) (g other))
    (hother : ∀ summary other, Related summary other → summary.id ≠ id →
      Next summary other) :
    Coupled Next (left.modify (Analyzer.hasId id) f)
      (right.modify (Analyzer.hasId id) g) := by
  refine ⟨forall₂_updateFirst_of_only ?_ (hasId_of_respectsKeys hkeys id)
    (fun summary other hrelated hid => ?_)
    (fun summary other hrelated hid => ?_) hcoupled.related, ?_⟩
  · refine (List.pairwise_map.mp hcoupled.distinct).imp fun {a b} hne ha => ?_
    rw [Analyzer.hasId_iff] at ha
    exact decide_eq_false fun hb => hne (ha.trans hb.symm)
  · exact hsite summary other hrelated (Analyzer.hasId_iff.mp hid)
  · exact hother summary other hrelated (of_decide_eq_false hid)
  · rw [Analyzer.modify, map_id_modify hkeep]
    exact hcoupled.distinct

/-- Both tables update the first summary with a block on top of its stack. -/
theorem Coupled.modify_top {f g : CallSiteSummary → CallSiteSummary}
    (hcoupled : Coupled Related left right) (hkeys : RespectsKeys Related)
    (hkeep : ∀ summary, (f summary).id = summary.id) (ptr : ℕ)
    (hfree : ∀ summary other, Related summary other →
      Related (f summary) (g other)) :
    Coupled Related (left.modify (fun summary => summary.lifoTop ptr) f)
      (right.modify (fun summary => summary.lifoTop ptr) g) := by
  refine ⟨forall₂_updateFirst (fun summary other hrelated => ?_)
    (fun summary other hrelated _ => hfree summary other hrelated)
    hcoupled.related, ?_⟩
  · rw [CallSiteSummary.lifoTop, CallSiteSummary.lifoTop,
      (hkeys _ _ hrelated).2]
  · rw [Analyzer.modify, map_id_modify hkeep]
    exact hcoupled.distinct

end Coupling

/-! ## One event of both streams -/

section Events

variable {Related Next : CallSiteSummary → CallSiteSummary → Prop}
variable {left right : Analyzer} {knobs knobs' : Knobs}
variable {call call' : EventCall}

/-- A free concerns one entry of each table. -/
theorem Coupled.processFree (hcoupled : Coupled Related left right)
    (hkeys : RespectsKeys Related) (segSite : Option ℕ) (event : AllocEvent)
    (hfresh : ∀ id, left.find id = none →
      left.summaries.length < maxCallSites → Related (.fresh id) (.fresh id))
    (hfree : ∀ managed summary other, Related summary other →
      Related (summary.recordFree managed event)
        (other.recordFree managed event)) :
    Coupled Related (left.processFree segSite event)
      (right.processFree segSite event) := by
  unfold Analyzer.processFree
  split
  · exact hcoupled
  · cases segSite with
    | some site =>
        exact (hcoupled.ensure hkeys (hfresh site)).modify_site hkeys
          (fun _ => rfl) (fun summary other hrelated _ =>
            hfree true summary other hrelated) fun _ _ hrelated _ => hrelated
    | none =>
        exact hcoupled.modify_top hkeys
          (fun summary => CallSiteSummary.recordFree_id summary false event)
          event.ptr (hfree false)

theorem process_of_free (knobs : Knobs) (analyzer : Analyzer)
    (hsize : call.event.size = 0) :
    call.process knobs analyzer =
      (analyzer.processFree call.segSite call.event, { }) := by
  rw [EventCall.process, Analyzer.processEvent, if_pos hsize]

theorem process_of_untracked (knobs : Knobs) (analyzer : Analyzer)
    (hsize : maxSize ≤ call.event.size) :
    call.process knobs analyzer = (analyzer, { }) := by
  have hpos : 0 < maxSize := Nat.succ_pos _
  rw [EventCall.process, Analyzer.processEvent, if_neg (by omega),
    if_pos hsize]

theorem process_of_allocates (knobs : Knobs) (analyzer : Analyzer)
    (halloc : call.Allocates) :
    let ensured := analyzer.ensure call.event.callSite
    let result := fun summary : CallSiteSummary =>
      summary.processAlloc knobs call.compile call.event
    (call.process knobs analyzer).1 =
        ensured.modify (Analyzer.hasId call.event.callSite)
          (fun summary => (result summary).1) ∧
      (call.process knobs analyzer).2 =
        (ensured.find call.event.callSite).elim { }
          fun summary => (result summary).2 := by
  rw [EventCall.process, Analyzer.processEvent, if_neg halloc.1,
    if_neg (Nat.not_le.mpr halloc.2)]
  dsimp only
  cases hfind : (analyzer.ensure call.event.callSite).find
      call.event.callSite with
  | some summary => exact ⟨rfl, rfl⟩
  | none =>
      refine ⟨?_, rfl⟩
      rw [Analyzer.modify]
      simp only [updateFirst_of_find?_eq_none hfind]

/-- An allocation concerns the entries of its site. -/
theorem Coupled.processAlloc (hcoupled : Coupled Related left right)
    (hkeys : RespectsKeys Related)
    (hsite : call.event.callSite = call'.event.callSite)
    (halloc : call.Allocates) (halloc' : call'.Allocates)
    (hfresh : ∀ id, left.find id = none →
      left.summaries.length < maxCallSites → Related (.fresh id) (.fresh id))
    (hstep : ∀ summary other, Related summary other →
      summary.id = call.event.callSite →
        Next (summary.processAlloc knobs call.compile call.event).1
          (other.processAlloc knobs' call'.compile call'.event).1)
    (hother : ∀ summary other, Related summary other →
      summary.id ≠ call.event.callSite → Next summary other) :
    Coupled Next (call.process knobs left).1 (call'.process knobs' right).1 := by
  rw [(process_of_allocates knobs left halloc).1,
    (process_of_allocates knobs' right halloc').1, ← hsite]
  exact (hcoupled.ensure hkeys (hfresh _)).modify_site hkeys
    (fun _ => CallSiteSummary.processAlloc_id _ _ _ _) hstep hother

/-- The calls an allocation makes agree where those of its summaries do. -/
theorem Coupled.calls_eq {C : Type*} (observe : Calls → C)
    (hcoupled : Coupled Related left right) (hkeys : RespectsKeys Related)
    (hsite : call.event.callSite = call'.event.callSite)
    (halloc : call.Allocates) (halloc' : call'.Allocates)
    (hfresh : ∀ id, left.find id = none →
      left.summaries.length < maxCallSites → Related (.fresh id) (.fresh id))
    (hstep : ∀ summary other, Related summary other →
      summary.id = call.event.callSite →
        observe (summary.processAlloc knobs call.compile call.event).2 =
          observe (other.processAlloc knobs' call'.compile call'.event).2) :
    observe (call.process knobs left).2 =
      observe (call'.process knobs' right).2 := by
  rw [(process_of_allocates knobs left halloc).2,
    (process_of_allocates knobs' right halloc').2, ← hsite]
  have hfind := (hcoupled.ensure hkeys (hfresh call.event.callSite)).find hkeys
    call.event.callSite
  generalize hright : (right.ensure call.event.callSite).find
    call.event.callSite = found at hfind
  generalize hleft : (left.ensure call.event.callSite).find
    call.event.callSite = sought at hfind
  cases hfind with
  | none => rfl
  | some hrelated =>
      exact hstep _ _ hrelated (Analyzer.id_of_find hleft)

end Events

/-! ## Slots -/

section Slots

variable {knobs : Knobs} {analyzer : Analyzer} {call : EventCall} {id : ℕ}

theorem length_le_ensure (analyzer : Analyzer) (id : ℕ) :
    analyzer.summaries.length ≤ (analyzer.ensure id).summaries.length := by
  unfold Analyzer.ensure
  split
  · exact le_refl _
  · split
    · rw [List.length_append]
      exact Nat.le_add_right _ _
    · exact le_refl _

theorem length_modify (analyzer : Analyzer) (p : CallSiteSummary → Bool)
    (f : CallSiteSummary → CallSiteSummary) :
    (analyzer.modify p f).summaries.length = analyzer.summaries.length :=
  length_updateFirst

/-- No event gives a slot back. -/
theorem length_le_process (knobs : Knobs) (analyzer : Analyzer)
    (call : EventCall) :
    analyzer.summaries.length ≤
      (call.process knobs analyzer).1.summaries.length := by
  by_cases hfree : call.event.size = 0
  · rw [process_of_free knobs analyzer hfree]
    unfold Analyzer.processFree
    split
    · exact le_refl _
    · split
      · rw [length_modify]
        exact length_le_ensure _ _
      · rw [length_modify]
  · by_cases htracked : call.event.size < maxSize
    · rw [(process_of_allocates knobs analyzer ⟨hfree, htracked⟩).1,
        length_modify]
      exact length_le_ensure _ _
    · rw [process_of_untracked knobs analyzer (Nat.not_lt.mp htracked)]

/-- A site without a slot after an event had none before. -/
theorem find_none_of_process
    (hnone : (call.process knobs analyzer).1.find id = none) :
    analyzer.find id = none := by
  have hensure : ∀ site, (analyzer.ensure site).find id = none →
      analyzer.find id = none := by
    intro site hnone
    by_cases hid : id = site
    · subst hid
      rcases Analyzer.find_ensure_self analyzer id with hsame | ⟨hbefore, -⟩
      · rwa [← hsame]
      · exact hbefore
    · rwa [Analyzer.find_ensure_of_ne hid] at hnone
  by_cases hfree : call.event.size = 0
  · rw [process_of_free knobs analyzer hfree] at hnone
    rcases Analyzer.find_processFree analyzer call.segSite call.event id with
      hsame | ⟨_, hmap⟩ | ⟨hbefore, -⟩
    · exact hsame ▸ hnone
    · rw [hmap, Option.map_eq_none_iff] at hnone
      exact hnone
    · exact hbefore
  · by_cases htracked : call.event.size < maxSize
    · by_cases hid : id = call.event.callSite
      · subst hid
        rw [EventCall.process, Analyzer.find_processEvent_self knobs
          call.compile analyzer call.segSite hfree htracked,
          Option.map_eq_none_iff] at hnone
        exact hensure _ hnone
      · rwa [EventCall.process,
          Analyzer.find_processEvent_of_ne hfree hid] at hnone
    · rwa [process_of_untracked knobs analyzer (Nat.not_lt.mp htracked)]
        at hnone

/-- An allocation whose site has no slot afterwards found the table full. -/
theorem full_of_process (halloc : call.Allocates)
    (hnone : (call.process knobs analyzer).1.find call.event.callSite = none) :
    ¬analyzer.summaries.length < maxCallSites := by
  intro hroom
  have hbefore := find_none_of_process hnone
  rw [EventCall.process, Analyzer.find_processEvent_self knobs call.compile
    analyzer call.segSite halloc.1 halloc.2,
    Analyzer.find_ensure_of_room hbefore hroom] at hnone
  cases hnone

end Slots

end TbjitAlloc.Analysis
