import TbjitAlloc.Analysis.PostWindow

/-!
# The events the trampoline records

An event says with its size whether it is an allocation: `record_free` writes
zero, `record_alloc` the low 32 bits of the request.  What the analyzer makes of
a recorded allocation therefore depends on these bits alone.
-/

namespace TbjitAlloc.Trace

open TbjitAlloc.Analysis
open TbjitAlloc.Analysis.CallSiteSummary (pushLifo)
open TbjitAlloc.Codegen

/-- `record_alloc` by thread `tid`, as the generic branch of `malloc` calls it
for a request of `size` bytes that was answered with `ptr`. -/
def recordAlloc (id size tid ptr : ℕ) : AllocEvent where
  callSite := id
  size := size % 2 ^ 32
  threadId := tid
  ptr := ptr

/-- `record_free`. -/
def recordFree (id tid ptr : ℕ) : AllocEvent where
  callSite := id
  size := 0
  threadId := tid
  ptr := ptr

/-- No free was counted at the site and its stack was not popped. -/
structure SameFrees (ptr : ℕ) (before after : CallSiteSummary) : Prop where
  freeCount : after.freeCount = before.freeCount
  freeDist : after.freeDist = before.freeDist
  topPair : after.topPair = before.topPair
  lifoStack : after.lifoStack = before.lifoStack ∨
    after.lifoStack = pushLifo before.lifoStack ptr

/-- No allocation was counted at the site. -/
structure SameWindows (before after : CallSiteSummary) : Prop where
  eventCount : after.eventCount = before.eventCount
  windows : after.windows = before.windows
  active : after.active = before.active
  postWindow : after.postWindow = before.postWindow

theorem SameFrees.refl (ptr : ℕ) (summary : CallSiteSummary) :
    SameFrees ptr summary summary := ⟨rfl, rfl, rfl, .inl rfl⟩

theorem SameWindows.refl (summary : CallSiteSummary) :
    SameWindows summary summary := ⟨rfl, rfl, rfl, rfl⟩

section Process

variable {knobs : Knobs} {compile : RoutineSpec → Option ℕ}
variable {analyzer : Analyzer} {segSite : Option ℕ} {event : AllocEvent}
variable {id size tid ptr site : ℕ}

/-- A tracked size is recorded as it is. -/
theorem recordAlloc_of_lt (htracked : size < maxSize) :
    recordAlloc id size tid ptr = ⟨id, size, tid, ptr⟩ := by
  rw [recordAlloc, Nat.mod_eq_of_lt (htracked.trans (by decide))]

/-- An event with a size counts no free, whatever the size. -/
theorem sameFrees_processEvent (hsize : event.size ≠ 0) :
    SameFrees event.ptr (analyzer.summaryOf site)
      ((analyzer.processEvent knobs compile segSite event).1.summaryOf
        site) := by
  by_cases hsite : site = event.callSite
  · subst hsite
    by_cases htracked : event.size < maxSize
    · rcases analyzer.summaryOf_processEvent knobs compile segSite hsize
        htracked with ⟨-, hsame, -⟩ | ⟨-, hnext, -⟩
      · rw [hsame]
        exact .refl _ _
      · have hbooks := CallSiteSummary.sameBooks_processAlloc knobs compile
          (analyzer.summaryOf event.callSite) event
        rw [hnext]
        exact ⟨hbooks.freeCount, hbooks.freeDist, hbooks.topPair,
          .inr hbooks.lifoStack⟩
    · rw [Analyzer.processEvent, if_neg hsize, if_pos (not_lt.mp htracked)]
      exact .refl _ _
  · rw [Analyzer.summaryOf_processEvent_of_ne knobs compile segSite hsize hsite]
    exact .refl _ _

/-- An event without a tracked size counts no allocation. -/
theorem sameWindows_processEvent
    (hsize : ¬(1 ≤ event.size ∧ event.size < maxSize)) :
    SameWindows (analyzer.summaryOf site)
      ((analyzer.processEvent knobs compile segSite event).1.summaryOf
        site) := by
  by_cases hfree : event.size = 0
  · rw [Analyzer.processEvent, if_pos hfree]
    rcases analyzer.summaryOf_processFree segSite event site with
      hsame | ⟨managed, hfreed⟩
    · rw [hsame]
      exact .refl _
    · rw [hfreed]
      exact ⟨rfl, rfl, rfl, rfl⟩
  · rw [Analyzer.processEvent, if_neg hfree, if_pos (by omega)]
    exact .refl _

/-- The site has a summary or can get one. -/
def Admits (analyzer : Analyzer) (id : ℕ) : Prop :=
  (analyzer.find id).isSome ∨ analyzer.summaries.length < maxCallSites

theorem isSome_ensure_iff :
    ((analyzer.ensure id).find id).isSome = true ↔ Admits analyzer id := by
  rw [Admits]
  cases hfind : analyzer.find id with
  | some summary =>
      rw [Analyzer.ensure_of_found hfind, hfind]
      simp
  | none =>
      by_cases hroom : analyzer.summaries.length < maxCallSites
      · rw [Analyzer.find_ensure_of_room hfind hroom]
        simp [hroom]
      · rw [Analyzer.ensure_of_full hroom, hfind]
        simp [hroom]

/-- One allocation of exactly this size was counted at the site, and nothing
at another. -/
structure CountedOnce (knobs : Knobs) (compile : RoutineSpec → Option ℕ)
    (before after : Analyzer) (id size tid ptr : ℕ) : Prop where
  eventCount : (after.summaryOf id).eventCount =
    (before.summaryOf id).eventCount + 1
  size : after.summaryOf id =
    (((before.summaryOf id).recordAlloc ⟨id, size, tid, ptr⟩).recordSize knobs
      compile size).1
  others : ∀ other, other ≠ id →
    after.summaryOf other = before.summaryOf other

theorem countedOnce_processEvent (hsize : 1 ≤ size) (htracked : size < maxSize)
    (hadmits : Admits analyzer id) :
    CountedOnce knobs compile analyzer
      (analyzer.processEvent knobs compile segSite
        (recordAlloc id size tid ptr)).1 id size tid ptr := by
  have hpos : (⟨id, size, tid, ptr⟩ : AllocEvent).size ≠ 0 :=
    Nat.one_le_iff_ne_zero.mp hsize
  rw [recordAlloc_of_lt htracked]
  have hself := Analyzer.find_processEvent_self knobs compile analyzer segSite
    hpos htracked
  rcases analyzer.summaryOf_processEvent knobs compile segSite hpos
    htracked with ⟨hnone, -, -⟩ | ⟨-, hnext, -⟩
  · rw [hself, Option.isSome_map, isSome_ensure_iff.mpr hadmits] at hnone
    cases hnone
  · have hbooks := CallSiteSummary.sameBooks_processAlloc knobs compile
      (analyzer.summaryOf id) ⟨id, size, tid, ptr⟩
    refine ⟨?_, hnext, fun other hother => ?_⟩
    · rw [hnext]
      exact hbooks.eventCount
    · exact Analyzer.summaryOf_processEvent_of_ne knobs compile segSite hpos
        hother

theorem processEvent_of_not_admits (hsize : 1 ≤ size)
    (htracked : size < maxSize) (hfull : ¬Admits analyzer id) :
    (analyzer.processEvent knobs compile segSite
      (recordAlloc id size tid ptr)).1 = analyzer := by
  obtain ⟨habsent, hroom⟩ := not_or.mp hfull
  have hnone : analyzer.find id = none := by simpa using habsent
  rw [recordAlloc_of_lt htracked, Analyzer.processEvent,
    if_neg (Nat.one_le_iff_ne_zero.mp hsize), if_neg (not_le.mpr htracked)]
  simp only [Analyzer.ensure_of_full hroom, hnone]

end Process

/-! ## Recorded allocations -/

/-- What an event that is an allocation does to the analyzer. -/
structure TakenAsAlloc (knobs : Knobs) (compile : RoutineSpec → Option ℕ)
    (before after : Analyzer) (id size tid ptr : ℕ) : Prop where
  frees : ∀ site, SameFrees ptr (before.summaryOf site) (after.summaryOf site)
  counted : 1 ≤ size → size < maxSize →
    CountedOnce knobs compile before after id size tid ptr
  dropped : ¬(1 ≤ size ∧ size < maxSize) →
    ∀ site, SameWindows (before.summaryOf site) (after.summaryOf site)

/-- What the analyzer does with the event of an allocation.  Nothing is said
about the count of a request from 2^32 on whose low bits are those of a small
one, nor about the frees of a multiple of 2^32. -/
structure RecordedAlloc (knobs : Knobs) (compile : RoutineSpec → Option ℕ)
    (segSite : Option ℕ) (before after : Analyzer) (id size tid ptr : ℕ) :
    Prop where
  frees : size % 2 ^ 32 ≠ 0 →
    ∀ site, SameFrees ptr (before.summaryOf site) (after.summaryOf site)
  counted : 1 ≤ size → size < maxSize → Admits before id →
    CountedOnce knobs compile before after id size tid ptr
  full : 1 ≤ size → size < maxSize → ¬Admits before id → after = before
  dropped : ¬(1 ≤ size % 2 ^ 32 ∧ size % 2 ^ 32 < maxSize) →
    ∀ site, SameWindows (before.summaryOf site) (after.summaryOf site)
  zero : size = 0 → after =
    (before.processEvent knobs compile segSite (recordFree id tid ptr)).1

/-- Every request, pointer and state. -/
theorem recordedAlloc_processEvent (knobs : Knobs)
    (compile : RoutineSpec → Option ℕ) (segSite : Option ℕ)
    (analyzer : Analyzer) (id size tid ptr : ℕ) :
    RecordedAlloc knobs compile segSite analyzer
      (analyzer.processEvent knobs compile segSite
        (recordAlloc id size tid ptr)).1 id size tid ptr where
  frees hsize _ := by
    have hevent : (recordAlloc id size tid ptr).size ≠ 0 := hsize
    exact sameFrees_processEvent hevent
  counted hsize htracked hadmits :=
    countedOnce_processEvent hsize htracked hadmits
  full hsize htracked hfull := processEvent_of_not_admits hsize htracked hfull
  dropped hdropped _ := sameWindows_processEvent hdropped
  zero hzero := by rw [recordAlloc, recordFree, hzero, Nat.zero_mod]

/-! ## A free that nobody made, a site that finds no room -/

/-- Site 7 gets two blocks and site 9 frees the older one first, which leaves
its pointer at the bottom of the stack and then on top. -/
def staleTop : List StreamOp :=
  [.process none (recordAlloc 7 48 1 64) fun _ => none,
    .process none (recordAlloc 7 48 1 128) fun _ => none,
    .process none (recordFree 9 1 64) fun _ => none,
    .process none (recordFree 9 1 128) fun _ => none]

/-- Every site below `count` has allocated once. -/
theorem reachable_of_count {count : ℕ} (hcount : count ≤ maxCallSites) :
    ∃ state, Transition.Reachable (Tracked.step sixEventKnobs) .initial state ∧
      state.analyzer.summaries.length = count ∧
      ∀ id, count ≤ id → state.analyzer.find id = none := by
  induction count with
  | zero => exact ⟨.initial, .start, rfl, fun _ _ => rfl⟩
  | succ count ih =>
      obtain ⟨state, hreach, hlength, habsent⟩ := ih (by omega)
      have hroom : state.analyzer.summaries.length < maxCallSites := by omega
      have hfresh := Analyzer.find_ensure_of_room (habsent count le_rfl) hroom
      have hnext : (state.analyzer.ensure count).summaries =
          state.analyzer.summaries ++ [.fresh count] := by
        rw [Analyzer.ensure, habsent count le_rfl]
        simp only [hroom, dif_pos]
      have hsize : (recordAlloc count 48 1 64).size = 48 := rfl
      have hpos : (recordAlloc count 48 1 64).size ≠ 0 := by
        rw [hsize]
        decide
      have htracked : ¬maxSize ≤ (recordAlloc count 48 1 64).size := by
        rw [hsize]
        decide
      refine ⟨_, hreach.act (.process none (recordAlloc count 48 1 64)
        fun _ => none) rfl, ?_, fun id hid => ?_⟩
      · change (Analyzer.processEvent sixEventKnobs _ _ none
          (recordAlloc count 48 1 64)).1.summaries.length = _
        rw [Analyzer.processEvent, if_neg hpos, if_neg htracked]
        simp only [recordAlloc, hfresh, Analyzer.modify,
          FirstMatch.length_updateFirst, hnext, List.length_append, hlength,
          List.length_singleton]
      · change (Analyzer.processEvent sixEventKnobs _ _ none
          (recordAlloc count 48 1 64)).1.find id = none
        have hother : id ≠ count := by omega
        rw [Analyzer.find_processEvent_of_ne hpos hother]
        exact habsent id (by omega)

/-- `malloc(0)` returns the stale pointer and is taken for its free; and the
first allocation of one site too many is not counted. -/
theorem not_takenAsAlloc_zero :
    (∃ state, Transition.Reachable (Tracked.step sixEventKnobs) .initial
        state ∧
      ¬TakenAsAlloc sixEventKnobs (fun _ => none) state.analyzer
        (state.analyzer.processEvent sixEventKnobs (fun _ => none) none
          (recordAlloc 8 0 1 64)).1 8 0 1 64) ∧
    ∃ state, Transition.Reachable (Tracked.step sixEventKnobs) .initial state ∧
      ¬TakenAsAlloc sixEventKnobs (fun _ => none) state.analyzer
        (state.analyzer.processEvent sixEventKnobs (fun _ => none) none
          (recordAlloc maxCallSites 48 1 64)).1 maxCallSites 48 1 64 := by
  constructor
  · refine ⟨Tracked.afterAll sixEventKnobs .initial staleTop,
      Tracked.reachable_afterAll .start _, fun htaken => ?_⟩
    have hsame := (htaken.frees 7).freeCount
    have hcounted : (((Tracked.afterAll sixEventKnobs .initial
        staleTop).analyzer.processEvent sixEventKnobs (fun _ => none) none
          (recordAlloc 8 0 1 64)).1.summaryOf 7).freeCount ≠
        ((Tracked.afterAll sixEventKnobs .initial
          staleTop).analyzer.summaryOf 7).freeCount := by decide
    exact hcounted hsame
  · obtain ⟨state, hreach, hlength, habsent⟩ :=
      reachable_of_count (le_refl maxCallSites)
    refine ⟨state, hreach, fun htaken => ?_⟩
    have hfull : ¬Admits state.analyzer maxCallSites := by
      rw [Admits, habsent maxCallSites le_rfl, hlength]
      simp
    have hcounted :=
      (htaken.counted (by decide) (by decide)).eventCount
    rw [processEvent_of_not_admits (by decide) (by decide) hfull] at hcounted
    omega

end TbjitAlloc.Trace
