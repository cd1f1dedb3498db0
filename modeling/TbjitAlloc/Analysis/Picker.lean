import TbjitAlloc.Analysis.Summary
import TbjitAlloc.Core.FirstMatch

/-!
# The picker

The analyzer's reaction to one event: the windows of a site that is not yet
specialized, the strategy it settles on, and the drift check once it is.  The
calls an event makes to the comparison and to the code generator are returned
beside the new state, since what they are given is part of what is proved.
-/

namespace TbjitAlloc.Analysis

open TbjitAlloc.Codegen
open TbjitAlloc.FirstMatch

/-- `MAX_CALL_SITES`. -/
def maxCallSites : ℕ := 4096

/-- `MULTI_CLASS_MAX`. -/
def multiClassMax : ℕ := 4

/-- The process-wide settings.  `ksStable` is the comparison at the configured
level; `TbjitAlloc.Analysis.ksStable` is the source's, and nothing depends on
which it is. -/
structure Knobs where
  windowSize : ℕ
  stableWindows : ℕ
  deoptBlacklistLimit : ℕ
  ksStable : ExactHistogram → ExactHistogram → Bool
  forced : Strategy
  oracleMode : Bool
  traceOnly : Bool
  windowSize_pos : 0 < windowSize
  stableWindows_pos : 0 < stableWindows

/-- The calls one event makes: the histograms handed to the comparison by
`advance_prespec` and by `check_postspec`, and the specification handed to
`compile` with its answer. -/
structure Calls where
  prespecTest : Option (ExactHistogram × ExactHistogram) := none
  postspecTest : Option (ExactHistogram × ExactHistogram) := none
  compiled : Option (RoutineSpec × Option ℕ) := none

namespace CallSiteSummary

/-! ## The choice of a strategy -/

/-- The lifetime tag, from the ratio of frees to allocations. -/
def learnedLifetime (summary : CallSiteSummary) : LifetimeTag :=
  if summary.eventCount = 0 then summary.lifetime
  else
    let ratio : ℚ := summary.freeCount / summary.eventCount
    if 1 / 2 ≤ ratio then .reap
    else if ratio < 1 / 10 then .hold else .unknown

/-- `PC_TID_CONCENTRATION` of the events are one thread's. -/
def concentrated (dist : ThreadDist) : Bool :=
  0 < dist.total ∧ (95 / 100 : ℚ) ≤ dist.topCount / dist.total

def pcPattern (summary : CallSiteSummary) : Bool :=
  concentrated summary.allocDist ∧ concentrated summary.freeDist ∧
    summary.allocDist.topTid ≠ summary.freeDist.topTid

def pairedPattern (summary : CallSiteSummary) : Bool :=
  0 < summary.eventCount ∧ 0 < summary.topPair.pairCount ∧
    (95 / 100 : ℚ) ≤ summary.topPair.pairCount / summary.eventCount ∧
    (95 / 100 : ℚ) ≤ summary.topPair.lifoCount / summary.topPair.pairCount

def learnedClasses (summary : CallSiteSummary) : List Mode :=
  summary.activeHist.topKModes multiClassMax (9 / 10)

/-- The candidate of a site whose lifetime has just been learned. -/
def pickStrategy (summary : CallSiteSummary) (forced : Strategy) : Strategy :=
  if forced ≠ .generic then forced
  else if summary.pairedPattern then .pairedStack
  else if summary.pcPattern then .producerConsumer
  else if summary.activeHist.isMonomorphic (95 / 100) then
    if summary.lifetime ≠ .hold ∧
        pointerSize ≤ summary.activeHist.dominantSize then
      .threadLocalFreeList
    else .bumpAlloc
  else if 2 ≤ summary.classes.length then .multiSizeFreeList
  else .threadLocalFreeList

/-- The specification handed to `compile`. -/
def routineSpec (summary : CallSiteSummary) : RoutineSpec where
  id := summary.id
  strategy := summary.candidate
  size := summary.activeHist.dominantSize
  classSizes := fun i =>
    if summary.candidate = .multiSizeFreeList then
      ((summary.classes[i]?).map Mode.size).getD 0
    else 0
  classCount :=
    if summary.candidate = .multiSizeFreeList then summary.classes.length
    else 0

/-! ## Phases -/

section Phases

variable (knobs : Knobs) (compile : RoutineSpec → Option ℕ)

def prespecStable (summary : CallSiteSummary) : Bool :=
  match summary.prespecTest with
  | some (recent, previous) => knobs.ksStable recent previous
  | none => false

/-- What a site learns when its windows have been stable for long enough. -/
def learn (summary : CallSiteSummary) : CallSiteSummary :=
  let summary := { summary with
    baseline := summary.activeHist
    lifetime := summary.learnedLifetime
    classes := summary.learnedClasses }
  { summary with
    candidate := summary.pickStrategy knobs.forced
    phase := .compiled
    firstCompileEvents :=
      if summary.firstCompileEvents = 0 then summary.eventCount
      else summary.firstCompileEvents }

/-- Compile for what was learned.  The caller installs the routine. -/
def specialize (summary : CallSiteSummary) : CallSiteSummary × Calls :=
  let summary := summary.learn knobs
  let routine := compile summary.routineSpec
  ({ summary with
      codePage := if routine.isSome then routine else summary.codePage },
    { compiled := some (summary.routineSpec, routine) })

def advancePrespec (summary : CallSiteSummary) : CallSiteSummary × Calls :=
  let test := summary.prespecTest
  if summary.prespecStable knobs then
    let summary := { summary with stableWindows := summary.stableWindows + 1 }
    if knobs.stableWindows ≤ summary.stableWindows then
      if summary.blacklisted || knobs.traceOnly then
        (rotate { summary with stableWindows := 0 }, { prespecTest := test })
      else
        let result := summary.specialize knobs compile
        (result.1, { result.2 with prespecTest := test })
    else (rotate summary, { prespecTest := test })
  else (rotate { summary with stableWindows := 0 }, { prespecTest := test })

def checkPostspec (summary : CallSiteSummary) : CallSiteSummary × Calls :=
  if knobs.oracleMode then ({ summary with postWindow := .empty }, { })
  else
    let test := some (summary.postWindow.hist, summary.baseline)
    if knobs.ksStable summary.postWindow.hist summary.baseline then
      ({ summary with postWindow := .empty }, { postspecTest := test })
    else
      ({ summary.restartWindows with
          phase := .deopt
          deoptReason := .sizeDrift
          postWindow := .empty }, { postspecTest := test })

/-- The windowing of an allocation, once its bookkeeping is done. -/
def recordSize (summary : CallSiteSummary) (size : ℕ) :
    CallSiteSummary × Calls :=
  if summary.phase = .preSpec then
    let summary := summary.recordActive size
    if (summary.windows summary.active).full knobs.windowSize then
      summary.advancePrespec knobs compile
    else (summary, { })
  else
    let summary := summary.recordPost size
    if summary.postWindow.full knobs.windowSize then
      summary.checkPostspec knobs
    else (summary, { })

/-- The allocation branch of `process_event`, on the site's summary. -/
def processAlloc (summary : CallSiteSummary) (event : AllocEvent) :
    CallSiteSummary × Calls :=
  (summary.recordAlloc event).recordSize knobs compile event.size

/-- The body of `reset_call_site`, on the site's summary. -/
def reset (summary : CallSiteSummary) (reason : DeoptReason) :
    CallSiteSummary :=
  let deoptCount := (summary.deoptCount + 1) % 2 ^ 32
  { summary.restartWindows with
    deoptCount := deoptCount
    blacklisted :=
      decide (knobs.deoptBlacklistLimit ≤ deoptCount) || summary.blacklisted
    deoptReason :=
      if reason ≠ .other ∨ summary.deoptReason = .none then reason
      else summary.deoptReason
    phase := .deopt
    codePage := none }

/-- The phases and windows change, the books stay: the identifier, the counts
and what is remembered about threads and blocks. -/
structure SameBooks (before after : CallSiteSummary) : Prop where
  id : after.id = before.id
  eventCount : after.eventCount = before.eventCount
  freeCount : after.freeCount = before.freeCount
  deoptCount : after.deoptCount = before.deoptCount
  allocDist : after.allocDist = before.allocDist
  freeDist : after.freeDist = before.freeDist
  lifoStack : after.lifoStack = before.lifoStack
  topPair : after.topPair = before.topPair

theorem sameBooks_advancePrespec (summary : CallSiteSummary) :
    SameBooks summary (summary.advancePrespec knobs compile).1 := by
  rw [advancePrespec]
  split
  · dsimp only
    split
    · split <;> exact ⟨rfl, rfl, rfl, rfl, rfl, rfl, rfl, rfl⟩
    · exact ⟨rfl, rfl, rfl, rfl, rfl, rfl, rfl, rfl⟩
  · exact ⟨rfl, rfl, rfl, rfl, rfl, rfl, rfl, rfl⟩

theorem sameBooks_checkPostspec (summary : CallSiteSummary) :
    SameBooks summary (summary.checkPostspec knobs).1 := by
  rw [checkPostspec]
  split
  · exact ⟨rfl, rfl, rfl, rfl, rfl, rfl, rfl, rfl⟩
  · dsimp only
    split <;> exact ⟨rfl, rfl, rfl, rfl, rfl, rfl, rfl, rfl⟩

/-- An allocation is booked before it goes to a window. -/
theorem sameBooks_processAlloc (summary : CallSiteSummary)
    (event : AllocEvent) :
    SameBooks (summary.recordAlloc event)
      (summary.processAlloc knobs compile event).1 := by
  rw [processAlloc, recordSize]
  split
  · dsimp only
    split
    · have hbooks := sameBooks_advancePrespec knobs compile
        ((summary.recordAlloc event).recordActive event.size)
      exact ⟨hbooks.id, hbooks.eventCount, hbooks.freeCount, hbooks.deoptCount,
        hbooks.allocDist, hbooks.freeDist, hbooks.lifoStack, hbooks.topPair⟩
    · exact ⟨rfl, rfl, rfl, rfl, rfl, rfl, rfl, rfl⟩
  · dsimp only
    split
    · have hbooks := sameBooks_checkPostspec knobs
        ((summary.recordAlloc event).recordPost event.size)
      exact ⟨hbooks.id, hbooks.eventCount, hbooks.freeCount, hbooks.deoptCount,
        hbooks.allocDist, hbooks.freeDist, hbooks.lifoStack, hbooks.topPair⟩
    · exact ⟨rfl, rfl, rfl, rfl, rfl, rfl, rfl, rfl⟩

@[simp] theorem processAlloc_id (summary : CallSiteSummary)
    (event : AllocEvent) :
    (summary.processAlloc knobs compile event).1.id = summary.id :=
  (sameBooks_processAlloc knobs compile summary event).id

@[simp] theorem reset_id (summary : CallSiteSummary) (reason : DeoptReason) :
    (summary.reset knobs reason).id = summary.id := rfl

end Phases

end CallSiteSummary

/-! ## The table of sites -/

/-- `g_summaries`, up to `g_summary_count`. -/
structure Analyzer where
  summaries : List CallSiteSummary
  summaries_le : summaries.length ≤ maxCallSites

namespace Analyzer

/-- The state `reset_state` leaves. -/
def empty : Analyzer := ⟨[], Nat.zero_le _⟩

def hasId (id : ℕ) (summary : CallSiteSummary) : Bool := summary.id = id

/-- The summary of a site. -/
def find (analyzer : Analyzer) (id : ℕ) : Option CallSiteSummary :=
  analyzer.summaries.find? (hasId id)

/-- The first half of `find_or_create`: the site has a slot afterwards unless
the table is full. -/
def ensure (analyzer : Analyzer) (id : ℕ) : Analyzer :=
  match analyzer.find id with
  | some _ => analyzer
  | none =>
      if hroom : analyzer.summaries.length < maxCallSites then
        ⟨analyzer.summaries ++ [.fresh id], by
          rw [List.length_append]
          exact hroom⟩
      else analyzer

/-- Update the first summary that satisfies a predicate. -/
def modify (analyzer : Analyzer) (p : CallSiteSummary → Bool)
    (f : CallSiteSummary → CallSiteSummary) : Analyzer :=
  ⟨updateFirst p f analyzer.summaries, by
    rw [length_updateFirst]
    exact analyzer.summaries_le⟩

section Searching

variable {analyzer : Analyzer} {id other : ℕ}

@[simp] theorem hasId_iff {summary : CallSiteSummary} :
    hasId id summary = true ↔ summary.id = id := by
  simp [hasId]

theorem id_of_find {summary : CallSiteSummary}
    (hfind : analyzer.find id = some summary) : summary.id = id :=
  hasId_iff.mp (List.find?_some hfind)

theorem ensure_of_found {summary : CallSiteSummary}
    (hfind : analyzer.find id = some summary) : analyzer.ensure id = analyzer := by
  rw [ensure, hfind]

theorem ensure_of_full (hfull : ¬analyzer.summaries.length < maxCallSites) :
    analyzer.ensure id = analyzer := by
  rw [ensure]
  split
  · rfl
  · rw [dif_neg hfull]

theorem find_ensure_of_room (hfind : analyzer.find id = none)
    (hroom : analyzer.summaries.length < maxCallSites) :
    (analyzer.ensure id).find id = some (.fresh id) := by
  rw [ensure, hfind]
  simp only [hroom, dif_pos, find]
  rw [find] at hfind
  simp [List.find?_append, hfind, hasId, CallSiteSummary.fresh]

/-- A site that was not there is absent or new afterwards. -/
theorem find_ensure_self (analyzer : Analyzer) (id : ℕ) :
    (analyzer.ensure id).find id = analyzer.find id ∨
      analyzer.find id = none ∧
        (analyzer.ensure id).find id = some (.fresh id) := by
  cases hfind : analyzer.find id with
  | some summary => exact .inl (by rw [ensure_of_found hfind, hfind])
  | none =>
      by_cases hroom : analyzer.summaries.length < maxCallSites
      · exact .inr ⟨rfl, find_ensure_of_room hfind hroom⟩
      · exact .inl (by rw [ensure_of_full hroom, hfind])

theorem find_ensure_of_ne (hne : other ≠ id) :
    (analyzer.ensure id).find other = analyzer.find other := by
  rw [ensure]
  split
  · rfl
  · split
    · simp [find, List.find?_append, hasId, CallSiteSummary.fresh, hne.symm]
    · rfl

theorem find_modify_self {f : CallSiteSummary → CallSiteSummary}
    (hkeep : ∀ summary, (f summary).id = summary.id) :
    (analyzer.modify (hasId id) f).find id = (analyzer.find id).map f :=
  find?_updateFirst fun summary => by simp only [hasId, hkeep]

theorem find_modify_of_ne {f : CallSiteSummary → CallSiteSummary}
    (hkeep : ∀ summary, (f summary).id = summary.id) (hne : other ≠ id) :
    (analyzer.modify (hasId id) f).find other = analyzer.find other := by
  refine find?_updateFirst_of_disjoint
    (fun summary => by simp only [hasId, hkeep]) fun summary hid => ?_
  rw [hasId_iff] at hid
  simp [hasId, hid, hne.symm]

theorem find_modify_cases (analyzer : Analyzer) (id : ℕ)
    (p : CallSiteSummary → Bool) {f : CallSiteSummary → CallSiteSummary}
    (hkeep : ∀ summary, (f summary).id = summary.id) :
    (analyzer.modify p f).find id = analyzer.find id ∨
      ∃ summary, p summary = true ∧ analyzer.find id = some summary ∧
        (analyzer.modify p f).find id = some (f summary) :=
  find?_updateFirst_cases fun summary => by simp only [hasId, hkeep]

end Searching

def getPhase (analyzer : Analyzer) (id : ℕ) : Phase :=
  match analyzer.find id with
  | some summary => summary.phase
  | none => .preSpec

/-- The free branch of `process_event`.  `segSite` is the allocating site in
the header of the pointer's segment, if the segment is managed; any other
pointer is looked for on top of the sites' stacks. -/
def processFree (analyzer : Analyzer) (segSite : Option ℕ)
    (event : AllocEvent) : Analyzer :=
  if event.ptr = 0 then analyzer
  else
    match segSite with
    | some site =>
        (analyzer.ensure site).modify (hasId site)
          fun summary => summary.recordFree true event
    | none =>
        analyzer.modify (fun summary => summary.lifoTop event.ptr)
          fun summary => summary.recordFree false event

/-- `process_event`. -/
def processEvent (knobs : Knobs) (compile : RoutineSpec → Option ℕ)
    (analyzer : Analyzer) (segSite : Option ℕ) (event : AllocEvent) :
    Analyzer × Calls :=
  if event.size = 0 then (analyzer.processFree segSite event, { })
  else if maxSize ≤ event.size then (analyzer, { })
  else
    let analyzer := analyzer.ensure event.callSite
    match analyzer.find event.callSite with
    | none => (analyzer, { })
    | some summary =>
        (analyzer.modify (hasId event.callSite) fun summary =>
            (summary.processAlloc knobs compile event).1,
          (summary.processAlloc knobs compile event).2)

def resetCallSite (knobs : Knobs) (analyzer : Analyzer) (id : ℕ)
    (reason : DeoptReason) : Analyzer :=
  analyzer.modify (hasId id) fun summary => summary.reset knobs reason

section Frames

open CallSiteSummary (recordFree_id)

variable {knobs : Knobs} {compile : RoutineSpec → Option ℕ}
variable {analyzer : Analyzer} {event : AllocEvent} {segSite : Option ℕ}
variable {id : ℕ}

/-- An allocation event rewrites its own site's summary. -/
theorem find_processEvent_self (knobs : Knobs)
    (compile : RoutineSpec → Option ℕ) (analyzer : Analyzer)
    (segSite : Option ℕ) (hsize : event.size ≠ 0)
    (htracked : event.size < maxSize) :
    (analyzer.processEvent knobs compile segSite event).1.find event.callSite =
      ((analyzer.ensure event.callSite).find event.callSite).map fun summary =>
        (summary.processAlloc knobs compile event).1 := by
  rw [processEvent, if_neg hsize, if_neg (by omega)]
  dsimp only
  split
  · next hfind => rw [hfind, Option.map_none]
  · next hfind =>
      rw [find_modify_self fun _ => CallSiteSummary.processAlloc_id _ _ _ _]

theorem find_processEvent_of_ne (hsize : event.size ≠ 0)
    (hne : id ≠ event.callSite) :
    (analyzer.processEvent knobs compile segSite event).1.find id =
      analyzer.find id := by
  rw [processEvent, if_neg hsize]
  split
  · rfl
  · dsimp only
    split
    · exact find_ensure_of_ne hne
    · rw [find_modify_of_ne
        (fun _ => CallSiteSummary.processAlloc_id _ _ _ _) hne,
        find_ensure_of_ne hne]

/-- A free of a block no segment manages counts on a site that has the block
on top of its stack, or nowhere. -/
theorem find_processFree_generic (analyzer : Analyzer) (event : AllocEvent)
    (id : ℕ) :
    (analyzer.processFree none event).find id = analyzer.find id ∨
      ∃ summary, summary.lifoTop event.ptr = true ∧
        analyzer.find id = some summary ∧
        (analyzer.processFree none event).find id =
          some (summary.recordFree false event) := by
  unfold processFree
  split
  · exact .inl rfl
  · exact find_modify_cases analyzer id _ fun _ => recordFree_id _ false event

/-- A free event leaves a site as it was, creates it, or counts the free. -/
theorem find_processFree (analyzer : Analyzer) (segSite : Option ℕ)
    (event : AllocEvent) (id : ℕ) :
    (analyzer.processFree segSite event).find id = analyzer.find id ∨
      (∃ managed, (analyzer.processFree segSite event).find id =
        (analyzer.find id).map fun summary =>
          summary.recordFree managed event) ∨
      analyzer.find id = none ∧
        ∃ managed, (analyzer.processFree segSite event).find id =
          some ((CallSiteSummary.fresh id).recordFree managed event) := by
  cases segSite with
  | none =>
      rcases find_processFree_generic analyzer event id with
        hsame | ⟨summary, -, hfind, hfreed⟩
      · exact .inl hsame
      · exact .inr (.inl ⟨false, by rw [hfreed, hfind, Option.map_some]⟩)
  | some site =>
      unfold processFree
      split
      · exact .inl rfl
      · dsimp only
        by_cases hid : id = site
        · subst hid
          rw [find_modify_self fun _ => recordFree_id _ _ _]
          rcases find_ensure_self analyzer id with
            hsame | ⟨hnone, hfresh⟩
          · rw [hsame]
            exact .inr (.inl ⟨true, rfl⟩)
          · rw [hfresh]
            exact .inr (.inr ⟨hnone, true, rfl⟩)
        · rw [find_modify_of_ne (fun _ => recordFree_id _ _ _) hid,
            find_ensure_of_ne hid]
          exact .inl rfl

theorem find_resetCallSite_self {reason : DeoptReason} :
    (analyzer.resetCallSite knobs id reason).find id =
      (analyzer.find id).map fun summary => summary.reset knobs reason :=
  find_modify_self fun _ => rfl

theorem find_resetCallSite_of_ne {other : ℕ} {reason : DeoptReason}
    (hne : id ≠ other) :
    (analyzer.resetCallSite knobs other reason).find id = analyzer.find id :=
  find_modify_of_ne (fun _ => rfl) hne

end Frames

end Analyzer

end TbjitAlloc.Analysis
