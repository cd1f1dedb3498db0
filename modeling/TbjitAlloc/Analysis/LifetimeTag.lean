import TbjitAlloc.Analysis.PostWindow

/-!
# The lifetime tag over whole runs

One site's calls through the trampoline.  A call that falls through to the real
allocator is recorded, a call a routine serves is not, and every free is
recorded; the background thread processes what was recorded in order.  The true
counts run beside the state: each recorded call carries how many allocations the
site had made when it returned, and how many of them had been freed.
-/

namespace TbjitAlloc.Analysis

open CallSiteSummary (sameBooks_processAlloc)
open TbjitAlloc.Codegen
open TbjitAlloc.FirstMatch
open TbjitAlloc.Transition

/-! ## One site and its calls -/

/-- An event in the ring, with the true counts at the call. -/
structure Recorded where
  event : AllocEvent
  fromFree : Bool
  allocs : ℕ
  frees : ℕ

/-- `managed` holds the blocks that lie in a mapped segment of the site. -/
structure SiteRun where
  analyzer : Analyzer
  installed : Bool
  ring : List Recorded
  deopts : List DeoptReason
  live : List ℕ
  managed : List ℕ
  allocs : ℕ
  frees : ℕ

/-- The address a call returns, the thread it is made by and the answer of
`compile` are left open. -/
inductive SiteCall
  | malloc (size ptr tid : ℕ) (inSegment : Bool)
  | free (freeSite ptr tid : ℕ)
  | process (compile : RoutineSpec → Option ℕ)
  | handle (reason : DeoptReason)
  | drain
  | unmap (ptr : ℕ)

namespace SiteRun

def initial : SiteRun := ⟨.empty, false, [], [], [], [], 0, 0⟩

/-- `record_alloc` and `record_free`: the event goes to the end of the ring. -/
def record (state : SiteRun) (event : AllocEvent) (fromFree : Bool) :
    SiteRun :=
  { state with
    ring := state.ring ++ [⟨event, fromFree, state.allocs, state.frees⟩] }

/-- `malloc`: a routine, if there is one, serves the call unrecorded.  The
recorded size is cast to 32 bits. -/
def malloc (site : ℕ) (state : SiteRun) (size ptr tid : ℕ)
    (inSegment : Bool) : Option SiteRun :=
  if ptr = 0 ∨ ptr ∈ state.live then none
  else
    let state := { state with
      live := ptr :: state.live
      allocs := state.allocs + 1 }
    if state.installed then
      some { state with
        managed := if inSegment then ptr :: state.managed else state.managed }
    else some (state.record ⟨site, size % 2 ^ 32, tid, ptr⟩ false)

/-- `free`, of a block that is held or of the null pointer. -/
def free (state : SiteRun) (freeSite ptr tid : ℕ) : Option SiteRun :=
  if ptr = 0 then some (state.record ⟨freeSite, 0, tid, 0⟩ false)
  else if ptr ∈ state.live then
    let state := { state with
      live := state.live.erase ptr
      frees := state.frees + 1 }
    some (state.record ⟨freeSite, 0, tid, ptr⟩ true)
  else none

section Steps

variable (knobs : Knobs) (site : ℕ)

/-- `process_event` on a recorded event. -/
def processed (compile : RoutineSpec → Option ℕ) (state : SiteRun)
    (entry : Recorded) : Analyzer × Calls :=
  state.analyzer.processEvent knobs compile
    (if entry.event.ptr ∈ state.managed then some site else none) entry.event

/-- The oldest event is processed, and a compiled routine is installed. -/
def process (compile : RoutineSpec → Option ℕ) (state : SiteRun) :
    Option SiteRun :=
  match state.ring with
  | [] => none
  | entry :: rest =>
      let result := state.processed knobs site compile entry
      some { state with
        analyzer := result.1
        ring := rest
        installed := state.installed ||
          (result.2.compiled.bind Prod.snd).isSome }

def step (state : SiteRun) : SiteCall → Option SiteRun
  | .malloc size ptr tid inSegment => state.malloc site size ptr tid inSegment
  | .free freeSite ptr tid => state.free freeSite ptr tid
  | .process compile => state.process knobs site compile
  | .handle reason =>
      some { state with
        installed := false
        deopts := state.deopts ++ [reason] }
  | .drain =>
      match state.deopts with
      | [] => none
      | reason :: rest =>
          some { state with
            analyzer := state.analyzer.resetCallSite knobs site reason
            deopts := rest }
  | .unmap ptr =>
      if ptr ∈ state.live then none
      else some { state with managed := state.managed.filter (· ≠ ptr) }

end Steps

end SiteRun

/-! ## What the tag means -/

section Property

variable (knobs : Knobs) (site : ℕ) (tag : LifetimeTag) (state : SiteRun)

/-- For Reap: the call of `malloc` is recorded, and as an allocation of a size
the histogram tracks.  For Hold: the free that is processed finds its site, by
the header of its segment or on top of the stack. -/
def Counted : SiteCall → Prop
  | .malloc size _ _ _ => tag = .reap →
      state.installed = false ∧ size % 2 ^ 32 ≠ 0 ∧ size % 2 ^ 32 < maxSize
  | .process _ => tag = .hold →
      ∀ entry ∈ state.ring.head?, entry.fromFree = true →
        entry.event.ptr ∈ state.managed ∨
          (state.analyzer.summaryOf site).lifoTop entry.event.ptr = true
  | _ => True

end Property

/-! ## The counters of a summary -/

section Counters

variable {knobs : Knobs} {compile : RoutineSpec → Option ℕ}

/-- A step that leaves both counters alone. -/
def SameCounts (before after : CallSiteSummary) : Prop :=
  after.eventCount = before.eventCount ∧ after.freeCount = before.freeCount

/-- An allocation that is processed counts once. -/
theorem processAlloc_counts (summary : CallSiteSummary) (event : AllocEvent) :
    SameCounts (summary.recordAlloc event)
      (summary.processAlloc knobs compile event).1 :=
  have hbooks := sameBooks_processAlloc knobs compile summary event
  ⟨hbooks.eventCount, hbooks.freeCount⟩

end Counters

/-! ## The table of one site -/

section Table

variable {knobs : Knobs} {compile : RoutineSpec → Option ℕ}
variable {analyzer : Analyzer} {site : ℕ} {event : AllocEvent}

/-- The table holds at most the one site. -/
def Single (site : ℕ) (analyzer : Analyzer) : Prop :=
  analyzer.summaries = [] ∨
    ∃ summary, summary.id = site ∧ analyzer.summaries = [summary]

theorem summaryOf_singleton {summary : CallSiteSummary}
    (hid : summary.id = site) (htable : analyzer.summaries = [summary]) :
    analyzer.summaryOf site = summary := by
  rw [Analyzer.summaryOf, Analyzer.find, htable]
  simp [Analyzer.hasId, hid]

theorem ensure_singleton {summary : CallSiteSummary}
    (hid : summary.id = site) (htable : analyzer.summaries = [summary]) :
    analyzer.ensure site = analyzer := by
  have hfind : analyzer.find site = some summary := by
    rw [Analyzer.find, htable]
    simp [Analyzer.hasId, hid]
  exact Analyzer.ensure_of_found hfind

/-- The site has a slot once it is asked for, with the summary it had. -/
theorem Single.ensure (hsingle : Single site analyzer) :
    (analyzer.summaryOf site).id = site ∧
      (analyzer.ensure site).summaries = [analyzer.summaryOf site] := by
  rcases hsingle with hempty | ⟨summary, hid, htable⟩
  · have hfind : analyzer.find site = none := by
      rw [Analyzer.find, hempty, List.find?_nil]
    have hroom : analyzer.summaries.length < maxCallSites := by
      rw [hempty]
      decide
    rw [Analyzer.summaryOf, hfind, Option.getD_none]
    refine ⟨rfl, ?_⟩
    rw [Analyzer.ensure, hfind]
    dsimp only
    rw [dif_pos hroom]
    change analyzer.summaries ++ [CallSiteSummary.fresh site] = _
    rw [hempty, List.nil_append]
  · rw [summaryOf_singleton hid htable, ensure_singleton hid htable]
    exact ⟨hid, htable⟩

theorem single_modify {summary : CallSiteSummary}
    {p : CallSiteSummary → Bool} {f : CallSiteSummary → CallSiteSummary}
    (hid : summary.id = site) (htable : analyzer.summaries = [summary])
    (hkeep : (f summary).id = summary.id) :
    Single site (analyzer.modify p f) ∧
      (analyzer.modify p f).summaryOf site =
        if p summary then f summary else summary := by
  have hnext : (analyzer.modify p f).summaries =
      [if p summary then f summary else summary] := by
    change updateFirst p f analyzer.summaries = _
    rw [htable, updateFirst]
    split <;> rfl
  have hid' : (if p summary then f summary else summary).id = site := by
    split
    · exact hkeep.trans hid
    · exact hid
  exact ⟨.inr ⟨_, hid', hnext⟩, summaryOf_singleton hid' hnext⟩

/-- A free counts on the site if the header of its segment names the site, or
if the block is on top of the site's stack. -/
theorem Single.processFree (hsingle : Single site analyzer) (managed : Bool)
    (hptr : event.ptr ≠ 0) :
    Single site (analyzer.processFree (if managed then some site else none)
        event) ∧
      (analyzer.processFree (if managed then some site else none)
        event).summaryOf site =
        if managed ∨ (analyzer.summaryOf site).lifoTop event.ptr then
          (analyzer.summaryOf site).recordFree managed event
        else analyzer.summaryOf site := by
  unfold Analyzer.processFree
  rw [if_neg hptr]
  cases managed with
  | true =>
      obtain ⟨hid, htable⟩ := hsingle.ensure
      have hnext := single_modify (p := Analyzer.hasId site)
        (f := fun summary => summary.recordFree true event) hid htable rfl
      simpa [Analyzer.hasId, hid] using hnext
  | false =>
      simp only [Bool.false_eq_true, if_false, false_or]
      rcases hsingle with hempty | ⟨summary, hid, htable⟩
      · have hmodify : (analyzer.modify
            (fun summary => summary.lifoTop event.ptr)
            fun summary => summary.recordFree false event) = analyzer := by
          cases analyzer
          cases hempty
          rfl
        have hfresh : analyzer.summaryOf site = .fresh site := by
          rw [Analyzer.summaryOf, Analyzer.find, hempty]
          rfl
        rw [hmodify, hfresh]
        exact ⟨.inl hempty, rfl⟩
      · rw [summaryOf_singleton hid htable]
        exact single_modify hid htable rfl

/-- An allocation of the site is processed. -/
theorem Single.processAlloc (knobs : Knobs)
    (compile : RoutineSpec → Option ℕ) (hsingle : Single site analyzer)
    (segSite : Option ℕ) (hsite : event.callSite = site)
    (hsize : event.size ≠ 0) (htracked : event.size < maxSize) :
    let next := analyzer.processEvent knobs compile segSite event
    Single site next.1 ∧
      next.1.summaryOf site =
        ((analyzer.summaryOf site).processAlloc knobs compile event).1 ∧
      next.2 =
        ((analyzer.summaryOf site).processAlloc knobs compile event).2 := by
  obtain ⟨hid, htable⟩ := hsingle.ensure
  have hfind : (analyzer.ensure site).find site =
      some (analyzer.summaryOf site) := by
    rw [Analyzer.find, htable]
    simp [Analyzer.hasId, hid]
  rw [Analyzer.processEvent, if_neg hsize, if_neg (by omega), hsite]
  simp only [hfind]
  have hnext := single_modify (p := Analyzer.hasId site)
    (f := fun summary => (summary.processAlloc knobs compile event).1)
    hid htable (CallSiteSummary.processAlloc_id _ _ _ _)
  rw [if_pos (by simpa [Analyzer.hasId] using hid)] at hnext
  exact ⟨hnext.1, hnext.2, trivial⟩

/-- A runtime deopt leaves the counters alone. -/
theorem Single.reset (knobs : Knobs) (hsingle : Single site analyzer) (reason : DeoptReason) :
    Single site (analyzer.resetCallSite knobs site reason) ∧
      SameCounts (analyzer.summaryOf site)
        ((analyzer.resetCallSite knobs site reason).summaryOf site) := by
  rcases hsingle with hempty | ⟨summary, hid, htable⟩
  · have hmodify : analyzer.resetCallSite knobs site reason = analyzer := by
      cases analyzer
      cases hempty
      rfl
    rw [hmodify]
    exact ⟨.inl hempty, rfl, rfl⟩
  · obtain ⟨hnext, hsummary⟩ := single_modify (p := Analyzer.hasId site)
      (f := fun summary => summary.reset knobs reason) hid htable rfl
    rw [if_pos (Analyzer.hasId_iff.mpr hid)] at hsummary
    refine ⟨hnext, ?_⟩
    rw [Analyzer.resetCallSite, hsummary, summaryOf_singleton hid htable]
    exact ⟨rfl, rfl⟩

end Table

/-! ## The ring and the true counts -/

/-- What holds of an event of the run of one site. -/
structure Recorded.Ok (site : ℕ) (entry : Recorded) : Prop where
  free : entry.fromFree = true → entry.event.size = 0 ∧ entry.event.ptr ≠ 0
  alloc : entry.event.size ≠ 0 → entry.fromFree = false ∧
    entry.event.ptr ≠ 0 ∧ entry.event.callSite = site

/-- An allocation is recorded with the block it returned. -/
def Recorded.newAllocs (entry : Recorded) : ℕ :=
  if entry.fromFree = false ∧ entry.event.ptr ≠ 0 then 1 else 0

def Recorded.newFrees (entry : Recorded) : ℕ :=
  if entry.fromFree then 1 else 0

/-- The counts recorded in the ring lead from those of the last processed call
to the present ones: every free is recorded, and `related` says how the
allocations follow each other. -/
def Follows (related : ℕ → ℕ → Prop) :
    ℕ → ℕ → List Recorded → ℕ → ℕ → Prop
  | allocs, frees, [], allocsNow, freesNow =>
      related allocs allocsNow ∧ freesNow = frees
  | allocs, frees, entry :: rest, allocsNow, freesNow =>
      related (allocs + entry.newAllocs) entry.allocs ∧
        entry.frees = frees + entry.newFrees ∧
        Follows related entry.allocs entry.frees rest allocsNow freesNow

section Ring

variable {related : ℕ → ℕ → Prop} {allocs frees allocsNow freesNow : ℕ}
variable {ring : List Recorded}

/-- One more call is recorded. -/
theorem Follows.record (hrefl : ∀ count, related count count)
    (hshift : ∀ before after more, related before after →
      related (before + more) (after + more))
    (hfollows : Follows related allocs frees ring allocsNow freesNow)
    {entry : Recorded} (hallocs : entry.allocs = allocsNow + entry.newAllocs)
    (hfrees : entry.frees = freesNow + entry.newFrees) :
    Follows related allocs frees (ring ++ [entry]) entry.allocs
      entry.frees := by
  induction ring generalizing allocs frees with
  | nil =>
      obtain ⟨hrelated, rfl⟩ := hfollows
      refine ⟨?_, hfrees, hrefl _, rfl⟩
      rw [hallocs]
      exact hshift _ _ _ hrelated
  | cons first rest ih =>
      obtain ⟨hrelated, hfirst, hrest⟩ := hfollows
      exact ⟨hrelated, hfirst, ih hrest⟩

/-- An allocation that is not recorded. -/
theorem Follows.skip (hfollows : Follows (· ≤ ·) allocs frees ring allocsNow
    freesNow) :
    Follows (· ≤ ·) allocs frees ring (allocsNow + 1) freesNow := by
  induction ring generalizing allocs frees with
  | nil => exact ⟨Nat.le_succ_of_le hfollows.1, hfollows.2⟩
  | cons first rest ih =>
      obtain ⟨hrelated, hfirst, hrest⟩ := hfollows
      exact ⟨hrelated, hfirst, ih hrest⟩

end Ring

section Invariant

variable {knobs : Knobs} {site : ℕ} {tag : LifetimeTag}
variable {state next : SiteRun} {entry : Recorded}

/-- What processing one event does to the table and to the counters. -/
theorem processed_counts (knobs : Knobs) (compile : RoutineSpec → Option ℕ)
    (hsingle : Single site state.analyzer) (hok : entry.Ok site) :
    let before := state.analyzer.summaryOf site
    let next := state.processed knobs site compile entry
    Single site next.1 ∧
      (next.1.summaryOf site).eventCount = before.eventCount +
        (if entry.event.size ≠ 0 ∧ entry.event.size < maxSize then 1 else 0) ∧
      (next.1.summaryOf site).freeCount = before.freeCount +
        (if entry.event.size = 0 ∧ entry.event.ptr ≠ 0 ∧
            (entry.event.ptr ∈ state.managed ∨
              before.lifoTop entry.event.ptr = true) then 1 else 0) := by
  dsimp only
  by_cases hsize : entry.event.size = 0
  · rw [SiteRun.processed, Analyzer.processEvent, if_pos hsize]
    simp only [hsize, ne_eq, not_true_eq_false, false_and, if_false, true_and]
    by_cases hptr : entry.event.ptr = 0
    · unfold Analyzer.processFree
      rw [if_pos hptr]
      simp [hsingle, hptr]
    · obtain ⟨hnext, hsummary⟩ := hsingle.processFree
        (decide (entry.event.ptr ∈ state.managed)) hptr
      simp only [decide_eq_true_eq] at hnext hsummary
      refine ⟨hnext, ?_⟩
      rw [hsummary]
      simp only [hptr, not_false_eq_true, true_and]
      split <;> exact ⟨rfl, rfl⟩
  · simp only [hsize, ne_eq, not_false_eq_true, true_and, false_and, if_false]
    by_cases htracked : entry.event.size < maxSize
    · obtain ⟨hnext, hsummary, -⟩ := hsingle.processAlloc knobs compile
        (if entry.event.ptr ∈ state.managed then some site else none)
        (hok.alloc hsize).2.2 hsize htracked
      refine ⟨hnext, ?_⟩
      rw [SiteRun.processed, hsummary, if_pos htracked]
      exact processAlloc_counts _ _
    · rw [SiteRun.processed, Analyzer.processEvent, if_neg hsize,
        if_pos (by omega), if_neg htracked]
      exact ⟨hsingle, rfl, rfl⟩

/-- Every allocation is counted, and every count is of an allocation or of a
free. -/
def ReapOk (site : ℕ) (state : SiteRun) : Prop :=
  (∀ entry ∈ state.ring, entry.newAllocs = 1 →
      entry.event.size ≠ 0 ∧ entry.event.size < maxSize) ∧
    ∃ frees, Follows (· = ·) (state.analyzer.summaryOf site).eventCount frees
        state.ring state.allocs state.frees ∧
      (state.analyzer.summaryOf site).freeCount ≤ frees

/-- Every free is counted, and every count is of a free or of an allocation. -/
def HoldOk (site : ℕ) (state : SiteRun) : Prop :=
  ∃ allocs frees, Follows (· ≤ ·) allocs frees state.ring state.allocs
      state.frees ∧
    (state.analyzer.summaryOf site).eventCount ≤ allocs ∧
    frees ≤ (state.analyzer.summaryOf site).freeCount

structure CountsOk (site : ℕ) (tag : LifetimeTag) (state : SiteRun) : Prop
    where
  single : Single site state.analyzer
  entries : ∀ entry ∈ state.ring, entry.Ok site
  reap : tag = .reap → ReapOk site state
  hold : tag = .hold → HoldOk site state

/-- Steps that record nothing, process nothing and allocate nothing. -/
theorem CountsOk.keep (hok : CountsOk site tag state)
    (hsingle : Single site next.analyzer)
    (hcounts : SameCounts (state.analyzer.summaryOf site)
      (next.analyzer.summaryOf site))
    (hring : next.ring = state.ring) (hallocs : next.allocs = state.allocs)
    (hfrees : next.frees = state.frees) : CountsOk site tag next where
  single := hsingle
  entries := by
    rw [hring]
    exact hok.entries
  reap := fun htag => by
    rw [ReapOk, hring, hallocs, hfrees, hcounts.1, hcounts.2]
    exact hok.reap htag
  hold := fun htag => by
    rw [HoldOk, hring, hallocs, hfrees, hcounts.1, hcounts.2]
    exact hok.hold htag

theorem CountsOk.record (hok : CountsOk site tag state)
    (hanalyzer : next.analyzer = state.analyzer)
    (hring : next.ring = state.ring ++ [entry])
    (hallocs : next.allocs = state.allocs + entry.newAllocs)
    (hfrees : next.frees = state.frees + entry.newFrees)
    (hcounts : entry.allocs = next.allocs ∧ entry.frees = next.frees)
    (hentry : entry.Ok site)
    (htracked : tag = .reap → entry.newAllocs = 1 →
      entry.event.size ≠ 0 ∧ entry.event.size < maxSize) :
    CountsOk site tag next where
  single := by
    rw [hanalyzer]
    exact hok.single
  entries := by
    rw [hring]
    intro other hother
    rcases List.mem_append.mp hother with hold | hnew
    · exact hok.entries other hold
    · rw [List.mem_singleton.mp hnew]
      exact hentry
  reap := fun htag => by
    obtain ⟨hsizes, frees, hfollows, hle⟩ := hok.reap htag
    rw [ReapOk, hring, hanalyzer, ← hcounts.1, ← hcounts.2]
    refine ⟨fun other hother => ?_, frees, hfollows.record (fun _ => rfl)
      (fun _ _ _ heq => congrArg (· + _) heq) (hcounts.1.trans hallocs)
      (hcounts.2.trans hfrees), hle⟩
    rcases List.mem_append.mp hother with hold | hnew
    · exact hsizes other hold
    · rw [List.mem_singleton.mp hnew]
      exact htracked htag
  hold := fun htag => by
    obtain ⟨allocs, frees, hfollows, hle⟩ := hok.hold htag
    rw [HoldOk, hring, hanalyzer, ← hcounts.1, ← hcounts.2]
    exact ⟨allocs, frees, hfollows.record Nat.le_refl
      (fun _ _ more hle => Nat.add_le_add_right hle more)
      (hcounts.1.trans hallocs) (hcounts.2.trans hfrees), hle⟩

/-- An event the analyzer counts as an allocation is one. -/
theorem Recorded.Ok.newAllocs_eq (hok : entry.Ok site)
    (hsize : entry.event.size ≠ 0) : entry.newAllocs = 1 := by
  obtain ⟨hmalloc, hptr, -⟩ := hok.alloc hsize
  rw [Recorded.newAllocs, if_pos ⟨hmalloc, hptr⟩]

/-- An event the analyzer may count as a free is one, if the allocations are
recorded with their sizes. -/
theorem newFrees_eq (htracked : entry.newAllocs = 1 → entry.event.size ≠ 0)
    (hsize : entry.event.size = 0) (hptr : entry.event.ptr ≠ 0) :
    entry.newFrees = 1 := by
  rw [Recorded.newFrees]
  split
  · rfl
  · next hmalloc =>
      rw [Bool.not_eq_true] at hmalloc
      exact absurd hsize (htracked (if_pos ⟨hmalloc, hptr⟩))

theorem CountsOk.process (hok : CountsOk site tag state)
    (compile : RoutineSpec → Option ℕ)
    (hcounted : Counted site tag state (.process compile))
    (hstep : state.process knobs site compile = some next) :
    CountsOk site tag next := by
  rw [SiteRun.process] at hstep
  split at hstep
  · cases hstep
  · next entry rest hring =>
      obtain rfl := Option.some.inj hstep
      have hentry := hok.entries entry (by rw [hring]; exact List.mem_cons_self)
      obtain ⟨hsingle, hevents, hfrees⟩ := processed_counts knobs compile
        hok.single hentry
      refine ⟨hsingle, fun other hother => hok.entries other ?_, fun htag => ?_,
        fun htag => ?_⟩
      · rw [hring]
        exact List.mem_cons_of_mem _ hother
      · obtain ⟨hsizes, frees, hfollows, hle⟩ := hok.reap htag
        rw [hring] at hfollows
        obtain ⟨hallocs, hnow, hrest⟩ := hfollows
        have htracked := hsizes entry (by rw [hring]; exact List.mem_cons_self)
        refine ⟨fun other hother => hsizes other ?_, entry.frees, ?_, ?_⟩
        · rw [hring]
          exact List.mem_cons_of_mem _ hother
        · have hcount : (state.analyzer.summaryOf site).eventCount +
              (if entry.event.size ≠ 0 ∧ entry.event.size < maxSize then 1
                else 0) = entry.allocs := by
            rw [← hallocs]
            split
            · next hsize => rw [hentry.newAllocs_eq hsize.1]
            · next hsize =>
                rw [Recorded.newAllocs, if_neg fun hnew =>
                  hsize (htracked (if_pos hnew))]
          rw [hevents, hcount]
          exact hrest
        · rw [hfrees, hnow]
          split
          · next hfreed =>
              rw [newFrees_eq (fun hnew => (htracked hnew).1) hfreed.1
                hfreed.2.1]
              exact Nat.add_le_add_right hle 1
          · exact Nat.le_add_right_of_le hle
      · obtain ⟨allocs, frees, hfollows, hevents_le, hfrees_le⟩ := hok.hold htag
        rw [hring] at hfollows
        obtain ⟨hallocs, hnow, hrest⟩ := hfollows
        refine ⟨entry.allocs, entry.frees, hrest, ?_, ?_⟩
        · rw [hevents]
          split
          · next hsize =>
              rw [hentry.newAllocs_eq hsize.1] at hallocs
              exact (Nat.add_le_add_right hevents_le 1).trans hallocs
          · exact (Nat.le_add_right_of_le hevents_le).trans hallocs
        · rw [hfrees, hnow, Recorded.newFrees]
          split
          · next hfree =>
              obtain ⟨hsize, hptr⟩ := hentry.free hfree
              have hfound := hcounted htag entry (by rw [hring]; rfl) hfree
              rw [if_pos ⟨hsize, hptr, hfound⟩]
              exact Nat.add_le_add_right hfrees_le 1
          · exact Nat.le_add_right_of_le hfrees_le

theorem CountsOk.malloc (hok : CountsOk site tag state)
    {size ptr tid : ℕ} {inSegment : Bool}
    (hcounted : Counted site tag state (.malloc size ptr tid inSegment))
    (hstep : state.malloc site size ptr tid inSegment = some next) :
    CountsOk site tag next := by
  rw [SiteRun.malloc] at hstep
  split at hstep
  · cases hstep
  · next hfresh =>
      rw [not_or] at hfresh
      dsimp only at hstep
      split at hstep
      · next hinstalled =>
          obtain rfl := Option.some.inj hstep
          refine ⟨hok.single, hok.entries, fun htag => ?_, fun htag => ?_⟩
          · rw [(hcounted htag).1] at hinstalled
            cases hinstalled
          · obtain ⟨allocs, frees, hfollows, hle⟩ := hok.hold htag
            exact ⟨allocs, frees, hfollows.skip, hle⟩
      · obtain rfl := Option.some.inj hstep
        have hnew : Recorded.newAllocs ⟨⟨site, size % 2 ^ 32, tid, ptr⟩, false,
            state.allocs + 1, state.frees⟩ = 1 := if_pos ⟨rfl, hfresh.1⟩
        refine hok.record rfl rfl (by rw [hnew]; rfl) rfl ⟨rfl, rfl⟩ ?_ ?_
        · exact ⟨fun h => (by cases h), fun _ => ⟨rfl, hfresh.1, rfl⟩⟩
        · exact fun htag _ => (hcounted htag).2

theorem CountsOk.free (hok : CountsOk site tag state) {freeSite ptr tid : ℕ}
    (hstep : state.free freeSite ptr tid = some next) :
    CountsOk site tag next := by
  rw [SiteRun.free] at hstep
  split at hstep
  · obtain rfl := Option.some.inj hstep
    exact hok.record rfl rfl rfl rfl ⟨rfl, rfl⟩
      ⟨fun h => (by cases h), fun h => absurd rfl h⟩ fun _ h => by cases h
  · next hptr =>
      split at hstep
      · obtain rfl := Option.some.inj hstep
        exact hok.record rfl rfl rfl rfl ⟨rfl, rfl⟩
          ⟨fun _ => ⟨rfl, hptr⟩, fun h => absurd rfl h⟩ fun _ h => by cases h
      · cases hstep

end Invariant

/-! ## Runs with windows of six events -/

/-- Site 7 allocates blocks of 16 bytes at these addresses, in a segment if a
routine serves them. -/
def mallocs (ptrs : List ℕ) (inSegment : Bool) : List SiteCall :=
  ptrs.map fun ptr => .malloc 16 ptr 1 inSegment

def frees (ptrs : List ℕ) : List SiteCall :=
  ptrs.map fun ptr => .free 9 ptr 1

end TbjitAlloc.Analysis
