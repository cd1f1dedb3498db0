import TbjitAlloc.Analysis.OrderBlind
import TbjitAlloc.Analysis.TwoRuns

/-!
# Streams with reordered windows

Two streams of events agree in everything but the sizes of allocations, and
every block of one window of a site's allocations has the same sizes in both.
Without runtime deopts a site fills its windows one after another, so each of
these blocks is one window before or after specialization, and after every
event the sites of both runs have made the same decisions.
-/

namespace TbjitAlloc.Analysis

open TbjitAlloc.Blocks
open TbjitAlloc.Codegen

/-! ## Streams -/

/-- The calls differ at most in the size of an allocation. -/
structure SameButSize (left right : EventCall) : Prop where
  segSite : left.segSite = right.segSite
  compile : left.compile = right.compile
  callSite : left.event.callSite = right.event.callSite
  threadId : left.event.threadId = right.event.threadId
  ptr : left.event.ptr = right.event.ptr
  size : left.event.size = right.event.size ∨ left.Allocates ∧ right.Allocates

def EventCall.allocSize (site : ℕ) (call : EventCall) : Option ℕ :=
  if call.event.callSite = site ∧ call.Allocates then some call.event.size
  else none

/-- The sizes a site allocates. -/
def allocSizes (site : ℕ) (calls : List EventCall) : List ℕ :=
  calls.filterMap (EventCall.allocSize site)

/-- The streams agree but for the order of sizes inside the blocks of a site. -/
structure Reordered (windowSize : ℕ) (left right : List EventCall) : Prop where
  same : List.Forall₂ SameButSize left right
  blocks : ∀ site index,
    (index + 1) * windowSize ≤ (allocSizes site left).length →
      (block windowSize (allocSizes site left) index).Perm
        (block windowSize (allocSizes site right) index)

section Prefixes

variable {windowSize site : ℕ} {left right : List EventCall}
variable {call call' : EventCall}

theorem SameButSize.allocates_iff (hsame : SameButSize call call') :
    call.Allocates ↔ call'.Allocates := by
  rcases hsame.size with hsize | ⟨halloc, halloc'⟩
  · rw [EventCall.Allocates, EventCall.Allocates, hsize]
  · exact iff_of_true halloc halloc'

theorem SameButSize.event_eq (hsame : SameButSize call call')
    (hnot : ¬call.Allocates) : call = call' := by
  have hsize := hsame.size.resolve_right fun h => hnot h.1
  obtain ⟨segSite, ⟨callSite, size, threadId, ptr⟩, compile⟩ := call
  obtain ⟨segSite', ⟨callSite', size', threadId', ptr'⟩, compile'⟩ := call'
  obtain ⟨rfl, rfl, rfl, rfl, rfl, -⟩ := hsame
  exact congrArg (fun size => EventCall.mk _ ⟨_, size, _, _⟩ _) hsize

theorem allocSizes_append (site : ℕ) (calls : List EventCall)
    (call : EventCall) :
    allocSizes site (calls ++ [call]) =
      allocSizes site calls ++ (call.allocSize site).toList := by
  rw [allocSizes, List.filterMap_append]
  cases hsize : call.allocSize site <;> simp [allocSizes, hsize]

theorem length_allocSizes (hsame : List.Forall₂ SameButSize left right)
    (site : ℕ) :
    (allocSizes site left).length = (allocSizes site right).length := by
  induction hsame with
  | nil => rfl
  | @cons call call' _ _ hcall _ ih =>
      have hboth : call.event.callSite = site ∧ call.Allocates ↔
          call'.event.callSite = site ∧ call'.Allocates := by
        rw [hcall.callSite, hcall.allocates_iff]
      rw [allocSizes, allocSizes] at ih ⊢
      by_cases hsite : call.event.callSite = site ∧ call.Allocates
      · simp [EventCall.allocSize, hsite, hboth.mp hsite, ih]
      · simp [EventCall.allocSize, hsite, hboth.not.mp hsite, ih]

/-- Streams that agree have agreeing prefixes. -/
theorem Reordered.initial {more more' : List EventCall}
    (hreordered : Reordered windowSize (left ++ more) (right ++ more'))
    (hlength : left.length = right.length) :
    Reordered windowSize left right := by
  have hsame := List.forall₂_take left.length hreordered.same
  rw [List.take_left, hlength, List.take_left] at hsame
  refine ⟨hsame, fun site index hcomplete => ?_⟩
  have hsizes := length_allocSizes hsame site
  have hblock := hreordered.blocks site index
  rw [allocSizes, allocSizes, List.filterMap_append, List.filterMap_append,
    ← allocSizes, ← allocSizes, block_append _ hcomplete,
    block_append _ (hsizes ▸ hcomplete), List.length_append] at hblock
  exact hblock (by omega)

theorem Reordered.of_append
    (hreordered : Reordered windowSize (left ++ [call]) (right ++ [call'])) :
    Reordered windowSize left right ∧ SameButSize call call' := by
  have hlength := hreordered.same.length_eq
  rw [List.length_append, List.length_append, List.length_singleton,
    List.length_singleton, Nat.add_right_cancel_iff] at hlength
  have hlast := List.forall₂_drop left.length hreordered.same
  rw [List.drop_left, hlength, List.drop_left] at hlast
  cases hlast with
  | cons hcall _ => exact ⟨hreordered.initial hlength, hcall⟩

/-- An allocation continues the sizes of its site. -/
theorem Reordered.continues (hwindow : 0 < windowSize)
    (hreordered : Reordered windowSize (left ++ [call]) (right ++ [call']))
    (halloc : call.Allocates) :
    Continues windowSize (allocSizes call.event.callSite left)
      (allocSizes call.event.callSite right) call.event.size
      call'.event.size := by
  obtain ⟨hinitial, hcall⟩ := hreordered.of_append
  have hlength := length_allocSizes hinitial.same call.event.callSite
  refine ⟨hlength, fun hfull => ?_⟩
  have hsize : call.allocSize call.event.callSite = some call.event.size :=
    if_pos ⟨rfl, halloc⟩
  have hsize' : call'.allocSize call.event.callSite = some call'.event.size :=
    if_pos ⟨hcall.callSite.symm, hcall.allocates_iff.mp halloc⟩
  have hblock := hreordered.blocks call.event.callSite
    ((allocSizes call.event.callSite left).length / windowSize)
  rw [allocSizes_append, allocSizes_append, hsize, hsize', Option.toList_some,
    Option.toList_some, block_append_of_full _ hfull,
    block_complete_iff hwindow, List.length_append, List.length_singleton,
    length_succ_div hfull, hlength, block_append_of_full _
      (by rwa [blockTail_length, ← hlength, ← blockTail_length])] at hblock
  exact hblock (Nat.lt_succ_self _)

end Prefixes

/-! ## Coupled runs -/

section Runs

variable {knobs : Knobs} {alpha : ℚ} {left right : List EventCall}
variable {call call' : EventCall}

/-- The relation between the summaries of a site after two streams. -/
def SiteCoupled (windowSize : ℕ) (left right : List EventCall)
    (summary other : CallSiteSummary) : Prop :=
  OrderCoupled windowSize (allocSizes summary.id left)
    (allocSizes summary.id right) summary other

theorem respectsKeys_siteCoupled (windowSize : ℕ)
    (left right : List EventCall) :
    RespectsKeys (SiteCoupled windowSize left right) := by
  intro summary other hcoupled
  rw [hcoupled.redrawn]
  exact ⟨rfl, rfl⟩

/-- The runs over two streams: coupled tables, the same calls of `compile`, and
no allocations of a site that could still have a slot and has none. -/
structure Aligned (knobs : Knobs) (alpha : ℚ) (left right : List EventCall) :
    Prop where
  coupled : Coupled (SiteCoupled knobs.windowSize left right)
    (EventCall.run (knobs.atLevel alpha) left).1
    (EventCall.run (knobs.atLevel alpha) right).1
  compiled : (EventCall.run (knobs.atLevel alpha) left).2.map Calls.compiled =
    (EventCall.run (knobs.atLevel alpha) right).2.map Calls.compiled
  absent : ∀ id,
    (EventCall.run (knobs.atLevel alpha) left).1.find id = none →
    (EventCall.run (knobs.atLevel alpha) left).1.summaries.length <
      maxCallSites → allocSizes id left = [] ∧ allocSizes id right = []

theorem aligned_nil : Aligned knobs alpha [] [] :=
  ⟨⟨.nil, List.nodup_nil⟩, rfl, fun _ _ _ => ⟨rfl, rfl⟩⟩

/-- A new site starts with nothing allocated. -/
theorem Aligned.fresh (haligned : Aligned knobs alpha left right) (id : ℕ)
    (hnone : (EventCall.run (knobs.atLevel alpha) left).1.find id = none)
    (hroom : (EventCall.run (knobs.atLevel alpha) left).1.summaries.length <
      maxCallSites) :
    SiteCoupled knobs.windowSize left right (.fresh id) (.fresh id) := by
  obtain ⟨hleft, hright⟩ := haligned.absent id hnone hroom
  change OrderCoupled knobs.windowSize (allocSizes id left)
    (allocSizes id right) _ _
  rw [hleft, hright]
  exact orderCoupled_fresh _ _

/-- An event that is no allocation of a site leaves its sizes alone. -/
theorem allocSizes_append_of_not {site : ℕ} (calls : List EventCall)
    (hnot : ¬(call.event.callSite = site ∧ call.Allocates)) :
    allocSizes site (calls ++ [call]) = allocSizes site calls := by
  rw [allocSizes_append, EventCall.allocSize, if_neg hnot, Option.toList_none,
    List.append_nil]

theorem allocSizes_append_self (calls : List EventCall)
    (halloc : call.Allocates) :
    allocSizes call.event.callSite (calls ++ [call]) =
      allocSizes call.event.callSite calls ++ [call.event.size] := by
  rw [allocSizes_append, EventCall.allocSize, if_pos ⟨rfl, halloc⟩,
    Option.toList_some]

theorem aligned_alloc (haligned : Aligned knobs alpha left right)
    (hreordered : Reordered knobs.windowSize (left ++ [call])
      (right ++ [call'])) (halloc : call.Allocates) :
    Aligned knobs alpha (left ++ [call]) (right ++ [call']) := by
  obtain ⟨-, hcall⟩ := hreordered.of_append
  have halloc' := hcall.allocates_iff.mp halloc
  have hcontinues := hreordered.continues knobs.windowSize_pos halloc
  have hkeys := respectsKeys_siteCoupled knobs.windowSize left right
  have hstep : ∀ summary other,
      SiteCoupled knobs.windowSize left right summary other →
        summary.id = call.event.callSite →
          let next := summary.processAlloc (knobs.atLevel alpha) call.compile
            call.event
          let next' := other.processAlloc (knobs.atLevel alpha) call'.compile
            call'.event
          SiteCoupled knobs.windowSize (left ++ [call]) (right ++ [call'])
              next.1 next'.1 ∧ next.2.compiled = next'.2.compiled := by
    intro summary other hcoupled hid next next'
    rw [SiteCoupled, hid] at hcoupled
    have hnextId : next.1.id = call.event.callSite :=
      (CallSiteSummary.processAlloc_id _ _ _ _).trans hid
    rw [SiteCoupled, hnextId, allocSizes_append_self left halloc, hcall.callSite,
      allocSizes_append_self right halloc', ← hcall.callSite]
    simp only [next, next', ← hcall.compile]
    exact hcoupled.processAlloc ⟨hcall.threadId, hcall.ptr⟩ hcontinues
  refine ⟨?_, ?_, fun id hnone hroom => ?_⟩
  · rw [EventCall.run_append, EventCall.run_append]
    refine haligned.coupled.processAlloc hkeys hcall.callSite halloc halloc'
      haligned.fresh (fun summary other hcoupled hid =>
        (hstep summary other hcoupled hid).1) fun summary other hcoupled hid => ?_
    rw [SiteCoupled, allocSizes_append_of_not left fun h => hid h.1.symm,
      allocSizes_append_of_not right fun h =>
        hid (hcall.callSite.trans h.1).symm]
    exact hcoupled
  · rw [EventCall.run_append, EventCall.run_append, List.map_append,
      List.map_append, haligned.compiled, List.map_singleton,
      List.map_singleton, haligned.coupled.calls_eq Calls.compiled hkeys
        hcall.callSite halloc halloc' haligned.fresh
        fun summary other hcoupled hid => (hstep summary other hcoupled hid).2]
  · rw [EventCall.run_append] at hnone hroom
    have hbefore := find_none_of_process hnone
    have hlength := (length_le_process _ _ _).trans_lt hroom
    have hid : call.event.callSite ≠ id := by
      rintro rfl
      exact full_of_process halloc hnone hlength
    rw [allocSizes_append_of_not left fun h => hid h.1,
      allocSizes_append_of_not right fun h => hid (hcall.callSite.trans h.1)]
    exact haligned.absent id hbefore hlength

theorem aligned_other (haligned : Aligned knobs alpha left right)
    (hnot : ¬call.Allocates) :
    Aligned knobs alpha (left ++ [call]) (right ++ [call]) := by
  have hsizes : ∀ site (calls : List EventCall),
      allocSizes site (calls ++ [call]) = allocSizes site calls :=
    fun _ calls => allocSizes_append_of_not calls fun h => hnot h.2
  have hrelation : SiteCoupled knobs.windowSize (left ++ [call])
      (right ++ [call]) = SiteCoupled knobs.windowSize left right := by
    funext summary other
    rw [SiteCoupled, SiteCoupled, hsizes, hsizes]
  have hkeys := respectsKeys_siteCoupled knobs.windowSize left right
  have hcalls : ∀ analyzer,
      (call.process (knobs.atLevel alpha) analyzer).2 = { } := by
    intro analyzer
    by_cases hfree : call.event.size = 0
    · rw [process_of_free _ _ hfree]
    · rw [process_of_untracked _ _
        (Nat.not_lt.mp fun htracked => hnot ⟨hfree, htracked⟩)]
  refine ⟨?_, ?_, fun id hnone hroom => ?_⟩
  · rw [EventCall.run_append, EventCall.run_append, hrelation]
    by_cases hfree : call.event.size = 0
    · rw [process_of_free _ _ hfree, process_of_free _ _ hfree]
      exact haligned.coupled.processFree hkeys _ _ haligned.fresh
        fun managed _ _ hcoupled => hcoupled.recordFree managed _
    · have huntracked :=
        Nat.not_lt.mp fun htracked => hnot ⟨hfree, htracked⟩
      rw [process_of_untracked _ _ huntracked,
        process_of_untracked _ _ huntracked]
      exact haligned.coupled
  · rw [EventCall.run_append, EventCall.run_append, List.map_append,
      List.map_append, haligned.compiled, hcalls, hcalls]
  · rw [EventCall.run_append] at hnone hroom
    rw [hsizes, hsizes]
    exact haligned.absent id (find_none_of_process hnone)
      ((length_le_process _ _ _).trans_lt hroom)

/-- Streams that agree but for the order of sizes are processed alike. -/
theorem aligned_of_reordered
    (hreordered : Reordered knobs.windowSize left right) :
    Aligned knobs alpha left right := by
  induction left using List.reverseRecOn generalizing right with
  | nil =>
      cases hreordered.same
      exact aligned_nil
  | append_singleton left call ih =>
      rcases List.eq_nil_or_concat right with rfl | ⟨right, call', rfl⟩
      · have hlength := hreordered.same.length_eq
        rw [List.length_append, List.length_singleton] at hlength
        exact absurd hlength (Nat.succ_ne_zero _)
      · rw [List.concat_eq_append] at hreordered ⊢
        obtain ⟨hinitial, hcall⟩ := hreordered.of_append
        by_cases halloc : call.Allocates
        · exact aligned_alloc (ih hinitial) hreordered halloc
        · rw [← hcall.event_eq halloc]
          exact aligned_other (ih hinitial) halloc

end Runs

/-! ## The decisions -/

/-- The decisions of a site, its deopt decision among them. -/
structure SameDecisions (left right : CallSiteSummary) : Prop where
  phase : left.phase = right.phase
  stableWindows : left.stableWindows = right.stableWindows
  candidate : left.candidate = right.candidate
  classes : left.classes = right.classes
  codePage : left.codePage = right.codePage
  deoptReason : left.deoptReason = right.deoptReason
  deoptCount : left.deoptCount = right.deoptCount
  blacklisted : left.blacklisted = right.blacklisted

theorem OrderCoupled.sameDecisions {windowSize : ℕ} {sizes sizes' : List ℕ}
    {left right : CallSiteSummary}
    (hcoupled : OrderCoupled windowSize sizes sizes' left right) :
    SameDecisions left right := by
  rw [hcoupled.redrawn]
  exact ⟨rfl, rfl, rfl, rfl, rfl, rfl, rfl, rfl⟩

/-- In streams whose blocks have the same sizes in any order every site makes
the same decisions after every event, and so the same routines are compiled,
for the same sizes and classes. -/
theorem sameDecisions_of_reordered (knobs : Knobs) (alpha : ℚ)
    {left right : List EventCall}
    (hreordered : Reordered knobs.windowSize left right) :
    (∀ count site, SameDecisions
      ((EventCall.run (knobs.atLevel alpha) (left.take count)).1.summaryOf site)
      ((EventCall.run (knobs.atLevel alpha)
        (right.take count)).1.summaryOf site)) ∧
      (EventCall.run (knobs.atLevel alpha) left).2.map Calls.compiled =
        (EventCall.run (knobs.atLevel alpha) right).2.map Calls.compiled := by
  have haligned : ∀ {left right : List EventCall},
      Reordered knobs.windowSize left right → Aligned knobs alpha left right :=
    aligned_of_reordered
  refine ⟨fun count site => ?_, (haligned hreordered).compiled⟩
  have hinitial : Reordered knobs.windowSize (left.take count)
      (right.take count) := by
    have hlength := hreordered.same.length_eq
    rw [← List.take_append_drop count left,
      ← List.take_append_drop count right] at hreordered
    refine hreordered.initial ?_
    rw [List.length_take, List.length_take, hlength]
  have hfind := (haligned hinitial).coupled.find
    (respectsKeys_siteCoupled _ _ _) site
  rw [Analyzer.summaryOf, Analyzer.summaryOf]
  generalize (EventCall.run (knobs.atLevel alpha)
    (left.take count)).1.find site = found at hfind ⊢
  generalize (EventCall.run (knobs.atLevel alpha)
    (right.take count)).1.find site = found' at hfind ⊢
  cases hfind with
  | none => exact ⟨rfl, rfl, rfl, rfl, rfl, rfl, rfl, rfl⟩
  | some hcoupled => exact hcoupled.sameDecisions

/-- An allocation by site 7, for which compiling always succeeds. -/
def sized (size : ℕ) : EventCall :=
  ⟨none, ⟨7, size, 1, 4096⟩, fun _ => some 65536⟩

/-- Two windows of six events, the odd size last in both. -/
def oddLast : List EventCall :=
  [16, 16, 16, 16, 16, 32, 16, 16, 16, 16, 16, 32].map sized

/-- The same windows with the odd size elsewhere. -/
def oddElsewhere : List EventCall :=
  [32, 16, 16, 16, 16, 16, 16, 16, 32, 16, 16, 16].map sized

theorem reordered_odd : Reordered 6 oddLast oddElsewhere := by
  refine ⟨?_, fun site index hcomplete => ?_⟩
  · have hsame : ∀ size size',
        (sized size).Allocates ∧ (sized size').Allocates →
          SameButSize (sized size) (sized size') :=
      fun _ _ halloc => ⟨rfl, rfl, rfl, rfl, rfl, .inr halloc⟩
    rw [oddLast, oddElsewhere, List.forall₂_map_left_iff,
      List.forall₂_map_right_iff]
    exact .imp hsame (by decide)
  · by_cases hsite : site = 7
    · subst hsite
      have hindex : index < 2 := by
        have hlength : (allocSizes 7 oddLast).length = 12 := by decide
        rw [hlength] at hcomplete
        omega
      interval_cases index <;> decide
    · have hnone : allocSizes site oddLast = [] := by
        simp [allocSizes, oddLast, sized, EventCall.allocSize, Ne.symm hsite]
      rw [hnone, List.length_nil] at hcomplete
      omega

/-- Both streams specialize site 7 for the same size. -/
theorem sameDecisions_odd :
    (∀ count site, SameDecisions
      ((EventCall.run (sixEventKnobs.atLevel (5 / 100))
        (oddLast.take count)).1.summaryOf site)
      ((EventCall.run (sixEventKnobs.atLevel (5 / 100))
        (oddElsewhere.take count)).1.summaryOf site)) ∧
      (EventCall.run (sixEventKnobs.atLevel (5 / 100)) oddLast).2.map
          Calls.compiled =
        (EventCall.run (sixEventKnobs.atLevel (5 / 100)) oddElsewhere).2.map
          Calls.compiled :=
  sameDecisions_of_reordered sixEventKnobs (5 / 100) reordered_odd

end TbjitAlloc.Analysis
