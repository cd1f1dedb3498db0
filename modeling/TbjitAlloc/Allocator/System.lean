import TbjitAlloc.Allocator.Stability
import TbjitAlloc.Core.Transition

/-!
# The whole allocator

Sites are compiled one after the other, each into a slot of its own until the
counter of slots wraps, and from then on any number of threads call any of the
routines, write to the chunks they hold, free them from any thread, and the
reaper sweeps the one heap they share.
-/

namespace TbjitAlloc.Allocator

open TbjitAlloc.ByteMemory
open TbjitAlloc.Carving
open TbjitAlloc.Codegen
open TbjitAlloc.Segment

structure AllocatorState where
  heap : Heap
  /-- `g_next_index`. -/
  nextIndex : ℕ
  /-- How many specifications `compile` has accepted.  No operation reads it. -/
  accepted : ℕ
  /-- The routine emitted for a slot. -/
  routines : ℕ → Option RoutineSpec
  /-- The chunks clients hold, by the slot they came from. -/
  held : ℕ → List Chunk
  handedOut : ℕ → ℕ → ℕ

/-- What the routine of a slot and its users see. -/
def AllocatorState.slotState (state : AllocatorState) (slot : ℕ) :
    RoutineState :=
  ⟨state.heap, state.held slot, state.handedOut slot⟩

def AllocatorState.setSlot (state : AllocatorState) (slot : ℕ)
    (target : RoutineState) : AllocatorState :=
  { state with
    heap := target.heap
    held := Function.update state.held slot target.held
    handedOut := Function.update state.handedOut slot target.handedOut }

def AllocatorState.initial : AllocatorState where
  heap := Heap.empty
  nextIndex := 0
  accepted := 0
  routines := fun _ => none
  held := fun _ => []
  handedOut := fun _ _ => 0

inductive AllocatorAction
  /-- `compile` is called and `mmap` would return `page` for the code. -/
  | compile (page : ℕ) (spec : RoutineSpec)
  /-- A call, a write, a free or a sweep. -/
  | use (slot : ℕ) (action : RoutineAction)

def allocatorStep (layout : SegmentLayout) (state : AllocatorState) :
    AllocatorAction → Option AllocatorState
  | .compile page spec =>
      let accepted :=
        if compileAccepts spec then state.accepted + 1 else state.accepted
      match compile state.nextIndex page spec with
      | (none, next) => some { state with
          nextIndex := next
          accepted := accepted }
      | (some _, next) => some { state with
          nextIndex := next
          accepted := accepted
          heap := { state.heap with
            slotToSite := Function.update state.heap.slotToSite state.nextIndex
              spec.id }
          routines := Function.update state.routines state.nextIndex
            (some spec) }
  | .use slot action =>
      (state.routines slot).bind fun spec =>
        (routineStep layout spec slot (state.slotState slot) action).map
          (state.setSlot slot)

def AllocatorReachable (layout : SegmentLayout) : AllocatorState → Prop :=
  Transition.Reachable (allocatorStep layout) .initial

/-- The chunks of a routine have room for the link of a remote free, which
`compile` checks for the free lists only. -/
def LinksFit (spec : RoutineSpec) : Prop :=
  spec.strategy = .producerConsumer → pointerSize ≤ spec.size

def AllLinksFit (state : AllocatorState) : Prop :=
  ∀ slot spec, state.routines slot = some spec → LinksFit spec

/-- What the allocator takes for granted: no routine's chunks are too short for
their links, and the counter of slots has not wrapped. -/
structure WithinLimits (state : AllocatorState) : Prop where
  links : AllLinksFit state
  slots : state.accepted < 2 ^ 32

/-- No thread has used the slot. -/
structure IdleSlot (state : AllocatorState) (slot : ℕ) : Prop where
  bumps : ∀ tid, state.heap.bumps (tid, slot) = ⟨0, 0⟩
  freelists : ∀ tid, state.heap.freelists (tid, slot) = ⟨0, 0⟩
  arenas : ∀ tid, state.heap.arenas (tid, slot) = ⟨0, 0, 0⟩
  multiFreelists : ∀ tid,
    state.heap.multiFreelists (tid, slot) = ⟨fun _ => 0, fun _ => 0⟩
  held : state.held slot = []
  handedOut : state.handedOut slot = fun _ => 0

/-- What holds of a slot with a routine. -/
structure RoutineOk (layout : SegmentLayout) (state : AllocatorState)
    (slot : ℕ) (spec : RoutineSpec) : Prop where
  assigned : slot < state.nextIndex
  accepts : compileAccepts spec
  site : state.heap.slotToSite slot = spec.id
  slotOk : SlotOk layout spec slot ⟨view layout slot state.heap,
    state.held slot, state.handedOut slot⟩

structure AllocatorOk (layout : SegmentLayout) (state : AllocatorState) :
    Prop where
  registry : RegistryOk layout state.heap
  sites : SitesOk state.heap
  routines : ∀ slot spec, state.routines slot = some spec →
    RoutineOk layout state slot spec
  used : ∀ base header, state.heap.header base = some header →
    ∃ spec, state.routines header.slotIndex = some spec
  idle : ∀ slot, state.routines slot = none → IdleSlot state slot

theorem allocatorOk_initial (layout : SegmentLayout) :
    AllocatorOk layout .initial where
  registry := registryOk_empty fun _ => 0
  sites := fun _ _ hheader => by cases hheader
  routines := fun _ _ hspec => by cases hspec
  used := fun _ _ hheader => by cases hheader
  idle := fun _ _ => ⟨fun _ => rfl, fun _ => rfl, fun _ => rfl, fun _ => rfl,
    rfl, rfl⟩

/-! ## Uses of one slot -/

section Uses

variable {layout : SegmentLayout} {spec : RoutineSpec} {slot : ℕ}
variable {heap : Heap} {held : List Chunk} {handedOut : ℕ → ℕ}
variable {target : RoutineState}

/-- A held chunk lies in a segment of the slot. -/
theorem SlotOk.ownChunk (hroomy : 13 ≤ layout.shift)
    (haccepts : compileAccepts spec)
    (hok : SlotOk layout spec slot ⟨view layout slot heap, held, handedOut⟩)
    {chunk : Chunk} (hchunk : chunk ∈ held) :
    ∃ header,
      slotHeader slot heap (segmentOf layout chunk.ptr) = some header ∧
      IsChunk layout (segmentOf layout chunk.ptr) chunk.size chunk.ptr := by
  obtain ⟨base, header, hheader, hbase, hplace⟩ :=
    hok.isChunk hroomy haccepts hchunk
  rw [hplace.segmentOf_eq hbase]
  exact ⟨header, hheader, hplace⟩

/-- A chunk that a free may link has room for the link. -/
theorem SlotOk.linkFits (hlinks : LinksFit spec) {state : RoutineState}
    (hok : SlotOk layout spec slot state) {chunk : Chunk}
    (hchunk : chunk ∈ state.held) {base : ℕ} {header : SegmentHeader}
    (hheader : state.heap.header base = some header)
    (hbump : header.strategy ≠ .bumpAlloc)
    (hpaired : header.strategy ≠ .pairedStack)
    (harena : header.strategy ≠ .epochArena) :
    pointerSize ≤ chunk.size := by
  cases hok with
  | stack hstrategy hcursors _ =>
      have hsame := (hcursors.headers base header hheader).1
      rcases hstrategy with h | h
      · exact absurd (hsame.trans h) hbump
      · exact absurd (hsame.trans h) hpaired
  | arena hstrategy hcursors _ =>
      exact absurd ((hcursors.headers base header hheader).1.trans hstrategy)
        harena
  | queue hstrategy hqueue =>
      rw [(hqueue.heldServed chunk hchunk).1]
      exact hlinks hstrategy
  | lists family hfamily hlists =>
      obtain ⟨place, hinv⟩ := hlists
      obtain ⟨own, hown, hchunkSize, -⟩ := hinv.heldChunk hchunk
      rw [hchunkSize]
      exact hinv.chunkSize_ge hown

/-- A step of the users of a slot does to the view what it does to the heap. -/
theorem view_routineStep (hroomy : 13 ≤ layout.shift)
    (haccepts : compileAccepts spec)
    (hok : SlotOk layout spec slot ⟨view layout slot heap, held, handedOut⟩)
    {action : RoutineAction}
    (hkind : ∀ mode pred pageSize, action ≠ .sweep mode pred pageSize)
    (hstep : routineStep layout spec slot ⟨heap, held, handedOut⟩ action =
      some target) :
    routineStep layout spec slot ⟨view layout slot heap, held, handedOut⟩
        action =
      some ⟨view layout slot target.heap, target.held, target.handedOut⟩ := by
  cases action with
  | alloc tid request base =>
      simp only [routineStep] at hstep ⊢
      split at hstep
      · next hfresh =>
          rw [Option.map_eq_some_iff] at hstep
          obtain ⟨⟨heap', served⟩, hroutine, rfl⟩ := hstep
          rw [if_pos (fresh_view hfresh),
            view_routine haccepts hok.ownActives hfresh.2.1, hroutine]
          cases served <;> rfl
      · cases hstep
  | write chunk offset byte =>
      simp only [routineStep] at hstep ⊢
      split at hstep
      · next hwrite =>
          rw [if_pos hwrite]
          obtain rfl := Option.some.inj hstep
          rfl
      · cases hstep
  | free tid chunk =>
      simp only [routineStep] at hstep ⊢
      split at hstep
      · next hchunk =>
          rw [Option.map_eq_some_iff] at hstep
          obtain ⟨heap', hfree, rfl⟩ := hstep
          obtain ⟨header, hheader, -⟩ := hok.ownChunk hroomy haccepts hchunk
          rw [if_pos hchunk, view_freeChunk tid hheader, hfree]
          rfl
      · cases hstep
  | sweep mode pred pageSize => exact absurd rfl (hkind mode pred pageSize)

/-- A step of the users of a slot touches nothing of the other slots. -/
theorem touches_routineStep (hroomy : 13 ≤ layout.shift)
    (haccepts : compileAccepts spec) (hlinks : LinksFit spec)
    (hregistry : RegistryOk layout heap)
    (hok : SlotOk layout spec slot ⟨view layout slot heap, held, handedOut⟩)
    {action : RoutineAction}
    (hkind : ∀ mode pred pageSize, action ≠ .sweep mode pred pageSize)
    (hstep : routineStep layout spec slot ⟨heap, held, handedOut⟩ action =
      some target) :
    Touches layout slot heap target.heap := by
  cases action with
  | alloc tid request base =>
      simp only [routineStep] at hstep
      split at hstep
      · next hfresh =>
          rw [Option.map_eq_some_iff] at hstep
          obtain ⟨⟨heap', served⟩, hroutine, rfl⟩ := hstep
          have htouches := touches_routine haccepts hregistry hok.ownActives
            hfresh hroutine
          cases served <;> exact htouches
      · cases hstep
  | write chunk offset byte =>
      simp only [routineStep] at hstep
      split at hstep
      · next hwrite =>
          obtain rfl := Option.some.inj hstep
          obtain ⟨header, hheader, hplace⟩ :=
            hok.ownChunk hroomy haccepts hwrite.1
          have hinside := hplace.inside
          have hlow := hplace.base_lt
          refine (within_setMemory hregistry _ hheader ?_).touches hregistry
          intro address houtside
          exact Function.update_of_ne (by omega) _ _
      · cases hstep
  | free tid chunk =>
      simp only [routineStep] at hstep
      split at hstep
      · next hchunk =>
          rw [Option.map_eq_some_iff] at hstep
          obtain ⟨heap', hfree, rfl⟩ := hstep
          obtain ⟨header, hheader, hplace⟩ :=
            hok.ownChunk hroomy haccepts hchunk
          have hinside := hplace.inside
          rw [freeChunk] at hfree
          split at hfree
          · refine touches_freeManaged hregistry hheader
              (segmentOf_le chunk.ptr) (fun hbump hpaired harena => ?_) hfree
            have hroom := hok.linkFits hlinks hchunk hheader hbump hpaired
              harena
            omega
          · exact Option.some.inj hfree ▸ .refl hregistry
      · cases hstep
  | sweep mode pred pageSize => exact absurd rfl (hkind mode pred pageSize)

end Uses

/-! ## Runs -/

section Runs

variable {layout : SegmentLayout} {state target : AllocatorState}

/-- A call of `compile` while the counter is the number of specifications
accepted. -/
theorem compile_cases {count page next : ℕ} {spec : RoutineSpec}
    {routine : Option ℕ}
    (hroom : (if compileAccepts spec then count + 1 else count) < 2 ^ 32)
    (hcompile : compile count page spec = (routine, next)) :
    next = (if compileAccepts spec then count + 1 else count) ∧ count ≤ next ∧
      ∀ code, routine = some code → compileAccepts spec ∧ count < next := by
  rw [compile] at hcompile
  split at hcompile
  · next haccepts =>
      rw [if_pos haccepts] at hroom ⊢
      obtain ⟨-, rfl⟩ := Prod.mk.inj hcompile
      rw [Nat.mod_eq_of_lt hroom]
      exact ⟨rfl, Nat.le_succ _, fun _ _ => ⟨haccepts, Nat.lt_succ_self _⟩⟩
  · next hrejects =>
      obtain ⟨rfl, rfl⟩ := Prod.mk.inj hcompile
      exact ⟨(if_neg hrejects).symm, le_rfl, fun _ hcode => by cases hcode⟩

/-- A slot that no thread has used looks like a heap without segments. -/
theorem AllocatorOk.sameSlot_idle (hok : AllocatorOk layout state) {slot : ℕ}
    (hslot : state.routines slot = none) (sites : ℕ → ℕ) :
    SameSlot layout slot { Heap.empty with slotToSite := fun _ => 0 }
      (view layout slot { state.heap with slotToSite := sites }) := by
  have hnone (base : ℕ) : slotHeader slot state.heap base = none := by
    cases hheader : slotHeader slot state.heap base with
    | none => rfl
    | some header =>
        obtain ⟨hbase, rfl⟩ := slotHeader_eq_some.mp hheader
        obtain ⟨spec, hspec⟩ := hok.used base header hbase
        rw [hslot] at hspec
        cases hspec
  have hidle := hok.idle slot hslot
  exact
  { registry := registryOk_view (hok.registry.congr (fun _ h => h)
      (fun _ h => h) rfl rfl)
    header := funext hnone
    mapped := funext fun base => by
      have hbase : slotHeader slot { state.heap with slotToSite := sites } base =
        none := hnone base
      simp [view, hbase, Heap.empty]
    remoteLog := fun _ _ hheader => by cases hheader
    bytes := fun _ _ hheader => by cases hheader
    bumps := hidle.bumps
    freelists := hidle.freelists
    arenas := hidle.arenas
    multiFreelists := hidle.multiFreelists }

/-- Recording a site changes nothing a slot sees. -/
theorem sameSlot_setSites {heap : Heap} (hregistry : RegistryOk layout heap)
    (slot : ℕ) (sites : ℕ → ℕ) :
    SameSlot layout slot (view layout slot heap)
      (view layout slot { heap with slotToSite := sites }) where
  registry := registryOk_view (hregistry.congr (fun _ h => h) (fun _ h => h)
    rfl rfl)
  header := rfl
  mapped := rfl
  remoteLog := fun _ _ _ => rfl
  bytes := fun _ _ _ _ _ _ => rfl
  bumps := fun _ => rfl
  freelists := fun _ => rfl
  arenas := fun _ => rfl
  multiFreelists := fun _ => rfl

/-- A new routine starts in a slot of its own. -/
theorem AllocatorOk.compiled (hroomy : 13 ≤ layout.shift)
    (hok : AllocatorOk layout state) {spec : RoutineSpec} {next accepted : ℕ}
    (haccepts : compileAccepts spec) (hnext : state.nextIndex < next) :
    AllocatorOk layout { state with
      nextIndex := next
      accepted := accepted
      heap := { state.heap with
        slotToSite := Function.update state.heap.slotToSite state.nextIndex
          spec.id }
      routines := Function.update state.routines state.nextIndex
        (some spec) } := by
  have hfree : state.routines state.nextIndex = none := by
    cases hother : state.routines state.nextIndex with
    | none => rfl
    | some other =>
        exact absurd (hok.routines _ other hother).assigned (lt_irrefl _)
  have hkept {slot : ℕ} {other : RoutineSpec}
      (hother : state.routines slot = some other) : slot ≠ state.nextIndex := by
    rintro rfl
    rw [hfree] at hother
    cases hother
  exact
  { registry := hok.registry.congr (fun _ h => h) (fun _ h => h) rfl rfl
    sites := fun base header hheader => by
      obtain ⟨other, hother⟩ := hok.used base header hheader
      exact (hok.sites base header hheader).trans
        (Function.update_of_ne (hkept hother) _ _).symm
    routines := fun slot other hother => by
      dsimp only at hother
      by_cases hsame : slot = state.nextIndex
      · subst hsame
        rw [Function.update_self, Option.some.injEq] at hother
        subst hother
        have hidle := hok.idle _ hfree
        refine ⟨hnext, haccepts, Function.update_self _ _ _, ?_⟩
        dsimp only
        rw [hidle.held, hidle.handedOut]
        exact (slotOk_initial layout _ haccepts fun _ => 0).sameSlot hroomy
          haccepts (hok.sameSlot_idle hfree _)
      · rw [Function.update_of_ne hsame] at hother
        have hroutine := hok.routines slot other hother
        refine ⟨hroutine.assigned.trans hnext, hroutine.accepts,
          (Function.update_of_ne hsame _ _).trans hroutine.site, ?_⟩
        exact hroutine.slotOk.sameSlot hroomy hroutine.accepts
          (sameSlot_setSites hok.registry slot _)
    used := fun base header hheader => by
      obtain ⟨other, hother⟩ := hok.used base header hheader
      exact ⟨other, (Function.update_of_ne (hkept hother) _ _).trans hother⟩
    idle := fun slot hslot => by
      dsimp only at hslot
      have hne : slot ≠ state.nextIndex := by
        rintro rfl
        rw [Function.update_self] at hslot
        cases hslot
      rw [Function.update_of_ne hne] at hslot
      have hidle := hok.idle slot hslot
      exact ⟨hidle.bumps, hidle.freelists, hidle.arenas, hidle.multiFreelists,
        hidle.held, hidle.handedOut⟩ }

/-- A step of one slot that touches nothing of the others. -/
theorem AllocatorOk.used_slot (hroomy : 13 ≤ layout.shift)
    (hok : AllocatorOk layout state) {slot : ℕ} {spec : RoutineSpec}
    (hspec : state.routines slot = some spec) {target : RoutineState}
    (htouches : Touches layout slot state.heap target.heap)
    (hslot : SlotOk layout spec slot
      ⟨view layout slot target.heap, target.held, target.handedOut⟩) :
    AllocatorOk layout (state.setSlot slot target) where
  registry := htouches.registry
  sites := htouches.sites hok.sites
  routines := fun other otherSpec hother => by
    have hroutine := hok.routines other otherSpec hother
    have hsite : target.heap.slotToSite other = otherSpec.id := by
      rw [htouches.slotToSite]
      exact hroutine.site
    refine ⟨hroutine.assigned, hroutine.accepts, hsite, ?_⟩
    dsimp only [AllocatorState.setSlot]
    by_cases hsame : other = slot
    · subst hsame
      obtain rfl := Option.some.inj (hspec.symm.trans hother)
      rw [Function.update_self, Function.update_self]
      exact hslot
    · rw [Function.update_of_ne hsame, Function.update_of_ne hsame]
      exact hroutine.slotOk.sameSlot hroomy hroutine.accepts
        (htouches.sameSlot hsame)
  used := fun base header hheader => by
    by_cases hsame : header.slotIndex = slot
    · exact ⟨spec, hsame ▸ hspec⟩
    · exact hok.used base header
        ((htouches.header base header hsame).mp hheader)
  idle := fun other hother => by
    have hne : other ≠ slot := by
      rintro rfl
      exact absurd (hspec.symm.trans hother) (by simp)
    have hidle := hok.idle other hother
    exact
    { bumps := fun tid =>
        (htouches.words.bumps tid other hne).trans (hidle.bumps tid)
      freelists := fun tid =>
        (htouches.words.freelists tid other hne).trans (hidle.freelists tid)
      arenas := fun tid =>
        (htouches.words.arenas tid other hne).trans (hidle.arenas tid)
      multiFreelists := fun tid =>
        (htouches.words.multiFreelists tid other hne).trans
          (hidle.multiFreelists tid)
      held := (Function.update_of_ne hne _ _).trans hidle.held
      handedOut := (Function.update_of_ne hne _ _).trans hidle.handedOut }

/-- A sweep works on all slots at once. -/
theorem AllocatorOk.swept (hroomy : 13 ≤ layout.shift)
    (hok : AllocatorOk layout state) {heap : Heap}
    (hframe : SweepFrame layout state.heap heap)
    (hregistry : RegistryOk layout heap) :
    AllocatorOk layout { state with heap := heap } where
  registry := hregistry
  sites := fun base header hheader => by
    obtain ⟨header', _, hbefore, rfl⟩ := hframe.past hheader
    dsimp only
    rw [hframe.slotToSite]
    exact hok.sites base header' hbefore
  routines := fun slot spec hspec => by
    have hroutine := hok.routines slot spec hspec
    have hsite : heap.slotToSite slot = spec.id := by
      rw [hframe.slotToSite]
      exact hroutine.site
    exact ⟨hroutine.assigned, hroutine.accepts, hsite,
      hroutine.slotOk.sweep hroomy hroutine.accepts hok.registry hframe
        hregistry⟩
  used := fun base header hheader => by
    obtain ⟨header', _, hbefore, rfl⟩ := hframe.past hheader
    exact hok.used base header' hbefore
  idle := fun slot hslot => by
    have hidle := hok.idle slot hslot
    exact ⟨fun tid => hframe.bumps ▸ hidle.bumps tid,
      fun tid => hframe.freelists ▸ hidle.freelists tid,
      fun tid => hframe.arenas ▸ hidle.arenas tid,
      fun tid => hframe.multiFreelists ▸ hidle.multiFreelists tid,
      hidle.held, hidle.handedOut⟩

/-- Slots are assigned in order. -/
structure SlotsAssigned (state : AllocatorState) : Prop where
  counted : state.nextIndex = state.accepted
  below : ∀ slot spec, state.routines slot = some spec → slot < state.nextIndex

theorem accepted_step {action : AllocatorAction}
    (hstep : allocatorStep layout state action = some target) :
    state.accepted ≤ target.accepted := by
  cases action with
  | compile page new =>
      have hle : state.accepted ≤
          if compileAccepts new then state.accepted + 1 else state.accepted := by
        split <;> omega
      simp only [allocatorStep] at hstep
      split at hstep <;> exact Option.some.inj hstep ▸ hle
  | use slot action =>
      simp only [allocatorStep, Option.bind_eq_some_iff,
        Option.map_eq_some_iff] at hstep
      obtain ⟨_, _, _, _, rfl⟩ := hstep
      exact le_rfl

/-- Until the counter wraps, routines are never removed, nor compiled into a
slot that has one. -/
theorem routines_step {action : AllocatorAction}
    (hassigned : SlotsAssigned state) (hslots : target.accepted < 2 ^ 32)
    (hstep : allocatorStep layout state action = some target) :
    SlotsAssigned target ∧ ∀ slot spec, state.routines slot = some spec →
      target.routines slot = some spec := by
  cases action with
  | compile page new =>
      simp only [allocatorStep, hassigned.counted] at hstep
      split at hstep
      · next next hcompile =>
          obtain rfl := Option.some.inj hstep
          obtain ⟨hnext, hle, -⟩ := compile_cases hslots hcompile
          rw [← hassigned.counted] at hle
          exact ⟨⟨hnext, fun slot spec hspec =>
            (hassigned.below slot spec hspec).trans_le hle⟩,
            fun _ _ hspec => hspec⟩
      · next code next hcompile =>
          obtain rfl := Option.some.inj hstep
          obtain ⟨hnext, -, hcode⟩ := compile_cases hslots hcompile
          have hlt := (hcode code rfl).2
          refine ⟨⟨hnext, fun slot spec hspec => ?_⟩, fun slot spec hspec => ?_⟩
          · dsimp only at hspec ⊢
            by_cases hsame : slot = state.accepted
            · exact hsame ▸ hlt
            · rw [Function.update_of_ne hsame] at hspec
              have hbelow := hassigned.below slot spec hspec
              rw [hassigned.counted] at hbelow
              exact hbelow.trans hlt
          · have hbelow := hassigned.below slot spec hspec
            rw [hassigned.counted] at hbelow
            exact (Function.update_of_ne hbelow.ne _ _).trans hspec
  | use other action =>
      simp only [allocatorStep, Option.bind_eq_some_iff,
        Option.map_eq_some_iff] at hstep
      obtain ⟨_, _, _, _, rfl⟩ := hstep
      exact ⟨⟨hassigned.counted, hassigned.below⟩, fun _ _ hspec => hspec⟩

theorem slotsAssigned_reachable (hreach : AllocatorReachable layout state)
    (hslots : state.accepted < 2 ^ 32) : SlotsAssigned state := by
  induction hreach with
  | start => exact ⟨rfl, fun _ _ hspec => by cases hspec⟩
  | next _ _ hstep ih =>
      have hbefore := (accepted_step hstep).trans_lt hslots
      exact (routines_step (ih hbefore) hslots hstep).1

/-- A state within the limits was within them before. -/
theorem WithinLimits.before {action : AllocatorAction}
    (hreach : AllocatorReachable layout state)
    (hstep : allocatorStep layout state action = some target)
    (hlimits : WithinLimits target) : WithinLimits state := by
  have hslots := (accepted_step hstep).trans_lt hlimits.slots
  have hassigned := slotsAssigned_reachable hreach hslots
  exact ⟨fun slot spec hspec => hlimits.links slot spec
    ((routines_step hassigned hlimits.slots hstep).2 slot spec hspec), hslots⟩

theorem allocatorOk_step (hroomy : 13 ≤ layout.shift)
    {action : AllocatorAction} (hlinks : AllLinksFit state)
    (hassigned : SlotsAssigned state) (hslots : target.accepted < 2 ^ 32)
    (hok : AllocatorOk layout state)
    (hstep : allocatorStep layout state action = some target) :
    AllocatorOk layout target := by
  cases action with
  | compile page spec =>
      simp only [allocatorStep] at hstep
      split at hstep
      · next next hcompile =>
          obtain rfl := Option.some.inj hstep
          have hle := (compile_cases (hassigned.counted ▸ hslots) hcompile).2.1
          exact { hok with
            routines := fun slot other hother =>
              { hok.routines slot other hother with
                assigned :=
                  (hok.routines slot other hother).assigned.trans_le hle }
            idle := fun slot hslot => { hok.idle slot hslot with } }
      · next code next hcompile =>
          obtain rfl := Option.some.inj hstep
          obtain ⟨haccepts, hlt⟩ :=
            (compile_cases (hassigned.counted ▸ hslots) hcompile).2.2 code rfl
          exact hok.compiled hroomy haccepts hlt
  | use slot action =>
      simp only [allocatorStep, Option.bind_eq_some_iff,
        Option.map_eq_some_iff] at hstep
      obtain ⟨spec, hspec, moved, hmoved, rfl⟩ := hstep
      have hroutine := hok.routines slot spec hspec
      by_cases hsweep : ∃ mode pred pageSize, action = .sweep mode pred pageSize
      · obtain ⟨mode, pred, pageSize, rfl⟩ := hsweep
        simp only [routineStep, Option.some.injEq] at hmoved
        subst hmoved
        obtain ⟨hframe, hregistry⟩ :=
          sweepFrame_reaperSweep mode pred pageSize hok.registry
        simp only [AllocatorState.setSlot, AllocatorState.slotState,
          Function.update_eq_self]
        exact hok.swept hroomy hframe hregistry
      · have hkind : ∀ mode pred pageSize,
            action ≠ .sweep mode pred pageSize := by
          intro mode pred pageSize hsame
          exact hsweep ⟨mode, pred, pageSize, hsame⟩
        have htouches := touches_routineStep hroomy hroutine.accepts
          (hlinks slot spec hspec) hok.registry hroutine.slotOk hkind hmoved
        have hview := view_routineStep hroomy hroutine.accepts hroutine.slotOk
          hkind hmoved
        exact hok.used_slot hroomy hspec htouches
          (hroutine.slotOk.step hroomy hroutine.accepts hview)

/-- Every state of a run within the limits is in order. -/
theorem allocatorOk_reachable (hroomy : 13 ≤ layout.shift)
    (hreach : AllocatorReachable layout state) (hlimits : WithinLimits state) :
    AllocatorOk layout state := by
  induction hreach with
  | start => exact allocatorOk_initial layout
  | next hreach _ hstep ih =>
      have hbefore := hlimits.before hreach hstep
      exact allocatorOk_step hroomy hbefore.links
        (slotsAssigned_reachable hreach hbefore.slots) hlimits.slots
        (ih hbefore) hstep

end Runs

end TbjitAlloc.Allocator
