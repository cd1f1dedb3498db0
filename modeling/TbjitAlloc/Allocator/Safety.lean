import TbjitAlloc.Allocator.System
import TbjitAlloc.Codegen.Alignment

/-!
# Safety of the whole allocator

Whatever sites have been compiled, and however threads interleave their calls,
writes and frees, clients never get in each other's way: chunks do not overlap,
each lies in a segment that names the site it was served for, and its bytes are
those its holder put there.
-/

namespace TbjitAlloc.Allocator

open TbjitAlloc.ByteMemory
open TbjitAlloc.Carving
open TbjitAlloc.Codegen
open TbjitAlloc.Segment

/-! ## Slots -/

section Slots

variable {layout : SegmentLayout} {spec : RoutineSpec} {slot : ℕ}
variable {state : RoutineState}

/-- Segments carry the strategy of their slot's routine. -/
theorem SlotOk.strategy_eq (hok : SlotOk layout spec slot state) {base : ℕ}
    {header : SegmentHeader} (hheader : state.heap.header base = some header) :
    header.strategy = spec.strategy := by
  cases hok with
  | stack _ hcursors _ => exact (hcursors.headers base header hheader).1
  | arena _ hcursors _ => exact (hcursors.headers base header hheader).1
  | queue hstrategy hqueue =>
      exact (hqueue.headers base header hheader).1.trans hstrategy.symm
  | lists family hfamily hlists =>
      obtain ⟨place, hinv⟩ := hlists
      refine (hinv.headers base header hheader).1.trans ?_
      cases hfamily with
      | single hstrategy => exact hstrategy.symm
      | classes hstrategy => exact hstrategy.symm

/-- A thread serves each size from one segment at a time. -/
theorem SlotOk.active_unique (hok : SlotOk layout spec slot state)
    {left right : ℕ} {leftHeader rightHeader : SegmentHeader}
    (hleft : state.heap.header left = some leftHeader)
    (hright : state.heap.header right = some rightHeader)
    (hleftActive : leftHeader.retired = false)
    (hrightActive : rightHeader.retired = false)
    (howner : leftHeader.ownerTid = rightHeader.ownerTid)
    (hclass : leftHeader.classIdx = rightHeader.classIdx) : left = right := by
  cases hok with
  | stack _ _ hstack =>
      have howned := hstack.owned _ _ ⟨leftHeader, hleft, rfl⟩
      rw [howner] at howned
      exact howned.base_eq (hstack.owned _ _ ⟨rightHeader, hright, rfl⟩)
  | arena _ _ harena =>
      have hsame := harena.owned left leftHeader hleft
      rw [howner, harena.owned right rightHeader hright] at hsame
      unfold payloadStart at hsame
      omega
  | queue _ hqueue =>
      have hsame := (hqueue.active left leftHeader hleft hleftActive).2
      rw [howner, (hqueue.active right rightHeader hright hrightActive).2,
        BumpSlot.mk.injEq] at hsame
      have hend := hsame.2
      unfold segmentEnd at hend
      omega
  | lists family _ hlists =>
      obtain ⟨place, hinv⟩ := hlists
      have hsame := (hinv.active left leftHeader hleft hleftActive).2
      rw [howner, hclass,
        (hinv.active right rightHeader hright hrightActive).2] at hsame
      exact hsame.symm

/-- A routine serves the sizes it was compiled for. -/
theorem SlotOk.size_mem (hok : SlotOk layout spec slot state) {chunk : Chunk}
    (hchunk : chunk ∈ state.held) : chunk.size ∈ servedSizes spec := by
  cases hok with
  | stack hstrategy hcursors _ =>
      have hsingle : spec.strategy ≠ .multiSizeFreeList := by
        rcases hstrategy with h | h <;> simp [h]
      rw [mem_servedSizes_iff hsingle]
      exact (hcursors.held chunk hchunk).1
  | arena hstrategy hcursors _ =>
      rw [mem_servedSizes_iff (by simp [hstrategy])]
      exact (hcursors.held chunk hchunk).1
  | queue hstrategy hqueue =>
      rw [mem_servedSizes_iff (by simp [hstrategy])]
      exact (hqueue.heldServed chunk hchunk).1
  | lists family hfamily hlists =>
      obtain ⟨place, hinv⟩ := hlists
      obtain ⟨header, hheader, hsize, -⟩ := hinv.heldChunk hchunk
      obtain ⟨-, -, hclass, hchunkSize⟩ := hinv.headers _ _ hheader
      rw [hfamily.mem_servedSizes]
      exact ⟨header.classIdx, hclass, (hsize.trans hchunkSize).symm⟩

/-- A segment stays mapped until it is retired. -/
theorem SlotOk.mapped (hok : SlotOk layout spec slot state) {base : ℕ}
    {header : SegmentHeader} (hheader : state.heap.header base = some header)
    (hactive : header.retired = false) : state.heap.mapped base = true := by
  cases hok with
  | stack _ _ hstack => exact hstack.mapped base header hheader
  | arena _ _ harena => exact harena.mapped base header hheader
  | queue _ hqueue => exact (hqueue.active base header hheader hactive).1
  | lists family _ hlists =>
      obtain ⟨place, hinv⟩ := hlists
      exact (hinv.active base header hheader hactive).1

/-- The segments of an arena are never retired. -/
theorem SlotOk.active_of_arena (hok : SlotOk layout spec slot state)
    (harena : spec.strategy = .epochArena) {base : ℕ} {header : SegmentHeader}
    (hheader : state.heap.header base = some header) :
    header.retired = false := by
  cases hok with
  | stack hstrategy hcursors _ =>
      exact (hcursors.headers base header hheader).2.2.2.1
  | arena _ hcursors _ => exact (hcursors.headers base header hheader).2.2.2.1
  | queue hstrategy _ => simp [harena] at hstrategy
  | lists family hfamily _ =>
      rcases FamilyOf.strategy_eq hfamily with h | h <;> simp [harena] at h

/-- A free changes no byte outside the chunk. -/
theorem SlotOk.freeManaged_memory (haccepts : compileAccepts spec)
    (hlinks : LinksFit spec) (hok : SlotOk layout spec slot state)
    {chunk : Chunk} (hchunk : chunk ∈ state.held) {tid : ℕ} {heap' : Heap}
    (hfree : freeManaged state.heap tid (segmentOf layout chunk.ptr) chunk.ptr =
      some heap') {address : ℕ}
    (houtside : address < chunk.ptr ∨ chunk.ptr + chunk.size ≤ address) :
    heap'.memory address = state.heap.memory address := by
  have hsize : spec.size < 4096 := haccepts.2.1
  cases hok with
  | stack hstrategy hcursors _ =>
      have hcursor : IsCursor spec.strategy := by
        rcases hstrategy with h | h
        · exact .inl h
        · exact .inr (.inl h)
      exact congrFun (hcursors.freeManaged hcursor hsize hchunk hfree).2 address
  | arena hstrategy hcursors _ =>
      exact congrFun (hcursors.freeManaged (.inr (.inr hstrategy)) hsize hchunk
        hfree).2 address
  | queue hstrategy hqueue =>
      exact hqueue.freeManaged_frame (hlinks hstrategy) hchunk hfree address
        houtside
  | lists family _ hlists =>
      obtain ⟨place, hinv⟩ := hlists
      exact hinv.freeManaged_frame hchunk hfree address houtside

end Slots

section Safety

variable {layout : SegmentLayout} {state target : AllocatorState}

/-- A slot with chunks out has a routine. -/
theorem AllocatorOk.routine_of_held (hok : AllocatorOk layout state)
    {slot : ℕ} {chunk : Chunk} (hchunk : chunk ∈ state.held slot) :
    ∃ spec, state.routines slot = some spec := by
  cases hspec : state.routines slot with
  | none =>
      rw [(hok.idle slot hspec).held] at hchunk
      exact absurd hchunk List.not_mem_nil
  | some spec => exact ⟨spec, rfl⟩

/-- Where a held chunk lies. -/
theorem AllocatorOk.heldChunk (hroomy : 13 ≤ layout.shift)
    (hok : AllocatorOk layout state) {slot : ℕ} {chunk : Chunk}
    (hchunk : chunk ∈ state.held slot) :
    ∃ spec header, state.routines slot = some spec ∧
      state.heap.header (segmentOf layout chunk.ptr) = some header ∧
      header.slotIndex = slot ∧ header.strategy = spec.strategy ∧
      header.allocSite = spec.id ∧
      IsChunk layout (segmentOf layout chunk.ptr) chunk.size chunk.ptr := by
  obtain ⟨spec, hspec⟩ := hok.routine_of_held hchunk
  have hroutine := hok.routines slot spec hspec
  obtain ⟨header, hown, hplace⟩ :=
    hroutine.slotOk.ownChunk hroomy hroutine.accepts hchunk
  obtain ⟨hheader, hslot⟩ := slotHeader_eq_some.mp hown
  refine ⟨spec, header, hspec, hheader, hslot,
    hroutine.slotOk.strategy_eq hown, ?_, hplace⟩
  rw [hok.sites _ _ hheader, hslot, hroutine.site]

/-- `is_managed` answers for every held chunk whose segment is not retired. -/
theorem AllocatorOk.isManaged_of_active (hroomy : 13 ≤ layout.shift)
    (hok : AllocatorOk layout state) {slot : ℕ} {chunk : Chunk}
    (hchunk : chunk ∈ state.held slot) {header : SegmentHeader}
    (hheader : state.heap.header (segmentOf layout chunk.ptr) = some header)
    (hactive : header.retired = false) :
    isManaged layout state.heap (segmentOf layout chunk.ptr) = true := by
  obtain ⟨spec, own, hspec, hown, hslot, -, -, -⟩ :=
    hok.heldChunk hroomy hchunk
  obtain rfl := Option.some.inj (hheader.symm.trans hown)
  have hview := slotHeader_eq_some.mpr ⟨hheader, hslot⟩
  have hmapped := (hok.routines slot spec hspec).slotOk.mapped hview hactive
  rw [hok.registry.isManaged_iff (dvd_segmentOf chunk.ptr)]
  exact (view_mapped hview).symm.trans hmapped

/-- Chunks of different slots lie in different segments. -/
theorem AllocatorOk.disjoint_of_ne (hroomy : 13 ≤ layout.shift)
    (hok : AllocatorOk layout state) {slot other : ℕ} (hne : slot ≠ other)
    {left right : Chunk} (hleft : left ∈ state.held slot)
    (hright : right ∈ state.held other) :
    Disjoint left.ptr left.size right.ptr right.size := by
  obtain ⟨_, header, _, hheader, hslot, _, _, hplace⟩ :=
    hok.heldChunk hroomy hleft
  obtain ⟨_, header', _, hheader', hslot', _, _, hplace'⟩ :=
    hok.heldChunk hroomy hright
  refine hplace.disjoint_of_ne hplace' (dvd_segmentOf _) (dvd_segmentOf _) ?_
  intro hsame
  rw [hsame, hheader', Option.some.injEq] at hheader
  subst hheader
  exact hne (hslot.symm.trans hslot')

/-- Chunks of one slot do not overlap, unless it is an arena. -/
theorem AllocatorOk.disjoint (hroomy : 13 ≤ layout.shift)
    (hok : AllocatorOk layout state) {slot other : ℕ} {spec : RoutineSpec}
    (hspec : state.routines slot = some spec)
    (hstrategy : spec.strategy ≠ .epochArena) {left right : Chunk}
    (hleft : left ∈ state.held slot) (hright : right ∈ state.held other)
    (hne : left ≠ right) :
    Disjoint left.ptr left.size right.ptr right.size := by
  by_cases hsame : slot = other
  · subst hsame
    have hroutine := hok.routines slot spec hspec
    have hpairwise := hroutine.slotOk.disjoint hroutine.accepts hstrategy
    have hsymm : Std.Symm fun left right : Chunk =>
        Disjoint left.ptr left.size right.ptr right.size :=
      ⟨fun _ _ h => h.symm⟩
    exact hpairwise.forall hleft hright hne
  · exact hok.disjoint_of_ne hroomy hsame hleft hright

/-! ## Steps beside a chunk -/

/-- An action that neither writes to the chunk nor frees it, and no sweep. -/
def Beside (chunk : Chunk) : AllocatorAction → Prop
  | .compile _ _ => True
  | .use _ (.alloc _ _ _) => True
  | .use _ (.write other _ _) => other ≠ chunk
  | .use _ (.free _ other) => other ≠ chunk
  | .use _ (.sweep _ _ _) => False

/-- A call changes no byte of a held chunk. -/
theorem AllocatorOk.call_agrees (hroomy : 13 ≤ layout.shift)
    (hok : AllocatorOk layout state) {slot other : ℕ} {chunk : Chunk}
    (hchunk : chunk ∈ state.held slot) {spec : RoutineSpec}
    (haccepts : compileAccepts spec) {tid request base : ℕ}
    (hfresh : Fresh layout state.heap base) {result : Heap × Served}
    (hcall : routine layout spec other tid request base state.heap =
      some result) :
    AgreeOn result.1.memory state.heap.memory chunk.ptr
      (chunk.ptr + chunk.size) := by
  obtain ⟨_, header, _, hheader, _, _, _, hplace⟩ :=
    hok.heldChunk hroomy hchunk
  have hinside := hplace.inside
  have hlow := hplace.base_lt
  intro address hge hlt
  refine routine_memory haccepts hfresh.2.2.1 hcall ?_
  rcases segment_disjoint (dvd_segmentOf chunk.ptr) hfresh.2.1
    (hfresh.ne hheader) with h | h
  · exact .inl (by omega)
  · exact .inr (by omega)

/-- A free changes no byte outside the freed chunk. -/
theorem AllocatorOk.free_outside (hroomy : 13 ≤ layout.shift)
    (hlinks : AllLinksFit state) (hok : AllocatorOk layout state) {slot : ℕ}
    {chunk : Chunk} (hchunk : chunk ∈ state.held slot) {tid : ℕ} {heap' : Heap}
    (hfree : freeChunk layout state.heap tid chunk.ptr = some heap')
    {address : ℕ}
    (houtside : address < chunk.ptr ∨ chunk.ptr + chunk.size ≤ address) :
    heap'.memory address = state.heap.memory address := by
  obtain ⟨spec, hspec⟩ := hok.routine_of_held hchunk
  have hroutine := hok.routines slot spec hspec
  rw [freeChunk] at hfree
  split at hfree
  · obtain ⟨header, hheader, -⟩ :=
      hroutine.slotOk.ownChunk hroomy hroutine.accepts hchunk
    have hview := @view_freeManaged layout slot state.heap tid _ chunk.ptr
      header hheader
    rw [hfree, Option.map_some] at hview
    exact hroutine.slotOk.freeManaged_memory hroutine.accepts
      (hlinks slot spec hspec) hchunk hview houtside
  · exact Option.some.inj hfree ▸ rfl

/-- What a step beside a held chunk may change lies outside it. -/
theorem AllocatorOk.beside_step (hroomy : 13 ≤ layout.shift)
    (hlinks : AllLinksFit state) (hok : AllocatorOk layout state) {slot : ℕ}
    {spec : RoutineSpec} (hspec : state.routines slot = some spec)
    (hstrategy : spec.strategy ≠ .epochArena) {chunk : Chunk}
    (hchunk : chunk ∈ state.held slot) {action : AllocatorAction}
    (hbeside : Beside chunk action)
    (hstep : allocatorStep layout state action = some target) :
    chunk ∈ target.held slot ∧
      AgreeOn target.heap.memory state.heap.memory chunk.ptr
        (chunk.ptr + chunk.size) := by
  have hapart {other : ℕ} {right : Chunk} (hright : right ∈ state.held other)
      (hne : right ≠ chunk) {address : ℕ} (hlow : chunk.ptr ≤ address)
      (hhigh : address < chunk.ptr + chunk.size) :
      address < right.ptr ∨ right.ptr + right.size ≤ address := by
    rcases hok.disjoint hroomy hspec hstrategy hchunk hright hne.symm with h | h
    · exact .inl (by omega)
    · exact .inr (by omega)
  have hstays {other : ℕ} {list : List Chunk}
      (hlist : other = slot → chunk ∈ list) :
      chunk ∈ Function.update state.held other list slot := by
    by_cases hsame : slot = other
    · subst hsame
      rw [Function.update_self]
      exact hlist rfl
    · rwa [Function.update_of_ne hsame]
  cases action with
  | compile page new =>
      simp only [allocatorStep] at hstep
      split at hstep
      · obtain rfl := Option.some.inj hstep
        exact ⟨hchunk, fun _ _ _ => rfl⟩
      · obtain rfl := Option.some.inj hstep
        exact ⟨hchunk, fun _ _ _ => rfl⟩
  | use other action =>
      simp only [allocatorStep, Option.bind_eq_some_iff,
        Option.map_eq_some_iff] at hstep
      obtain ⟨otherSpec, hother, moved, hmoved, rfl⟩ := hstep
      have hroutine := hok.routines other otherSpec hother
      cases action with
      | alloc tid request base =>
          simp only [routineStep] at hmoved
          split at hmoved
          · next hfresh =>
              rw [Option.map_eq_some_iff] at hmoved
              obtain ⟨⟨heap', served⟩, hcall, rfl⟩ := hmoved
              have hbytes := hok.call_agrees hroomy hchunk hroutine.accepts
                hfresh hcall
              cases served with
              | deopt => exact ⟨hstays fun hsame => hsame ▸ hchunk, hbytes⟩
              | chunk ptr =>
                  exact ⟨hstays fun hsame =>
                    List.mem_cons_of_mem _ (hsame ▸ hchunk), hbytes⟩
          · cases hmoved
      | write written offset byte =>
          simp only [routineStep] at hmoved
          split at hmoved
          · next hwrite =>
              obtain rfl := Option.some.inj hmoved
              refine ⟨hstays fun hsame => hsame ▸ hchunk,
                fun address hge hlt => Function.update_of_ne ?_ _ _⟩
              have := hapart hwrite.1 hbeside hge hlt
              omega
          · cases hmoved
      | free tid freed =>
          simp only [routineStep] at hmoved
          split at hmoved
          · next hfreed =>
              rw [Option.map_eq_some_iff] at hmoved
              obtain ⟨heap', hfree, rfl⟩ := hmoved
              refine ⟨hstays fun hsame =>
                (List.mem_erase_of_ne (Ne.symm hbeside)).mpr (hsame ▸ hchunk),
                fun address hge hlt => ?_⟩
              exact hok.free_outside hroomy hlinks hfreed hfree
                (hapart hfreed hbeside hge hlt)
          · cases hmoved
      | sweep mode pred pageSize => exact absurd hbeside id

/-! ## Main results -/

/-- Objects of 32 bytes. -/
def queuedObjects : RoutineSpec where
  id := 5
  strategy := .producerConsumer
  size := 32
  classSizes := fun _ => 0
  classCount := 0

def queuedChunk : Chunk := ⟨payloadStart (2 ^ 21), 32⟩

def pairedChunk : Chunk := ⟨payloadStart (2 ^ 22), 48⟩

/-- Two sites are compiled, and two threads call one routine each. -/
def twoSites : List AllocatorAction :=
  [.compile 4096 queuedObjects, .compile 8192 pairedObjects,
    .use 0 (.alloc 0 32 (2 ^ 21)), .use 1 (.alloc 1 48 (2 ^ 22))]

/-- The routines of the two sites. -/
def twoRoutines : ℕ → Option RoutineSpec :=
  Function.update (Function.update (fun _ => none) 0 (some queuedObjects)) 1
    (some pairedObjects)

theorem withinLimits_twoRoutines (hroutines : state.routines = twoRoutines)
    (haccepted : state.accepted = 2) : WithinLimits state := by
  refine ⟨fun slot spec hspec hstrategy => ?_, by rw [haccepted]; decide⟩
  rw [hroutines, twoRoutines] at hspec
  by_cases hone : slot = 1
  · rw [hone, Function.update_self, Option.some.injEq] at hspec
    subst hspec
    simp [pairedObjects] at hstrategy
  rw [Function.update_of_ne hone] at hspec
  by_cases hzero : slot = 0
  · rw [hzero, Function.update_self, Option.some.injEq] at hspec
    subst hspec
    decide
  · rw [Function.update_of_ne hzero] at hspec
    cases hspec

/-- With 2 MiB segments, the state they reach. -/
theorem exists_twoSites :
    ∃ state, Transition.run (allocatorStep .default) .initial twoSites =
        some state ∧
      AllocatorReachable .default state ∧ WithinLimits state ∧
      state.routines 0 = some queuedObjects ∧
      queuedChunk ∈ state.held 0 ∧ pairedChunk ∈ state.held 1 := by
  have hsome : (Transition.run (allocatorStep .default) .initial
      twoSites).isSome = true := rfl
  obtain ⟨state, hrun⟩ := Option.isSome_iff_exists.mp hsome
  have hseen : (Transition.run (allocatorStep .default) .initial twoSites).map
      (fun state => (state.routines, state.accepted, state.held 0,
        state.held 1)) =
        some (twoRoutines, 2, [queuedChunk], [pairedChunk]) := rfl
  rw [hrun, Option.map_some, Option.some.injEq, Prod.mk.injEq, Prod.mk.injEq,
    Prod.mk.injEq] at hseen
  obtain ⟨hroutines, haccepted, hheld, hheld'⟩ := hseen
  refine ⟨state, hrun, Transition.reachable_of_run .start hrun,
    withinLimits_twoRoutines hroutines haccepted, ?_, ?_, ?_⟩
  · rw [hroutines]
    rfl
  · rw [hheld]
    exact List.mem_singleton_self _
  · rw [hheld']
    exact List.mem_singleton_self _

/-- Chunks that clients hold never overlap, whichever routines and threads they
came from, unless they were all served by one recycled arena slot. -/
theorem heldChunks_disjoint (hroomy : 13 ≤ layout.shift)
    (hreach : AllocatorReachable layout state) (hlimits : WithinLimits state) :
    (∀ slot spec, state.routines slot = some spec →
      spec.strategy ≠ .epochArena →
      (state.held slot).Pairwise fun left right =>
        Disjoint left.ptr left.size right.ptr right.size) ∧
    ∀ slot other, slot ≠ other → ∀ left ∈ state.held slot,
      ∀ right ∈ state.held other,
        Disjoint left.ptr left.size right.ptr right.size := by
  have hok := allocatorOk_reachable hroomy hreach hlimits
  refine ⟨fun slot spec hspec hstrategy => ?_,
    fun slot other hne left hleft right hright =>
      hok.disjoint_of_ne hroomy hne hleft hright⟩
  have hroutine := hok.routines slot spec hspec
  exact hroutine.slotOk.disjoint hroutine.accepts hstrategy

theorem heldChunks_disjoint_twoSites :
    ∃ state, Transition.run (allocatorStep .default) .initial twoSites =
        some state ∧
      Disjoint queuedChunk.ptr queuedChunk.size pairedChunk.ptr
        pairedChunk.size := by
  obtain ⟨state, hrun, hreach, hlimits, -, hleft, hright⟩ := exists_twoSites
  exact ⟨state, hrun, (heldChunks_disjoint (by decide) hreach hlimits).2 0 1
    Nat.zero_ne_one queuedChunk hleft pairedChunk hright⟩

/-- At any time a thread serves each slot and class from one segment only: all
its earlier segments for them are retired. -/
theorem activeSegment_unique (hroomy : 13 ≤ layout.shift)
    (hreach : AllocatorReachable layout state) (hlimits : WithinLimits state)
    {left right : ℕ} {leftHeader rightHeader : SegmentHeader}
    (hleft : state.heap.header left = some leftHeader)
    (hright : state.heap.header right = some rightHeader)
    (hleftActive : leftHeader.retired = false)
    (hrightActive : rightHeader.retired = false)
    (hslot : leftHeader.slotIndex = rightHeader.slotIndex)
    (howner : leftHeader.ownerTid = rightHeader.ownerTid)
    (hclass : leftHeader.classIdx = rightHeader.classIdx) : left = right := by
  have hok := allocatorOk_reachable hroomy hreach hlimits
  obtain ⟨spec, hspec⟩ := hok.used left leftHeader hleft
  exact (hok.routines _ spec hspec).slotOk.active_unique
    (slotHeader_eq_some.mpr ⟨hleft, rfl⟩)
    (slotHeader_eq_some.mpr ⟨hright, hslot.symm⟩) hleftActive hrightActive
    howner hclass

theorem activeSegment_unique_twoSites :
    ∃ state own, Transition.run (allocatorStep .default) .initial twoSites =
        some state ∧
      state.heap.header (2 ^ 21) = some own ∧
      ∀ other header, state.heap.header other = some header →
        header.retired = false → header.slotIndex = own.slotIndex →
        header.ownerTid = own.ownerTid → header.classIdx = own.classIdx →
        other = 2 ^ 21 := by
  obtain ⟨state, hrun, hreach, hlimits, -⟩ := exists_twoSites
  have hseen : ((Transition.run (allocatorStep .default) .initial twoSites).bind
      fun state => (state.heap.header (2 ^ 21)).map SegmentHeader.retired) =
        some false := rfl
  rw [hrun, Option.bind_some, Option.map_eq_some_iff] at hseen
  obtain ⟨own, hown, hactive⟩ := hseen
  exact ⟨state, own, hrun, hown,
    fun other header hheader hretired hslot howner hclass =>
      activeSegment_unique (by decide) hreach hlimits hheader hown hretired
        hactive hslot howner hclass⟩

/-- A run that ends within the limits starts within them. -/
theorem WithinLimits.before_run {actions : List AllocatorAction}
    (hreach : AllocatorReachable layout state)
    (hrun : Transition.run (allocatorStep layout) state actions = some target)
    (hlimits : WithinLimits target) : WithinLimits state := by
  induction actions generalizing state with
  | nil => exact Option.some.inj hrun ▸ hlimits
  | cons action actions ih =>
      simp only [Transition.run, Option.bind_eq_some_iff] at hrun
      obtain ⟨next, hstep, hrest⟩ := hrun
      exact (ih (hreach.next hstep) hrest).before hreach hstep

/-- From the call that serves a chunk to its free, the chunk's bytes are those
its holder wrote, whatever calls, writes to other chunks, frees of other chunks
and compilations the threads make in between. -/
theorem chunk_isolated (hroomy : 13 ≤ layout.shift)
    (hreach : AllocatorReachable layout state) {slot : ℕ} {spec : RoutineSpec}
    (hspec : state.routines slot = some spec)
    (hstrategy : spec.strategy ≠ .epochArena) {chunk : Chunk}
    (hchunk : chunk ∈ state.held slot) {actions : List AllocatorAction}
    (hbeside : ∀ action ∈ actions, Beside chunk action)
    (hrun : Transition.run (allocatorStep layout) state actions = some target)
    (hlimits : WithinLimits target) :
    chunk ∈ target.held slot ∧
      AgreeOn target.heap.memory state.heap.memory chunk.ptr
        (chunk.ptr + chunk.size) := by
  induction actions generalizing state with
  | nil => exact Option.some.inj hrun ▸ ⟨hchunk, fun _ _ _ => rfl⟩
  | cons action actions ih =>
      simp only [Transition.run, Option.bind_eq_some_iff] at hrun
      obtain ⟨next, hstep, hrest⟩ := hrun
      have hnext := hlimits.before_run (hreach.next hstep) hrest
      have hbefore := hnext.before hreach hstep
      have hok := allocatorOk_reachable hroomy hreach hbefore
      obtain ⟨hstays, hbytes⟩ := hok.beside_step hroomy hbefore.links hspec
        hstrategy hchunk (hbeside action List.mem_cons_self) hstep
      have hkept := (routines_step
        (slotsAssigned_reachable hreach hbefore.slots) hnext.slots hstep).2
        slot spec hspec
      obtain ⟨hheld, hagree⟩ := ih (hreach.next hstep) hkept hstays
        (fun other hother => hbeside other (List.mem_cons_of_mem _ hother)) hrest
      exact ⟨hheld, fun address hlow hhigh =>
        (hagree address hlow hhigh).trans (hbytes address hlow hhigh)⟩

/-- Thread 1 fills its chunk and thread 0 frees it. -/
theorem chunk_isolated_twoSites :
    ∃ state target,
      Transition.run (allocatorStep .default) .initial twoSites = some state ∧
      Transition.run (allocatorStep .default) state
        [.use 1 (.write pairedChunk 47 255), .use 1 (.free 0 pairedChunk)] =
          some target ∧
      queuedChunk ∈ target.held 0 ∧
      AgreeOn target.heap.memory state.heap.memory queuedChunk.ptr
        (queuedChunk.ptr + queuedChunk.size) := by
  obtain ⟨state, hrun, hreach, hlimits, hspec, hchunk, -⟩ := exists_twoSites
  have hsome : ((Transition.run (allocatorStep .default) .initial twoSites).bind
      fun state => Transition.run (allocatorStep .default) state
        [.use 1 (.write pairedChunk 47 255),
          .use 1 (.free 0 pairedChunk)]).isSome = true := rfl
  rw [hrun, Option.bind_some] at hsome
  obtain ⟨target, htarget⟩ := Option.isSome_iff_exists.mp hsome
  have hsame : target.routines = state.routines ∧
      target.accepted = state.accepted := by
    simp only [Transition.run, allocatorStep, Option.bind_eq_some_iff,
      Option.map_eq_some_iff, Option.some.injEq] at htarget
    obtain ⟨_, ⟨_, _, _, _, rfl⟩, _, ⟨_, _, _, _, rfl⟩, rfl⟩ := htarget
    exact ⟨rfl, rfl⟩
  refine ⟨state, target, hrun, htarget, ?_⟩
  refine chunk_isolated (by decide) hreach hspec (by decide) hchunk ?_ htarget
    ⟨fun slot spec hslot => hlimits.links slot spec (hsame.1 ▸ hslot),
      hsame.2 ▸ hlimits.slots⟩
  intro action haction
  simp only [List.mem_cons, List.not_mem_nil, or_false] at haction
  have hne : pairedChunk ≠ queuedChunk := by decide
  rcases haction with rfl | rfl
  · exact hne
  · exact hne

end Safety

end TbjitAlloc.Allocator
