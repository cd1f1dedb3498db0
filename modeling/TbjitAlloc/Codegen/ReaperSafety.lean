import TbjitAlloc.Codegen.PcInvariant

/-!
# Reaping producer-consumer segments

The reaper trusts the live count that `pc_refill` stores when it retires a
segment.  The refill derives it from the header's cursor, which the emitted fast
path never advances, so the count is right only for a segment from which the
fast path served nothing, or whose chunks are all back on its queue.
-/

namespace TbjitAlloc.Codegen

open TbjitAlloc.ByteMemory
open TbjitAlloc.Carving
open TbjitAlloc.LinkedChain
open TbjitAlloc.Segment

/-- Every chunk handed out from a segment that is unmapped or decommitted has
been freed. -/
def ReclaimedIsFree (layout : SegmentLayout) (state : RoutineState) : Prop :=
  ∀ base header, state.heap.header base = some header →
    state.heap.mapped base = false ∨ header.decommitted = true →
    heldIn layout state.held base = 0

/-- A step that retires a segment stores the number of chunks handed out from it
less the number of frees on its queue. -/
def RetiresExactly (state target : RoutineState) : Prop :=
  ∀ base before after, state.heap.header base = some before →
    before.retired = false → target.heap.header base = some after →
    after.retired = true →
    after.liveChunks =
      state.handedOut base - (state.heap.remoteLog base).length

/-- What must hold of the active segment of a thread whose cursor is exhausted
when it calls the routine again: its queue is intact, and either the fast path
served nothing from it, so that the thread's cursor is the header's, or every
chunk handed out is on the queue. -/
def RetirementExact (spec : RoutineSpec) (slot : ℕ) (state : RoutineState) :
    RoutineAction → Prop
  | .alloc tid request _ =>
      request = spec.size →
      ¬ (state.heap.bumps (tid, slot)).ptr + spec.size <
        (state.heap.bumps (tid, slot)).limit →
      ∀ active header, state.heap.header active = some header →
        header.retired = false → header.ownerTid = tid →
        (pointerSize ≤ spec.size ∨ state.heap.remoteLog active = []) ∧
        ((state.heap.bumps (tid, slot)).ptr = header.bumpPtr ∨
          (state.heap.remoteLog active).length = state.handedOut active ∧
            state.handedOut active < 2 ^ 32)
  | _ => True

/-! ## Live counts -/

/-- The counts the reaper goes by. -/
structure LiveCounts (layout : SegmentLayout) (heap : Heap)
    (held : List Chunk) : Prop where
  retired : ∀ base header, heap.header base = some header →
    header.retired = true → header.liveChunks = heldIn layout held base ∧
      header.liveChunks ≤ 1
  reclaimed : ∀ base header, heap.header base = some header →
    heap.mapped base = false ∨ header.decommitted = true →
    header.retired = true ∧ header.liveChunks = 0

section Counts

variable {layout : SegmentLayout} {spec : RoutineSpec} {slot : ℕ}
variable {heap : Heap} {held : List Chunk} {handedOut : ℕ → ℕ}

theorem LiveCounts.reclaimedIsFree {state : RoutineState}
    (hcounts : LiveCounts layout state.heap state.held) :
    ReclaimedIsFree layout state := by
  intro base header hheader hreclaimed
  obtain ⟨hretired, hlive⟩ := hcounts.reclaimed base header hheader hreclaimed
  rw [← (hcounts.retired base header hheader hretired).1, hlive]

/-- The counts speak of headers, of the mapping and of the number of held
chunks of retired segments. -/
theorem LiveCounts.congr (hcounts : LiveCounts layout heap held)
    {heap' : Heap} {held' : List Chunk}
    (hheader : heap'.header = heap.header) (hmapped : heap'.mapped = heap.mapped)
    (hheld : ∀ base header, heap.header base = some header →
      header.retired = true →
      heldIn layout held' base = heldIn layout held base) :
    LiveCounts layout heap' held' where
  retired := by
    intro base header hbase hretired
    rw [hheader] at hbase
    rw [hheld base header hbase hretired]
    exact hcounts.retired base header hbase hretired
  reclaimed := by
    rw [hheader, hmapped]
    exact hcounts.reclaimed

/-- What a refill stores is exact under the condition. -/
theorem PcInv.retiredCount
    (hinv : PcInv layout spec slot heap held handedOut none)
    (hpos : 0 < spec.size) (hsize : spec.size < 4096) {base : ℕ}
    {header : SegmentHeader} (hheader : heap.header base = some header)
    (hactive : header.retired = false) {drained : List ℕ}
    (hwalk : walkChain heap.memory header.remoteHead = some drained)
    (hqueue : pointerSize ≤ spec.size ∨ heap.remoteLog base = [])
    (hserved : (heap.bumps (header.ownerTid, slot)).ptr = header.bumpPtr ∨
      (heap.remoteLog base).length = handedOut base ∧
        handedOut base < 2 ^ 32) :
    1 - drained.length % 2 ^ 32 =
      handedOut base - (heap.remoteLog base).length ∧
    handedOut base - (heap.remoteLog base).length =
      heldIn layout held base := by
  have hbalance := hinv.balance base header hheader hactive
  have hdrained : drained = heap.remoteLog base := by
    have hlog : walkChain heap.memory header.remoteHead =
        some (heap.remoteLog base) := by
      rcases hqueue with hroom | hempty
      · refine walkChain_of_chain
          (hinv.remoteChain hroom base header hheader hactive) ?_
        intro node hnode
        exact (hinv.ptr_lt hsize
          (hinv.remoteServed base header hheader hactive node hnode).1).2
      · rw [hempty, hinv.remoteHead base header hheader hactive hempty]
        exact walkChain_of_chain (chain_nil.mpr rfl) (by simp)
    exact Option.some.inj (hwalk.symm.trans hlog)
  rw [hdrained]
  refine ⟨?_, by omega⟩
  rcases hserved with hptr | ⟨hall, hlt⟩
  · have hone : handedOut base = 1 := by
      rw [(hinv.active base header hheader hactive).2,
        (hinv.headers base header hheader).2.2.2, piece] at hptr
      have hmul : handedOut base * spec.size = 1 * spec.size := by
        simp only at hptr
        omega
      exact Nat.eq_of_mul_eq_mul_right hpos hmul
    have hle : (heap.remoteLog base).length ≤ 1 := by omega
    rw [Nat.mod_eq_of_lt (lt_of_le_of_lt hle (by norm_num)), hone]
  · have hposOut := hinv.handedOut_pos base header hheader
    rw [hall, Nat.mod_eq_of_lt hlt]
    omega

/-- A fresh segment is neither retired nor reclaimed, so its first chunk can be
handed out. -/
theorem LiveCounts.bumped (hcounts : LiveCounts layout heap held)
    {tid base ptr : ℕ} {heap' : Heap}
    (hbumped : Bumped layout .producerConsumer tid slot spec.size base heap
      heap') (hsegment : segmentOf layout ptr = base) :
    LiveCounts layout heap' (⟨ptr, spec.size⟩ :: held) := by
  obtain ⟨fresh, hheader, _, _, _, _, _, _, hactive, hcommitted⟩ :=
    hbumped.header
  constructor
  · intro other header hother hretired
    rw [hheader] at hother
    by_cases heq : other = base
    · rw [heq, Function.update_self, Option.some.injEq] at hother
      simp [← hother, hactive] at hretired
    · rw [Function.update_of_ne heq] at hother
      rw [heldIn_cons, hsegment, if_neg (Ne.symm heq)]
      exact hcounts.retired other header hother hretired
  · intro other header hother hreclaimed
    rw [hheader] at hother
    rw [hbumped.mapped] at hreclaimed
    by_cases heq : other = base
    · rw [heq, Function.update_self, Option.some.injEq] at hother
      simp [← hother, hcommitted, heq] at hreclaimed
    · rw [Function.update_of_ne heq] at hother hreclaimed
      exact hcounts.reclaimed other header hother hreclaimed

/-- Retiring an active segment with an exact count. -/
theorem LiveCounts.retire (hcounts : LiveCounts layout heap held)
    {base liveChunks : ℕ} {header : SegmentHeader} {log : ℕ → List ℕ}
    (hheader : heap.header base = some header)
    (hactive : header.retired = false)
    (hlive : liveChunks = heldIn layout held base) (hle : liveChunks ≤ 1) :
    LiveCounts layout
      { heap.storeHeader base
          { header with
            remoteHead := 0
            liveChunks := liveChunks
            retired := true } with remoteLog := log } held := by
  constructor
  · intro other header' hother hretired
    rcases storeHeader_eq_some.mp hother with ⟨rfl, rfl⟩ | ⟨_, hother⟩
    · exact ⟨hlive, hle⟩
    · exact hcounts.retired other header' hother hretired
  · intro other header' hother hreclaimed
    rcases storeHeader_eq_some.mp hother with ⟨rfl, rfl⟩ | ⟨_, hother⟩
    · -- An active segment has never been reclaimed.
      have hretired := (hcounts.reclaimed other header hheader hreclaimed).1
      simp [hactive] at hretired
    · exact hcounts.reclaimed other header' hother hreclaimed

/-- A refill keeps the counts: the segment it retires gets an exact one, and
the fresh segment is active. -/
theorem LiveCounts.refill (hcounts : LiveCounts layout heap held)
    (hinv : PcInv layout spec slot heap held handedOut none)
    (hpos : 0 < spec.size) (hsize : spec.size < 4096)
    {tid base ptr : ℕ} {heap' : Heap} (hfresh : Fresh layout heap base)
    (hrefill : pcRefill layout tid slot spec.size base heap =
      some (heap', ptr))
    (hexact : ∀ active header, heap.header active = some header →
      header.retired = false → header.ownerTid = tid →
      (pointerSize ≤ spec.size ∨ heap.remoteLog active = []) ∧
      ((heap.bumps (tid, slot)).ptr = header.bumpPtr ∨
        (heap.remoteLog active).length = handedOut active ∧
          handedOut active < 2 ^ 32)) :
    LiveCounts layout heap' (⟨ptr, spec.size⟩ :: held) ∧
      ∀ other before after, heap.header other = some before →
        before.retired = false → heap'.header other = some after →
        after.retired = true →
        after.liveChunks =
          handedOut other - (heap.remoteLog other).length := by
  have hkeep : ∀ other before, heap.header other = some before →
      other ≠ base := fun _ _ hother => hfresh.ne hother
  obtain ⟨hsegment, _⟩ := hinv.refill hpos hsize hfresh hrefill
  obtain ⟨_, ⟨_, hbumped⟩ | ⟨active, header, drained, hheader, hactive, howner,
    _, hwalk, hbumped⟩⟩ := hinv.refill_cases hpos hfresh hrefill
  · refine ⟨hcounts.bumped hbumped hsegment, ?_⟩
    intro other before after hbefore hr hafter hretired
    obtain ⟨fresh, hheader, _⟩ := hbumped.header
    rw [hheader, Function.update_of_ne (hkeep other before hbefore), hbefore,
      Option.some.injEq] at hafter
    simp [← hafter, hr] at hretired
  · obtain ⟨hqueue, hserved⟩ := hexact active header hheader hactive howner
    obtain ⟨hcount, hheld⟩ := hinv.retiredCount hpos hsize hheader hactive hwalk
      hqueue (howner ▸ hserved)
    refine ⟨(hcounts.retire hheader hactive (hcount.trans hheld)
      (Nat.sub_le _ _)).bumped hbumped hsegment, ?_⟩
    intro other before after hbefore hr hafter hretired
    obtain ⟨fresh, hheader', _⟩ := hbumped.header
    rw [hheader', Function.update_of_ne (hkeep other before hbefore)] at hafter
    rcases storeHeader_eq_some.mp hafter with ⟨rfl, rfl⟩ | ⟨_, hother⟩
    · exact hcount
    · rw [hbefore, Option.some.injEq] at hother
      simp [← hother, hr] at hretired

/-- The fast path serves from an active segment. -/
theorem LiveCounts.fastPath (hcounts : LiveCounts layout heap held)
    (hinv : PcInv layout spec slot heap held handedOut none) {tid : ℕ}
    (hroom : (heap.bumps (tid, slot)).ptr + spec.size <
      (heap.bumps (tid, slot)).limit) {heap' : Heap}
    (hheader : heap'.header = heap.header)
    (hmapped : heap'.mapped = heap.mapped) :
    LiveCounts layout heap'
      (⟨(heap.bumps (tid, slot)).ptr, spec.size⟩ :: held) := by
  refine hcounts.congr hheader hmapped fun base header hbase hretired => ?_
  obtain ⟨active, header', hheader', hactive, howner, _⟩ :=
    hinv.cursor tid (by simp) (by omega)
  have hcursor := (hinv.active active header' hheader' hactive).2
  rw [howner] at hcursor
  have hdvd := (hinv.registry.placed active header' hheader').2.1
  have hsegment : segmentOf layout (heap.bumps (tid, slot)).ptr = active := by
    rw [hcursor] at hroom ⊢
    simp only at hroom ⊢
    refine segmentOf_eq hdvd ((Nat.le_add_right _ _).trans
      (start_le_piece _ _ _)) ?_
    omega
  rw [heldIn_cons, hsegment, if_neg, Nat.add_zero]
  rintro rfl
  obtain rfl := Option.some.inj (hheader'.symm.trans hbase)
  simp [hactive] at hretired

/-- A free of a held chunk: its segment is mapped, and if it is retired its
count goes down with the number of held chunks. -/
theorem LiveCounts.freeChunk (hcounts : LiveCounts layout heap held)
    (hinv : PcInv layout spec slot heap held handedOut none)
    (hsize : spec.size < 4096) {chunk : Chunk} (hchunk : chunk ∈ held)
    {tid : ℕ} {heap' : Heap}
    (hfree : Codegen.freeChunk layout heap tid chunk.ptr = some heap') :
    LiveCounts layout heap' (held.erase chunk) ∧
      ∀ other before after, heap.header other = some before →
        before.retired = false → heap'.header other = some after →
        after.retired = false := by
  obtain ⟨_, base, hserved⟩ := hinv.heldServed chunk hchunk
  obtain ⟨⟨header, hheader⟩, hdvd, _, _, hsegment⟩ := hinv.served hsize hserved
  have herase := @heldIn_erase layout _ _ hchunk base
  rw [hsegment, if_pos rfl] at herase
  have hcount : ∀ other ≠ base, heldIn layout (held.erase chunk) other =
      heldIn layout held other := by
    intro other hne
    rw [heldIn_erase hchunk other, hsegment, if_neg (Ne.symm hne), Nat.add_zero]
  have hmapped : heap.mapped base = true := by
    by_contra hunmapped
    obtain ⟨hretired, hlive⟩ := hcounts.reclaimed base header hheader
      (Or.inl (by simpa using hunmapped))
    have := (hcounts.retired base header hheader hretired).1
    omega
  have hload : heap.loadHeader base = some header :=
    loadHeader_eq_some.mpr ⟨hmapped, hheader⟩
  rw [Codegen.freeChunk, hsegment,
    if_pos ((hinv.registry.isManaged_iff hdvd).mpr hmapped),
    freeManaged_of_producerConsumer hload
      (hinv.headers base header hheader).1] at hfree
  by_cases hretired : header.retired = true
  · rw [if_pos hretired, Option.some.injEq] at hfree
    subst hfree
    obtain ⟨hlive, hle⟩ := hcounts.retired base header hheader hretired
    have hsub : fetchSub header.liveChunks = header.liveChunks - 1 :=
      fetchSub_of_pos (by omega) (by omega)
    refine ⟨⟨?_, ?_⟩, ?_⟩
    · intro other header' hother hr
      rcases storeHeader_eq_some.mp hother with ⟨rfl, rfl⟩ | ⟨hne, hother⟩
      · exact ⟨by simp only; omega, by simp only; omega⟩
      · rw [hcount other hne]
        exact hcounts.retired other header' hother hr
    · intro other header' hother hreclaimed
      rcases storeHeader_eq_some.mp hother with ⟨rfl, rfl⟩ | ⟨_, hother⟩
      · obtain ⟨_, hzero⟩ := hcounts.reclaimed other header hheader hreclaimed
        omega
      · exact hcounts.reclaimed other header' hother hreclaimed
    · intro other before after hbefore hr hafter
      rcases storeHeader_eq_some.mp hafter with ⟨rfl, rfl⟩ | ⟨_, hother⟩
      · rw [hheader, Option.some.injEq] at hbefore
        simp [hbefore, hr] at hretired
      · rw [hbefore, Option.some.injEq] at hother
        exact hother ▸ hr
  · rw [if_neg hretired, mpscPush, hload, Option.map_some,
      Option.some.injEq] at hfree
    subst hfree
    refine ⟨⟨?_, ?_⟩, ?_⟩
    · intro other header' hother hr
      rcases storeHeader_eq_some.mp hother with ⟨rfl, rfl⟩ | ⟨hne, hother⟩
      · exact absurd hr hretired
      · rw [hcount other hne]
        exact hcounts.retired other header' hother hr
    · intro other header' hother hreclaimed
      rcases storeHeader_eq_some.mp hother with ⟨rfl, rfl⟩ | ⟨_, hother⟩
      · exact hcounts.reclaimed other header hheader hreclaimed
      · exact hcounts.reclaimed other header' hother hreclaimed
    · intro other before after hbefore hr hafter
      rcases storeHeader_eq_some.mp hafter with ⟨rfl, rfl⟩ | ⟨_, hother⟩
      · simpa using hretired
      · rw [hbefore, Option.some.injEq] at hother
        exact hother ▸ hr

/-- A sweep reclaims only retired segments whose count is zero. -/
theorem LiveCounts.sweep (hcounts : LiveCounts layout heap held)
    (hregistry : RegistryOk layout heap) (mode : ReapMode)
    (pred : Option (ℕ → Bool)) (pageSize : ℕ) :
    LiveCounts layout (reaperSweep layout mode pred pageSize heap).1 held := by
  obtain ⟨hframe, _⟩ := sweepFrame_reaperSweep mode pred
    pageSize hregistry
  constructor
  · intro base header hheader hretired
    obtain ⟨header', _, hbefore, rfl⟩ := hframe.past hheader
    exact hcounts.retired base header' hbefore hretired
  · intro base header hheader hreclaimed
    obtain ⟨header', _, hbefore, rfl⟩ := hframe.past hheader
    rcases reaperSweep_cases mode pred pageSize heap base with
      ⟨hsame, hmapped⟩ | ⟨header'', hheader'', hretired, hlive⟩
    · rw [hsame, hbefore, Option.some.injEq] at hheader
      rw [hmapped] at hreclaimed
      have hreclaimed' : heap.mapped base = false ∨
          header'.decommitted = true := by
        rw [hheader]
        exact hreclaimed
      exact hcounts.reclaimed base header' hbefore hreclaimed'
    · obtain rfl := Option.some.inj (hbefore.symm.trans hheader'')
      exact ⟨hretired, hlive⟩

end Counts

/-! ## Runs -/

section Runs

variable {layout : SegmentLayout} {spec : RoutineSpec} {slot : ℕ}

theorem liveCounts_step (hstrategy : spec.strategy = .producerConsumer)
    (hpos : 0 < spec.size) (hsize : spec.size < 4096)
    {state target : RoutineState} {action : RoutineAction}
    (hok : PcOk layout spec slot state)
    (hcounts : LiveCounts layout state.heap state.held)
    (hexact : RetirementExact spec slot state action)
    (hstep : routineStep layout spec slot state action = some target) :
    LiveCounts layout target.heap target.held ∧
      RetiresExactly state target := by
  unfold PcOk at hok
  have hunchanged : ∀ {heap' : Heap} {held' : List Chunk},
      heap'.header = state.heap.header →
      RetiresExactly state ⟨heap', held', state.handedOut⟩ := by
    intro heap' held' hheader base before after hbefore hr hafter hretired
    simp only [hheader, hbefore, Option.some.injEq] at hafter
    simp [← hafter, hr] at hretired
  cases action with
  | alloc tid request base =>
      by_cases hfresh : Fresh layout state.heap base
      · simp only [routineStep, if_pos hfresh, Option.map_eq_some_iff, routine,
          hstrategy] at hstep
        obtain ⟨⟨heap', served⟩, hroutine, rfl⟩ := hstep
        rcases pcRoutine_cases hroutine with ⟨rfl, rfl⟩ |
          ⟨rfl, ⟨hroom, rfl, rfl⟩ | ⟨ptr, rfl, hexhausted, hrefill⟩⟩
        · exact ⟨hcounts, hunchanged rfl⟩
        · refine ⟨hcounts.fastPath hok hroom rfl rfl, ?_⟩
          intro base' before after hbefore hr hafter hretired
          simp only [hbefore, Option.some.injEq] at hafter
          simp [← hafter, hr] at hretired
        · exact hcounts.refill hok hpos hsize hfresh hrefill
            (hexact rfl hexhausted)
      · simp [routineStep, hfresh] at hstep
  | write chunk offset byte =>
      by_cases hwrite : chunk ∈ state.held ∧ offset < chunk.size
      · simp only [routineStep, if_pos hwrite, Option.some.injEq] at hstep
        exact hstep ▸ ⟨hcounts.congr rfl rfl fun _ _ _ _ => rfl,
          hunchanged rfl⟩
      · simp [routineStep, hwrite] at hstep
  | free tid chunk =>
      by_cases hheld : chunk ∈ state.held
      · simp only [routineStep, if_pos hheld, Option.map_eq_some_iff] at hstep
        obtain ⟨heap', hfree, rfl⟩ := hstep
        obtain ⟨hcounts', hactive⟩ :=
          hcounts.freeChunk hok hsize hheld hfree
        refine ⟨hcounts', ?_⟩
        intro base before after hbefore hr hafter hretired
        simp [hactive base before after hbefore hr hafter] at hretired
      · simp [routineStep, hheld] at hstep
  | sweep mode pred pageSize =>
      simp only [routineStep, Option.some.injEq] at hstep
      subst hstep
      refine ⟨hcounts.sweep hok.registry mode pred pageSize, ?_⟩
      obtain ⟨hframe, _⟩ := sweepFrame_reaperSweep mode pred
        pageSize hok.registry
      intro base before after hbefore hr hafter hretired
      obtain ⟨hsame, _⟩ := hframe.active base before hbefore hr
      rw [hsame, Option.some.injEq] at hafter
      simp [← hafter, hr] at hretired

/-- The fast path answers the call. -/
def hasRoom (spec : RoutineSpec) (slot : ℕ) (state : RoutineState) :
    RoutineAction → Bool
  | .alloc tid _ _ =>
      decide ((state.heap.bumps (tid, slot)).ptr + spec.size <
        (state.heap.bumps (tid, slot)).limit)
  | _ => true

/-- Only a refill retires a segment. -/
theorem retirementExact_of_hasRoom {state : RoutineState}
    {action : RoutineAction} (hroom : hasRoom spec slot state action = true) :
    RetirementExact spec slot state action := by
  cases action with
  | alloc tid request base =>
      rw [hasRoom, decide_eq_true_eq] at hroom
      exact fun _ hexhausted => absurd hroom hexhausted
  | _ => trivial

/-- A refill meets the condition once every chunk of the segment is back on the
queue. -/
theorem retirementExact_of_drained
    (hstrategy : spec.strategy = .producerConsumer)
    (hlink : pointerSize ≤ spec.size) (hsize : spec.size < 4096)
    {state : RoutineState} (hreach : RoutineReachable layout spec slot state)
    {tid base : ℕ} (request fresh : ℕ)
    (hlimit : (state.heap.bumps (tid, slot)).limit = segmentEnd layout base)
    (hdrained : (state.heap.remoteLog base).length = state.handedOut base)
    (hwidth : state.handedOut base < 2 ^ 32) :
    RetirementExact spec slot state (.alloc tid request fresh) := by
  have hpos : 0 < spec.size := lt_of_lt_of_le (by decide) hlink
  have hinv : PcInv layout spec slot state.heap state.held state.handedOut
    none := pcOk_reachable hstrategy hpos hsize hreach
  intro _ _ active header hheader hactive howner
  obtain ⟨_, hcursor⟩ := hinv.active active header hheader hactive
  -- A thread's cursor ends where its one active segment does.
  obtain rfl : active = base := by
    have hend : segmentEnd layout active = segmentEnd layout base := by
      rw [← hlimit, ← howner, hcursor]
    exact Nat.add_right_cancel hend
  exact ⟨.inl hlink, .inr ⟨hdrained, hwidth⟩⟩

/-- The invariant of the runs whose retirements are all exact. -/
def PcCounted (layout : SegmentLayout) (spec : RoutineSpec) (slot : ℕ)
    (state : RoutineState) : Prop :=
  PcOk layout spec slot state ∧ LiveCounts layout state.heap state.held

/-- In every run whose refills all meet the condition, a segment is reclaimed
only when every chunk handed out from it has been freed, and every retirement
stores an exact count. -/
theorem reclaimedIsFree_of_retirementExact (layout : SegmentLayout)
    (spec : RoutineSpec) (slot : ℕ)
    (hstrategy : spec.strategy = .producerConsumer)
    (haccepts : compileAccepts spec) {state : RoutineState}
    (hreach : Transition.ReachableWhen (routineStep layout spec slot)
      (RetirementExact spec slot) (RoutineState.initial spec slot) state) :
    ReclaimedIsFree layout state ∧
      ∀ action target, RetirementExact spec slot state action →
        routineStep layout spec slot state action = some target →
        RetiresExactly state target := by
  have hpos := Nat.pos_of_ne_zero haccepts.1
  have hsize : spec.size < 4096 := haccepts.2.1
  have hinitial : PcCounted layout spec slot (RoutineState.initial spec slot) :=
    ⟨pcInv_initial layout spec slot _,
      by simp [RoutineState.initial, Heap.empty],
      by simp [RoutineState.initial, Heap.empty]⟩
  have hcounted : PcCounted layout spec slot state :=
    hreach.invariant hinitial fun _ _ _ hcounted hexact hstep =>
      ⟨pcOk_step hstrategy hpos hsize hcounted.1 hstep,
        (liveCounts_step hstrategy hpos hsize hcounted.1 hcounted.2 hexact
          hstep).1⟩
  refine ⟨hcounted.2.reclaimedIsFree, ?_⟩
  intro action target hexact hstep
  exact (liveCounts_step hstrategy hpos hsize hcounted.1 hcounted.2 hexact
    hstep).2

/-- Segments of two pages. -/
def twoPages : SegmentLayout where
  shift := 13
  shift_ge := by decide
  shift_lt := by decide

/-- A producer-consumer routine of which such a segment holds three chunks. -/
def threeChunkQueue : RoutineSpec where
  id := 1
  strategy := .producerConsumer
  size := 2048
  classSizes := fun _ => 0
  classCount := 0

/-- Thread 0 takes the other two chunks, and all three are freed, two of them by
thread 1. -/
def drains : List RoutineAction :=
  [.alloc 0 2048 16384, .alloc 0 2048 16384, .free 1 ⟨8256, 2048⟩,
    .free 0 ⟨12352, 2048⟩, .free 1 ⟨10304, 2048⟩]

/-- The states of the run, of the call that retires the segment and of a
sweep. -/
theorem exists_drained :
    ∃ first drained retired swept,
      routineStep twoPages threeChunkQueue 0
        (RoutineState.initial threeChunkQueue 0) (.alloc 0 2048 8192) =
        some first ∧
      Transition.run (fun state action =>
        if hasRoom threeChunkQueue 0 state action then
          routineStep twoPages threeChunkQueue 0 state action
        else none) first drains = some drained ∧
      (drained.heap.header 8192).map SegmentHeader.retired = some false ∧
      (drained.heap.bumps (0, 0)).limit = 16384 ∧
      (drained.heap.remoteLog 8192).length = 3 ∧
      drained.handedOut 8192 = 3 ∧
      routineStep twoPages threeChunkQueue 0 drained (.alloc 0 2048 16384) =
        some retired ∧
      (retired.heap.header 8192).map SegmentHeader.retired = some true ∧
      routineStep twoPages threeChunkQueue 0 retired
        (.sweep .eager none 4096) = some swept ∧
      swept.heap.mapped 8192 = false ∧ swept.handedOut 8192 = 3 ∧
      ∃ header, swept.heap.header 8192 = some header := by
  have hstates : ((routineStep twoPages threeChunkQueue 0
      (RoutineState.initial threeChunkQueue 0) (.alloc 0 2048 8192)).any
      fun first =>
        (Transition.run (fun state action =>
          if hasRoom threeChunkQueue 0 state action then
            routineStep twoPages threeChunkQueue 0 state action
          else none) first drains).any fun drained =>
          decide ((drained.heap.header 8192).map SegmentHeader.retired =
            some false) &&
          decide ((drained.heap.bumps (0, 0)).limit = 16384) &&
          decide ((drained.heap.remoteLog 8192).length = 3) &&
          decide (drained.handedOut 8192 = 3) &&
          (routineStep twoPages threeChunkQueue 0 drained
            (.alloc 0 2048 16384)).any fun retired =>
            decide ((retired.heap.header 8192).map SegmentHeader.retired =
              some true) &&
            (routineStep twoPages threeChunkQueue 0 retired
              (.sweep .eager none 4096)).any fun swept =>
              !swept.heap.mapped 8192 && decide (swept.handedOut 8192 = 3) &&
                (swept.heap.header 8192).isSome) = true := by
    decide +kernel
  simp only [Option.any_eq_true, Bool.and_eq_true, Bool.not_eq_true',
    decide_eq_true_eq, Option.isSome_iff_exists] at hstates
  obtain ⟨first, hfirst, drained, hdrained, ⟨⟨⟨hactive, hlimit⟩, hqueue⟩,
    hserved⟩, retired, hretires, hretired, swept, hsweep, ⟨hunmapped,
    hhanded⟩, hheader⟩ := hstates
  exact ⟨first, drained, retired, swept, hfirst, hdrained, hactive, hlimit,
    hqueue, hserved, hretires, hretired, hsweep, hunmapped, hhanded, hheader⟩

/-- The next call retires the segment with an exact count, and a sweep unmaps
it. -/
theorem reclaimedIsFree_drained :
    ∃ first drained retired swept,
      routineStep twoPages threeChunkQueue 0
        (RoutineState.initial threeChunkQueue 0) (.alloc 0 2048 8192) =
        some first ∧
      Transition.run (fun state action =>
        if hasRoom threeChunkQueue 0 state action then
          routineStep twoPages threeChunkQueue 0 state action
        else none) first drains = some drained ∧
      (drained.heap.header 8192).map SegmentHeader.retired = some false ∧
      routineStep twoPages threeChunkQueue 0 drained (.alloc 0 2048 16384) =
        some retired ∧
      (retired.heap.header 8192).map SegmentHeader.retired = some true ∧
      RetiresExactly drained retired ∧
      routineStep twoPages threeChunkQueue 0 retired
        (.sweep .eager none 4096) = some swept ∧
      swept.heap.mapped 8192 = false ∧ swept.handedOut 8192 = 3 ∧
      heldIn twoPages swept.held 8192 = 0 := by
  obtain ⟨first, drained, retired, swept, hfirst, hdrained, hactive, hlimit,
    hqueue, hserved, hretires, hretired, hsweep, hunmapped, hhanded, header,
    hheader⟩ := exists_drained
  have hempty : RetirementExact threeChunkQueue 0
      (RoutineState.initial threeChunkQueue 0) (.alloc 0 2048 8192) := by
    simp [RetirementExact, RoutineState.initial, Heap.empty]
  have hreach : Transition.ReachableWhen
      (routineStep twoPages threeChunkQueue 0)
      (RetirementExact threeChunkQueue 0)
      (RoutineState.initial threeChunkQueue 0) drained :=
    Transition.reachableWhen_of_run (fun _ _ => retirementExact_of_hasRoom)
      (.act _ .start hempty hfirst) hdrained
  have hexact : RetirementExact threeChunkQueue 0 drained
      (.alloc 0 2048 16384) :=
    retirementExact_of_drained rfl (by decide) (by decide) hreach.reachable _ _
      hlimit (hqueue.trans hserved.symm) (by rw [hserved]; decide)
  have hswept : Transition.ReachableWhen
      (routineStep twoPages threeChunkQueue 0)
      (RetirementExact threeChunkQueue 0)
      (RoutineState.initial threeChunkQueue 0) swept :=
    .act (.sweep .eager none 4096) (.act _ hreach hexact hretires) trivial
      hsweep
  refine ⟨first, drained, retired, swept, hfirst, hdrained, hactive, hretires,
    hretired, ?_, hsweep, hunmapped, hhanded, ?_⟩
  · exact (reclaimedIsFree_of_retirementExact twoPages threeChunkQueue 0 rfl
      (by decide) hreach).2 _ _ hexact hretires
  · exact (reclaimedIsFree_of_retirementExact twoPages threeChunkQueue 0 rfl
      (by decide) hswept).1 8192 header hheader (.inl hunmapped)

/-! ## Reclaiming a segment in use -/

/-- Thread 0 has been served `count` chunks of the first segment and nothing
else has happened. -/
structure Serving (layout : SegmentLayout) (spec : RoutineSpec) (slot : ℕ)
    (count : ℕ) (state : RoutineState) : Prop where
  reach : RoutineReachable layout spec slot state
  header : ∃ header, state.heap.header layout.segmentSize = some header ∧
    header.retired = false ∧ header.ownerTid = 0
  others : ∀ other ≠ layout.segmentSize, state.heap.header other = none
  log : state.heap.remoteLog layout.segmentSize = []
  index : state.heap.index = [layout.segmentSize]
  handedOut : state.handedOut layout.segmentSize = count

theorem serving_one (layout : SegmentLayout) (slot : ℕ)
    (hstrategy : spec.strategy = .producerConsumer) :
    ∃ state, Serving layout spec slot 1 state := by
  have hge := segmentSize_ge layout
  have hfresh : Fresh layout (RoutineState.initial spec slot).heap
      layout.segmentSize := fresh_segmentSize (Or.inl rfl) rfl
  have hbumped := bumped_bumpSegment spec.strategy 0 slot spec.size hfresh
  have hreach := (RoutineReachable.initial layout spec slot).serve hfresh
    (routine_first 0 (Or.inr (Or.inr hstrategy)) layout.segmentSize
      rfl)
  have hsegment : segmentOf layout (payloadStart layout.segmentSize) =
      layout.segmentSize := by
    refine segmentOf_eq dvd_rfl (Nat.le_add_right _ _) ?_
    unfold payloadStart headerSize segmentEnd
    omega
  obtain ⟨fresh, hheader, _, _, howner, _, _, _, hactive, _⟩ := hbumped.header
  refine ⟨_, hreach, ⟨fresh, ?_, hactive, howner⟩, ?_, ?_, ?_, ?_⟩
  · exact hheader ▸ Function.update_self _ _ _
  · intro other hne
    exact (congrFun hheader other).trans (Function.update_of_ne hne _ _)
  · exact hbumped.remoteLog ▸ Function.update_self _ _ _
  · exact hbumped.index
  · simp [hsegment, RoutineState.initial]

theorem Serving.succ (hstrategy : spec.strategy = .producerConsumer)
    (haccepts : compileAccepts spec) {count : ℕ} {state : RoutineState}
    (hserving : Serving layout spec slot count state)
    (hfits : headerSize + (count + 1) * spec.size < layout.segmentSize) :
    ∃ target, Serving layout spec slot (count + 1) target := by
  have hpos := Nat.pos_of_ne_zero haccepts.1
  have hsize : spec.size < 4096 := haccepts.2.1
  have hinv : PcInv layout spec slot state.heap state.held state.handedOut
    none := pcOk_reachable hstrategy hpos hsize hserving.reach
  have hge := segmentSize_ge layout
  obtain ⟨header, hheader, hactive, howner⟩ := hserving.header
  obtain ⟨_, hcursor⟩ := hinv.active _ header hheader hactive
  rw [howner, hserving.handedOut] at hcursor
  rw [Nat.add_mul, Nat.one_mul] at hfits
  have hroom : (state.heap.bumps (0, slot)).ptr + spec.size <
      (state.heap.bumps (0, slot)).limit := by
    rw [hcursor]
    simp only [piece, payloadStart, segmentEnd]
    omega
  have hsegment : segmentOf layout (state.heap.bumps (0, slot)).ptr =
      layout.segmentSize := by
    rw [hcursor] at hroom ⊢
    simp only at hroom ⊢
    refine segmentOf_eq dvd_rfl ((Nat.le_add_right _ _).trans
      (start_le_piece _ _ _)) ?_
    omega
  have hreach := hserving.reach.serve
    (fresh_segmentSize (Or.inr rfl) (hserving.others _ (by omega)))
    (routine_next (Or.inr (Or.inr hstrategy)) (2 * layout.segmentSize) hroom)
  refine ⟨_, hreach, ⟨header, hheader, hactive, howner⟩, hserving.others,
    hserving.log, hserving.index, ?_⟩
  simp [hsegment, hserving.handedOut]

theorem exists_serving (slot : ℕ)
    (hstrategy : spec.strategy = .producerConsumer)
    (haccepts : compileAccepts spec) {count : ℕ}
    (hfits : headerSize + (count + 1) * spec.size < layout.segmentSize) :
    ∃ state, Serving layout spec slot (count + 1) state := by
  induction count with
  | zero => exact serving_one layout slot hstrategy
  | succ count ih =>
      have hle : (count + 1) * spec.size ≤ (count + 1 + 1) * spec.size :=
        Nat.mul_le_mul_right _ (Nat.le_succ _)
      obtain ⟨state, hserving⟩ := ih (by omega)
      exact hserving.succ hstrategy haccepts hfits

/-- The next call retires the segment with a count of one, whatever the number
of chunks served from it. -/
theorem Serving.retire (hstrategy : spec.strategy = .producerConsumer)
    (haccepts : compileAccepts spec) {count : ℕ} {state : RoutineState}
    (hserving : Serving layout spec slot count state)
    (hfull : ¬ headerSize + (count + 1) * spec.size < layout.segmentSize) :
    ∃ target header, RoutineReachable layout spec slot target ∧
      target.heap.header layout.segmentSize = some header ∧
      header.retired = true ∧ header.liveChunks = 1 ∧
      target.heap.mapped layout.segmentSize = true ∧
      heldIn layout target.held layout.segmentSize = count ∧
      target.heap.index = [layout.segmentSize, 2 * layout.segmentSize] ∧
      ∃ other, target.heap.header (2 * layout.segmentSize) = some other ∧
        other.retired = false := by
  have hpos := Nat.pos_of_ne_zero haccepts.1
  have hsize : spec.size < 4096 := haccepts.2.1
  have hinv : PcInv layout spec slot state.heap state.held state.handedOut
    none := pcOk_reachable hstrategy hpos hsize hserving.reach
  have hge := segmentSize_ge layout
  obtain ⟨header, hheader, hactive, howner⟩ := hserving.header
  obtain ⟨hmapped, hcursor⟩ := hinv.active _ header hheader hactive
  rw [howner, hserving.handedOut] at hcursor
  rw [Nat.add_mul, Nat.one_mul] at hfull
  have hexhausted : ¬ (state.heap.bumps (0, slot)).ptr + spec.size <
      (state.heap.bumps (0, slot)).limit := by
    rw [hcursor]
    simp only [piece, payloadStart, segmentEnd]
    omega
  have hfresh : Fresh layout state.heap (2 * layout.segmentSize) :=
    fresh_segmentSize (Or.inr rfl) (hserving.others _ (by omega))
  have hlimit : (state.heap.bumps (0, slot)).limit =
      segmentEnd layout layout.segmentSize := by
    rw [hcursor]
  have hwalk : walkChain state.heap.memory header.remoteHead = some [] := by
    rw [hinv.remoteHead _ header hheader hactive hserving.log]
    exact walkChain_of_chain (chain_nil.mpr rfl) (by simp)
  obtain ⟨heap', hrefill⟩ : ∃ heap', pcRefill layout 0 slot spec.size
      (2 * layout.segmentSize) state.heap =
      some (heap', payloadStart (2 * layout.segmentSize)) := by
    rw [hinv.pcRefill_eq hpos _ hheader hactive hlimit, hwalk]
    exact ⟨_, rfl⟩
  have hroutine : routine layout spec slot 0 spec.size
      (2 * layout.segmentSize) state.heap =
      some (heap', .chunk (payloadStart (2 * layout.segmentSize))) := by
    simp [routine, hstrategy, pcRoutine, bumpFastPath, hexhausted, hrefill]
  have hreach := hserving.reach.serve hfresh hroutine
  obtain ⟨hsegment, _⟩ := hinv.refill hpos hsize hfresh hrefill
  obtain ⟨_, ⟨hzero, _⟩ | ⟨active, header', drained, hheader', _, _, hlimit',
    hwalk', hbumped⟩⟩ := hinv.refill_cases hpos hfresh hrefill
  · rw [hlimit] at hzero
    unfold segmentEnd at hzero
    omega
  obtain rfl : active = layout.segmentSize := by
    rw [hlimit] at hlimit'
    unfold segmentEnd at hlimit'
    omega
  obtain rfl := Option.some.inj (hheader.symm.trans hheader')
  obtain rfl := Option.some.inj (hwalk.symm.trans hwalk')
  obtain ⟨fresh, hfreshHeader, _, _, _, _, _, _, hfreshActive, _⟩ :=
    hbumped.header
  refine ⟨_, { header with
    remoteHead := 0
    liveChunks := 1 - ([] : List ℕ).length % 2 ^ 32
    retired := true }, hreach, ?_, rfl, rfl, ?_, ?_, ?_, fresh, ?_,
    hfreshActive⟩
  · rw [hfreshHeader, Function.update_of_ne (by omega)]
    exact storeHeader_eq_some.mpr (Or.inl ⟨rfl, rfl⟩)
  · rw [hbumped.mapped, Function.update_of_ne (by omega)]
    exact hmapped
  · have hbalance := hinv.balance _ header hheader hactive
    rw [hserving.handedOut, hserving.log, List.length_nil, Nat.add_zero]
      at hbalance
    simp only
    rw [heldIn_cons, hsegment, if_neg (by omega), Nat.add_zero, hbalance]
  · have hindex := hbumped.index
    simp only [Heap.storeHeader, hserving.index] at hindex
    simpa [maxSegments] using hindex
  · rw [hfreshHeader, Function.update_self]

/-- One free then brings the count to zero, and an eager sweep unmaps the segment
under the clients of its other chunks. -/
theorem exists_reclaimed_in_use (slot : ℕ)
    (hstrategy : spec.strategy = .producerConsumer)
    (haccepts : compileAccepts spec) (count : ℕ)
    (hfits : headerSize + (count + 2) * spec.size < layout.segmentSize)
    (hfull : ¬ headerSize + (count + 3) * spec.size < layout.segmentSize) :
    ∃ state, RoutineReachable layout spec slot state ∧
      state.heap.mapped layout.segmentSize = false ∧
      heldIn layout state.held layout.segmentSize = count + 1 := by
  have hpos := Nat.pos_of_ne_zero haccepts.1
  have hsize : spec.size < 4096 := haccepts.2.1
  have hge := segmentSize_ge layout
  obtain ⟨serving, hserving⟩ := exists_serving slot hstrategy haccepts hfits
  obtain ⟨retired, header, hreach, hheader, hretired, hlive, hmapped, hheld,
    hindex, other, hother, hotherActive⟩ :=
    hserving.retire hstrategy haccepts hfull
  have hinv : PcInv layout spec slot retired.heap retired.held
    retired.handedOut none := pcOk_reachable hstrategy hpos hsize hreach
  obtain ⟨chunk, hchunk, hsegment⟩ : ∃ chunk ∈ retired.held,
      segmentOf layout chunk.ptr = layout.segmentSize := by
    have hsome : 0 < heldIn layout retired.held layout.segmentSize := by omega
    simpa using List.countP_pos_iff.mp hsome
  -- The free finds the segment retired and takes its count to zero.
  have hload : retired.heap.loadHeader layout.segmentSize = some header :=
    loadHeader_eq_some.mpr ⟨hmapped, hheader⟩
  have hfreed : RoutineReachable layout spec slot { retired with
      heap := retired.heap.storeHeader layout.segmentSize
        { header with liveChunks := fetchSub header.liveChunks }
      held := retired.held.erase chunk } := by
    refine Transition.Reachable.act (.free 0 chunk) hreach ?_
    rw [routineStep, if_pos hchunk, freeChunk, hsegment,
      if_pos ((hinv.registry.isManaged_iff dvd_rfl).mpr hmapped),
      freeManaged_of_producerConsumer hload
        (hinv.headers _ header hheader).1, if_pos hretired]
    rfl
  have hswept := Transition.Reachable.act (.sweep .eager none 4096) hfreed rfl
  refine ⟨_, hswept, ?_, ?_⟩
  · have hselected : eligibleSegments .eager none
        (retired.heap.storeHeader layout.segmentSize
          { header with liveChunks := fetchSub header.liveChunks }) =
        [layout.segmentSize] := by
      have hne : 2 * layout.segmentSize ≠ layout.segmentSize := by omega
      have hzero : fetchSub header.liveChunks = 0 := by rw [hlive]; rfl
      cases hunmapped : retired.heap.mapped (2 * layout.segmentSize) <;>
        simp [eligibleSegments, Heap.storeHeader, hindex, Heap.loadHeader,
          hmapped, hne, eligible, hretired, hzero, hother, hotherActive,
          hunmapped]
    simp [reaperSweep, hselected, reclaimSegment, freeSegment]
  · have herase := @heldIn_erase layout _ _ hchunk layout.segmentSize
    rw [hsegment, if_pos rfl, hheld] at herase
    simp only
    omega

end Runs

/-- A producer-consumer routine for objects of 64 bytes. -/
def cacheLineQueue : RoutineSpec where
  id := 1
  strategy := .producerConsumer
  size := 64
  classSizes := fun _ => 0
  classCount := 0

theorem cacheLineQueue_reclaimed_in_use :
    compileAccepts cacheLineQueue ∧
      ∃ state, RoutineReachable .default cacheLineQueue 0 state ∧
        ¬ ReclaimedIsFree .default state := by
  refine ⟨by decide, ?_⟩
  obtain ⟨state, hreach, hunmapped, hheld⟩ :=
    @exists_reclaimed_in_use .default cacheLineQueue 0 rfl (by decide) 32764
      (by decide) (by decide)
  refine ⟨state, hreach, fun hfree => ?_⟩
  have hinv : PcInv .default cacheLineQueue 0 state.heap state.held
    state.handedOut none := pcOk_reachable rfl (by decide) (by decide) hreach
  obtain ⟨chunk, hchunk, hsegment⟩ : ∃ chunk ∈ state.held,
      segmentOf .default chunk.ptr = SegmentLayout.default.segmentSize := by
    have hsome : 0 < heldIn .default state.held
        SegmentLayout.default.segmentSize := by omega
    simpa using List.countP_pos_iff.mp hsome
  obtain ⟨_, base, hserved⟩ := hinv.heldServed chunk hchunk
  obtain ⟨⟨header, hheader⟩, _, _, _, hbase⟩ :=
    hinv.served (by decide) hserved
  rw [← hbase, hsegment] at hheader
  have := hfree _ header hheader (Or.inl hunmapped)
  omega

end TbjitAlloc.Codegen
