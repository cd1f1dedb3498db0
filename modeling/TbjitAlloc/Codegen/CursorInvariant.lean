import TbjitAlloc.Codegen.Routine
import TbjitAlloc.Segment.Frames

/-!
# Cursors of the bump-shaped routines

`BumpAlloc`, `PairedStack` and `EpochArena` hand out consecutive chunks from a
thread's cursor and never thread a link through a freed one.  Their segments are
never retired and their remote queues stay empty.
-/

namespace TbjitAlloc.Codegen

open TbjitAlloc.ByteMemory
open TbjitAlloc.Carving
open TbjitAlloc.Segment

/-! ## A fresh bump segment -/

/-- The heap after `bumpSegment` has mapped the segment at `base` for thread
`tid` and handed out its first chunk. -/
structure Bumped (layout : SegmentLayout) (strategy : Strategy)
    (tid slot size base : ℕ) (before after : Heap) : Prop where
  header : ∃ fresh : SegmentHeader,
    after.header = Function.update before.header base (some fresh) ∧
      fresh.strategy = strategy ∧ fresh.slotIndex = slot ∧
      fresh.ownerTid = tid ∧ fresh.chunkSize = size ∧
      fresh.bumpPtr = payloadStart base + size ∧ fresh.remoteHead = 0 ∧
      fresh.retired = false ∧ fresh.decommitted = false
  registry : RegistryOk layout before → RegistryOk layout after
  mapped : after.mapped = Function.update before.mapped base true
  remoteLog : after.remoteLog = Function.update before.remoteLog base []
  bumps : after.bumps = Function.update before.bumps (tid, slot)
    ⟨payloadStart base + size, segmentEnd layout base⟩
  arenas : after.arenas = before.arenas
  index : after.index = if before.index.length < maxSegments then
    before.index ++ [base] else before.index
  memory : ∀ address, address < base ∨ segmentEnd layout base ≤ address →
    after.memory address = before.memory address

theorem bumped_bumpSegment {layout : SegmentLayout} (strategy : Strategy)
    (tid slot size : ℕ) {base : ℕ} {heap : Heap}
    (hfresh : Fresh layout heap base) :
    Bumped layout strategy tid slot size base heap
      (bumpSegment layout strategy tid slot size base heap).1 where
  header := by
    simp only [bumpSegment, allocSegment, registerSegment,
      Function.update_self, Function.update_idem, Option.map_some]
    exact ⟨_, rfl, rfl, rfl, rfl, rfl, rfl, rfl, rfl, rfl⟩
  registry := by
    intro hok
    have hallocated : RegistryOk layout (allocSegment layout heap tid strategy
        slot (heap.slotToSite slot) size base) := hok.allocSegment hfresh
    refine hallocated.congr (fun other hother => ?_) (fun other hother => ?_)
      rfl rfl
    · by_cases heq : other = base
      · simp [bumpSegment, allocSegment, registerSegment, heq] at hother
      · simpa [bumpSegment, heq] using hother
    · have hne : other ≠ base := by
        rintro rfl
        simp [allocSegment, registerSegment] at hother
      simpa [bumpSegment, hne] using hother
  mapped := rfl
  remoteLog := rfl
  bumps := rfl
  arenas := rfl
  index := rfl
  memory := fun address haddress => fill_outside _ haddress

/-! ## The first two calls -/

/-- The strategies that serve from a bump cursor. -/
def UsesBump (strategy : Strategy) : Prop :=
  strategy = .bumpAlloc ∨ strategy = .pairedStack ∨
    strategy = .producerConsumer

section Calls

variable {layout : SegmentLayout} {spec : RoutineSpec} {slot : ℕ}

/-- A first call starts a segment. -/
theorem routine_first (tid : ℕ) (hbump : UsesBump spec.strategy) (base : ℕ)
    {heap : Heap} (hzero : heap.bumps (tid, slot) = ⟨0, 0⟩) :
    routine layout spec slot tid spec.size base heap =
      some ((bumpSegment layout spec.strategy tid slot spec.size base heap).1,
        .chunk (payloadStart base)) := by
  rcases hbump with h | h | h <;>
    simp only [routine, h, bumpRoutine, pcRoutine, bumpFastPath, hzero,
      pcRefill, bumpSlowInit, pairedSlowInit, Nat.not_lt_zero, ne_eq,
      not_true, if_false, if_true, Option.bind_eq_bind, Option.bind_some,
      Option.pure_def, Option.map_some] <;>
    rfl

/-- A call with room below the cursor's limit serves the chunk at the cursor. -/
theorem routine_next (hbump : UsesBump spec.strategy) {tid : ℕ} (base : ℕ)
    {heap : Heap}
    (hroom : (heap.bumps (tid, slot)).ptr + spec.size <
      (heap.bumps (tid, slot)).limit) :
    routine layout spec slot tid spec.size base heap =
      some ({ heap with
        bumps := Function.update heap.bumps (tid, slot)
          { heap.bumps (tid, slot) with
            ptr := (heap.bumps (tid, slot)).ptr + spec.size } },
        .chunk (heap.bumps (tid, slot)).ptr) := by
  rcases hbump with h | h | h <;>
    simp [routine, h, bumpRoutine, pcRoutine, bumpFastPath, hroom]

/-- The two lowest segments `mmap` can return. -/
theorem fresh_segmentSize {heap : Heap} {base : ℕ}
    (hbase : base = layout.segmentSize ∨ base = 2 * layout.segmentSize)
    (hnone : heap.header base = none) : Fresh layout heap base := by
  have hge := segmentSize_ge layout
  have hle := segmentSize_le layout
  refine ⟨by omega, ?_, by omega, hnone⟩
  rcases hbase with rfl | rfl
  · exact dvd_rfl
  · exact Dvd.intro_left 2 rfl

/-- Two calls by one thread serve the first two chunks of a segment, when the
second ends below the segment's end. -/
theorem reachable_twoServed (slot : ℕ) (hbump : UsesBump spec.strategy)
    (hfits : headerSize + 2 * spec.size < layout.segmentSize) :
    ∃ heap handedOut fresh,
      RoutineReachable layout spec slot
        ⟨heap, [⟨payloadStart layout.segmentSize + spec.size, spec.size⟩,
          ⟨payloadStart layout.segmentSize, spec.size⟩], handedOut⟩ ∧
      heap.loadHeader layout.segmentSize = some fresh ∧
      fresh.strategy = spec.strategy ∧ fresh.retired = false ∧
      fresh.remoteHead = 0 := by
  have hgeSize := segmentSize_ge layout
  have hfresh : Fresh layout (RoutineState.initial spec slot).heap
      layout.segmentSize :=
    fresh_segmentSize (Or.inl rfl) rfl
  have hbumped := bumped_bumpSegment spec.strategy 0 slot spec.size hfresh
  have hreach₁ := (RoutineReachable.initial layout spec slot).serve hfresh
    (routine_first 0 hbump layout.segmentSize rfl)
  generalize (bumpSegment layout spec.strategy 0 slot spec.size
    layout.segmentSize (RoutineState.initial spec slot).heap).1 = heap₁
    at hbumped hreach₁
  obtain ⟨fresh, hheader, hstrategy, _, _, _, _, hremote, hactive, _⟩ :=
    hbumped.header
  have hcursor : heap₁.bumps (0, slot) =
      ⟨payloadStart layout.segmentSize + spec.size,
        segmentEnd layout layout.segmentSize⟩ := by
    rw [hbumped.bumps, Function.update_self]
  have hfresh' : Fresh layout heap₁ (2 * layout.segmentSize) := by
    refine fresh_segmentSize (Or.inr rfl) ?_
    rw [hheader, Function.update_of_ne (by omega)]
    rfl
  have hroom : (heap₁.bumps (0, slot)).ptr + spec.size <
      (heap₁.bumps (0, slot)).limit := by
    rw [hcursor]
    simp only [payloadStart, segmentEnd]
    omega
  have hreach₂ := hreach₁.serve hfresh' (routine_next hbump _ hroom)
  simp only [hcursor] at hreach₂
  refine ⟨_, _, fresh, hreach₂, ?_, hstrategy, hactive, hremote⟩
  · refine loadHeader_eq_some.mpr ⟨?_, ?_⟩
    · simp [hbumped.mapped]
    · simp [hheader]

end Calls

/-! ## Cursors -/

/-- Where a cursor routine may serve: at a chunk boundary, and, except for the
first chunk of a segment, below the segment's end. -/
def ServedAt (layout : SegmentLayout) (size ptr : ℕ) : Prop :=
  ∃ base number, layout.segmentSize ∣ base ∧ 0 < base ∧
    ptr = piece (payloadStart base) size number ∧
    (number = 0 ∨ ptr + size < segmentEnd layout base)

/-- A cursor at a chunk boundary of some segment. -/
def CursorAt (layout : SegmentLayout) (size ptr limit : ℕ) : Prop :=
  ∃ base number, layout.segmentSize ∣ base ∧ 0 < base ∧
    ptr = piece (payloadStart base) size number ∧
    limit = segmentEnd layout base

section Cursors

variable {layout : SegmentLayout} {size : ℕ}

/-- Advancing a cursor by one chunk. -/
theorem CursorAt.advance {ptr limit : ℕ}
    (hcursor : CursorAt layout size ptr limit) :
    CursorAt layout size (ptr + size) limit := by
  obtain ⟨base, number, hbase, hpos, rfl, rfl⟩ := hcursor
  exact ⟨base, number + 1, hbase, hpos, (piece_succ _ _ _).symm, rfl⟩

/-- The chunk at a cursor that is followed by more of the segment. -/
theorem CursorAt.served {ptr limit : ℕ}
    (hcursor : CursorAt layout size ptr limit) (hroom : ptr + size < limit) :
    ServedAt layout size ptr := by
  obtain ⟨base, number, hbase, hpos, rfl, rfl⟩ := hcursor
  exact ⟨base, number, hbase, hpos, rfl, Or.inr hroom⟩

theorem servedAt_payloadStart (size : ℕ) {base : ℕ}
    (hbase : layout.segmentSize ∣ base) (hpos : 0 < base) :
    ServedAt layout size (payloadStart base) :=
  ⟨base, 0, hbase, hpos, (piece_zero _ _).symm, Or.inl rfl⟩

theorem cursorAt_payloadStart (size : ℕ) {base : ℕ}
    (hbase : layout.segmentSize ∣ base) (hpos : 0 < base) :
    CursorAt layout size (payloadStart base) (segmentEnd layout base) :=
  ⟨base, 0, hbase, hpos, (piece_zero _ _).symm, rfl⟩

/-- Taking back the newest chunk of a cursor leaves it at a chunk boundary: the
chunk cannot end where the payload of the cursor's segment begins. -/
theorem CursorAt.rewind {ptr limit : ℕ} (hsize : size < 4096)
    (hcursor : CursorAt layout size ptr limit)
    (hserved : ServedAt layout size (ptr - size)) :
    CursorAt layout size (ptr - size) limit := by
  obtain ⟨base, number, hbase, hpos, rfl, rfl⟩ := hcursor
  cases number with
  | succ number =>
      refine ⟨base, number, hbase, hpos, ?_, rfl⟩
      rw [piece_succ, Nat.add_sub_cancel]
  | zero =>
      by_cases hzero : size = 0
      · exact ⟨base, 0, hbase, hpos, by simp [hzero], rfl⟩
      exfalso
      obtain ⟨other, number', hother, _, hptr, hfits⟩ := hserved
      have hge := segmentSize_ge layout
      have hlow := start_le_piece (payloadStart other) size number'
      rw [piece_zero] at hptr hfits
      rw [← hptr] at hlow
      have hbaseGe := Nat.le_of_dvd hpos hbase
      unfold payloadStart headerSize at hptr hlow hfits
      have hne : other ≠ base := by omega
      rcases segment_disjoint hother hbase hne with h | h
      · unfold segmentEnd at h hfits
        rcases hfits with rfl | hfits
        · rw [piece_zero] at hptr
          omega
        · omega
      · unfold segmentEnd at h
        omega

end Cursors

/-! ## The routines without links -/

/-- The strategies whose freed chunks carry no link. -/
def IsCursor (strategy : Strategy) : Prop :=
  strategy = .bumpAlloc ∨ strategy = .pairedStack ∨ strategy = .epochArena

structure CursorInv (layout : SegmentLayout) (spec : RoutineSpec) (slot : ℕ)
    (heap : Heap) (held : List Chunk) : Prop where
  registry : RegistryOk layout heap
  headers : ∀ base header, heap.header base = some header →
    header.strategy = spec.strategy ∧ header.slotIndex = slot ∧
      header.chunkSize = spec.size ∧ header.retired = false ∧
      header.remoteHead = 0 ∧ heap.remoteLog base = []
  bumps : ∀ tid, heap.bumps (tid, slot) = ⟨0, 0⟩ ∨
    CursorAt layout spec.size (heap.bumps (tid, slot)).ptr
      (heap.bumps (tid, slot)).limit
  arenas : ∀ tid, heap.arenas (tid, slot) = ⟨0, 0, 0⟩ ∨
    CursorAt layout spec.size (heap.arenas (tid, slot)).ptr
      (heap.arenas (tid, slot)).limit ∧
    ∃ base, layout.segmentSize ∣ base ∧ 0 < base ∧
      (heap.arenas (tid, slot)).base = payloadStart base ∧
      (heap.arenas (tid, slot)).limit = segmentEnd layout base
  held : ∀ chunk ∈ held, chunk.size = spec.size ∧
    ServedAt layout spec.size chunk.ptr

section Steps

variable {layout : SegmentLayout} {spec : RoutineSpec} {slot : ℕ}
variable {heap : Heap} {held : List Chunk}

theorem cursorInv_initial (layout : SegmentLayout) (spec : RoutineSpec)
    (slot : ℕ) (slotToSite : ℕ → ℕ) :
    CursorInv layout spec slot { Heap.empty with slotToSite := slotToSite }
      [] where
  registry := registryOk_empty slotToSite
  headers := by simp [Heap.empty]
  bumps := fun _ => Or.inl rfl
  arenas := fun _ => Or.inl rfl
  held := by simp

/-- Moving a thread's bump cursor to another chunk boundary. -/
theorem CursorInv.setBump (hinv : CursorInv layout spec slot heap held)
    {tid : ℕ} {cursor : BumpSlot}
    (hcursor : CursorAt layout spec.size cursor.ptr cursor.limit) :
    CursorInv layout spec slot { heap with
      bumps := Function.update heap.bumps (tid, slot) cursor } held := by
  refine { hinv with
    registry := hinv.registry.congr (fun _ h => h) (fun _ h => h) rfl rfl
    bumps := ?_ }
  intro tid'
  by_cases heq : tid' = tid
  · subst heq
    simpa using Or.inr hcursor
  · simpa [heq] using hinv.bumps tid'

/-- The fast path serves the chunk at the cursor. -/
theorem CursorInv.bumpFastPath (hinv : CursorInv layout spec slot heap held)
    {tid ptr : ℕ} {heap' : Heap}
    (hserved : Codegen.bumpFastPath tid slot spec.size heap =
      some (heap', ptr)) :
    CursorInv layout spec slot heap' held ∧ ServedAt layout spec.size ptr := by
  simp only [Codegen.bumpFastPath] at hserved
  split at hserved
  · rename_i hroom
    simp only [Option.some.injEq, Prod.mk.injEq] at hserved
    obtain ⟨rfl, rfl⟩ := hserved
    have hcursor := (hinv.bumps tid).resolve_left fun h => by
      simp [h] at hroom
    exact ⟨hinv.setBump hcursor.advance, hcursor.served hroom⟩
  · simp at hserved

/-- A first-time initialization of a bump cursor. -/
theorem CursorInv.bumped (hinv : CursorInv layout spec slot heap held)
    {tid base : ℕ} {heap' : Heap} (hfresh : Fresh layout heap base)
    (hbumped : Bumped layout spec.strategy tid slot spec.size base heap
      heap') :
    CursorInv layout spec slot heap' held where
  registry := hbumped.registry hinv.registry
  headers := by
    obtain ⟨fresh, hheader, hstrategy, hslot, _, hsize, _, hremote, hretired,
      _⟩ := hbumped.header
    intro other header hother
    rw [hheader] at hother
    rw [hbumped.remoteLog]
    by_cases heq : other = base
    · rw [heq, Function.update_self, Option.some.injEq] at hother
      subst hother
      rw [heq, Function.update_self]
      exact ⟨hstrategy, hslot, hsize, hretired, hremote, rfl⟩
    · rw [Function.update_of_ne heq] at hother ⊢
      exact hinv.headers other header hother
  bumps := by
    intro tid'
    rw [hbumped.bumps]
    by_cases heq : tid' = tid
    · subst heq
      simpa using Or.inr (cursorAt_payloadStart spec.size
        hfresh.2.1 (Nat.pos_of_ne_zero hfresh.1)).advance
    · simpa [heq] using hinv.bumps tid'
  arenas := by
    rw [hbumped.arenas]
    exact hinv.arenas
  held := hinv.held

/-- Setting a thread's arena. -/
theorem CursorInv.setArena (hinv : CursorInv layout spec slot heap held)
    {tid base : ℕ} {arena : ArenaSlot}
    (hcursor : CursorAt layout spec.size arena.ptr arena.limit)
    (hbase : layout.segmentSize ∣ base) (hpos : 0 < base)
    (hstart : arena.base = payloadStart base)
    (hlimit : arena.limit = segmentEnd layout base) :
    CursorInv layout spec slot { heap with
      arenas := Function.update heap.arenas (tid, slot) arena } held := by
  refine { hinv with
    registry := hinv.registry.congr (fun _ h => h) (fun _ h => h) rfl rfl
    arenas := ?_ }
  intro tid'
  by_cases heq : tid' = tid
  · subst heq
    simpa using Or.inr ⟨hcursor, base, hbase, hpos, hstart, hlimit⟩
  · simpa [heq] using hinv.arenas tid'

theorem CursorInv.arenaSlowInit (hinv : CursorInv layout spec slot heap held)
    (hstrategy : spec.strategy = .epochArena) {tid base : ℕ}
    (hfresh : Fresh layout heap base) :
    CursorInv layout spec slot
      (Codegen.arenaSlowInit layout tid slot spec.size base heap).1 held := by
  have hpos := Nat.pos_of_ne_zero hfresh.1
  have hallocated : CursorInv layout spec slot
      (allocSegment layout heap tid .epochArena slot (heap.slotToSite slot)
        spec.size base) held := by
    refine { hinv with
      registry := hinv.registry.allocSegment hfresh
      headers := ?_ }
    intro other header hheader
    by_cases heq : other = base
    · subst heq
      simp only [allocSegment, registerSegment, Function.update_self,
        Option.some.injEq] at hheader
      subst hheader
      simp [allocSegment, registerSegment, hstrategy]
    · simp only [allocSegment, registerSegment,
        Function.update_of_ne heq] at hheader ⊢
      exact hinv.headers other header hheader
  exact hallocated.setArena
    (cursorAt_payloadStart spec.size hfresh.2.1 hpos).advance
    hfresh.2.1 hpos rfl rfl

/-- What a call of a cursor routine serves, and that it keeps the cursors. -/
theorem CursorInv.routine (hinv : CursorInv layout spec slot heap held)
    (hstrategy : IsCursor spec.strategy) {tid request base : ℕ}
    {heap' : Heap} {served : Served} (hfresh : Fresh layout heap base)
    (hroutine : Codegen.routine layout spec slot tid request base heap =
      some (heap', served)) :
    CursorInv layout spec slot heap' held ∧ ∀ ptr, served = .chunk ptr →
      request = spec.size ∧ ServedAt layout spec.size ptr := by
  have hpos := Nat.pos_of_ne_zero hfresh.1
  have hstart := servedAt_payloadStart spec.size hfresh.2.1 hpos
  have hbumped := hinv.bumped hfresh
    (bumped_bumpSegment spec.strategy tid slot spec.size hfresh)
  have hbump : ∀ slowInit : ℕ → ℕ → ℕ → ℕ → Heap → Heap × ℕ,
      slowInit tid slot spec.size base heap =
        bumpSegment layout spec.strategy tid slot spec.size base heap →
      bumpRoutine slowInit slot spec.size tid request base heap =
        some (heap', served) →
      CursorInv layout spec slot heap' held ∧ ∀ ptr, served = .chunk ptr →
        request = spec.size ∧ ServedAt layout spec.size ptr := by
    intro slowInit hslow hserved
    simp only [bumpRoutine] at hserved
    split at hserved
    · obtain ⟨rfl, rfl⟩ := Prod.mk.inj (Option.some.inj hserved)
      exact ⟨hinv, by simp⟩
    rename_i hrequest
    split at hserved
    · rename_i heap'' ptr hfast
      obtain ⟨rfl, rfl⟩ := Prod.mk.inj (Option.some.inj hserved)
      obtain ⟨hinv', hat⟩ := hinv.bumpFastPath hfast
      exact ⟨hinv', fun ptr' heq => ⟨not_not.mp hrequest,
        Served.chunk.inj heq ▸ hat⟩⟩
    · split at hserved
      · obtain ⟨rfl, rfl⟩ := Prod.mk.inj (Option.some.inj hserved)
        exact ⟨hinv, by simp⟩
      · rw [hslow] at hserved
        obtain ⟨rfl, rfl⟩ := Prod.mk.inj (Option.some.inj hserved)
        exact ⟨hbumped, fun ptr' heq => ⟨not_not.mp hrequest,
          Served.chunk.inj heq ▸ hstart⟩⟩
  rcases hstrategy with h | h | h <;>
    simp only [Codegen.routine, h] at hroutine
  · exact hbump _ (by rw [bumpSlowInit, h]) hroutine
  · exact hbump _ (by rw [pairedSlowInit, h]) hroutine
  · simp only [arenaRoutine] at hroutine
    split at hroutine
    · obtain ⟨rfl, rfl⟩ := Prod.mk.inj (Option.some.inj hroutine)
      exact ⟨hinv, by simp⟩
    rename_i hrequest
    split at hroutine
    · rename_i hroom
      obtain ⟨rfl, rfl⟩ := Prod.mk.inj (Option.some.inj hroutine)
      obtain ⟨hcursor, base', hbase', hpos', hbaseEq, hlimit⟩ :=
        (hinv.arenas tid).resolve_left fun hzero => by simp [hzero] at hroom
      exact ⟨hinv.setArena hcursor.advance hbase' hpos' hbaseEq hlimit,
        fun ptr' heq => ⟨not_not.mp hrequest,
          Served.chunk.inj heq ▸ hcursor.served hroom⟩⟩
    · obtain ⟨rfl, rfl⟩ := Prod.mk.inj (Option.some.inj hroutine)
      simp only [arenaResetAlloc]
      split
      · exact ⟨hinv.arenaSlowInit h hfresh, fun ptr' heq =>
          ⟨not_not.mp hrequest, Served.chunk.inj heq ▸ hstart⟩⟩
      · rename_i hset
        obtain ⟨_, base', hbase', hpos', hbaseEq, hlimit⟩ :=
          (hinv.arenas tid).resolve_left fun hzero => hset (by simp [hzero])
        refine ⟨hinv.setArena ?_ hbase' hpos' hbaseEq hlimit,
          fun ptr' heq => ⟨not_not.mp hrequest, ?_⟩⟩
        · simp only [hbaseEq, hlimit]
          exact (cursorAt_payloadStart _ hbase' hpos').advance
        · rw [← Served.chunk.inj heq, hbaseEq]
          exact servedAt_payloadStart _ hbase' hpos'

/-- A free changes no byte; a paired free may move the cursor back. -/
theorem CursorInv.freeManaged (hinv : CursorInv layout spec slot heap held)
    (hstrategy : IsCursor spec.strategy) (hsize : spec.size < 4096)
    {chunk : Chunk} (hchunk : chunk ∈ held) {tid base : ℕ} {heap' : Heap}
    (hfree : Codegen.freeManaged heap tid base chunk.ptr = some heap') :
    CursorInv layout spec slot heap' held ∧ heap'.memory = heap.memory := by
  simp only [Codegen.freeManaged, Option.bind_eq_some_iff] at hfree
  obtain ⟨header, hload, hfree⟩ := hfree
  obtain ⟨_, hheader⟩ := loadHeader_eq_some.mp hload
  obtain ⟨hkind, rfl, hchunkSize, hretired, hremote, hlog⟩ :=
    hinv.headers base header hheader
  rw [← hkind] at hstrategy
  rcases hstrategy with h | h | h <;> simp only [h] at hfree
  · exact Option.some.inj hfree ▸ ⟨hinv, rfl⟩
  · split at hfree
    · obtain rfl := Option.some.inj hfree
      simp only [pairedLifoRewind]
      split
      · exact ⟨hinv, rfl⟩
      · rename_i hrewound
        refine ⟨?_, rfl⟩
        have hserved := (hinv.held chunk hchunk).2
        have hrewound' := not_not.mp hrewound
        rw [hchunkSize] at hrewound'
        have hstored : CursorInv layout spec header.slotIndex
            (heap.storeHeader base { header with
              bumpPtr := (heap.bumps (tid, header.slotIndex)).ptr -
                header.chunkSize }) held := by
          refine { hinv with
            registry := hinv.registry.storeHeader _ hheader
            headers := ?_ }
          intro other header' hother
          by_cases heq : other = base
          · simp only [heq, Heap.storeHeader, Function.update_self,
              Option.some.injEq] at hother ⊢
            subst hother
            exact ⟨hkind, rfl, hchunkSize, hretired, hremote, hlog⟩
          · simp only [Heap.storeHeader, Function.update_of_ne heq] at hother ⊢
            exact hinv.headers other header' hother
        have hset : heap.bumps (tid, header.slotIndex) ≠ ⟨0, 0⟩ := by
          intro hzero
          rw [hzero, Nat.zero_sub] at hrewound'
          obtain ⟨base', number, _, hpos', hptr, _⟩ := hserved
          have := start_le_piece (payloadStart base') spec.size number
          unfold payloadStart headerSize at *
          omega
        refine hstored.setBump ?_
        simp only [hchunkSize]
        exact ((hinv.bumps tid).resolve_left hset).rewind hsize
          (hrewound'.symm ▸ hserved)
    · exact Option.some.inj hfree ▸ ⟨hinv, rfl⟩
  · exact Option.some.inj hfree ▸ ⟨hinv, rfl⟩

/-- No segment of a cursor routine is ever retired, so a sweep finds none. -/
theorem CursorInv.sweep (hinv : CursorInv layout spec slot heap held)
    {heap' : Heap} (hframe : SweepFrame layout heap heap')
    (hregistry : RegistryOk layout heap') :
    CursorInv layout spec slot heap' held where
  registry := hregistry
  headers := by
    intro base header hheader
    cases hbefore : heap.header base with
    | none => simp [hframe.header_none base hbefore] at hheader
    | some before =>
        obtain ⟨hstrategy, hslot, hsize, hactive, hrest⟩ :=
          hinv.headers base before hbefore
        obtain ⟨hafter, _⟩ := hframe.active base before hbefore hactive
        obtain rfl := Option.some.inj (hafter.symm.trans hheader)
        rw [hframe.remoteLog]
        exact ⟨hstrategy, hslot, hsize, hactive, hrest⟩
  bumps := by
    rw [hframe.bumps]
    exact hinv.bumps
  arenas := by
    rw [hframe.arenas]
    exact hinv.arenas
  held := hinv.held

end Steps

/-! ## Runs -/

section Runs

variable {layout : SegmentLayout} {spec : RoutineSpec} {slot : ℕ}

/-- The invariant of a state of a cursor routine. -/
def CursorOk (layout : SegmentLayout) (spec : RoutineSpec) (slot : ℕ)
    (state : RoutineState) : Prop :=
  CursorInv layout spec slot state.heap state.held

theorem cursorOk_step (hstrategy : IsCursor spec.strategy)
    (hsize : spec.size < 4096) {state target : RoutineState}
    {action : RoutineAction}
    (hinv : CursorOk layout spec slot state)
    (hstep : routineStep layout spec slot state action = some target) :
    CursorOk layout spec slot target := by
  unfold CursorOk at hinv ⊢
  cases action with
  | alloc tid request base =>
      by_cases hfresh : Fresh layout state.heap base
      · simp only [routineStep, if_pos hfresh, Option.map_eq_some_iff] at hstep
        obtain ⟨⟨heap', served⟩, hroutine, rfl⟩ := hstep
        obtain ⟨hinv', hserved⟩ := hinv.routine hstrategy hfresh hroutine
        cases served with
        | deopt => exact hinv'
        | chunk ptr =>
            refine { hinv' with held := ?_ }
            intro chunk hchunk
            rcases List.mem_cons.mp hchunk with rfl | hchunk
            · exact hserved ptr rfl
            · exact hinv'.held chunk hchunk
      · simp [routineStep, hfresh] at hstep
  | write chunk offset byte =>
      by_cases hwrite : chunk ∈ state.held ∧ offset < chunk.size
      · simp only [routineStep, if_pos hwrite, Option.some.injEq] at hstep
        exact hstep ▸ { hinv with
          registry := hinv.registry.congr (fun _ h => h) (fun _ h => h) rfl rfl }
      · simp [routineStep, hwrite] at hstep
  | free tid chunk =>
      by_cases hheld : chunk ∈ state.held
      · simp only [routineStep, if_pos hheld, Option.map_eq_some_iff,
          freeChunk] at hstep
        obtain ⟨heap', hfree, rfl⟩ := hstep
        have hrest : ∀ other ∈ state.held.erase chunk, other ∈ state.held :=
          fun other hother => List.mem_of_mem_erase hother
        split at hfree
        · obtain ⟨hinv', _⟩ :=
            hinv.freeManaged hstrategy hsize hheld hfree
          exact { hinv' with
            held := fun other hother => hinv'.held other (hrest other hother) }
        · obtain rfl := Option.some.inj hfree
          exact { hinv with
            held := fun other hother => hinv.held other (hrest other hother) }
      · simp [routineStep, hheld] at hstep
  | sweep mode pred pageSize =>
      simp only [routineStep, Option.some.injEq] at hstep
      obtain ⟨hframe, hregistry⟩ := sweepFrame_reaperSweep
        mode pred pageSize hinv.registry
      exact hstep ▸ hinv.sweep hframe hregistry

/-- The invariant holds in every state a cursor routine reaches. -/
theorem cursorOk_reachable (hstrategy : IsCursor spec.strategy)
    (hsize : spec.size < 4096) {state : RoutineState}
    (hreach : RoutineReachable layout spec slot state) :
    CursorOk layout spec slot state := by
  have hinitial : CursorOk layout spec slot (RoutineState.initial spec slot) :=
    cursorInv_initial layout spec slot _
  exact Transition.Reachable.invariant hinitial
    (fun _ _ _ hok hstep => cursorOk_step hstrategy hsize hok hstep) hreach

end Runs

end TbjitAlloc.Codegen
