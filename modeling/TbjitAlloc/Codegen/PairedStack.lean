import TbjitAlloc.Codegen.CursorInvariant

/-!
# The paired stack

A `PairedStack` routine hands out consecutive chunks of the one segment its
thread owns.  A free by the owner moves the cursor back if the chunk is the last
one below it; every other free drops its chunk.  So the held chunks of a segment
all lie below its owner's cursor.
-/

namespace TbjitAlloc.Codegen

open TbjitAlloc.Carving
open TbjitAlloc.Segment

/-- The segment at `base` was mapped by thread `tid`. -/
def Owns (heap : Heap) (tid base : ℕ) : Prop :=
  ∃ header, heap.header base = some header ∧ header.ownerTid = tid

/-- A cursor at a chunk boundary of the segment at `base`, below its end. -/
def CursorIn (layout : SegmentLayout) (size base : ℕ) (cursor : BumpSlot) :
    Prop :=
  (∃ number, cursor.ptr = piece (payloadStart base) size number) ∧
    cursor.ptr < cursor.limit ∧ cursor.limit = segmentEnd layout base

/-- A held chunk lies in the payload of a segment, below the cursor of the
thread that owns it. -/
def BelowCursor (layout : SegmentLayout) (size slot : ℕ) (heap : Heap)
    (ptr : ℕ) : Prop :=
  ∃ tid base, Owns heap tid base ∧ IsChunk layout base size ptr ∧
    ptr + size ≤ (heap.bumps (tid, slot)).ptr

structure PairedInv (layout : SegmentLayout) (spec : RoutineSpec) (slot : ℕ)
    (heap : Heap) (held : List Chunk) : Prop where
  mapped : ∀ base header, heap.header base = some header →
    heap.mapped base = true
  owned : ∀ tid base, Owns heap tid base →
    CursorIn layout spec.size base (heap.bumps (tid, slot))
  unowned : ∀ tid, (∀ base, ¬Owns heap tid base) →
    heap.bumps (tid, slot) = ⟨0, 0⟩
  below : ∀ chunk ∈ held, BelowCursor layout spec.size slot heap chunk.ptr
  nodup : (held.map Chunk.ptr).Nodup

section Cursors

variable {layout : SegmentLayout} {size base : ℕ}

theorem CursorIn.payload_le {cursor : BumpSlot}
    (hcursor : CursorIn layout size base cursor) :
    payloadStart base ≤ cursor.ptr := by
  obtain ⟨⟨number, hptr⟩, -⟩ := hcursor
  rw [hptr]
  exact start_le_piece _ _ _

theorem CursorIn.ne_zero {cursor : BumpSlot}
    (hcursor : CursorIn layout size base cursor) : cursor.ptr ≠ 0 := by
  have hle := hcursor.payload_le
  unfold payloadStart headerSize at hle
  omega

/-- A cursor tells which segment it is in. -/
theorem CursorIn.base_eq {cursor : BumpSlot} {other : ℕ}
    (hcursor : CursorIn layout size base cursor)
    (hother : CursorIn layout size other cursor) : base = other := by
  have hlimit := hcursor.2.2.symm.trans hother.2.2
  unfold segmentEnd at hlimit
  omega

/-- The chunk at the cursor fits when it ends below the limit. -/
theorem CursorIn.chunk {cursor : BumpSlot} (hsize : 0 < size)
    (hcursor : CursorIn layout size base cursor)
    (hroom : cursor.ptr + size < cursor.limit) :
    IsChunk layout base size cursor.ptr := by
  obtain ⟨⟨number, hptr⟩, -, hlimit⟩ := hcursor
  rw [hlimit] at hroom
  exact (isChunk_iff hsize).mpr ⟨number, hptr, hroom.le⟩

theorem CursorIn.advance {cursor : BumpSlot}
    (hcursor : CursorIn layout size base cursor)
    (hroom : cursor.ptr + size < cursor.limit) :
    CursorIn layout size base { cursor with ptr := cursor.ptr + size } := by
  obtain ⟨⟨number, hptr⟩, -, hlimit⟩ := hcursor
  exact ⟨⟨number + 1, by rw [piece_succ, hptr]⟩, hroom, hlimit⟩

/-- The cursor moved back to the start of a chunk it follows. -/
theorem CursorIn.rewind {cursor : BumpSlot} {ptr : ℕ}
    (hcursor : CursorIn layout size base cursor)
    (hchunk : IsChunk layout base size ptr) (hle : ptr ≤ cursor.ptr) :
    CursorIn layout size base { cursor with ptr := ptr } := by
  obtain ⟨number, -, hptr⟩ := hchunk
  exact ⟨⟨number, hptr⟩, hle.trans_lt hcursor.2.1, hcursor.2.2⟩

/-- Chunks that end at or below a chunk's end end at or below its start, unless
they are that chunk. -/
theorem end_le_of_ne {ptr other : ℕ} (hchunk : IsChunk layout base size ptr)
    (hother : IsChunk layout base size other) (hne : other ≠ ptr)
    (hle : other + size ≤ ptr + size) : other + size ≤ ptr := by
  have hsize := hchunk.size_pos
  rcases hother.disjoint hchunk hne with hbelow | habove
  · exact hbelow
  · omega

end Cursors

/-! ## What a call does -/

section Calls

variable {layout : SegmentLayout} {spec : RoutineSpec} {slot : ℕ}

/-- The three outcomes of a call: deoptimization with no effect, the chunk at
the cursor, or the first chunk of a fresh segment. -/
theorem paired_cases (hstrategy : spec.strategy = .pairedStack)
    {tid request base : ℕ} {heap heap' : Heap} {served : Served}
    (hroutine : routine layout spec slot tid request base heap =
      some (heap', served)) :
    let cursor := heap.bumps (tid, slot)
    (heap' = heap ∧ served = .deopt) ∨
    (request = spec.size ∧ cursor.ptr + spec.size < cursor.limit ∧
      heap' = { heap with
        bumps := Function.update heap.bumps (tid, slot)
          { cursor with ptr := cursor.ptr + spec.size } } ∧
      served = .chunk cursor.ptr) ∨
    (request = spec.size ∧ cursor.ptr = 0 ∧
      heap' = (bumpSegment layout .pairedStack tid slot spec.size base heap).1 ∧
      served = .chunk (payloadStart base)) := by
  simp only [routine, hstrategy, bumpRoutine, bumpFastPath] at hroutine
  dsimp only
  split at hroutine
  · obtain ⟨rfl, rfl⟩ := Prod.mk.inj (Option.some.inj hroutine)
    exact .inl ⟨rfl, rfl⟩
  · next hrequest =>
      have hrequest := not_not.mp hrequest
      by_cases hroom : (heap.bumps (tid, slot)).ptr + spec.size <
          (heap.bumps (tid, slot)).limit
      · simp only [hroom, if_true] at hroutine
        obtain ⟨rfl, rfl⟩ := Prod.mk.inj (Option.some.inj hroutine)
        exact .inr (.inl ⟨hrequest, hroom, rfl, rfl⟩)
      · simp only [hroom, if_false] at hroutine
        split at hroutine
        · obtain ⟨rfl, rfl⟩ := Prod.mk.inj (Option.some.inj hroutine)
          exact .inl ⟨rfl, rfl⟩
        · next hzero =>
            obtain ⟨rfl, rfl⟩ := Prod.mk.inj (Option.some.inj hroutine)
            exact .inr (.inr ⟨hrequest, not_not.mp hzero, rfl, rfl⟩)

end Calls

/-! ## Steps -/

section Steps

variable {layout : SegmentLayout} {spec : RoutineSpec} {slot : ℕ}
variable {heap heap' : Heap} {held : List Chunk}

theorem pairedInv_initial (layout : SegmentLayout) (spec : RoutineSpec)
    (slot : ℕ) (slotToSite : ℕ → ℕ) :
    PairedInv layout spec slot { Heap.empty with slotToSite := slotToSite }
      [] where
  mapped := fun _ _ hheader => by cases hheader
  owned := fun _ _ howns => by
    obtain ⟨_, hheader, -⟩ := howns
    cases hheader
  unowned := fun _ _ => rfl
  below := fun _ hchunk => absurd hchunk List.not_mem_nil
  nodup := List.nodup_nil

/-- A step that moves no cursor and changes no owner may forget chunks. -/
theorem PairedInv.congr (hinv : PairedInv layout spec slot heap held)
    {held' : List Chunk}
    (howns : ∀ tid base, Owns heap' tid base ↔ Owns heap tid base)
    (hmapped : ∀ base header, heap'.header base = some header →
      heap'.mapped base = true)
    (hbumps : heap'.bumps = heap.bumps) (hheld : held'.Sublist held) :
    PairedInv layout spec slot heap' held' where
  mapped := hmapped
  owned := fun tid base hbase => by
    rw [hbumps]
    exact hinv.owned tid base ((howns tid base).mp hbase)
  unowned := fun tid hnone => by
    rw [hbumps]
    exact hinv.unowned tid fun base hbase =>
      hnone base ((howns tid base).mpr hbase)
  below := fun chunk hchunk => by
    obtain ⟨tid, base, hbase, hplace, hle⟩ :=
      hinv.below chunk (hheld.subset hchunk)
    rw [BelowCursor, hbumps]
    exact ⟨tid, base, (howns tid base).mpr hbase, hplace, hle⟩
  nodup := (hheld.map Chunk.ptr).nodup hinv.nodup

/-- A thread with a cursor owns a segment. -/
theorem PairedInv.owner (hinv : PairedInv layout spec slot heap held)
    {tid : ℕ} (hcursor : (heap.bumps (tid, slot)).limit ≠ 0) :
    ∃ base, Owns heap tid base := by
  by_contra hnone
  rw [hinv.unowned tid fun base hbase => hnone ⟨base, hbase⟩] at hcursor
  exact hcursor rfl

/-- The held chunks of a segment are below its owner's cursor. -/
theorem PairedInv.le_cursor (hinv : PairedInv layout spec slot heap held)
    (hregistry : RegistryOk layout heap) {tid base : ℕ}
    (howns : Owns heap tid base) {chunk : Chunk} (hchunk : chunk ∈ held)
    (hplace : IsChunk layout base spec.size chunk.ptr) :
    chunk.ptr + spec.size ≤ (heap.bumps (tid, slot)).ptr := by
  obtain ⟨other, otherBase, ⟨header, hother, htid⟩, hotherPlace, hle⟩ :=
    hinv.below chunk hchunk
  obtain ⟨own, hown, hownTid⟩ := howns
  have hsame : otherBase = base := by
    rw [← hotherPlace.segmentOf_eq (hregistry.placed _ _ hother).2.1,
      ← hplace.segmentOf_eq (hregistry.placed _ _ hown).2.1]
  rw [hsame, hown] at hother
  rw [← hownTid, Option.some.inj hother, htid]
  exact hle

/-- A held chunk is in the segment a thread owns, or belongs to another thread
and its cursor. -/
theorem PairedInv.own_or_other (hinv : PairedInv layout spec slot heap held)
    {tid base : ℕ} (howns : Owns heap tid base) {chunk : Chunk}
    (hchunk : chunk ∈ held) :
    (IsChunk layout base spec.size chunk.ptr ∧
        chunk.ptr + spec.size ≤ (heap.bumps (tid, slot)).ptr) ∨
      ∃ other otherBase, other ≠ tid ∧ Owns heap other otherBase ∧
        IsChunk layout otherBase spec.size chunk.ptr ∧
        chunk.ptr + spec.size ≤ (heap.bumps (other, slot)).ptr := by
  obtain ⟨other, otherBase, hother, hplace, hle⟩ := hinv.below chunk hchunk
  by_cases hsame : other = tid
  · subst hsame
    rw [(hinv.owned other otherBase hother).base_eq
      (hinv.owned other base howns)] at hplace
    exact .inl ⟨hplace, hle⟩
  · exact .inr ⟨other, otherBase, hsame, hother, hplace, hle⟩

/-- One thread's cursor moves within its segment, and the chunks held afterwards
are below it or belong to others. -/
theorem PairedInv.move (hinv : PairedInv layout spec slot heap held)
    {tid base : ℕ} {cursor : BumpSlot} {held' : List Chunk}
    (howns : ∀ tid base, Owns heap' tid base ↔ Owns heap tid base)
    (hmapped : ∀ base header, heap'.header base = some header →
      heap'.mapped base = true)
    (hbumps : heap'.bumps = Function.update heap.bumps (tid, slot) cursor)
    (howner : Owns heap tid base)
    (hcursor : CursorIn layout spec.size base cursor)
    (hheld : ∀ chunk ∈ held',
      (IsChunk layout base spec.size chunk.ptr ∧
          chunk.ptr + spec.size ≤ cursor.ptr) ∨
        ∃ other otherBase, other ≠ tid ∧ Owns heap other otherBase ∧
          IsChunk layout otherBase spec.size chunk.ptr ∧
          chunk.ptr + spec.size ≤ (heap.bumps (other, slot)).ptr)
    (hnodup : (held'.map Chunk.ptr).Nodup) :
    PairedInv layout spec slot heap' held' where
  mapped := hmapped
  owned := fun other otherBase hother => by
    rw [howns] at hother
    rw [hbumps]
    by_cases hsame : other = tid
    · subst hsame
      rw [Function.update_self, (hinv.owned other otherBase hother).base_eq
        (hinv.owned other base howner)]
      exact hcursor
    · rw [Function.update_of_ne (by simp [hsame])]
      exact hinv.owned other otherBase hother
  unowned := fun other hnone => by
    have hnone' : ∀ base, ¬Owns heap other base := fun base hbase =>
      hnone base ((howns other base).mpr hbase)
    have hne : other ≠ tid := fun hsame => hnone' base (hsame ▸ howner)
    rw [hbumps, Function.update_of_ne (by simp [hne])]
    exact hinv.unowned other hnone'
  below := fun chunk hchunk => by
    rw [BelowCursor, hbumps]
    rcases hheld chunk hchunk with
      ⟨hplace, hle⟩ | ⟨other, otherBase, hne, hother, hplace, hle⟩
    · refine ⟨tid, base, (howns tid base).mpr howner, hplace, ?_⟩
      rw [Function.update_self]
      exact hle
    · refine ⟨other, otherBase, (howns other otherBase).mpr hother, hplace, ?_⟩
      rw [Function.update_of_ne (by simp [hne])]
      exact hle
  nodup := hnodup

/-- The chunk at the cursor is served, and the cursor follows it. -/
theorem PairedInv.serveNext (hinv : PairedInv layout spec slot heap held)
    (hregistry : RegistryOk layout heap) (hsize : 0 < spec.size) {tid : ℕ}
    (hroom : (heap.bumps (tid, slot)).ptr + spec.size <
      (heap.bumps (tid, slot)).limit) :
    PairedInv layout spec slot
      { heap with
        bumps := Function.update heap.bumps (tid, slot)
          { heap.bumps (tid, slot) with
            ptr := (heap.bumps (tid, slot)).ptr + spec.size } }
      (⟨(heap.bumps (tid, slot)).ptr, spec.size⟩ :: held) := by
  obtain ⟨base, howns⟩ := hinv.owner (Nat.ne_zero_of_lt hroom)
  have hcursor := hinv.owned tid base howns
  have hchunk := hcursor.chunk hsize hroom
  refine hinv.move (fun _ _ => Iff.rfl) hinv.mapped rfl howns
    (hcursor.advance hroom) (fun chunk hmem => ?_) ?_
  · rcases List.mem_cons.mp hmem with rfl | hold
    · exact .inl ⟨hchunk, Nat.le_refl _⟩
    · exact (hinv.own_or_other howns hold).imp_left fun hown =>
        ⟨hown.1, Nat.le_add_right_of_le hown.2⟩
  · rw [List.map_cons, List.nodup_cons]
    refine ⟨fun hmem => ?_, hinv.nodup⟩
    obtain ⟨chunk, hold, hptr⟩ := List.mem_map.mp hmem
    have hle := hinv.le_cursor hregistry howns hold (hptr ▸ hchunk)
    rw [hptr] at hle
    dsimp only at hle
    omega

/-- The first call of a thread starts its segment. -/
theorem PairedInv.serveFirst (hinv : PairedInv layout spec slot heap held)
    (hregistry : RegistryOk layout heap) (hsize : 0 < spec.size)
    (hfits : headerSize + spec.size < layout.segmentSize) {tid base : ℕ}
    (hfresh : Fresh layout heap base)
    (hzero : (heap.bumps (tid, slot)).ptr = 0) :
    PairedInv layout spec slot
      (bumpSegment layout .pairedStack tid slot spec.size base heap).1
      (⟨payloadStart base, spec.size⟩ :: held) := by
  have hbumped := bumped_bumpSegment .pairedStack tid slot spec.size hfresh
  generalize (bumpSegment layout .pairedStack tid slot spec.size base heap).1 =
    heap' at hbumped
  obtain ⟨fresh, hheader, -, -, htid, -⟩ := hbumped.header
  have hnot : ∀ other, ¬Owns heap tid other := fun other hother =>
    (hinv.owned tid other hother).ne_zero hzero
  have hchunk : IsChunk layout base spec.size (payloadStart base) := by
    refine (isChunk_iff hsize).mpr ⟨0, (piece_zero _ _).symm, ?_⟩
    unfold payloadStart segmentEnd
    omega
  have howner : Owns heap' tid base :=
    ⟨fresh, by rw [hheader, Function.update_self], htid⟩
  have hold : ∀ other otherBase, Owns heap other otherBase →
      other ≠ tid ∧ otherBase ≠ base ∧ Owns heap' other otherBase := by
    rintro other otherBase ⟨header, hother, hotherTid⟩
    have hne : otherBase ≠ base := hfresh.ne hother
    refine ⟨?_, hne, header, ?_, hotherTid⟩
    · rintro rfl
      exact hnot otherBase ⟨header, hother, hotherTid⟩
    · rw [hheader, Function.update_of_ne hne, hother]
  have hnew : ∀ other otherBase, Owns heap' other otherBase →
      (other = tid ∧ otherBase = base) ∨ Owns heap other otherBase := by
    rintro other otherBase ⟨header, hother, hotherTid⟩
    rw [hheader] at hother
    by_cases hsame : otherBase = base
    · subst hsame
      rw [Function.update_self] at hother
      exact .inl ⟨by rw [← hotherTid, ← Option.some.inj hother, htid], rfl⟩
    · rw [Function.update_of_ne hsame] at hother
      exact .inr ⟨header, hother, hotherTid⟩
  refine ⟨fun other header hother => ?_, fun other otherBase hother => ?_,
    fun other hnone => ?_, fun chunk hmem => ?_, ?_⟩
  · rw [hbumped.mapped]
    rw [hheader] at hother
    by_cases hsame : other = base
    · subst hsame
      rw [Function.update_self]
    · rw [Function.update_of_ne hsame] at hother ⊢
      exact hinv.mapped other header hother
  · rw [hbumped.bumps]
    rcases hnew other otherBase hother with ⟨rfl, rfl⟩ | hother
    · rw [Function.update_self]
      refine ⟨⟨1, by rw [piece_succ, piece_zero]⟩, ?_, rfl⟩
      dsimp only [payloadStart, segmentEnd]
      omega
    · rw [Function.update_of_ne (by simp [(hold other otherBase hother).1])]
      exact hinv.owned other otherBase hother
  · have hne : other ≠ tid := fun hsame => hnone base (hsame ▸ howner)
    rw [hbumped.bumps, Function.update_of_ne (by simp [hne])]
    exact hinv.unowned other fun otherBase hother =>
      hnone otherBase (hold other otherBase hother).2.2
  · rw [BelowCursor, hbumped.bumps]
    rcases List.mem_cons.mp hmem with rfl | hmem
    · refine ⟨tid, base, howner, hchunk, ?_⟩
      rw [Function.update_self]
    · obtain ⟨other, otherBase, hother, hplace, hle⟩ := hinv.below chunk hmem
      obtain ⟨hne, -, hother'⟩ := hold other otherBase hother
      refine ⟨other, otherBase, hother', hplace, ?_⟩
      rw [Function.update_of_ne (by simp [hne])]
      exact hle
  · rw [List.map_cons, List.nodup_cons]
    refine ⟨fun hmem => ?_, hinv.nodup⟩
    obtain ⟨chunk, hmem, hptr⟩ := List.mem_map.mp hmem
    obtain ⟨other, otherBase, hother, hplace, -⟩ := hinv.below chunk hmem
    obtain ⟨header, hotherHeader, -⟩ := id hother
    rw [hptr] at hplace
    refine (hold other otherBase hother).2.1 ?_
    rw [← hplace.segmentOf_eq (hregistry.placed _ _ hotherHeader).2.1,
      hchunk.segmentOf_eq hfresh.2.1]

/-- A free reaches `paired_lifo_rewind` on the owner's thread, and has no effect
on any other. -/
theorem freeChunk_paired (hinv : PairedInv layout spec slot heap held)
    (hcursors : CursorInv layout spec slot heap held)
    (hstrategy : spec.strategy = .pairedStack) {chunk : Chunk}
    (hchunk : chunk ∈ held) (tid : ℕ) :
    ∃ base header, heap.header base = some header ∧
      header.slotIndex = slot ∧ header.chunkSize = spec.size ∧
      IsChunk layout base spec.size chunk.ptr ∧
      freeChunk layout heap tid chunk.ptr =
        some (if header.ownerTid = tid then
          pairedLifoRewind heap tid base chunk.ptr header else heap) := by
  obtain ⟨owner, base, ⟨header, hheader, htid⟩, hplace, hle⟩ :=
    hinv.below chunk hchunk
  obtain ⟨hkind, hslot, hchunkSize, -⟩ := hcursors.headers base header hheader
  have hbase := (hcursors.registry.placed _ _ hheader).2.1
  have hmapped := hinv.mapped base header hheader
  refine ⟨base, header, hheader, hslot, hchunkSize, hplace, ?_⟩
  rw [freeChunk, hplace.segmentOf_eq hbase, if_pos ((hcursors.registry.isManaged_iff hbase).mpr hmapped),
    freeManaged, loadHeader_eq_some.mpr ⟨hmapped, hheader⟩, Option.bind_some,
    hkind, hstrategy]
  dsimp only
  split <;> rfl

theorem owns_storeHeader {base : ℕ} {header after : SegmentHeader}
    {bumps : ℕ × ℕ → BumpSlot} (hheader : heap.header base = some header)
    (htid : after.ownerTid = header.ownerTid) (tid other : ℕ) :
    Owns { heap.storeHeader base after with bumps := bumps } tid other ↔
      Owns heap tid other := by
  change (∃ stored, (heap.storeHeader base after).header other = some stored ∧
    stored.ownerTid = tid) ↔ _
  simp only [storeHeader_eq_some]
  constructor
  · rintro ⟨stored, ⟨rfl, rfl⟩ | ⟨-, hother⟩, rfl⟩
    · exact ⟨header, hheader, htid.symm⟩
    · exact ⟨stored, hother, rfl⟩
  · rintro ⟨stored, hother, rfl⟩
    by_cases hsame : other = base
    · subst hsame
      obtain rfl := Option.some.inj (hheader.symm.trans hother)
      exact ⟨after, .inl ⟨rfl, rfl⟩, htid⟩
    · exact ⟨stored, .inr ⟨hsame, hother⟩, rfl⟩

/-- The cursor after the chunk that ends there is taken back. -/
theorem pairedLifoRewind_bumps {tid ptr : ℕ} (base : ℕ) {header : SegmentHeader}
    (hends : ptr + header.chunkSize =
      (heap.bumps (tid, header.slotIndex)).ptr) :
    (pairedLifoRewind heap tid base ptr header).bumps =
      Function.update heap.bumps (tid, header.slotIndex)
        { heap.bumps (tid, header.slotIndex) with ptr := ptr } := by
  rw [pairedLifoRewind, ← hends, Nat.add_sub_cancel]
  dsimp only
  rw [if_neg (not_not.mpr rfl)]

/-- A free by the owner takes the newest chunk back, or drops the chunk. -/
theorem PairedInv.rewind (hinv : PairedInv layout spec slot heap held)
    (hsize : 0 < spec.size) {chunk : Chunk} (hchunk : chunk ∈ held)
    {base : ℕ} {header : SegmentHeader} (hheader : heap.header base = some header)
    (hslot : header.slotIndex = slot) (hchunkSize : header.chunkSize = spec.size)
    (hplace : IsChunk layout base spec.size chunk.ptr) :
    PairedInv layout spec slot
      (pairedLifoRewind heap header.ownerTid base chunk.ptr header)
      (held.erase chunk) := by
  have herase : (held.erase chunk).Sublist held := List.erase_sublist
  have howns : Owns heap header.ownerTid base := ⟨header, hheader, rfl⟩
  have hcursor := hinv.owned header.ownerTid base howns
  rw [pairedLifoRewind, hslot, hchunkSize]
  dsimp only
  split
  · exact hinv.congr (fun _ _ => Iff.rfl) hinv.mapped rfl herase
  · next hrewound =>
      have hrewound := not_not.mp hrewound
      have hptr : chunk.ptr + spec.size =
          (heap.bumps (header.ownerTid, slot)).ptr := by
        have hpos := Nat.pos_of_ne_zero hplace.ne_zero
        omega
      rw [hrewound]
      have hmoved := hcursor.rewind hplace (by omega)
      refine hinv.move ?_ ?_ rfl howns hmoved ?_ ?_
      · exact owns_storeHeader hheader rfl
      · intro other stored hstored
        rcases storeHeader_eq_some.mp hstored with ⟨rfl, -⟩ | ⟨-, hother⟩
        · exact hinv.mapped other header hheader
        · exact hinv.mapped other stored hother
      · intro other hother
        refine (hinv.own_or_other howns (herase.subset hother)).imp_left
          fun hown => ⟨hown.1, ?_⟩
        refine end_le_of_ne hplace hown.1 (fun hsame => ?_)
          (hptr.symm ▸ hown.2)
        have hheld := hinv.nodup.of_map
        have hne := ((hheld.mem_erase_iff).mp hother).1
        exact hne (List.inj_on_of_nodup_map hinv.nodup
          (herase.subset hother) hchunk hsame)
      · exact (herase.map Chunk.ptr).nodup hinv.nodup

theorem PairedInv.free (hinv : PairedInv layout spec slot heap held)
    (hcursors : CursorInv layout spec slot heap held)
    (hstrategy : spec.strategy = .pairedStack) (hsize : 0 < spec.size)
    {chunk : Chunk} (hchunk : chunk ∈ held) {tid : ℕ}
    (hfree : freeChunk layout heap tid chunk.ptr = some heap') :
    PairedInv layout spec slot heap' (held.erase chunk) := by
  obtain ⟨base, header, hheader, hslot, hchunkSize, hplace, hresult⟩ :=
    freeChunk_paired hinv hcursors hstrategy hchunk tid
  rw [hresult] at hfree
  obtain rfl := Option.some.inj hfree
  split
  · next htid =>
      subst htid
      exact hinv.rewind hsize hchunk hheader hslot hchunkSize hplace
  · exact hinv.congr (fun _ _ => Iff.rfl) hinv.mapped rfl List.erase_sublist

/-- A sweep finds no retired segment. -/
theorem PairedInv.sweep (hinv : PairedInv layout spec slot heap held)
    (hcursors : CursorInv layout spec slot heap held)
    (hframe : SweepFrame layout heap heap') :
    PairedInv layout spec slot heap' held := by
  have hheaders : heap'.header = heap.header := by
    funext base
    cases hbefore : heap.header base with
    | none => exact hframe.header_none base hbefore
    | some header =>
        have hactive := (hcursors.headers base header hbefore).2.2.2.1
        exact (hframe.active base header hbefore hactive).1
  refine hinv.congr (fun tid base => ?_) (fun base header hheader => ?_)
    hframe.bumps (List.Sublist.refl _)
  · rw [Owns, Owns, hheaders]
  · rw [hheaders] at hheader
    have hactive := (hcursors.headers base header hheader).2.2.2.1
    rw [(hframe.active base header hheader hactive).2]
    exact hinv.mapped base header hheader

end Steps

/-! ## Runs -/

section Runs

variable {layout : SegmentLayout} {spec : RoutineSpec} {slot : ℕ}
variable {state target : RoutineState}

def PairedOk (layout : SegmentLayout) (spec : RoutineSpec) (slot : ℕ)
    (state : RoutineState) : Prop :=
  CursorOk layout spec slot state ∧
    PairedInv layout spec slot state.heap state.held

theorem pairedOk_step (hstrategy : spec.strategy = .pairedStack)
    (hpos : 0 < spec.size) (hsize : spec.size < 4096)
    (hfits : headerSize + spec.size < layout.segmentSize)
    {action : RoutineAction} (hok : PairedOk layout spec slot state)
    (hstep : routineStep layout spec slot state action = some target) :
    PairedOk layout spec slot target := by
  obtain ⟨hcursors, hinv⟩ := hok
  refine ⟨cursorOk_step (.inr (.inl hstrategy)) hsize hcursors hstep, ?_⟩
  cases action with
  | alloc tid request base =>
      by_cases hfresh : Fresh layout state.heap base
      · simp only [routineStep, if_pos hfresh, Option.map_eq_some_iff] at hstep
        obtain ⟨⟨heap', served⟩, hroutine, rfl⟩ := hstep
        obtain ⟨rfl, rfl⟩ | ⟨rfl, hroom, rfl, rfl⟩ | ⟨rfl, hzero, rfl, rfl⟩ :=
          paired_cases hstrategy hroutine
        · exact hinv
        · exact hinv.serveNext hcursors.registry hpos hroom
        · exact hinv.serveFirst hcursors.registry hpos hfits hfresh hzero
      · simp [routineStep, hfresh] at hstep
  | write chunk offset byte =>
      by_cases hwrite : chunk ∈ state.held ∧ offset < chunk.size
      · simp only [routineStep, if_pos hwrite, Option.some.injEq] at hstep
        subst hstep
        exact hinv.congr (fun _ _ => Iff.rfl) hinv.mapped rfl
          (List.Sublist.refl _)
      · simp [routineStep, hwrite] at hstep
  | free tid chunk =>
      by_cases hheld : chunk ∈ state.held
      · simp only [routineStep, if_pos hheld, Option.map_eq_some_iff] at hstep
        obtain ⟨heap', hfree, rfl⟩ := hstep
        exact hinv.free hcursors hstrategy hpos hheld hfree
      · simp [routineStep, hheld] at hstep
  | sweep mode pred pageSize =>
      simp only [routineStep, Option.some.injEq] at hstep
      subst hstep
      exact hinv.sweep hcursors
        (sweepFrame_reaperSweep mode pred pageSize hcursors.registry).1

theorem pairedOk_reachable (hstrategy : spec.strategy = .pairedStack)
    (hpos : 0 < spec.size) (hsize : spec.size < 4096)
    (hfits : headerSize + spec.size < layout.segmentSize)
    (hreach : RoutineReachable layout spec slot state) :
    PairedOk layout spec slot state := by
  have hinitial : PairedOk layout spec slot (RoutineState.initial spec slot) :=
    ⟨cursorInv_initial layout spec slot _, pairedInv_initial layout spec slot _⟩
  exact Transition.Reachable.invariant hinitial
    (fun _ _ _ hok hstep => pairedOk_step hstrategy hpos hsize hfits hok hstep)
    hreach

/-- Held chunks are disjoint parts of the payload of a segment, at or below the
cursor of its owner; a cursor is at a chunk boundary below the end of its
segment; and when the owner frees the chunk that ends at its cursor, its next
call serves that chunk. -/
structure StackOk (layout : SegmentLayout) (spec : RoutineSpec) (slot : ℕ)
    (state : RoutineState) : Prop where
  disjoint : state.held.Pairwise fun left right =>
    Disjoint left.ptr left.size right.ptr right.size
  inside : ∀ chunk ∈ state.held, ∃ tid base,
    Owns state.heap tid base ∧ payloadStart base ≤ chunk.ptr ∧
      chunk.ptr + chunk.size ≤ segmentEnd layout base ∧
      chunk.ptr + chunk.size ≤ (state.heap.bumps (tid, slot)).ptr
  cursor : ∀ tid, state.heap.bumps (tid, slot) = ⟨0, 0⟩ ∨
    ∃ base, Owns state.heap tid base ∧
      CursorIn layout spec.size base (state.heap.bumps (tid, slot))
  recycles : ∀ tid, ∀ chunk ∈ state.held,
    Owns state.heap tid (segmentOf layout chunk.ptr) →
      chunk.ptr + chunk.size = (state.heap.bumps (tid, slot)).ptr →
      ∃ heap, freeChunk layout state.heap tid chunk.ptr = some heap ∧
        ∀ base, ∃ heap', routine layout spec slot tid spec.size base heap =
          some (heap', .chunk chunk.ptr)

theorem PairedInv.disjoint {heap : Heap} {held : List Chunk}
    (hinv : PairedInv layout spec slot heap held)
    (hregistry : RegistryOk layout heap)
    (hsizes : ∀ chunk ∈ held, chunk.size = spec.size) :
    held.Pairwise fun left right =>
      Disjoint left.ptr left.size right.ptr right.size := by
  have hdistinct := List.pairwise_map.mp hinv.nodup
  refine hdistinct.imp_of_mem fun {left right} hleft hright hne => ?_
  rw [hsizes left hleft, hsizes right hright]
  obtain ⟨_, leftBase, ⟨_, hleftHeader, -⟩, hleftPlace, -⟩ :=
    hinv.below left hleft
  obtain ⟨_, rightBase, ⟨_, hrightHeader, -⟩, hrightPlace, -⟩ :=
    hinv.below right hright
  by_cases hsame : leftBase = rightBase
  · subst hsame
    exact hleftPlace.disjoint hrightPlace hne
  · exact hleftPlace.disjoint_of_ne hrightPlace
      (hregistry.placed _ _ hleftHeader).2.1
      (hregistry.placed _ _ hrightHeader).2.1 hsame

/-- In every run of a `PairedStack` routine and its users. -/
theorem stackOk_reachable (hstrategy : spec.strategy = .pairedStack)
    (hpos : 0 < spec.size) (hsize : spec.size < 4096)
    (hfits : headerSize + spec.size < layout.segmentSize)
    (hreach : RoutineReachable layout spec slot state) :
    StackOk layout spec slot state := by
  obtain ⟨hcursors, hinv⟩ :=
    pairedOk_reachable hstrategy hpos hsize hfits hreach
  have hsizes : ∀ chunk ∈ state.held, chunk.size = spec.size :=
    fun chunk hchunk => (hcursors.held chunk hchunk).1
  refine ⟨hinv.disjoint hcursors.registry hsizes, fun chunk hchunk => ?_,
    fun tid => ?_, fun tid chunk hchunk howns hends => ?_⟩
  · obtain ⟨tid, base, howns, hplace, hle⟩ := hinv.below chunk hchunk
    rw [hsizes chunk hchunk]
    exact ⟨tid, base, howns, hplace.inside.1, hplace.inside.2, hle⟩
  · by_cases howner : ∃ base, Owns state.heap tid base
    · obtain ⟨base, howns⟩ := howner
      exact .inr ⟨base, howns, hinv.owned tid base howns⟩
    · exact .inl (hinv.unowned tid fun base howns => howner ⟨base, howns⟩)
  · obtain ⟨base, header, hheader, hslot, hchunkSize, hplace, hfree⟩ :=
      freeChunk_paired hinv hcursors hstrategy hchunk tid
    rw [hplace.segmentOf_eq (hcursors.registry.placed _ _ hheader).2.1] at howns
    obtain ⟨_, hown, rfl⟩ := howns
    obtain rfl := Option.some.inj (hheader.symm.trans hown)
    obtain ⟨-, hroom, -⟩ := hinv.owned _ base ⟨header, hheader, rfl⟩
    rw [hsizes chunk hchunk] at hends
    rw [if_pos rfl] at hfree
    refine ⟨_, hfree, fun fresh => ?_⟩
    subst hslot
    have hbumps := pairedLifoRewind_bumps base (hchunkSize.symm ▸ hends)
    generalize pairedLifoRewind state.heap header.ownerTid base chunk.ptr header
      = rewound at hbumps
    have hcursor : rewound.bumps (header.ownerTid, header.slotIndex) =
        { state.heap.bumps (header.ownerTid, header.slotIndex) with
          ptr := chunk.ptr } := by
      rw [hbumps, Function.update_self]
    have hnext := @routine_next layout spec header.slotIndex
      (.inr (.inl hstrategy)) header.ownerTid fresh rewound
      (by rw [hcursor]; exact hends ▸ hroom)
    rw [hcursor] at hnext
    exact ⟨_, hnext⟩

end Runs

/-! ## One thread -/

/-- Objects of 48 bytes. -/
def pairedObjects : RoutineSpec where
  id := 7
  strategy := .pairedStack
  size := 48
  classSizes := fun _ => 0
  classCount := 0

/-- Thread 1 takes three chunks.  Thread 2 frees the first, which is dropped;
thread 1 frees the last, which rewinds its cursor, and calls once more. -/
def rewinds : List RoutineAction :=
  [.alloc 1 48 (2 ^ 21), .alloc 1 48 (2 ^ 22), .alloc 1 48 (2 ^ 22),
    .free 2 ⟨payloadStart (2 ^ 21), 48⟩,
    .free 1 ⟨payloadStart (2 ^ 21) + 96, 48⟩, .alloc 1 48 (2 ^ 22)]

/-- With 2 MiB segments the last chunk is served again and the first is not. -/
theorem stackOk_rewound :
    ∃ state,
      Transition.run (routineStep .default pairedObjects 0)
        (RoutineState.initial pairedObjects 0) rewinds = some state ∧
      state.held = [⟨payloadStart (2 ^ 21) + 96, 48⟩,
        ⟨payloadStart (2 ^ 21) + 48, 48⟩] ∧
      (state.heap.bumps (1, 0)).ptr = payloadStart (2 ^ 21) + 144 ∧
      StackOk .default pairedObjects 0 state := by
  have hends : (Transition.run (routineStep .default pairedObjects 0)
      (RoutineState.initial pairedObjects 0) rewinds).any (fun state =>
        state.held = [⟨payloadStart (2 ^ 21) + 96, 48⟩,
          ⟨payloadStart (2 ^ 21) + 48, 48⟩] ∧
        (state.heap.bumps (1, 0)).ptr = payloadStart (2 ^ 21) + 144) := by
    decide +kernel
  obtain ⟨state, hrun, hstate⟩ := (Option.any_eq_true _ _).mp hends
  obtain ⟨hheld, hcursor⟩ := of_decide_eq_true hstate
  exact ⟨state, hrun, hheld, hcursor, stackOk_reachable rfl (by decide)
    (by decide) (by decide) (Transition.reachable_of_run .start hrun)⟩

end TbjitAlloc.Codegen
