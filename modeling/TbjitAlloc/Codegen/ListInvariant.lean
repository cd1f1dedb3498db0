import TbjitAlloc.Codegen.ListFamily

/-!
# Where the chunks of a free-list routine are

For a free-list routine every chunk a client holds, every chunk on a thread's
list and every chunk on the remote queue of an active segment is a different
chunk, and both kinds of list are intact in memory.  A ghost map gives each
chunk its place, so that no chunk can be in two.  The invariant is kept by every
operation of the routine's system, so it holds in every reachable state.
-/

namespace TbjitAlloc.Codegen

open TbjitAlloc.ByteMemory
open TbjitAlloc.Carving
open TbjitAlloc.LinkedChain
open TbjitAlloc.Segment

/-- Where a chunk is.  A chunk that is `out` is on no list: a client holds it,
or an operation has taken it from one place and not yet put it in another, or it
was given back to a retired segment.  An `untracked` address is no chunk, or one
of those left on the list of a segment when it was retired. -/
inductive Place
  | untracked
  | out
  | own (tid i : ℕ)
  | remote (base : ℕ)
  deriving DecidableEq

/-- The invariant.  `retiring` names a list whose active segment has been
retired inside a refill and not yet replaced. -/
structure ListInv (layout : SegmentLayout) (family : ListFamily) (heap : Heap)
    (held : List Chunk) (place : ℕ → Place) (retiring : Option (ℕ × ℕ)) :
    Prop where
  registry : RegistryOk layout heap
  headers : ∀ base header, heap.header base = some header →
    header.strategy = family.strategy ∧ header.slotIndex = family.slot ∧
      header.classIdx < family.count ∧
      header.chunkSize = family.size header.classIdx
  segsHeader : ∀ tid, ∀ i < family.count,
    listSegs heap tid (family.ref i) ≠ 0 →
    ∃ header, heap.header (listSegs heap tid (family.ref i)) = some header ∧
      header.ownerTid = tid ∧ header.classIdx = i ∧
      (header.retired = true → retiring = some (tid, i))
  active : ∀ base header, heap.header base = some header →
    header.retired = false → heap.mapped base = true ∧
      listSegs heap header.ownerTid (family.ref header.classIdx) = base
  ownChain : ∀ tid, ∀ i < family.count, ∃ nodes,
    Chain 0 (readWord heap.memory) (listHead heap tid (family.ref i)) nodes ∧
      ∀ node ∈ nodes, place node = .own tid i
  remoteChain : ∀ base header, heap.header base = some header →
    header.retired = false →
    Chain 0 (readWord heap.memory) header.remoteHead (heap.remoteLog base) ∧
      ∀ node ∈ heap.remoteLog base, place node = .remote base
  heldPlace : ∀ chunk ∈ held, place chunk.ptr = .out
  heldNodup : (held.map Chunk.ptr).Nodup
  heldSize : ∀ chunk ∈ held, ∃ header,
    heap.header (segmentOf layout chunk.ptr) = some header ∧
      chunk.size = header.chunkSize
  chunk : ∀ ptr, place ptr ≠ .untracked → ∃ header,
    heap.header (segmentOf layout ptr) = some header ∧
      IsChunk layout (segmentOf layout ptr) header.chunkSize ptr
  ownSegment : ∀ ptr tid i, place ptr = .own tid i → ∃ header,
    heap.header (segmentOf layout ptr) = some header ∧
      header.retired = false ∧ header.ownerTid = tid ∧ header.classIdx = i
  remoteSegment : ∀ ptr base, place ptr = .remote base →
    segmentOf layout ptr = base

section Facts

variable {layout : SegmentLayout} {family : ListFamily} {heap : Heap}
variable {held : List Chunk} {place : ℕ → Place}
variable {retiring : Option (ℕ × ℕ)}

/-- No segment has been carved yet. -/
theorem listInv_initial (layout : SegmentLayout) (family : ListFamily)
    (slotToSite : ℕ → ℕ) :
    ListInv layout family { Heap.empty with slotToSite := slotToSite } []
      (fun _ => .untracked) none where
  registry := registryOk_empty slotToSite
  headers := by simp [Heap.empty]
  segsHeader := by
    intro tid i _ hsegs
    cases href : family.ref i <;> simp [Heap.empty, listSegs, href] at hsegs
  active := by simp [Heap.empty]
  ownChain := by
    intro tid i _
    refine ⟨[], ?_, by simp⟩
    cases href : family.ref i <;> simp [Heap.empty, listHead]
  remoteChain := by simp [Heap.empty]
  heldPlace := by simp
  heldNodup := List.nodup_nil
  heldSize := by simp
  chunk := by simp
  ownSegment := by simp
  remoteSegment := by simp

/-- A chunk has room for a link. -/
theorem ListInv.chunkSize_ge
    (hinv : ListInv layout family heap held place retiring) {base : ℕ}
    {header : SegmentHeader} (hheader : heap.header base = some header) :
    pointerSize ≤ header.chunkSize := by
  obtain ⟨_, _, hclass, hsize⟩ := hinv.headers base header hheader
  exact hsize ▸ family.size_ge _ hclass

/-- A held chunk is a chunk of its segment. -/
theorem ListInv.heldChunk
    (hinv : ListInv layout family heap held place retiring) {chunk : Chunk}
    (hchunk : chunk ∈ held) :
    ∃ header, heap.header (segmentOf layout chunk.ptr) = some header ∧
      chunk.size = header.chunkSize ∧
      IsChunk layout (segmentOf layout chunk.ptr) header.chunkSize chunk.ptr := by
  obtain ⟨header, hheader, hsize⟩ := hinv.heldSize chunk hchunk
  have hplace : place chunk.ptr ≠ .untracked := by
    simp [hinv.heldPlace chunk hchunk]
  obtain ⟨header', hheader', hptr⟩ := hinv.chunk chunk.ptr hplace
  obtain rfl := Option.some.inj (hheader.symm.trans hheader')
  exact ⟨header, hheader, hsize, hptr⟩

/-- Chunks with different addresses do not overlap. -/
theorem ListInv.disjoint
    (hinv : ListInv layout family heap held place retiring)
    {left right : ℕ} {header header' : SegmentHeader}
    (hheader : heap.header (segmentOf layout left) = some header)
    (hheader' : heap.header (segmentOf layout right) = some header')
    (hleft : place left ≠ .untracked) (hright : place right ≠ .untracked)
    (hne : left ≠ right) :
    Carving.Disjoint left header.chunkSize right header'.chunkSize := by
  obtain ⟨_, hheaderLeft, hchunkLeft⟩ := hinv.chunk left hleft
  obtain ⟨_, hheaderRight, hchunkRight⟩ := hinv.chunk right hright
  obtain rfl := Option.some.inj (hheader.symm.trans hheaderLeft)
  obtain rfl := Option.some.inj (hheader'.symm.trans hheaderRight)
  by_cases heq : segmentOf layout left = segmentOf layout right
  · rw [← heq] at hheader' hchunkRight
    obtain rfl := Option.some.inj (hheader.symm.trans hheader')
    exact hchunkLeft.disjoint hchunkRight hne
  · exact hchunkLeft.disjoint_of_ne hchunkRight (dvd_segmentOf _)
      (dvd_segmentOf _) heq

/-- Bytes written inside one chunk leave the link of every other chunk alone. -/
theorem ListInv.readWord_eq
    (hinv : ListInv layout family heap held place retiring)
    {ptr node : ℕ} {header : SegmentHeader} {memory : Memory}
    (hheader : heap.header (segmentOf layout ptr) = some header)
    (hptr : place ptr ≠ .untracked) (hnode : place node ≠ .untracked)
    (hne : node ≠ ptr)
    (hmemory : ∀ address,
      address < ptr ∨ ptr + header.chunkSize ≤ address →
      memory address = heap.memory address) :
    readWord memory node = readWord heap.memory node := by
  obtain ⟨header', hheader', _⟩ := hinv.chunk node hnode
  have hdisjoint := hinv.disjoint hheader' hheader hnode hptr hne
  have hroom := hinv.chunkSize_ge hheader'
  unfold pointerSize at hroom
  refine readWord_congr fun address hlow hhigh => hmemory address ?_
  rcases hdisjoint with h | h <;> omega

theorem ListInv.ptr_lt
    (hinv : ListInv layout family heap held place retiring) {ptr : ℕ}
    (hptr : place ptr ≠ .untracked) : ptr < 2 ^ 64 := by
  obtain ⟨header, hheader, hchunk⟩ := hinv.chunk ptr hptr
  have hplaced := (hinv.registry.placed _ _ hheader).2.2
  have hinside := hchunk.inside.2
  have hpos := hchunk.size_pos
  unfold segmentEnd at hinside
  omega

theorem ListInv.listHead_lt
    (hinv : ListInv layout family heap held place retiring) (tid : ℕ) {i : ℕ}
    (hi : i < family.count) :
    listHead heap tid (family.ref i) < 2 ^ 64 := by
  obtain ⟨nodes, hchain, hnodes⟩ := hinv.ownChain tid i hi
  rcases hchain.head_mem with hnull | hmem
  · rw [hnull]
    norm_num
  · exact hinv.ptr_lt (by simp [hnodes _ hmem])

theorem ListInv.remoteHead_lt
    (hinv : ListInv layout family heap held place retiring) {base : ℕ}
    {header : SegmentHeader} (hheader : heap.header base = some header)
    (hactive : header.retired = false) : header.remoteHead < 2 ^ 64 := by
  obtain ⟨hchain, hnodes⟩ := hinv.remoteChain base header hheader hactive
  rcases hchain.head_mem with hnull | hmem
  · rw [hnull]
    norm_num
  · exact hinv.ptr_lt (by simp [hnodes _ hmem])

/-- Held chunks do not overlap. -/
theorem ListInv.held_disjoint
    (hinv : ListInv layout family heap held place retiring)
    {left right : Chunk} (hleft : left ∈ held) (hright : right ∈ held)
    (hne : left.ptr ≠ right.ptr) :
    Carving.Disjoint left.ptr left.size right.ptr right.size := by
  obtain ⟨header, hheader, hsize⟩ := hinv.heldSize left hleft
  obtain ⟨header', hheader', hsize'⟩ := hinv.heldSize right hright
  rw [hsize, hsize']
  exact hinv.disjoint hheader hheader'
    (by simp [hinv.heldPlace left hleft])
    (by simp [hinv.heldPlace right hright]) hne

end Facts

/-! ## Operations -/

section Operations

variable {layout : SegmentLayout} {family : ListFamily} {heap : Heap}
variable {held : List Chunk} {place : ℕ → Place}
variable {retiring : Option (ℕ × ℕ)}

/-- Bytes may change inside a chunk that is on no list. -/
theorem ListInv.setMemory
    (hinv : ListInv layout family heap held place retiring) {ptr : ℕ}
    {header : SegmentHeader} (memory : Memory)
    (hheader : heap.header (segmentOf layout ptr) = some header)
    (hplace : place ptr = .out)
    (hmemory : ∀ address,
      address < ptr ∨ ptr + header.chunkSize ≤ address →
      memory address = heap.memory address) :
    ListInv layout family { heap with memory := memory } held place
      retiring := by
  have htracked : place ptr ≠ .untracked := by simp [hplace]
  refine { hinv with
    registry := hinv.registry.congr (fun _ h => h) (fun _ h => h) rfl rfl
    ownChain := ?_
    remoteChain := ?_ }
  · intro tid i hi
    obtain ⟨nodes, hchain, hnodes⟩ := hinv.ownChain tid i hi
    refine ⟨nodes, hchain.congr fun node hnode => ?_, hnodes⟩
    refine hinv.readWord_eq hheader htracked (by simp [hnodes node hnode]) ?_
      hmemory
    rintro rfl
    simp [hnodes node hnode] at hplace
  · intro base header' hheader' hactive
    obtain ⟨hchain, hnodes⟩ := hinv.remoteChain base header' hheader' hactive
    refine ⟨hchain.congr fun node hnode => ?_, hnodes⟩
    refine hinv.readWord_eq hheader htracked (by simp [hnodes node hnode]) ?_
      hmemory
    rintro rfl
    simp [hnodes node hnode] at hplace

/-- A client writes into a chunk it holds: all lists stay intact. -/
theorem ListInv.write
    (hinv : ListInv layout family heap held place retiring)
    {chunk : Chunk} {offset : ℕ} {byte : UInt8} (hchunk : chunk ∈ held)
    (hoffset : offset < chunk.size) :
    ListInv layout family { heap with
      memory := Function.update heap.memory (chunk.ptr + offset) byte }
      held place retiring := by
  obtain ⟨header, hheader, hsize⟩ := hinv.heldSize chunk hchunk
  refine hinv.setMemory _ hheader (hinv.heldPlace chunk hchunk) ?_
  intro address haddress
  exact Function.update_of_ne (by omega) _ _

/-- A chunk that nobody holds goes to a client. -/
theorem ListInv.serve (hinv : ListInv layout family heap held place retiring)
    {ptr : ℕ} {header : SegmentHeader}
    (hheader : heap.header (segmentOf layout ptr) = some header)
    (hplace : place ptr = .out) (hfree : ptr ∉ held.map Chunk.ptr) :
    ListInv layout family heap (⟨ptr, header.chunkSize⟩ :: held) place
      retiring := by
  refine { hinv with
    heldPlace := ?_
    heldNodup := List.nodup_cons.mpr ⟨hfree, hinv.heldNodup⟩
    heldSize := ?_ }
  · intro chunk hchunk
    rcases List.mem_cons.mp hchunk with rfl | hchunk
    · exact hplace
    · exact hinv.heldPlace chunk hchunk
  · intro chunk hchunk
    rcases List.mem_cons.mp hchunk with rfl | hchunk
    · exact ⟨header, hheader, rfl⟩
    · exact hinv.heldSize chunk hchunk

/-- A client gives a chunk up. -/
theorem ListInv.release
    (hinv : ListInv layout family heap held place retiring) {chunk : Chunk}
    (hchunk : chunk ∈ held) :
    ListInv layout family heap (held.erase chunk) place retiring ∧
      chunk.ptr ∉ (held.erase chunk).map Chunk.ptr := by
  have hsub : (held.erase chunk).Sublist held := List.erase_sublist
  have hperm := (List.perm_cons_erase hchunk).map Chunk.ptr
  have hnodup := List.nodup_cons.mp (hperm.nodup_iff.mp hinv.heldNodup)
  exact ⟨{ hinv with
    heldPlace := fun other hother => hinv.heldPlace other (hsub.subset hother)
    heldNodup := hnodup.2
    heldSize := fun other hother => hinv.heldSize other (hsub.subset hother) },
    hnodup.1⟩

/-! ## List words -/

/-- A list head is set to a chain that is already in memory. -/
theorem ListInv.setOwn (hinv : ListInv layout family heap held place retiring)
    {tid i head : ℕ} (hi : i < family.count) (nodes : List ℕ)
    (hchain : Chain 0 (readWord heap.memory) head nodes)
    (hnodes : ∀ node ∈ nodes, place node = .own tid i) :
    ListInv layout family (setListHead heap tid (family.ref i) head) held
      place retiring where
  registry := hinv.registry.congr (by simp) (by simp) (by simp) (by simp)
  headers := by simpa using hinv.headers
  segsHeader := by simpa using hinv.segsHeader
  active := by simpa using hinv.active
  ownChain := by
    intro tid' i' hi'
    rw [listHead_setListHead, setListHead_memory]
    by_cases hkey : tid' = tid ∧ family.ref i' = family.ref i
    · obtain rfl := family.ref_injOn hi' hi hkey.2
      rw [if_pos hkey, hkey.1]
      exact ⟨nodes, hchain, hnodes⟩
    · rw [if_neg hkey]
      exact hinv.ownChain tid' i' hi'
  remoteChain := by simpa using hinv.remoteChain
  heldPlace := hinv.heldPlace
  heldNodup := hinv.heldNodup
  heldSize := by simpa using hinv.heldSize
  chunk := by simpa using hinv.chunk
  ownSegment := by simpa using hinv.ownSegment
  remoteSegment := hinv.remoteSegment

@[simp]
theorem listHead_storeHeader (base : ℕ) (after : SegmentHeader)
    (log : ℕ → List ℕ) (tid : ℕ) (ref : ListRef) :
    listHead { heap.storeHeader base after with remoteLog := log } tid ref =
      listHead heap tid ref := by
  cases ref <;> rfl

@[simp]
theorem listSegs_storeHeader (base : ℕ) (after : SegmentHeader)
    (log : ℕ → List ℕ) (tid : ℕ) (ref : ListRef) :
    listSegs { heap.storeHeader base after with remoteLog := log } tid ref =
      listSegs heap tid ref := by
  cases ref <;> rfl

/-- What a header update keeps when it only moves the remote queue or the live
count: everything the invariant reads from a header of a chunk. -/
structure SameSegment (before after : SegmentHeader) : Prop where
  strategy : after.strategy = before.strategy
  slotIndex : after.slotIndex = before.slotIndex
  classIdx : after.classIdx = before.classIdx
  chunkSize : after.chunkSize = before.chunkSize
  ownerTid : after.ownerTid = before.ownerTid
  retired : after.retired = before.retired

/-- A header and its queue change, and the queue is a chain in memory if the
segment is active. -/
theorem ListInv.setHeader
    (hinv : ListInv layout family heap held place retiring) {base : ℕ}
    {before : SegmentHeader} (after : SegmentHeader) (log : List ℕ)
    (hbefore : heap.header base = some before)
    (hsame : SameSegment before after)
    (hqueue : before.retired = false →
      Chain 0 (readWord heap.memory) after.remoteHead log ∧
        ∀ node ∈ log, place node = .remote base) :
    ListInv layout family { heap.storeHeader base after with
      remoteLog := Function.update heap.remoteLog base log }
      held place retiring := by
  -- Every header of the new heap has a counterpart in the old one.
  have hpast : ∀ other header,
      (heap.storeHeader base after).header other = some header →
      ∃ header', heap.header other = some header' ∧
        SameSegment header' header := by
    intro other header hheader
    rcases storeHeader_eq_some.mp hheader with ⟨rfl, rfl⟩ | ⟨_, hother⟩
    · exact ⟨before, hbefore, hsame⟩
    · exact ⟨header, hother, ⟨rfl, rfl, rfl, rfl, rfl, rfl⟩⟩
  have hnext : ∀ other header', heap.header other = some header' →
      ∃ header, (heap.storeHeader base after).header other = some header ∧
        SameSegment header' header := by
    intro other header' hheader'
    by_cases heq : other = base
    · subst heq
      obtain rfl := Option.some.inj (hbefore.symm.trans hheader')
      exact ⟨after, storeHeader_eq_some.mpr (Or.inl ⟨rfl, rfl⟩), hsame⟩
    · exact ⟨header', storeHeader_eq_some.mpr (Or.inr ⟨heq, hheader'⟩),
        ⟨rfl, rfl, rfl, rfl, rfl, rfl⟩⟩
  have hregistry := hinv.registry.storeHeader after hbefore
  exact
  { registry := hregistry.congr (fun _ h => h) (fun _ h => h) rfl rfl
    headers := by
      intro other header hheader
      obtain ⟨header', hheader', h⟩ := hpast other header hheader
      rw [h.strategy, h.slotIndex, h.classIdx, h.chunkSize]
      exact hinv.headers other header' hheader'
    segsHeader := by
      intro tid i hi hsegs
      rw [listSegs_storeHeader] at hsegs ⊢
      obtain ⟨header', hheader', howner, hclass, hretired⟩ :=
        hinv.segsHeader tid i hi hsegs
      obtain ⟨header, hheader, h⟩ := hnext _ _ hheader'
      exact ⟨header, hheader, h.ownerTid.trans howner, h.classIdx.trans hclass,
        fun hr => hretired (h.retired ▸ hr)⟩
    active := by
      intro other header hheader hactive
      obtain ⟨header', hheader', h⟩ := hpast other header hheader
      rw [listSegs_storeHeader, h.ownerTid, h.classIdx]
      exact hinv.active other header' hheader' (h.retired ▸ hactive)
    ownChain := by
      intro tid i hi
      rw [listHead_storeHeader]
      exact hinv.ownChain tid i hi
    remoteChain := by
      intro other header hheader hactive
      rcases storeHeader_eq_some.mp hheader with ⟨rfl, rfl⟩ | ⟨hne, hother⟩
      · simp only [Function.update_self]
        exact hqueue (hsame.retired ▸ hactive)
      · simp only [Function.update_of_ne hne]
        exact hinv.remoteChain other header hother hactive
    heldPlace := hinv.heldPlace
    heldNodup := hinv.heldNodup
    heldSize := by
      intro chunk hchunk
      obtain ⟨header', hheader', hsize⟩ := hinv.heldSize chunk hchunk
      obtain ⟨header, hheader, h⟩ := hnext _ _ hheader'
      exact ⟨header, hheader, hsize.trans h.chunkSize.symm⟩
    chunk := by
      intro ptr hptr
      obtain ⟨header', hheader', hchunk⟩ := hinv.chunk ptr hptr
      obtain ⟨header, hheader, h⟩ := hnext _ _ hheader'
      exact ⟨header, hheader, h.chunkSize ▸ hchunk⟩
    ownSegment := by
      intro ptr tid i hptr
      obtain ⟨header', hheader', hactive, howner, hclass⟩ :=
        hinv.ownSegment ptr tid i hptr
      obtain ⟨header, hheader, h⟩ := hnext _ _ hheader'
      exact ⟨header, hheader, h.retired.trans hactive,
        h.ownerTid.trans howner, h.classIdx.trans hclass⟩
    remoteSegment := hinv.remoteSegment }

/-! ## Moving chunks -/

/-- A chunk is in some list's chain or in the queue of an active segment. -/
def OnList (family : ListFamily) (heap : Heap) (ptr : ℕ) : Prop :=
  (∃ tid, ∃ i < family.count, ∃ nodes,
    Chain 0 (readWord heap.memory) (listHead heap tid (family.ref i)) nodes ∧
      ptr ∈ nodes) ∨
  ∃ base header, heap.header base = some header ∧ header.retired = false ∧
    ptr ∈ heap.remoteLog base

/-- A chunk that is out is on no list. -/
theorem ListInv.not_onList
    (hinv : ListInv layout family heap held place retiring) {ptr : ℕ}
    (hplace : place ptr = .out) : ¬ OnList family heap ptr := by
  rintro (⟨tid, i, hi, nodes, hchain, hmem⟩ |
    ⟨base, header, hheader, hactive, hmem⟩)
  · obtain ⟨nodes', hchain', hnodes'⟩ := hinv.ownChain tid i hi
    obtain rfl := hchain.unique hchain'
    simp [hnodes' ptr hmem] at hplace
  · simp [(hinv.remoteChain base header hheader hactive).2 ptr hmem] at hplace

/-- Chunks that are on no list may be given another place. -/
theorem ListInv.relocate
    (hinv : ListInv layout family heap held place retiring)
    (place' : ℕ → Place)
    (hmoved : ∀ ptr, place' ptr ≠ place ptr →
      ¬ OnList family heap ptr ∧ ptr ∉ held.map Chunk.ptr ∧
      (place' ptr ≠ .untracked → place ptr ≠ .untracked) ∧
      (∀ tid i, place' ptr = .own tid i → ∃ header,
        heap.header (segmentOf layout ptr) = some header ∧
          header.retired = false ∧ header.ownerTid = tid ∧
          header.classIdx = i) ∧
      ∀ base, place' ptr = .remote base → segmentOf layout ptr = base) :
    ListInv layout family heap held place' retiring := by
  refine { hinv with
    ownChain := ?_
    remoteChain := ?_
    heldPlace := ?_
    chunk := ?_
    ownSegment := ?_
    remoteSegment := ?_ }
  · intro tid i hi
    obtain ⟨nodes, hchain, hnodes⟩ := hinv.ownChain tid i hi
    refine ⟨nodes, hchain, fun node hnode => ?_⟩
    by_contra hne
    exact (hmoved node fun heq => hne (heq.trans (hnodes node hnode))).1
      (Or.inl ⟨tid, i, hi, nodes, hchain, hnode⟩)
  · intro base header hheader hactive
    obtain ⟨hchain, hnodes⟩ := hinv.remoteChain base header hheader hactive
    refine ⟨hchain, fun node hnode => ?_⟩
    by_contra hne
    exact (hmoved node fun heq => hne (heq.trans (hnodes node hnode))).1
      (Or.inr ⟨base, header, hheader, hactive, hnode⟩)
  · intro chunk hchunk
    by_contra hne
    exact (hmoved chunk.ptr fun heq =>
      hne (heq.trans (hinv.heldPlace chunk hchunk))).2.1
      (List.mem_map_of_mem hchunk)
  · intro ptr hptr
    by_cases heq : place' ptr = place ptr
    · exact hinv.chunk ptr (heq ▸ hptr)
    · exact hinv.chunk ptr ((hmoved ptr heq).2.2.1 hptr)
  · intro ptr tid i hptr
    by_cases heq : place' ptr = place ptr
    · exact hinv.ownSegment ptr tid i (heq ▸ hptr)
    · exact (hmoved ptr heq).2.2.2.1 tid i hptr
  · intro ptr base hptr
    by_cases heq : place' ptr = place ptr
    · exact hinv.remoteSegment ptr base (heq ▸ hptr)
    · exact (hmoved ptr heq).2.2.2.2 base hptr

/-! ## The steps of the routine -/

/-- Popping the head of a thread's list. -/
theorem ListInv.pop (hinv : ListInv layout family heap held place retiring)
    {tid i : ℕ} (hi : i < family.count)
    (hhead : listHead heap tid (family.ref i) ≠ 0) :
    ListInv layout family
      (setListHead heap tid (family.ref i)
        (readWord heap.memory (listHead heap tid (family.ref i))))
      held (Function.update place (listHead heap tid (family.ref i)) .out)
      retiring ∧
    listHead heap tid (family.ref i) ∉ held.map Chunk.ptr ∧
    ∃ header,
      heap.header (segmentOf layout (listHead heap tid (family.ref i))) =
        some header ∧ header.chunkSize = family.size i := by
  obtain ⟨nodes, hchain, hnodes⟩ := hinv.ownChain tid i hi
  obtain ⟨rest, rfl, hrest⟩ := hchain.cons_of_ne hhead
  have hplace := hnodes _ List.mem_cons_self
  have hheld : listHead heap tid (family.ref i) ∉ held.map Chunk.ptr := by
    intro hmem
    obtain ⟨chunk, hchunk, hptr⟩ := List.mem_map.mp hmem
    simp [← hptr, hinv.heldPlace chunk hchunk] at hplace
  have hnodup := List.nodup_cons.mp hchain.nodup
  have hpopped := hinv.setOwn hi _ hrest fun node hnode =>
    hnodes node (List.mem_cons_of_mem _ hnode)
  refine ⟨hpopped.relocate _ ?_, hheld, ?_⟩
  · intro ptr hmoved
    obtain rfl : ptr = listHead heap tid (family.ref i) := by
      by_contra hne
      exact hmoved (Function.update_of_ne hne _ _)
    refine ⟨?_, hheld, by simp [hplace], by simp, by simp⟩
    rintro (⟨tid', i', hi', nodes', hchain', hmem⟩ |
      ⟨base, header, hheader, hactive, hmem⟩)
    · rw [setListHead_memory, listHead_setListHead] at hchain'
      split at hchain'
      · exact hnodup.1 (hrest.unique hchain' ▸ hmem)
      · rename_i hkey
        obtain ⟨nodes'', hchain'', hnodes''⟩ := hinv.ownChain tid' i' hi'
        obtain rfl := hchain'.unique hchain''
        have hsame := hplace.symm.trans (hnodes'' _ hmem)
        simp only [Place.own.injEq] at hsame
        exact hkey ⟨hsame.1.symm, hsame.2 ▸ rfl⟩
    · rw [setListHead_header] at hheader
      rw [setListHead_remoteLog] at hmem
      simp [(hinv.remoteChain base header hheader hactive).2 _ hmem] at hplace
  · obtain ⟨header, hheader, _, _, hclass⟩ := hinv.ownSegment _ tid i hplace
    refine ⟨header, hheader, ?_⟩
    rw [(hinv.headers _ _ hheader).2.2.2, hclass]

/-- Harvesting the queue of a list's active segment moves it to the list,
except for the first chunk, which is taken out. -/
theorem ListInv.harvest (hinv : ListInv layout family heap held place retiring)
    {tid i base : ℕ} {header : SegmentHeader} (hi : i < family.count)
    (hheader : heap.header base = some header)
    (hactive : header.retired = false) (howner : header.ownerTid = tid)
    (hclass : header.classIdx = i)
    (hhead : header.remoteHead ≠ 0) :
    ∃ place',
      ListInv layout family
        (setListHead
          { heap.storeHeader base { header with remoteHead := 0 } with
            remoteLog := Function.update heap.remoteLog base [] }
          tid (family.ref i) (readWord heap.memory header.remoteHead))
        held place' retiring ∧
      place' header.remoteHead = .out ∧
      header.remoteHead ∉ held.map Chunk.ptr ∧
      segmentOf layout header.remoteHead = base := by
  obtain ⟨hchain, hnodes⟩ := hinv.remoteChain base header hheader hactive
  obtain ⟨rest, hlog, hrest⟩ := hchain.cons_of_ne hhead
  have hplace : place header.remoteHead = .remote base :=
    hnodes _ (hlog ▸ List.mem_cons_self)
  have hheld : ∀ ptr, place ptr = .remote base →
      ptr ∉ held.map Chunk.ptr := by
    intro ptr hptr hmem
    obtain ⟨chunk, hchunk, rfl⟩ := List.mem_map.mp hmem
    simp [hinv.heldPlace chunk hchunk] at hptr
  have hnodup : (header.remoteHead :: rest).Nodup := hlog ▸ hchain.nodup
  have hdrained := hinv.setHeader { header with remoteHead := 0 } []
    hheader ⟨rfl, rfl, rfl, rfl, rfl, rfl⟩ (by simp)
  -- With the queue drained, its chunks are on no list until the head is set.
  let place' : ℕ → Place := fun ptr =>
    if ptr = header.remoteHead then .out
    else if place ptr = .remote base then .own tid i
    else place ptr
  have hmoved := hdrained.relocate place' (by
    intro ptr hptr
    have hremote : place ptr = .remote base := by
      by_contra hne
      by_cases heq : ptr = header.remoteHead
      · exact hne (heq ▸ hplace)
      · exact hptr (by simp only [place', if_neg heq, if_neg hne])
    have hsegment := hinv.remoteSegment ptr base hremote
    refine ⟨?_, hheld ptr hremote, by simp [hremote], ?_, ?_⟩
    · rintro (⟨tid', i', hi', nodes', hchain', hmem⟩ |
        ⟨other, header', hheader', hactive', hmem⟩)
      · rw [listHead_storeHeader] at hchain'
        obtain ⟨nodes'', hchain'', hnodes''⟩ := hinv.ownChain tid' i' hi'
        obtain rfl := hchain''.unique hchain'
        simp [hnodes'' ptr hmem] at hremote
      · by_cases heq : other = base
        · simp [heq] at hmem
        · simp only [Function.update_of_ne heq] at hmem
          have hother : heap.header other = some header' := by
            rcases storeHeader_eq_some.mp hheader' with h | h
            · exact absurd h.1 heq
            · exact h.2
          have hsame := hremote.symm.trans
            ((hinv.remoteChain other header' hother hactive').2 ptr hmem)
          exact heq (by simpa using hsame.symm)
    · intro tid' i' hown
      have hkey : tid' = tid ∧ i' = i := by
        by_cases heq : ptr = header.remoteHead
        · simp [place', heq] at hown
        · simp only [place', if_neg heq, if_pos hremote, Place.own.injEq] at hown
          exact ⟨hown.1.symm, hown.2.symm⟩
      exact ⟨{ header with remoteHead := 0 },
        storeHeader_eq_some.mpr (Or.inl ⟨hsegment, rfl⟩), hactive,
        howner.trans hkey.1.symm, hclass.trans hkey.2.symm⟩
    · intro other hother
      by_cases heq : ptr = header.remoteHead
      · simp [place', heq] at hother
      · simp [place', if_neg heq, if_pos hremote] at hother)
  refine ⟨place', hmoved.setOwn hi _ hrest ?_, by simp [place'],
    hheld _ hplace, hinv.remoteSegment _ _ hplace⟩
  intro node hnode
  have hne : node ≠ header.remoteHead := fun heq =>
    (List.nodup_cons.mp hnodup).1 (heq ▸ hnode)
  have hremote : place node = .remote base :=
    hnodes node (hlog ▸ List.mem_cons_of_mem _ hnode)
  simp only [place', if_neg hne, if_pos hremote]

/-- The owner puts a chunk in front of its list. -/
theorem ListInv.pushOwn (hinv : ListInv layout family heap held place retiring)
    {ptr : ℕ} {header : SegmentHeader}
    (hheader : heap.header (segmentOf layout ptr) = some header)
    (hactive : header.retired = false) (hplace : place ptr = .out)
    (hheld : ptr ∉ held.map Chunk.ptr) :
    ListInv layout family
      (setListHead
        { heap with
          memory := writeWord heap.memory ptr (listHead heap header.ownerTid
            (family.ref header.classIdx)) }
        header.ownerTid (family.ref header.classIdx) ptr)
      held
      (Function.update place ptr (.own header.ownerTid header.classIdx))
      retiring := by
  have hclass := (hinv.headers _ _ hheader).2.2.1
  obtain ⟨nodes, hchain, hnodes⟩ := hinv.ownChain header.ownerTid _ hclass
  have hroom := hinv.chunkSize_ge hheader
  have hlink := hinv.listHead_lt header.ownerTid hclass
  have hne : ∀ node ∈ nodes, node ≠ ptr := by
    rintro node hnode rfl
    simp [hnodes _ hnode] at hplace
  have hwritten := hinv.setMemory (writeWord heap.memory ptr
    (listHead heap header.ownerTid (family.ref header.classIdx))) hheader hplace
    (fun address haddress => writeWord_outside _ _
      (by unfold pointerSize at hroom; omega))
  have hnotList := hwritten.not_onList hplace
  have hptr : ptr ≠ 0 := by
    obtain ⟨_, _, hchunk⟩ := hinv.chunk ptr (by simp [hplace])
    exact hchunk.ne_zero
  have hmoved := hwritten.relocate
    (Function.update place ptr
      (.own header.ownerTid header.classIdx)) (by
    intro other hother
    obtain rfl : other = ptr := by
      by_contra hne
      exact hother (Function.update_of_ne hne _ _)
    refine ⟨hnotList, hheld, by simp [hplace], ?_, by simp⟩
    intro tid i hown
    simp only [Function.update_self, Place.own.injEq] at hown
    exact ⟨header, hheader, hactive, hown.1, hown.2⟩)
  refine hmoved.setOwn hclass (ptr :: nodes) ?_ ?_
  · refine hchain.push hptr (readWord_writeWord_same _ _ hlink) ?_
    intro node hnode
    exact hinv.readWord_eq hheader (by simp [hplace])
      (by simp [hnodes node hnode]) (hne node hnode)
      fun address haddress => writeWord_outside _ _
        (by unfold pointerSize at hroom; omega)
  · intro node hnode
    rcases List.mem_cons.mp hnode with rfl | hnode
    · exact Function.update_self _ _ _
    · rw [Function.update_of_ne (hne node hnode)]
      exact hnodes node hnode

/-- Another thread puts a chunk in front of its segment's queue. -/
theorem ListInv.pushRemote
    (hinv : ListInv layout family heap held place retiring)
    {ptr base : ℕ} {header : SegmentHeader}
    (hsegment : segmentOf layout ptr = base)
    (hheader : heap.header base = some header)
    (hactive : header.retired = false) (hplace : place ptr = .out)
    (hheld : ptr ∉ held.map Chunk.ptr) :
    ListInv layout family
      { heap.storeHeader base { header with remoteHead := ptr } with
        memory := writeWord heap.memory ptr header.remoteHead
        remoteLog := Function.update heap.remoteLog base
          (ptr :: heap.remoteLog base) }
      held (Function.update place ptr (.remote base)) retiring := by
  subst hsegment
  obtain ⟨hchain, hnodes⟩ := hinv.remoteChain _ header hheader hactive
  have hroom := hinv.chunkSize_ge hheader
  have hlink := hinv.remoteHead_lt hheader hactive
  have hne : ∀ node ∈ heap.remoteLog (segmentOf layout ptr), node ≠ ptr := by
    rintro node hnode rfl
    simp [hnodes _ hnode] at hplace
  have hwritten := hinv.setMemory (writeWord heap.memory ptr header.remoteHead)
    hheader hplace
    (fun address haddress => writeWord_outside _ _
      (by unfold pointerSize at hroom; omega))
  have hnotList := hwritten.not_onList hplace
  have hptr : ptr ≠ 0 := by
    obtain ⟨_, _, hchunk⟩ := hinv.chunk ptr (by simp [hplace])
    exact hchunk.ne_zero
  have hmoved := hwritten.relocate
    (Function.update place ptr
      (.remote (segmentOf layout ptr))) (by
    intro other hother
    obtain rfl : other = ptr := by
      by_contra hne
      exact hother (Function.update_of_ne hne _ _)
    exact ⟨hnotList, hheld, by simp [hplace], by simp, by simp⟩)
  refine hmoved.setHeader { header with remoteHead := ptr }
    (ptr :: heap.remoteLog (segmentOf layout ptr)) hheader
    ⟨rfl, rfl, rfl, rfl, rfl, rfl⟩ fun _ => ⟨?_, ?_⟩
  · refine hchain.push hptr (readWord_writeWord_same _ _ hlink) ?_
    intro node hnode
    exact hinv.readWord_eq hheader (by simp [hplace])
      (by simp [hnodes node hnode]) (hne node hnode)
      fun address haddress => writeWord_outside _ _
        (by unfold pointerSize at hroom; omega)
  · intro node hnode
    rcases List.mem_cons.mp hnode with rfl | hnode
    · exact Function.update_self _ _ _
    · rw [Function.update_of_ne (hne node hnode)]
      exact hnodes node hnode

/-- A chunk of a retired segment is given back: only the live count changes. -/
theorem ListInv.giveBack
    (hinv : ListInv layout family heap held place retiring) {base : ℕ}
    {header : SegmentHeader} (liveChunks : ℕ)
    (hheader : heap.header base = some header)
    (hretired : header.retired = true) :
    ListInv layout family
      (heap.storeHeader base { header with liveChunks := liveChunks }) held
      place retiring := by
  have hsame := hinv.setHeader { header with liveChunks := liveChunks }
    (heap.remoteLog base) hheader
    ⟨rfl, rfl, rfl, rfl, rfl, rfl⟩ (by simp [hretired])
  rwa [Function.update_eq_self] at hsame

/-- The refill retires the active segment of an empty list. -/
theorem ListInv.retire (hinv : ListInv layout family heap held place none)
    {tid i base : ℕ} (liveChunks : ℕ) (header : SegmentHeader)
    (hheader : heap.header base = some header)
    (howner : header.ownerTid = tid) (hclass : header.classIdx = i)
    (hempty : listHead heap tid (family.ref i) = 0) :
    ListInv layout family
      (heap.storeHeader base
        { header with
          liveChunks := liveChunks
          retired := true })
      held
      (fun ptr => if place ptr = .own tid i then .untracked else place ptr)
      (some (tid, i)) := by
  -- Nothing is on the list, so its chunks may be forgotten first.
  have hforgotten := hinv.relocate (fun ptr =>
    if place ptr = .own tid i then .untracked else place ptr) (by
    intro ptr hptr
    have hown : place ptr = .own tid i := by
      by_contra hne
      exact hptr (if_neg hne)
    refine ⟨?_, ?_, by simp [hown], by simp [hown], by simp [hown]⟩
    · rintro (⟨tid', i', hi', nodes, hchain, hmem⟩ |
        ⟨other, header', hheader', hactive, hmem⟩)
      · obtain ⟨nodes', hchain', hnodes'⟩ := hinv.ownChain tid' i' hi'
        obtain rfl := hchain.unique hchain'
        have hsame := hown.symm.trans (hnodes' ptr hmem)
        simp only [Place.own.injEq] at hsame
        obtain ⟨rfl, rfl⟩ := hsame
        rw [hempty] at hchain
        simp [hchain.eq_nil] at hmem
      · simp [(hinv.remoteChain other header' hheader' hactive).2 ptr hmem]
          at hown
    · intro hmem
      obtain ⟨chunk, hchunk, rfl⟩ := List.mem_map.mp hmem
      simp [hinv.heldPlace chunk hchunk] at hown)
  have hregistry := hinv.registry.storeHeader { header with
    liveChunks := liveChunks
    retired := true } hheader
  have hsegs : ∀ tid' ref, listSegs (heap.storeHeader base { header with
      liveChunks := liveChunks
      retired := true }) tid' ref = listSegs heap tid' ref :=
    fun _ _ => listSegs_congr rfl rfl
  have hhead : ∀ tid' ref, listHead (heap.storeHeader base { header with
      liveChunks := liveChunks
      retired := true }) tid' ref = listHead heap tid' ref :=
    fun _ _ => listHead_congr rfl rfl
  -- A header that is still active is an old one.
  have hpast : ∀ other header', header'.retired = false →
      (heap.storeHeader base { header with
        liveChunks := liveChunks
        retired := true }).header other = some header' →
      heap.header other = some header' := by
    intro other header' hactive hother
    rcases storeHeader_eq_some.mp hother with ⟨_, rfl⟩ | ⟨_, hother⟩
    · simp at hactive
    · exact hother
  have hnext : ∀ other header', heap.header other = some header' →
      ∃ after, (heap.storeHeader base { header with
        liveChunks := liveChunks
        retired := true }).header other = some after ∧
        after.chunkSize = header'.chunkSize ∧
        after.ownerTid = header'.ownerTid ∧
        after.classIdx = header'.classIdx ∧
        (after.retired = true → header'.retired = true ∨ other = base) := by
    intro other header' hheader'
    by_cases heq : other = base
    · subst heq
      obtain rfl := Option.some.inj (hheader.symm.trans hheader')
      exact ⟨_, storeHeader_eq_some.mpr (Or.inl ⟨rfl, rfl⟩), rfl, rfl, rfl,
        fun _ => Or.inr rfl⟩
    · exact ⟨header', storeHeader_eq_some.mpr (Or.inr ⟨heq, hheader'⟩), rfl,
        rfl, rfl, Or.inl⟩
  exact
  { registry := hregistry
    headers := by
      intro other header' hother
      rcases storeHeader_eq_some.mp hother with ⟨rfl, rfl⟩ | ⟨_, hother⟩
      · obtain ⟨hstrategy, hslot, hrest⟩ := hinv.headers _ _ hheader
        exact ⟨hstrategy, hslot, hrest⟩
      · exact hinv.headers _ _ hother
    segsHeader := by
      intro tid' i' hi' hne
      rw [hsegs] at hne ⊢
      obtain ⟨header', hheader', howner', hclass', hretired⟩ :=
        hinv.segsHeader tid' i' hi' hne
      obtain ⟨after, hafter, _, hownerAfter, hclassAfter, hretiredAfter⟩ :=
        hnext _ _ hheader'
      refine ⟨after, hafter, hownerAfter.trans howner',
        hclassAfter.trans hclass', fun hr => ?_⟩
      rcases hretiredAfter hr with hr | heq
      · simp at hretired
        simp [hretired] at hr
      · rw [heq] at hheader'
        obtain rfl := Option.some.inj (hheader.symm.trans hheader')
        rw [← howner, ← hclass, howner', hclass']
    active := by
      intro other header' hother hactive
      rw [hsegs]
      exact hinv.active other header' (hpast _ _ hactive hother) hactive
    ownChain := by
      intro tid' i' hi'
      rw [hhead]
      exact hforgotten.ownChain tid' i' hi'
    remoteChain := by
      intro other header' hother hactive
      exact hforgotten.remoteChain other header' (hpast _ _ hactive hother)
        hactive
    heldPlace := hforgotten.heldPlace
    heldNodup := hinv.heldNodup
    heldSize := by
      intro chunk hchunk
      obtain ⟨header', hheader', hsize⟩ := hinv.heldSize chunk hchunk
      obtain ⟨after, hafter, hchunkSize, _⟩ := hnext _ _ hheader'
      exact ⟨after, hafter, hsize.trans hchunkSize.symm⟩
    chunk := by
      intro ptr hptr
      obtain ⟨header', hheader', hchunk⟩ := hforgotten.chunk ptr hptr
      obtain ⟨after, hafter, hchunkSize, _⟩ := hnext _ _ hheader'
      exact ⟨after, hafter, hchunkSize ▸ hchunk⟩
    ownSegment := by
      intro ptr tid' i' hptr
      obtain ⟨header', hheader', hactive, howner', hclass'⟩ :=
        hforgotten.ownSegment ptr tid' i' hptr
      refine ⟨header', storeHeader_eq_some.mpr (Or.inr ⟨fun heq => ?_,
        hheader'⟩), hactive, howner', hclass'⟩
      -- The retired segment is the only one whose chunks were on this list.
      rw [heq] at hheader'
      obtain rfl := Option.some.inj (hheader.symm.trans hheader')
      rw [← howner', ← hclass', howner, hclass] at hptr
      split at hptr <;> simp_all
    remoteSegment := hforgotten.remoteSegment }

/-- The places once the segment at `base` has been carved, its last chunk `ptr`
taken out and the others, `rest`, put on a list. -/
def freshPlace (layout : SegmentLayout) (place : ℕ → Place)
    (base ptr tid i : ℕ) (rest : List ℕ) (node : ℕ) : Place :=
  if segmentOf layout node = base then
    if node = ptr then .out
    else if node ∈ rest then .own tid i
    else .untracked
  else place node

section FreshPlace

variable {base ptr tid i node : ℕ} {rest : List ℕ}

theorem freshPlace_outside (hnode : segmentOf layout node ≠ base) :
    freshPlace layout place base ptr tid i rest node = place node :=
  if_neg hnode

theorem freshPlace_taken (hptr : segmentOf layout ptr = base) :
    freshPlace layout place base ptr tid i rest ptr = .out := by
  rw [freshPlace, if_pos hptr, if_pos rfl]

theorem freshPlace_rest (hnode : segmentOf layout node = base)
    (hne : node ≠ ptr) (hmem : node ∈ rest) :
    freshPlace layout place base ptr tid i rest node = .own tid i := by
  rw [freshPlace, if_pos hnode, if_neg hne, if_pos hmem]

theorem freshPlace_cases (hnode : segmentOf layout node = base) :
    freshPlace layout place base ptr tid i rest node = .untracked ∨
      (node = ptr ∧
        freshPlace layout place base ptr tid i rest node = .out) ∨
      (node ∈ rest ∧
        freshPlace layout place base ptr tid i rest node = .own tid i) := by
  by_cases htaken : node = ptr
  · exact .inr (.inl ⟨htaken, htaken ▸ freshPlace_taken (htaken ▸ hnode)⟩)
  · by_cases hmem : node ∈ rest
    · exact .inr (.inr ⟨hmem, freshPlace_rest hnode htaken hmem⟩)
    · left
      rw [freshPlace, if_pos hnode, if_neg htaken, if_neg hmem]

end FreshPlace

/-- A fresh segment replaces a list that has no active segment. -/
theorem ListInv.fresh (hinv : ListInv layout family heap held place retiring)
    {tid i base ptr : ℕ} {heap' : Heap} (hi : i < family.count)
    (hfresh : Fresh layout heap base)
    (hretiring : retiring = none ∧ listSegs heap tid (family.ref i) = 0 ∨
      retiring = some (tid, i) ∧ ∃ header,
        heap.header (listSegs heap tid (family.ref i)) = some header ∧
          header.retired = true)
    (hcarved : Carved layout (family.ref i) tid (family.size i) base heap
      heap' ptr) :
    ∃ place', ListInv layout family heap' held place' none ∧
      place' ptr = .out ∧ ptr ∉ held.map Chunk.ptr ∧
      ∃ header, heap'.header (segmentOf layout ptr) = some header ∧
        header.chunkSize = family.size i := by
  obtain ⟨fresh, hheader, hstrategy, hslot, hclass, howner, hsize, hremote,
    hactive⟩ := hcarved.header
  rw [family.ref_classIdx i hi] at hclass
  rw [family.ref_slot] at hslot
  rw [family.ref_strategy] at hstrategy
  obtain ⟨count, hcount, hptr, hchain⟩ := hcarved.chain
  have hpos : 0 < family.size i :=
    lt_of_lt_of_le (by decide) (family.size_ge i hi)
  have hpiece : ∀ number ≤ count, IsChunk layout base (family.size i)
      (piece (payloadStart base) (family.size i) number) :=
    fun number hnumber => ⟨number, by omega, rfl⟩
  have hsegment : ∀ number ≤ count, segmentOf layout
      (piece (payloadStart base) (family.size i) number) = base :=
    fun number hnumber => (hpiece number hnumber).segmentOf_eq hfresh.2.1
  -- No tracked chunk lies in the new segment, which had no header before.
  have hold : ∀ node, place node ≠ .untracked →
      segmentOf layout node ≠ base := by
    intro node hnode
    obtain ⟨header, hheader', _⟩ := hinv.chunk node hnode
    exact hfresh.ne hheader'
  have hkeep : ∀ other, other ≠ base →
      heap'.header other = heap.header other := by
    intro other hne
    rw [hheader, Function.update_of_ne hne]
  have hself : heap'.header base = some fresh := by
    rw [hheader, Function.update_self]
  have hword : ∀ node, place node ≠ .untracked →
      readWord heap'.memory node = readWord heap.memory node := by
    intro node hnode
    obtain ⟨header, hheader', hchunk⟩ := hinv.chunk node hnode
    exact hchunk.readWord_congr (hinv.chunkSize_ge hheader') hfresh.2.1
      (hold node hnode) hcarved.memory
  have hptrSegment : segmentOf layout ptr = base :=
    hptr ▸ hsegment count le_rfl
  have hplaceOld : ∀ node, segmentOf layout node ≠ base →
      freshPlace layout place base ptr tid i
        (pieces (payloadStart base) (family.size i) count) node =
        place node := fun node hne => freshPlace_outside hne
  have hplacePiece : ∀ node ∈ pieces (payloadStart base) (family.size i) count,
      freshPlace layout place base ptr tid i
        (pieces (payloadStart base) (family.size i) count) node =
        .own tid i := by
    intro node hnode
    obtain ⟨number, hnumber, rfl⟩ := mem_pieces.mp hnode
    have hne : piece (payloadStart base) (family.size i) number ≠ ptr := by
      rw [hptr]
      exact fun heq => hnumber.ne (piece_injective _ hpos heq)
    exact freshPlace_rest (hsegment number hnumber.le) hne hnode
  have hcases : ∀ node, segmentOf layout node = base →
      freshPlace layout place base ptr tid i
        (pieces (payloadStart base) (family.size i) count) node =
        .untracked ∨ IsChunk layout base (family.size i) node ∧
      (freshPlace layout place base ptr tid i
        (pieces (payloadStart base) (family.size i) count) node = .out ∨
      freshPlace layout place base ptr tid i
        (pieces (payloadStart base) (family.size i) count) node =
        .own tid i) := by
    intro node hnode
    rcases freshPlace_cases hnode with hnone | ⟨htaken, hout⟩ | ⟨hmem, hown⟩
    · exact Or.inl hnone
    · exact Or.inr ⟨htaken ▸ hptr ▸ hpiece count le_rfl, Or.inl hout⟩
    · obtain ⟨number, hnumber, rfl⟩ := mem_pieces.mp hmem
      exact Or.inr ⟨hpiece number hnumber.le, Or.inr hown⟩
  generalize hplace' : freshPlace layout place base ptr tid i
    (pieces (payloadStart base) (family.size i) count) = place' at *
  have htracked : ∀ node value, place node = value → value ≠ .untracked →
      place' node = value := by
    intro node value hvalue hne
    rw [hplaceOld node (hold node (hvalue ▸ hne)), hvalue]
  refine ⟨place', ?_, ?_, ?_, fresh, hptrSegment ▸ hself, hsize⟩
  · exact
    { registry := hcarved.registry hinv.registry
      headers := by
        intro other header hother
        by_cases heq : other = base
        · obtain rfl := Option.some.inj (hself.symm.trans (heq ▸ hother))
          exact ⟨hstrategy, hslot, hclass ▸ hi, by rw [hclass, hsize]⟩
        · exact hinv.headers other header (hkeep other heq ▸ hother)
      segsHeader := by
        intro tid' i' hi' hne
        rw [hcarved.segs] at hne ⊢
        by_cases hkey : tid' = tid ∧ family.ref i' = family.ref i
        · rw [if_pos hkey]
          exact ⟨fresh, hself, howner.trans hkey.1.symm,
            hclass.trans (family.ref_injOn hi' hi hkey.2).symm,
            fun h => by simp [hactive] at h⟩
        · rw [if_neg hkey] at hne ⊢
          obtain ⟨header, hheader', howner', hclass', hretired⟩ :=
            hinv.segsHeader tid' i' hi' hne
          refine ⟨header, ?_, howner', hclass', fun hr => ?_⟩
          · rw [hkeep _ (hfresh.ne hheader')]
            exact hheader'
          · rcases hretiring with ⟨hnone, _⟩ | ⟨hsome, _⟩
            · exact hnone ▸ hretired hr
            · have hsame := hretired hr
              rw [hsome, Option.some.injEq, Prod.mk.injEq] at hsame
              exact absurd ⟨hsame.1.symm, hsame.2 ▸ rfl⟩ hkey
      active := by
        intro other header hother hactive'
        rw [hcarved.mapped, hcarved.segs]
        by_cases heq : other = base
        · obtain rfl := Option.some.inj (hself.symm.trans (heq ▸ hother))
          rw [heq, howner, hclass]
          simp
        · rw [hkeep other heq] at hother
          obtain ⟨hmapped, hsegs⟩ := hinv.active other header hother hactive'
          rw [Function.update_of_ne heq, if_neg]
          · exact ⟨hmapped, hsegs⟩
          · rintro ⟨howner', href⟩
            rw [howner', href] at hsegs
            rcases hretiring with ⟨_, hzero⟩ | ⟨_, header', hheader', hr⟩
            · exact (hinv.registry.placed _ _ hother).1
                (hsegs.symm.trans hzero)
            · rw [hsegs] at hheader'
              obtain rfl := Option.some.inj (hother.symm.trans hheader')
              simp [hactive'] at hr
      ownChain := by
        intro tid' i' hi'
        rw [hcarved.head]
        by_cases hkey : tid' = tid ∧ family.ref i' = family.ref i
        · rw [if_pos hkey, hkey.1, family.ref_injOn hi' hi hkey.2]
          exact ⟨_, hchain.2.2, fun node hnode =>
            hplacePiece node (List.mem_reverse.mp hnode)⟩
        · rw [if_neg hkey]
          obtain ⟨nodes, hchain', hnodes⟩ := hinv.ownChain tid' i' hi'
          refine ⟨nodes, hchain'.congr fun node hnode => ?_, fun node hnode => ?_⟩
          · exact hword node (by simp [hnodes node hnode])
          · exact htracked node _ (hnodes node hnode) (by simp)
      remoteChain := by
        intro other header hother hactive'
        rw [hcarved.remoteLog]
        by_cases heq : other = base
        · obtain rfl := Option.some.inj (hself.symm.trans (heq ▸ hother))
          simp [heq, hremote]
        · rw [hkeep other heq] at hother
          rw [Function.update_of_ne heq]
          obtain ⟨hchain', hnodes⟩ :=
            hinv.remoteChain other header hother hactive'
          refine ⟨hchain'.congr fun node hnode => ?_, fun node hnode => ?_⟩
          · exact hword node (by simp [hnodes node hnode])
          · exact htracked node _ (hnodes node hnode) (by simp)
      heldPlace := fun chunk hchunk =>
        htracked _ _ (hinv.heldPlace chunk hchunk) (by simp)
      heldNodup := hinv.heldNodup
      heldSize := by
        intro chunk hchunk
        rw [hkeep _ (hold _ (by simp [hinv.heldPlace chunk hchunk]))]
        exact hinv.heldSize chunk hchunk
      chunk := by
        intro node hnode
        by_cases heq : segmentOf layout node = base
        · rcases hcases node heq with h | ⟨hchunk, _⟩
          · exact absurd h hnode
          · rw [heq]
            exact ⟨fresh, hself, hsize.symm ▸ hchunk⟩
        · rw [hkeep _ heq]
          exact hinv.chunk node (hplaceOld node heq ▸ hnode)
      ownSegment := by
        intro node tid' i' hnode
        by_cases heq : segmentOf layout node = base
        · rcases hcases node heq with h | ⟨_, h | h⟩
          · simp [h] at hnode
          · simp [h] at hnode
          · rw [h, Place.own.injEq] at hnode
            rw [heq]
            exact ⟨fresh, hself, hactive, howner.trans hnode.1,
              hclass.trans hnode.2⟩
        · rw [hkeep _ heq]
          exact hinv.ownSegment node tid' i' (hplaceOld node heq ▸ hnode)
      remoteSegment := by
        intro node other hnode
        by_cases heq : segmentOf layout node = base
        · rcases hcases node heq with h | ⟨_, h | h⟩ <;> simp [h] at hnode
        · exact hinv.remoteSegment node other (hplaceOld node heq ▸ hnode) }
  · rw [← hplace']
    exact freshPlace_taken hptrSegment
  · intro hmem
    obtain ⟨chunk, hchunk, heq⟩ := List.mem_map.mp hmem
    exact hold chunk.ptr (by simp [hinv.heldPlace chunk hchunk])
      (heq ▸ hptrSegment)

/-- A sweep changes no list: it stays inside retired segments. -/
theorem ListInv.sweep (hinv : ListInv layout family heap held place none)
    {heap' : Heap} (hframe : SweepFrame layout heap heap')
    (hregistry : RegistryOk layout heap') :
    ListInv layout family heap' held place none := by
  have hsegs : ∀ tid ref, listSegs heap' tid ref = listSegs heap tid ref :=
    fun _ _ => listSegs_congr hframe.freelists hframe.multiFreelists
  have hhead : ∀ tid ref, listHead heap' tid ref = listHead heap tid ref :=
    fun _ _ => listHead_congr hframe.freelists hframe.multiFreelists
  have hword : ∀ node header, place node ≠ .untracked →
      heap.header (segmentOf layout node) = some header →
      header.retired = false →
      readWord heap'.memory node = readWord heap.memory node := by
    intro node header hnode hheader hactive
    obtain ⟨_, hheader', hchunk⟩ := hinv.chunk node hnode
    obtain rfl := Option.some.inj (hheader.symm.trans hheader')
    have hinside := hchunk.inside
    have hroom := hinv.chunkSize_ge hheader
    unfold pointerSize at hroom
    exact hframe.readWord_eq hinv.registry hheader hactive hchunk.base_lt.le
      (by omega)
  exact
  { registry := hregistry
    headers := by
      intro base header hheader
      obtain ⟨header', _, hbefore, rfl⟩ := hframe.past hheader
      obtain ⟨hstrategy, hslot, hclass, hsize⟩ := hinv.headers _ _ hbefore
      exact ⟨hstrategy, hslot, hclass, hsize⟩
    segsHeader := by
      intro tid i hi hne
      rw [hsegs] at hne ⊢
      obtain ⟨header', hbefore, howner, hclass, hretired⟩ :=
        hinv.segsHeader tid i hi hne
      obtain ⟨decommitted, hafter⟩ := hframe.header_some _ _ hbefore
      exact ⟨_, hafter, howner, hclass, hretired⟩
    active := by
      intro base header hheader hactive
      obtain ⟨hbefore, hmapped⟩ := hframe.pastActive hheader hactive
      rw [hmapped, hsegs]
      exact hinv.active base header hbefore hactive
    ownChain := by
      intro tid i hi
      rw [hhead]
      obtain ⟨nodes, hchain, hnodes⟩ := hinv.ownChain tid i hi
      refine ⟨nodes, hchain.congr fun node hnode => ?_, hnodes⟩
      obtain ⟨header, hheader, hactive, _⟩ :=
        hinv.ownSegment node tid i (hnodes node hnode)
      exact hword node header (by simp [hnodes node hnode]) hheader hactive
    remoteChain := by
      intro base header hheader hactive
      obtain ⟨hbefore, _⟩ := hframe.pastActive hheader hactive
      rw [hframe.remoteLog]
      obtain ⟨hchain, hnodes⟩ := hinv.remoteChain base header hbefore hactive
      refine ⟨hchain.congr fun node hnode => ?_, hnodes⟩
      have hsegment := hinv.remoteSegment node base (hnodes node hnode)
      exact hword node header (by simp [hnodes node hnode])
        (hsegment.symm ▸ hbefore) hactive
    heldPlace := hinv.heldPlace
    heldNodup := hinv.heldNodup
    heldSize := by
      intro chunk hchunk
      obtain ⟨header', hbefore, hsize⟩ := hinv.heldSize chunk hchunk
      obtain ⟨decommitted, hafter⟩ := hframe.header_some _ _ hbefore
      exact ⟨_, hafter, hsize⟩
    chunk := by
      intro ptr hptr
      obtain ⟨header', hbefore, hchunk⟩ := hinv.chunk ptr hptr
      obtain ⟨decommitted, hafter⟩ := hframe.header_some _ _ hbefore
      exact ⟨_, hafter, hchunk⟩
    ownSegment := by
      intro ptr tid i hptr
      obtain ⟨header, hbefore, hactive, hrest⟩ := hinv.ownSegment ptr tid i hptr
      exact ⟨header, (hframe.active _ _ hbefore hactive).1, hactive, hrest⟩
    remoteSegment := hinv.remoteSegment }

/-! ## Allocation and free -/

/-- What a refill or a pop serves: a chunk of the list's size that is out and
nobody holds. -/
def ServesChunk (layout : SegmentLayout) (family : ListFamily)
    (held : List Chunk) (i : ℕ) (heap : Heap) (ptr : ℕ) : Prop :=
  ∃ place, ListInv layout family heap held place none ∧ place ptr = .out ∧
    ptr ∉ held.map Chunk.ptr ∧
    ∃ header, heap.header (segmentOf layout ptr) = some header ∧
      header.chunkSize = family.size i

theorem ListInv.refill (hinv : ListInv layout family heap held place none)
    {tid i base ptr : ℕ} {heap' : Heap} (hi : i < family.count)
    (hfresh : Fresh layout heap base)
    (hempty : listHead heap tid (family.ref i) = 0)
    (hrefill : Codegen.refill layout (family.ref i) tid (family.size i) base
      heap = some (heap', ptr)) :
    ServesChunk layout family held i heap' ptr := by
  have hsize := family.size_ge i hi
  simp only [Codegen.refill] at hrefill
  by_cases hsegs : listSegs heap tid (family.ref i) = 0
  · rw [if_pos hsegs] at hrefill
    exact hinv.fresh hi hfresh (Or.inl ⟨rfl, hsegs⟩)
      (carved_refillFresh hsize hfresh hrefill)
  rw [if_neg hsegs] at hrefill
  obtain ⟨header, hheader, howner, hclass, hretired⟩ :=
    hinv.segsHeader tid i hi hsegs
  have hactive : header.retired = false := by
    by_contra hne
    exact absurd (hretired (by simpa using hne)) (by simp)
  obtain ⟨hmapped, _⟩ := hinv.active _ _ hheader hactive
  have hload : heap.loadHeader (listSegs heap tid (family.ref i)) =
      some header := loadHeader_eq_some.mpr ⟨hmapped, hheader⟩
  simp only [mpscHarvest, hload, Option.map_some, Option.bind_eq_bind,
    Option.bind_some] at hrefill
  by_cases hhead : header.remoteHead = 0
  · rw [if_neg (not_not.mpr hhead)] at hrefill
    have hmiss := hinv.setHeader { header with remoteHead := 0 } []
      hheader ⟨rfl, rfl, rfl, rfl, rfl, rfl⟩ (by simp)
    generalize hactiveEq : listSegs heap tid (family.ref i) = active at *
    rw [loadHeader_storeHeader hmapped, Option.bind_some] at hrefill
    have hretire := hmiss.retire (chunksInSegment layout header.chunkSize)
      { header with remoteHead := 0 }
      (storeHeader_eq_some.mpr (Or.inl ⟨rfl, rfl⟩)) howner hclass
      (by rw [listHead_storeHeader]; exact hempty)
    have hne : base ≠ active := (hfresh.ne hheader).symm
    refine hretire.fresh hi ⟨hfresh.1, hfresh.2.1, hfresh.2.2.1, ?_⟩
      (Or.inr ⟨rfl, ?_⟩) (carved_refillFresh hsize ?_ hrefill)
    · simp [Heap.storeHeader, hne, hfresh.2.2.2]
    · exact ⟨_, storeHeader_eq_some.mpr
        (Or.inl ⟨(listSegs_congr rfl rfl).trans hactiveEq, rfl⟩), rfl⟩
    · exact ⟨hfresh.1, hfresh.2.1, hfresh.2.2.1,
        by simp [Heap.storeHeader, hne, hfresh.2.2.2]⟩
  · rw [if_pos hhead] at hrefill
    simp only [Option.pure_def, Option.some.injEq, Prod.mk.injEq] at hrefill
    obtain ⟨rfl, rfl⟩ := hrefill
    obtain ⟨place', hinv', hout, hheld, hsegment⟩ :=
      hinv.harvest hi hheader hactive howner hclass hhead
    refine ⟨place', hinv', hout, hheld, { header with remoteHead := 0 }, ?_, ?_⟩
    · rw [setListHead_header, hsegment]
      exact storeHeader_eq_some.mpr (Or.inl ⟨rfl, rfl⟩)
    · change header.chunkSize = _
      rw [(hinv.headers _ _ hheader).2.2.2, hclass]

theorem ListInv.popOrRefill
    (hinv : ListInv layout family heap held place none)
    {tid i base : ℕ} {heap' : Heap} {served : Served} (hi : i < family.count)
    (hfresh : Fresh layout heap base)
    (hserved : Codegen.popOrRefill layout (family.ref i) (family.size i) tid
      base heap = some (heap', served)) :
    ∃ ptr, served = .chunk ptr ∧ ServesChunk layout family held i heap' ptr := by
  simp only [Codegen.popOrRefill] at hserved
  by_cases hhead : listHead heap tid (family.ref i) = 0
  · rw [if_neg (not_not.mpr hhead), Option.map_eq_some_iff] at hserved
    obtain ⟨⟨heap'', ptr⟩, hrefill, heq⟩ := hserved
    obtain ⟨rfl, rfl⟩ := Prod.mk.inj heq
    exact ⟨ptr, rfl, hinv.refill hi hfresh hhead hrefill⟩
  · rw [if_pos hhead, Option.some.injEq, Prod.mk.injEq] at hserved
    obtain ⟨rfl, rfl⟩ := hserved
    obtain ⟨hinv', hheld, header, hheader, hsize⟩ := hinv.pop hi hhead
    refine ⟨_, rfl, _, hinv', Function.update_self _ _ _, hheld, header, ?_,
      hsize⟩
    rw [setListHead_header]
    exact hheader

/-- A free of a held chunk by any thread. -/
theorem ListInv.freeManaged
    (hinv : ListInv layout family heap held place none) {chunk : Chunk}
    (hchunk : chunk ∈ held) {tid : ℕ} {heap' : Heap}
    (hfree : Codegen.freeManaged heap tid (segmentOf layout chunk.ptr)
      chunk.ptr = some heap') :
    ∃ place', ListInv layout family heap' (held.erase chunk) place' none := by
  have hplace := hinv.heldPlace chunk hchunk
  obtain ⟨header, hheader, _⟩ := hinv.heldSize chunk hchunk
  obtain ⟨hstrategy, hslot, hclass, _⟩ := hinv.headers _ _ hheader
  obtain ⟨hreleased, hfree'⟩ := hinv.release hchunk
  cases hload : heap.loadHeader (segmentOf layout chunk.ptr) with
  | none => simp [Codegen.freeManaged, hload] at hfree
  | some header' =>
      obtain ⟨_, hheader'⟩ := loadHeader_eq_some.mp hload
      obtain rfl := Option.some.inj (hheader.symm.trans hheader')
      rw [freeManaged_of_ref (family.ref header.classIdx) hload
        (hstrategy.trans (family.ref_strategy _).symm)
        (hslot.trans (family.ref_slot _).symm)
        (family.ref_classIdx _ hclass).symm, freeToList] at hfree
      by_cases hretired : header.retired = true
      · rw [if_pos hretired, Option.some.injEq] at hfree
        exact ⟨place, hfree ▸ hreleased.giveBack _ hheader hretired⟩
      rw [if_neg hretired] at hfree
      have hactive : header.retired = false := by simpa using hretired
      by_cases howner : header.ownerTid = tid
      · rw [if_pos howner, Option.some.injEq] at hfree
        subst howner
        exact ⟨_, hfree ▸ hreleased.pushOwn hheader hactive hplace hfree'⟩
      · rw [if_neg howner, mpscPush, hload, Option.map_some,
          Option.some.injEq] at hfree
        exact ⟨_, hfree ▸
          hreleased.pushRemote rfl hheader hactive hplace hfree'⟩

end Operations

/-! ## Runs -/

section Runs

variable {layout : SegmentLayout} {spec : RoutineSpec} {slot : ℕ}
variable {family : ListFamily}

/-- The invariant of a state of a free-list routine. -/
def ListOk (layout : SegmentLayout) (family : ListFamily)
    (state : RoutineState) : Prop :=
  ∃ place, ListInv layout family state.heap state.held place none

theorem listOk_step (hfamily : FamilyOf spec slot family)
    {state target : RoutineState} {action : RoutineAction}
    (hok : ListOk layout family state)
    (hstep : routineStep layout spec slot state action = some target) :
    ListOk layout family target := by
  obtain ⟨place, hinv⟩ := hok
  cases action with
  | alloc tid request base =>
      by_cases hfresh : Fresh layout state.heap base
      · simp only [routineStep, if_pos hfresh, Option.map_eq_some_iff] at hstep
        obtain ⟨⟨heap', served⟩, hroutine, rfl⟩ := hstep
        rcases hfamily.routine hroutine with ⟨rfl, rfl⟩ | ⟨i, hi, hsize, hserved⟩
        · exact ⟨place, hinv⟩
        · obtain ⟨ptr, rfl, place', hinv', hout, hheld, header, hheader,
            hchunkSize⟩ := hinv.popOrRefill hi hfresh hserved
          refine ⟨place', ?_⟩
          have hgiven := hinv'.serve hheader hout hheld
          rwa [hchunkSize, ← hsize] at hgiven
      · simp [routineStep, hfresh] at hstep
  | write chunk offset byte =>
      by_cases hwrite : chunk ∈ state.held ∧ offset < chunk.size
      · simp only [routineStep, if_pos hwrite, Option.some.injEq] at hstep
        exact hstep ▸ ⟨place, hinv.write hwrite.1 hwrite.2⟩
      · simp [routineStep, hwrite] at hstep
  | free tid chunk =>
      by_cases hheld : chunk ∈ state.held
      · simp only [routineStep, if_pos hheld, Option.map_eq_some_iff,
          freeChunk] at hstep
        obtain ⟨heap', hfree, rfl⟩ := hstep
        split at hfree
        · exact hinv.freeManaged hheld hfree
        · obtain rfl := Option.some.inj hfree
          exact ⟨place, (hinv.release hheld).1⟩
      · simp [routineStep, hheld] at hstep
  | sweep mode pred pageSize =>
      simp only [routineStep, Option.some.injEq] at hstep
      obtain ⟨hframe, hregistry⟩ := sweepFrame_reaperSweep
        mode pred pageSize hinv.registry
      exact hstep ▸ ⟨place, hinv.sweep hframe hregistry⟩

/-- The invariant holds in every state a free-list routine reaches. -/
theorem listOk_reachable (hfamily : FamilyOf spec slot family)
    {state : RoutineState} (hreach : RoutineReachable layout spec slot state) :
    ListOk layout family state :=
  Transition.Reachable.invariant
    ⟨_, listInv_initial layout family _⟩
    (fun _ _ _ hok hstep => listOk_step hfamily hok hstep) hreach

end Runs

end TbjitAlloc.Codegen
