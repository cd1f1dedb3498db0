import TbjitAlloc.Codegen.CursorInvariant

/-!
# Segments of a producer-consumer routine

The owner of a segment serves its chunks in order, so the chunks handed out are
those below the thread's cursor.  While the segment is active each of them is
either held or waiting on the remote queue, and the queue is a chain in memory
as long as a chunk has room for a link.
-/

namespace TbjitAlloc.Codegen

open TbjitAlloc.ByteMemory
open TbjitAlloc.Carving
open TbjitAlloc.LinkedChain
open TbjitAlloc.Segment

/-- How many held chunks lie in the segment at `base`. -/
def heldIn (layout : SegmentLayout) (held : List Chunk) (base : ℕ) : ℕ :=
  held.countP fun chunk => segmentOf layout chunk.ptr = base

/-- One of the first `count` chunks of a segment. -/
def ServedFrom (size count base ptr : ℕ) : Prop :=
  ∃ number < count, ptr = piece (payloadStart base) size number

/-- The invariant.  `retiring` names a thread whose active segment has been
retired inside a refill and not yet replaced. -/
structure PcInv (layout : SegmentLayout) (spec : RoutineSpec) (slot : ℕ)
    (heap : Heap) (held : List Chunk) (handedOut : ℕ → ℕ)
    (retiring : Option ℕ) : Prop where
  registry : RegistryOk layout heap
  headers : ∀ base header, heap.header base = some header →
    header.strategy = .producerConsumer ∧ header.slotIndex = slot ∧
      header.chunkSize = spec.size ∧
      header.bumpPtr = payloadStart base + spec.size
  active : ∀ base header, heap.header base = some header →
    header.retired = false → heap.mapped base = true ∧
      heap.bumps (header.ownerTid, slot) =
        ⟨piece (payloadStart base) spec.size (handedOut base),
          segmentEnd layout base⟩
  cursor : ∀ tid, retiring ≠ some tid →
    (heap.bumps (tid, slot)).limit ≠ 0 → ∃ base header,
      heap.header base = some header ∧ header.retired = false ∧
      header.ownerTid = tid ∧
      (heap.bumps (tid, slot)).limit = segmentEnd layout base
  handedOut_eq : ∀ base, heap.header base = none → handedOut base = 0
  handedOut_pos : ∀ base header, heap.header base = some header →
    0 < handedOut base
  fits : ∀ base, ∀ number < handedOut base, number = 0 ∨
    piece (payloadStart base) spec.size number + spec.size <
      segmentEnd layout base
  remoteHead : ∀ base header, heap.header base = some header →
    header.retired = false → heap.remoteLog base = [] → header.remoteHead = 0
  remoteChain : pointerSize ≤ spec.size →
    ∀ base header, heap.header base = some header → header.retired = false →
      Chain 0 (readWord heap.memory) header.remoteHead (heap.remoteLog base)
  remoteServed : ∀ base header, heap.header base = some header →
    header.retired = false → ∀ node ∈ heap.remoteLog base,
      ServedFrom spec.size (handedOut base) base node ∧
        node ∉ held.map Chunk.ptr
  balance : ∀ base header, heap.header base = some header →
    header.retired = false →
      handedOut base = heldIn layout held base + (heap.remoteLog base).length
  heldServed : ∀ chunk ∈ held, chunk.size = spec.size ∧
    ∃ base, ServedFrom spec.size (handedOut base) base chunk.ptr
  heldNodup : (held.map Chunk.ptr).Nodup

section Facts

variable {layout : SegmentLayout} {spec : RoutineSpec} {slot : ℕ}
variable {heap : Heap} {held : List Chunk} {handedOut : ℕ → ℕ}
variable {retiring : Option ℕ}

theorem pcInv_initial (layout : SegmentLayout) (spec : RoutineSpec)
    (slot : ℕ) (slotToSite : ℕ → ℕ) :
    PcInv layout spec slot { Heap.empty with slotToSite := slotToSite } []
      (fun _ => 0) none where
  registry := registryOk_empty slotToSite
  headers := by simp [Heap.empty]
  active := by simp [Heap.empty]
  cursor := by simp [Heap.empty]
  handedOut_eq := fun _ _ => rfl
  handedOut_pos := by simp [Heap.empty]
  fits := by simp
  remoteHead := by simp [Heap.empty]
  remoteChain := by simp [Heap.empty]
  remoteServed := by simp [Heap.empty]
  balance := by simp [Heap.empty]
  heldServed := by simp
  heldNodup := List.nodup_nil

/-- The segment of a chunk that was handed out. -/
theorem PcInv.served
    (hinv : PcInv layout spec slot heap held handedOut retiring)
    (hsize : spec.size < 4096) {base ptr : ℕ}
    (hserved : ServedFrom spec.size (handedOut base) base ptr) :
    (∃ header, heap.header base = some header) ∧ layout.segmentSize ∣ base ∧
      payloadStart base ≤ ptr ∧ ptr + spec.size < segmentEnd layout base + 64 ∧
      segmentOf layout ptr = base := by
  obtain ⟨number, hnumber, rfl⟩ := hserved
  have hheader : ∃ header, heap.header base = some header := by
    by_contra hnone
    have hzero := hinv.handedOut_eq base (by
      cases h : heap.header base with
      | none => rfl
      | some header => exact absurd ⟨header, h⟩ hnone)
    omega
  have hdvd : layout.segmentSize ∣ base := by
    obtain ⟨header, hheader⟩ := hheader
    exact (hinv.registry.placed base header hheader).2.1
  have hlow := start_le_piece (payloadStart base) spec.size number
  have hge := segmentSize_ge layout
  have hhigh : piece (payloadStart base) spec.size number + spec.size <
      segmentEnd layout base + 64 := by
    rcases hinv.fits base number hnumber with rfl | h
    · rw [piece_zero]
      unfold payloadStart headerSize segmentEnd
      omega
    · omega
  have hinside : piece (payloadStart base) spec.size number <
      segmentEnd layout base := by
    rcases hinv.fits base number hnumber with rfl | h
    · rw [piece_zero]
      unfold payloadStart headerSize segmentEnd
      omega
    · omega
  exact ⟨hheader, hdvd, hlow, hhigh, segmentOf_eq hdvd
    ((Nat.le_add_right _ _).trans hlow) hinside⟩

/-- Chunks that were handed out do not overlap.  Only the first chunk of a
segment can run over its end, and then by less than a header. -/
theorem PcInv.disjoint
    (hinv : PcInv layout spec slot heap held handedOut retiring)
    (hsize : spec.size < 4096) {base other ptr ptr' : ℕ}
    (hserved : ServedFrom spec.size (handedOut base) base ptr)
    (hserved' : ServedFrom spec.size (handedOut other) other ptr')
    (hne : ptr ≠ ptr') :
    Carving.Disjoint ptr spec.size ptr' spec.size := by
  obtain ⟨_, hdvd, hlow, hhigh, _⟩ := hinv.served hsize hserved
  obtain ⟨_, hdvd', hlow', hhigh', _⟩ := hinv.served hsize hserved'
  by_cases heq : base = other
  · subst heq
    obtain ⟨number, _, rfl⟩ := hserved
    obtain ⟨number', _, rfl⟩ := hserved'
    exact piece_disjoint _ _ fun h => hne (h ▸ rfl)
  · unfold payloadStart headerSize at hlow hlow'
    rcases segment_disjoint hdvd hdvd' heq with h | h
    · exact Or.inl (by omega)
    · exact Or.inr (by omega)

theorem PcInv.ptr_lt
    (hinv : PcInv layout spec slot heap held handedOut retiring)
    (hsize : spec.size < 4096) {base ptr : ℕ}
    (hserved : ServedFrom spec.size (handedOut base) base ptr) :
    0 < ptr ∧ ptr < 2 ^ 64 := by
  obtain ⟨⟨header, hheader⟩, _, hlow, hhigh, _⟩ := hinv.served hsize hserved
  have hplaced := (hinv.registry.placed base header hheader).2.2
  unfold payloadStart headerSize at hlow
  unfold segmentEnd at hhigh
  omega

theorem PcInv.remoteHead_lt
    (hinv : PcInv layout spec slot heap held handedOut retiring)
    (hsize : spec.size < 4096) (hroom : pointerSize ≤ spec.size) {base : ℕ}
    {header : SegmentHeader} (hheader : heap.header base = some header)
    (hactive : header.retired = false) : header.remoteHead < 2 ^ 64 := by
  rcases (hinv.remoteChain hroom base header hheader hactive).head_mem with
    hnull | hmem
  · rw [hnull]
    norm_num
  · exact (hinv.ptr_lt hsize
      (hinv.remoteServed base header hheader hactive _ hmem).1).2

/-- Held chunks do not overlap. -/
theorem PcInv.held_disjoint
    (hinv : PcInv layout spec slot heap held handedOut retiring)
    (hsize : spec.size < 4096) {left right : Chunk} (hleft : left ∈ held)
    (hright : right ∈ held) (hne : left.ptr ≠ right.ptr) :
    Carving.Disjoint left.ptr left.size right.ptr right.size := by
  obtain ⟨hleftSize, base, hserved⟩ := hinv.heldServed left hleft
  obtain ⟨hrightSize, other, hserved'⟩ := hinv.heldServed right hright
  rw [hleftSize, hrightSize]
  exact hinv.disjoint hsize hserved hserved' hne

end Facts

/-! ## Operations -/

section Operations

variable {layout : SegmentLayout} {spec : RoutineSpec} {slot : ℕ}
variable {heap : Heap} {held : List Chunk} {handedOut : ℕ → ℕ}
variable {retiring : Option ℕ}

/-- Bytes may change inside a chunk that is on no queue; where chunks are too
small for a link, nothing is promised about memory. -/
theorem PcInv.setMemory
    (hinv : PcInv layout spec slot heap held handedOut retiring)
    (hsize : spec.size < 4096) {base ptr : ℕ} (memory : Memory)
    (hserved : ServedFrom spec.size (handedOut base) base ptr)
    (hfree : ∀ base header, heap.header base = some header →
      header.retired = false → ptr ∉ heap.remoteLog base)
    (hmemory : pointerSize ≤ spec.size → ∀ address,
      address < ptr ∨ ptr + spec.size ≤ address →
      memory address = heap.memory address) :
    PcInv layout spec slot { heap with memory := memory } held handedOut
      retiring := by
  refine { hinv with
    registry := hinv.registry.congr (fun _ h => h) (fun _ h => h) rfl rfl
    remoteChain := ?_ }
  intro hroom other header hheader hactive
  refine (hinv.remoteChain hroom other header hheader hactive).congr ?_
  intro node hnode
  have hother := (hinv.remoteServed other header hheader hactive node hnode).1
  have hne : node ≠ ptr := by
    rintro rfl
    exact hfree other header hheader hactive hnode
  have hdisjoint := hinv.disjoint hsize hother hserved hne
  refine readWord_congr fun address hlow hhigh => hmemory hroom address ?_
  unfold pointerSize at hroom
  rcases hdisjoint with h | h <;> omega

/-- The header and the queue of one segment change, and chunks of that segment
are given up by their holders.  What an active header must satisfy afterwards is
asked for; a retired one need not satisfy anything. -/
theorem PcInv.setHeader
    (hinv : PcInv layout spec slot heap held handedOut retiring) {base : ℕ}
    {before : SegmentHeader} (after : SegmentHeader) (log : List ℕ)
    {held' : List Chunk} (retiring' : Option ℕ)
    (hbefore : heap.header base = some before)
    (hkind : after.strategy = before.strategy ∧
      after.slotIndex = before.slotIndex ∧
      after.chunkSize = before.chunkSize ∧ after.bumpPtr = before.bumpPtr ∧
      after.ownerTid = before.ownerTid)
    (hsub : held'.Sublist held)
    (hcount : ∀ other ≠ base,
      heldIn layout held' other = heldIn layout held other)
    (hretiring : ∀ tid, retiring' ≠ some tid → retiring ≠ some tid)
    (hretired : after.retired = true →
      before.retired = true ∨ retiring' = some before.ownerTid)
    (hactive : after.retired = false → before.retired = false ∧
      (log = [] → after.remoteHead = 0) ∧
      (pointerSize ≤ spec.size →
        Chain 0 (readWord heap.memory) after.remoteHead log) ∧
      (∀ node ∈ log, ServedFrom spec.size (handedOut base) base node ∧
        node ∉ held'.map Chunk.ptr) ∧
      handedOut base = heldIn layout held' base + log.length) :
    PcInv layout spec slot { heap.storeHeader base after with
      remoteLog := Function.update heap.remoteLog base log } held' handedOut
      retiring' := by
  obtain ⟨hstrategy, hslot, hchunkSize, hbumpPtr, howner⟩ := hkind
  have hregistry := hinv.registry.storeHeader after hbefore
  exact
  { registry := hregistry.congr (fun _ h => h) (fun _ h => h) rfl rfl
    headers := by
      intro other header hheader
      rcases storeHeader_eq_some.mp hheader with ⟨rfl, rfl⟩ | ⟨_, hother⟩
      · rw [hstrategy, hslot, hchunkSize, hbumpPtr]
        exact hinv.headers _ _ hbefore
      · exact hinv.headers _ _ hother
    active := by
      intro other header hheader hr
      rcases storeHeader_eq_some.mp hheader with ⟨rfl, rfl⟩ | ⟨_, hother⟩
      · rw [howner]
        exact hinv.active _ _ hbefore (hactive hr).1
      · exact hinv.active _ _ hother hr
    cursor := by
      intro tid htid hlimit
      obtain ⟨other, header, hheader, hr, htidEq, hlimitEq⟩ :=
        hinv.cursor tid (hretiring tid htid) hlimit
      by_cases heq : other = base
      · subst heq
        obtain rfl := Option.some.inj (hbefore.symm.trans hheader)
        refine ⟨other, after, storeHeader_eq_some.mpr (Or.inl ⟨rfl, rfl⟩), ?_,
          howner.trans htidEq, hlimitEq⟩
        by_contra hne
        rcases hretired (by simpa using hne) with h | h
        · simp [hr] at h
        · exact htid (htidEq ▸ h)
      · exact ⟨other, header, storeHeader_eq_some.mpr (Or.inr ⟨heq, hheader⟩),
          hr, htidEq, hlimitEq⟩
    handedOut_eq := by
      intro other hother
      refine hinv.handedOut_eq other ?_
      by_cases heq : other = base
      · simp [Heap.storeHeader, heq] at hother
      · simpa [Heap.storeHeader, heq] using hother
    handedOut_pos := by
      intro other header hheader
      rcases storeHeader_eq_some.mp hheader with ⟨rfl, rfl⟩ | ⟨_, hother⟩
      · exact hinv.handedOut_pos _ _ hbefore
      · exact hinv.handedOut_pos _ _ hother
    fits := hinv.fits
    remoteHead := by
      intro other header hheader hr hlog
      rcases storeHeader_eq_some.mp hheader with ⟨rfl, rfl⟩ | ⟨hne, hother⟩
      · exact (hactive hr).2.1 (by simpa using hlog)
      · exact hinv.remoteHead _ _ hother hr (by simpa [hne] using hlog)
    remoteChain := by
      intro hroom other header hheader hr
      rcases storeHeader_eq_some.mp hheader with ⟨rfl, rfl⟩ | ⟨hne, hother⟩
      · simp only [Function.update_self]
        exact (hactive hr).2.2.1 hroom
      · simp only [Function.update_of_ne hne]
        exact hinv.remoteChain hroom _ _ hother hr
    remoteServed := by
      intro other header hheader hr node hnode
      rcases storeHeader_eq_some.mp hheader with ⟨rfl, rfl⟩ | ⟨hne, hother⟩
      · exact (hactive hr).2.2.2.1 node (by simpa using hnode)
      · obtain ⟨hserved, hfree⟩ := hinv.remoteServed _ _ hother hr node
          (by simpa [hne] using hnode)
        exact ⟨hserved, fun hmem => hfree ((hsub.map _).subset hmem)⟩
    balance := by
      intro other header hheader hr
      rcases storeHeader_eq_some.mp hheader with ⟨rfl, rfl⟩ | ⟨hne, hother⟩
      · simpa using (hactive hr).2.2.2.2
      · simpa [hne, hcount other hne] using hinv.balance _ _ hother hr
    heldServed := fun chunk hchunk =>
      hinv.heldServed chunk (hsub.subset hchunk)
    heldNodup := hinv.heldNodup.sublist (hsub.map _) }

/-! ### Serving -/

/-- Handing out one more chunk keeps what was handed out before. -/
theorem ServedFrom.mono {size base other count ptr : ℕ} {handedOut : ℕ → ℕ}
    (hcount : handedOut base ≤ count)
    (hserved : ServedFrom size (handedOut other) other ptr) :
    ServedFrom size (Function.update handedOut base count other) other ptr := by
  obtain ⟨number, hnumber, hptr⟩ := hserved
  by_cases heq : other = base
  · subst heq
    exact ⟨number, by rw [Function.update_self]; omega, hptr⟩
  · exact ⟨number, by rwa [Function.update_of_ne heq], hptr⟩

/-- The next chunk of a segment has not been handed out. -/
theorem PcInv.not_served
    (hinv : PcInv layout spec slot heap held handedOut retiring)
    (hpos : 0 < spec.size) (hsize : spec.size < 4096) {base : ℕ} (other : ℕ)
    (hsegment : segmentOf layout
      (piece (payloadStart base) spec.size (handedOut base)) = base) :
    ¬ ServedFrom spec.size (handedOut other) other
      (piece (payloadStart base) spec.size (handedOut base)) := by
  intro hserved
  obtain ⟨_, _, _, _, hother⟩ := hinv.served hsize hserved
  obtain rfl : base = other := hsegment.symm.trans hother
  obtain ⟨number, hnumber, heq⟩ := hserved
  exact hnumber.ne' (piece_injective _ hpos heq)

theorem heldIn_cons (ptr size base : ℕ) :
    heldIn layout (⟨ptr, size⟩ :: held) base =
      heldIn layout held base + if segmentOf layout ptr = base then 1 else 0 := by
  simp [heldIn, List.countP_cons]

/-- The fast path hands out the chunk at the owner's cursor. -/
theorem PcInv.fastPath
    (hinv : PcInv layout spec slot heap held handedOut none)
    (hpos : 0 < spec.size) (hsize : spec.size < 4096) {tid : ℕ}
    (hroom : (heap.bumps (tid, slot)).ptr + spec.size <
      (heap.bumps (tid, slot)).limit) :
    PcInv layout spec slot
      { heap with
        bumps := Function.update heap.bumps (tid, slot)
          { heap.bumps (tid, slot) with
            ptr := (heap.bumps (tid, slot)).ptr + spec.size } }
      (⟨(heap.bumps (tid, slot)).ptr, spec.size⟩ :: held)
      (Function.update handedOut
        (segmentOf layout (heap.bumps (tid, slot)).ptr)
        (handedOut (segmentOf layout (heap.bumps (tid, slot)).ptr) + 1))
      none := by
  obtain ⟨base, header, hheader, hactive, howner, _⟩ :=
    hinv.cursor tid (by simp) (by omega)
  obtain ⟨_, hcursor⟩ := hinv.active base header hheader hactive
  rw [howner] at hcursor
  rw [hcursor] at hroom ⊢
  have hdvd := (hinv.registry.placed base header hheader).2.1
  have hsegment : segmentOf layout (piece (payloadStart base) spec.size
      (handedOut base)) = base := by
    refine segmentOf_eq hdvd ((Nat.le_add_right _ _).trans
      (start_le_piece _ _ _)) ?_
    simp only at hroom
    omega
  have hnew := fun other => hinv.not_served hpos hsize other hsegment
  -- Only one active segment belongs to the thread.
  have howned : ∀ other header', heap.header other = some header' →
      header'.retired = false → header'.ownerTid = tid → other = base := by
    intro other header' hother hr htid
    obtain ⟨_, hcursor'⟩ := hinv.active other header' hother hr
    rw [htid, hcursor, BumpSlot.mk.injEq] at hcursor'
    unfold segmentEnd at hcursor'
    omega
  simp only [hsegment] at hroom ⊢
  exact
  { registry := hinv.registry.congr (fun _ h => h) (fun _ h => h) rfl rfl
    headers := hinv.headers
    active := by
      intro other header' hother hr
      obtain ⟨hmapped, hbumps⟩ := hinv.active other header' hother hr
      refine ⟨hmapped, ?_⟩
      by_cases htid : header'.ownerTid = tid
      · obtain rfl := howned other header' hother hr htid
        simp [htid, piece_succ]
      · have hne : other ≠ base := by
          rintro rfl
          obtain rfl := Option.some.inj (hheader.symm.trans hother)
          exact htid howner
        simpa [htid, hne] using hbumps
    cursor := by
      intro tid' _ hlimit
      by_cases htid : tid' = tid
      · subst htid
        exact ⟨base, header, hheader, hactive, howner, by simp⟩
      · simp only [Function.update_of_ne (show (tid', slot) ≠ (tid, slot) from
          fun h => htid (Prod.mk.inj h).1)] at hlimit ⊢
        exact hinv.cursor tid' (by simp) hlimit
    handedOut_eq := by
      intro other hother
      have hne : other ≠ base := by
        rintro rfl
        simp [hheader] at hother
      rw [Function.update_of_ne hne]
      exact hinv.handedOut_eq other hother
    handedOut_pos := by
      intro other header' hother
      by_cases heq : other = base
      · simp [heq]
      · rw [Function.update_of_ne heq]
        exact hinv.handedOut_pos other header' hother
    fits := by
      intro other number hnumber
      by_cases heq : other = base
      · subst heq
        rw [Function.update_self] at hnumber
        rcases Nat.lt_succ_iff_lt_or_eq.mp hnumber with h | rfl
        · exact hinv.fits other number h
        · exact Or.inr hroom
      · rw [Function.update_of_ne heq] at hnumber
        exact hinv.fits other number hnumber
    remoteHead := hinv.remoteHead
    remoteChain := hinv.remoteChain
    remoteServed := by
      intro other header' hother hr node hnode
      obtain ⟨hserved, hfree⟩ :=
        hinv.remoteServed other header' hother hr node hnode
      refine ⟨hserved.mono (Nat.le_succ _), ?_⟩
      rw [List.map_cons, List.mem_cons, not_or]
      refine ⟨fun heq => ?_, hfree⟩
      subst heq
      exact hnew other hserved
    balance := by
      intro other header' hother hr
      have hbalance := hinv.balance other header' hother hr
      rw [heldIn_cons, hsegment]
      by_cases heq : other = base
      · subst heq
        simp only [Function.update_self, if_true]
        omega
      · rw [Function.update_of_ne heq, if_neg (Ne.symm heq)]
        exact hbalance
    heldServed := by
      intro chunk hchunk
      rcases List.mem_cons.mp hchunk with rfl | hchunk
      · exact ⟨rfl, base, handedOut base, by rw [Function.update_self]; omega,
          rfl⟩
      · obtain ⟨hchunkSize, other, hserved⟩ := hinv.heldServed chunk hchunk
        exact ⟨hchunkSize, other, hserved.mono (Nat.le_succ _)⟩
    heldNodup := by
      refine List.nodup_cons.mpr ⟨fun hmem => ?_, hinv.heldNodup⟩
      obtain ⟨chunk, hchunk, hptr⟩ := List.mem_map.mp hmem
      obtain ⟨_, other, hserved⟩ := hinv.heldServed chunk hchunk
      rw [hptr] at hserved
      exact hnew other hserved }

/-- The refill retires the thread's active segment. -/
theorem PcInv.retire
    (hinv : PcInv layout spec slot heap held handedOut none) {base : ℕ}
    {header : SegmentHeader} (liveChunks : ℕ)
    (hheader : heap.header base = some header) :
    PcInv layout spec slot
      { heap.storeHeader base
          { header with
            remoteHead := 0
            liveChunks := liveChunks
            retired := true } with
        remoteLog := Function.update heap.remoteLog base [] }
      held handedOut (some header.ownerTid) :=
  hinv.setHeader _ _ _ hheader ⟨rfl, rfl, rfl, rfl, rfl⟩
    (List.Sublist.refl _)
    (fun _ _ => rfl) (by simp) (fun _ => Or.inr rfl) (by simp)

/-- A fresh segment for a thread that has no active one. -/
theorem PcInv.bumped
    (hinv : PcInv layout spec slot heap held handedOut retiring)
    (hpos : 0 < spec.size) (hsize : spec.size < 4096) {tid base : ℕ}
    {heap' : Heap} (hfresh : Fresh layout heap base)
    (hretiring : retiring = none ∨ retiring = some tid)
    (hnone : ∀ other header, heap.header other = some header →
      header.retired = false → header.ownerTid ≠ tid)
    (hbumped : Bumped layout .producerConsumer tid slot spec.size base heap
      heap') :
    PcInv layout spec slot heap' (⟨payloadStart base, spec.size⟩ :: held)
      (Function.update handedOut base (handedOut base + 1)) none := by
  obtain ⟨fresh, hheader, hstrategy, hslot, howner, hchunkSize, hbumpPtr,
    hremote, hactive, _⟩ := hbumped.header
  have hzero := hinv.handedOut_eq base hfresh.2.2.2
  have hkeep : ∀ other, other ≠ base →
      heap'.header other = heap.header other := by
    intro other hne
    rw [hheader, Function.update_of_ne hne]
  have hself : heap'.header base = some fresh := by
    rw [hheader, Function.update_self]
  have hsegment : segmentOf layout (payloadStart base) = base := by
    have := segmentSize_ge layout
    refine segmentOf_eq hfresh.2.1 (Nat.le_add_right _ _) ?_
    unfold payloadStart headerSize segmentEnd
    omega
  have hnew : ∀ other, ¬ ServedFrom spec.size (handedOut other) other
      (payloadStart base) := by
    intro other
    have := hinv.not_served hpos hsize other
      (by rw [hzero, piece_zero]; exact hsegment)
    rwa [hzero, piece_zero] at this
  exact
  { registry := hbumped.registry hinv.registry
    headers := by
      intro other header hother
      by_cases heq : other = base
      · obtain rfl := Option.some.inj (hself.symm.trans (heq ▸ hother))
        exact ⟨hstrategy, hslot, hchunkSize, heq ▸ hbumpPtr⟩
      · exact hinv.headers other header (hkeep other heq ▸ hother)
    active := by
      intro other header hother hr
      rw [hbumped.mapped, hbumped.bumps]
      by_cases heq : other = base
      · obtain rfl := Option.some.inj (hself.symm.trans (heq ▸ hother))
        simp [heq, howner, hzero, piece]
      · rw [hkeep other heq] at hother
        obtain ⟨hmapped, hcursor⟩ := hinv.active other header hother hr
        have htid := hnone other header hother hr
        rw [Function.update_of_ne heq, Function.update_of_ne heq,
          Function.update_of_ne fun h => htid (Prod.mk.inj h).1]
        exact ⟨hmapped, hcursor⟩
    cursor := by
      intro tid' _ hlimit
      rw [hbumped.bumps] at hlimit ⊢
      by_cases htid : tid' = tid
      · subst htid
        exact ⟨base, fresh, hself, hactive, howner, by simp⟩
      · rw [Function.update_of_ne fun h => htid (Prod.mk.inj h).1] at hlimit ⊢
        obtain ⟨other, header, hother, hrest⟩ := hinv.cursor tid' (by
          rcases hretiring with h | h
          · simp [h]
          · simpa [h] using Ne.symm htid) hlimit
        refine ⟨other, header, ?_, hrest⟩
        rw [hkeep other (hfresh.ne hother)]
        exact hother
    handedOut_eq := by
      intro other hother
      have hne : other ≠ base := by
        rintro rfl
        simp [hself] at hother
      rw [Function.update_of_ne hne]
      exact hinv.handedOut_eq other (hkeep other hne ▸ hother)
    handedOut_pos := by
      intro other header hother
      by_cases heq : other = base
      · simp [heq]
      · rw [Function.update_of_ne heq]
        exact hinv.handedOut_pos other header (hkeep other heq ▸ hother)
    fits := by
      intro other number hnumber
      by_cases heq : other = base
      · subst heq
        rw [Function.update_self, hzero] at hnumber
        exact Or.inl (by omega)
      · rw [Function.update_of_ne heq] at hnumber
        exact hinv.fits other number hnumber
    remoteHead := by
      intro other header hother hr hlog
      by_cases heq : other = base
      · obtain rfl := Option.some.inj (hself.symm.trans (heq ▸ hother))
        exact hremote
      · rw [hbumped.remoteLog, Function.update_of_ne heq] at hlog
        exact hinv.remoteHead other header (hkeep other heq ▸ hother) hr hlog
    remoteChain := by
      intro hroom other header hother hr
      rw [hbumped.remoteLog]
      by_cases heq : other = base
      · obtain rfl := Option.some.inj (hself.symm.trans (heq ▸ hother))
        simp [heq, hremote]
      · rw [hkeep other heq] at hother
        rw [Function.update_of_ne heq]
        refine (hinv.remoteChain hroom other header hother hr).congr ?_
        intro node hnode
        obtain ⟨_, hdvd, hlow, hhigh, _⟩ := hinv.served hsize
          (hinv.remoteServed other header hother hr node hnode).1
        obtain ⟨number, hnumber, rfl⟩ :=
          (hinv.remoteServed other header hother hr node hnode).1
        refine readWord_congr fun address hge hlt => hbumped.memory address ?_
        have hsegmentSize := segmentSize_ge layout
        have hinside : piece (payloadStart other) spec.size number + 8 ≤
            segmentEnd layout other := by
          unfold pointerSize at hroom
          rcases hinv.fits other number hnumber with rfl | h
          · rw [piece_zero]
            unfold payloadStart headerSize segmentEnd
            omega
          · omega
        have hlow' := (Nat.le_add_right other headerSize).trans hlow
        rcases segment_disjoint hdvd hfresh.2.1 heq with h | h
        · exact Or.inl (by omega)
        · exact Or.inr (by omega)
    remoteServed := by
      intro other header hother hr node hnode
      rw [hbumped.remoteLog] at hnode
      have hne : other ≠ base := by
        rintro rfl
        simp at hnode
      rw [Function.update_of_ne hne] at hnode
      obtain ⟨hserved, hfree⟩ := hinv.remoteServed other header
        (hkeep other hne ▸ hother) hr node hnode
      refine ⟨hserved.mono (Nat.le_succ _), ?_⟩
      rw [List.map_cons, List.mem_cons, not_or]
      refine ⟨fun heq => ?_, hfree⟩
      subst heq
      exact hnew other hserved
    balance := by
      intro other header hother hr
      rw [heldIn_cons, hsegment, hbumped.remoteLog]
      by_cases heq : other = base
      · -- No chunk of the new segment was held before it existed.
        have hnoneHeld : heldIn layout held other = 0 := by
          refine List.countP_eq_zero.mpr fun chunk hchunk => ?_
          obtain ⟨_, other', hserved⟩ := hinv.heldServed chunk hchunk
          obtain ⟨⟨header', hheader'⟩, _, _, _, hsegment'⟩ :=
            hinv.served hsize hserved
          intro hin
          have hsame : segmentOf layout chunk.ptr = other := by simpa using hin
          rw [← hsegment', hsame] at hheader'
          exact hfresh.ne hheader' heq
        rw [heq] at hnoneHeld
        simp [hnoneHeld, heq, hzero]
      · rw [Function.update_of_ne heq, Function.update_of_ne heq,
          if_neg (Ne.symm heq)]
        exact hinv.balance other header (hkeep other heq ▸ hother) hr
    heldServed := by
      intro chunk hchunk
      rcases List.mem_cons.mp hchunk with rfl | hchunk
      · exact ⟨rfl, base, 0, by rw [Function.update_self]; omega, by simp⟩
      · obtain ⟨hchunkSize', other, hserved⟩ := hinv.heldServed chunk hchunk
        exact ⟨hchunkSize', other, hserved.mono (Nat.le_succ _)⟩
    heldNodup := by
      refine List.nodup_cons.mpr ⟨fun hmem => ?_, hinv.heldNodup⟩
      obtain ⟨chunk, hchunk, hptr⟩ := List.mem_map.mp hmem
      obtain ⟨_, other, hserved⟩ := hinv.heldServed chunk hchunk
      rw [hptr] at hserved
      exact hnew other hserved }

/-- Retirement drains the queue and stores one less its length, no matter how
many chunks were served: the served count is computed from the header's cursor,
which nothing but the initialization of a segment stores. -/
theorem PcInv.pcRetire_eq
    (hinv : PcInv layout spec slot heap held handedOut none)
    (hpos : 0 < spec.size) {active : ℕ} {header : SegmentHeader}
    (hheader : heap.header active = some header)
    (hactive : header.retired = false) :
    pcRetire heap active =
      (walkChain heap.memory header.remoteHead).map fun drained =>
        { heap.storeHeader active
            { header with
              remoteHead := 0
              liveChunks := 1 - drained.length % 2 ^ 32
              retired := true } with
          remoteLog := Function.update heap.remoteLog active [] } := by
  obtain ⟨hmapped, _⟩ := hinv.active active header hheader hactive
  obtain ⟨_, _, hchunkSize, hbumpPtr⟩ := hinv.headers active header hheader
  have hload : heap.loadHeader active = some header :=
    loadHeader_eq_some.mpr ⟨hmapped, hheader⟩
  have hcount : (header.bumpPtr - payloadStart active) /
      header.chunkSize % 2 ^ 32 = 1 := by
    rw [hbumpPtr, hchunkSize, Nat.add_sub_cancel_left, Nat.div_self hpos]
    norm_num
  have hwalk : ∀ after, walkChain (heap.storeHeader active after).memory
      header.remoteHead = walkChain heap.memory header.remoteHead :=
    fun _ => rfl
  simp only [pcRetire, mpscHarvest, hload, Option.bind_eq_bind,
    Option.map_some, Option.bind_some, hcount, hwalk,
    loadHeader_storeHeader hmapped, storeHeader_storeHeader, Option.pure_def]
  cases walkChain heap.memory header.remoteHead <;> rfl

/-- The segment a refill finds behind the thread's cursor. -/
theorem PcInv.segmentOf_limit
    (hinv : PcInv layout spec slot heap held handedOut none) {tid active : ℕ}
    {header : SegmentHeader} (hheader : heap.header active = some header)
    (hlimit : (heap.bumps (tid, slot)).limit = segmentEnd layout active) :
    (heap.bumps (tid, slot)).limit ≠ 0 ∧
      segmentOf layout ((heap.bumps (tid, slot)).limit - 1) = active := by
  have hge := segmentSize_ge layout
  have hdvd := (hinv.registry.placed active header hheader).2.1
  rw [hlimit]
  refine ⟨by unfold segmentEnd; omega, ?_⟩
  refine segmentOf_eq hdvd ?_ ?_ <;> unfold segmentEnd <;> omega

/-- A refill of a thread with an active segment retires it and starts a fresh
one. -/
theorem PcInv.pcRefill_eq
    (hinv : PcInv layout spec slot heap held handedOut none)
    (hpos : 0 < spec.size) {tid active : ℕ} (base : ℕ)
    {header : SegmentHeader} (hheader : heap.header active = some header)
    (hactive : header.retired = false)
    (hlimit : (heap.bumps (tid, slot)).limit = segmentEnd layout active) :
    pcRefill layout tid slot spec.size base heap =
      (walkChain heap.memory header.remoteHead).map fun drained =>
        bumpSegment layout .producerConsumer tid slot spec.size base
          { heap.storeHeader active
              { header with
                remoteHead := 0
                liveChunks := 1 - drained.length % 2 ^ 32
                retired := true } with
            remoteLog := Function.update heap.remoteLog active [] } := by
  obtain ⟨hmapped, _⟩ := hinv.active active header hheader hactive
  obtain ⟨hne, hsegment⟩ := hinv.segmentOf_limit hheader hlimit
  have hdvd := (hinv.registry.placed active header hheader).2.1
  have hload : heap.loadHeader active = some header :=
    loadHeader_eq_some.mpr ⟨hmapped, hheader⟩
  simp only [pcRefill, if_neg hne, hsegment,
    if_pos ((hinv.registry.isManaged_iff hdvd).mpr hmapped), hload,
    Option.bind_eq_bind, Option.bind_some,
    if_pos (hinv.headers active header hheader).1,
    hinv.pcRetire_eq hpos hheader hactive, Option.pure_def]
  cases walkChain heap.memory header.remoteHead <;> rfl

/-- What a refill does: retire the thread's active segment if it has one, then
start a fresh one. -/
theorem PcInv.refill_cases
    (hinv : PcInv layout spec slot heap held handedOut none)
    (hpos : 0 < spec.size) {tid base ptr : ℕ} {heap' : Heap}
    (hfresh : Fresh layout heap base)
    (hrefill : pcRefill layout tid slot spec.size base heap =
      some (heap', ptr)) :
    ptr = payloadStart base ∧
    ((heap.bumps (tid, slot)).limit = 0 ∧
        Bumped layout .producerConsumer tid slot spec.size base heap heap' ∨
      ∃ active header drained, heap.header active = some header ∧
        header.retired = false ∧ header.ownerTid = tid ∧
        (heap.bumps (tid, slot)).limit = segmentEnd layout active ∧
        walkChain heap.memory header.remoteHead = some drained ∧
        Bumped layout .producerConsumer tid slot spec.size base
          { heap.storeHeader active
              { header with
                remoteHead := 0
                liveChunks := 1 - drained.length % 2 ^ 32
                retired := true } with
            remoteLog := Function.update heap.remoteLog active [] } heap') := by
  by_cases hlimit : (heap.bumps (tid, slot)).limit = 0
  · simp only [pcRefill, if_pos hlimit, Option.bind_eq_bind, Option.bind_some,
      Option.pure_def, Option.some.injEq] at hrefill
    have hptr : payloadStart base = ptr := congrArg Prod.snd hrefill
    refine ⟨hptr.symm, Or.inl ⟨hlimit, ?_⟩⟩
    have hheap := congrArg Prod.fst hrefill
    change _ = heap' at hheap
    exact hheap ▸ bumped_bumpSegment _ _ _ _ hfresh
  · obtain ⟨active, header, hheader, hactive, howner, hlimitEq⟩ :=
      hinv.cursor tid (by simp) hlimit
    rw [hinv.pcRefill_eq hpos base hheader hactive hlimitEq,
      Option.map_eq_some_iff] at hrefill
    obtain ⟨drained, hwalk, hserved⟩ := hrefill
    have hptr : payloadStart base = ptr := congrArg Prod.snd hserved
    refine ⟨hptr.symm, Or.inr ⟨active, header, drained, hheader, hactive,
      howner, hlimitEq, hwalk, ?_⟩⟩
    have hne : base ≠ active := (hfresh.ne hheader).symm
    have hheap := congrArg Prod.fst hserved
    change _ = heap' at hheap
    exact hheap ▸ bumped_bumpSegment _ _ _ _
      ⟨hfresh.1, hfresh.2.1, hfresh.2.2.1,
        by simpa [Heap.storeHeader, hne] using hfresh.2.2.2⟩

/-- A refill serves the first chunk of a fresh segment. -/
theorem PcInv.refill
    (hinv : PcInv layout spec slot heap held handedOut none)
    (hpos : 0 < spec.size) (hsize : spec.size < 4096) {tid base ptr : ℕ}
    {heap' : Heap} (hfresh : Fresh layout heap base)
    (hrefill : pcRefill layout tid slot spec.size base heap =
      some (heap', ptr)) :
    segmentOf layout ptr = base ∧
    PcInv layout spec slot heap' (⟨ptr, spec.size⟩ :: held)
      (Function.update handedOut (segmentOf layout ptr)
        (handedOut (segmentOf layout ptr) + 1)) none := by
  have hsegment : segmentOf layout (payloadStart base) = base := by
    have := segmentSize_ge layout
    refine segmentOf_eq hfresh.2.1 (Nat.le_add_right _ _) ?_
    unfold payloadStart headerSize segmentEnd
    omega
  obtain ⟨rfl, hcases⟩ := hinv.refill_cases hpos hfresh hrefill
  refine ⟨hsegment, ?_⟩
  rw [hsegment]
  rcases hcases with ⟨hlimit, hbumped⟩ |
    ⟨active, header, drained, hheader, hactive, howner, hlimit, _, hbumped⟩
  · refine hinv.bumped hpos hsize hfresh (Or.inl rfl) ?_ hbumped
    intro other header hother hr htid
    obtain ⟨_, hcursor⟩ := hinv.active other header hother hr
    have hge := segmentSize_ge layout
    rw [htid] at hcursor
    rw [hcursor] at hlimit
    unfold segmentEnd at hlimit
    simp only at hlimit
    omega
  · have hretired := hinv.retire (1 - drained.length % 2 ^ 32) hheader
    subst howner
    have hne : base ≠ active := (hfresh.ne hheader).symm
    refine hretired.bumped hpos hsize ⟨hfresh.1, hfresh.2.1, hfresh.2.2.1, ?_⟩
      (Or.inr rfl) ?_ hbumped
    · simpa [Heap.storeHeader, hne] using hfresh.2.2.2
    · intro other header' hother hr htid
      rcases storeHeader_eq_some.mp hother with ⟨_, rfl⟩ | ⟨hneActive, hother⟩
      · simp at hr
      · -- Two active segments of one thread would share its cursor.
        obtain ⟨_, hcursor⟩ := hinv.active other header' hother hr
        rw [htid] at hcursor
        rw [hcursor] at hlimit
        unfold segmentEnd at hlimit
        simp only at hlimit
        omega

/-! ### Frees and sweeps -/

theorem heldIn_erase {chunk : Chunk} (hchunk : chunk ∈ held) (base : ℕ) :
    heldIn layout held base = heldIn layout (held.erase chunk) base +
      if segmentOf layout chunk.ptr = base then 1 else 0 := by
  have hperm := List.perm_cons_erase hchunk
  rw [heldIn, hperm.countP_eq, List.countP_cons]
  simp [heldIn]

theorem freeManaged_of_producerConsumer {tid base ptr : ℕ}
    {header : SegmentHeader} (hload : heap.loadHeader base = some header)
    (hstrategy : header.strategy = .producerConsumer) :
    freeManaged heap tid base ptr =
      if header.retired then
        some (heap.storeHeader base
          { header with liveChunks := fetchSub header.liveChunks })
      else mpscPush heap base ptr := by
  simp [freeManaged, hload, hstrategy]

/-- A free of a held chunk by any thread. -/
theorem PcInv.freeManaged
    (hinv : PcInv layout spec slot heap held handedOut none)
    (hsize : spec.size < 4096) {chunk : Chunk} (hchunk : chunk ∈ held)
    {tid : ℕ} {heap' : Heap}
    (hfree : Codegen.freeManaged heap tid (segmentOf layout chunk.ptr)
      chunk.ptr = some heap') :
    PcInv layout spec slot heap' (held.erase chunk) handedOut none := by
  obtain ⟨hchunkSize, base, hserved⟩ := hinv.heldServed chunk hchunk
  obtain ⟨_, _, _, _, hsegment⟩ := hinv.served hsize hserved
  rw [hsegment] at hfree
  obtain ⟨header, hload⟩ : ∃ header, heap.loadHeader base = some header := by
    simp only [Codegen.freeManaged, Option.bind_eq_some_iff] at hfree
    exact ⟨_, hfree.choose_spec.1⟩
  obtain ⟨_, hheader⟩ := loadHeader_eq_some.mp hload
  rw [freeManaged_of_producerConsumer hload
    (hinv.headers base header hheader).1] at hfree
  have hsub : (held.erase chunk).Sublist held := List.erase_sublist
  have hcount : ∀ other ≠ base, heldIn layout (held.erase chunk) other =
      heldIn layout held other := by
    intro other hne
    rw [heldIn_erase hchunk other, hsegment, if_neg (Ne.symm hne), Nat.add_zero]
  by_cases hretired : header.retired = true
  · rw [if_pos hretired, Option.some.injEq] at hfree
    have hset := hinv.setHeader
      { header with liveChunks := fetchSub header.liveChunks }
      (heap.remoteLog base) none hheader ⟨rfl, rfl, rfl, rfl, rfl⟩ hsub hcount
      (by simp)
      (fun _ => Or.inl hretired) (by simp [hretired])
    rw [Function.update_eq_self] at hset
    exact hfree ▸ hset
  · rw [if_neg hretired, mpscPush, hload, Option.map_some,
      Option.some.injEq] at hfree
    have hactive : header.retired = false := by simpa using hretired
    have hheldPtr : chunk.ptr ∈ held.map Chunk.ptr :=
      List.mem_map_of_mem hchunk
    have hnotQueued : ∀ other header', heap.header other = some header' →
        header'.retired = false → chunk.ptr ∉ heap.remoteLog other :=
      fun other header' hother hr hmem =>
        (hinv.remoteServed other header' hother hr _ hmem).2 hheldPtr
    have hperm := (List.perm_cons_erase hchunk).map Chunk.ptr
    have hnodup := List.nodup_cons.mp (hperm.nodup_iff.mp hinv.heldNodup)
    have hwritten := hinv.setMemory hsize
      (writeWord heap.memory chunk.ptr header.remoteHead) hserved hnotQueued
      (fun hroom address haddress => writeWord_outside _ _
        (by unfold pointerSize at hroom; omega))
    have hset := hwritten.setHeader { header with remoteHead := chunk.ptr }
      (chunk.ptr :: heap.remoteLog base) none hheader
      ⟨rfl, rfl, rfl, rfl, rfl⟩ hsub hcount (by simp)
      (fun h => by simp [hactive] at h) (fun _ => ?_)
    · exact hfree ▸ hset
    refine ⟨hactive, by simp, fun hroom => ?_, ?_, ?_⟩
    · -- The new link is written into the chunk that is pushed.
      have hchain := hwritten.remoteChain hroom base header hheader hactive
      exact hchain.push (hinv.ptr_lt hsize hserved).1.ne'
        (readWord_writeWord_same _ _
          (hinv.remoteHead_lt hsize hroom hheader hactive))
        fun _ _ => rfl
    · intro node hnode
      rcases List.mem_cons.mp hnode with rfl | hnode
      · exact ⟨hserved, hnodup.1⟩
      · obtain ⟨hnodeServed, hfreeNode⟩ :=
          hinv.remoteServed base header hheader hactive node hnode
        exact ⟨hnodeServed, fun hmem => hfreeNode ((hsub.map _).subset hmem)⟩
    · have hbalance := hinv.balance base header hheader hactive
      rw [heldIn_erase hchunk, hsegment, if_pos rfl] at hbalance
      rw [List.length_cons]
      omega

/-- A client writes into a chunk it holds. -/
theorem PcInv.write
    (hinv : PcInv layout spec slot heap held handedOut none)
    (hsize : spec.size < 4096) {chunk : Chunk} {offset : ℕ} {byte : UInt8}
    (hchunk : chunk ∈ held) (hoffset : offset < chunk.size) :
    PcInv layout spec slot { heap with
      memory := Function.update heap.memory (chunk.ptr + offset) byte }
      held handedOut none := by
  obtain ⟨hchunkSize, base, hserved⟩ := hinv.heldServed chunk hchunk
  refine hinv.setMemory hsize _ hserved ?_ ?_
  · intro other header hother hr hmem
    exact (hinv.remoteServed other header hother hr _ hmem).2
      (List.mem_map_of_mem hchunk)
  · intro _ address haddress
    exact Function.update_of_ne (by omega) _ _

/-- The holder of a chunk of a segment that is no longer mapped gives it up. -/
theorem PcInv.drop
    (hinv : PcInv layout spec slot heap held handedOut none)
    (hsize : spec.size < 4096) {chunk : Chunk} (hchunk : chunk ∈ held)
    (hunmapped : heap.mapped (segmentOf layout chunk.ptr) ≠ true) :
    PcInv layout spec slot heap (held.erase chunk) handedOut none := by
  obtain ⟨_, base, hserved⟩ := hinv.heldServed chunk hchunk
  obtain ⟨⟨header, hheader⟩, _, _, _, hsegment⟩ := hinv.served hsize hserved
  rw [hsegment] at hunmapped
  have hretired : header.retired = true := by
    by_contra hne
    exact hunmapped (hinv.active base header hheader (by simpa using hne)).1
  have hsub : (held.erase chunk).Sublist held := List.erase_sublist
  have hset := hinv.setHeader header (heap.remoteLog base) none hheader
    ⟨rfl, rfl, rfl, rfl, rfl⟩ hsub
    (fun other hne => by
      rw [heldIn_erase hchunk other, hsegment, if_neg (Ne.symm hne),
        Nat.add_zero])
    (by simp) (fun _ => Or.inl hretired) (by simp [hretired])
  have hsame : heap.storeHeader base header = heap := by
    rw [Heap.storeHeader, ← hheader, Function.update_eq_self]
  rw [Function.update_eq_self, hsame] at hset
  exact hset

/-- A sweep changes no active segment. -/
theorem PcInv.sweep
    (hinv : PcInv layout spec slot heap held handedOut none) {heap' : Heap}
    (hframe : SweepFrame layout heap heap')
    (hregistry : RegistryOk layout heap') :
    PcInv layout spec slot heap' held handedOut none where
  registry := hregistry
  headers := by
    intro base header hheader
    obtain ⟨header', _, hbefore, rfl⟩ := hframe.past hheader
    obtain ⟨hstrategy, hslot, hchunkSize, hbumpPtr⟩ := hinv.headers _ _ hbefore
    exact ⟨hstrategy, hslot, hchunkSize, hbumpPtr⟩
  active := by
    intro base header hheader hactive
    obtain ⟨hbefore, hmapped⟩ := hframe.pastActive hheader hactive
    rw [hmapped, hframe.bumps]
    exact hinv.active base header hbefore hactive
  cursor := by
    intro tid htid hlimit
    rw [hframe.bumps] at hlimit ⊢
    obtain ⟨base, header, hbefore, hactive, hrest⟩ := hinv.cursor tid htid hlimit
    exact ⟨base, header, (hframe.active base header hbefore hactive).1, hactive,
      hrest⟩
  handedOut_eq := by
    intro base hnone
    cases hbefore : heap.header base with
    | none => exact hinv.handedOut_eq base hbefore
    | some header =>
        obtain ⟨_, hafter⟩ := hframe.header_some base header hbefore
        simp [hafter] at hnone
  handedOut_pos := by
    intro base header hheader
    obtain ⟨header', _, hbefore, _⟩ := hframe.past hheader
    exact hinv.handedOut_pos base header' hbefore
  fits := hinv.fits
  remoteHead := by
    intro base header hheader hactive hlog
    exact hinv.remoteHead base header (hframe.pastActive hheader hactive).1
      hactive (hframe.remoteLog ▸ hlog)
  remoteChain := by
    intro hroom base header hheader hactive
    obtain ⟨hbefore, _⟩ := hframe.pastActive hheader hactive
    rw [hframe.remoteLog]
    refine (hinv.remoteChain hroom base header hbefore hactive).congr ?_
    intro node hnode
    obtain ⟨number, hnumber, rfl⟩ :=
      (hinv.remoteServed base header hbefore hactive node hnode).1
    have hlow := start_le_piece (payloadStart base) spec.size number
    refine hframe.readWord_eq hinv.registry hbefore hactive
      ((Nat.le_add_right _ _).trans hlow) ?_
    have hge := segmentSize_ge layout
    unfold pointerSize at hroom
    rcases hinv.fits base number hnumber with rfl | h
    · rw [piece_zero]
      unfold payloadStart headerSize segmentEnd
      omega
    · omega
  remoteServed := by
    intro base header hheader hactive
    rw [hframe.remoteLog]
    exact hinv.remoteServed base header (hframe.pastActive hheader hactive).1
      hactive
  balance := by
    intro base header hheader hactive
    rw [hframe.remoteLog]
    exact hinv.balance base header (hframe.pastActive hheader hactive).1 hactive
  heldServed := hinv.heldServed
  heldNodup := hinv.heldNodup

end Operations

/-! ## Runs -/

section Runs

variable {layout : SegmentLayout} {spec : RoutineSpec} {slot : ℕ}

/-- The invariant of a state of a producer-consumer routine. -/
def PcOk (layout : SegmentLayout) (spec : RoutineSpec) (slot : ℕ)
    (state : RoutineState) : Prop :=
  PcInv layout spec slot state.heap state.held state.handedOut none

/-- A call of the routine serves from the cursor or from a fresh segment. -/
theorem pcRoutine_cases {heap heap' : Heap} {tid request base : ℕ}
    {served : Served}
    (hroutine : pcRoutine layout slot spec.size tid request base heap =
      some (heap', served)) :
    served = .deopt ∧ heap' = heap ∨
    request = spec.size ∧
      ((heap.bumps (tid, slot)).ptr + spec.size <
          (heap.bumps (tid, slot)).limit ∧
        served = .chunk (heap.bumps (tid, slot)).ptr ∧
        heap' = { heap with
          bumps := Function.update heap.bumps (tid, slot)
            { heap.bumps (tid, slot) with
              ptr := (heap.bumps (tid, slot)).ptr + spec.size } } ∨
      ∃ ptr, served = .chunk ptr ∧
        ¬ (heap.bumps (tid, slot)).ptr + spec.size <
          (heap.bumps (tid, slot)).limit ∧
        pcRefill layout tid slot spec.size base heap = some (heap', ptr)) := by
  simp only [pcRoutine] at hroutine
  split at hroutine
  · obtain ⟨rfl, rfl⟩ := Prod.mk.inj (Option.some.inj hroutine)
    exact Or.inl ⟨rfl, rfl⟩
  rename_i hrequest
  refine Or.inr ⟨not_not.mp hrequest, ?_⟩
  split at hroutine
  · rename_i heap'' ptr hfast
    obtain ⟨rfl, rfl⟩ := Prod.mk.inj (Option.some.inj hroutine)
    simp only [bumpFastPath] at hfast
    split at hfast
    · rename_i hroom
      obtain ⟨rfl, rfl⟩ := Prod.mk.inj (Option.some.inj hfast)
      exact Or.inl ⟨hroom, rfl, rfl⟩
    · simp at hfast
  · rename_i hfast
    simp only [Option.map_eq_some_iff] at hroutine
    obtain ⟨⟨heap'', ptr⟩, hrefill, heq⟩ := hroutine
    obtain ⟨rfl, rfl⟩ := Prod.mk.inj heq
    refine Or.inr ⟨ptr, rfl, fun hroom => ?_, hrefill⟩
    simp [bumpFastPath, hroom] at hfast

theorem pcOk_step (hstrategy : spec.strategy = .producerConsumer)
    (hpos : 0 < spec.size) (hsize : spec.size < 4096)
    {state target : RoutineState} {action : RoutineAction}
    (hok : PcOk layout spec slot state)
    (hstep : routineStep layout spec slot state action = some target) :
    PcOk layout spec slot target := by
  unfold PcOk at hok ⊢
  cases action with
  | alloc tid request base =>
      by_cases hfresh : Fresh layout state.heap base
      · simp only [routineStep, if_pos hfresh, Option.map_eq_some_iff, routine,
          hstrategy] at hstep
        obtain ⟨⟨heap', served⟩, hroutine, rfl⟩ := hstep
        rcases pcRoutine_cases hroutine with ⟨rfl, rfl⟩ |
          ⟨rfl, ⟨hroom, rfl, rfl⟩ | ⟨ptr, rfl, _, hrefill⟩⟩
        · exact hok
        · exact hok.fastPath hpos hsize hroom
        · exact (hok.refill hpos hsize hfresh hrefill).2
      · simp [routineStep, hfresh] at hstep
  | write chunk offset byte =>
      by_cases hwrite : chunk ∈ state.held ∧ offset < chunk.size
      · simp only [routineStep, if_pos hwrite, Option.some.injEq] at hstep
        exact hstep ▸ hok.write hsize hwrite.1 hwrite.2
      · simp [routineStep, hwrite] at hstep
  | free tid chunk =>
      by_cases hheld : chunk ∈ state.held
      · simp only [routineStep, if_pos hheld, Option.map_eq_some_iff,
          freeChunk] at hstep
        obtain ⟨heap', hfree, rfl⟩ := hstep
        split at hfree
        · exact hok.freeManaged hsize hheld hfree
        · rename_i hunmanaged
          obtain rfl := Option.some.inj hfree
          exact hok.drop hsize hheld fun hmapped => hunmanaged
            ((hok.registry.isManaged_iff (dvd_segmentOf _)).mpr hmapped)
      · simp [routineStep, hheld] at hstep
  | sweep mode pred pageSize =>
      simp only [routineStep, Option.some.injEq] at hstep
      obtain ⟨hframe, hregistry⟩ := sweepFrame_reaperSweep
        mode pred pageSize hok.registry
      exact hstep ▸ hok.sweep hframe hregistry

/-- The invariant holds in every state a producer-consumer routine reaches. -/
theorem pcOk_reachable (hstrategy : spec.strategy = .producerConsumer)
    (hpos : 0 < spec.size) (hsize : spec.size < 4096) {state : RoutineState}
    (hreach : RoutineReachable layout spec slot state) :
    PcOk layout spec slot state := by
  have hinitial : PcOk layout spec slot (RoutineState.initial spec slot) :=
    pcInv_initial layout spec slot _
  exact Transition.Reachable.invariant hinitial
    (fun _ _ _ hok hstep => pcOk_step hstrategy hpos hsize hok hstep) hreach

end Runs

end TbjitAlloc.Codegen
