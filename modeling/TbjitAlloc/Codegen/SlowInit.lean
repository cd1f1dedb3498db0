import TbjitAlloc.Codegen.Compile
import TbjitAlloc.Core.Carving
import TbjitAlloc.Segment.Heap

/-!
# Refills, first-time initialization and managed frees

The functions the emitted routines call when their fast path fails, and the
strategy switch behind `free`.  Each is one atomic operation of thread `tid`
here; `base` is the range `mmap` returns should the call need a segment.
`none` is a fault or a loop that never ends.

The free-list strategies keep the same two thread-local words per list, a head
and the newest segment, in different arrays.  `ListRef` names one such list, and
the two refill functions are one definition applied to it.
-/

namespace TbjitAlloc.Codegen

open TbjitAlloc.ByteMemory
open TbjitAlloc.Segment

/-- A free list of a thread: `tl_freelists[slot]`, or one class of
`tl_multi_freelists[slot]`. -/
inductive ListRef
  | single (slot : ℕ)
  | sizeClass (slot classIdx : ℕ)
  deriving DecidableEq, Repr

def ListRef.slot : ListRef → ℕ
  | .single slot => slot
  | .sizeClass slot _ => slot

def ListRef.classIdx : ListRef → ℕ
  | .single _ => 0
  | .sizeClass _ classIdx => classIdx

def ListRef.strategy : ListRef → Strategy
  | .single _ => .threadLocalFreeList
  | .sizeClass _ _ => .multiSizeFreeList

def listHead (heap : Heap) (tid : ℕ) : ListRef → ℕ
  | .single slot => (heap.freelists (tid, slot)).head
  | .sizeClass slot classIdx => (heap.multiFreelists (tid, slot)).heads classIdx

def listSegs (heap : Heap) (tid : ℕ) : ListRef → ℕ
  | .single slot => (heap.freelists (tid, slot)).segs
  | .sizeClass slot classIdx => (heap.multiFreelists (tid, slot)).segs classIdx

def setListHead (heap : Heap) (tid : ℕ) (ref : ListRef) (head : ℕ) : Heap :=
  match ref with
  | .single slot =>
      { heap with
        freelists := Function.update heap.freelists (tid, slot)
          { heap.freelists (tid, slot) with head := head } }
  | .sizeClass slot classIdx =>
      let lists := heap.multiFreelists (tid, slot)
      { heap with
        multiFreelists := Function.update heap.multiFreelists
          (tid, slot)
          { lists with heads := Function.update lists.heads classIdx head } }

def setListSegs (heap : Heap) (tid : ℕ) (ref : ListRef) (segs : ℕ) : Heap :=
  match ref with
  | .single slot =>
      { heap with
        freelists := Function.update heap.freelists (tid, slot)
          { heap.freelists (tid, slot) with segs := segs } }
  | .sizeClass slot classIdx =>
      let lists := heap.multiFreelists (tid, slot)
      { heap with
        multiFreelists := Function.update heap.multiFreelists
          (tid, slot)
          { lists with segs := Function.update lists.segs classIdx segs } }

section SlowPaths

variable (layout : SegmentLayout)

/-! ## Bump-shaped strategies -/

/-- The body `bump_slow_init`, `paired_slow_init` and the end of `pc_refill`
share: a fresh segment whose first chunk is handed out. -/
def bumpSegment (strategy : Strategy) (tid slot size base : ℕ)
    (heap : Heap) : Heap × ℕ :=
  let heap := allocSegment layout heap tid strategy slot
    (heap.slotToSite slot) size base
  let start := payloadStart base
  let heap := { heap with
        bumps := Function.update heap.bumps (tid, slot)
          ⟨start + size, segmentEnd layout base⟩ }
  let heap := { heap with
        header := Function.update heap.header base
          ((heap.header base).map fun header =>
          { header with bumpPtr := start + size }) }
  (heap, start)

def bumpSlowInit (tid slot size base : ℕ) (heap : Heap) : Heap × ℕ :=
  bumpSegment layout .bumpAlloc tid slot size base heap

def pairedSlowInit (tid slot size base : ℕ) (heap : Heap) : Heap × ℕ :=
  bumpSegment layout .pairedStack tid slot size base heap

/-- The retirement half of `pc_refill`.  The served count is taken from the
header's cursor; the queue is drained and its length subtracted.  Both counters
have 32 bits. -/
def pcRetire (heap : Heap) (active : ℕ) : Option Heap := do
  let header ← heap.loadHeader active
  let served :=
    (header.bumpPtr - payloadStart active) / header.chunkSize % 2 ^ 32
  let (heap, chain) ← mpscHarvest heap active
  let drained ← walkChain heap.memory chain
  let header ← heap.loadHeader active
  return heap.storeHeader active
    { header with
      liveChunks := served - drained.length % 2 ^ 32
      retired := true }

def pcRefill (tid slot size base : ℕ) (heap : Heap) : Option (Heap × ℕ) := do
  let limit := (heap.bumps (tid, slot)).limit
  let heap ←
    if limit = 0 then some heap
    else
      let active := segmentOf layout (limit - 1)
      if isManaged layout heap active then do
        let header ← heap.loadHeader active
        if header.strategy = .producerConsumer then pcRetire heap active
        else some heap
      else some heap
  return bumpSegment layout .producerConsumer tid slot size base heap

def arenaSlowInit (tid slot size base : ℕ) (heap : Heap) : Heap × ℕ :=
  let heap := allocSegment layout heap tid .epochArena slot
    (heap.slotToSite slot) size base
  let start := payloadStart base
  ({ heap with
        arenas := Function.update heap.arenas (tid, slot)
          ⟨start + size, segmentEnd layout base, start⟩ }, start)

def arenaResetAlloc (tid slot size base : ℕ) (heap : Heap) : Heap × ℕ :=
  let arena := heap.arenas (tid, slot)
  if arena.base = 0 then arenaSlowInit layout tid slot size base heap
  else
    ({ heap with
        arenas := Function.update heap.arenas (tid, slot)
          { arena with ptr := arena.base + size } }, arena.base)

/-! ## Free-list strategies -/

/-- The carving loop: link every chunk that fits to the one before it.  The
fuel bounds the number of chunks; the loop ends as soon as one does not fit. -/
def carveLoop (size limit : ℕ) : ℕ → Memory → ℕ → ℕ → Memory × ℕ
  | 0, memory, _, head => (memory, head)
  | fuel + 1, memory, p, head =>
      if p + size ≤ limit then
        carveLoop size limit fuel (writeWord memory p head) (p + size) p
      else (memory, head)

/-- The part of a refill that replaces the active segment. -/
def refillFresh (ref : ListRef) (tid size base : ℕ)
    (heap : Heap) : Option (Heap × ℕ) :=
  let segs := listSegs heap tid ref
  let heap := allocSegment layout heap tid ref.strategy ref.slot
    (heap.slotToSite ref.slot) size base
  let heap := { heap with
        header := Function.update heap.header base
          ((heap.header base).map fun header =>
          { header with classIdx := ref.classIdx, nextInSite := segs }) }
  let heap := setListSegs heap tid ref base
  let carved := carveLoop size (segmentEnd layout base) layout.segmentSize
    heap.memory (payloadStart base) 0
  let heap := { heap with memory := carved.1 }
  if carved.2 = 0 then none
  else some (setListHead heap tid ref (readWord heap.memory carved.2), carved.2)

/-- Harvest the active segment's remote queue; on a miss retire it and carve a
fresh segment. -/
def refill (ref : ListRef) (tid size base : ℕ)
    (heap : Heap) : Option (Heap × ℕ) := do
  let active := listSegs heap tid ref
  if active = 0 then refillFresh layout ref tid size base heap
  else
    let (heap, harvested) ← mpscHarvest heap active
    if harvested ≠ 0 then
      return (setListHead heap tid ref (readWord heap.memory harvested),
        harvested)
    else
      let header ← heap.loadHeader active
      refillFresh layout ref tid size base
        (heap.storeHeader active
          { header with
            liveChunks := chunksInSegment layout header.chunkSize
            retired := true })

def freelistRefill (slot tid size base : ℕ) (heap : Heap) :
    Option (Heap × ℕ) :=
  refill layout (.single slot) tid size base heap

def multiRefill (slot classIdx tid size base : ℕ) (heap : Heap) :
    Option (Heap × ℕ) :=
  refill layout (.sizeClass slot classIdx) tid size base heap

end SlowPaths

/-! ## Frees -/

/-- `paired_lifo_rewind`: take back the newest chunk, or leave it. -/
def pairedLifoRewind (heap : Heap) (tid base ptr : ℕ)
    (header : SegmentHeader) : Heap :=
  let slot := heap.bumps (tid, header.slotIndex)
  let rewound := slot.ptr - header.chunkSize
  if rewound ≠ ptr then heap
  else
    { heap.storeHeader base { header with bumpPtr := rewound } with
      bumps := Function.update heap.bumps (tid, header.slotIndex)
        { slot with ptr := rewound } }

/-- The branch the two free-list strategies share. -/
def freeToList (heap : Heap) (ref : ListRef) (tid base ptr : ℕ)
    (header : SegmentHeader) : Option Heap :=
  if header.retired then
    some (heap.storeHeader base
      { header with liveChunks := fetchSub header.liveChunks })
  else if header.ownerTid = tid then
    let head := listHead heap tid ref
    some (setListHead { heap with memory := writeWord heap.memory ptr head }
      tid ref ptr)
  else mpscPush heap base ptr

/-- `free_managed` by thread `tid` on a chunk of the segment at `base`. -/
def freeManaged (heap : Heap) (tid base ptr : ℕ) : Option Heap :=
  (heap.loadHeader base).bind fun header =>
    match header.strategy with
    | .producerConsumer =>
        if header.retired then
          some (heap.storeHeader base
            { header with liveChunks := fetchSub header.liveChunks })
        else mpscPush heap base ptr
    | .pairedStack =>
        if header.ownerTid = tid then
          some (pairedLifoRewind heap tid base ptr header)
        else some heap
    | .threadLocalFreeList =>
        freeToList heap (.single header.slotIndex) tid base ptr header
    | .multiSizeFreeList =>
        freeToList heap (.sizeClass header.slotIndex header.classIdx) tid base
          ptr header
    | _ => some heap

end TbjitAlloc.Codegen
