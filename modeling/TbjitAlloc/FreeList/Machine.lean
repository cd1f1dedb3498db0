import TbjitAlloc.Codegen.ListFamily

/-!
# One free list, step by step

A free list is shared by its owner, which allocates from it, by every thread
that frees one of its chunks, and by the reaper.  Here each of them is a program
counter, and a step is one access to a list word, a header field or a chunk's
link, one compare-and-swap or one exchange.  The strategy, slot, class and chunk
size in a header are written before the segment's first chunk is served and
never again, so reading them is part of the access they lead to.

Initializing a header is one step, because nobody else knows the segment before
it is registered, and so is linking the chunks of a payload, because nobody else
has a chunk of it.  `place` records where each chunk is; the program never reads
it.  It only keeps clients to chunks they hold.
-/

namespace TbjitAlloc.FreeList

open TbjitAlloc.ByteMemory
open TbjitAlloc.Codegen
open TbjitAlloc.Segment

/-- A list, the thread that owns it and its chunk size, in one process. -/
structure ListConfig where
  layout : SegmentLayout
  ref : ListRef
  owner : ℕ
  size : ℕ
  mode : ReapMode
  pageSize : ℕ
  size_ge : pointerSize ≤ size
  size_lt : size < maxSize
  class_lt : ref.classIdx < multiMaxClasses

inductive Place
  | uncarved
  | held
  | listed
  | queued
  | freeing (tid : ℕ)
  | returned
  deriving DecidableEq, Repr

/-- The owner's allocation.  The emitted pop, a refill from the remote queue and
a refill from a fresh segment end alike: read the link of the chunk to serve,
store it as the head, return the chunk. -/
inductive AllocPc
  | idle
  | serveLink (chunk : ℕ)
  | serveStore (chunk link : ℕ)
  | refill
  | harvest (active : ℕ)
  | retireCount (active : ℕ)
  | retireFlag (active : ℕ)
  | map
  | register (base : ℕ)
  | storeClass (base : ℕ)
  | readSegs (base : ℕ)
  | storeNext (base segs : ℕ)
  | storeSegs (base : ℕ)
  | carve (base : ℕ)
  deriving DecidableEq, Repr

/-- A call of `free_managed`. -/
inductive FreePc
  | readRetired (ptr : ℕ)
  | fetchSub (ptr : ℕ)
  | readOwner (ptr : ℕ)
  | readHead (ptr : ℕ)
  | storeLink (ptr head : ℕ)
  | storeHead (ptr : ℕ)
  | pushLoad (ptr : ℕ)
  | pushLink (ptr cur : ℕ)
  | pushSwap (ptr cur : ℕ)
  deriving DecidableEq, Repr

/-- The chunk a call frees. -/
def FreePc.ptr : FreePc → ℕ
  | .readRetired ptr | .fetchSub ptr | .readOwner ptr | .readHead ptr
  | .storeLink ptr _ | .storeHead ptr | .pushLoad ptr | .pushLink ptr _
  | .pushSwap ptr _ => ptr

/-- A call of `reaper_sweep`.  It scans the first `count` entries of the index
under the lock and then reclaims what it selected. -/
inductive SweepPc
  | idle
  | scan (i count : ℕ) (selected : List ℕ)
  | scanLive (i count : ℕ) (selected : List ℕ) (base : ℕ)
  | scanGate (i count : ℕ) (selected : List ℕ) (base : ℕ)
  | reclaim (selected : List ℕ)
  | unmap (base : ℕ) (rest : List ℕ)
  | mark (base : ℕ) (rest : List ℕ)
  deriving DecidableEq, Repr

structure Machine where
  heap : Heap
  alloc : AllocPc
  frees : ℕ → Option FreePc
  sweeps : ℕ → SweepPc
  /-- The sweep that holds the index lock. -/
  lock : Option ℕ
  place : ℕ → Place

def Machine.initial (slotToSite : ℕ → ℕ) : Machine where
  heap := { Heap.empty with slotToSite := slotToSite }
  alloc := .idle
  frees := fun _ => none
  sweeps := fun _ => .idle
  lock := none
  place := fun _ => .uncarved

/-- Who moves, and what the move leaves to chance: the range `mmap` returns, a
spurious failure of the weak compare-and-swap, and the answer of the lifetime
predicate. -/
inductive Action
  | alloc
  | allocStep (base : ℕ)
  | free (tid ptr : ℕ)
  | freeStep (tid : ℕ) (spurious : Bool)
  | write (ptr offset : ℕ) (byte : UInt8)
  | sweep (id : ℕ)
  | sweepStep (id : ℕ) (keep : Bool)
  deriving DecidableEq, Repr

/-- The list a header names. -/
def listOf (header : SegmentHeader) : Option ListRef :=
  match header.strategy with
  | .threadLocalFreeList => some (.single header.slotIndex)
  | .multiSizeFreeList => some (.sizeClass header.slotIndex header.classIdx)
  | _ => none

/-- What `alloc_segment` does before it registers the segment. -/
def initSegment (layout : SegmentLayout) (heap : Heap) (tid : ℕ)
    (strategy : Strategy) (slot site chunkSize base : ℕ) : Heap :=
  { heap with
    memory := fill heap.memory base (segmentEnd layout base) 0
    mapped := Function.update heap.mapped base true
    remoteLog := Function.update heap.remoteLog base []
    header := Function.update heap.header base (some
      { strategy := strategy
        retired := false
        classIdx := 0
        decommitted := false
        slotIndex := slot
        allocSite := site
        ownerTid := tid
        liveChunks := 0
        chunkSize := chunkSize
        remoteHead := 0
        bumpPtr := payloadStart base
        bumpLimit := segmentEnd layout base
        nextInSite := 0 }) }

/-- The two halves are the whole of it. -/
theorem registerSegment_initSegment (layout : SegmentLayout) (heap : Heap)
    (tid : ℕ) (strategy : Strategy) (slot site chunkSize base : ℕ) :
    registerSegment layout
      (initSegment layout heap tid strategy slot site chunkSize base) base =
        allocSegment layout heap tid strategy slot site chunkSize base := rfl

section Program

variable (cfg : ListConfig)

/-! ## The owner's allocations -/

/-- The emitted code reads the head and calls the refill when it is null. -/
def startAlloc (st : Machine) : Option Machine :=
  if st.alloc = .idle ∧ st.frees cfg.owner = none then
    let head := listHead st.heap cfg.owner cfg.ref
    some { st with alloc := if head = 0 then .refill else .serveLink head }
  else none

/-- The next step of the owner's allocation; `base` is what `mmap` returns. -/
def allocStep (st : Machine) (base : ℕ) : Option Machine :=
  match st.alloc with
  | .idle => none
  | .serveLink chunk =>
      some { st with
        alloc := .serveStore chunk (readWord st.heap.memory chunk) }
  | .serveStore chunk link =>
      some { st with
        heap := setListHead st.heap cfg.owner cfg.ref link
        alloc := .idle
        place := Function.update st.place chunk .held }
  | .refill =>
      let active := listSegs st.heap cfg.owner cfg.ref
      some { st with
        alloc := if active = 0 then .map else .harvest active }
  | .harvest active =>
      (st.heap.loadHeader active).map fun header =>
        if header.remoteHead = 0 then
          { st with
            heap := st.heap.storeHeader active { header with remoteHead := 0 }
            alloc := .retireCount active }
        else
          { st with
            heap := st.heap.storeHeader active { header with remoteHead := 0 }
            alloc := .serveLink header.remoteHead
            place := fun ptr =>
              if st.place ptr = .queued ∧ segmentOf cfg.layout ptr = active then
                .listed
              else st.place ptr }
  | .retireCount active =>
      (st.heap.loadHeader active).map fun header =>
        { st with
          heap := st.heap.storeHeader active
            { header with
              liveChunks := chunksInSegment cfg.layout header.chunkSize }
          alloc := .retireFlag active }
  | .retireFlag active =>
      (st.heap.loadHeader active).map fun header =>
        { st with
          heap := st.heap.storeHeader active { header with retired := true }
          alloc := .map }
  | .map =>
      if Fresh cfg.layout st.heap base then
        some { st with
          heap := initSegment cfg.layout st.heap cfg.owner cfg.ref.strategy
            cfg.ref.slot (st.heap.slotToSite cfg.ref.slot) cfg.size base
          alloc := .register base }
      else none
  | .register base =>
      if st.lock = none then
        some { st with
          heap := registerSegment cfg.layout st.heap base
          alloc := match cfg.ref with
            | .single _ => .readSegs base
            | .sizeClass _ _ => .storeClass base }
      else none
  | .storeClass base =>
      (st.heap.loadHeader base).map fun header =>
        { st with
          heap := st.heap.storeHeader base
            { header with classIdx := cfg.ref.classIdx }
          alloc := .readSegs base }
  | .readSegs base =>
      some { st with
        alloc := .storeNext base (listSegs st.heap cfg.owner cfg.ref) }
  | .storeNext base segs =>
      (st.heap.loadHeader base).map fun header =>
        { st with
          heap := st.heap.storeHeader base { header with nextInSite := segs }
          alloc := .storeSegs base }
  | .storeSegs base =>
      some { st with
        heap := setListSegs st.heap cfg.owner cfg.ref base
        alloc := .carve base }
  | .carve base =>
      let carved := carveLoop cfg.size (segmentEnd cfg.layout base)
        cfg.layout.segmentSize st.heap.memory (payloadStart base) 0
      if carved.2 = 0 then none
      else
        some { st with
          heap := { st.heap with memory := carved.1 }
          alloc := .serveLink carved.2
          place := fun ptr =>
            if ptr ∈ Carving.pieces (payloadStart base) cfg.size
                (chunkCount cfg.layout cfg.size) then
              .listed
            else st.place ptr }

/-! ## Frees -/

/-- A client gives up a chunk it holds.  The owner is one thread, so it does not
free while it allocates. -/
def startFree (st : Machine) (tid ptr : ℕ) : Option Machine :=
  if st.place ptr = .held ∧ st.frees tid = none ∧
      (tid = cfg.owner → st.alloc = .idle) then
    some { st with
      frees := Function.update st.frees tid (some (.readRetired ptr))
      place := Function.update st.place ptr (.freeing tid) }
  else none

/-- The call goes on at `pc`. -/
def Machine.goto (st : Machine) (tid : ℕ) (pc : FreePc) : Machine :=
  { st with frees := Function.update st.frees tid (some pc) }

/-- The call returns, having left the chunk at `place`. -/
def Machine.finish (st : Machine) (tid ptr : ℕ) (place : Place) : Machine :=
  { st with
    frees := Function.update st.frees tid none
    place := Function.update st.place ptr place }

/-- One access of `free_managed`, by thread `tid` on a chunk of the segment
whose header is `header`. -/
def freeAccess (st : Machine) (tid : ℕ) (spurious : Bool)
    (header : SegmentHeader) : FreePc → Option Machine
  | .readRetired ptr =>
      some (st.goto tid
        (if header.retired then .fetchSub ptr else .readOwner ptr))
  | .fetchSub ptr =>
      some ({ st with
        heap := st.heap.storeHeader (segmentOf cfg.layout ptr)
          { header with
            liveChunks := Segment.fetchSub header.liveChunks } }.finish tid ptr
        .returned)
  | .readOwner ptr =>
      some (st.goto tid
        (if header.ownerTid = tid then .readHead ptr else .pushLoad ptr))
  | .readHead ptr =>
      (listOf header).map fun ref =>
        st.goto tid (.storeLink ptr (listHead st.heap tid ref))
  | .storeLink ptr head =>
      some ({ st with
        heap := { st.heap with
          memory := writeWord st.heap.memory ptr head } }.goto tid
        (.storeHead ptr))
  | .storeHead ptr =>
      (listOf header).map fun ref =>
        { st with heap := setListHead st.heap tid ref ptr }.finish tid ptr
          .listed
  | .pushLoad ptr => some (st.goto tid (.pushLink ptr header.remoteHead))
  | .pushLink ptr cur =>
      some ({ st with
        heap := { st.heap with
          memory := writeWord st.heap.memory ptr cur } }.goto tid
        (.pushSwap ptr cur))
  | .pushSwap ptr cur =>
      if header.remoteHead = cur ∧ spurious = false then
        some ({ st with
          heap := st.heap.storeHeader (segmentOf cfg.layout ptr)
            { header with remoteHead := ptr } }.finish tid ptr .queued)
      else some (st.goto tid (.pushLink ptr header.remoteHead))

/-- The next access of the call of `free_managed` that thread `tid` is in. -/
def freeStep (st : Machine) (tid : ℕ) (spurious : Bool) : Option Machine :=
  (st.frees tid).bind fun pc =>
    (st.heap.loadHeader (segmentOf cfg.layout pc.ptr)).bind fun header =>
      freeAccess cfg st tid spurious header pc

/-- A client writes to a chunk it holds. -/
def clientWrite (st : Machine) (ptr offset : ℕ) (byte : UInt8) :
    Option Machine :=
  if st.place ptr = .held ∧ offset < cfg.size then
    some { st with heap := { st.heap with
      memory := Function.update st.heap.memory (ptr + offset) byte } }
  else none

/-! ## The reaper -/

def Machine.setSweep (st : Machine) (id : ℕ) (pc : SweepPc) : Machine :=
  { st with sweeps := Function.update st.sweeps id pc }

def startSweep (st : Machine) (id : ℕ) : Option Machine :=
  if st.sweeps id = .idle ∧ st.lock = none then
    some ({ st with lock := some id }.setSweep id
      (.scan 0 st.heap.index.length []))
  else none

/-- The next step of a sweep.  `keep` is the answer of the lifetime predicate
that lets the conservative mode reclaim the segment. -/
def sweepStep (st : Machine) (id : ℕ) (keep : Bool) : Option Machine :=
  match st.sweeps id with
  | .idle => none
  | .scan i count selected =>
      if i < count then
        (st.heap.index[i]?).bind fun base =>
          (st.heap.loadHeader base).map fun header =>
            st.setSweep id
              (if header.retired then .scanLive i count selected base
              else .scan (i + 1) count selected)
      else
        some ({ st with lock := none }.setSweep id (.reclaim selected))
  | .scanLive i count selected base =>
      (st.heap.loadHeader base).map fun header =>
        st.setSweep id
          (if header.liveChunks = 0 then .scanGate i count selected base
          else .scan (i + 1) count selected)
  | .scanGate i count selected base =>
      (st.heap.loadHeader base).map fun header =>
        st.setSweep id
          (if (cfg.mode = .conservative ∧ keep = false) ∨
              (cfg.mode = .madvise ∧ header.decommitted = true) then
            .scan (i + 1) count selected
          else .scan (i + 1) count (selected ++ [base]))
  | .reclaim [] => some (st.setSweep id .idle)
  | .reclaim (base :: rest) =>
      if cfg.mode = .madvise then
        if cfg.pageSize = 0 ∨ cfg.layout.segmentSize ≤ cfg.pageSize then
          some (st.setSweep id (.reclaim rest))
        else
          some ({ st with heap := { st.heap with
            memory := fill st.heap.memory (base + cfg.pageSize)
              (segmentEnd cfg.layout base) 0 } }.setSweep id (.mark base rest))
      else if st.lock = none then
        some ({ st with
          heap := unregisterSegment cfg.layout st.heap base }.setSweep id
          (.unmap base rest))
      else none
  | .unmap base rest =>
      some ({ st with heap := { st.heap with
        mapped := Function.update st.heap.mapped base false } }.setSweep id
        (.reclaim rest))
  | .mark base rest =>
      (st.heap.loadHeader base).map fun header =>
        { st with
          heap := st.heap.storeHeader base
            { header with decommitted := true } }.setSweep id (.reclaim rest)

def step (st : Machine) : Action → Option Machine
  | .alloc => startAlloc cfg st
  | .allocStep base => allocStep cfg st base
  | .free tid ptr => startFree cfg st tid ptr
  | .freeStep tid spurious => freeStep cfg st tid spurious
  | .write ptr offset byte => clientWrite cfg st ptr offset byte
  | .sweep id => startSweep st id
  | .sweepStep id keep => sweepStep cfg st id keep

/-- The chunk a step returns to the allocating client. -/
def served (st : Machine) : Action → Option ℕ
  | .allocStep _ =>
      match st.alloc with
      | .serveStore chunk _ => some chunk
      | _ => none
  | _ => none

end Program

end TbjitAlloc.FreeList
