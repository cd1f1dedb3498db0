import TbjitAlloc.Core.ByteMemory
import TbjitAlloc.Core.LinkedChain
import TbjitAlloc.Segment.Header

/-!
# The allocator's memory and its segment registry

`Heap` is everything the allocation and free paths read or write: the payload
bytes, the segment headers, the page map and the reaper's index, and the
thread-local slots of all threads.  A header stays recorded after its segment
is unmapped, but no operation can read it any more: `loadHeader` answers `none`,
which stands for the fault the code would take.
-/

namespace TbjitAlloc.Segment

open TbjitAlloc.ByteMemory
open TbjitAlloc.LinkedChain

structure BumpSlot where
  ptr : ℕ
  limit : ℕ
  deriving DecidableEq, Repr

structure FreeListSlot where
  head : ℕ
  segs : ℕ
  deriving DecidableEq, Repr

structure MultiFreeListSlot where
  heads : ℕ → ℕ
  segs : ℕ → ℕ

structure ArenaSlot where
  ptr : ℕ
  limit : ℕ
  base : ℕ
  deriving DecidableEq, Repr

/-- Thread-local slots are indexed by the thread and the slot number. -/
structure Heap where
  memory : Memory
  header : ℕ → Option SegmentHeader
  mapped : ℕ → Bool
  pagemap : ℕ → Bool
  index : List ℕ
  slotToSite : ℕ → ℕ
  bumps : ℕ × ℕ → BumpSlot
  freelists : ℕ × ℕ → FreeListSlot
  arenas : ℕ × ℕ → ArenaSlot
  multiFreelists : ℕ × ℕ → MultiFreeListSlot
  /-- Chunks pushed on a segment's remote queue since its last harvest, newest
  first.  No operation reads it. -/
  remoteLog : ℕ → List ℕ

/-- A process that has not carved any segment. -/
def Heap.empty : Heap where
  memory := fun _ => 0
  header := fun _ => none
  mapped := fun _ => false
  pagemap := fun _ => false
  index := []
  slotToSite := fun _ => 0
  bumps := fun _ => ⟨0, 0⟩
  freelists := fun _ => ⟨0, 0⟩
  arenas := fun _ => ⟨0, 0, 0⟩
  multiFreelists := fun _ => ⟨fun _ => 0, fun _ => 0⟩
  remoteLog := fun _ => []

def Heap.loadHeader (heap : Heap) (base : ℕ) : Option SegmentHeader :=
  if heap.mapped base then heap.header base else none

def Heap.storeHeader (heap : Heap) (base : ℕ) (header : SegmentHeader) : Heap :=
  { heap with header := Function.update heap.header base (some header) }

/-- `MAX_SEGMENTS`. -/
def maxSegments : ℕ := 4096

section Registry

variable (layout : SegmentLayout)

def isManaged (heap : Heap) (base : ℕ) : Bool :=
  base ≠ 0 && heap.pagemap (base / layout.segmentSize)

/-- The page map is marked whatever the index holds; segments past the index's
capacity are managed but never reaped. -/
def registerSegment (heap : Heap) (base : ℕ) : Heap :=
  { heap with
    pagemap := Function.update heap.pagemap (base / layout.segmentSize) true
    index := if heap.index.length < maxSegments then heap.index ++ [base]
      else heap.index }

/-- Overwrite the first occurrence with the last entry and drop the latter. -/
def swapRemove (index : List ℕ) (base : ℕ) : List ℕ :=
  if base ∈ index then
    (index.set (index.idxOf base) (index.getLastD 0)).dropLast
  else index

def unregisterSegment (heap : Heap) (base : ℕ) : Heap :=
  { heap with
    pagemap := Function.update heap.pagemap (base / layout.segmentSize) false
    index := swapRemove heap.index base }

def freeSegment (heap : Heap) (base : ℕ) : Heap :=
  let heap := unregisterSegment layout heap base
  { heap with mapped := Function.update heap.mapped base false }

/-- The range `mmap` may return: aligned, within the user address space, and
used by no segment before. -/
def Fresh (heap : Heap) (base : ℕ) : Prop :=
  base ≠ 0 ∧ layout.segmentSize ∣ base ∧
    base + layout.segmentSize < 2 ^ 47 ∧ heap.header base = none

instance (heap : Heap) (base : ℕ) : Decidable (Fresh layout heap base) :=
  inferInstanceAs (Decidable (_ ∧ _ ∧ _ ∧ _))

/-- A fresh segment is none that has a header. -/
theorem Fresh.ne {layout : SegmentLayout} {heap : Heap} {base other : ℕ}
    {header : SegmentHeader} (hfresh : Fresh layout heap base)
    (hheader : heap.header other = some header) : other ≠ base := by
  rintro rfl
  rw [hfresh.2.2.2] at hheader
  cases hheader

/-- `alloc_segment` by thread `tid`, where `mmap` returns `base`. -/
def allocSegment (heap : Heap) (tid : ℕ) (strategy : Strategy)
    (slot site chunkSize base : ℕ) : Heap :=
  registerSegment layout
    { heap with
      memory := fill heap.memory base (segmentEnd layout base) 0
      mapped := Function.update heap.mapped base true
      remoteLog := Function.update heap.remoteLog base []
      header := Function.update heap.header base (some
        { strategy := strategy
          retired := false
          classIdx := 0
          decommitted := false
          slotIndex := slot
          allocSite := site
          ownerTid := tid
          liveChunks := 0
          chunkSize := chunkSize
          remoteHead := 0
          bumpPtr := payloadStart base
          bumpLimit := segmentEnd layout base
          nextInSite := 0 }) }
    base

end Registry

/-! ## The remote-free queue -/

/-- `mpsc_push` with no competing access: link the chunk to the current head
and make it the head. -/
def mpscPush (heap : Heap) (base chunk : ℕ) : Option Heap :=
  (heap.loadHeader base).map fun header =>
    { heap.storeHeader base { header with remoteHead := chunk } with
      memory := writeWord heap.memory chunk header.remoteHead
      remoteLog := Function.update heap.remoteLog base
        (chunk :: heap.remoteLog base) }

/-- `mpsc_harvest`: take the whole chain. -/
def mpscHarvest (heap : Heap) (base : ℕ) : Option (Heap × ℕ) :=
  (heap.loadHeader base).map fun header =>
    ({ heap.storeHeader base { header with remoteHead := 0 } with
      remoteLog := Function.update heap.remoteLog base [] },
      header.remoteHead)

/-- Walk a chain of links in memory.  A walk of `2^64` links that has not ended
has met some address twice, so `none` means that the loop never ends. -/
def walkChain (memory : Memory) (head : ℕ) : Option (List ℕ) :=
  walk 0 (readWord memory) (2 ^ 64) head

/-! ## The reaper -/

inductive ReapMode
  | conservative
  | eager
  | madvise
  deriving DecidableEq, Repr

/-- Whether a sweep selects a segment.  `pred` is the lifetime predicate, which
may be absent. -/
def eligible (mode : ReapMode) (pred : Option (ℕ → Bool))
    (header : SegmentHeader) : Bool :=
  header.retired && header.liveChunks == 0 &&
    !(mode == .conservative && pred.any fun p => !p header.allocSite) &&
    !(mode == .madvise && header.decommitted)

section Reaper

variable (layout : SegmentLayout)

/-- `decommit_segment`: return the payload beyond the first page. -/
def decommitSegment (pageSize : ℕ) (heap : Heap) (base : ℕ) : Heap :=
  match heap.loadHeader base with
  | none => heap
  | some header =>
      if pageSize = 0 ∨ layout.segmentSize ≤ pageSize then heap
      else
        { heap.storeHeader base { header with decommitted := true } with
          memory := fill heap.memory (base + pageSize)
            (segmentEnd layout base) 0 }

def eligibleSegments (mode : ReapMode) (pred : Option (ℕ → Bool))
    (heap : Heap) : List ℕ :=
  heap.index.filter fun base =>
    (heap.loadHeader base).any (eligible mode pred)

def reclaimSegment (mode : ReapMode) (pageSize : ℕ) (heap : Heap)
    (base : ℕ) : Heap :=
  if mode = .madvise then decommitSegment layout pageSize heap base
  else freeSegment layout heap base

/-- `reaper_sweep`: select under the lock, then reclaim each selected segment.
The result is the number of segments selected. -/
def reaperSweep (mode : ReapMode) (pred : Option (ℕ → Bool)) (pageSize : ℕ)
    (heap : Heap) : Heap × ℕ :=
  let selected := eligibleSegments mode pred heap
  (selected.foldl (reclaimSegment layout mode pageSize) heap, selected.length)

end Reaper

end TbjitAlloc.Segment
