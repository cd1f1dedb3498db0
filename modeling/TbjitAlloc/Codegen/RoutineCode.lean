import TbjitAlloc.Codegen.BumpCode
import TbjitAlloc.Codegen.FreeListCode
import TbjitAlloc.Codegen.ListFamily

/-!
# The routines and their bytes

The atomic routines that the systems of a compiled site are built from are what
the emitted bytes do.  The machine's thread-local words hold the cursor or the
heads of the heap; then the bytes deoptimize when the routine does, serve the
chunk it serves and leave the cursor it leaves, or call the slow function whose
result it takes.
-/

namespace TbjitAlloc.Codegen

open TbjitAlloc.Analysis
open TbjitAlloc.ByteMemory
open TbjitAlloc.Segment
open TbjitAlloc.X86

/-- The machine serves a call as a routine does that changes `heap`.  The word
at `address` is the one `cursor` reads in a heap, and `slow` is what the routine
does where the machine calls a function. -/
inductive Agrees (image : Image) (entry : Machine) (address : BitVec 64)
    (cursor : Heap → ℕ) (deoptimizes : Prop) (target : BitVec 64)
    (arguments : List (BitVec 64)) (heap : Heap) (slow : Option (Heap × ℕ))
    (result : Option (Heap × Served)) : Prop
  | deopt : result = some (heap, .deopt) → deoptimizes →
      Agrees image entry address cursor deoptimizes target arguments heap slow
        result
  | fast {after : Heap} {ptr next : BitVec 64} :
      result = some (after, .chunk ptr.toNat) →
      ReturnsStoring image entry ptr address next →
      next.toNat = cursor after →
      Agrees image entry address cursor deoptimizes target arguments heap slow
        result
  | slow : result = (slow.map fun served => (served.1, .chunk served.2)) →
      ReturnsCall image entry target arguments →
      Agrees image entry address cursor deoptimizes target arguments heap slow
        result

theorem toNat_widen (size : BitVec 32) :
    (size.setWidth 64).toNat = size.toNat := by
  rw [BitVec.toNat_setWidth]
  omega

theorem request_eq_iff {request : BitVec 64} {size : BitVec 32} :
    request = size.setWidth 64 ↔ request.toNat = size.toNat := by
  rw [← BitVec.toNat_inj, toNat_widen]

/-! ## Cursors -/

/-- Two thread-local words hold a cursor that a chunk does not carry past the
end of the address space. -/
structure HoldsCursor (entry : Machine) (tlsPtr tlsEnd size : BitVec 32)
    (ptr limit : ℕ) : Prop where
  atPtr : (entry.read64 (entry.fs tlsPtr)).toNat = ptr
  atEnd : (entry.read64 (entry.fs tlsEnd)).toNat = limit
  fits : ptr + size.toNat < 2 ^ 64

section Cursor

variable {image : Image} {entry : Machine} {buf : BitVec 64}
variable {tlsPtr tlsEnd slot size site : BitVec 32}
variable {handler slow malloc : BitVec 64} {heap : Heap} {tid : ℕ}

theorem HoldsCursor.next_toNat {ptr limit : ℕ}
    (hholds : HoldsCursor entry tlsPtr tlsEnd size ptr limit) :
    (entry.read64 (entry.fs tlsPtr) + size.setWidth 64).toNat =
      ptr + size.toNat := by
  rw [BitVec.toNat_add, toNat_widen, hholds.atPtr, Nat.mod_eq_of_lt hholds.fits]

theorem HoldsCursor.room_iff {ptr limit : ℕ}
    (hholds : HoldsCursor entry tlsPtr tlsEnd size ptr limit) :
    entry.read64 (entry.fs tlsPtr) + size.setWidth 64 <
      entry.read64 (entry.fs tlsEnd) ↔ ptr + size.toNat < limit := by
  rw [BitVec.lt_def, hholds.next_toNat, hholds.atEnd]

theorem HoldsCursor.null_iff {ptr limit : ℕ}
    (hholds : HoldsCursor entry tlsPtr tlsEnd size ptr limit) :
    entry.read64 (entry.fs tlsPtr) = 0 ↔ ptr = 0 := by
  rw [← BitVec.toNat_inj, hholds.atPtr]
  rfl

theorem bumpFastPath_of_lt {slot size : ℕ}
    (hroom : (heap.bumps (tid, slot)).ptr + size <
      (heap.bumps (tid, slot)).limit) :
    ∃ after, bumpFastPath tid slot size heap =
        some (after, (heap.bumps (tid, slot)).ptr) ∧
      (after.bumps (tid, slot)).ptr = (heap.bumps (tid, slot)).ptr + size :=
  ⟨_, if_pos hroom, by simp⟩

theorem bumpFastPath_of_not_lt {slot size : ℕ}
    (hfull : ¬(heap.bumps (tid, slot)).ptr + size <
      (heap.bumps (tid, slot)).limit) :
    bumpFastPath tid slot size heap = none :=
  if_neg hfull

theorem bumpRoutine_agrees
    (hserves : ServesBump .bumpAlloc image entry buf tlsPtr tlsEnd slot size
      site handler slow malloc)
    (hholds : HoldsCursor entry tlsPtr tlsEnd size
      (heap.bumps (tid, slot.toNat)).ptr (heap.bumps (tid, slot.toNat)).limit)
    (slowInit : ℕ → ℕ → ℕ → ℕ → Heap → Heap × ℕ) (base : ℕ) :
    Agrees image entry (entry.fs tlsPtr)
      (fun heap => (heap.bumps (tid, slot.toNat)).ptr)
      (Deoptimizes image entry site buf .regionExhaust handler malloc) slow
      [slot.setWidth 64, size.setWidth 64] heap
      (some (slowInit tid slot.toNat size.toNat base heap))
      (bumpRoutine slowInit slot.toNat size.toNat tid (entry.reg .rdi).toNat
        base heap) := by
  by_cases hrequest : entry.reg .rdi = size.setWidth 64
  · rw [bumpRoutine, if_neg (not_not.2 (request_eq_iff.1 hrequest))]
    by_cases hroom : (heap.bumps (tid, slot.toNat)).ptr + size.toNat <
        (heap.bumps (tid, slot.toNat)).limit
    · obtain ⟨after, hfast, hnext⟩ := bumpFastPath_of_lt hroom
      rw [hfast, ← hholds.atPtr]
      refine .fast rfl (hserves.fast hrequest (hholds.room_iff.2 hroom)) ?_
      rw [hholds.next_toNat, hnext]
    · have hfull := mt hholds.room_iff.1 hroom
      rw [bumpFastPath_of_not_lt hroom]
      by_cases hnull : (heap.bumps (tid, slot.toNat)).ptr = 0
      · exact .slow (if_neg (not_not.2 hnull))
          (hserves.slow hrequest hfull fun _ => hholds.null_iff.2 hnull)
      · exact .deopt (if_pos hnull) (hserves.exhausted hrequest hfull rfl
          (mt hholds.null_iff.1 hnull))
  · rw [bumpRoutine, if_pos (mt request_eq_iff.2 hrequest)]
    exact .deopt rfl (hserves.wrongSize hrequest)

theorem pcRoutine_agrees (layout : SegmentLayout)
    (hserves : ServesBump .pcAlloc image entry buf tlsPtr tlsEnd slot size
      site handler slow malloc)
    (hholds : HoldsCursor entry tlsPtr tlsEnd size
      (heap.bumps (tid, slot.toNat)).ptr (heap.bumps (tid, slot.toNat)).limit)
    (base : ℕ) :
    Agrees image entry (entry.fs tlsPtr)
      (fun heap => (heap.bumps (tid, slot.toNat)).ptr)
      (Deoptimizes image entry site buf .sizeDrift handler malloc) slow
      [slot.setWidth 64, size.setWidth 64] heap
      (pcRefill layout tid slot.toNat size.toNat base heap)
      (pcRoutine layout slot.toNat size.toNat tid (entry.reg .rdi).toNat base
        heap) := by
  by_cases hrequest : entry.reg .rdi = size.setWidth 64
  · rw [pcRoutine, if_neg (not_not.2 (request_eq_iff.1 hrequest))]
    by_cases hroom : (heap.bumps (tid, slot.toNat)).ptr + size.toNat <
        (heap.bumps (tid, slot.toNat)).limit
    · obtain ⟨after, hfast, hnext⟩ := bumpFastPath_of_lt hroom
      rw [hfast, ← hholds.atPtr]
      refine .fast rfl (hserves.fast hrequest (hholds.room_iff.2 hroom)) ?_
      rw [hholds.next_toNat, hnext]
    · rw [bumpFastPath_of_not_lt hroom]
      refine .slow rfl
        (hserves.slow hrequest (mt hholds.room_iff.1 hroom) fun hbump => ?_)
      cases hbump
  · rw [pcRoutine, if_pos (mt request_eq_iff.2 hrequest)]
    exact .deopt rfl (hserves.wrongSize hrequest)

theorem arenaRoutine_agrees (layout : SegmentLayout)
    (hserves : ServesBump .epochArena image entry buf tlsPtr tlsEnd slot size
      site handler slow malloc)
    (hholds : HoldsCursor entry tlsPtr tlsEnd size
      (heap.arenas (tid, slot.toNat)).ptr
      (heap.arenas (tid, slot.toNat)).limit)
    (base : ℕ) :
    Agrees image entry (entry.fs tlsPtr)
      (fun heap => (heap.arenas (tid, slot.toNat)).ptr)
      (Deoptimizes image entry site buf .sizeDrift handler malloc) slow
      [slot.setWidth 64, size.setWidth 64] heap
      (some (arenaResetAlloc layout tid slot.toNat size.toNat base heap))
      (arenaRoutine layout slot.toNat size.toNat tid (entry.reg .rdi).toNat base
        heap) := by
  by_cases hrequest : entry.reg .rdi = size.setWidth 64
  · rw [arenaRoutine, if_neg (not_not.2 (request_eq_iff.1 hrequest))]
    by_cases hroom : (heap.arenas (tid, slot.toNat)).ptr + size.toNat <
        (heap.arenas (tid, slot.toNat)).limit
    · refine .fast ((if_pos hroom).trans (by rw [hholds.atPtr]))
        (hserves.fast hrequest (hholds.room_iff.2 hroom)) ?_
      rw [hholds.next_toNat]
      simp
    · refine .slow (if_neg hroom)
        (hserves.slow hrequest (mt hholds.room_iff.1 hroom) fun hbump => ?_)
      cases hbump
  · rw [arenaRoutine, if_pos (mt request_eq_iff.2 hrequest)]
    exact .deopt rfl (hserves.wrongSize hrequest)

end Cursor

/-! ## Free lists -/

section FreeList

variable {image : Image} {entry : Machine} {buf : BitVec 64}
variable {base slot site : BitVec 32} {handler refillFn malloc : BitVec 64}
variable {heap : Heap} {tid : ℕ} (layout : SegmentLayout)

/-- A thread-local word holds the head of a list, and the chunk there holds the
same next chunk on the machine as in the heap. -/
structure HoldsHead (entry : Machine) (head : BitVec 32) (heap : Heap)
    (tid : ℕ) (ref : ListRef) : Prop where
  atHead : (entry.read64 (entry.fs head)).toNat = listHead heap tid ref
  next : (entry.read64 (entry.read64 (entry.fs head))).toNat =
    readWord heap.memory (listHead heap tid ref)

theorem popOrRefill_agrees {head size : BitVec 32}
    {index : Option (BitVec 32)} {ref : ListRef}
    (hserves : ServesClass image entry head slot size index refillFn)
    (hholds : HoldsHead entry head heap tid ref) (deoptimizes : Prop)
    (base : ℕ) :
    Agrees image entry (entry.fs head) (fun heap => listHead heap tid ref)
      deoptimizes refillFn (slowArguments slot size index (entry.reg .rdx)) heap
      (refill layout ref tid size.toNat base heap)
      (popOrRefill layout ref size.toNat tid base heap) := by
  have hnull : entry.read64 (entry.fs head) = 0 ↔ listHead heap tid ref = 0 := by
    rw [← BitVec.toNat_inj, hholds.atHead]
    rfl
  by_cases hhead : listHead heap tid ref = 0
  · exact .slow (if_neg (not_not.2 hhead)) (hserves.refill (hnull.2 hhead))
  · refine .fast ((if_pos hhead).trans (by rw [hholds.atHead]))
      (hserves.pop (mt hnull.1 hhead)) ?_
    rw [hholds.next, listHead_setListHead, if_pos ⟨rfl, rfl⟩]

theorem freelistRoutine_agrees {size : BitVec 32}
    (hserves : ServesList image entry buf base slot site handler refillFn malloc
      [size] (fun _ => none))
    (hholds : HoldsHead entry base heap tid (.single slot.toNat))
    (segment : ℕ) :
    Agrees image entry (entry.fs base)
      (fun heap => listHead heap tid (.single slot.toNat))
      (Deoptimizes image entry site buf .sizeDrift handler malloc) refillFn
      (slowArguments slot size none (entry.reg .rdx)) heap
      (refill layout (.single slot.toNat) tid size.toNat segment heap)
      (freelistRoutine layout slot.toNat size.toNat tid (entry.reg .rdi).toNat
        segment heap) := by
  by_cases hrequest : entry.reg .rdi = size.setWidth 64
  · rw [freelistRoutine, if_neg (not_not.2 (request_eq_iff.1 hrequest))]
    have hclass := hserves.known 0 Nat.one_pos hrequest
    have hbase : headOffset base 0 = base := by simp [headOffset]
    rw [hbase] at hclass
    exact popOrRefill_agrees layout hclass hholds _ segment
  · rw [freelistRoutine, if_pos (mt request_eq_iff.2 hrequest)]
    refine .deopt rfl (hserves.unknown fun other hmem => ?_)
    rwa [List.mem_singleton.1 hmem]

/-- The list is that of the requested class, if there is one. -/
theorem multiRoutine_agrees {classSizes : List (BitVec 32)}
    (hserves : ServesList image entry buf base slot site handler refillFn malloc
      classSizes (fun i => some (BitVec.ofNat 32 i)))
    (hholds : ∀ i < classSizes.length, HoldsHead entry (headOffset base i) heap
      tid (.sizeClass slot.toNat i))
    (segment : ℕ) :
    ∃ i, Agrees image entry (entry.fs (headOffset base i))
      (fun heap => listHead heap tid (.sizeClass slot.toNat i))
      (Deoptimizes image entry site buf .sizeDrift handler malloc) refillFn
      (slowArguments slot (classSizes.getD i 0) (some (BitVec.ofNat 32 i))
        (entry.reg .rdx)) heap
      (refill layout (.sizeClass slot.toNat i) tid
        (classSizes.getD i 0).toNat segment heap)
      (multiRoutine layout slot.toNat (fun i => (classSizes.getD i 0).toNat)
        classSizes.length tid (entry.reg .rdi).toNat segment heap) := by
  rw [multiRoutine]
  cases hfind : findClass (fun i => (classSizes.getD i 0).toNat)
      classSizes.length (entry.reg .rdi).toNat with
  | none =>
      refine ⟨0, .deopt rfl (hserves.unknown ?_)⟩
      intro size hmem hrequest
      obtain ⟨i, hi, rfl⟩ := List.getElem_of_mem hmem
      have hother := List.find?_eq_none.1 hfind i (List.mem_range.2 hi)
      have hsame : (classSizes.getD i 0).toNat = (entry.reg .rdi).toNat := by
        rw [List.getD_eq_getElem _ _ hi]
        exact (request_eq_iff.1 hrequest).symm
      exact hother (decide_eq_true hsame)
  | some i =>
      obtain ⟨hi, hsize⟩ := findClass_eq_some hfind
      have hgetD : classSizes.getD i 0 = classSizes[i] :=
        List.getD_eq_getElem _ _ hi
      rw [hgetD] at hsize
      have hclass := hserves.known i hi (request_eq_iff.2 hsize.symm)
      refine ⟨i, ?_⟩
      simp only [hgetD]
      exact popOrRefill_agrees layout hclass (hholds i hi) _ segment

end FreeList

end TbjitAlloc.Codegen
