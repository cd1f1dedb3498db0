import TbjitAlloc.Common

/-!
# Segments and their headers

A segment is a power-of-two sized, equally aligned range of memory.  Its first
64 bytes are the header; the rest is the payload that chunks are carved from.
The segment size is a build option, so everything is stated for an arbitrary
layout; `SegmentLayout.default` is the shipped one.
-/

namespace TbjitAlloc.Segment

/-- A value of `TBJIT_SEG_SHIFT` that `mmap` can serve: segments are whole pages,
and two of them, the room in which an aligned one is looked for, fit in the
47-bit user address space. -/
structure SegmentLayout where
  shift : ℕ
  shift_ge : 12 ≤ shift
  shift_lt : shift < 46

/-- 2 MiB segments. -/
def SegmentLayout.default : SegmentLayout where
  shift := 21
  shift_ge := by decide
  shift_lt := by decide

/-- `SEGMENT_SIZE`. -/
def SegmentLayout.segmentSize (layout : SegmentLayout) : ℕ :=
  2 ^ layout.shift

/-- `sizeof(SegmentHeader)`, one cache line. -/
def headerSize : ℕ := 64

structure SegmentHeader where
  strategy : Strategy
  retired : Bool
  classIdx : ℕ
  decommitted : Bool
  slotIndex : ℕ
  allocSite : ℕ
  ownerTid : ℕ
  liveChunks : ℕ
  chunkSize : ℕ
  remoteHead : ℕ
  bumpPtr : ℕ
  bumpLimit : ℕ
  nextInSite : ℕ
  deriving DecidableEq, Repr

def payloadStart (base : ℕ) : ℕ :=
  base + headerSize

def segmentEnd (layout : SegmentLayout) (base : ℕ) : ℕ :=
  base + layout.segmentSize

/-- `seg::of`: mask the low bits of a pointer. -/
def segmentOf (layout : SegmentLayout) (ptr : ℕ) : ℕ :=
  ptr - ptr % layout.segmentSize

/-- Number of chunks of the given size that fit in a payload. -/
def chunkCount (layout : SegmentLayout) (chunkSize : ℕ) : ℕ :=
  (layout.segmentSize - headerSize) / chunkSize

/-- `chunks_in_segment`: the same number in 32 bits. -/
def chunksInSegment (layout : SegmentLayout) (chunkSize : ℕ) : ℕ :=
  if chunkSize = 0 then 0
  else chunkCount layout chunkSize % 2 ^ 32

/-- A 32-bit `fetch_sub(1)`. -/
def fetchSub (value : ℕ) : ℕ :=
  (value + (2 ^ 32 - 1)) % 2 ^ 32

theorem fetchSub_of_pos {value : ℕ} (hpos : 0 < value) (hlt : value < 2 ^ 32) :
    fetchSub value = value - 1 := by
  unfold fetchSub
  omega

section Layout

variable (layout : SegmentLayout)

theorem segmentSize_ge : 4096 ≤ layout.segmentSize := by
  calc 4096 = 2 ^ 12 := by norm_num
    _ ≤ 2 ^ layout.shift := Nat.pow_le_pow_right (by norm_num) layout.shift_ge

theorem segmentSize_le : layout.segmentSize ≤ 2 ^ 45 :=
  Nat.pow_le_pow_right (by norm_num) (Nat.le_of_lt_succ layout.shift_lt)

/-- Segment bases are cache-line (and so 16-byte) aligned. -/
theorem headerSize_dvd_segmentSize : headerSize ∣ layout.segmentSize := by
  change 2 ^ 6 ∣ 2 ^ layout.shift
  exact Nat.pow_dvd_pow 2 (le_trans (by norm_num) layout.shift_ge)

variable {layout}

/-- Every address inside a segment is mapped back to the segment's base. -/
theorem segmentOf_eq {base ptr : ℕ} (hbase : layout.segmentSize ∣ base)
    (hlow : base ≤ ptr) (hhigh : ptr < segmentEnd layout base) :
    segmentOf layout ptr = base := by
  obtain ⟨number, rfl⟩ := hbase
  unfold segmentEnd at hhigh
  have hoffset : ptr % layout.segmentSize =
      ptr - layout.segmentSize * number := by
    rw [← Nat.mod_eq_of_lt (a := ptr - layout.segmentSize * number)
      (b := layout.segmentSize) (by omega),
      Nat.sub_mul_mod hlow]
  unfold segmentOf
  omega

theorem segmentOf_le (ptr : ℕ) : segmentOf layout ptr ≤ ptr :=
  Nat.sub_le _ _

theorem lt_segmentEnd_segmentOf (ptr : ℕ) :
    ptr < segmentEnd layout (segmentOf layout ptr) := by
  have hpos : 0 < layout.segmentSize :=
    lt_of_lt_of_le (by norm_num) (segmentSize_ge layout)
  have hmod := Nat.mod_lt ptr hpos
  have hle := Nat.mod_le ptr layout.segmentSize
  unfold segmentEnd segmentOf
  omega

theorem dvd_segmentOf (ptr : ℕ) :
    layout.segmentSize ∣ segmentOf layout ptr :=
  Nat.dvd_sub_mod ptr

/-- Distinct aligned bases are a whole segment apart. -/
theorem segment_disjoint {left right : ℕ} (hleft : layout.segmentSize ∣ left)
    (hright : layout.segmentSize ∣ right) (hne : left ≠ right) :
    segmentEnd layout left ≤ right ∨ segmentEnd layout right ≤ left := by
  by_contra hoverlap
  rcases Nat.lt_or_gt_of_ne hne with hlt | hlt
  · exact hne ((segmentOf_eq hleft hlt.le (by omega)).symm.trans
      (segmentOf_eq hright le_rfl (by
        have := segmentSize_ge layout
        unfold segmentEnd; omega)))
  · exact hne ((segmentOf_eq hleft le_rfl (by
        have := segmentSize_ge layout
        unfold segmentEnd; omega)).symm.trans
      (segmentOf_eq hright hlt.le (by omega)))

end Layout

end TbjitAlloc.Segment
