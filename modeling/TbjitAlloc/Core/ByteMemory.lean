import Mathlib

/-!
# Byte-addressed memory

Memory is a total map from addresses to bytes.  Machine words are stored least
significant byte first, so a word occupies the half-open byte range that starts
at its address.  The two facts every client needs are that a word reads back as
written, and that an access leaves every byte outside its own range alone.
-/

namespace TbjitAlloc.ByteMemory

abbrev Memory := ℕ → UInt8

/-- Read `width` bytes as a little-endian number. -/
def readBytes (memory : Memory) (address : ℕ) : ℕ → ℕ
  | 0 => 0
  | width + 1 =>
      (memory address).toNat + 256 * readBytes memory (address + 1) width

/-- Store the low `width` bytes of `value`. -/
def writeBytes (memory : Memory) (address : ℕ) (width value : ℕ) : Memory :=
  fun target =>
    if address ≤ target ∧ target < address + width then
      UInt8.ofNat (value / 256 ^ (target - address))
    else memory target

/-- Fill the range `[first, last)` with one byte. -/
def fill (memory : Memory) (first last : ℕ) (byte : UInt8) : Memory :=
  fun target => if first ≤ target ∧ target < last then byte else memory target

/-- Copy `count` bytes between ranges that do not overlap. -/
def copyBytes (memory : Memory) (target source : ℕ) (count : ℕ) : Memory :=
  fun address =>
    if target ≤ address ∧ address < target + count then
      memory (source + (address - target))
    else memory address

/-- Two memories hold the same bytes on `[first, last)`. -/
def AgreeOn (left right : Memory) (first last : ℕ) : Prop :=
  ∀ target, first ≤ target → target < last → left target = right target

theorem readBytes_congr {left right : Memory} {address : ℕ} {width : ℕ}
    (hagree : AgreeOn left right address (address + width)) :
    readBytes left address width = readBytes right address width := by
  induction width generalizing address with
  | zero => rfl
  | succ width ih =>
      have hfirst := hagree address le_rfl (by omega)
      have hrest : readBytes left (address + 1) width =
          readBytes right (address + 1) width :=
        ih fun target hlow hhigh => hagree target (by omega) (by omega)
      simp only [readBytes, hfirst, hrest]

theorem writeBytes_outside (memory : Memory) {address target : ℕ}
    {width value : ℕ}
    (houtside : target < address ∨ address + width ≤ target) :
    writeBytes memory address width value target = memory target := by
  unfold writeBytes
  rw [if_neg (by omega)]

theorem writeBytes_agreeOn (memory : Memory) {address first last : ℕ}
    {width value : ℕ} (houtside : last ≤ address ∨ address + width ≤ first) :
    AgreeOn (writeBytes memory address width value) memory first last := by
  intro target hlow hhigh
  exact writeBytes_outside memory (by omega)

theorem fill_outside (memory : Memory) {first last target : ℕ}
    {byte : UInt8} (houtside : target < first ∨ last ≤ target) :
    fill memory first last byte target = memory target := by
  unfold fill
  rw [if_neg (by omega)]

/-- A stored number reads back modulo the width of the access. -/
theorem readBytes_writeBytes (memory : Memory) (address : ℕ)
    (width value : ℕ) :
    readBytes (writeBytes memory address width value) address width =
      value % 256 ^ width := by
  -- The tail of a store is the store of the shifted value one byte further on.
  suffices hgeneral : ∀ (remaining offset : ℕ), offset + remaining = width →
      readBytes (writeBytes memory address width value) (address + offset)
        remaining = value / 256 ^ offset % 256 ^ remaining by
    simpa using hgeneral width 0 (by omega)
  intro remaining
  induction remaining with
  | zero => intro offset _; simp [readBytes, Nat.mod_one]
  | succ remaining ih =>
      intro offset hoffset
      have hrest := ih (offset + 1) (by omega)
      have hbyte : (writeBytes memory address width value
          (address + offset)).toNat = value / 256 ^ offset % 256 := by
        have hinside : address ≤ address + offset ∧
            address + offset < address + width := by omega
        unfold writeBytes
        rw [if_pos hinside, Nat.add_sub_cancel_left]
        simp
      rw [readBytes, hbyte, Nat.add_assoc, hrest, pow_succ 256 offset,
        ← Nat.div_div_eq_div_mul, pow_succ 256 remaining,
        Nat.mul_comm (256 ^ remaining) 256, Nat.mod_mul]

/-! ## Machine words -/

/-- A 64-bit load. -/
def readWord (memory : Memory) (address : ℕ) : ℕ :=
  readBytes memory address 8

/-- A 64-bit store. -/
def writeWord (memory : Memory) (address : ℕ) (value : ℕ) : Memory :=
  writeBytes memory address 8 value

theorem readWord_writeWord_same (memory : Memory) (address : ℕ) {value : ℕ}
    (hvalue : value < 2 ^ 64) :
    readWord (writeWord memory address value) address = value := by
  unfold readWord writeWord
  rw [readBytes_writeBytes, Nat.mod_eq_of_lt]
  simpa using hvalue

theorem readWord_congr {left right : Memory} {address : ℕ}
    (hagree : AgreeOn left right address (address + 8)) :
    readWord left address = readWord right address :=
  readBytes_congr hagree

theorem readWord_writeWord_disjoint (memory : Memory) {read written : ℕ}
    (value : ℕ) (hdisjoint : read + 8 ≤ written ∨ written + 8 ≤ read) :
    readWord (writeWord memory written value) read = readWord memory read :=
  readWord_congr (writeBytes_agreeOn memory (by omega))

theorem writeWord_outside (memory : Memory) {address target : ℕ}
    (value : ℕ) (houtside : target < address ∨ address + 8 ≤ target) :
    writeWord memory address value target = memory target :=
  writeBytes_outside memory houtside

end TbjitAlloc.ByteMemory
