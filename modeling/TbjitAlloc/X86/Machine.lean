import TbjitAlloc.Core.ByteMemory
import TbjitAlloc.X86.Instr

/-!
# A machine for the instructions

The registers, two flags, the thread's segment base and a byte-addressed
memory.  The code is read from an image of its own that no store reaches, as on
a page that is not writable.  One step decodes the bytes at `rip` and executes
the instruction found there.
-/

namespace TbjitAlloc.X86

open TbjitAlloc.ByteMemory

/-- What the instructions act on, the instruction pointer apart. -/
structure State where
  reg : Reg → BitVec 64
  fsBase : BitVec 64
  /-- The last result was zero. -/
  zf : Bool
  /-- The last operation borrowed or carried. -/
  cf : Bool
  memory : Memory

structure Machine extends State where
  rip : BitVec 64

namespace State

def set (s : State) (reg : Reg) (value : BitVec 64) : State :=
  { s with reg := Function.update s.reg reg value }

def read64 (s : State) (address : BitVec 64) : BitVec 64 :=
  BitVec.ofNat 64 (readWord s.memory address.toNat)

def write64 (s : State) (address value : BitVec 64) : State :=
  { s with memory := writeWord s.memory address.toNat value.toNat }

/-- The address `fs:[disp]`. -/
def fs (s : State) (disp : BitVec 32) : BitVec 64 :=
  s.fsBase + disp.signExtend 64

def setFlags (s : State) (zf cf : Bool) : State :=
  { s with zf := zf, cf := cf }

def compare (s : State) (left right : BitVec 64) : State :=
  s.setFlags (left = right) (left.ult right)

def push (s : State) (value : BitVec 64) : State :=
  (s.write64 (s.reg .rsp - 8) value).set .rsp (s.reg .rsp - 8)

/-- The word on top of the stack. -/
def top (s : State) : BitVec 64 :=
  s.read64 (s.reg .rsp)

/-- Drop the word on top of the stack. -/
def drop (s : State) : State :=
  s.set .rsp (s.reg .rsp + 8)

end State

def Cond.holds (s : State) : Cond → Bool
  | .e => s.zf
  | .ne => !s.zf
  | .ae => !s.cf

def Op.apply (s : State) : Op → State
  | .cmpImm reg imm => s.compare (s.reg reg) (imm.signExtend 64)
  | .cmpImm8 reg imm => s.compare (s.reg reg) (imm.signExtend 64)
  | .addImm8 reg imm =>
      let sum := s.reg reg + imm.signExtend 64
      (s.setFlags (sum = 0) (sum.ult (s.reg reg))).set reg sum
  | .subImm8 reg imm =>
      (s.compare (s.reg reg) (imm.signExtend 64)).set reg
        (s.reg reg - imm.signExtend 64)
  | .loadFs reg disp => s.set reg (s.read64 (s.fs disp))
  | .storeFs disp reg => s.write64 (s.fs disp) (s.reg reg)
  | .cmpFs reg disp => s.compare (s.reg reg) (s.read64 (s.fs disp))
  | .lea8 dst base disp => s.set dst (s.reg base.1 + disp.signExtend 64)
  | .lea dst base disp => s.set dst (s.reg base.1 + disp.signExtend 64)
  | .load dst base => s.set dst (s.read64 (s.reg base.1))
  | .test left right => s.setFlags (s.reg left &&& s.reg right = 0) false
  | .movImm32 reg imm => s.set reg (imm.setWidth 64)
  | .movImm64 reg imm => s.set reg imm
  | .push reg => s.push (s.reg reg)
  | .pop reg => s.drop.set reg s.top

/-- Execute an instruction that ends at `next`. -/
def Instr.exec (s : State) (next : BitVec 64) : Instr → Machine
  | .op body => { body.apply s with rip := next }
  | .jcc cond rel =>
      { s with rip := if cond.holds s then next + rel.signExtend 64 else next }
  | .call reg => { s.push next with rip := s.reg reg }
  | .jmp reg => { s with rip := s.reg reg }
  | .ret => { s.drop with rip := s.top }

/-- Code bytes and the address of the first of them. -/
structure Image where
  base : BitVec 64
  bytes : List Byte
  bounded : bytes.length < 2 ^ 64

/-- The bytes from an address on. -/
def Image.fetch (image : Image) (address : BitVec 64) : List Byte :=
  image.bytes.drop (address - image.base).toNat

def step (image : Image) (m : Machine) : Option Machine :=
  (decode (image.fetch m.rip)).map fun found =>
    found.1.exec m.toState
      (m.rip + BitVec.ofNat 64 found.1.encode.length)

/-- Any number of steps. -/
def Runs (image : Image) : Machine → Machine → Prop :=
  Relation.ReflTransGen fun m next => step image m = some next

/-- Outside the image nothing is executed. -/
theorem step_outside {image : Image} {m : Machine}
    (houtside : image.fetch m.rip = []) : step image m = none := by
  rw [step, houtside]
  rfl

/-- A run ends in one state. -/
theorem Runs.end_unique {image : Image} {m left right : Machine}
    (hleft : Runs image m left) (hright : Runs image m right)
    (hleftEnd : step image left = none)
    (hrightEnd : step image right = none) : left = right := by
  have hends : ∀ {last other : Machine}, step image last = none →
      Runs image last other → last = other := by
    intro last other hlast hruns
    obtain rfl | ⟨next, hnext, _⟩ := hruns.cases_head
    · rfl
    · rw [hlast] at hnext
      cases hnext
  have hdeterministic : Relator.RightUnique
      fun m next : Machine => step image m = some next := by
    intro m one two hone htwo
    exact Option.some.inj (hone.symm.trans htwo)
  rcases Relation.ReflTransGen.total_of_right_unique hdeterministic hleft hright
    with hruns | hruns
  · exact hends hleftEnd hruns
  · exact (hends hrightEnd hruns).symm

/-! ## Registers and memory -/

namespace State

@[simp] theorem set_reg_same (s : State) (reg : Reg) (value : BitVec 64) :
    (s.set reg value).reg reg = value :=
  Function.update_self ..

@[simp] theorem set_reg_other (s : State) {reg other : Reg}
    (value : BitVec 64) (hother : other ≠ reg) :
    (s.set reg value).reg other = s.reg other :=
  Function.update_of_ne hother ..

@[simp] theorem set_memory (s : State) (reg : Reg) (value : BitVec 64) :
    (s.set reg value).memory = s.memory :=
  rfl

@[simp] theorem set_zf (s : State) (reg : Reg) (value : BitVec 64) :
    (s.set reg value).zf = s.zf :=
  rfl

@[simp] theorem set_cf (s : State) (reg : Reg) (value : BitVec 64) :
    (s.set reg value).cf = s.cf :=
  rfl

@[simp] theorem set_fs (s : State) (reg : Reg) (value : BitVec 64)
    (disp : BitVec 32) : (s.set reg value).fs disp = s.fs disp :=
  rfl

@[simp] theorem set_read64 (s : State) (reg : Reg) (value : BitVec 64)
    (address : BitVec 64) :
    (s.set reg value).read64 address = s.read64 address :=
  rfl

@[simp] theorem write64_reg (s : State) (address value : BitVec 64) :
    (s.write64 address value).reg = s.reg :=
  rfl

@[simp] theorem write64_memory (s : State) (address value : BitVec 64) :
    (s.write64 address value).memory =
      writeWord s.memory address.toNat value.toNat :=
  rfl

@[simp] theorem setFlags_reg (s : State) (zf cf : Bool) :
    (s.setFlags zf cf).reg = s.reg :=
  rfl

@[simp] theorem setFlags_memory (s : State) (zf cf : Bool) :
    (s.setFlags zf cf).memory = s.memory :=
  rfl

@[simp] theorem setFlags_zf (s : State) (zf cf : Bool) :
    (s.setFlags zf cf).zf = zf :=
  rfl

@[simp] theorem setFlags_cf (s : State) (zf cf : Bool) :
    (s.setFlags zf cf).cf = cf :=
  rfl

@[simp] theorem setFlags_fs (s : State) (zf cf : Bool) (disp : BitVec 32) :
    (s.setFlags zf cf).fs disp = s.fs disp :=
  rfl

@[simp] theorem setFlags_read64 (s : State) (zf cf : Bool)
    (address : BitVec 64) :
    (s.setFlags zf cf).read64 address = s.read64 address :=
  rfl

@[simp] theorem push_rsp (s : State) (value : BitVec 64) :
    (s.push value).reg .rsp = s.reg .rsp - 8 :=
  set_reg_same ..

@[simp] theorem push_reg_other (s : State) (value : BitVec 64) {reg : Reg}
    (hother : reg ≠ .rsp) : (s.push value).reg reg = s.reg reg :=
  set_reg_other _ _ hother

@[simp] theorem drop_rsp (s : State) : s.drop.reg .rsp = s.reg .rsp + 8 :=
  set_reg_same ..

theorem push_memory (s : State) (value : BitVec 64) :
    (s.push value).memory =
      writeWord s.memory (s.reg .rsp - 8).toNat value.toNat :=
  rfl

theorem read64_congr {s other : State} (hmemory : s.memory = other.memory)
    (address : BitVec 64) : s.read64 address = other.read64 address := by
  rw [read64, hmemory, read64]

theorem read64_write64_same (s : State) (address value : BitVec 64) :
    (s.write64 address value).read64 address = value := by
  unfold read64 write64
  rw [readWord_writeWord_same _ _ value.isLt, BitVec.ofNat_toNat,
    BitVec.setWidth_eq]

theorem push_top (s : State) (value : BitVec 64) :
    (s.push value).top = value := by
  rw [top, push_rsp]
  exact read64_write64_same s _ value

/-- Aligned words do not overlap. -/
theorem read64_write64_other (s : State) {address other : BitVec 64}
    (value : BitVec 64) (haligned : address.toNat % 8 = 0)
    (hotherAligned : other.toNat % 8 = 0) (hne : other ≠ address) :
    (s.write64 address value).read64 other = s.read64 other := by
  have hdiffers : other.toNat ≠ address.toNat :=
    fun heq => hne (BitVec.eq_of_toNat_eq heq)
  unfold read64 write64
  rw [readWord_writeWord_disjoint]
  omega

end State

end TbjitAlloc.X86
