import Mathlib

/-!
# Some x86-64 instructions

The encodings of a few instructions on the eight low registers, with immediate
operands and thread-local addresses, and a decoder for them.  Every instruction
is decoded from its bytes, whatever follows them.
-/

namespace TbjitAlloc.X86

abbrev Byte := BitVec 8

inductive Reg
  | rax
  | rcx
  | rdx
  | rbx
  | rsp
  | rbp
  | rsi
  | rdi
  deriving DecidableEq, Repr

/-- A register that a plain operand byte can name as a base.  In its place the
code of `rsp` announces a scaled index and that of `rbp` a displacement. -/
abbrev Base := {reg : Reg // reg ≠ .rsp ∧ reg ≠ .rbp}

/-- The conditions of the short jumps: equal, not equal, above or equal. -/
inductive Cond
  | e
  | ne
  | ae
  deriving DecidableEq, Repr

/-- The instructions that go on to the next one. -/
inductive Op
  | cmpImm (reg : Reg) (imm : BitVec 32)
  | cmpImm8 (reg : Reg) (imm : BitVec 8)
  | addImm8 (reg : Reg) (imm : BitVec 8)
  | subImm8 (reg : Reg) (imm : BitVec 8)
  /-- `mov reg, fs:[disp]` -/
  | loadFs (reg : Reg) (disp : BitVec 32)
  /-- `mov fs:[disp], reg` -/
  | storeFs (disp : BitVec 32) (reg : Reg)
  /-- `cmp reg, fs:[disp]` -/
  | cmpFs (reg : Reg) (disp : BitVec 32)
  /-- `lea dst, [base + disp]` with the displacement in one byte or in four -/
  | lea8 (dst : Reg) (base : Base) (disp : BitVec 8)
  | lea (dst : Reg) (base : Base) (disp : BitVec 32)
  /-- `mov dst, [base]` -/
  | load (dst : Reg) (base : Base)
  | test (left right : Reg)
  /-- `mov` to the low half, which clears the upper one -/
  | movImm32 (reg : Reg) (imm : BitVec 32)
  | movImm64 (reg : Reg) (imm : BitVec 64)
  | push (reg : Reg)
  | pop (reg : Reg)
  deriving DecidableEq

inductive Instr
  | op (body : Op)
  | jcc (cond : Cond) (rel : BitVec 8)
  | call (reg : Reg)
  | jmp (reg : Reg)
  | ret
  deriving DecidableEq

/-! ## Operands -/

/-- The bytes of a value, the low one first. -/
def imm32 (value : BitVec 32) : List Byte :=
  [value.extractLsb' 0 8, value.extractLsb' 8 8, value.extractLsb' 16 8,
    value.extractLsb' 24 8]

def imm64 (value : BitVec 64) : List Byte :=
  imm32 (value.extractLsb' 0 32) ++ imm32 (value.extractLsb' 32 32)

/-- Take a value off the front. -/
def take8 : List Byte → Option (BitVec 8 × List Byte)
  | [] => none
  | byte :: rest => some (byte, rest)

def take32 : List Byte → Option (BitVec 32 × List Byte)
  | b0 :: b1 :: b2 :: b3 :: rest => some (b3 ++ b2 ++ b1 ++ b0, rest)
  | _ => none

def take64 (bytes : List Byte) : Option (BitVec 64 × List Byte) :=
  (take32 bytes).bind fun low =>
    (take32 low.2).map fun high => (high.1 ++ low.1, high.2)

@[simp] theorem length_imm32 (value : BitVec 32) : (imm32 value).length = 4 :=
  rfl

@[simp] theorem length_imm64 (value : BitVec 64) : (imm64 value).length = 8 :=
  rfl

@[simp] theorem take8_cons (byte : Byte) (rest : List Byte) :
    take8 (byte :: rest) = some (byte, rest) :=
  rfl

@[simp] theorem take32_imm32 (value : BitVec 32) (rest : List Byte) :
    take32 (imm32 value ++ rest) = some (value, rest) := by
  have hvalue : value.extractLsb' 24 8 ++ value.extractLsb' 16 8 ++
      value.extractLsb' 8 8 ++ value.extractLsb' 0 8 = value := by
    rw [BitVec.extractLsb'_append_extractLsb'_eq_extractLsb' (by rfl),
      BitVec.extractLsb'_append_extractLsb'_eq_extractLsb' (by rfl),
      BitVec.extractLsb'_append_extractLsb'_eq_extractLsb' (by rfl)]
    exact BitVec.extractLsb'_eq_self
  exact congrArg (fun value => some (value, rest)) hvalue

@[simp] theorem take64_imm64 (value : BitVec 64) (rest : List Byte) :
    take64 (imm64 value ++ rest) = some (value, rest) := by
  have hvalue : value.extractLsb' 32 32 ++ value.extractLsb' 0 32 = value := by
    rw [BitVec.extractLsb'_append_extractLsb'_eq_extractLsb' (by rfl)]
    exact BitVec.extractLsb'_eq_self
  rw [take64, imm64, List.append_assoc, take32_imm32, Option.bind_some,
    take32_imm32, Option.map_some, hvalue]

/-- The three-bit number of a register. -/
def Reg.code : Reg → ℕ
  | .rax => 0
  | .rcx => 1
  | .rdx => 2
  | .rbx => 3
  | .rsp => 4
  | .rbp => 5
  | .rsi => 6
  | .rdi => 7

def Reg.ofCode : ℕ → Reg
  | 0 => .rax
  | 1 => .rcx
  | 2 => .rdx
  | 3 => .rbx
  | 4 => .rsp
  | 5 => .rbp
  | 6 => .rsi
  | _ => .rdi

def Base.ofCode (code : ℕ) : Option Base :=
  if hbase : Reg.ofCode code ≠ .rsp ∧ Reg.ofCode code ≠ .rbp then
    some ⟨Reg.ofCode code, hbase⟩
  else none

theorem Reg.code_lt (reg : Reg) : reg.code < 8 := by
  cases reg <;> decide

@[simp] theorem Reg.ofCode_code (reg : Reg) : Reg.ofCode reg.code = reg := by
  cases reg <;> rfl

@[simp] theorem Base.ofCode_code (base : Base) :
    Base.ofCode base.1.code = some base := by
  unfold Base.ofCode
  simp only [Reg.ofCode_code]
  rw [dif_pos base.2]

/-- The operand byte: an addressing mode and two three-bit fields. -/
def modrm (mode field rm : ℕ) : Byte :=
  BitVec.ofNat 8 (64 * mode + 8 * field + rm)

def modeOf (operand : Byte) : ℕ := operand.toNat / 64

def fieldOf (operand : Byte) : ℕ := operand.toNat / 8 % 8

def rmOf (operand : Byte) : ℕ := operand.toNat % 8

section Modrm

variable {mode field rm : ℕ} (hmode : mode < 4) (hfield : field < 8)
  (hrm : rm < 8)

include hmode hfield hrm

theorem toNat_modrm : (modrm mode field rm).toNat =
    64 * mode + 8 * field + rm := by
  rw [modrm, BitVec.toNat_ofNat]
  omega

theorem modeOf_modrm : modeOf (modrm mode field rm) = mode := by
  rw [modeOf, toNat_modrm hmode hfield hrm]
  omega

theorem fieldOf_modrm : fieldOf (modrm mode field rm) = field := by
  rw [fieldOf, toNat_modrm hmode hfield hrm]
  omega

theorem rmOf_modrm : rmOf (modrm mode field rm) = rm := by
  rw [rmOf, toNat_modrm hmode hfield hrm]
  omega

end Modrm

/-! ## Encoding -/

def Cond.code : Cond → ℕ
  | .e => 4
  | .ne => 5
  | .ae => 3

def Op.encode : Op → List Byte
  | .cmpImm reg imm => [0x48, 0x81, modrm 3 7 reg.code] ++ imm32 imm
  | .cmpImm8 reg imm => [0x48, 0x83, modrm 3 7 reg.code, imm]
  | .addImm8 reg imm => [0x48, 0x83, modrm 3 0 reg.code, imm]
  | .subImm8 reg imm => [0x48, 0x83, modrm 3 5 reg.code, imm]
  | .loadFs reg disp =>
      [0x64, 0x48, 0x8B, modrm 0 reg.code 4, 0x25] ++ imm32 disp
  | .storeFs disp reg =>
      [0x64, 0x48, 0x89, modrm 0 reg.code 4, 0x25] ++ imm32 disp
  | .cmpFs reg disp =>
      [0x64, 0x48, 0x3B, modrm 0 reg.code 4, 0x25] ++ imm32 disp
  | .lea8 dst base disp => [0x48, 0x8D, modrm 1 dst.code base.1.code, disp]
  | .lea dst base disp =>
      [0x48, 0x8D, modrm 2 dst.code base.1.code] ++ imm32 disp
  | .load dst base => [0x48, 0x8B, modrm 0 dst.code base.1.code]
  | .test left right => [0x48, 0x85, modrm 3 right.code left.code]
  | .movImm32 reg imm => BitVec.ofNat 8 (0xB8 + reg.code) :: imm32 imm
  | .movImm64 reg imm => 0x48 :: BitVec.ofNat 8 (0xB8 + reg.code) :: imm64 imm
  | .push reg => [BitVec.ofNat 8 (0x50 + reg.code)]
  | .pop reg => [BitVec.ofNat 8 (0x58 + reg.code)]

def Instr.encode : Instr → List Byte
  | .op body => body.encode
  | .jcc cond rel => [BitVec.ofNat 8 (0x70 + cond.code), rel]
  | .call reg => [0xFF, modrm 3 2 reg.code]
  | .jmp reg => [0xFF, modrm 3 4 reg.code]
  | .ret => [0xC3]

/-! ## Decoding -/

/-- After the `fs` override: a wide access to an absolute address. -/
def decodeFs : List Byte → Option (Instr × List Byte)
  | rex :: opcode :: operand :: sib :: rest =>
      if rex = 0x48 ∧ modeOf operand = 0 ∧ rmOf operand = 4 ∧ sib = 0x25 then
        (take32 rest).bind fun disp =>
          let reg := Reg.ofCode (fieldOf operand)
          if opcode = 0x8B then some (.op (.loadFs reg disp.1), disp.2)
          else if opcode = 0x89 then some (.op (.storeFs disp.1 reg), disp.2)
          else if opcode = 0x3B then some (.op (.cmpFs reg disp.1), disp.2)
          else none
      else none
  | _ => none

/-- The wide instructions with an operand byte. -/
def decodeOperand (opcode operand : Byte) (rest : List Byte) :
    Option (Instr × List Byte) :=
  let field := Reg.ofCode (fieldOf operand)
  let rm := Reg.ofCode (rmOf operand)
  if opcode = 0x81 ∧ modeOf operand = 3 ∧ fieldOf operand = 7 then
    (take32 rest).map fun imm => (.op (.cmpImm rm imm.1), imm.2)
  else if opcode = 0x83 ∧ modeOf operand = 3 ∧ fieldOf operand = 7 then
    (take8 rest).map fun imm => (.op (.cmpImm8 rm imm.1), imm.2)
  else if opcode = 0x83 ∧ modeOf operand = 3 ∧ fieldOf operand = 0 then
    (take8 rest).map fun imm => (.op (.addImm8 rm imm.1), imm.2)
  else if opcode = 0x83 ∧ modeOf operand = 3 ∧ fieldOf operand = 5 then
    (take8 rest).map fun imm => (.op (.subImm8 rm imm.1), imm.2)
  else if opcode = 0x8D ∧ modeOf operand = 1 then
    (Base.ofCode (rmOf operand)).bind fun base =>
      (take8 rest).map fun disp => (.op (.lea8 field base disp.1), disp.2)
  else if opcode = 0x8D ∧ modeOf operand = 2 then
    (Base.ofCode (rmOf operand)).bind fun base =>
      (take32 rest).map fun disp => (.op (.lea field base disp.1), disp.2)
  else if opcode = 0x8B ∧ modeOf operand = 0 then
    (Base.ofCode (rmOf operand)).map fun base =>
      (.op (.load field base), rest)
  else if opcode = 0x85 ∧ modeOf operand = 3 then
    some (.op (.test rm field), rest)
  else none

/-- After `REX.W`. -/
def decodeWide : List Byte → Option (Instr × List Byte)
  | [] => none
  | opcode :: rest =>
      if 0xB8 ≤ opcode ∧ opcode < 0xC0 then
        (take64 rest).map fun imm =>
          (.op (.movImm64 (Reg.ofCode (opcode.toNat % 8)) imm.1), imm.2)
      else
        match rest with
        | [] => none
        | operand :: rest => decodeOperand opcode operand rest

/-- An instruction that starts with its opcode. -/
def decodePlain (opcode : Byte) (rest : List Byte) :
    Option (Instr × List Byte) :=
  let reg := Reg.ofCode (opcode.toNat % 8)
  if 0x50 ≤ opcode ∧ opcode < 0x58 then some (.op (.push reg), rest)
  else if 0x58 ≤ opcode ∧ opcode < 0x60 then some (.op (.pop reg), rest)
  else if 0xB8 ≤ opcode ∧ opcode < 0xC0 then
    (take32 rest).map fun imm => (.op (.movImm32 reg imm.1), imm.2)
  else if opcode = 0x74 then
    (take8 rest).map fun rel => (.jcc .e rel.1, rel.2)
  else if opcode = 0x75 then
    (take8 rest).map fun rel => (.jcc .ne rel.1, rel.2)
  else if opcode = 0x73 then
    (take8 rest).map fun rel => (.jcc .ae rel.1, rel.2)
  else if opcode = 0xC3 then some (.ret, rest)
  else if opcode = 0xFF then
    (take8 rest).bind fun operand =>
      let rm := Reg.ofCode (rmOf operand.1)
      if modeOf operand.1 = 3 ∧ fieldOf operand.1 = 2 then
        some (.call rm, operand.2)
      else if modeOf operand.1 = 3 ∧ fieldOf operand.1 = 4 then
        some (.jmp rm, operand.2)
      else none
  else none

/-- The first instruction, and the bytes after it. -/
def decode : List Byte → Option (Instr × List Byte)
  | [] => none
  | byte :: rest =>
      if byte = 0x64 then decodeFs rest
      else if byte = 0x48 then decodeWide rest
      else decodePlain byte rest

/-! ## The round trip -/

theorem decode_encode_op (body : Op) (rest : List Byte) :
    decode (body.encode ++ rest) = some (.op body, rest) := by
  cases body with
  | loadFs | storeFs | cmpFs =>
      simp [decode, decodeFs, Op.encode, modeOf_modrm, fieldOf_modrm,
        rmOf_modrm, Reg.code_lt]
  | movImm32 reg | movImm64 reg =>
      cases reg <;> simp [decode, decodeWide, decodePlain, Op.encode, Reg.code,
        Reg.ofCode]
  | push reg | pop reg => cases reg <;> rfl
  | _ =>
      simp [decode, decodeWide, decodeOperand, Op.encode, modeOf_modrm,
        fieldOf_modrm, rmOf_modrm, Reg.code_lt]

@[simp] theorem decode_encode (instr : Instr) (rest : List Byte) :
    decode (instr.encode ++ rest) = some (instr, rest) := by
  cases instr with
  | op body => exact decode_encode_op body rest
  | jcc cond rel => cases cond <;> rfl
  | call reg | jmp reg =>
      simp [decode, decodePlain, Instr.encode, modeOf_modrm, fieldOf_modrm,
        rmOf_modrm, Reg.code_lt]
  | ret => rfl

/-- `mov rax, fs:[16]; ret` -/
example : decode [0x64, 0x48, 0x8B, 0x04, 0x25, 0x10, 0, 0, 0, 0xC3] =
    some (.op (.loadFs .rax 16), [0xC3]) := by
  decide +kernel

end TbjitAlloc.X86
