import TbjitAlloc.Analysis.Summary
import TbjitAlloc.X86.Assembly

/-!
# The emitters

What the emitters write at `buf`, byte by byte as the source does, with the
short displacements filled in once their labels are reached; and the layouts of
their comments as lines with labels.  Every emitter writes its assembled
layout, and every jump of a layout lands on its label.
-/

namespace TbjitAlloc.Codegen

open TbjitAlloc.Analysis
open TbjitAlloc.X86

/-! ## Writing bytes -/

/-- One `w8` a byte. -/
def w8 (p bytes : List Byte) : List Byte := p ++ bytes

def w32 (p : List Byte) (value : BitVec 32) : List Byte := p ++ imm32 value

def w64 (p : List Byte) (value : BitVec 64) : List Byte := p ++ imm64 value

/-- `static_cast<uint32_t>(reason)`. -/
def reasonCode : DeoptReason → BitVec 32
  | .none => 0
  | .sizeDrift => 1
  | .regionExhaust => 2
  | .threadShift => 3
  | .lifoViolation => 4
  | .other => 5

/-- `mov edx, reason` -/
def wReason (p : List Byte) (reason : DeoptReason) : List Byte :=
  w32 (w8 p [0xBA]) (reasonCode reason)

/-- Fill in the displacement at `offset` of a jump to the present end. -/
def patch (p : List Byte) (offset : ℕ) : List Byte :=
  p.set offset (BitVec.ofNat 8 (p.length - (offset + 1)))

/-- `cmp rdi, size; jne`, the displacement still open. -/
def wGuard (p : List Byte) (size : BitVec 32) : List Byte :=
  w8 (w32 (w8 p [0x48, 0x81, 0xFF]) size) [0x75, 0x00]

/-- `mov rax, fs:[offset]` -/
def wLoadRax (p : List Byte) (offset : BitVec 32) : List Byte :=
  w32 (w8 p [0x64, 0x48, 0x8B, 0x04, 0x25]) offset

/-- `mov fs:[offset], rcx; ret` -/
def wStoreRcx (p : List Byte) (offset : BitVec 32) : List Byte :=
  w8 (w32 (w8 p [0x64, 0x48, 0x89, 0x0C, 0x25]) offset) [0xC3]

/-- `lea rcx, [rax + size]` -/
def wAdvance (p : List Byte) (size : BitVec 32) : List Byte :=
  if size < 128 then w8 (w8 p [0x48, 0x8D, 0x48]) [size.setWidth 8]
  else w32 (w8 p [0x48, 0x8D, 0x88]) size

/-- `cmp rcx, fs:[offset]; jae`, the displacement still open. -/
def wBound (p : List Byte) (offset : BitVec 32) : List Byte :=
  w8 (w32 (w8 p [0x64, 0x48, 0x3B, 0x0C, 0x25]) offset) [0x73, 0x00]

/-- `sub rsp, 8; mov edi, slot; mov esi, size` -/
def wArguments (p : List Byte) (slot size : BitVec 32) : List Byte :=
  w32 (w8 (w32 (w8 (w8 p [0x48, 0x83, 0xEC, 0x08]) [0xBF]) slot) [0xBE]) size

/-- `movabs rax, fn; call rax; add rsp, 8; ret` -/
def wCall (p : List Byte) (fn : BitVec 64) : List Byte :=
  w8 (w64 (w8 p [0x48, 0xB8]) fn)
    [0xFF, 0xD0, 0x48, 0x83, 0xC4, 0x08, 0xC3]

/-- The deoptimization path. -/
def wDeopt (p : List Byte) (site : BitVec 32) (buf : BitVec 64)
    (reason : DeoptReason) (handler malloc : BitVec 64) : List Byte :=
  let p := w32 (w8 p [0x57, 0xBF]) site
  let p := w64 (w8 p [0x48, 0xBE]) buf
  let p := wReason p reason
  let p := w8 (w64 (w8 p [0x48, 0xB8]) handler) [0xFF, 0xD0, 0x5F]
  w8 (w64 (w8 p [0x48, 0xB8]) malloc) [0xFF, 0xE0]

/-! ## The emitters

The result is what is written at `buf`; the source returns its length, and zero
when it writes nothing. -/

section Bump

variable (buf : BitVec 64) (bufSize : ℕ)
variable (tlsPtr tlsEnd slot size site : BitVec 32)
variable (handler slow malloc : BitVec 64)

def emitBumpAlloc : Option (List Byte) :=
  if buf = 0 ∨ bufSize < 200 then none
  else
    let p := wGuard [] size
    let jneDeopt1 := p.length - 1
    let p := wLoadRax p tlsPtr
    let p := wAdvance p size
    let p := wBound p tlsEnd
    let jaeSlow := p.length - 1
    let p := wStoreRcx p tlsPtr
    let p := patch p jaeSlow
    -- An exhausted segment deoptimizes; only a null pointer is initialized.
    let p := w8 p [0x48, 0x83, 0xF8, 0x00, 0x75, 0x00]
    let jneDeopt2 := p.length - 1
    let p := wArguments p slot size
    let p := wCall p slow
    let p := patch p jneDeopt1
    let p := patch p jneDeopt2
    some (wDeopt p site buf .regionExhaust handler malloc)

/-- The bump fast path over a slow path that is always called. -/
def emitBumpOrCall : Option (List Byte) :=
  if buf = 0 ∨ bufSize < 200 then none
  else
    let p := wGuard [] size
    let jneDeopt := p.length - 1
    let p := wLoadRax p tlsPtr
    let p := wAdvance p size
    let p := wBound p tlsEnd
    let jaeSlow := p.length - 1
    let p := wStoreRcx p tlsPtr
    let p := patch p jaeSlow
    let p := wArguments p slot size
    let p := wCall p slow
    let p := patch p jneDeopt
    some (wDeopt p site buf .sizeDrift handler malloc)

def emitEpochArena : Option (List Byte) :=
  emitBumpOrCall buf bufSize tlsPtr tlsEnd slot size site handler slow malloc

def emitPcAlloc : Option (List Byte) :=
  emitBumpOrCall buf bufSize tlsPtr tlsEnd slot size site handler slow malloc

end Bump

section FreeList

variable (buf : BitVec 64) (bufSize : ℕ)
variable (head slot site : BitVec 32)
variable (handler refill malloc : BitVec 64)

/-- `mov rax, fs:[head]; test rax, rax; jz`, the displacement still open. -/
def wLoadHead (p : List Byte) (head : BitVec 32) : List Byte :=
  w8 (wLoadRax p head) [0x48, 0x85, 0xC0, 0x74, 0x00]

/-- `mov rcx, [rax]` and the new head. -/
def wPop (p : List Byte) (head : BitVec 32) : List Byte :=
  wStoreRcx (w8 p [0x48, 0x8B, 0x08]) head

def emitFreelistAlloc (size : BitVec 32) : Option (List Byte) :=
  if buf = 0 ∨ bufSize < 200 then none
  else
    let p := wGuard [] size
    let jneDeopt := p.length - 1
    let p := wLoadHead p head
    let jzRefill := p.length - 1
    let p := wPop p head
    let p := patch p jzRefill
    let p := wArguments p slot size
    let p := wCall p refill
    let p := patch p jneDeopt
    some (wDeopt p site buf .sizeDrift handler malloc)

/-- The body of the loop over the classes; nothing when the displacement over
it does not fit a byte. -/
def wClass (p : List Byte) (head slot size index : BitVec 32)
    (refill : BitVec 64) : Option (List Byte) :=
  let p := wGuard p size
  let jneSkip := p.length - 1
  let p := wLoadHead p head
  let jzRefill := p.length - 1
  let p := wPop p head
  let p := patch p jzRefill
  let p := wArguments p slot size
  let p := w32 (w8 p [0xBA]) index
  let p := wCall p refill
  let disp : ℤ := p.length - (jneSkip + 1)
  if disp < -128 ∨ 127 < disp then none else some (patch p jneSkip)

/-- The head of a class, in a table of eight-byte heads at `base`. -/
def headOffset (base : BitVec 32) (index : ℕ) : BitVec 32 :=
  base + BitVec.ofNat 32 (index * 8)

/-- The loop, from class `index` on. -/
def wLadder (base : BitVec 32) :
    ℕ → List (BitVec 32) → List Byte → Option (List Byte)
  | _, [], p => some p
  | index, size :: sizes, p =>
      (wClass p (headOffset base index) slot size (BitVec.ofNat 32 index)
        refill).bind fun p => wLadder base (index + 1) sizes p

def emitMultiFreelistAlloc (base : BitVec 32)
    (classSizes : List (BitVec 32)) : Option (List Byte) :=
  if buf = 0 ∨ bufSize < 512 then none
  else if classSizes.length = 0 ∨ 4 < classSizes.length then none
  else
    (wLadder slot refill base 0 classSizes []).map fun p =>
      wDeopt p site buf .sizeDrift handler malloc

end FreeList

/-! ## The layouts -/

inductive Label
  | slow
  | deopt
  | skip
  deriving DecidableEq, Repr

def rax : Base := ⟨.rax, by decide⟩

def guardLines (size : BitVec 32) (wrong : Label) : List (Line Label) :=
  [.op (.cmpImm .rdi size), .jump .ne wrong]

/-- The short form where the size fits it. -/
def advance (size : BitVec 32) : Op :=
  if size < 128 then .lea8 .rcx rax (size.setWidth 8) else .lea .rcx rax size

def bumpLines (tlsPtr tlsEnd size : BitVec 32) : List (Line Label) :=
  [.op (.loadFs .rax tlsPtr), .op (advance size), .op (.cmpFs .rcx tlsEnd),
    .jump .ae .slow, .op (.storeFs tlsPtr .rcx), .ret, .label .slow]

/-- Call a function with the stack aligned, and return what it returns. -/
def callLines (slot size : BitVec 32) (index : Option (BitVec 32))
    (fn : BitVec 64) : List (Line Label) :=
  [.op (.subImm8 .rsp 8), .op (.movImm32 .rdi slot),
    .op (.movImm32 .rsi size)] ++
    index.toList.map (fun index => .op (.movImm32 .rdx index)) ++
    [.op (.movImm64 .rax fn), .call .rax, .op (.addImm8 .rsp 8), .ret]

def deoptLines (site : BitVec 32) (buf : BitVec 64) (reason : DeoptReason)
    (handler malloc : BitVec 64) : List (Line Label) :=
  [.label .deopt, .op (.push .rdi), .op (.movImm32 .rdi site),
    .op (.movImm64 .rsi buf), .op (.movImm32 .rdx (reasonCode reason)),
    .op (.movImm64 .rax handler), .call .rax, .op (.pop .rdi),
    .op (.movImm64 .rax malloc), .jmp .rax]

section Bump

variable (buf : BitVec 64) (bufSize : ℕ)
variable (tlsPtr tlsEnd slot size site : BitVec 32)
variable (handler slow malloc : BitVec 64)

def bumpLayout : List (Line Label) :=
  guardLines size .deopt ++ bumpLines tlsPtr tlsEnd size ++
    [.op (.cmpImm8 .rax 0), .jump .ne .deopt] ++
    callLines slot size none slow ++
    deoptLines site buf .regionExhaust handler malloc

def bumpOrCallLayout : List (Line Label) :=
  guardLines size .deopt ++ bumpLines tlsPtr tlsEnd size ++
    callLines slot size none slow ++
    deoptLines site buf .sizeDrift handler malloc

end Bump

section FreeList

variable (buf : BitVec 64) (bufSize : ℕ)
variable (head slot site : BitVec 32)
variable (handler refill malloc : BitVec 64)

def popLines (head : BitVec 32) : List (Line Label) :=
  [.op (.loadFs .rax head), .op (.test .rax .rax), .jump .e .slow,
    .op (.load .rcx rax), .op (.storeFs head .rcx), .ret, .label .slow]

def freelistLayout (size : BitVec 32) : List (Line Label) :=
  guardLines size .deopt ++ popLines head ++
    callLines slot size none refill ++
    deoptLines site buf .sizeDrift handler malloc

def classLines (head slot size index : BitVec 32) (refill : BitVec 64) :
    List (Line Label) :=
  guardLines size .skip ++ popLines head ++
    callLines slot size (some index) refill ++
    [.label .skip]

def ladderLines (base : BitVec 32) : ℕ → List (BitVec 32) → List (Line Label)
  | _, [] => []
  | index, size :: sizes =>
      classLines (headOffset base index) slot size (BitVec.ofNat 32 index)
        refill ++ ladderLines base (index + 1) sizes

def multiLayout (base : BitVec 32) (classSizes : List (BitVec 32)) :
    List (Line Label) :=
  ladderLines slot refill base 0 classSizes ++
    deoptLines site buf .sizeDrift handler malloc

end FreeList

/-! ## The emitters write their layouts -/

section Written

attribute [local simp] assemble Line.instr distance Line.marks Line.size
  Line.Lands Linked Op.encode Instr.encode Reg.code Cond.code modrm imm32 imm64
attribute [local simp] w8 w32 w64 wReason patch wGuard wLoadRax wStoreRcx
  wAdvance wBound wArguments wCall wDeopt wLoadHead wPop
attribute [local simp] rax advance guardLines bumpLines callLines deoptLines
  popLines

section Bump

variable {buf : BitVec 64} (bufSize : ℕ)
variable (tlsPtr tlsEnd slot size site : BitVec 32)
variable (handler slow malloc : BitVec 64)

theorem emitBumpAlloc_eq (hbuf : buf ≠ 0#64) (hbufSize : 200 ≤ bufSize) :
    emitBumpAlloc buf bufSize tlsPtr tlsEnd slot size site handler slow malloc =
      some (assemble
        (bumpLayout buf tlsPtr tlsEnd slot size site handler slow malloc)) := by
  by_cases hshort : size < 128#32 <;>
    simp [emitBumpAlloc, bumpLayout, hbuf, hbufSize, hshort]

theorem emitBumpOrCall_eq (hbuf : buf ≠ 0#64) (hbufSize : 200 ≤ bufSize) :
    emitBumpOrCall buf bufSize tlsPtr tlsEnd slot size site handler slow
        malloc =
      some (assemble (bumpOrCallLayout buf tlsPtr tlsEnd slot size site handler
        slow malloc)) := by
  by_cases hshort : size < 128#32 <;>
    simp [emitBumpOrCall, bumpOrCallLayout, hbuf, hbufSize, hshort]

theorem linked_bumpLayout : Linked
    (bumpLayout buf tlsPtr tlsEnd slot size site handler slow malloc) := by
  by_cases hshort : size < 128#32 <;> simp [bumpLayout, hshort]

theorem linked_bumpOrCallLayout : Linked
    (bumpOrCallLayout buf tlsPtr tlsEnd slot size site handler slow
      malloc) := by
  by_cases hshort : size < 128#32 <;> simp [bumpOrCallLayout, hshort]

theorem length_bumpLayout : (assemble (bumpLayout buf tlsPtr tlsEnd slot size
    site handler slow malloc)).length ≤ 129 := by
  rw [length_assemble]
  by_cases hshort : size < 128#32 <;> simp [bumpLayout, hshort]

theorem length_bumpOrCallLayout : (assemble (bumpOrCallLayout buf tlsPtr tlsEnd
    slot size site handler slow malloc)).length ≤ 123 := by
  rw [length_assemble]
  by_cases hshort : size < 128#32 <;> simp [bumpOrCallLayout, hshort]

end Bump

section FreeList

variable {buf : BitVec 64} {bufSize : ℕ}
variable (head slot site : BitVec 32)
variable (handler refill malloc : BitVec 64)

theorem emitFreelistAlloc_eq (size : BitVec 32) (hbuf : buf ≠ 0#64)
    (hbufSize : 200 ≤ bufSize) :
    emitFreelistAlloc buf bufSize head slot site handler refill malloc size =
      some (assemble
        (freelistLayout buf head slot site handler refill malloc size)) := by
  simp [emitFreelistAlloc, freelistLayout, hbuf, hbufSize]

theorem linked_freelistLayout (size : BitVec 32) : Linked
    (freelistLayout buf head slot site handler refill malloc size) := by
  simp [freelistLayout]

theorem length_freelistLayout (size : BitVec 32) : (assemble
    (freelistLayout buf head slot site handler refill malloc size)).length =
      113 := by
  rw [length_assemble]
  simp [freelistLayout]

/-- The labels of a class are its own, so what follows does not matter. -/
theorem assemble_classLines (size index : BitVec 32)
    (rest : List (Line Label)) :
    assemble (classLines head slot size index refill ++ rest) =
      assemble (classLines head slot size index refill) ++ assemble rest := by
  simp [classLines]

theorem linked_classLines (size index : BitVec 32)
    (rest : List (Line Label)) :
    Linked (classLines head slot size index refill ++ rest) ↔ Linked rest := by
  simp [classLines]

theorem length_classLines (size index : BitVec 32) :
    ((classLines head slot size index refill).map Line.size).sum = 72 := by
  simp [classLines]

/-- The displacement over a class fits a byte. -/
theorem wClass_eq (p : List Byte) (size index : BitVec 32) :
    wClass p head slot size index refill =
      some (p ++ assemble (classLines head slot size index refill)) := by
  have hroom : ((p.length : ℤ) + 8 < p.length + 72 + 128) ∧
      ((p.length : ℤ) + 72 ≤ 127 + (p.length + 8 + 1)) := by
    omega
  simp [wClass, classLines, hroom]

theorem wLadder_eq (base : BitVec 32) (index : ℕ) (sizes : List (BitVec 32))
    (p : List Byte) :
    wLadder slot refill base index sizes p =
      some (p ++ assemble (ladderLines slot refill base index sizes)) := by
  induction sizes generalizing index p with
  | nil => simp [wLadder, ladderLines]
  | cons size sizes ih =>
      rw [wLadder, wClass_eq, Option.bind_some, ih, ladderLines,
        assemble_classLines, List.append_assoc]

theorem assemble_ladderLines (base : BitVec 32) (index : ℕ)
    (sizes : List (BitVec 32)) (rest : List (Line Label)) :
    assemble (ladderLines slot refill base index sizes ++ rest) =
      assemble (ladderLines slot refill base index sizes) ++ assemble rest := by
  induction sizes generalizing index with
  | nil => rfl
  | cons size sizes ih =>
      rw [ladderLines, List.append_assoc, assemble_classLines,
        assemble_classLines, ih, List.append_assoc]

theorem linked_ladderLines (base : BitVec 32) (index : ℕ)
    (sizes : List (BitVec 32)) (rest : List (Line Label)) :
    Linked (ladderLines slot refill base index sizes ++ rest) ↔
      Linked rest := by
  induction sizes generalizing index with
  | nil => rfl
  | cons size sizes ih =>
      rw [ladderLines, List.append_assoc, linked_classLines, ih]

theorem length_ladderLines (base : BitVec 32) (index : ℕ)
    (sizes : List (BitVec 32)) :
    ((ladderLines slot refill base index sizes).map Line.size).sum =
      72 * sizes.length := by
  induction sizes generalizing index with
  | nil => rfl
  | cons size sizes ih =>
      rw [ladderLines, List.map_append, List.sum_append, length_classLines, ih,
        List.length_cons]
      ring

theorem wDeopt_eq (p : List Byte) (reason : DeoptReason) :
    wDeopt p site buf reason handler malloc =
      p ++ assemble (deoptLines site buf reason handler malloc) := by
  simp

theorem emitMultiFreelistAlloc_eq (base : BitVec 32)
    {classSizes : List (BitVec 32)} (hbuf : buf ≠ 0#64)
    (hbufSize : 512 ≤ bufSize) (hsome : 0 < classSizes.length)
    (hfew : classSizes.length ≤ 4) :
    emitMultiFreelistAlloc buf bufSize slot site handler refill malloc base
        classSizes =
      some (assemble
        (multiLayout buf slot site handler refill malloc base classSizes)) := by
  have hroom : ¬(buf = 0 ∨ bufSize < 512) := by
    simpa [hbuf] using hbufSize
  have hcount : ¬(classSizes.length = 0 ∨ 4 < classSizes.length) := by omega
  rw [emitMultiFreelistAlloc, if_neg hroom, if_neg hcount, wLadder_eq,
    Option.map_some, wDeopt_eq, multiLayout, assemble_ladderLines,
    List.nil_append]

/-- The ladder starts by comparing the request with the first size. -/
example : (emitMultiFreelistAlloc 0x5000 1024 7 42 0xDEAD0000 0xBEEF0000
    0xCAFE0000 0x10 [32, 96]).map (fun bytes => bytes.take 7) =
      some [0x48, 0x81, 0xFF, 32, 0, 0, 0] := by
  decide +kernel

theorem linked_multiLayout (base : BitVec 32)
    (classSizes : List (BitVec 32)) : Linked
      (multiLayout buf slot site handler refill malloc base classSizes) := by
  rw [multiLayout, linked_ladderLines]
  simp

theorem length_multiLayout (base : BitVec 32)
    (classSizes : List (BitVec 32)) : (assemble
      (multiLayout buf slot site handler refill malloc base
        classSizes)).length = 72 * classSizes.length + 46 := by
  rw [length_assemble, multiLayout, List.map_append, List.sum_append,
    length_ladderLines]
  simp

end FreeList

end Written

end TbjitAlloc.Codegen
