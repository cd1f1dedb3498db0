import TbjitAlloc.X86.Machine

/-!
# Lines with labels and their bytes

A routine is a list of instructions and labels whose jumps go forward.  The
assembler replaces a label by its distance, and the interpreter runs the lines
themselves: it skips to the label of a jump that is taken, and stops when the
routine returns, calls or jumps away.  The machine on the assembled bytes does
what the interpreter does on the lines.
-/

namespace TbjitAlloc.X86

inductive Line (Label : Type*)
  | op (body : Op)
  | jump (cond : Cond) (target : Label)
  | label (name : Label)
  | call (reg : Reg)
  | jmp (reg : Reg)
  | ret

variable {Label : Type*} [DecidableEq Label]

/-! ## The assembler -/

def Line.marks (target : Label) : Line Label → Bool
  | .label name => name = target
  | _ => false

omit [DecidableEq Label] in
/-- The number of bytes of a line. -/
def Line.size : Line Label → ℕ
  | .op body => body.encode.length
  | .jump _ _ => 2
  | .label _ => 0
  | .call _ => 2
  | .jmp _ => 2
  | .ret => 1

/-- The number of bytes before a label. -/
def distance (target : Label) : List (Line Label) → Option ℕ
  | [] => none
  | line :: rest =>
      if line.marks target then some 0
      else (distance target rest).map fun bytes => line.size + bytes

/-- The instruction a line stands for, given the lines after it. -/
def Line.instr (rest : List (Line Label)) : Line Label → Option Instr
  | .op body => some (.op body)
  | .jump cond target =>
      some (.jcc cond (BitVec.ofNat 8 ((distance target rest).getD 0)))
  | .label _ => none
  | .call reg => some (.call reg)
  | .jmp reg => some (.jmp reg)
  | .ret => some .ret

def assemble : List (Line Label) → List Byte
  | [] => []
  | line :: rest => ((line.instr rest).elim [] Instr.encode) ++ assemble rest

/-- The label of a jump is ahead, no farther than a short jump reaches. -/
def Line.Lands (rest : List (Line Label)) : Line Label → Prop
  | .jump _ target => ∃ bytes, distance target rest = some bytes ∧ bytes ≤ 127
  | _ => True

/-- Every jump lands on its label. -/
def Linked : List (Line Label) → Prop
  | [] => True
  | line :: rest => line.Lands rest ∧ Linked rest

/-! ## The interpreter -/

inductive Outcome (Label : Type*)
  | returns (s : State)
  /-- The lines after the call are left. -/
  | calls (target : BitVec 64) (s : State) (rest : List (Line Label))
  | jumps (target : BitVec 64) (s : State)
  | lost

/-- Run the lines, from the given label on if there is one. -/
def interpret : List (Line Label) → Option Label → State → Outcome Label
  | [], _, _ => .lost
  | line :: rest, some target, s =>
      interpret rest (if line.marks target then none else some target) s
  | line :: rest, none, s =>
      match line with
      | .op body => interpret rest none (body.apply s)
      | .jump cond target =>
          interpret rest (if cond.holds s then some target else none) s
      | .label _ => interpret rest none s
      | .call reg => .calls (s.reg reg) s rest
      | .jmp reg => .jumps (s.reg reg) s
      | .ret => .returns s

/-! ## The bytes in an image -/

/-- The lines are assembled at an address of the image. -/
def Placed (image : Image) (address : BitVec 64)
    (lines : List (Line Label)) : Prop :=
  ∃ before trailing, image.bytes = before ++ (assemble lines ++ trailing) ∧
    address = image.base + BitVec.ofNat 64 before.length

/-- The machine gets where the interpreter gets. -/
def Reaches (image : Image) (m : Machine) : Outcome Label → Prop
  | .returns s => Runs image m { s.drop with rip := s.top }
  | .calls target s rest => ∃ back, Placed image back rest ∧ Linked rest ∧
      Runs image m { s.push back with rip := target }
  | .jumps target s => Runs image m { s with rip := target }
  | .lost => True

theorem length_instr (line : Line Label) (rest : List (Line Label)) :
    ((line.instr rest).elim [] Instr.encode).length = line.size := by
  cases line <;> rfl

theorem length_assemble (lines : List (Line Label)) :
    (assemble lines).length = (lines.map Line.size).sum := by
  induction lines with
  | nil => rfl
  | cons line rest ih =>
      rw [assemble, List.length_append, length_instr, ih, List.map_cons,
        List.sum_cons]

theorem Placed.start {image : Image} {lines : List (Line Label)}
    (hbytes : assemble lines <+: image.bytes) :
    Placed image image.base lines := by
  obtain ⟨trailing, htrailing⟩ := hbytes
  exact ⟨[], trailing, htrailing.symm, by simp⟩

section Placed

variable {image : Image} {address : BitVec 64}
variable {line : Line Label} {rest : List (Line Label)}

theorem Placed.tail (hplaced : Placed image address (line :: rest)) :
    Placed image (address + BitVec.ofNat 64 line.size) rest := by
  obtain ⟨before, trailing, hbytes, haddress⟩ := hplaced
  refine ⟨before ++ (line.instr rest).elim [] Instr.encode, trailing, ?_, ?_⟩
  · simpa [assemble, List.append_assoc] using hbytes
  · rw [List.length_append, length_instr, haddress, BitVec.ofNat_add,
      BitVec.add_assoc]

theorem Placed.fetch {lines : List (Line Label)}
    (hplaced : Placed image address lines) :
    ∃ trailing, image.fetch address = assemble lines ++ trailing := by
  obtain ⟨before, trailing, hbytes, haddress⟩ := hplaced
  have hbefore : before.length < 2 ^ 64 := by
    have hbounded := image.bounded
    rw [hbytes, List.length_append] at hbounded
    omega
  have hoffset : (address - image.base).toNat = before.length := by
    rw [haddress, BitVec.add_comm, BitVec.add_sub_cancel, BitVec.toNat_ofNat,
      Nat.mod_eq_of_lt hbefore]
  exact ⟨trailing, by rw [Image.fetch, hoffset, hbytes, List.drop_left]⟩

/-- A line that stands for an instruction is decoded and executed. -/
theorem Placed.step {instr : Instr} (s : State)
    (hplaced : Placed image address (line :: rest))
    (hinstr : line.instr rest = some instr) :
    step image { s with rip := address } =
      some (instr.exec s (address + BitVec.ofNat 64 line.size)) := by
  obtain ⟨trailing, hfetch⟩ := hplaced.fetch
  have hdecode : decode (image.fetch address) =
      some (instr, assemble rest ++ trailing) := by
    rw [hfetch, assemble, hinstr, List.append_assoc]
    exact decode_encode instr _
  have hsize : instr.encode.length = line.size := by
    rw [← length_instr line rest, hinstr]
    rfl
  simp only [X86.step, hdecode, Option.map_some, hsize]

end Placed

/-! ## The machine follows the interpreter -/

theorem Reaches.head {image : Image} {m next : Machine}
    {outcome : Outcome Label} (hstep : X86.step image m = some next)
    (hreaches : Reaches image next outcome) : Reaches image m outcome := by
  cases outcome with
  | returns s => exact Relation.ReflTransGen.head hstep hreaches
  | calls target s rest =>
      obtain ⟨back, hplaced, hlinked, hruns⟩ := hreaches
      exact ⟨back, hplaced, hlinked, Relation.ReflTransGen.head hstep hruns⟩
  | jumps target s => exact Relation.ReflTransGen.head hstep hreaches
  | lost => exact trivial

/-- How far ahead the interpreter goes on. -/
def ahead : Option Label → List (Line Label) → Option ℕ
  | none, _ => some 0
  | some target, lines => distance target lines

theorem signExtend_short {bytes : ℕ} (hbytes : bytes ≤ 127) :
    (BitVec.ofNat 8 bytes).signExtend 64 = BitVec.ofNat 64 bytes := by
  have hsmall : 2 * (BitVec.ofNat 8 bytes).toNat < 2 ^ 8 := by
    rw [BitVec.toNat_ofNat, Nat.mod_eq_of_lt (by omega)]
    omega
  rw [BitVec.signExtend_eq_setWidth_of_msb_false
    (BitVec.msb_eq_false_iff_two_mul_lt.2 hsmall),
    BitVec.setWidth_ofNat_of_le_of_lt (by decide) (by omega)]

theorem Placed.ahead_reaches {image : Image} {lines : List (Line Label)}
    {address : BitVec 64} (hplaced : Placed image address lines)
    (hlinked : Linked lines) (target : Option Label) (s : State) {bytes : ℕ}
    (hahead : ahead target lines = some bytes) :
    Reaches image { s with rip := address + BitVec.ofNat 64 bytes }
      (interpret lines target s) := by
  induction lines generalizing address target s bytes with
  | nil => exact trivial
  | cons line rest ih =>
      have htail := hplaced.tail
      cases target with
      | some target =>
          rw [ahead, distance] at hahead
          rw [interpret]
          by_cases hmarks : line.marks target
          · -- Only a label marks, and a label has no bytes.
            have hsize : line.size = 0 := by
              cases line <;> simp_all [Line.marks, Line.size]
            rw [if_pos hmarks] at hahead ⊢
            rw [hsize] at htail
            cases hahead
            simpa using ih htail hlinked.2 none s rfl
          · rw [if_neg hmarks] at hahead ⊢
            obtain ⟨left, hleft, rfl⟩ := Option.map_eq_some_iff.1 hahead
            have hreaches := ih htail hlinked.2 (some target) s hleft
            rwa [BitVec.add_assoc, ← BitVec.ofNat_add] at hreaches
      | none =>
          cases hahead
          rw [BitVec.add_zero]
          cases line with
          | op body =>
              have hreaches := ih htail hlinked.2 none (body.apply s) rfl
              rw [BitVec.add_zero] at hreaches
              exact hreaches.head (hplaced.step s rfl)
          | jump cond target =>
              obtain ⟨bytes, hbytes, hshort⟩ := hlinked.1
              have hstep := hplaced.step s rfl
              rw [hbytes, Option.getD_some, Instr.exec,
                signExtend_short hshort] at hstep
              rw [interpret]
              by_cases hholds : cond.holds s
              · rw [if_pos hholds] at hstep ⊢
                exact (ih htail hlinked.2 (some target) s hbytes).head hstep
              · rw [if_neg hholds] at hstep ⊢
                have hreaches := ih htail hlinked.2 none s rfl
                rw [BitVec.add_zero] at hreaches
                exact hreaches.head hstep
          | label name =>
              have hreaches := ih htail hlinked.2 none s rfl
              simpa [Line.size, interpret] using hreaches
          | call reg =>
              exact ⟨_, htail, hlinked.2, .single (hplaced.step s rfl)⟩
          | jmp reg =>
              exact Relation.ReflTransGen.single (hplaced.step s rfl)
          | ret =>
              exact Relation.ReflTransGen.single (hplaced.step s rfl)

/-- What the lines do from their first one on, the machine does. -/
theorem Placed.reaches {image : Image} {lines : List (Line Label)}
    {address : BitVec 64} (hplaced : Placed image address lines)
    (hlinked : Linked lines) (s : State) :
    Reaches image { s with rip := address } (interpret lines none s) := by
  have hreaches := hplaced.ahead_reaches hlinked none s rfl
  rwa [BitVec.add_zero] at hreaches

end TbjitAlloc.X86
