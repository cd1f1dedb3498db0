import TbjitAlloc.Codegen.Emitter

/-!
# What the emitted routines do

The contracts of an emitted routine on the machine: it returns, it calls a
function with the stack aligned and returns what that returns, or it calls the
deoptimization handler and jumps to the real allocator.  A callee is known by
its convention only: it comes back with the stack pointer restored and the word
below the return address intact.
-/

namespace TbjitAlloc.Codegen

open TbjitAlloc.Analysis
open TbjitAlloc.X86

section Contracts

variable (image : Image) (entry : Machine)

/-- The arguments of a call, in the registers of the convention. -/
def HasArguments (m : Machine) (arguments : List (BitVec 64)) : Prop :=
  arguments <+: [m.reg .rdi, m.reg .rsi, m.reg .rdx]

/-- The machine gets to the first instruction of a function it has called with
the stack aligned. -/
structure Calls (target : BitVec 64) (arguments : List (BitVec 64))
    (called : Machine) : Prop where
  runs : Runs image entry called
  atTarget : called.rip = target
  arguments : HasArguments called arguments
  aligned : (called.reg .rsp + 8).toNat % 16 = 0

/-- A function called at `called` has come back. -/
structure Returned (called back : Machine) : Prop where
  rip : back.rip = called.top
  rsp : back.reg .rsp = called.reg .rsp + 8
  saved : back.top = called.drop.top

/-- The routine returns a pointer and changes the memory in one word. -/
def ReturnsStoring (ptr address value : BitVec 64) : Prop :=
  ∃ final, Runs image entry final ∧ final.reg .rax = ptr ∧
    final.memory = (entry.write64 address value).memory ∧
    final.reg .rsp = entry.reg .rsp + 8 ∧
    final.rip = final.read64 (entry.reg .rsp)

/-- The routine calls a function, having stored no more than the return
address, and returns what it returns. -/
def ReturnsCall (target : BitVec 64) (arguments : List (BitVec 64)) : Prop :=
  ∃ called address, Calls image entry target arguments called ∧
    called.memory =
      (entry.write64 (entry.reg .rsp - 16) address).memory ∧
    ∀ back, Returned called back →
      ∃ final, Runs image back final ∧ final.reg .rax = back.reg .rax ∧
        final.memory = back.memory ∧
        final.reg .rsp = entry.reg .rsp + 8 ∧
        final.rip = final.read64 (entry.reg .rsp)

/-- The routine calls the handler, having stored no more than the request and
the return address, and jumps to the real allocator as if called itself. -/
def Deoptimizes (site : BitVec 32) (buf : BitVec 64) (reason : DeoptReason)
    (handler malloc : BitVec 64) : Prop :=
  ∃ called address,
    Calls image entry handler
      [site.setWidth 64, buf, (reasonCode reason).setWidth 64] called ∧
    called.memory = ((entry.write64 (entry.reg .rsp - 8)
      (entry.reg .rdi)).write64 (entry.reg .rsp - 16) address).memory ∧
    ∀ back, Returned called back →
      ∃ final, Runs image back final ∧ final.rip = malloc ∧
        final.reg .rdi = entry.reg .rdi ∧
        final.reg .rsp = entry.reg .rsp ∧ final.memory = back.memory

/-- The routine whose bytes stand at `buf` has been called. -/
structure Entered (bytes : List Byte) (buf : BitVec 64) : Prop where
  base : image.base = buf
  bytes : bytes <+: image.bytes
  rip : entry.rip = buf
  aligned : (entry.reg .rsp).toNat % 16 = 8

end Contracts

/-- A function outside the image is called with one list of arguments. -/
theorem ReturnsCall.arguments_unique {image : Image} {entry : Machine}
    {target : BitVec 64} {left right : List (BitVec 64)}
    (houtside : image.fetch target = [])
    (hlength : left.length = right.length)
    (hleft : ReturnsCall image entry target left)
    (hright : ReturnsCall image entry target right) : left = right := by
  obtain ⟨called, _, hcalls, _⟩ := hleft
  obtain ⟨other, _, hothers, _⟩ := hright
  have hsame : called = other :=
    hcalls.runs.end_unique hothers.runs
      (step_outside (by rw [hcalls.atTarget, houtside]))
      (step_outside (by rw [hothers.atTarget, houtside]))
  have harguments := hothers.arguments
  rw [← hsame] at harguments
  exact List.IsPrefix.eq_of_length
    (List.prefix_of_prefix_length_le hcalls.arguments harguments hlength.le)
    hlength

/-! ## The pieces of the layouts -/

section Pieces

attribute [local simp] interpret Line.marks Op.apply Cond.holds State.compare

variable (rest : List (Line Label)) (s : State)

theorem signExtend_small {size : BitVec 32} (hsize : size < 4096) :
    size.signExtend 64 = size.setWidth 64 := by
  apply BitVec.signExtend_eq_setWidth_of_msb_false
  apply BitVec.msb_eq_false_iff_two_mul_lt.2
  have hbound : size.toNat < 4096 := hsize
  omega

theorem signExtend_byte {size : BitVec 32} (hshort : size < 128) :
    (size.setWidth 8).signExtend 64 = size.setWidth 64 := by
  have hbound : size.toNat < 128 := hshort
  have hbyte : (size.setWidth 8).toNat = size.toNat := by
    rw [BitVec.toNat_setWidth]
    omega
  rw [BitVec.signExtend_eq_setWidth_of_msb_false
    (BitVec.msb_eq_false_iff_two_mul_lt.2 (by omega))]
  apply BitVec.eq_of_toNat_eq
  rw [BitVec.toNat_setWidth, hbyte, BitVec.toNat_setWidth]

/-- Both forms of the `lea` add the size. -/
theorem advance_apply {size : BitVec 32} (hsize : size < 4096) :
    (advance size).apply s =
      s.set .rcx (s.reg .rax + size.setWidth 64) := by
  unfold advance
  by_cases hshort : size < 128
  · rw [if_pos hshort, Op.apply, signExtend_byte hshort]
    rfl
  · rw [if_neg hshort, Op.apply, signExtend_small hsize]
    rfl

theorem interpret_guardLines {size : BitVec 32} (hsize : size < 4096)
    (wrong : Label) :
    interpret (guardLines size wrong ++ rest) none s =
      interpret rest
        (if s.reg .rdi = size.setWidth 64 then none else some wrong)
        (s.compare (s.reg .rdi) (size.setWidth 64)) := by
  rw [← signExtend_small hsize]
  by_cases hrequest : s.reg .rdi = size.signExtend 64 <;>
    simp [guardLines, hrequest]

theorem interpret_bumpLines {tlsPtr tlsEnd size : BitVec 32}
    (hsize : size < 4096) :
    let next := s.read64 (s.fs tlsPtr) + size.setWidth 64
    let t := ((s.set .rax (s.read64 (s.fs tlsPtr))).set .rcx next).compare next
      (s.read64 (s.fs tlsEnd))
    interpret (bumpLines tlsPtr tlsEnd size ++ rest) none s =
      if next < s.read64 (s.fs tlsEnd) then
        .returns (t.write64 (s.fs tlsPtr) next)
      else interpret rest none t := by
  intro next t
  have hadvance : interpret (bumpLines tlsPtr tlsEnd size ++ rest) none s =
      interpret (.jump .ae .slow :: .op (.storeFs tlsPtr .rcx) :: .ret ::
        .label .slow :: rest) none t := by
    simp only [bumpLines, List.cons_append, interpret, advance_apply _ hsize]
    rfl
  rw [hadvance]
  by_cases hroom : next < s.read64 (s.fs tlsEnd)
  · have hult : next.ult (s.read64 (s.fs tlsEnd)) = true :=
      decide_eq_true hroom
    simp [t, hroom, hult]
  · have hult : next.ult (s.read64 (s.fs tlsEnd)) = false :=
      decide_eq_false hroom
    simp [t, hroom, hult]

theorem skip_bumpLines (tlsPtr tlsEnd size : BitVec 32) :
    interpret (bumpLines tlsPtr tlsEnd size ++ rest) (some .deopt) s =
      interpret rest (some .deopt) s := by
  simp [bumpLines]

theorem interpret_popLines (head : BitVec 32) :
    let ptr := s.read64 (s.fs head)
    let t := (s.set .rax ptr).setFlags (ptr = 0) false
    interpret (popLines head ++ rest) none s =
      if ptr = 0 then interpret rest none t
      else .returns ((t.set .rcx (s.read64 ptr)).write64 (s.fs head)
        (s.read64 ptr)) := by
  intro ptr t
  by_cases hnull : ptr = 0#64
  · simp [popLines, rax, t, ptr, hnull]
  · simp [popLines, rax, t, ptr, hnull]

theorem skip_popLines (head : BitVec 32) {target : Label}
    (hother : target ≠ .slow) :
    interpret (popLines head ++ rest) (some target) s =
      interpret rest (some target) s := by
  simp [popLines, hother.symm]

theorem skip_callLines (slot size : BitVec 32) (index : Option (BitVec 32))
    (fn : BitVec 64) (target : Label) :
    interpret (callLines slot size index fn ++ rest) (some target) s =
      interpret rest (some target) s := by
  cases index <;> simp [callLines]

/-- The arguments of a slow function; the third register is left alone when
there is no class to pass. -/
def slowArguments (slot size : BitVec 32) (index : Option (BitVec 32))
    (rdx : BitVec 64) : List (BitVec 64) :=
  [slot.setWidth 64, size.setWidth 64,
    (index.map fun index => index.setWidth 64).getD rdx]

theorem interpret_callLines (slot size : BitVec 32)
    (index : Option (BitVec 32)) (fn : BitVec 64) :
    ∃ t : State, interpret (callLines slot size index fn ++ rest) none s =
        .calls fn t (.op (.addImm8 .rsp 8) :: .ret :: rest) ∧
      slowArguments slot size index (s.reg .rdx) =
        [t.reg .rdi, t.reg .rsi, t.reg .rdx] ∧
      t.reg .rsp = s.reg .rsp - 8 ∧ t.memory = s.memory := by
  cases index <;> exact ⟨_, rfl, rfl, rfl, rfl⟩

theorem interpret_deoptLines (site : BitVec 32) (buf : BitVec 64)
    (reason : DeoptReason) (handler malloc : BitVec 64)
    {target : Option Label} (htarget : target = none ∨ target = some .deopt) :
    ∃ t : State, interpret (deoptLines site buf reason handler malloc) target
        s = .calls handler t [.op (.pop .rdi), .op (.movImm64 .rax malloc),
          .jmp .rax] ∧
      [site.setWidth 64, buf, (reasonCode reason).setWidth 64] =
        [t.reg .rdi, t.reg .rsi, t.reg .rdx] ∧
      t.reg .rsp = s.reg .rsp - 8 ∧
      t.memory = (s.write64 (s.reg .rsp - 8) (s.reg .rdi)).memory := by
  rcases htarget with rfl | rfl <;> exact ⟨_, rfl, rfl, rfl, rfl⟩

end Pieces

/-! ## The contracts are met -/

theorem ReturnsCall.of_longer {image : Image} {entry : Machine}
    {target : BitVec 64} {arguments longer : List (BitVec 64)}
    (harguments : arguments <+: longer)
    (hcall : ReturnsCall image entry target longer) :
    ReturnsCall image entry target arguments := by
  obtain ⟨called, address, hcalls, hrest⟩ := hcall
  exact ⟨called, address,
    { hcalls with arguments := harguments.trans hcalls.arguments }, hrest⟩

section Met

variable {image : Image} {entry : Machine}
variable (haligned : (entry.reg .rsp).toNat % 16 = 8)

/-- What happens after a call, from the lines left. -/
theorem Reaches.after {called back : Machine} {address : BitVec 64}
    {rest : List (Line Label)} (hplaced : Placed image address rest)
    (hlinked : Linked rest) (hreturned : Returned called back)
    (htop : called.top = address) :
    Reaches image back (interpret rest none back.toState) := by
  have hrip : back.rip = address := hreturned.rip.trans htop
  have hreaches := hplaced.reaches hlinked back.toState
  rwa [← hrip] at hreaches

theorem Entered.reaches {lines : List (Line Label)} {buf : BitVec 64}
    (hentered : Entered image entry (assemble lines) buf)
    (hlinked : Linked lines) :
    Reaches image entry (interpret lines none entry.toState) := by
  have hreaches :=
    (Placed.start hentered.bytes).reaches hlinked entry.toState
  rwa [hentered.base, ← hentered.rip] at hreaches

theorem Returned.rsp_eq {called back : Machine}
    (hreturned : Returned called back)
    (hcalled : called.reg .rsp = entry.reg .rsp - 16) :
    back.reg .rsp + 8 = entry.reg .rsp := by
  rw [hreturned.rsp, hcalled]
  bv_omega

include haligned

theorem aligned_call {called : Machine}
    (hcalled : called.reg .rsp = entry.reg .rsp - 16) :
    (called.reg .rsp + 8).toNat % 16 = 0 := by
  rw [hcalled]
  bv_omega

theorem ReturnsCall.of_reaches {s : State} {slot size : BitVec 32}
    {index : Option (BitVec 32)} {fn : BitVec 64} {rest : List (Line Label)}
    (hreaches : Reaches image entry
      (interpret (callLines slot size index fn ++ rest) none s))
    (hrsp : s.reg .rsp = entry.reg .rsp)
    (hrdx : s.reg .rdx = entry.reg .rdx)
    (hmemory : s.memory = entry.memory) :
    ReturnsCall image entry fn
      (slowArguments slot size index (entry.reg .rdx)) := by
  obtain ⟨t, hcalls, harguments, htrsp, htmemory⟩ :=
    interpret_callLines rest s slot size index fn
  rw [hcalls] at hreaches
  obtain ⟨address, hplaced, hlinked, hruns⟩ := hreaches
  have hcalled : (t.push address).reg .rsp = entry.reg .rsp - 16 := by
    rw [State.push_rsp, htrsp, hrsp]
    bv_omega
  refine ⟨_, address, ⟨hruns, rfl, ⟨[], by rw [← hrdx, harguments]; rfl⟩,
    aligned_call haligned hcalled⟩, ?_, ?_⟩
  · change (t.push address).memory = _
    rw [State.push_memory, ← State.push_rsp t address, hcalled, htmemory,
      hmemory]
    rfl
  · intro back hreturned
    have hback := hreturned.rsp_eq hcalled
    have hafter := Reaches.after hplaced hlinked hreturned
      (State.push_top t address)
    refine ⟨_, hafter, ?_, ?_, ?_, ?_⟩
    · rfl
    · rfl
    · rw [← hback]
      rfl
    · rw [← hback]
      rfl

theorem Deoptimizes.of_reaches {s : State} {site : BitVec 32}
    {buf : BitVec 64} {reason : DeoptReason} {handler malloc : BitVec 64}
    {target : Option Label}
    (hreaches : Reaches image entry
      (interpret (deoptLines site buf reason handler malloc) target s))
    (htarget : target = none ∨ target = some .deopt)
    (hrsp : s.reg .rsp = entry.reg .rsp)
    (hrdi : s.reg .rdi = entry.reg .rdi)
    (hmemory : s.memory = entry.memory) :
    Deoptimizes image entry site buf reason handler malloc := by
  obtain ⟨t, hcalls, harguments, htrsp, htmemory⟩ :=
    interpret_deoptLines s site buf reason handler malloc htarget
  rw [hcalls] at hreaches
  obtain ⟨address, hplaced, hlinked, hruns⟩ := hreaches
  have hcalled : (t.push address).reg .rsp = entry.reg .rsp - 16 := by
    rw [State.push_rsp, htrsp, hrsp]
    bv_omega
  have hmemories : (t.push address).memory =
      ((entry.write64 (entry.reg .rsp - 8) (entry.reg .rdi)).write64
        (entry.reg .rsp - 16) address).memory := by
    rw [State.push_memory, ← State.push_rsp t address, hcalled, htmemory,
      State.write64_memory, hmemory, hrsp, hrdi]
    rfl
  refine ⟨_, address, ⟨hruns, rfl, ⟨[], by rw [harguments]; rfl⟩,
    aligned_call haligned hcalled⟩, hmemories, ?_⟩
  · intro back hreturned
    have hsaved : back.top = entry.reg .rdi := by
      rw [hreturned.saved]
      change (t.push address).read64 ((t.push address).reg .rsp + 8) = _
      have hslot : (t.push address).reg .rsp + 8 = entry.reg .rsp - 8 := by
        rw [hcalled]
        bv_omega
      rw [hslot, State.read64_congr hmemories, State.read64_write64_other,
        State.read64_write64_same]
      all_goals bv_omega
    have hback := hreturned.rsp_eq hcalled
    have hafter := Reaches.after hplaced hlinked hreturned
      (State.push_top t address)
    refine ⟨_, hafter, ?_, ?_, ?_, ?_⟩
    · rfl
    · exact hsaved
    · exact hback
    · rfl

end Met

end TbjitAlloc.Codegen
