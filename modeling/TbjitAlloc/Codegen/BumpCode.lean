import TbjitAlloc.Codegen.MachineCode

/-!
# The bump-shaped routines

The bytes of the three bump-shaped emitters, run on the machine: a wrong size
deoptimizes, a chunk below the limit is served by moving the cursor, and
otherwise the slow function is called, which `emit_bump_alloc` does only while
the cursor is null.
-/

namespace TbjitAlloc.Codegen

open TbjitAlloc.Analysis
open TbjitAlloc.X86

inductive BumpEmitter
  | bumpAlloc
  | epochArena
  | pcAlloc
  deriving DecidableEq, Repr

namespace BumpEmitter

def emit : BumpEmitter → BitVec 64 → ℕ → BitVec 32 → BitVec 32 → BitVec 32 →
    BitVec 32 → BitVec 32 → BitVec 64 → BitVec 64 → BitVec 64 →
    Option (List Byte)
  | .bumpAlloc => emitBumpAlloc
  | .epochArena => emitEpochArena
  | .pcAlloc => emitPcAlloc

def layout : BumpEmitter → BitVec 64 → BitVec 32 → BitVec 32 → BitVec 32 →
    BitVec 32 → BitVec 32 → BitVec 64 → BitVec 64 → BitVec 64 →
    List (Line Label)
  | .bumpAlloc => bumpLayout
  | .epochArena => bumpOrCallLayout
  | .pcAlloc => bumpOrCallLayout

def reason : BumpEmitter → DeoptReason
  | .bumpAlloc => .regionExhaust
  | .epochArena => .sizeDrift
  | .pcAlloc => .sizeDrift

end BumpEmitter

/-- What a bump-shaped routine does, by the request and the cursor it finds. -/
structure ServesBump (emitter : BumpEmitter) (image : Image) (entry : Machine)
    (buf : BitVec 64) (tlsPtr tlsEnd slot size site : BitVec 32)
    (handler slow malloc : BitVec 64) : Prop where
  wrongSize : entry.reg .rdi ≠ size.setWidth 64 →
    Deoptimizes image entry site buf emitter.reason handler malloc
  fast : entry.reg .rdi = size.setWidth 64 →
    entry.read64 (entry.fs tlsPtr) + size.setWidth 64 <
      entry.read64 (entry.fs tlsEnd) →
    ReturnsStoring image entry (entry.read64 (entry.fs tlsPtr))
      (entry.fs tlsPtr) (entry.read64 (entry.fs tlsPtr) + size.setWidth 64)
  slow : entry.reg .rdi = size.setWidth 64 →
    ¬entry.read64 (entry.fs tlsPtr) + size.setWidth 64 <
      entry.read64 (entry.fs tlsEnd) →
    (emitter = .bumpAlloc → entry.read64 (entry.fs tlsPtr) = 0) →
    ReturnsCall image entry slow [slot.setWidth 64, size.setWidth 64]
  exhausted : entry.reg .rdi = size.setWidth 64 →
    ¬entry.read64 (entry.fs tlsPtr) + size.setWidth 64 <
      entry.read64 (entry.fs tlsEnd) →
    emitter = .bumpAlloc → entry.read64 (entry.fs tlsPtr) ≠ 0 →
    Deoptimizes image entry site buf emitter.reason handler malloc

section Bump

variable {image : Image} {entry : Machine} {buf : BitVec 64}
variable {tlsPtr tlsEnd slot size site : BitVec 32}
variable {handler slow malloc : BitVec 64}

/-- Only a null pointer goes on to the call. -/
theorem interpret_nullCheck (rest : List (Line Label)) (s : State) :
    interpret ([.op (.cmpImm8 .rax 0), .jump .ne .deopt] ++ rest) none s =
      interpret rest (if s.reg .rax = 0 then none else some .deopt)
        (s.compare (s.reg .rax) 0) := by
  by_cases hnull : s.reg .rax = 0#64 <;>
    simp [interpret, Op.apply, Cond.holds, State.compare, hnull]

theorem servesBump_bumpAlloc (hsize : size < 4096)
    (haligned : (entry.reg .rsp).toNat % 16 = 8)
    (hreaches : Reaches image entry (interpret (bumpLayout buf tlsPtr tlsEnd
      slot size site handler slow malloc) none entry.toState)) :
    ServesBump .bumpAlloc image entry buf tlsPtr tlsEnd slot size site handler
      slow malloc := by
  rw [bumpLayout, List.append_assoc, List.append_assoc, List.append_assoc,
    interpret_guardLines _ _ hsize] at hreaches
  constructor
  · intro hwrong
    rw [if_neg hwrong, skip_bumpLines] at hreaches
    exact Deoptimizes.of_reaches haligned hreaches (.inr rfl) rfl rfl rfl
  · intro hright hroom
    rw [if_pos hright, interpret_bumpLines _ _ hsize] at hreaches
    rw [if_pos] at hreaches
    · exact ⟨_, hreaches, rfl, rfl, rfl, rfl⟩
    · exact hroom
  · intro hright hfull hnull
    rw [if_pos hright, interpret_bumpLines _ _ hsize] at hreaches
    rw [if_neg, interpret_nullCheck, if_pos] at hreaches
    · exact (ReturnsCall.of_reaches haligned hreaches rfl rfl rfl).of_longer
        ⟨[_], rfl⟩
    · exact hnull rfl
    · exact hfull
  · intro hright hfull _ hnull
    rw [if_pos hright, interpret_bumpLines _ _ hsize] at hreaches
    rw [if_neg, interpret_nullCheck, if_neg, skip_callLines] at hreaches
    · exact Deoptimizes.of_reaches haligned hreaches (.inr rfl) rfl rfl rfl
    · exact hnull
    · exact hfull

theorem servesBump_bumpOrCall {emitter : BumpEmitter}
    (hemitter : emitter ≠ .bumpAlloc) (hsize : size < 4096)
    (haligned : (entry.reg .rsp).toNat % 16 = 8)
    (hreaches : Reaches image entry (interpret (bumpOrCallLayout buf tlsPtr
      tlsEnd slot size site handler slow malloc) none entry.toState)) :
    ServesBump emitter image entry buf tlsPtr tlsEnd slot size site handler
      slow malloc := by
  have hreason : emitter.reason = .sizeDrift := by
    cases emitter with
    | bumpAlloc => exact absurd rfl hemitter
    | epochArena | pcAlloc => rfl
  rw [bumpOrCallLayout, List.append_assoc, List.append_assoc,
    interpret_guardLines _ _ hsize] at hreaches
  constructor
  · intro hwrong
    rw [if_neg hwrong, skip_bumpLines, skip_callLines] at hreaches
    rw [hreason]
    exact Deoptimizes.of_reaches haligned hreaches (.inr rfl) rfl rfl rfl
  · intro hright hroom
    rw [if_pos hright, interpret_bumpLines _ _ hsize] at hreaches
    rw [if_pos] at hreaches
    · exact ⟨_, hreaches, rfl, rfl, rfl, rfl⟩
    · exact hroom
  · intro hright hfull _
    rw [if_pos hright, interpret_bumpLines _ _ hsize] at hreaches
    rw [if_neg] at hreaches
    · exact (ReturnsCall.of_reaches haligned hreaches rfl rfl rfl).of_longer
        ⟨[_], rfl⟩
    · exact hfull
  · exact fun _ _ hbump => absurd hbump hemitter

theorem servesBump_layout (emitter : BumpEmitter) (hsize : size < 4096)
    (haligned : (entry.reg .rsp).toNat % 16 = 8)
    (hreaches : Reaches image entry (interpret (emitter.layout buf tlsPtr tlsEnd
      slot size site handler slow malloc) none entry.toState)) :
    ServesBump emitter image entry buf tlsPtr tlsEnd slot size site handler
      slow malloc := by
  cases emitter with
  | bumpAlloc => exact servesBump_bumpAlloc hsize haligned hreaches
  | epochArena | pcAlloc =>
      exact servesBump_bumpOrCall (by decide) hsize haligned hreaches

end Bump

section Emitted

variable (emitter : BumpEmitter) (buf : BitVec 64)
variable (tlsPtr tlsEnd slot size site : BitVec 32)
variable (handler slow malloc : BitVec 64)

theorem BumpEmitter.emit_eq {buf : BitVec 64} {bufSize : ℕ} (hbuf : buf ≠ 0)
    (hbufSize : 200 ≤ bufSize) :
    emitter.emit buf bufSize tlsPtr tlsEnd slot size site handler slow malloc =
      some (assemble (emitter.layout buf tlsPtr tlsEnd slot size site handler
        slow malloc)) := by
  cases emitter with
  | bumpAlloc => exact emitBumpAlloc_eq _ _ _ _ _ _ _ _ _ hbuf hbufSize
  | epochArena | pcAlloc =>
      exact emitBumpOrCall_eq _ _ _ _ _ _ _ _ _ hbuf hbufSize

theorem BumpEmitter.linked_layout : Linked (emitter.layout buf tlsPtr tlsEnd
    slot size site handler slow malloc) := by
  cases emitter with
  | bumpAlloc => exact linked_bumpLayout ..
  | epochArena | pcAlloc => exact linked_bumpOrCallLayout ..

theorem BumpEmitter.length_layout : (assemble (emitter.layout buf tlsPtr tlsEnd
    slot size site handler slow malloc)).length ≤ 200 := by
  cases emitter with
  | bumpAlloc => exact (length_bumpLayout ..).trans (by decide)
  | epochArena | pcAlloc =>
      exact (length_bumpOrCallLayout ..).trans (by decide)

/-- The bytes of a bump-shaped emitter are its assembled layout, whose jumps
land on their labels, and serve every call as the layout says. -/
theorem bumpCode_serves {bufSize : ℕ} (hbuf : buf ≠ 0)
    (hbufSize : 200 ≤ bufSize) (hsize : size < 4096) :
    let layout := emitter.layout buf tlsPtr tlsEnd slot size site handler slow
      malloc
    ∃ bytes, emitter.emit buf bufSize tlsPtr tlsEnd slot size site handler slow
        malloc = some bytes ∧
      bytes.length ≤ 200 ∧ bytes = assemble layout ∧ Linked layout ∧
      ∀ image entry, Entered image entry bytes buf →
        ServesBump emitter image entry buf tlsPtr tlsEnd slot size site handler
          slow malloc := by
  have hlinked := emitter.linked_layout buf tlsPtr tlsEnd slot size site
    handler slow malloc
  refine ⟨_, emitter.emit_eq _ _ _ _ _ _ _ _ hbuf hbufSize,
    emitter.length_layout .., rfl, hlinked, ?_⟩
  intro image entry hentered
  exact servesBump_layout emitter hsize hentered.aligned
    (hentered.reaches hlinked)

/-- The first call of a routine for 48 bytes. -/
theorem bumpCode_serves_first : ∃ image entry,
    entry.reg .rdi = 48 ∧ entry.rip = 0x1000 ∧
      ReturnsCall image entry 0x3000 [5, 48] := by
  obtain ⟨bytes, _, hlength, _, _, hserves⟩ :=
    bumpCode_serves .bumpAlloc 0x1000 0 8 5 48 7 0x2000 0x3000 0x4000
      (by decide) (le_refl 200) (by decide)
  let image : Image := ⟨0x1000, bytes, by omega⟩
  let entry : Machine :=
    { reg := fun reg => if reg = .rsp then 8 else 48, fsBase := 0x5000,
      zf := false, cf := false, memory := fun _ => 0, rip := 0x1000 }
  have hserved := hserves image entry ⟨rfl, List.prefix_rfl, rfl, by decide⟩
  exact ⟨image, entry, rfl, rfl,
    hserved.slow rfl (by decide) (fun _ => by decide)⟩

end Emitted

end TbjitAlloc.Codegen
