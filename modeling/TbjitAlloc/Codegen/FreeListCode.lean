import TbjitAlloc.Codegen.MachineCode

/-!
# The free-list routines

The bytes of `emit_multi_freelist_alloc`, a ladder with one rung a size class,
and of `emit_freelist_alloc`, run on the machine: the head of the requested
class is popped, or its refill function is called when the list is empty, and a
size of no class deoptimizes.  Only the ladder passes the index of the class to
the refill function.
-/

namespace TbjitAlloc.Codegen

open TbjitAlloc.Analysis
open TbjitAlloc.X86

/-- What a routine does for a class it has. -/
structure ServesClass (image : Image) (entry : Machine)
    (head slot size : BitVec 32) (index : Option (BitVec 32))
    (refill : BitVec 64) : Prop where
  pop : entry.read64 (entry.fs head) ≠ 0 →
    ReturnsStoring image entry (entry.read64 (entry.fs head)) (entry.fs head)
      (entry.read64 (entry.read64 (entry.fs head)))
  refill : entry.read64 (entry.fs head) = 0 →
    ReturnsCall image entry refill
      (slowArguments slot size index (entry.reg .rdx))

/-- What a free-list routine does, by the request and the heads it finds. -/
structure ServesList (image : Image) (entry : Machine) (buf : BitVec 64)
    (base slot site : BitVec 32) (handler refill malloc : BitVec 64)
    (classSizes : List (BitVec 32)) (index : ℕ → Option (BitVec 32)) :
    Prop where
  known : ∀ i (hi : i < classSizes.length),
    entry.reg .rdi = classSizes[i].setWidth 64 →
    ServesClass image entry (headOffset base i) slot classSizes[i] (index i)
      refill
  unknown : (∀ size ∈ classSizes, entry.reg .rdi ≠ size.setWidth 64) →
    Deoptimizes image entry site buf .sizeDrift handler malloc

/-! ## The ladder -/

section Ladder

variable {image : Image} {entry : Machine}
variable {head slot size : BitVec 32} {refill : BitVec 64}
variable {rest : List (Line Label)}

theorem servesClass_of_reaches {index : Option (BitVec 32)} {zf cf : Bool}
    (haligned : (entry.reg .rsp).toNat % 16 = 8)
    (hreaches : Reaches image entry (interpret (popLines head ++
      (callLines slot size index refill ++ rest)) none
      (entry.setFlags zf cf))) :
    ServesClass image entry head slot size index refill := by
  rw [interpret_popLines] at hreaches
  constructor
  · intro hhead
    rw [if_neg] at hreaches
    · exact ⟨_, hreaches, rfl, rfl, rfl, rfl⟩
    · exact hhead
  · intro hnull
    rw [if_pos] at hreaches
    · exact ReturnsCall.of_reaches haligned hreaches rfl rfl rfl
    · exact hnull

/-- A rung serves its own size and passes every other one on. -/
theorem interpret_classLines (hsize : size < 4096) (index : BitVec 32)
    (s : State) :
    interpret (classLines head slot size index refill ++ rest) none s =
      if s.reg .rdi = size.setWidth 64 then
        interpret (popLines head ++ (callLines slot size (some index) refill ++
          (.label .skip :: rest))) none
          (s.compare (s.reg .rdi) (size.setWidth 64))
      else interpret rest none (s.compare (s.reg .rdi) (size.setWidth 64)) := by
  rw [classLines, List.append_assoc, List.append_assoc, List.append_assoc,
    interpret_guardLines _ _ hsize]
  by_cases hrequest : s.reg .rdi = size.setWidth 64
  · rw [if_pos hrequest, if_pos hrequest]
    rfl
  · rw [if_neg hrequest, if_neg hrequest, skip_popLines _ _ _ (by decide),
      skip_callLines]
    rfl

theorem widen_injective {left right : BitVec 32}
    (heq : left.setWidth 64 = right.setWidth 64) : left = right := by
  have hnarrow := congrArg (BitVec.setWidth 32) heq
  rwa [BitVec.setWidth_setWidth_of_le _ (by decide),
    BitVec.setWidth_setWidth_of_le _ (by decide), BitVec.setWidth_eq,
    BitVec.setWidth_eq] at hnarrow

theorem ladder_serves (base : BitVec 32) {sizes : List (BitVec 32)}
    (hsizes : ∀ size ∈ sizes, size < 4096) (hdistinct : sizes.Nodup)
    (haligned : (entry.reg .rsp).toNat % 16 = 8) {index : ℕ} {zf cf : Bool}
    (hreaches : Reaches image entry (interpret
      (ladderLines slot refill base index sizes ++ rest) none
      (entry.setFlags zf cf))) :
    (∀ i (hi : i < sizes.length), entry.reg .rdi = sizes[i].setWidth 64 →
      ServesClass image entry (headOffset base (index + i)) slot sizes[i]
        (some (BitVec.ofNat 32 (index + i))) refill) ∧
    ((∀ size ∈ sizes, entry.reg .rdi ≠ size.setWidth 64) →
      ∃ zf cf, Reaches image entry
        (interpret rest none (entry.setFlags zf cf))) := by
  induction sizes generalizing index zf cf with
  | nil =>
      refine ⟨fun i hi => absurd hi (Nat.not_lt_zero i), fun _ => ?_⟩
      exact ⟨zf, cf, hreaches⟩
  | cons size sizes ih =>
      rw [List.forall_mem_cons] at hsizes
      rw [List.nodup_cons] at hdistinct
      rw [ladderLines, List.append_assoc,
        interpret_classLines hsizes.1] at hreaches
      by_cases hrequest : entry.reg .rdi = size.setWidth 64
      · rw [if_pos] at hreaches
        · have hserves := servesClass_of_reaches haligned hreaches
          constructor
          · intro i hi hsame
            cases i with
            | zero => exact hserves
            | succ i =>
                -- The sizes are distinct, so no later rung has this one.
                have hlt : i < sizes.length := by simpa using hi
                have hequal : sizes[i] = size :=
                  widen_injective (hsame.symm.trans hrequest)
                exact absurd (hequal ▸ List.getElem_mem hlt) hdistinct.1
          · intro hother
            exact absurd hrequest (hother size List.mem_cons_self)
        · exact hrequest
      · rw [if_neg] at hreaches
        · obtain ⟨hknown, hunknown⟩ := ih hsizes.2 hdistinct.2 hreaches
          constructor
          · intro i hi hsame
            cases i with
            | zero => exact absurd hsame hrequest
            | succ i =>
                have hserves := hknown i (by simpa using hi) hsame
                rwa [Nat.add_right_comm] at hserves
          · intro hother
            exact hunknown fun other hmem =>
              hother other (List.mem_cons_of_mem _ hmem)
        · exact hrequest

end Ladder

section Emitted

variable {image : Image} {entry : Machine} (buf : BitVec 64)
variable (base slot site : BitVec 32) (handler refill malloc : BitVec 64)

theorem servesList_multiLayout {classSizes : List (BitVec 32)}
    (hsizes : ∀ size ∈ classSizes, size < 4096) (hdistinct : classSizes.Nodup)
    (haligned : (entry.reg .rsp).toNat % 16 = 8)
    (hreaches : Reaches image entry (interpret (multiLayout buf slot site
      handler refill malloc base classSizes) none entry.toState)) :
    ServesList image entry buf base slot site handler refill malloc classSizes
      (fun i => some (BitVec.ofNat 32 i)) := by
  obtain ⟨hknown, hunknown⟩ :=
    ladder_serves base hsizes hdistinct haligned hreaches
  constructor
  · intro i hi hsame
    have hserves := hknown i hi hsame
    rwa [Nat.zero_add] at hserves
  · intro hother
    obtain ⟨zf, cf, hrest⟩ := hunknown hother
    exact Deoptimizes.of_reaches haligned hrest (.inl rfl) rfl rfl rfl

theorem servesList_freelistLayout {size : BitVec 32} (hsize : size < 4096)
    (haligned : (entry.reg .rsp).toNat % 16 = 8)
    (hreaches : Reaches image entry (interpret (freelistLayout buf base slot
      site handler refill malloc size) none entry.toState)) :
    ServesList image entry buf base slot site handler refill malloc [size]
      (fun _ => none) := by
  rw [freelistLayout, List.append_assoc, List.append_assoc,
    interpret_guardLines _ _ hsize] at hreaches
  constructor
  · intro i hi hsame
    obtain rfl : i = 0 := by simpa using hi
    rw [if_pos] at hreaches
    · have hhead : headOffset base 0 = base := by simp [headOffset]
      rw [hhead]
      exact servesClass_of_reaches haligned hreaches
    · exact hsame
  · intro hother
    rw [if_neg (hother size (List.mem_singleton_self size)),
      skip_popLines _ _ _ (by decide), skip_callLines] at hreaches
    exact Deoptimizes.of_reaches haligned hreaches (.inr rfl) rfl rfl rfl

/-- The bytes of the free-list emitters are their assembled layouts, whose
jumps land on their labels, and serve every call as the layouts say. -/
theorem freeListCode_serves (hbuf : buf ≠ 0) {classSizes : List (BitVec 32)}
    (hsome : 0 < classSizes.length) (hfew : classSizes.length ≤ 4)
    (hdistinct : classSizes.Nodup)
    (hsizes : ∀ size ∈ classSizes, size < 4096) :
    (∀ bufSize, 512 ≤ bufSize →
      let layout := multiLayout buf slot site handler refill malloc base
        classSizes
      ∃ bytes, emitMultiFreelistAlloc buf bufSize slot site handler refill
          malloc base classSizes = some bytes ∧
        bytes.length ≤ 512 ∧ bytes = assemble layout ∧ Linked layout ∧
        ∀ image entry, Entered image entry bytes buf →
          ServesList image entry buf base slot site handler refill malloc
            classSizes (fun i => some (BitVec.ofNat 32 i))) ∧
    (∀ bufSize size, 200 ≤ bufSize → classSizes = [size] →
      let layout := freelistLayout buf base slot site handler refill malloc size
      ∃ bytes, emitFreelistAlloc buf bufSize base slot site handler refill
          malloc size = some bytes ∧
        bytes.length ≤ 200 ∧ bytes = assemble layout ∧ Linked layout ∧
        ∀ image entry, Entered image entry bytes buf →
          ServesList image entry buf base slot site handler refill malloc
            [size] (fun _ => none)) := by
  constructor
  · intro bufSize hbufSize layout
    have hlinked : Linked layout := linked_multiLayout ..
    refine ⟨_, emitMultiFreelistAlloc_eq _ _ _ _ _ _ hbuf hbufSize hsome hfew,
      ?_, rfl, hlinked, ?_⟩
    · rw [length_multiLayout]
      omega
    · intro image entry hentered
      exact servesList_multiLayout _ _ _ _ _ _ _ hsizes hdistinct
        hentered.aligned (hentered.reaches hlinked)
  · rintro bufSize size hbufSize rfl layout
    have hlinked : Linked layout := linked_freelistLayout ..
    refine ⟨_, emitFreelistAlloc_eq _ _ _ _ _ _ _ hbuf hbufSize, ?_, rfl,
      hlinked, ?_⟩
    · rw [length_freelistLayout]
      decide
    · intro image entry hentered
      exact servesList_freelistLayout _ _ _ _ _ _ _
        (hsizes size (List.mem_singleton_self size)) hentered.aligned
        (hentered.reaches hlinked)

/-- An empty list of 48-byte chunks, requested with 7 in `rdx`. -/
theorem freeListCode_serves_empty : ∃ image entry,
    entry.reg .rdi = 48 ∧ entry.rip = 0x1000 ∧
      ReturnsCall image entry 0x3000 [5, 48, 1] := by
  have hsizes : ∀ size ∈ ([32, 48] : List (BitVec 32)), size < 4096 := by simp
  obtain ⟨hmulti, _⟩ :=
    freeListCode_serves 0x1000 0 5 7 0x2000 0x3000 0x4000 (by decide)
      (by decide) (by decide) (by decide) hsizes
  obtain ⟨bytes, _, hlength, _, _, hserves⟩ := hmulti 512 le_rfl
  let image : Image := ⟨0x1000, bytes, by omega⟩
  let entry : Machine :=
    { reg := Function.update (fun _ => 48) .rsp 8, fsBase := 0x5000,
      zf := false, cf := false, memory := fun _ => 0, rip := 0x1000 }
  have hserved := hserves image entry ⟨rfl, List.prefix_rfl, rfl, by decide⟩
  exact ⟨image, entry, rfl, rfl,
    (hserved.known 1 (by decide) rfl).refill (by decide)⟩

/-- `emit_freelist_alloc` leaves `edx` to its caller. -/
theorem freelistCode_no_index : ∃ image entry bytes,
    emitFreelistAlloc 0x1000 200 0 5 7 0x2000 0x3000 0x4000 48 = some bytes ∧
      Entered image entry bytes 0x1000 ∧ entry.reg .rdi = 48 ∧
      entry.read64 (entry.fs 0) = 0 ∧
      ¬ReturnsCall image entry 0x3000 [5, 48, 0] := by
  let layout := freelistLayout 0x1000 0 5 7 0x2000 0x3000 0x4000 48
  have hlength : (assemble layout).length = 113 := length_freelistLayout ..
  let image : Image := ⟨0x1000, assemble layout, by omega⟩
  let entry : Machine :=
    { reg := Function.update (Function.update (fun _ => 7) .rsp 8) .rdi 48,
      fsBase := 0x5000, zf := false, cf := false, memory := fun _ => 0,
      rip := 0x1000 }
  have hentered : Entered image entry (assemble layout) 0x1000 :=
    ⟨rfl, List.prefix_rfl, rfl, by decide⟩
  have hserved : ServesList image entry 0x1000 0 5 7 0x2000 0x3000 0x4000 [48]
      (fun _ => none) :=
    servesList_freelistLayout _ _ _ _ _ _ _ (by decide) hentered.aligned
      (hentered.reaches (linked_freelistLayout ..))
  have hcall : ReturnsCall image entry 0x3000 [5, 48, 7] :=
    (hserved.known 0 (by decide) rfl).refill (by decide)
  refine ⟨image, entry, _, emitFreelistAlloc_eq _ _ _ _ _ _ _ (by decide)
    le_rfl, hentered, rfl, by decide, fun hindex => ?_⟩
  have houtside : image.fetch 0x3000 = [] := by
    apply List.drop_eq_nil_of_le
    change (assemble layout).length ≤ (0x3000 - 0x1000 : BitVec 64).toNat
    rw [hlength]
    decide
  have hsame := hcall.arguments_unique houtside (by rfl) hindex
  revert hsame
  decide

end Emitted

end TbjitAlloc.Codegen
