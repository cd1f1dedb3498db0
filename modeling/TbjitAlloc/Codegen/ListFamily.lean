import TbjitAlloc.Codegen.Routine
import TbjitAlloc.Segment.Frames

/-!
# Free lists of one routine

`ThreadLocalFreeList` and `MultiSizeFreeList` differ in the number of lists per
thread and in where these are kept.  A `ListFamily` is the lists of one compiled
routine, with the facts `compile` checked about them; results about it hold of
both strategies.  The module also computes the carving loop once and for all.
-/

namespace TbjitAlloc.Codegen

open TbjitAlloc.ByteMemory
open TbjitAlloc.Carving
open TbjitAlloc.LinkedChain
open TbjitAlloc.Segment

/-! ## Thread-local list words -/

section ListWords

variable (heap : Heap) (tid : ℕ) (ref : ListRef) (value : ℕ)

@[simp]
theorem setListHead_memory :
    (setListHead heap tid ref value).memory = heap.memory := by
  cases ref <;> rfl

@[simp]
theorem setListHead_header :
    (setListHead heap tid ref value).header = heap.header := by
  cases ref <;> rfl

@[simp]
theorem setListHead_mapped :
    (setListHead heap tid ref value).mapped = heap.mapped := by
  cases ref <;> rfl

@[simp]
theorem setListHead_pagemap :
    (setListHead heap tid ref value).pagemap = heap.pagemap := by
  cases ref <;> rfl

@[simp]
theorem setListHead_remoteLog :
    (setListHead heap tid ref value).remoteLog = heap.remoteLog := by
  cases ref <;> rfl

@[simp]
theorem setListSegs_memory :
    (setListSegs heap tid ref value).memory = heap.memory := by
  cases ref <;> rfl

@[simp]
theorem setListSegs_header :
    (setListSegs heap tid ref value).header = heap.header := by
  cases ref <;> rfl

@[simp]
theorem setListSegs_mapped :
    (setListSegs heap tid ref value).mapped = heap.mapped := by
  cases ref <;> rfl

@[simp]
theorem setListSegs_pagemap :
    (setListSegs heap tid ref value).pagemap = heap.pagemap := by
  cases ref <;> rfl

@[simp]
theorem setListSegs_remoteLog :
    (setListSegs heap tid ref value).remoteLog = heap.remoteLog := by
  cases ref <;> rfl

@[simp]
theorem listHead_setListHead (tid' : ℕ) (ref' : ListRef) :
    listHead (setListHead heap tid ref value) tid' ref' =
      if tid' = tid ∧ ref' = ref then value else listHead heap tid' ref' := by
  cases ref with
  | single slot =>
      cases ref' with
      | single slot' =>
          simp only [listHead, setListHead, Function.update_apply,
            Prod.mk.injEq, ListRef.single.injEq]
          split <;> rfl
      | sizeClass slot' classIdx' => simp [listHead, setListHead]
  | sizeClass slot classIdx =>
      cases ref' with
      | single slot' => simp [listHead, setListHead]
      | sizeClass slot' classIdx' =>
          by_cases hkey : tid' = tid ∧ slot' = slot
          · obtain ⟨rfl, rfl⟩ := hkey
            simp [listHead, setListHead, Function.update_apply]
          · rw [if_neg fun h => hkey ⟨h.1, (ListRef.sizeClass.inj h.2).1⟩]
            simp [listHead, setListHead, hkey]

@[simp]
theorem listSegs_setListHead (tid' : ℕ) (ref' : ListRef) :
    listSegs (setListHead heap tid ref value) tid' ref' =
      listSegs heap tid' ref' := by
  cases ref <;> cases ref' <;>
    simp only [listSegs, setListHead, Function.update_apply] <;>
    split <;> simp_all

@[simp]
theorem listSegs_setListSegs (tid' : ℕ) (ref' : ListRef) :
    listSegs (setListSegs heap tid ref value) tid' ref' =
      if tid' = tid ∧ ref' = ref then value else listSegs heap tid' ref' := by
  cases ref with
  | single slot =>
      cases ref' with
      | single slot' =>
          simp only [listSegs, setListSegs, Function.update_apply,
            Prod.mk.injEq, ListRef.single.injEq]
          split <;> rfl
      | sizeClass slot' classIdx' => simp [listSegs, setListSegs]
  | sizeClass slot classIdx =>
      cases ref' with
      | single slot' => simp [listSegs, setListSegs]
      | sizeClass slot' classIdx' =>
          by_cases hkey : tid' = tid ∧ slot' = slot
          · obtain ⟨rfl, rfl⟩ := hkey
            simp [listSegs, setListSegs, Function.update_apply]
          · rw [if_neg fun h => hkey ⟨h.1, (ListRef.sizeClass.inj h.2).1⟩]
            simp [listSegs, setListSegs, hkey]

@[simp]
theorem listHead_setListSegs (tid' : ℕ) (ref' : ListRef) :
    listHead (setListSegs heap tid ref value) tid' ref' =
      listHead heap tid' ref' := by
  cases ref <;> cases ref' <;>
    simp only [listHead, setListSegs, Function.update_apply] <;>
    split <;> simp_all

end ListWords

/-- A list word is a function of the two slot arrays. -/
theorem listHead_congr {heap heap' : Heap} {tid : ℕ} {ref : ListRef}
    (hsingle : heap'.freelists = heap.freelists)
    (hmulti : heap'.multiFreelists = heap.multiFreelists) :
    listHead heap' tid ref = listHead heap tid ref := by
  cases ref <;> simp only [listHead, hsingle, hmulti]

theorem listSegs_congr {heap heap' : Heap} {tid : ℕ} {ref : ListRef}
    (hsingle : heap'.freelists = heap.freelists)
    (hmulti : heap'.multiFreelists = heap.multiFreelists) :
    listSegs heap' tid ref = listSegs heap tid ref := by
  cases ref <;> simp only [listSegs, hsingle, hmulti]

theorem listHead_setMemory (heap : Heap) (tid : ℕ) (ref : ListRef)
    (memory : Memory) :
    listHead { heap with memory := memory } tid ref = listHead heap tid ref :=
  listHead_congr rfl rfl

theorem listSegs_setMemory (heap : Heap) (tid : ℕ) (ref : ListRef)
    (memory : Memory) :
    listSegs { heap with memory := memory } tid ref = listSegs heap tid ref :=
  listSegs_congr rfl rfl

/-! ## The lists of a routine -/

/-- The free lists a compiled routine keeps per thread. -/
structure ListFamily where
  slot : ℕ
  strategy : Strategy
  count : ℕ
  size : ℕ → ℕ
  ref : ℕ → ListRef
  size_ge : ∀ i < count, pointerSize ≤ size i
  ref_slot : ∀ i, (ref i).slot = slot
  ref_strategy : ∀ i, (ref i).strategy = strategy
  ref_classIdx : ∀ i < count, (ref i).classIdx = i

/-- The one list of a `ThreadLocalFreeList` routine. -/
def ListFamily.single (slot size : ℕ) (hsize : pointerSize ≤ size) :
    ListFamily where
  slot := slot
  strategy := .threadLocalFreeList
  count := 1
  size := fun _ => size
  ref := fun _ => .single slot
  size_ge := fun _ _ => hsize
  ref_slot := fun _ => rfl
  ref_strategy := fun _ => rfl
  ref_classIdx := fun i hi => by simp only [ListRef.classIdx]; omega

/-- The class lists of a `MultiSizeFreeList` routine. -/
def ListFamily.classes (slot count : ℕ) (sizes : ℕ → ℕ)
    (hsizes : ∀ i < count, pointerSize ≤ sizes i) : ListFamily where
  slot := slot
  strategy := .multiSizeFreeList
  count := count
  size := sizes
  ref := fun i => .sizeClass slot i
  size_ge := hsizes
  ref_slot := fun _ => rfl
  ref_strategy := fun _ => rfl
  ref_classIdx := fun _ _ => rfl

/-- The family of an accepted specification with a free-list strategy. -/
inductive FamilyOf (spec : RoutineSpec) (slot : ℕ) : ListFamily → Prop
  | single (hstrategy : spec.strategy = .threadLocalFreeList)
      (hsize : pointerSize ≤ spec.size) :
      FamilyOf spec slot (.single slot spec.size hsize)
  | classes (hstrategy : spec.strategy = .multiSizeFreeList)
      (hsizes : ∀ i < spec.classCount, pointerSize ≤ spec.classSizes i) :
      FamilyOf spec slot (.classes slot spec.classCount spec.classSizes hsizes)

theorem familyOf_accepted {spec : RoutineSpec} (slot : ℕ)
    (haccepts : compileAccepts spec)
    (hlist : spec.strategy = .threadLocalFreeList ∨
      spec.strategy = .multiSizeFreeList) :
    ∃ family, FamilyOf spec slot family := by
  obtain ⟨_, _, _, hsingle, hmulti⟩ := haccepts
  rcases hlist with hstrategy | hstrategy
  · exact ⟨_, .single hstrategy (hsingle hstrategy)⟩
  · exact ⟨_, .classes hstrategy (hmulti hstrategy).2.2⟩

section Family

variable {spec : RoutineSpec} {slot : ℕ} {family : ListFamily}

theorem ListFamily.ref_injOn {left right : ℕ} (hleft : left < family.count)
    (hright : right < family.count) (heq : family.ref left = family.ref right) :
    left = right := by
  rw [← family.ref_classIdx left hleft, heq, family.ref_classIdx right hright]

theorem findClass_eq_some {sizes : ℕ → ℕ} {count request i : ℕ}
    (hfind : findClass sizes count request = some i) :
    i < count ∧ sizes i = request := by
  have hmem := List.mem_of_find?_eq_some hfind
  have hpred := List.find?_some hfind
  exact ⟨List.mem_range.mp hmem, by simpa using hpred⟩

/-- A served call pops or refills the list of the requested class; any other
call leaves the heap alone. -/
theorem FamilyOf.routine (hfamily : FamilyOf spec slot family)
    {layout : SegmentLayout} {tid request base : ℕ} {heap heap' : Heap}
    {served : Served}
    (hroutine : routine layout spec slot tid request base heap =
      some (heap', served)) :
    (served = .deopt ∧ heap' = heap) ∨
      ∃ i < family.count, request = family.size i ∧
        popOrRefill layout (family.ref i) (family.size i) tid base heap =
          some (heap', served) := by
  cases hfamily with
  | single hstrategy hsize =>
      simp only [Codegen.routine, hstrategy, freelistRoutine] at hroutine
      by_cases hrequest : request = spec.size
      · rw [if_neg (not_not.mpr hrequest)] at hroutine
        exact Or.inr ⟨0, Nat.one_pos, hrequest, hroutine⟩
      · rw [if_pos hrequest, Option.some.injEq, Prod.mk.injEq] at hroutine
        exact Or.inl ⟨hroutine.2.symm, hroutine.1.symm⟩
  | classes hstrategy hsizes =>
      simp only [Codegen.routine, hstrategy, multiRoutine] at hroutine
      cases hfind : findClass spec.classSizes spec.classCount request with
      | none =>
          rw [hfind] at hroutine
          simp only [Option.some.injEq, Prod.mk.injEq] at hroutine
          exact Or.inl ⟨hroutine.2.symm, hroutine.1.symm⟩
      | some i =>
          rw [hfind] at hroutine
          obtain ⟨hi, hsize⟩ := findClass_eq_some hfind
          exact Or.inr ⟨i, hi, hsize.symm, hroutine⟩

/-- The free of a list chunk goes through the list the header names. -/
theorem freeManaged_of_ref {heap : Heap} {tid base ptr : ℕ}
    {header : SegmentHeader} (ref : ListRef)
    (hload : heap.loadHeader base = some header)
    (hstrategy : header.strategy = ref.strategy)
    (hslot : header.slotIndex = ref.slot)
    (hclass : header.classIdx = ref.classIdx) :
    freeManaged heap tid base ptr =
      freeToList heap ref tid base ptr header := by
  cases ref <;>
    simp only [ListRef.strategy, ListRef.slot, ListRef.classIdx] at * <;>
    simp [freeManaged, hload, hstrategy, hslot, hclass]

end Family

/-! ## Carving -/

/-- The carving loop from the chunk with number `number` on, when the chunks
below it are already linked. -/
theorem carveLoop_spec {start size limit : ℕ} (hsize : pointerSize ≤ size)
    (hlimit : limit < 2 ^ 64) {fuel number : ℕ} {memory : Memory} {head : ℕ}
    (hstart : 0 < start) (hle : start ≤ limit)
    (hfuel : (limit - start) / size ≤ number + fuel)
    (hnumber : number ≤ (limit - start) / size)
    (hchain : Chain 0 (readWord memory) head (pieces start size number).reverse) :
    Chain 0 (readWord
        (carveLoop size limit fuel memory (piece start size number) head).1)
      (carveLoop size limit fuel memory (piece start size number) head).2
      (pieces start size ((limit - start) / size)).reverse ∧
    ∀ address, address < start ∨ limit ≤ address →
      (carveLoop size limit fuel memory (piece start size number) head).1
        address = memory address := by
  have hpos : 0 < size := lt_of_lt_of_le (by decide) hsize
  induction fuel generalizing number memory head with
  | zero =>
      obtain rfl : number = (limit - start) / size := by omega
      exact ⟨hchain, fun _ _ => rfl⟩
  | succ fuel ih =>
      by_cases hmore : number < (limit - start) / size
      · have hfits := (piece_add_le_iff_of_le hpos hle).mpr hmore
        have hlow := start_le_piece start size number
        have hhead : head < 2 ^ 64 := by
          rcases hchain.head_mem with rfl | hmem
          · norm_num
          · obtain ⟨other, hother, rfl⟩ :=
              mem_pieces.mp (List.mem_reverse.mp hmem)
            have := piece_add_le start size hother
            omega
        -- The new link is written above every chunk linked so far.
        have hlinked : Chain 0
            (readWord (writeWord memory (piece start size number) head))
            (piece start size number)
            (pieces start size (number + 1)).reverse := by
          rw [pieces_succ, List.reverse_append]
          refine hchain.push (by omega) (readWord_writeWord_same _ _ hhead) ?_
          intro node hnode
          obtain ⟨other, hother, rfl⟩ :=
            mem_pieces.mp (List.mem_reverse.mp hnode)
          have hbelow := piece_add_le start size hother
          exact readWord_writeWord_disjoint _ _
            (Or.inl (by unfold pointerSize at hsize; omega))
        have hunfold : carveLoop size limit (fuel + 1) memory
              (piece start size number) head =
            carveLoop size limit fuel
              (writeWord memory (piece start size number) head)
              (piece start size (number + 1)) (piece start size number) := by
          rw [carveLoop, if_pos hfits, piece_succ]
        obtain ⟨hresult, hframe⟩ := ih (by omega) hmore hlinked
        rw [hunfold]
        refine ⟨hresult, fun address haddress => ?_⟩
        rw [hframe address haddress]
        exact writeWord_outside _ _ (by unfold pointerSize at hsize; omega)
      · have hstop : ¬ piece start size number + size ≤ limit := fun h =>
          hmore ((piece_add_le_iff_of_le hpos hle).mp h)
        obtain rfl : number = (limit - start) / size := by omega
        rw [carveLoop, if_neg hstop]
        exact ⟨hchain, fun _ _ => rfl⟩

/-! ## A fresh segment -/

/-- The heap after a refill has replaced the active segment of `ref` by the one
at `base` and is about to return `ptr`. -/
structure Carved (layout : SegmentLayout) (ref : ListRef)
    (tid size base : ℕ) (before after : Heap) (ptr : ℕ) : Prop where
  header : ∃ fresh : SegmentHeader,
    after.header = Function.update before.header base (some fresh) ∧
      fresh.strategy = ref.strategy ∧ fresh.slotIndex = ref.slot ∧
      fresh.classIdx = ref.classIdx ∧ fresh.ownerTid = tid ∧
      fresh.chunkSize = size ∧ fresh.remoteHead = 0 ∧ fresh.retired = false
  registry : RegistryOk layout before → RegistryOk layout after
  mapped : after.mapped = Function.update before.mapped base true
  remoteLog : after.remoteLog = Function.update before.remoteLog base []
  segs : ∀ tid' ref', listSegs after tid' ref' =
    if tid' = tid ∧ ref' = ref then base else listSegs before tid' ref'
  head : ∀ tid' ref', listHead after tid' ref' =
    if tid' = tid ∧ ref' = ref then readWord after.memory ptr
    else listHead before tid' ref'
  chain : ∃ count, chunkCount layout size = count + 1 ∧
    ptr = piece (payloadStart base) size count ∧
    Chain 0 (readWord after.memory) ptr
      (ptr :: (pieces (payloadStart base) size count).reverse)
  memory : ∀ address, address < base ∨ segmentEnd layout base ≤ address →
    after.memory address = before.memory address

/-- Carving a whole segment links as many chunks as fit in its payload. -/
theorem carveLoop_segment {layout : SegmentLayout} {size base : ℕ}
    (memory : Memory) (hsize : pointerSize ≤ size)
    (hplaced : base + layout.segmentSize < 2 ^ 47) :
    Chain 0 (readWord (carveLoop size (segmentEnd layout base)
        layout.segmentSize memory (payloadStart base) 0).1)
      (carveLoop size (segmentEnd layout base) layout.segmentSize memory
        (payloadStart base) 0).2
      (pieces (payloadStart base) size (chunkCount layout size)).reverse ∧
    ∀ address, address < payloadStart base ∨ segmentEnd layout base ≤ address →
      (carveLoop size (segmentEnd layout base) layout.segmentSize memory
        (payloadStart base) 0).1 address = memory address := by
  have hge := segmentSize_ge layout
  have hstart : 0 < payloadStart base := by
    unfold payloadStart headerSize
    omega
  have hle : payloadStart base ≤ segmentEnd layout base := by
    unfold payloadStart segmentEnd headerSize
    omega
  have hcount : (segmentEnd layout base - payloadStart base) / size =
      chunkCount layout size := by
    have hrange : segmentEnd layout base - payloadStart base =
        layout.segmentSize - headerSize := by
      unfold payloadStart segmentEnd
      omega
    rw [chunkCount, hrange]
  have hlimit : segmentEnd layout base < 2 ^ 64 := by
    unfold segmentEnd
    omega
  have hfuel : (segmentEnd layout base - payloadStart base) / size ≤
      0 + layout.segmentSize := by
    rw [hcount, chunkCount, Nat.zero_add]
    exact (Nat.div_le_self _ _).trans (Nat.sub_le _ _)
  have hnone : Chain 0 (readWord memory) 0
      (pieces (payloadStart base) size 0).reverse := by simp [pieces]
  have hspec := carveLoop_spec hsize hlimit hstart hle hfuel (Nat.zero_le _)
    hnone
  rwa [piece_zero, hcount] at hspec

theorem carved_refillFresh {layout : SegmentLayout} {ref : ListRef}
    {tid size base : ℕ} {heap heap' : Heap} {ptr : ℕ}
    (hsize : pointerSize ≤ size) (hfresh : Fresh layout heap base)
    (hrefill : refillFresh layout ref tid size base heap =
      some (heap', ptr)) :
    Carved layout ref tid size base heap heap' ptr := by
  have hspec := carveLoop_segment
    (fill heap.memory base (segmentEnd layout base) 0) hsize hfresh.2.2.1
  have hmemory : (allocSegment layout heap tid ref.strategy ref.slot
      (heap.slotToSite ref.slot) size base).memory =
        fill heap.memory base (segmentEnd layout base) 0 := rfl
  simp only [refillFresh, setListSegs_memory, hmemory] at hrefill
  obtain ⟨hchain, hframe⟩ := hspec
  generalize carveLoop size (segmentEnd layout base) layout.segmentSize
    (fill heap.memory base (segmentEnd layout base) 0) (payloadStart base) 0 =
    carved at hrefill hchain hframe
  obtain ⟨memory, last⟩ := carved
  by_cases hlast : last = 0
  · simp [hlast] at hrefill
  rw [if_neg hlast, Option.some.injEq, Prod.mk.injEq] at hrefill
  obtain ⟨rfl, rfl⟩ := hrefill
  have hallocated (hok : RegistryOk layout heap) : RegistryOk layout
      (allocSegment layout heap tid ref.strategy ref.slot
        (heap.slotToSite ref.slot) size base) :=
    hok.allocSegment hfresh
  obtain ⟨count, hcountEq⟩ : ∃ count,
      chunkCount layout size = count + 1 := by
    refine Nat.exists_eq_succ_of_ne_zero fun hzero => hlast ?_
    simpa [hzero, pieces] using hchain
  rw [hcountEq, pieces_succ, List.reverse_append, List.reverse_singleton,
    List.singleton_append] at hchain
  obtain ⟨rfl, hne, hrest⟩ := hchain
  have hheader : ∃ fresh : SegmentHeader,
      Function.update (allocSegment layout heap tid ref.strategy ref.slot
        (heap.slotToSite ref.slot) size base).header base
        (((allocSegment layout heap tid ref.strategy ref.slot
          (heap.slotToSite ref.slot) size base).header base).map
          fun header => { header with
            classIdx := ref.classIdx
            nextInSite := listSegs heap tid ref }) =
        Function.update heap.header base (some fresh) ∧
      fresh.strategy = ref.strategy ∧ fresh.slotIndex = ref.slot ∧
      fresh.classIdx = ref.classIdx ∧ fresh.ownerTid = tid ∧
      fresh.chunkSize = size ∧ fresh.remoteHead = 0 ∧
      fresh.retired = false := by
    simp only [allocSegment, registerSegment, Function.update_self,
      Function.update_idem, Option.map_some]
    exact ⟨_, rfl, rfl, rfl, rfl, rfl, rfl, rfl, rfl⟩
  obtain ⟨fresh, hfreshHeader, hfields⟩ := hheader
  rw [hfreshHeader]
  exact
  { header := ⟨fresh, by simp, hfields⟩
    registry := by
      intro hok
      refine (hallocated hok).congr ?_ ?_ (by simp) (by simp)
      · intro other hother
        simp only [setListHead_header, setListSegs_header] at hother
        by_cases heq : other = base
        · simp [heq] at hother
        · rw [Function.update_of_ne heq] at hother
          simpa [allocSegment, registerSegment, heq] using hother
      · intro other hother
        have hne : other ≠ base := by
          rintro rfl
          simp [allocSegment, registerSegment] at hother
        simp only [setListHead_header, setListSegs_header]
        rw [Function.update_of_ne hne]
        simpa [allocSegment, registerSegment, hne] using hother
    mapped := by simp [allocSegment, registerSegment]
    remoteLog := by simp [allocSegment, registerSegment]
    segs := by
      intro tid' ref'
      rw [listSegs_setListHead, listSegs_setMemory, listSegs_setListSegs]
      exact if_congr Iff.rfl rfl (listSegs_congr rfl rfl)
    head := by
      intro tid' ref'
      rw [listHead_setListHead, listHead_setMemory, listHead_setListSegs]
      simp only [setListHead_memory]
      exact if_congr Iff.rfl rfl (listHead_congr rfl rfl)
    chain := ⟨count, hcountEq, rfl, rfl, hlast, by simpa using hrest⟩
    memory := by
      intro address haddress
      simp only [setListHead_memory]
      refine (hframe address (by unfold payloadStart; omega)).trans ?_
      exact fill_outside _ (by omega) }

/-- A fresh segment serves a chunk when one fits. -/
theorem exists_refillFresh {layout : SegmentLayout} {ref : ListRef}
    {tid size base : ℕ} {heap : Heap} (hsize : pointerSize ≤ size)
    (hfresh : Fresh layout heap base)
    (hcount : 0 < chunkCount layout size) :
    ∃ heap' ptr, refillFresh layout ref tid size base heap =
      some (heap', ptr) := by
  obtain ⟨hchain, _⟩ := carveLoop_segment
    (fill heap.memory base (segmentEnd layout base) 0) hsize hfresh.2.2.1
  have hmemory : (allocSegment layout heap tid ref.strategy ref.slot
      (heap.slotToSite ref.slot) size base).memory =
        fill heap.memory base (segmentEnd layout base) 0 := rfl
  obtain ⟨count, hcountEq⟩ := Nat.exists_eq_succ_of_ne_zero hcount.ne'
  rw [hcountEq, pieces_succ, List.reverse_append, List.reverse_singleton,
    List.singleton_append] at hchain
  have hlast := hchain.1.symm ▸ hchain.2.1
  simp only [refillFresh, setListSegs_memory, hmemory]
  rw [if_neg hlast]
  exact ⟨_, _, rfl⟩

/-- A call for one of the family's sizes goes through a list of that size. -/
theorem FamilyOf.routine_eq {spec : RoutineSpec} {slot : ℕ}
    {family : ListFamily} (hfamily : FamilyOf spec slot family)
    (layout : SegmentLayout) {i : ℕ} (hi : i < family.count) :
    ∃ i' < family.count, family.size i' = family.size i ∧
      ∀ tid base heap,
        Codegen.routine layout spec slot tid (family.size i) base heap =
          popOrRefill layout (family.ref i') (family.size i') tid base
            heap := by
  cases hfamily with
  | single hstrategy hsize =>
      refine ⟨0, Nat.one_pos, rfl, fun tid base heap => ?_⟩
      simp [Codegen.routine, hstrategy, freelistRoutine, ListFamily.single]
  | classes hstrategy hsizes =>
      have hfound : (findClass spec.classSizes spec.classCount
          (spec.classSizes i)).isSome := by
        rw [findClass, List.find?_isSome]
        exact ⟨i, List.mem_range.mpr hi, by simp⟩
      obtain ⟨i', hfind⟩ := Option.isSome_iff_exists.mp hfound
      obtain ⟨hi', hsize⟩ := findClass_eq_some hfind
      refine ⟨i', hi', hsize, fun tid base heap => ?_⟩
      simp [Codegen.routine, hstrategy, multiRoutine, ListFamily.classes, hfind]

end TbjitAlloc.Codegen
