import TbjitAlloc.Allocator.Slot

/-!
# What a slot sees of the heap

The routines of all slots share one heap, one page map and one index.  The view
of a slot is the heap without the segments of the others.  An operation of the
slot does to the view what it does to the heap, and an operation of another slot
is not seen: it leaves the slot's headers, words and bytes as they are.
-/

namespace TbjitAlloc.Allocator

open TbjitAlloc.ByteMemory
open TbjitAlloc.Carving
open TbjitAlloc.Codegen
open TbjitAlloc.LinkedChain
open TbjitAlloc.Segment

/-- The header at `base`, if the segment is one of the slot's. -/
def slotHeader (slot : ℕ) (heap : Heap) (base : ℕ) : Option SegmentHeader :=
  (heap.header base).filter fun header => header.slotIndex = slot

/-- The heap without the segments of other slots. -/
def view (layout : SegmentLayout) (slot : ℕ) (heap : Heap) : Heap :=
  { heap with
    header := slotHeader slot heap
    mapped := fun base => (slotHeader slot heap base).isSome && heap.mapped base
    pagemap := fun number =>
      (slotHeader slot heap (number * layout.segmentSize)).isSome &&
        heap.pagemap number }

/-- Heaps that agree in all their other words are equal if their segments are. -/
theorem heap_eq_of_segments {left right : Heap}
    (hrest : { left with
      header := right.header
      mapped := right.mapped
      pagemap := right.pagemap } = right)
    (hheader : left.header = right.header)
    (hmapped : left.mapped = right.mapped)
    (hpagemap : left.pagemap = right.pagemap) : left = right := by
  rw [← hrest, ← hheader, ← hmapped, ← hpagemap]

section View

variable {layout : SegmentLayout} {slot : ℕ} {heap : Heap}

theorem slotHeader_eq_some {base : ℕ} {header : SegmentHeader} :
    slotHeader slot heap base = some header ↔
      heap.header base = some header ∧ header.slotIndex = slot := by
  rw [slotHeader, Option.filter_eq_some_iff, decide_eq_true_eq]

theorem slotHeader_of_none {base : ℕ} (hnone : heap.header base = none) :
    slotHeader slot heap base = none := by
  rw [slotHeader, hnone, Option.filter_none]

theorem slotHeader_congr {heap' : Heap} {base : ℕ}
    (hheader : heap'.header base = heap.header base) :
    slotHeader slot heap' base = slotHeader slot heap base := by
  rw [slotHeader, slotHeader, hheader]

theorem view_header (base : ℕ) :
    (view layout slot heap).header base = slotHeader slot heap base := rfl

theorem view_memory : (view layout slot heap).memory = heap.memory := rfl

/-- The slot's own segments are in its view as they are in the heap. -/
theorem view_mapped {base : ℕ} {header : SegmentHeader}
    (hheader : slotHeader slot heap base = some header) :
    (view layout slot heap).mapped base = heap.mapped base := by
  simp [view, hheader]

theorem view_pagemap {base : ℕ} {header : SegmentHeader}
    (hbase : layout.segmentSize ∣ base)
    (hheader : slotHeader slot heap base = some header) :
    (view layout slot heap).pagemap (base / layout.segmentSize) =
      heap.pagemap (base / layout.segmentSize) := by
  simp [view, Nat.div_mul_cancel hbase, hheader]

theorem view_loadHeader {base : ℕ} {header : SegmentHeader}
    (hheader : slotHeader slot heap base = some header) :
    (view layout slot heap).loadHeader base = heap.loadHeader base := by
  rw [Heap.loadHeader, Heap.loadHeader, view_mapped hheader, view_header, hheader,
    (slotHeader_eq_some.mp hheader).1]

theorem view_isManaged {base : ℕ} {header : SegmentHeader}
    (hbase : layout.segmentSize ∣ base)
    (hheader : slotHeader slot heap base = some header) :
    isManaged layout (view layout slot heap) base =
      isManaged layout heap base := by
  rw [isManaged, isManaged, view_pagemap hbase hheader]

/-- A range `mmap` may return is one for every slot. -/
theorem fresh_view {base : ℕ} (hfresh : Fresh layout heap base) :
    Fresh layout (view layout slot heap) base :=
  ⟨hfresh.1, hfresh.2.1, hfresh.2.2.1, slotHeader_of_none hfresh.2.2.2⟩

theorem registryOk_view (hok : RegistryOk layout heap) :
    RegistryOk layout (view layout slot heap) where
  placed := fun base header hheader =>
    hok.placed base header (slotHeader_eq_some.mp hheader).1
  recorded := fun base hmapped hnone => by
    rw [view_header] at hnone
    simp [view, hnone] at hmapped
  managed := fun base hbase => by
    cases hheader : slotHeader slot heap base with
    | none => simp [view, Nat.div_mul_cancel hbase, hheader]
    | some header =>
        rw [view_pagemap hbase hheader, view_mapped hheader,
          hok.managed base hbase]

/-! ## The slot's own operations -/

/-- A change of an own header that leaves its slot alone. -/
theorem view_setHeader {base : ℕ} {before after : SegmentHeader}
    (hbefore : slotHeader slot heap base = some before)
    (hslot : after.slotIndex = slot) :
    view layout slot (heap.storeHeader base after) =
      (view layout slot heap).storeHeader base after := by
  have hheader : slotHeader slot (heap.storeHeader base after) =
      Function.update (slotHeader slot heap) base (some after) := by
    funext other
    by_cases hsame : other = base
    · subst hsame
      rw [Function.update_self, slotHeader_eq_some]
      exact ⟨Function.update_self _ _ _, hslot⟩
    · rw [Function.update_of_ne hsame]
      exact slotHeader_congr (Function.update_of_ne hsame _ _)
  have hsome (other : ℕ) :
      (slotHeader slot (heap.storeHeader base after) other).isSome =
        (slotHeader slot heap other).isSome := by
    rw [hheader]
    by_cases hsame : other = base
    · subst hsame
      rw [Function.update_self, hbefore]
      rfl
    · rw [Function.update_of_ne hsame]
  rw [view]
  simp only [hsome]
  rw [hheader]
  rfl

/-- A new segment of the slot. -/
theorem view_allocSegment {tid site size base : ℕ} {strategy : Strategy}
    (hbase : layout.segmentSize ∣ base) :
    view layout slot
        (allocSegment layout heap tid strategy slot site size base) =
      allocSegment layout (view layout slot heap) tid strategy slot site size
        base := by
  have hpos : 0 < layout.segmentSize :=
    lt_of_lt_of_le (by norm_num) (segmentSize_ge layout)
  have hheader : slotHeader slot
      (allocSegment layout heap tid strategy slot site size base) =
        (allocSegment layout (view layout slot heap) tid strategy slot site size
          base).header := by
    funext other
    by_cases hsame : other = base
    · subst hsame
      rw [slotHeader]
      simp [allocSegment, registerSegment]
    · rw [slotHeader]
      simp [allocSegment, registerSegment, hsame, view, slotHeader]
  have hmapped : (view layout slot
      (allocSegment layout heap tid strategy slot site size base)).mapped =
        (allocSegment layout (view layout slot heap) tid strategy slot site size
          base).mapped := by
    funext other
    change ((slotHeader slot _ other).isSome && _) = _
    rw [hheader]
    by_cases hsame : other = base
    · subst hsame
      simp [allocSegment, registerSegment]
    · simp [allocSegment, registerSegment, hsame, view]
  have hpagemap : (view layout slot
      (allocSegment layout heap tid strategy slot site size base)).pagemap =
        (allocSegment layout (view layout slot heap) tid strategy slot site size
          base).pagemap := by
    funext number
    change ((slotHeader slot _ (number * layout.segmentSize)).isSome && _) = _
    rw [hheader]
    by_cases hsame : number = base / layout.segmentSize
    · subst hsame
      simp [allocSegment, registerSegment, Nat.div_mul_cancel hbase]
    · have hne : number * layout.segmentSize ≠ base := by
        rintro rfl
        exact hsame (Nat.mul_div_cancel _ hpos).symm
      simp [allocSegment, registerSegment, hsame, hne, view]
  exact heap_eq_of_segments rfl hheader hmapped hpagemap

/-- The header of a segment changes in place. -/
theorem view_mapHeader {base : ℕ} {before : SegmentHeader}
    {f : SegmentHeader → SegmentHeader}
    (hf : ∀ header, (f header).slotIndex = header.slotIndex)
    (hbefore : slotHeader slot heap base = some before) :
    view layout slot { heap with
        header := Function.update heap.header base
          ((heap.header base).map f) } =
      { view layout slot heap with
        header := Function.update (view layout slot heap).header base
          (((view layout slot heap).header base).map f) } := by
  obtain ⟨hheader, hslot⟩ := slotHeader_eq_some.mp hbefore
  rw [hheader, view_header, hbefore, Option.map_some]
  exact view_setHeader hbefore ((hf before).trans hslot)

theorem slotHeader_allocSegment {tid site size base : ℕ}
    {strategy : Strategy} :
    ∃ header, slotHeader slot
      (allocSegment layout heap tid strategy slot site size base) base =
        some header :=
  ⟨_, slotHeader_eq_some.mpr ⟨Function.update_self _ _ _, rfl⟩⟩

theorem view_bumpSegment {strategy : Strategy} {tid size base : ℕ}
    (hbase : layout.segmentSize ∣ base) :
    bumpSegment layout strategy tid slot size base (view layout slot heap) =
      (view layout slot (bumpSegment layout strategy tid slot size base heap).1,
        payloadStart base) := by
  obtain ⟨header, hheader⟩ := @slotHeader_allocSegment layout slot heap tid
    (heap.slotToSite slot) size base strategy
  let bumps := Function.update heap.bumps (tid, slot)
    ⟨payloadStart base + size, segmentEnd layout base⟩
  let allocated := allocSegment layout heap tid strategy slot
    (heap.slotToSite slot) size base
  have halloc : view layout slot { allocated with bumps := bumps } =
      { allocSegment layout (view layout slot heap) tid strategy slot
        (heap.slotToSite slot) size base with bumps := bumps } :=
    congrArg (fun other : Heap => { other with bumps := bumps })
      (view_allocSegment hbase)
  have hmap := @view_mapHeader layout slot { allocated with bumps := bumps } base
    header (fun stored => { stored with bumpPtr := payloadStart base + size })
    (fun _ => rfl) hheader
  rw [halloc] at hmap
  exact Prod.ext hmap.symm rfl

theorem view_arenaSlowInit {tid size base : ℕ}
    (hbase : layout.segmentSize ∣ base) :
    arenaSlowInit layout tid slot size base (view layout slot heap) =
      (view layout slot (arenaSlowInit layout tid slot size base heap).1,
        payloadStart base) := by
  have halloc := @view_allocSegment layout slot heap tid (heap.slotToSite slot)
    size base .epochArena hbase
  refine Prod.ext ?_ rfl
  exact congrArg (fun other : Heap => { other with
    arenas := Function.update heap.arenas (tid, slot)
      ⟨payloadStart base + size, segmentEnd layout base, payloadStart base⟩ })
    halloc.symm

/-! ## Queues and lists -/

theorem view_mpscHarvest {base : ℕ} {header : SegmentHeader}
    (hheader : slotHeader slot heap base = some header) :
    mpscHarvest (view layout slot heap) base =
      (mpscHarvest heap base).map fun harvest =>
        (view layout slot harvest.1, harvest.2) := by
  rw [mpscHarvest, mpscHarvest, view_loadHeader hheader]
  cases hload : heap.loadHeader base with
  | none => rfl
  | some loaded =>
      obtain ⟨hsame, hslot⟩ := slotHeader_eq_some.mp hheader
      obtain rfl := Option.some.inj
        (hsame.symm.trans (loadHeader_eq_some.mp hload).2)
      have hstore := @view_setHeader layout slot heap base header
        { header with remoteHead := 0 } hheader hslot
      exact congrArg (fun other : Heap => some ({ other with
        remoteLog := Function.update heap.remoteLog base [] },
          header.remoteHead)) hstore.symm

theorem view_mpscPush {base chunk : ℕ} {header : SegmentHeader}
    (hheader : slotHeader slot heap base = some header) :
    mpscPush (view layout slot heap) base chunk =
      (mpscPush heap base chunk).map (view layout slot) := by
  rw [mpscPush, mpscPush, view_loadHeader hheader]
  cases hload : heap.loadHeader base with
  | none => rfl
  | some loaded =>
      obtain ⟨hsame, hslot⟩ := slotHeader_eq_some.mp hheader
      obtain rfl := Option.some.inj
        (hsame.symm.trans (loadHeader_eq_some.mp hload).2)
      have hstore := @view_setHeader layout slot heap base header
        { header with remoteHead := chunk } hheader hslot
      exact congrArg (fun other : Heap => some { other with
        memory := writeWord heap.memory chunk header.remoteHead
        remoteLog := Function.update heap.remoteLog base
          (chunk :: heap.remoteLog base) }) hstore.symm

theorem view_pcRetire {active : ℕ} {header : SegmentHeader}
    (hheader : slotHeader slot heap active = some header) :
    pcRetire (view layout slot heap) active =
      (pcRetire heap active).map (view layout slot) := by
  rw [pcRetire, pcRetire, view_loadHeader hheader, view_mpscHarvest hheader]
  cases hload : heap.loadHeader active with
  | none => rfl
  | some loaded =>
      obtain ⟨hmapped, hloaded⟩ := loadHeader_eq_some.mp hload
      obtain ⟨hsame, hslot⟩ := slotHeader_eq_some.mp hheader
      obtain rfl := Option.some.inj (hsame.symm.trans hloaded)
      simp only [mpscHarvest, hload, Option.map_some, Option.bind_eq_bind,
        Option.bind_some]
      -- The harvested heap has the same header but for its queue.
      generalize hharvested : ({ heap.storeHeader active
        { header with remoteHead := 0 } with
          remoteLog := Function.update heap.remoteLog active [] } : Heap) =
        harvested
      have hown : slotHeader slot harvested active =
          some { header with remoteHead := 0 } := by
        rw [← hharvested, slotHeader_eq_some]
        exact ⟨Function.update_self _ _ _, hslot⟩
      rw [view_loadHeader hown]
      have hmemory : harvested.memory =
          (heap.storeHeader active { header with remoteHead := 0 }).memory := by
        rw [← hharvested]
      rw [view_memory, hmemory]
      cases walkChain (heap.storeHeader active
        { header with remoteHead := 0 }).memory header.remoteHead with
      | none => rfl
      | some drained =>
          rw [Option.bind_some, Option.bind_some]
          have hharvestLoad : harvested.loadHeader active =
              some { header with remoteHead := 0 } := by
            rw [← hharvested]
            exact loadHeader_storeHeader hmapped
          rw [hharvestLoad, Option.bind_some, Option.bind_some, Option.pure_def,
            Option.map_some]
          congr 1
          refine (view_setHeader hown ?_).symm
          exact hslot

@[simp]
theorem listHead_view (tid : ℕ) (ref : ListRef) :
    listHead (view layout slot heap) tid ref = listHead heap tid ref :=
  listHead_congr rfl rfl

@[simp]
theorem listSegs_view (tid : ℕ) (ref : ListRef) :
    listSegs (view layout slot heap) tid ref = listSegs heap tid ref :=
  listSegs_congr rfl rfl

theorem view_setListHead (tid : ℕ) (ref : ListRef) (head : ℕ) :
    setListHead (view layout slot heap) tid ref head =
      view layout slot (setListHead heap tid ref head) := by
  cases ref <;> rfl

theorem view_setListSegs (tid : ℕ) (ref : ListRef) (segs : ℕ) :
    setListSegs (view layout slot heap) tid ref segs =
      view layout slot (setListSegs heap tid ref segs) := by
  cases ref <;> rfl

theorem view_refillFresh {ref : ListRef} {tid size base : ℕ}
    (href : ref.slot = slot) (hbase : layout.segmentSize ∣ base) :
    refillFresh layout ref tid size base (view layout slot heap) =
      (refillFresh layout ref tid size base heap).map fun served =>
        (view layout slot served.1, served.2) := by
  subst href
  obtain ⟨header, hheader⟩ := @slotHeader_allocSegment layout ref.slot heap tid
    (heap.slotToSite ref.slot) size base ref.strategy
  have hmap := @view_mapHeader layout ref.slot _ base header
    (fun stored => { stored with
      classIdx := ref.classIdx
      nextInSite := listSegs heap tid ref }) (fun _ => rfl) hheader
  rw [view_allocSegment hbase] at hmap
  -- The rest of the refill touches the lists and the payload only.
  let finish : Heap → Option (Heap × ℕ) := fun other =>
    let other := setListSegs other tid ref base
    let carved := carveLoop size (segmentEnd layout base) layout.segmentSize
      other.memory (payloadStart base) 0
    let other := { other with memory := carved.1 }
    if carved.2 = 0 then none
    else some (setListHead other tid ref (readWord other.memory carved.2),
      carved.2)
  have hfinish (other : Heap) : finish (view layout ref.slot other) =
      (finish other).map fun served =>
        (view layout ref.slot served.1, served.2) := by
    simp only [finish, view_setListSegs]
    change (if (carveLoop _ _ _ (setListSegs other tid ref base).memory
      _ _).2 = 0 then _ else _) = _
    split
    · rfl
    · rw [Option.map_some]
      congr 2
      cases ref <;> rfl
  have hrefill (other : Heap) : refillFresh layout ref tid size base other =
      finish { allocSegment layout other tid ref.strategy ref.slot
          (other.slotToSite ref.slot) size base with
        header := Function.update (allocSegment layout other tid ref.strategy
            ref.slot (other.slotToSite ref.slot) size base).header base
          (((allocSegment layout other tid ref.strategy ref.slot
            (other.slotToSite ref.slot) size base).header base).map
              fun stored => { stored with
                classIdx := ref.classIdx
                nextInSite := listSegs other tid ref }) } := rfl
  rw [hrefill heap, ← hfinish, hmap, hrefill, listSegs_view]
  rfl

/-- The heap a harvest leaves, by its one changed header. -/
theorem slotHeader_harvested {active : ℕ} {header : SegmentHeader}
    {harvest : Heap × ℕ} (hheader : slotHeader slot heap active = some header)
    (hharvest : mpscHarvest heap active = some harvest) :
    slotHeader slot harvest.1 active = some { header with remoteHead := 0 } := by
  rw [mpscHarvest, Option.map_eq_some_iff] at hharvest
  obtain ⟨loaded, hload, rfl⟩ := hharvest
  obtain ⟨hsame, hslot⟩ := slotHeader_eq_some.mp hheader
  obtain rfl := Option.some.inj
    (hsame.symm.trans (loadHeader_eq_some.mp hload).2)
  exact slotHeader_eq_some.mpr ⟨Function.update_self _ _ _, hslot⟩

/-- A refill, when the active segment of the list is one of the slot's. -/
theorem view_refill {ref : ListRef} {tid size base : ℕ} (href : ref.slot = slot)
    (hbase : layout.segmentSize ∣ base)
    (hactive : listSegs heap tid ref ≠ 0 →
      ∃ header, slotHeader slot heap (listSegs heap tid ref) = some header) :
    refill layout ref tid size base (view layout slot heap) =
      (refill layout ref tid size base heap).map fun served =>
        (view layout slot served.1, served.2) := by
  simp only [refill, listSegs_view]
  by_cases hsegs : listSegs heap tid ref = 0
  · rw [if_pos hsegs, if_pos hsegs]
    exact view_refillFresh href hbase
  rw [if_neg hsegs, if_neg hsegs]
  obtain ⟨header, hheader⟩ := hactive hsegs
  rw [view_mpscHarvest hheader]
  cases hharvest : mpscHarvest heap (listSegs heap tid ref) with
  | none => rfl
  | some harvest =>
      have hown := slotHeader_harvested hheader hharvest
      have hslot := (slotHeader_eq_some.mp hheader).2
      simp only [Option.map_some, Option.bind_eq_bind, Option.bind_some]
      by_cases hhead : harvest.2 = 0
      · rw [if_neg (not_not.mpr hhead), if_neg (not_not.mpr hhead),
          view_loadHeader hown]
        cases hload : harvest.1.loadHeader (listSegs heap tid ref) with
        | none => rfl
        | some loaded =>
            obtain rfl := Option.some.inj ((slotHeader_eq_some.mp hown).1.symm.trans
              (loadHeader_eq_some.mp hload).2)
            simp only [Option.bind_some]
            rw [← view_setHeader hown]
            · exact view_refillFresh href hbase
            · exact hslot
      · rw [if_pos hhead, if_pos hhead, view_memory, view_setListHead]
        rfl

/-- A pop or a refill, likewise. -/
theorem view_popOrRefill {ref : ListRef} {tid size base : ℕ}
    (href : ref.slot = slot) (hbase : layout.segmentSize ∣ base)
    (hactive : listSegs heap tid ref ≠ 0 →
      ∃ header, slotHeader slot heap (listSegs heap tid ref) = some header) :
    popOrRefill layout ref size tid base (view layout slot heap) =
      (popOrRefill layout ref size tid base heap).map fun served =>
        (view layout slot served.1, served.2) := by
  simp only [popOrRefill, listHead_view, view_memory]
  by_cases hhead : listHead heap tid ref = 0
  · rw [if_neg (not_not.mpr hhead), if_neg (not_not.mpr hhead),
      view_refill href hbase hactive, Option.map_map, Option.map_map]
    rfl
  · rw [if_pos hhead, if_pos hhead, view_setListHead]
    rfl

/-- The first half of `pc_refill`: the active segment is retired. -/
def retireActive (layout : SegmentLayout) (tid slot : ℕ) (heap : Heap) :
    Option Heap :=
  if (heap.bumps (tid, slot)).limit = 0 then some heap
  else
    let active := segmentOf layout ((heap.bumps (tid, slot)).limit - 1)
    if isManaged layout heap active then
      (heap.loadHeader active).bind fun header =>
        if header.strategy = .producerConsumer then pcRetire heap active
        else some heap
    else some heap

theorem pcRefill_eq_retireActive (tid slot size base : ℕ) (heap : Heap) :
    pcRefill layout tid slot size base heap =
      (retireActive layout tid slot heap).map
        (bumpSegment layout .producerConsumer tid slot size base) := by
  simp only [pcRefill, retireActive, Option.bind_eq_bind, Option.pure_def]
  split
  · rfl
  split
  · cases heap.loadHeader
        (segmentOf layout ((heap.bumps (tid, slot)).limit - 1)) with
    | none => rfl
    | some header =>
        simp only [Option.bind_some]
        split
        · rw [Option.map_eq_bind]
          rfl
        · rfl
  · rfl

/-- The last byte below a cursor's limit is in the cursor's segment. -/
theorem segmentOf_pred_segmentEnd {base : ℕ}
    (hbase : layout.segmentSize ∣ base) :
    segmentOf layout (segmentEnd layout base - 1) = base := by
  have hsize := segmentSize_ge layout
  unfold segmentEnd
  exact segmentOf_eq hbase (by omega) (by unfold segmentEnd; omega)

theorem view_retireActive {tid : ℕ}
    (hactive : (heap.bumps (tid, slot)).limit ≠ 0 →
      ∃ seg header, slotHeader slot heap seg = some header ∧
        layout.segmentSize ∣ seg ∧
        (heap.bumps (tid, slot)).limit = segmentEnd layout seg) :
    retireActive layout tid slot (view layout slot heap) =
      (retireActive layout tid slot heap).map (view layout slot) := by
  have hbumps : (view layout slot heap).bumps = heap.bumps := rfl
  rw [retireActive, retireActive, hbumps]
  by_cases hlimit : (heap.bumps (tid, slot)).limit = 0
  · rw [if_pos hlimit, if_pos hlimit]
    rfl
  rw [if_neg hlimit, if_neg hlimit]
  obtain ⟨seg, header, hheader, hseg, hend⟩ := hactive hlimit
  rw [hend]
  dsimp only
  rw [segmentOf_pred_segmentEnd hseg, view_isManaged hseg hheader,
    view_loadHeader hheader]
  by_cases hmanaged : isManaged layout heap seg = true
  · rw [if_pos hmanaged, if_pos hmanaged]
    cases heap.loadHeader seg with
    | none => rfl
    | some loaded =>
        rw [Option.bind_some, Option.bind_some]
        by_cases hqueue : loaded.strategy = .producerConsumer
        · rw [if_pos hqueue, if_pos hqueue, view_pcRetire hheader]
        · rw [if_neg hqueue, if_neg hqueue]
          rfl
  · rw [if_neg hmanaged, if_neg hmanaged]
    rfl

/-- A refill of a queue, when the thread's active segment is one of the
slot's. -/
theorem view_pcRefill {tid size base : ℕ} (hbase : layout.segmentSize ∣ base)
    (hactive : (heap.bumps (tid, slot)).limit ≠ 0 →
      ∃ seg header, slotHeader slot heap seg = some header ∧
        layout.segmentSize ∣ seg ∧
        (heap.bumps (tid, slot)).limit = segmentEnd layout seg) :
    pcRefill layout tid slot size base (view layout slot heap) =
      (pcRefill layout tid slot size base heap).map fun served =>
        (view layout slot served.1, served.2) := by
  rw [pcRefill_eq_retireActive, pcRefill_eq_retireActive,
    view_retireActive hactive, Option.map_map, Option.map_map]
  congr 1
  funext retired
  exact view_bumpSegment hbase

/-! ## Frees -/

theorem view_loadHeader_eq_some {base : ℕ} {header loaded : SegmentHeader}
    (hheader : slotHeader slot heap base = some header)
    (hload : heap.loadHeader base = some loaded) : loaded = header :=
  Option.some.inj ((loadHeader_eq_some.mp hload).2.symm.trans
    (slotHeader_eq_some.mp hheader).1)

theorem view_pairedLifoRewind (tid : ℕ) {base : ℕ} (ptr : ℕ)
    {header : SegmentHeader}
    (hheader : slotHeader slot heap base = some header) :
    pairedLifoRewind (view layout slot heap) tid base ptr header =
      view layout slot (pairedLifoRewind heap tid base ptr header) := by
  have hslot := (slotHeader_eq_some.mp hheader).2
  simp only [pairedLifoRewind]
  by_cases hrewound :
      (heap.bumps (tid, header.slotIndex)).ptr - header.chunkSize ≠ ptr
  · exact (if_pos hrewound).trans (congrArg _ (if_pos hrewound).symm)
  · refine (if_neg hrewound).trans (Eq.trans ?_ (congrArg _ (if_neg hrewound).symm))
    have hstore := @view_setHeader layout slot heap base header
      { header with bumpPtr :=
        (heap.bumps (tid, header.slotIndex)).ptr - header.chunkSize }
      hheader hslot
    exact congrArg (fun other : Heap => { other with
      bumps := Function.update heap.bumps (tid, header.slotIndex)
        { heap.bumps (tid, header.slotIndex) with ptr :=
          (heap.bumps (tid, header.slotIndex)).ptr - header.chunkSize } })
      hstore.symm

theorem view_freeToList {ref : ListRef} (tid : ℕ) {base : ℕ} (ptr : ℕ)
    {header : SegmentHeader}
    (hheader : slotHeader slot heap base = some header) :
    freeToList (view layout slot heap) ref tid base ptr header =
      (freeToList heap ref tid base ptr header).map (view layout slot) := by
  have hslot := (slotHeader_eq_some.mp hheader).2
  rw [freeToList, freeToList]
  by_cases hretired : header.retired = true
  · rw [if_pos hretired, if_pos hretired, Option.map_some]
    refine congrArg some (view_setHeader hheader ?_).symm
    exact hslot
  rw [if_neg hretired, if_neg hretired]
  by_cases howner : header.ownerTid = tid
  · rw [if_pos howner, if_pos howner, Option.map_some]
    rw [listHead_view]
    exact congrArg some (@view_setListHead layout slot { heap with
      memory := writeWord heap.memory ptr (listHead heap tid ref) } tid ref ptr)
  · rw [if_neg howner, if_neg howner]
    exact view_mpscPush hheader

theorem view_freeManaged (tid : ℕ) {base : ℕ} (ptr : ℕ)
    {header : SegmentHeader}
    (hheader : slotHeader slot heap base = some header) :
    freeManaged (view layout slot heap) tid base ptr =
      (freeManaged heap tid base ptr).map (view layout slot) := by
  have hslot := (slotHeader_eq_some.mp hheader).2
  rw [freeManaged, freeManaged, view_loadHeader hheader]
  cases hload : heap.loadHeader base with
  | none => rfl
  | some loaded =>
      obtain rfl := view_loadHeader_eq_some hheader hload
      rw [Option.bind_some, Option.bind_some]
      cases hstrategy : loaded.strategy with
      | producerConsumer =>
          dsimp only
          split
          · refine congrArg some (view_setHeader hheader ?_).symm
            exact hslot
          · exact view_mpscPush hheader
      | pairedStack =>
          dsimp only
          split
          · exact congrArg some (view_pairedLifoRewind tid ptr hheader)
          · rfl
      | threadLocalFreeList => exact view_freeToList tid ptr hheader
      | multiSizeFreeList => exact view_freeToList tid ptr hheader
      | generic => rfl
      | bumpAlloc => rfl
      | epochArena => rfl

/-- A free of a chunk in one of the slot's segments. -/
theorem view_freeChunk (tid : ℕ) {ptr : ℕ} {header : SegmentHeader}
    (hheader : slotHeader slot heap (segmentOf layout ptr) = some header) :
    freeChunk layout (view layout slot heap) tid ptr =
      (freeChunk layout heap tid ptr).map (view layout slot) := by
  rw [freeChunk, freeChunk, view_isManaged (dvd_segmentOf ptr) hheader]
  split
  · exact view_freeManaged tid ptr hheader
  · rfl

/-! ## The routine of the slot -/

/-- The segments the slot's threads are serving from are the slot's own. -/
structure OwnActives (layout : SegmentLayout) (spec : RoutineSpec) (slot : ℕ)
    (heap : Heap) : Prop where
  queue : spec.strategy = .producerConsumer → ∀ tid,
    (heap.bumps (tid, slot)).limit ≠ 0 →
    ∃ seg header, slotHeader slot heap seg = some header ∧
      layout.segmentSize ∣ seg ∧
      (heap.bumps (tid, slot)).limit = segmentEnd layout seg
  lists : ∀ family, FamilyOf spec slot family → ∀ tid, ∀ i < family.count,
    listSegs heap tid (family.ref i) ≠ 0 →
    ∃ header, slotHeader slot heap (listSegs heap tid (family.ref i)) =
      some header

section Routine

variable {spec : RoutineSpec}

theorem FamilyOf.unique {left right : ListFamily}
    (hleft : FamilyOf spec slot left) (hright : FamilyOf spec slot right) :
    left = right := by
  cases hleft with
  | single hstrategy hsize =>
      cases hright with
      | single => rfl
      | classes hother => simp [hstrategy] at hother
  | classes hstrategy hsizes =>
      cases hright with
      | single hother => simp [hstrategy] at hother
      | classes => rfl

theorem FamilyOf.strategy_eq {family : ListFamily}
    (hfamily : FamilyOf spec slot family) :
    spec.strategy = .threadLocalFreeList ∨
      spec.strategy = .multiSizeFreeList := by
  cases hfamily with
  | single hstrategy => exact .inl hstrategy
  | classes hstrategy => exact .inr hstrategy

theorem SlotOk.ownActives {held : List Chunk} {handedOut : ℕ → ℕ}
    (hok : SlotOk layout spec slot ⟨view layout slot heap, held, handedOut⟩) :
    OwnActives layout spec slot heap where
  queue := fun hstrategy tid hlimit => by
    cases hok with
    | stack hother => rcases hother with h | h <;> simp [h] at hstrategy
    | arena hother => simp [hother] at hstrategy
    | lists family hfamily =>
        rcases FamilyOf.strategy_eq hfamily with h | h <;> simp [h] at hstrategy
    | queue _ hqueue =>
        obtain ⟨seg, header, hheader, -, -, hend⟩ :=
          hqueue.cursor tid (by simp) hlimit
        exact ⟨seg, header, hheader,
          (hqueue.registry.placed _ _ hheader).2.1, hend⟩
  lists := fun family hfamily tid i hi hsegs => by
    cases hok with
    | stack hother =>
        rcases hother with h | h <;>
          rcases FamilyOf.strategy_eq hfamily with h' | h' <;> simp [h] at h'
    | arena hother =>
        rcases FamilyOf.strategy_eq hfamily with h | h <;> simp [hother] at h
    | queue hother =>
        rcases FamilyOf.strategy_eq hfamily with h | h <;> simp [hother] at h
    | lists other hother hlists =>
        obtain rfl := FamilyOf.unique hfamily hother
        obtain ⟨place, hinv⟩ := hlists
        obtain ⟨header, hheader, -⟩ :=
          hinv.segsHeader tid i hi (by rwa [listSegs_view])
        rw [listSegs_view] at hheader
        exact ⟨header, hheader⟩

theorem view_bumpRoutine {slowInit : ℕ → ℕ → ℕ → ℕ → Heap → Heap × ℕ}
    {size tid request base : ℕ}
    (hslow : slowInit tid slot size base (view layout slot heap) =
      (view layout slot (slowInit tid slot size base heap).1,
        (slowInit tid slot size base heap).2)) :
    bumpRoutine slowInit slot size tid request base (view layout slot heap) =
      (bumpRoutine slowInit slot size tid request base heap).map fun result =>
        (view layout slot result.1, result.2) := by
  have hbumps : (view layout slot heap).bumps = heap.bumps := rfl
  simp only [bumpRoutine, bumpFastPath, hbumps, hslow]
  split
  · rfl
  by_cases hroom : (heap.bumps (tid, slot)).ptr + size <
      (heap.bumps (tid, slot)).limit
  · simp only [hroom, if_true]
    rfl
  · simp only [hroom, if_false]
    split <;> rfl

theorem view_arenaRoutine {size tid request base : ℕ}
    (hbase : layout.segmentSize ∣ base) :
    arenaRoutine layout slot size tid request base (view layout slot heap) =
      (arenaRoutine layout slot size tid request base heap).map fun result =>
        (view layout slot result.1, result.2) := by
  have harenas : (view layout slot heap).arenas = heap.arenas := rfl
  simp only [arenaRoutine, arenaResetAlloc, harenas, view_arenaSlowInit hbase]
  split
  · rfl
  split
  · rfl
  split <;> rfl

/-- A call of the slot's routine does to the view what it does to the heap. -/
theorem view_routine {tid request base : ℕ} (haccepts : compileAccepts spec)
    (hactives : OwnActives layout spec slot heap)
    (hbase : layout.segmentSize ∣ base) :
    routine layout spec slot tid request base (view layout slot heap) =
      (routine layout spec slot tid request base heap).map fun result =>
        (view layout slot result.1, result.2) := by
  cases hstrategy : spec.strategy with
  | generic => simp only [routine, hstrategy, Option.map_some]
  | bumpAlloc =>
      simp only [routine, hstrategy]
      exact view_bumpRoutine (view_bumpSegment hbase)
  | pairedStack =>
      simp only [routine, hstrategy]
      exact view_bumpRoutine (view_bumpSegment hbase)
  | epochArena =>
      simp only [routine, hstrategy]
      exact view_arenaRoutine hbase
  | producerConsumer =>
      have hbumps : (view layout slot heap).bumps = heap.bumps := rfl
      simp only [routine, hstrategy, pcRoutine, bumpFastPath, hbumps,
        view_pcRefill hbase (hactives.queue hstrategy tid)]
      split
      · rfl
      by_cases hroom : (heap.bumps (tid, slot)).ptr + spec.size <
          (heap.bumps (tid, slot)).limit
      · simp only [hroom, if_true]
        rfl
      · simp only [hroom, if_false, Option.map_map]
        rfl
  | threadLocalFreeList =>
      simp only [routine, hstrategy, freelistRoutine]
      split
      · rfl
      have hsize := haccepts.2.2.2.1 hstrategy
      exact view_popOrRefill rfl hbase
        (hactives.lists _ (.single hstrategy hsize) tid 0 Nat.one_pos)
  | multiSizeFreeList =>
      simp only [routine, hstrategy, multiRoutine]
      cases hfind : findClass spec.classSizes spec.classCount request with
      | none => rfl
      | some i =>
          have hsizes := (haccepts.2.2.2.2 hstrategy).2.2
          exact view_popOrRefill rfl hbase
            (hactives.lists _ (.classes hstrategy hsizes) tid i
              (findClass_eq_some hfind).1)

end Routine

end View

end TbjitAlloc.Allocator
