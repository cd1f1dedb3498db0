import TbjitAlloc.Allocator.Interference

/-!
# Steps a slot does not see

The invariant of a slot speaks of the slot's own segments, words and bytes only.
It therefore survives every operation of another slot, and a sweep, which works
on all slots at once, is to each of them a sweep of its own segments.
-/

namespace TbjitAlloc.Allocator

open TbjitAlloc.ByteMemory
open TbjitAlloc.Carving
open TbjitAlloc.Codegen
open TbjitAlloc.LinkedChain
open TbjitAlloc.Segment

/-- Two heaps whose segments and whose words for the slot are the same. -/
structure SameSlot (layout : SegmentLayout) (slot : ℕ) (before after : Heap) :
    Prop where
  registry : RegistryOk layout after
  header : after.header = before.header
  mapped : after.mapped = before.mapped
  remoteLog : ∀ base header, before.header base = some header →
    after.remoteLog base = before.remoteLog base
  bytes : ∀ base header, before.header base = some header →
    AgreeOn after.memory before.memory base (segmentEnd layout base)
  bumps : ∀ tid, after.bumps (tid, slot) = before.bumps (tid, slot)
  freelists : ∀ tid, after.freelists (tid, slot) = before.freelists (tid, slot)
  arenas : ∀ tid, after.arenas (tid, slot) = before.arenas (tid, slot)
  multiFreelists : ∀ tid,
    after.multiFreelists (tid, slot) = before.multiFreelists (tid, slot)

section Invariants

variable {layout : SegmentLayout} {spec : RoutineSpec} {slot : ℕ}
variable {before after : Heap} {held : List Chunk} {handedOut : ℕ → ℕ}

theorem SameSlot.listHead_eq (hsame : SameSlot layout slot before after)
    {ref : ListRef} (href : ref.slot = slot) (tid : ℕ) :
    listHead after tid ref = listHead before tid ref := by
  subst href
  cases ref with
  | single slot => exact congrArg FreeListSlot.head (hsame.freelists tid)
  | sizeClass slot classIdx =>
      exact congrArg (fun lists => lists.heads classIdx)
        (hsame.multiFreelists tid)

theorem SameSlot.listSegs_eq (hsame : SameSlot layout slot before after)
    {ref : ListRef} (href : ref.slot = slot) (tid : ℕ) :
    listSegs after tid ref = listSegs before tid ref := by
  subst href
  cases ref with
  | single slot => exact congrArg FreeListSlot.segs (hsame.freelists tid)
  | sizeClass slot classIdx =>
      exact congrArg (fun lists => lists.segs classIdx)
        (hsame.multiFreelists tid)

/-- The link in a chunk of one of the segments. -/
theorem SameSlot.readWord_eq (hsame : SameSlot layout slot before after)
    {base size ptr : ℕ} {header : SegmentHeader}
    (hheader : before.header base = some header)
    (hchunk : IsChunk layout base size ptr) (hroom : pointerSize ≤ size) :
    readWord after.memory ptr = readWord before.memory ptr := by
  have hinside := hchunk.inside
  have hlow := hchunk.base_lt
  unfold pointerSize at hroom
  exact readWord_congr fun address hge hlt =>
    hsame.bytes base header hheader address (by omega) (by omega)

theorem CursorInv.sameSlot (hinv : CursorInv layout spec slot before held)
    (hsame : SameSlot layout slot before after) :
    CursorInv layout spec slot after held where
  registry := hsame.registry
  headers := fun base header hheader => by
    rw [hsame.header] at hheader
    rw [hsame.remoteLog base header hheader]
    exact hinv.headers base header hheader
  bumps := fun tid => by
    rw [hsame.bumps]
    exact hinv.bumps tid
  arenas := fun tid => by
    rw [hsame.arenas]
    exact hinv.arenas tid
  held := hinv.held

theorem PairedInv.sameSlot (hinv : PairedInv layout spec slot before held)
    (hsame : SameSlot layout slot before after) :
    PairedInv layout spec slot after held := by
  have howns (tid base : ℕ) : Owns after tid base ↔ Owns before tid base := by
    rw [Owns, Owns, hsame.header]
  exact
  { mapped := fun base header hheader => by
      rw [hsame.mapped]
      exact hinv.mapped base header (hsame.header ▸ hheader)
    owned := fun tid base hbase => by
      rw [hsame.bumps]
      exact hinv.owned tid base ((howns tid base).mp hbase)
    unowned := fun tid hnone => by
      rw [hsame.bumps]
      exact hinv.unowned tid fun base hbase =>
        hnone base ((howns tid base).mpr hbase)
    below := fun chunk hchunk => by
      obtain ⟨tid, base, hbase, hplace, hle⟩ := hinv.below chunk hchunk
      refine ⟨tid, base, (howns tid base).mpr hbase, hplace, ?_⟩
      rwa [hsame.bumps]
    nodup := hinv.nodup }

theorem PcInv.sameSlot
    (hinv : PcInv layout spec slot before held handedOut none)
    (hpos : 0 < spec.size)
    (hfits : headerSize + spec.size < layout.segmentSize)
    (hsame : SameSlot layout slot before after) :
    PcInv layout spec slot after held handedOut none where
  registry := hsame.registry
  headers := fun base header hheader =>
    hinv.headers base header (hsame.header ▸ hheader)
  active := fun base header hheader hactive => by
    rw [hsame.mapped, hsame.bumps]
    exact hinv.active base header (hsame.header ▸ hheader) hactive
  cursor := fun tid hretiring hlimit => by
    rw [hsame.bumps] at hlimit ⊢
    rw [hsame.header]
    exact hinv.cursor tid hretiring hlimit
  handedOut_eq := fun base hnone =>
    hinv.handedOut_eq base (hsame.header ▸ hnone)
  handedOut_pos := fun base header hheader =>
    hinv.handedOut_pos base header (hsame.header ▸ hheader)
  fits := hinv.fits
  remoteHead := fun base header hheader hactive hlog => by
    rw [hsame.header] at hheader
    rw [hsame.remoteLog base header hheader] at hlog
    exact hinv.remoteHead base header hheader hactive hlog
  remoteChain := fun hroom base header hheader hactive => by
    rw [hsame.header] at hheader
    rw [hsame.remoteLog base header hheader]
    refine (hinv.remoteChain hroom base header hheader hactive).congr ?_
    intro node hnode
    have hserved := (hinv.remoteServed base header hheader hactive node hnode).1
    exact hsame.readWord_eq hheader (PcInv.isChunk hinv hpos hfits hserved) hroom
  remoteServed := fun base header hheader hactive => by
    rw [hsame.header] at hheader
    rw [hsame.remoteLog base header hheader]
    exact hinv.remoteServed base header hheader hactive
  balance := fun base header hheader hactive => by
    rw [hsame.header] at hheader
    rw [hsame.remoteLog base header hheader]
    exact hinv.balance base header hheader hactive
  heldServed := hinv.heldServed
  heldNodup := hinv.heldNodup

theorem ListInv.sameSlot {family : ListFamily} {place : ℕ → Place}
    (hinv : ListInv layout family before held place none)
    (hsame : SameSlot layout family.slot before after) :
    ListInv layout family after held place none := by
  have hlink {node : ℕ} (hnode : place node ≠ .untracked) :
      readWord after.memory node = readWord before.memory node := by
    obtain ⟨header, hheader, hchunk⟩ := hinv.chunk node hnode
    exact hsame.readWord_eq hheader hchunk (hinv.chunkSize_ge hheader)
  exact
  { registry := hsame.registry
    headers := fun base header hheader =>
      hinv.headers base header (hsame.header ▸ hheader)
    segsHeader := fun tid i hi hsegs => by
      rw [hsame.listSegs_eq (family.ref_slot i)] at hsegs ⊢
      rw [hsame.header]
      exact hinv.segsHeader tid i hi hsegs
    active := fun base header hheader hactive => by
      rw [hsame.mapped, hsame.listSegs_eq (family.ref_slot _)]
      exact hinv.active base header (hsame.header ▸ hheader) hactive
    ownChain := fun tid i hi => by
      obtain ⟨nodes, hchain, hnodes⟩ := hinv.ownChain tid i hi
      rw [hsame.listHead_eq (family.ref_slot i)]
      exact ⟨nodes, hchain.congr fun node hnode =>
        hlink (by simp [hnodes node hnode]), hnodes⟩
    remoteChain := fun base header hheader hactive => by
      rw [hsame.header] at hheader
      obtain ⟨hchain, hnodes⟩ := hinv.remoteChain base header hheader hactive
      rw [hsame.remoteLog base header hheader]
      exact ⟨hchain.congr fun node hnode =>
        hlink (by simp [hnodes node hnode]), hnodes⟩
    heldPlace := hinv.heldPlace
    heldNodup := hinv.heldNodup
    heldSize := fun chunk hchunk => by
      rw [hsame.header]
      exact hinv.heldSize chunk hchunk
    chunk := fun ptr hptr => by
      rw [hsame.header]
      exact hinv.chunk ptr hptr
    ownSegment := fun ptr tid i hptr => by
      rw [hsame.header]
      exact hinv.ownSegment ptr tid i hptr
    remoteSegment := hinv.remoteSegment }

theorem FamilyOf.slot_eq {family : ListFamily}
    (hfamily : FamilyOf spec slot family) : family.slot = slot := by
  cases hfamily <;> rfl

/-- The invariant of a slot speaks of the slot only. -/
theorem SlotOk.sameSlot (hroomy : 13 ≤ layout.shift)
    (haccepts : compileAccepts spec)
    (hok : SlotOk layout spec slot ⟨before, held, handedOut⟩)
    (hsame : SameSlot layout slot before after) :
    SlotOk layout spec slot ⟨after, held, handedOut⟩ := by
  have hpos := Nat.pos_of_ne_zero haccepts.1
  have hfits := header_add_size_lt hroomy haccepts
  cases hok with
  | stack hstrategy hcursors hstack =>
      exact .stack hstrategy (CursorInv.sameSlot hcursors hsame)
        (PairedInv.sameSlot hstack hsame)
  | arena hstrategy hcursors harena =>
      exact .arena hstrategy (CursorInv.sameSlot hcursors hsame)
        (harena.congr hsame.header (fun _ _ _ => by rw [hsame.mapped])
          hsame.arenas fun _ h => h)
  | queue hstrategy hqueue =>
      exact .queue hstrategy (PcInv.sameSlot hqueue hpos hfits hsame)
  | lists family hfamily hlists =>
      obtain ⟨place, hinv⟩ := hlists
      exact .lists family hfamily ⟨place, ListInv.sameSlot hinv
        ((FamilyOf.slot_eq hfamily).symm ▸ hsame)⟩

/-- A sweep of the slot's own segments. -/
theorem SlotOk.swept (hok : SlotOk layout spec slot ⟨before, held, handedOut⟩)
    (hframe : SweepFrame layout before after)
    (hregistry : RegistryOk layout after) :
    SlotOk layout spec slot ⟨after, held, handedOut⟩ := by
  cases hok with
  | stack hstrategy hcursors hstack =>
      exact .stack hstrategy (hcursors.sweep hframe hregistry)
        (hstack.sweep hcursors hframe)
  | arena hstrategy hcursors harena =>
      exact .arena hstrategy (hcursors.sweep hframe hregistry)
        (harena.congr (header_sweep hcursors hframe)
          (mapped_sweep hcursors hframe) (fun _ => by rw [hframe.arenas])
          fun _ h => h)
  | queue hstrategy hqueue =>
      exact .queue hstrategy (hqueue.sweep hframe hregistry)
  | lists family hfamily hlists =>
      obtain ⟨place, hinv⟩ := hlists
      exact .lists family hfamily ⟨place, hinv.sweep hframe hregistry⟩

end Invariants

/-! ## Steps of the others -/

section Others

variable {layout : SegmentLayout} {spec : RoutineSpec} {slot other : ℕ}
variable {before after : Heap} {held : List Chunk} {handedOut : ℕ → ℕ}

/-- An operation of one slot is not seen by another. -/
theorem Touches.sameSlot (htouches : Touches layout other before after)
    (hne : slot ≠ other) :
    SameSlot layout slot (view layout slot before) (view layout slot after) := by
  have hheader : slotHeader slot after = slotHeader slot before := by
    funext base
    ext header
    rw [slotHeader_eq_some, slotHeader_eq_some]
    refine and_congr_left fun hslot => htouches.header base header ?_
    rw [hslot]
    exact hne
  have hown (base : ℕ) (header : SegmentHeader)
      (hbase : slotHeader slot before base = some header) :
      after.mapped base = before.mapped base ∧
        after.remoteLog base = before.remoteLog base ∧
        AgreeOn after.memory before.memory base (segmentEnd layout base) := by
    obtain ⟨hbase, hslot⟩ := slotHeader_eq_some.mp hbase
    exact htouches.segment base header hbase (hslot ▸ hne)
  exact
  { registry := registryOk_view htouches.registry
    header := hheader
    mapped := by
      funext base
      simp only [view, hheader]
      cases hbase : slotHeader slot before base with
      | none => rfl
      | some header => simp [(hown base header hbase).1]
    remoteLog := fun base header hbase => (hown base header hbase).2.1
    bytes := fun base header hbase => (hown base header hbase).2.2
    bumps := fun tid => htouches.words.bumps tid slot hne
    freelists := fun tid => htouches.words.freelists tid slot hne
    arenas := fun tid => htouches.words.arenas tid slot hne
    multiFreelists := fun tid => htouches.words.multiFreelists tid slot hne }

/-- The view of a slot, with the bytes a sweep changes in the segments of the
others. -/
def sweptAround (layout : SegmentLayout) (slot : ℕ) (before after : Heap) :
    Heap :=
  { view layout slot before with
    memory := fun address =>
      if (slotHeader slot before (segmentOf layout address)).isSome then
        before.memory address
      else after.memory address }

theorem sameSlot_sweptAround (hregistry : RegistryOk layout before) :
    SameSlot layout slot (view layout slot before)
      (sweptAround layout slot before after) where
  registry := (registryOk_view hregistry).congr (fun _ h => h) (fun _ h => h)
    rfl rfl
  header := rfl
  mapped := rfl
  remoteLog := fun _ _ _ => rfl
  bytes := fun base header hheader address hlow hhigh => by
    have hbase := ((registryOk_view hregistry).placed base header hheader).2.1
    have hown : slotHeader slot before (segmentOf layout address) =
        some header := by
      rw [segmentOf_eq hbase hlow hhigh]
      exact hheader
    simp [sweptAround, view, hown]
  bumps := fun _ => rfl
  freelists := fun _ => rfl
  arenas := fun _ => rfl
  multiFreelists := fun _ => rfl

/-- What is left of a sweep is one of the slot's own segments. -/
theorem sweepFrame_view (hregistry : RegistryOk layout before)
    (hframe : SweepFrame layout before after) :
    SweepFrame layout (sweptAround layout slot before after)
      (view layout slot after) where
  header_none := fun base hnone => by
    change slotHeader slot before base = none at hnone
    change slotHeader slot after base = none
    cases hafter : slotHeader slot after base with
    | none => rfl
    | some header =>
        obtain ⟨hheader, hslot⟩ := slotHeader_eq_some.mp hafter
        obtain ⟨header', _, hbefore, rfl⟩ := hframe.past hheader
        rw [slotHeader_eq_some.mpr ⟨hbefore, hslot⟩] at hnone
        cases hnone
  header_some := fun base header hheader => by
    obtain ⟨hbefore, hslot⟩ := slotHeader_eq_some.mp hheader
    obtain ⟨decommitted, hafter⟩ := hframe.header_some base header hbefore
    exact ⟨decommitted, slotHeader_eq_some.mpr ⟨hafter, hslot⟩⟩
  active := fun base header hheader hactive => by
    obtain ⟨hbefore, hslot⟩ := slotHeader_eq_some.mp hheader
    obtain ⟨hafter, hmapped⟩ := hframe.active base header hbefore hactive
    have hown := slotHeader_eq_some.mpr ⟨hafter, hslot⟩
    refine ⟨hown, ?_⟩
    have hold : (view layout slot before).mapped base = before.mapped base :=
      view_mapped hheader
    rw [view_mapped hown]
    exact hmapped.trans hold.symm
  bytes := fun address houtside => by
    cases hown : slotHeader slot before (segmentOf layout address) with
    | none => simp [sweptAround, view, hown]
    | some header =>
        have hinside := @lt_segmentEnd_segmentOf layout address
        have hlow := @segmentOf_le layout address
        obtain ⟨hheader, hslot⟩ := slotHeader_eq_some.mp hown
        simp only [sweptAround, view, hown, Option.isSome_some, if_true]
        refine hframe.bytes address fun base header' hheader' hretired => ?_
        by_cases hsame : base = segmentOf layout address
        · subst hsame
          obtain rfl := Option.some.inj (hheader'.symm.trans hheader)
          exact houtside _ _ hown hretired
        · rcases segment_disjoint (hregistry.placed base header' hheader').2.1
            (dvd_segmentOf address) hsame with h | h
          · exact .inr (by omega)
          · exact .inl (by omega)
  bumps := hframe.bumps
  freelists := hframe.freelists
  arenas := hframe.arenas
  multiFreelists := hframe.multiFreelists
  slotToSite := hframe.slotToSite
  remoteLog := hframe.remoteLog

/-- A sweep keeps the invariant of every slot. -/
theorem SlotOk.sweep (hroomy : 13 ≤ layout.shift)
    (haccepts : compileAccepts spec) (hregistry : RegistryOk layout before)
    (hok : SlotOk layout spec slot
      ⟨view layout slot before, held, handedOut⟩)
    (hframe : SweepFrame layout before after)
    (hregistry' : RegistryOk layout after) :
    SlotOk layout spec slot ⟨view layout slot after, held, handedOut⟩ :=
  (hok.sameSlot hroomy haccepts (sameSlot_sweptAround hregistry)).swept
    (sweepFrame_view hregistry hframe) (registryOk_view hregistry')

end Others

end TbjitAlloc.Allocator
