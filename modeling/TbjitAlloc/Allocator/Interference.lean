import TbjitAlloc.Allocator.View

/-!
# What an operation of one slot leaves alone

Every operation of a slot stays within one segment, or within a few of them one
after the other: a segment of the slot, or a fresh one that becomes the slot's.
The headers, queues and bytes of the other slots' segments and the thread-local
words of the other slots are not touched.
-/

namespace TbjitAlloc.Allocator

open TbjitAlloc.ByteMemory
open TbjitAlloc.Carving
open TbjitAlloc.Codegen
open TbjitAlloc.Segment

/-- Every segment carries the site recorded for its slot. -/
def SitesOk (heap : Heap) : Prop :=
  ∀ base header, heap.header base = some header →
    header.allocSite = heap.slotToSite header.slotIndex

/-- The thread-local words of the other slots are as before. -/
structure SameWords (slot : ℕ) (before after : Heap) : Prop where
  bumps : ∀ tid other, other ≠ slot →
    after.bumps (tid, other) = before.bumps (tid, other)
  freelists : ∀ tid other, other ≠ slot →
    after.freelists (tid, other) = before.freelists (tid, other)
  arenas : ∀ tid other, other ≠ slot →
    after.arenas (tid, other) = before.arenas (tid, other)
  multiFreelists : ∀ tid other, other ≠ slot →
    after.multiFreelists (tid, other) = before.multiFreelists (tid, other)

/-- What an operation of a slot may change: its own segments and words. -/
structure Touches (layout : SegmentLayout) (slot : ℕ) (before after : Heap) :
    Prop where
  registry : RegistryOk layout after
  sites : SitesOk before → SitesOk after
  header : ∀ base header, header.slotIndex ≠ slot →
    (after.header base = some header ↔ before.header base = some header)
  segment : ∀ base header, before.header base = some header →
    header.slotIndex ≠ slot →
    after.mapped base = before.mapped base ∧
      after.remoteLog base = before.remoteLog base ∧
      AgreeOn after.memory before.memory base (segmentEnd layout base)
  words : SameWords slot before after
  slotToSite : after.slotToSite = before.slotToSite

/-- An operation of a slot that stays within the segment at `seg`, which is one
of the slot's or becomes one. -/
structure Within (layout : SegmentLayout) (slot seg : ℕ)
    (before after : Heap) : Prop where
  aligned : layout.segmentSize ∣ seg
  registry : RegistryOk layout after
  own : ∀ header, before.header seg = some header → header.slotIndex = slot
  became : ∀ header, after.header seg = some header →
    header.slotIndex = slot ∧
      (SitesOk before → header.allocSite = before.slotToSite slot)
  header : ∀ base, base ≠ seg → after.header base = before.header base
  mapped : ∀ base, base ≠ seg → after.mapped base = before.mapped base
  remoteLog : ∀ base, base ≠ seg →
    after.remoteLog base = before.remoteLog base
  memory : ∀ address, address < seg ∨ segmentEnd layout seg ≤ address →
    after.memory address = before.memory address
  words : SameWords slot before after
  slotToSite : after.slotToSite = before.slotToSite

section Relations

variable {layout : SegmentLayout} {slot : ℕ} {first second third : Heap}

theorem SameWords.refl (slot : ℕ) (heap : Heap) : SameWords slot heap heap :=
  ⟨fun _ _ _ => rfl, fun _ _ _ => rfl, fun _ _ _ => rfl, fun _ _ _ => rfl⟩

/-- No word changes at all. -/
theorem SameWords.of_eq (hbumps : second.bumps = first.bumps)
    (hfreelists : second.freelists = first.freelists)
    (harenas : second.arenas = first.arenas)
    (hmulti : second.multiFreelists = first.multiFreelists) :
    SameWords slot first second :=
  ⟨fun _ _ _ => by rw [hbumps], fun _ _ _ => by rw [hfreelists],
    fun _ _ _ => by rw [harenas], fun _ _ _ => by rw [hmulti]⟩

theorem SameWords.trans (hleft : SameWords slot first second)
    (hright : SameWords slot second third) : SameWords slot first third where
  bumps := fun tid other hne =>
    (hright.bumps tid other hne).trans (hleft.bumps tid other hne)
  freelists := fun tid other hne =>
    (hright.freelists tid other hne).trans (hleft.freelists tid other hne)
  arenas := fun tid other hne =>
    (hright.arenas tid other hne).trans (hleft.arenas tid other hne)
  multiFreelists := fun tid other hne =>
    (hright.multiFreelists tid other hne).trans
      (hleft.multiFreelists tid other hne)

theorem Touches.refl (hregistry : RegistryOk layout first) :
    Touches layout slot first first where
  registry := hregistry
  sites := id
  header := fun _ _ _ => Iff.rfl
  segment := fun _ _ _ _ => ⟨rfl, rfl, fun _ _ _ => rfl⟩
  words := .refl slot first
  slotToSite := rfl

theorem Touches.trans (hleft : Touches layout slot first second)
    (hright : Touches layout slot second third) :
    Touches layout slot first third where
  registry := hright.registry
  sites := hright.sites ∘ hleft.sites
  header := fun base header hne =>
    (hright.header base header hne).trans (hleft.header base header hne)
  segment := fun base header hheader hne => by
    obtain ⟨hmapped, hlog, hbytes⟩ := hleft.segment base header hheader hne
    obtain ⟨hmapped', hlog', hbytes'⟩ := hright.segment base header
      ((hleft.header base header hne).mpr hheader) hne
    exact ⟨hmapped'.trans hmapped, hlog'.trans hlog, fun address hlow hhigh =>
      (hbytes' address hlow hhigh).trans (hbytes address hlow hhigh)⟩
  words := hleft.words.trans hright.words
  slotToSite := hright.slotToSite.trans hleft.slotToSite

/-- Segments are aligned, so one segment is apart from all the others. -/
theorem Within.touches {seg : ℕ} (hregistry : RegistryOk layout first)
    (hwithin : Within layout slot seg first second) :
    Touches layout slot first second where
  registry := hwithin.registry
  sites := fun hsites base header hheader => by
    rw [hwithin.slotToSite]
    by_cases hsame : base = seg
    · subst hsame
      obtain ⟨hslot, hsite⟩ := hwithin.became header hheader
      rw [hslot]
      exact hsite hsites
    · rw [hwithin.header base hsame] at hheader
      exact hsites base header hheader
  header := fun base header hne => by
    by_cases hsame : base = seg
    · subst hsame
      exact ⟨fun hafter => absurd (hwithin.became header hafter).1 hne,
        fun hbefore => absurd (hwithin.own header hbefore) hne⟩
    · rw [hwithin.header base hsame]
  segment := fun base header hheader hne => by
    have hsame : base ≠ seg := by
      rintro rfl
      exact hne (hwithin.own header hheader)
    refine ⟨hwithin.mapped base hsame, hwithin.remoteLog base hsame, ?_⟩
    intro address hlow hhigh
    refine hwithin.memory address ?_
    rcases segment_disjoint (hregistry.placed base header hheader).2.1
      hwithin.aligned hsame with h | h
    · exact .inl (by omega)
    · exact .inr (by omega)
  words := hwithin.words
  slotToSite := hwithin.slotToSite

theorem Within.trans {seg : ℕ} (hregistry : RegistryOk layout first)
    (hleft : Within layout slot seg first second)
    (hright : Within layout slot seg second third) :
    Within layout slot seg first third where
  aligned := hleft.aligned
  registry := hright.registry
  own := hleft.own
  became := fun header hheader => by
    obtain ⟨hslot, hsite⟩ := hright.became header hheader
    rw [hleft.slotToSite] at hsite
    exact ⟨hslot, fun hsites =>
      hsite ((hleft.touches hregistry).sites hsites)⟩
  header := fun base hne =>
    (hright.header base hne).trans (hleft.header base hne)
  mapped := fun base hne =>
    (hright.mapped base hne).trans (hleft.mapped base hne)
  remoteLog := fun base hne =>
    (hright.remoteLog base hne).trans (hleft.remoteLog base hne)
  memory := fun address haddress =>
    (hright.memory address haddress).trans (hleft.memory address haddress)
  words := hleft.words.trans hright.words
  slotToSite := hright.slotToSite.trans hleft.slotToSite

/-- What is fresh stays fresh while an existing segment is worked on. -/
theorem Within.fresh {seg base : ℕ} {header : SegmentHeader}
    (hwithin : Within layout slot seg first second)
    (hheader : first.header seg = some header)
    (hfresh : Fresh layout first base) : Fresh layout second base := by
  refine ⟨hfresh.1, hfresh.2.1, hfresh.2.2.1, ?_⟩
  rw [hwithin.header base (hfresh.ne hheader).symm]
  exact hfresh.2.2.2

/-- Only words of the slot change. -/
theorem touches_words (hregistry : RegistryOk layout first)
    (hheader : second.header = first.header)
    (hmapped : second.mapped = first.mapped)
    (hpagemap : second.pagemap = first.pagemap)
    (hlog : second.remoteLog = first.remoteLog)
    (hmemory : second.memory = first.memory)
    (hsites : second.slotToSite = first.slotToSite)
    (hwords : SameWords slot first second) :
    Touches layout slot first second where
  registry := hregistry.congr (fun _ h => hheader ▸ h)
    (fun _ h => hheader.symm ▸ h) hmapped hpagemap
  sites := fun hok base header hbase => by
    rw [hsites]
    exact hok base header (hheader ▸ hbase)
  header := fun _ _ _ => by rw [hheader]
  segment := fun base header _ _ =>
    ⟨congrFun hmapped base, congrFun hlog base, fun address _ _ =>
      congrFun hmemory address⟩
  words := hwords
  slotToSite := hsites

/-- Words of different slots are at different places. -/
theorem wordKey_ne {tid tid' other : ℕ} (hne : other ≠ slot) :
    (tid, other) ≠ (tid', slot) :=
  fun hsame => hne (congrArg Prod.snd hsame)

theorem sameWords_setBump (tid : ℕ) (cursor : BumpSlot) :
    SameWords slot first { first with
      bumps := Function.update first.bumps (tid, slot) cursor } :=
  { SameWords.refl slot first with
    bumps := fun _ _ hne => Function.update_of_ne (wordKey_ne hne) _ _ }

theorem sameWords_setArena (tid : ℕ) (arena : ArenaSlot) :
    SameWords slot first { first with
      arenas := Function.update first.arenas (tid, slot) arena } :=
  { SameWords.refl slot first with
    arenas := fun _ _ hne => Function.update_of_ne (wordKey_ne hne) _ _ }

theorem sameWords_setListHead (tid : ℕ) (ref : ListRef) (head : ℕ) :
    SameWords ref.slot first (setListHead first tid ref head) := by
  cases ref with
  | single slot =>
      exact { SameWords.refl slot first with
        freelists := fun _ _ hne => Function.update_of_ne (wordKey_ne hne) _ _ }
  | sizeClass slot classIdx =>
      exact { SameWords.refl slot first with
        multiFreelists := fun _ _ hne =>
          Function.update_of_ne (wordKey_ne hne) _ _ }

theorem sameWords_setListSegs (tid : ℕ) (ref : ListRef) (segs : ℕ) :
    SameWords ref.slot first (setListSegs first tid ref segs) := by
  cases ref with
  | single slot =>
      exact { SameWords.refl slot first with
        freelists := fun _ _ hne => Function.update_of_ne (wordKey_ne hne) _ _ }
  | sizeClass slot classIdx =>
      exact { SameWords.refl slot first with
        multiFreelists := fun _ _ hne =>
          Function.update_of_ne (wordKey_ne hne) _ _ }

end Relations

/-! ## Segments -/

section Segments

variable {layout : SegmentLayout} {slot : ℕ} {heap : Heap}

/-- A header of the slot changes, with the queue and the bytes of its segment
and the words of the slot. -/
theorem within_ownSegment {heap' : Heap} {seg : ℕ}
    {before after : SegmentHeader} (hregistry : RegistryOk layout heap)
    (hbefore : slotHeader slot heap seg = some before)
    (hslot : after.slotIndex = before.slotIndex)
    (hsite : after.allocSite = before.allocSite)
    (hheader : heap'.header =
      Function.update heap.header seg (some after))
    (hmapped : heap'.mapped = heap.mapped)
    (hpagemap : heap'.pagemap = heap.pagemap)
    (hlog : ∀ base, base ≠ seg → heap'.remoteLog base = heap.remoteLog base)
    (hmemory : ∀ address, address < seg ∨ segmentEnd layout seg ≤ address →
      heap'.memory address = heap.memory address)
    (hwords : SameWords slot heap heap')
    (hsites : heap'.slotToSite = heap.slotToSite) :
    Within layout slot seg heap heap' := by
  obtain ⟨hold, hown⟩ := slotHeader_eq_some.mp hbefore
  refine
    { aligned := (hregistry.placed _ _ hold).2.1
      registry := (hregistry.storeHeader after hold).congr
        (fun base h => ?_) (fun base h => ?_) hmapped hpagemap
      own := fun header h => by
        rw [Option.some.inj (h.symm.trans hold)]
        exact hown
      became := fun header h => ?_
      header := fun base hne => by
        rw [hheader, Function.update_of_ne hne]
      mapped := fun base _ => congrFun hmapped base
      remoteLog := hlog
      memory := hmemory
      words := hwords
      slotToSite := hsites }
  · rwa [hheader] at h
  · rwa [hheader]
  · rw [hheader, Function.update_self, Option.some.injEq] at h
    subst h
    refine ⟨hslot.trans hown, fun hok => ?_⟩
    rw [hsite, hok _ _ hold, hown]

/-- A fresh segment becomes one of the slot's. -/
theorem within_freshSegment {heap' : Heap} {base : ℕ} {fresh : SegmentHeader}
    (hfresh : Fresh layout heap base) (hregistry' : RegistryOk layout heap')
    (hslot : fresh.slotIndex = slot)
    (hsite : fresh.allocSite = heap.slotToSite slot)
    (hheader : heap'.header = Function.update heap.header base (some fresh))
    (hmapped : heap'.mapped = Function.update heap.mapped base true)
    (hlog : heap'.remoteLog = Function.update heap.remoteLog base [])
    (hmemory : ∀ address, address < base ∨ segmentEnd layout base ≤ address →
      heap'.memory address = heap.memory address)
    (hwords : SameWords slot heap heap')
    (hsites : heap'.slotToSite = heap.slotToSite) :
    Within layout slot base heap heap' where
  aligned := hfresh.2.1
  registry := hregistry'
  own := fun header h => by
    rw [hfresh.2.2.2] at h
    cases h
  became := fun header h => by
    rw [hheader, Function.update_self, Option.some.injEq] at h
    subst h
    exact ⟨hslot, fun _ => hsite⟩
  header := fun other hne => by rw [hheader, Function.update_of_ne hne]
  mapped := fun other hne => by rw [hmapped, Function.update_of_ne hne]
  remoteLog := fun other hne => by rw [hlog, Function.update_of_ne hne]
  memory := hmemory
  words := hwords
  slotToSite := hsites

theorem within_bumpSegment (hregistry : RegistryOk layout heap)
    (strategy : Strategy) (tid size : ℕ) {base : ℕ}
    (hfresh : Fresh layout heap base) :
    Within layout slot base heap
      (bumpSegment layout strategy tid slot size base heap).1 := by
  have hbumped := @bumped_bumpSegment layout strategy tid slot size base heap
    hfresh
  obtain ⟨fresh, hheader, hslot, hsite⟩ : ∃ fresh : SegmentHeader,
      (bumpSegment layout strategy tid slot size base heap).1.header =
        Function.update heap.header base (some fresh) ∧
      fresh.slotIndex = slot ∧ fresh.allocSite = heap.slotToSite slot := by
    simp only [bumpSegment, allocSegment, registerSegment,
      Function.update_self, Function.update_idem, Option.map_some]
    exact ⟨_, rfl, rfl, rfl⟩
  refine within_freshSegment hfresh (hbumped.registry hregistry) hslot hsite
    hheader hbumped.mapped hbumped.remoteLog hbumped.memory ?_ rfl
  exact { SameWords.refl slot heap with
    bumps := fun _ _ hne => by
      rw [hbumped.bumps, Function.update_of_ne (wordKey_ne hne)] }

theorem within_arenaSlowInit (hregistry : RegistryOk layout heap)
    (tid size : ℕ) {base : ℕ} (hfresh : Fresh layout heap base) :
    Within layout slot base heap
      (arenaSlowInit layout tid slot size base heap).1 := by
  have hallocated : RegistryOk layout (allocSegment layout heap tid .epochArena
      slot (heap.slotToSite slot) size base) := hregistry.allocSegment hfresh
  refine within_freshSegment hfresh
    (hallocated.congr (fun _ h => h) (fun _ h => h) rfl rfl) ?_ ?_ rfl rfl rfl
    (fun address haddress => fill_outside _ haddress) ?_ rfl
  · rfl
  · rfl
  · exact { SameWords.refl slot heap with
      arenas := fun _ _ hne => Function.update_of_ne (wordKey_ne hne) _ _ }

/-- What a fresh refill does, apart from the carved payload: it registers a
segment, and then sets the two words of the list. -/
theorem refillFresh_eq {ref : ListRef} {tid size base : ℕ}
    {served : Heap × ℕ}
    (hrefill : refillFresh layout ref tid size base heap = some served) :
    ∃ registered memory head,
      served.1 = setListHead { setListSegs registered tid ref base with
        memory := memory } tid ref head ∧
      SameWords ref.slot heap registered ∧
      registered.slotToSite = heap.slotToSite ∧
      ∃ fresh : SegmentHeader,
        registered.header = Function.update heap.header base (some fresh) ∧
        fresh.slotIndex = ref.slot ∧
        fresh.allocSite = heap.slotToSite ref.slot := by
  simp only [refillFresh] at hrefill
  split at hrefill
  · cases hrefill
  · refine ⟨_, _, _, congrArg Prod.fst (Option.some.inj hrefill).symm,
      .of_eq rfl rfl rfl rfl, rfl, ?_⟩
    simp only [allocSegment, registerSegment, Function.update_self,
      Function.update_idem, Option.map_some]
    exact ⟨_, rfl, rfl, rfl⟩

theorem slotToSite_setListHead (tid : ℕ) (ref : ListRef) (head : ℕ) :
    (setListHead heap tid ref head).slotToSite = heap.slotToSite := by
  cases ref <;> rfl

theorem slotToSite_setListSegs (tid : ℕ) (ref : ListRef) (segs : ℕ) :
    (setListSegs heap tid ref segs).slotToSite = heap.slotToSite := by
  cases ref <;> rfl

theorem within_refillFresh (hregistry : RegistryOk layout heap)
    {ref : ListRef} {tid size base : ℕ} {served : Heap × ℕ}
    (hsize : pointerSize ≤ size) (hfresh : Fresh layout heap base)
    (hrefill : refillFresh layout ref tid size base heap = some served) :
    Within layout ref.slot base heap served.1 := by
  have hcarved := carved_refillFresh hsize hfresh hrefill
  obtain ⟨registered, memory, head, hserved, hwords, hsites, fresh, hheader,
    hslot, hsite⟩ := refillFresh_eq hrefill
  refine within_freshSegment hfresh (hcarved.registry hregistry) hslot hsite
    ?_ hcarved.mapped hcarved.remoteLog hcarved.memory ?_ ?_
  · rw [hserved, setListHead_header]
    exact (setListSegs_header ..).trans hheader
  · rw [hserved]
    refine SameWords.trans ?_ (sameWords_setListHead tid ref head)
    exact (hwords.trans (sameWords_setListSegs tid ref base)).trans
      (.of_eq rfl rfl rfl rfl)
  · rw [hserved, slotToSite_setListHead]
    exact (slotToSite_setListSegs tid ref base).trans hsites

/-! ## Queues and lists -/

theorem within_mpscHarvest (hregistry : RegistryOk layout heap) {seg : ℕ}
    {header : SegmentHeader} {harvest : Heap × ℕ}
    (hheader : slotHeader slot heap seg = some header)
    (hharvest : mpscHarvest heap seg = some harvest) :
    Within layout slot seg heap harvest.1 := by
  rw [mpscHarvest, Option.map_eq_some_iff] at hharvest
  obtain ⟨loaded, hload, rfl⟩ := hharvest
  obtain rfl := view_loadHeader_eq_some hheader hload
  refine within_ownSegment hregistry hheader ?_ ?_ rfl rfl rfl
    (fun _ hne => Function.update_of_ne hne _ _) (fun _ _ => rfl)
    (.of_eq rfl rfl rfl rfl) rfl
  · rfl
  · rfl

/-- A link is written into a chunk of an own segment. -/
theorem within_mpscPush (hregistry : RegistryOk layout heap) {seg ptr : ℕ}
    {header : SegmentHeader} {pushed : Heap}
    (hheader : slotHeader slot heap seg = some header)
    (hlow : seg ≤ ptr) (hhigh : ptr + pointerSize ≤ segmentEnd layout seg)
    (hpush : mpscPush heap seg ptr = some pushed) :
    Within layout slot seg heap pushed := by
  rw [mpscPush, Option.map_eq_some_iff] at hpush
  obtain ⟨loaded, hload, rfl⟩ := hpush
  obtain rfl := view_loadHeader_eq_some hheader hload
  unfold pointerSize at hhigh
  refine within_ownSegment hregistry hheader ?_ ?_ rfl rfl rfl
    (fun _ hne => Function.update_of_ne hne _ _)
    (fun _ haddress => writeWord_outside _ _ (by omega))
    (.of_eq rfl rfl rfl rfl) rfl
  · rfl
  · rfl

/-- Only counters and marks of an own header change. -/
theorem within_storeHeader (hregistry : RegistryOk layout heap) {seg : ℕ}
    {before after : SegmentHeader}
    (hbefore : slotHeader slot heap seg = some before)
    (hslot : after.slotIndex = before.slotIndex)
    (hsite : after.allocSite = before.allocSite) :
    Within layout slot seg heap (heap.storeHeader seg after) :=
  within_ownSegment hregistry hbefore hslot hsite rfl rfl rfl
    (fun _ _ => rfl) (fun _ _ => rfl) (.of_eq rfl rfl rfl rfl) rfl

/-- Bytes of an own segment change. -/
theorem within_setMemory (hregistry : RegistryOk layout heap) {seg : ℕ}
    {header : SegmentHeader} (memory : Memory)
    (hheader : slotHeader slot heap seg = some header)
    (hmemory : ∀ address, address < seg ∨ segmentEnd layout seg ≤ address →
      memory address = heap.memory address) :
    Within layout slot seg heap { heap with memory := memory } := by
  have hsame : heap.header = Function.update heap.header seg (some header) := by
    rw [← (slotHeader_eq_some.mp hheader).1, Function.update_eq_self]
  exact within_ownSegment hregistry hheader rfl rfl hsame rfl rfl
    (fun _ _ => rfl) hmemory (.of_eq rfl rfl rfl rfl) rfl

theorem within_pcRetire (hregistry : RegistryOk layout heap) {seg : ℕ}
    {header : SegmentHeader} {retired : Heap}
    (hheader : slotHeader slot heap seg = some header)
    (hretire : pcRetire heap seg = some retired) :
    Within layout slot seg heap retired := by
  simp only [pcRetire, Option.bind_eq_bind, Option.bind_eq_some_iff,
    Option.pure_def, Option.some.injEq] at hretire
  obtain ⟨_, _, harvest, hharvest, drained, _, loaded, hload, rfl⟩ := hretire
  have hharvested := within_mpscHarvest hregistry hheader hharvest
  have hown := slotHeader_harvested hheader hharvest
  obtain rfl := view_loadHeader_eq_some hown hload
  refine hharvested.trans hregistry
    (within_storeHeader hharvested.registry hown ?_ ?_)
  · rfl
  · rfl

theorem touches_retireActive (hregistry : RegistryOk layout heap) {tid : ℕ}
    (hactive : (heap.bumps (tid, slot)).limit ≠ 0 →
      ∃ seg header, slotHeader slot heap seg = some header ∧
        layout.segmentSize ∣ seg ∧
        (heap.bumps (tid, slot)).limit = segmentEnd layout seg)
    {retired : Heap}
    (hretire : retireActive layout tid slot heap = some retired) {base : ℕ}
    (hfresh : Fresh layout heap base) :
    Touches layout slot heap retired ∧ Fresh layout retired base := by
  have hkeep : Touches layout slot heap heap := .refl hregistry
  rw [retireActive] at hretire
  split at hretire
  · obtain rfl := Option.some.inj hretire
    exact ⟨hkeep, hfresh⟩
  next hlimit =>
  obtain ⟨seg, header, hheader, hseg, hend⟩ := hactive hlimit
  rw [hend] at hretire
  dsimp only at hretire
  rw [segmentOf_pred_segmentEnd hseg] at hretire
  split at hretire
  · rw [Option.bind_eq_some_iff] at hretire
    obtain ⟨loaded, -, hretire⟩ := hretire
    split at hretire
    · have hwithin := within_pcRetire hregistry hheader hretire
      exact ⟨hwithin.touches hregistry,
        hwithin.fresh (slotHeader_eq_some.mp hheader).1 hfresh⟩
    · obtain rfl := Option.some.inj hretire
      exact ⟨hkeep, hfresh⟩
  · obtain rfl := Option.some.inj hretire
    exact ⟨hkeep, hfresh⟩

theorem touches_pcRefill (hregistry : RegistryOk layout heap)
    {tid size base : ℕ} (hfresh : Fresh layout heap base)
    (hactive : (heap.bumps (tid, slot)).limit ≠ 0 →
      ∃ seg header, slotHeader slot heap seg = some header ∧
        layout.segmentSize ∣ seg ∧
        (heap.bumps (tid, slot)).limit = segmentEnd layout seg)
    {served : Heap × ℕ}
    (hrefill : pcRefill layout tid slot size base heap = some served) :
    Touches layout slot heap served.1 := by
  rw [pcRefill_eq_retireActive, Option.map_eq_some_iff] at hrefill
  obtain ⟨retired, hretire, rfl⟩ := hrefill
  obtain ⟨htouches, hfresh'⟩ :=
    touches_retireActive hregistry hactive hretire hfresh
  exact htouches.trans ((within_bumpSegment htouches.registry _ tid size
    hfresh').touches htouches.registry)

theorem touches_setListHead (hregistry : RegistryOk layout heap) (tid : ℕ)
    (ref : ListRef) (head : ℕ) :
    Touches layout ref.slot heap (setListHead heap tid ref head) :=
  touches_words hregistry (setListHead_header ..) (setListHead_mapped ..)
    (setListHead_pagemap ..) (setListHead_remoteLog ..) (setListHead_memory ..)
    (slotToSite_setListHead tid ref head) (sameWords_setListHead tid ref head)

theorem touches_refill (hregistry : RegistryOk layout heap) {ref : ListRef}
    {tid size base : ℕ} (hsize : pointerSize ≤ size)
    (hfresh : Fresh layout heap base)
    (hactive : listSegs heap tid ref ≠ 0 → ∃ header,
      slotHeader ref.slot heap (listSegs heap tid ref) = some header)
    {served : Heap × ℕ}
    (hrefill : refill layout ref tid size base heap = some served) :
    Touches layout ref.slot heap served.1 := by
  simp only [refill] at hrefill
  split at hrefill
  · exact (within_refillFresh hregistry hsize hfresh hrefill).touches hregistry
  next hsegs =>
  obtain ⟨header, hheader⟩ := hactive hsegs
  simp only [Option.bind_eq_bind, Option.bind_eq_some_iff] at hrefill
  obtain ⟨harvest, hharvest, hrefill⟩ := hrefill
  have hwithin := within_mpscHarvest hregistry hheader hharvest
  have htouches := hwithin.touches hregistry
  split at hrefill
  · obtain rfl := Option.some.inj hrefill
    exact htouches.trans (touches_setListHead htouches.registry tid ref _)
  · rw [Option.bind_eq_some_iff] at hrefill
    obtain ⟨loaded, hload, hrefill⟩ := hrefill
    have hown := slotHeader_harvested hheader hharvest
    obtain rfl := view_loadHeader_eq_some hown hload
    generalize hstored : harvest.1.storeHeader (listSegs heap tid ref) _ =
      retired at hrefill
    have hretired : Within layout ref.slot (listSegs heap tid ref) harvest.1
        retired := by
      rw [← hstored]
      exact within_storeHeader htouches.registry hown rfl rfl
    have hfresh' := hretired.fresh (slotHeader_eq_some.mp hown).1
      (hwithin.fresh (slotHeader_eq_some.mp hheader).1 hfresh)
    have hserved := within_refillFresh hretired.registry hsize hfresh' hrefill
    exact htouches.trans ((hretired.touches htouches.registry).trans
      (hserved.touches hretired.registry))

theorem touches_popOrRefill (hregistry : RegistryOk layout heap)
    {ref : ListRef} {tid size base : ℕ} (hsize : pointerSize ≤ size)
    (hfresh : Fresh layout heap base)
    (hactive : listSegs heap tid ref ≠ 0 → ∃ header,
      slotHeader ref.slot heap (listSegs heap tid ref) = some header)
    {result : Heap × Served}
    (hpop : popOrRefill layout ref size tid base heap = some result) :
    Touches layout ref.slot heap result.1 := by
  simp only [popOrRefill] at hpop
  split at hpop
  · obtain rfl := Option.some.inj hpop
    exact touches_setListHead hregistry tid ref _
  · rw [Option.map_eq_some_iff] at hpop
    obtain ⟨served, hrefill, rfl⟩ := hpop
    exact touches_refill hregistry hsize hfresh hactive hrefill

/-! ## Calls -/

theorem touches_setBump (hregistry : RegistryOk layout heap) (tid : ℕ)
    (cursor : BumpSlot) :
    Touches layout slot heap { heap with
      bumps := Function.update heap.bumps (tid, slot) cursor } :=
  touches_words hregistry rfl rfl rfl rfl rfl rfl (sameWords_setBump tid cursor)

theorem touches_setArena (hregistry : RegistryOk layout heap) (tid : ℕ)
    (arena : ArenaSlot) :
    Touches layout slot heap { heap with
      arenas := Function.update heap.arenas (tid, slot) arena } :=
  touches_words hregistry rfl rfl rfl rfl rfl rfl (sameWords_setArena tid arena)

theorem touches_bumpRoutine (hregistry : RegistryOk layout heap)
    (strategy : Strategy) {size tid request base : ℕ}
    (hfresh : Fresh layout heap base) {result : Heap × Served}
    (hroutine : bumpRoutine (bumpSegment layout strategy) slot size tid request
      base heap = some result) :
    Touches layout slot heap result.1 := by
  obtain ⟨heap', served⟩ := result
  obtain ⟨rfl, rfl⟩ | ⟨rfl, hroom, rfl, rfl⟩ | ⟨rfl, hzero, rfl, rfl⟩ :=
    bumpRoutine_cases hroutine
  · exact .refl hregistry
  · exact touches_setBump hregistry tid _
  · exact (within_bumpSegment hregistry strategy tid request hfresh).touches
      hregistry

theorem touches_arenaRoutine (hregistry : RegistryOk layout heap)
    {size tid request base : ℕ} (hfresh : Fresh layout heap base)
    {result : Heap × Served}
    (hroutine : arenaRoutine layout slot size tid request base heap =
      some result) :
    Touches layout slot heap result.1 := by
  simp only [arenaRoutine, arenaResetAlloc] at hroutine
  split at hroutine
  · obtain rfl := Option.some.inj hroutine
    exact .refl hregistry
  split at hroutine
  · obtain rfl := Option.some.inj hroutine
    exact touches_setArena hregistry tid _
  · obtain rfl := Option.some.inj hroutine
    dsimp only
    split
    · exact (within_arenaSlowInit hregistry tid size hfresh).touches hregistry
    · exact touches_setArena hregistry tid _

/-- A call of a slot's routine touches nothing of the other slots. -/
theorem touches_routine {spec : RoutineSpec} (haccepts : compileAccepts spec)
    (hregistry : RegistryOk layout heap)
    (hactives : OwnActives layout spec slot heap) {tid request base : ℕ}
    (hfresh : Fresh layout heap base) {result : Heap × Served}
    (hroutine : routine layout spec slot tid request base heap =
      some result) :
    Touches layout slot heap result.1 := by
  cases hstrategy : spec.strategy with
  | generic =>
      simp only [routine, hstrategy] at hroutine
      obtain rfl := Option.some.inj hroutine
      exact .refl hregistry
  | bumpAlloc =>
      simp only [routine, hstrategy] at hroutine
      exact touches_bumpRoutine hregistry .bumpAlloc hfresh hroutine
  | pairedStack =>
      simp only [routine, hstrategy] at hroutine
      exact touches_bumpRoutine hregistry .pairedStack hfresh hroutine
  | epochArena =>
      simp only [routine, hstrategy] at hroutine
      exact touches_arenaRoutine hregistry hfresh hroutine
  | producerConsumer =>
      simp only [routine, hstrategy, pcRoutine, bumpFastPath] at hroutine
      split at hroutine
      · obtain rfl := Option.some.inj hroutine
        exact .refl hregistry
      by_cases hroom : (heap.bumps (tid, slot)).ptr + spec.size <
          (heap.bumps (tid, slot)).limit
      · simp only [hroom, if_true] at hroutine
        obtain rfl := Option.some.inj hroutine
        exact touches_setBump hregistry tid _
      · simp only [hroom, if_false, Option.map_eq_some_iff] at hroutine
        obtain ⟨served, hrefill, rfl⟩ := hroutine
        exact touches_pcRefill hregistry hfresh
          (hactives.queue hstrategy tid) hrefill
  | threadLocalFreeList =>
      have hsize := haccepts.2.2.2.1 hstrategy
      simp only [routine, hstrategy, freelistRoutine] at hroutine
      split at hroutine
      · obtain rfl := Option.some.inj hroutine
        exact .refl hregistry
      · have htouches := touches_popOrRefill hregistry hsize hfresh
          (hactives.lists _ (.single hstrategy hsize) tid 0 Nat.one_pos)
          hroutine
        exact htouches
  | multiSizeFreeList =>
      have hsizes := (haccepts.2.2.2.2 hstrategy).2.2
      simp only [routine, hstrategy, multiRoutine] at hroutine
      cases hfind : findClass spec.classSizes spec.classCount request with
      | none =>
          rw [hfind] at hroutine
          obtain rfl := Option.some.inj hroutine
          exact .refl hregistry
      | some i =>
          rw [hfind] at hroutine
          have hi := (findClass_eq_some hfind).1
          have htouches := touches_popOrRefill hregistry (hsizes i hi) hfresh
            (hactives.lists _ (.classes hstrategy hsizes) tid i hi) hroutine
          exact htouches

/-! ## Frees -/

theorem touches_freeToList (hregistry : RegistryOk layout heap)
    {ref : ListRef} {tid seg ptr : ℕ} {header : SegmentHeader}
    (hheader : slotHeader ref.slot heap seg = some header)
    (hlow : seg ≤ ptr) (hhigh : ptr + pointerSize ≤ segmentEnd layout seg)
    {heap' : Heap}
    (hfree : freeToList heap ref tid seg ptr header = some heap') :
    Touches layout ref.slot heap heap' := by
  rw [freeToList] at hfree
  split at hfree
  · obtain rfl := Option.some.inj hfree
    refine (within_storeHeader hregistry hheader ?_ ?_).touches hregistry
    · rfl
    · rfl
  split at hfree
  · obtain rfl := Option.some.inj hfree
    unfold pointerSize at hhigh
    have hwritten := (within_setMemory hregistry
      (writeWord heap.memory ptr (listHead heap tid ref)) hheader
      fun address haddress => writeWord_outside _ _ (by omega)).touches hregistry
    exact hwritten.trans (touches_setListHead hwritten.registry tid ref ptr)
  · exact (within_mpscPush hregistry hheader hlow hhigh hfree).touches hregistry

theorem within_pairedLifoRewind (hregistry : RegistryOk layout heap)
    {tid seg ptr : ℕ} {header : SegmentHeader}
    (hheader : slotHeader slot heap seg = some header) :
    Within layout slot seg heap
      (pairedLifoRewind heap tid seg ptr header) := by
  have hslot := (slotHeader_eq_some.mp hheader).2
  simp only [pairedLifoRewind, hslot]
  split
  · exact within_setMemory hregistry heap.memory hheader fun _ _ => rfl
  · refine within_ownSegment hregistry hheader ?_ ?_ rfl rfl rfl
      (fun _ _ => rfl) (fun _ _ => rfl)
      { SameWords.refl slot heap with
        bumps := fun _ _ hne => Function.update_of_ne (wordKey_ne hne) _ _ } rfl
    · exact hslot.symm
    · rfl

/-- A free of a chunk touches the segment of the chunk and the words of its
slot. -/
theorem touches_freeManaged (hregistry : RegistryOk layout heap)
    {tid seg ptr : ℕ} {header : SegmentHeader}
    (hheader : slotHeader slot heap seg = some header)
    (hlow : seg ≤ ptr)
    (hhigh : header.strategy ≠ .bumpAlloc → header.strategy ≠ .pairedStack →
      header.strategy ≠ .epochArena →
      ptr + pointerSize ≤ segmentEnd layout seg)
    {heap' : Heap} (hfree : freeManaged heap tid seg ptr = some heap') :
    Touches layout slot heap heap' := by
  have hslot := (slotHeader_eq_some.mp hheader).2
  rw [freeManaged, Option.bind_eq_some_iff] at hfree
  obtain ⟨loaded, hload, hfree⟩ := hfree
  obtain rfl := view_loadHeader_eq_some hheader hload
  cases hstrategy : loaded.strategy with
  | generic =>
      rw [hstrategy] at hfree
      exact Option.some.inj hfree ▸ .refl hregistry
  | bumpAlloc =>
      rw [hstrategy] at hfree
      exact Option.some.inj hfree ▸ .refl hregistry
  | epochArena =>
      rw [hstrategy] at hfree
      exact Option.some.inj hfree ▸ .refl hregistry
  | pairedStack =>
      rw [hstrategy] at hfree
      dsimp only at hfree
      split at hfree
      · obtain rfl := Option.some.inj hfree
        exact (within_pairedLifoRewind hregistry hheader).touches hregistry
      · exact Option.some.inj hfree ▸ .refl hregistry
  | producerConsumer =>
      have hroom := hhigh (by simp [hstrategy]) (by simp [hstrategy])
        (by simp [hstrategy])
      rw [hstrategy] at hfree
      dsimp only at hfree
      split at hfree
      · obtain rfl := Option.some.inj hfree
        refine (within_storeHeader hregistry hheader ?_ ?_).touches hregistry
        · rfl
        · rfl
      · exact (within_mpscPush hregistry hheader hlow hroom hfree).touches
          hregistry
  | threadLocalFreeList =>
      have hroom := hhigh (by simp [hstrategy]) (by simp [hstrategy])
        (by simp [hstrategy])
      rw [hstrategy] at hfree
      have htouches := @touches_freeToList layout heap hregistry
        (.single loaded.slotIndex) tid seg ptr loaded
        (by rwa [ListRef.slot, hslot]) hlow hroom heap' hfree
      rwa [ListRef.slot, hslot] at htouches
  | multiSizeFreeList =>
      have hroom := hhigh (by simp [hstrategy]) (by simp [hstrategy])
        (by simp [hstrategy])
      rw [hstrategy] at hfree
      have htouches := @touches_freeToList layout heap hregistry
        (.sizeClass loaded.slotIndex loaded.classIdx) tid seg ptr loaded
        (by rwa [ListRef.slot, hslot]) hlow hroom heap' hfree
      rwa [ListRef.slot, hslot] at htouches

/-! ## Bytes -/

theorem pcRetire_memory {seg : ℕ} {retired : Heap}
    (hretire : pcRetire heap seg = some retired) :
    retired.memory = heap.memory := by
  simp only [pcRetire, mpscHarvest, Option.bind_eq_bind,
    Option.bind_eq_some_iff, Option.map_eq_some_iff, Option.pure_def,
    Option.some.injEq] at hretire
  obtain ⟨_, _, _, ⟨_, _, rfl⟩, _, _, _, _, rfl⟩ := hretire
  rfl

theorem retireActive_memory {tid : ℕ} {retired : Heap}
    (hretire : retireActive layout tid slot heap = some retired) :
    retired.memory = heap.memory := by
  rw [retireActive] at hretire
  dsimp only at hretire
  split at hretire
  · exact Option.some.inj hretire ▸ rfl
  split at hretire
  · rw [Option.bind_eq_some_iff] at hretire
    obtain ⟨_, -, hretire⟩ := hretire
    split at hretire
    · exact pcRetire_memory hretire
    · exact Option.some.inj hretire ▸ rfl
  · exact Option.some.inj hretire ▸ rfl

/-- A fresh refill writes into the segment it carves. -/
theorem refillFresh_memory {ref : ListRef} {tid size base : ℕ}
    {served : Heap × ℕ} (hsize : pointerSize ≤ size)
    (hplaced : base + layout.segmentSize < 2 ^ 47)
    (hrefill : refillFresh layout ref tid size base heap = some served)
    {address : ℕ}
    (houtside : address < base ∨ segmentEnd layout base ≤ address) :
    served.1.memory address = heap.memory address := by
  have hfilled : (allocSegment layout heap tid ref.strategy ref.slot
      (heap.slotToSite ref.slot) size base).memory =
        fill heap.memory base (segmentEnd layout base) 0 := rfl
  obtain ⟨-, hframe⟩ := carveLoop_segment
    (fill heap.memory base (segmentEnd layout base) 0) hsize hplaced
  simp only [refillFresh, setListSegs_memory, hfilled] at hrefill
  split at hrefill
  · cases hrefill
  · obtain rfl := Option.some.inj hrefill
    rw [setListHead_memory]
    refine (hframe address ?_).trans (fill_outside _ houtside)
    unfold payloadStart
    omega

theorem popOrRefill_memory {ref : ListRef} {tid size base : ℕ}
    {result : Heap × Served} (hsize : pointerSize ≤ size)
    (hplaced : base + layout.segmentSize < 2 ^ 47)
    (hpop : popOrRefill layout ref size tid base heap = some result)
    {address : ℕ}
    (houtside : address < base ∨ segmentEnd layout base ≤ address) :
    result.1.memory address = heap.memory address := by
  simp only [popOrRefill] at hpop
  split at hpop
  · obtain rfl := Option.some.inj hpop
    rw [setListHead_memory]
  rw [Option.map_eq_some_iff] at hpop
  obtain ⟨served, hrefill, rfl⟩ := hpop
  simp only [refill] at hrefill
  split at hrefill
  · exact refillFresh_memory hsize hplaced hrefill houtside
  simp only [mpscHarvest, Option.bind_eq_bind, Option.bind_eq_some_iff,
    Option.map_eq_some_iff] at hrefill
  obtain ⟨_, ⟨header, _, rfl⟩, hrefill⟩ := hrefill
  split at hrefill
  · obtain rfl := Option.some.inj hrefill
    rw [setListHead_memory]
    rfl
  · rw [Option.bind_eq_some_iff] at hrefill
    obtain ⟨_, _, hrefill⟩ := hrefill
    exact refillFresh_memory hsize hplaced hrefill houtside

/-- A call of a routine writes only into the segment it maps, if it maps one. -/
theorem routine_memory {spec : RoutineSpec} (haccepts : compileAccepts spec)
    {tid request base : ℕ} (hplaced : base + layout.segmentSize < 2 ^ 47)
    {result : Heap × Served}
    (hroutine : routine layout spec slot tid request base heap = some result)
    {address : ℕ}
    (houtside : address < base ∨ segmentEnd layout base ≤ address) :
    result.1.memory address = heap.memory address := by
  have hbump {strategy : Strategy} {size : ℕ} {result : Heap × Served}
      (hbumped : bumpRoutine (bumpSegment layout strategy) slot size tid request
        base heap = some result) :
      result.1.memory address = heap.memory address := by
    obtain ⟨heap', served⟩ := result
    obtain ⟨rfl, rfl⟩ | ⟨rfl, hroom, rfl, rfl⟩ | ⟨rfl, hzero, rfl, rfl⟩ :=
      bumpRoutine_cases hbumped
    · rfl
    · rfl
    · exact fill_outside _ houtside
  cases hstrategy : spec.strategy with
  | generic =>
      simp only [routine, hstrategy] at hroutine
      exact Option.some.inj hroutine ▸ rfl
  | bumpAlloc =>
      simp only [routine, hstrategy] at hroutine
      exact hbump hroutine
  | pairedStack =>
      simp only [routine, hstrategy] at hroutine
      exact hbump hroutine
  | epochArena =>
      simp only [routine, hstrategy, arenaRoutine, arenaResetAlloc] at hroutine
      split at hroutine
      · exact Option.some.inj hroutine ▸ rfl
      split at hroutine
      · exact Option.some.inj hroutine ▸ rfl
      obtain rfl := Option.some.inj hroutine
      dsimp only
      split
      · exact fill_outside _ houtside
      · rfl
  | producerConsumer =>
      simp only [routine, hstrategy, pcRoutine, bumpFastPath] at hroutine
      split at hroutine
      · exact Option.some.inj hroutine ▸ rfl
      by_cases hroom : (heap.bumps (tid, slot)).ptr + spec.size <
          (heap.bumps (tid, slot)).limit
      · simp only [hroom, if_true] at hroutine
        exact Option.some.inj hroutine ▸ rfl
      · simp only [hroom, if_false, Option.map_eq_some_iff,
          pcRefill_eq_retireActive] at hroutine
        obtain ⟨_, ⟨retired, hretire, rfl⟩, rfl⟩ := hroutine
        exact (fill_outside _ houtside).trans
          (congrFun (retireActive_memory hretire) address)
  | threadLocalFreeList =>
      have hsize := haccepts.2.2.2.1 hstrategy
      simp only [routine, hstrategy, freelistRoutine] at hroutine
      split at hroutine
      · exact Option.some.inj hroutine ▸ rfl
      · exact popOrRefill_memory hsize hplaced hroutine houtside
  | multiSizeFreeList =>
      have hsizes := (haccepts.2.2.2.2 hstrategy).2.2
      simp only [routine, hstrategy, multiRoutine] at hroutine
      cases hfind : findClass spec.classSizes spec.classCount request with
      | none =>
          rw [hfind] at hroutine
          exact Option.some.inj hroutine ▸ rfl
      | some i =>
          rw [hfind] at hroutine
          exact popOrRefill_memory (hsizes i (findClass_eq_some hfind).1)
            hplaced hroutine houtside

end Segments

end TbjitAlloc.Allocator
