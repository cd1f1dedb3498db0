import TbjitAlloc.FreeList.Chains

/-!
# Every step keeps the lists

The geometry of the segments and the lists over it are kept by every step of the
owner, of a call of `free_managed`, of a client and of the reaper.  A reclaimed
segment is assumed to have no chunk outside its own ledger; that is what the
count of live chunks is for.
-/

namespace TbjitAlloc.FreeList

open TbjitAlloc.ByteMemory
open TbjitAlloc.Carving
open TbjitAlloc.Codegen
open TbjitAlloc.LinkedChain
open TbjitAlloc.Segment

structure Shape (cfg : ListConfig) (st : Machine) : Prop where
  geometry : Geometry cfg st
  chains : Chains cfg st

/-- Every chunk of the segment has been given back. -/
def Drained (cfg : ListConfig) (st : Machine) (base : ℕ) : Prop :=
  ∀ ptr, segmentOf cfg.layout ptr = base → st.place ptr = .uncarved ∨
    st.place ptr = .returned

section Steps

variable {cfg : ListConfig} {st st' : Machine}

theorem shape_initial (slotToSite : ℕ → ℕ) :
    Shape cfg (.initial slotToSite) :=
  ⟨geometry_initial slotToSite, chains_initial slotToSite⟩

/-! ## The owner -/

theorem Shape.startAlloc (hinv : Shape cfg st)
    (hstep : startAlloc cfg st = some st') : Shape cfg st' := by
  simp only [FreeList.startAlloc, Option.ite_none_right_eq_some,
    Option.some.injEq] at hstep
  obtain ⟨⟨hidle, hfree⟩, rfl⟩ := hstep
  split
  all_goals
    next hhead =>
    refine ⟨hinv.geometry.congr (fun _ => rfl)
      (by simp [hidle, AllocPc.building])
      (by simp [hidle, AllocPc.unclassed]) fun _ => Iff.rfl, ?_⟩
    exact hinv.chains.setAlloc hfree (by simp [ownerHead, hidle]) hhead

/-- The refill goes on, and neither the lists nor the segments change. -/
theorem Shape.refill (hinv : Shape cfg st) (hbefore : st.alloc.Refilling)
    (hafter : st'.alloc.Refilling)
    (hmemory : st'.heap.memory = st.heap.memory)
    (hidentity : ∀ base, (st'.heap.header base).map identityOf =
      (st.heap.header base).map identityOf)
    (hremote : ∀ base, (st'.heap.header base).map SegmentHeader.remoteHead =
      (st.heap.header base).map SegmentHeader.remoteHead)
    (hhead : listHead st'.heap cfg.owner cfg.ref =
      listHead st.heap cfg.owner cfg.ref)
    (hfrees : st'.frees = st.frees) (hplace : st'.place = st.place)
    (hbuilding : st'.alloc.building = st.alloc.building)
    (hunclassed : st'.alloc.unclassed cfg.ref = st.alloc.unclassed cfg.ref) :
    Shape cfg st' :=
  ⟨hinv.geometry.congr hidentity hbuilding hunclassed
    fun ptr => by rw [hplace],
    hinv.chains.refill hbefore hafter hmemory hremote hhead hfrees hplace⟩

/-- The store of a fresh header. -/
theorem Geometry.map (hinv : Geometry cfg st) {base : ℕ}
    (halloc : st.alloc = .map) (hfresh : Fresh cfg.layout st.heap base) :
    Geometry cfg { st with
      heap := initSegment cfg.layout st.heap cfg.owner cfg.ref.strategy
        cfg.ref.slot (st.heap.slotToSite cfg.ref.slot) cfg.size base
      alloc := .register base } where
  placed := by
    intro other header hheader
    by_cases heq : other = base
    · exact heq ▸ ⟨hfresh.1, hfresh.2.1, hfresh.2.2.1⟩
    · simp only [initSegment, Function.update_of_ne heq] at hheader
      exact hinv.placed other header hheader
  named := by
    intro other header hheader
    by_cases heq : other = base
    · subst heq
      simp only [initSegment, Function.update_self, Option.some.injEq] at hheader
      subst hheader
      exact ⟨rfl, rfl, rfl, rfl⟩
    · simp only [initSegment, Function.update_of_ne heq] at hheader
      exact hinv.named other header hheader
  classed := by
    intro other header hheader
    by_cases heq : other = base
    · subst heq
      simp only [initSegment, Function.update_self, Option.some.injEq] at hheader
      subst hheader
      cases href : cfg.ref with
      | single slot => exact Or.inl rfl
      | sizeClass slot classIdx => exact Or.inr rfl
    · simp only [initSegment, Function.update_of_ne heq] at hheader
      have hclass := hinv.classed other header hheader
      simp only [halloc, AllocPc.unclassed, reduceCtorEq, or_false] at hclass
      exact Or.inl hclass
  built := by
    intro other hother
    obtain rfl : base = other := by simpa [AllocPc.building] using hother
    simp [initSegment]
  carved := by
    intro ptr
    have hcarved := hinv.carved ptr
    simp only [halloc, AllocPc.building, ne_eq, reduceCtorEq, not_false_eq_true,
      true_and] at hcarved
    change ¬ st.place ptr = .uncarved ↔ _
    rw [hcarved]
    by_cases heq : segmentOf cfg.layout ptr = base
    · simp [heq, hfresh.2.2.2, AllocPc.building]
    · simp [initSegment, heq, Ne.symm heq, AllocPc.building]

theorem Geometry.storeClass (hinv : Geometry cfg st) {base : ℕ}
    {header : SegmentHeader} (halloc : st.alloc = .storeClass base)
    (hload : st.heap.loadHeader base = some header) :
    Geometry cfg { st with
      heap := st.heap.storeHeader base
        { header with classIdx := cfg.ref.classIdx }
      alloc := .readSegs base } where
  placed := by
    intro other header' hheader
    rcases storeHeader_eq_some.mp hheader with ⟨rfl, rfl⟩ | ⟨_, hother⟩
    · exact hinv.placed _ header (loadHeader_eq_some.mp hload).2
    · exact hinv.placed other header' hother
  named := by
    intro other header' hheader
    rcases storeHeader_eq_some.mp hheader with ⟨rfl, rfl⟩ | ⟨_, hother⟩
    · exact hinv.named _ header (loadHeader_eq_some.mp hload).2
    · exact hinv.named other header' hother
  classed := by
    intro other header' hheader
    rcases storeHeader_eq_some.mp hheader with ⟨rfl, rfl⟩ | ⟨hne, hother⟩
    · exact Or.inl rfl
    · have hclass := hinv.classed other header' hother
      simp only [halloc, AllocPc.unclassed, Option.some.injEq, Ne.symm hne,
        or_false] at hclass
      exact Or.inl hclass
  built := by
    intro other hother
    obtain rfl : base = other := by simpa [AllocPc.building] using hother
    exact ⟨_, storeHeader_eq_some.mpr (Or.inl ⟨rfl, rfl⟩)⟩
  carved := by
    intro ptr
    have hcarved := hinv.carved ptr
    simp only [halloc, AllocPc.building] at hcarved ⊢
    rw [hcarved]
    by_cases heq : segmentOf cfg.layout ptr = base
    · simp [heq]
    · simp [Heap.storeHeader, heq]

theorem Geometry.carve (hinv : Geometry cfg st) {base head : ℕ}
    {memory : Memory} (halloc : st.alloc = .carve base) :
    Geometry cfg { st with
      heap := { st.heap with memory := memory }
      alloc := .serveLink head
      place := fun ptr =>
        if ptr ∈ pieces (payloadStart base) cfg.size
            (chunkCount cfg.layout cfg.size) then
          .listed
        else st.place ptr } where
  placed := hinv.placed
  named := hinv.named
  classed := by
    intro other header hheader
    have hclass := hinv.classed other header hheader
    simp only [halloc, AllocPc.unclassed, reduceCtorEq, or_false] at hclass
    exact Or.inl hclass
  built := by simp [AllocPc.building]
  carved := by
    intro ptr
    obtain ⟨header, hheader⟩ := hinv.built base (by simp [halloc, AllocPc.building])
    have haligned := (hinv.placed base header hheader).2.1
    have hcarved := hinv.carved ptr
    simp only [halloc, AllocPc.building, ne_eq, Option.some.injEq] at hcarved
    simp only [AllocPc.building, ne_eq, reduceCtorEq, not_false_eq_true, true_and]
    by_cases hptr : ptr ∈ pieces (payloadStart base) cfg.size
        (chunkCount cfg.layout cfg.size)
    · have hchunk := mem_pieces_iff_isChunk.mp hptr
      simp [hptr, hchunk.segmentOf_eq haligned, hheader, hchunk]
    · simp only [hptr, if_false, hcarved]
      constructor
      · exact fun h => ⟨h.1, h.2.2⟩
      · rintro ⟨hexists, hchunk⟩
        refine ⟨hexists, fun heq => hptr ?_, hchunk⟩
        exact mem_pieces_iff_isChunk.mpr (heq ▸ hchunk)

theorem Shape.allocStep (hinv : Shape cfg st) {base : ℕ}
    (hstep : allocStep cfg st base = some st') : Shape cfg st' := by
  have hgeometry := hinv.geometry
  have hchains := hinv.chains
  cases halloc : st.alloc with
  | idle => simp [FreeList.allocStep, halloc] at hstep
  | serveLink chunk =>
      simp only [FreeList.allocStep, halloc, Option.some.injEq] at hstep
      subst hstep
      have hidle := hchains.frees_owner (by simp [halloc])
      refine ⟨hgeometry.congr (fun _ => rfl) (by simp [halloc, AllocPc.building])
        (by simp [halloc, AllocPc.unclassed]) fun _ => Iff.rfl, ?_⟩
      exact hchains.setAlloc hidle (by simp [ownerHead, halloc])
        ⟨(hchains.serveLink_listed halloc).1, rfl⟩
  | serveStore chunk link =>
      simp only [FreeList.allocStep, halloc, Option.some.injEq] at hstep
      subst hstep
      have hlisted := (hchains.serveStore_listed halloc).2.2
      exact ⟨hgeometry.congr (by simp) (by simp [halloc, AllocPc.building])
        (by simp [halloc, AllocPc.unclassed])
        (update_uncarved (by simp [hlisted]) (by simp)), hchains.serve halloc⟩
  | refill =>
      simp only [FreeList.allocStep, halloc, Option.some.injEq] at hstep
      subst hstep
      split
      all_goals
        exact hinv.refill (by simp [halloc, AllocPc.Refilling]) trivial rfl
          (fun _ => rfl) (fun _ => rfl) rfl rfl rfl
          (by simp [halloc, AllocPc.building])
          (by simp [halloc, AllocPc.unclassed])
  | harvest active =>
      simp only [FreeList.allocStep, halloc, Option.map_eq_some_iff] at hstep
      obtain ⟨header, hload, rfl⟩ := hstep
      split
      · next hhead =>
          exact hinv.refill (by simp [halloc, AllocPc.Refilling]) trivial rfl
            (map_storeHeader _ hload rfl) (map_storeHeader _ hload hhead.symm)
            (listHead_congr rfl rfl) rfl rfl
            (by simp [halloc, AllocPc.building])
            (by simp [halloc, AllocPc.unclassed])
      · next hhead =>
          refine ⟨hgeometry.congr (map_storeHeader _ hload rfl)
            (by simp [halloc, AllocPc.building])
            (by simp [halloc, AllocPc.unclassed]) fun ptr => ?_,
            hchains.takeQueue halloc hload hhead⟩
          dsimp only
          split
          · next htaken => simp [htaken.1]
          · exact Iff.rfl
  | retireCount active =>
      simp only [FreeList.allocStep, halloc, Option.map_eq_some_iff] at hstep
      obtain ⟨header, hload, rfl⟩ := hstep
      exact hinv.refill (by simp [halloc, AllocPc.Refilling]) trivial rfl
        (map_storeHeader _ hload rfl) (map_storeHeader _ hload rfl)
        (listHead_congr rfl rfl) rfl rfl
        (by simp [halloc, AllocPc.building])
        (by simp [halloc, AllocPc.unclassed])
  | retireFlag active =>
      simp only [FreeList.allocStep, halloc, Option.map_eq_some_iff] at hstep
      obtain ⟨header, hload, rfl⟩ := hstep
      exact hinv.refill (by simp [halloc, AllocPc.Refilling]) trivial rfl
        (map_storeHeader _ hload rfl) (map_storeHeader _ hload rfl)
        (listHead_congr rfl rfl) rfl rfl
        (by simp [halloc, AllocPc.building])
        (by simp [halloc, AllocPc.unclassed])
  | map =>
      simp only [FreeList.allocStep, halloc, Option.ite_none_right_eq_some,
        Option.some.injEq] at hstep
      obtain ⟨hfresh, rfl⟩ := hstep
      exact ⟨hgeometry.map halloc hfresh, hchains.map hgeometry halloc hfresh⟩
  | register base =>
      simp only [FreeList.allocStep, halloc, Option.ite_none_right_eq_some,
        Option.some.injEq] at hstep
      obtain ⟨-, rfl⟩ := hstep
      cases href : cfg.ref
      all_goals
        exact hinv.refill (by simp [halloc, AllocPc.Refilling]) trivial rfl
          (fun _ => rfl) (fun _ => rfl) (listHead_congr rfl rfl) rfl rfl
          (by simp [halloc, AllocPc.building])
          (by simp [halloc, href, AllocPc.unclassed])
  | storeClass base =>
      simp only [FreeList.allocStep, halloc, Option.map_eq_some_iff] at hstep
      obtain ⟨header, hload, rfl⟩ := hstep
      refine ⟨hgeometry.storeClass halloc hload, ?_⟩
      exact hchains.refill (by simp [halloc, AllocPc.Refilling]) trivial rfl
        (map_storeHeader _ hload rfl) (listHead_congr rfl rfl) rfl rfl
  | readSegs base =>
      simp only [FreeList.allocStep, halloc, Option.some.injEq] at hstep
      subst hstep
      exact hinv.refill (by simp [halloc, AllocPc.Refilling]) trivial rfl
        (fun _ => rfl) (fun _ => rfl) rfl rfl rfl
        (by simp [halloc, AllocPc.building])
        (by simp [halloc, AllocPc.unclassed])
  | storeNext base segs =>
      simp only [FreeList.allocStep, halloc, Option.map_eq_some_iff] at hstep
      obtain ⟨header, hload, rfl⟩ := hstep
      exact hinv.refill (by simp [halloc, AllocPc.Refilling]) trivial rfl
        (map_storeHeader _ hload rfl) (map_storeHeader _ hload rfl)
        (listHead_congr rfl rfl) rfl rfl
        (by simp [halloc, AllocPc.building])
        (by simp [halloc, AllocPc.unclassed])
  | storeSegs base =>
      simp only [FreeList.allocStep, halloc, Option.some.injEq] at hstep
      subst hstep
      exact hinv.refill (by simp [halloc, AllocPc.Refilling]) trivial (by simp)
        (by simp) (by simp) (by simp) rfl rfl
        (by simp [halloc, AllocPc.building])
        (by simp [halloc, AllocPc.unclassed])
  | carve base =>
      simp only [FreeList.allocStep, halloc, Option.ite_none_left_eq_some,
        Option.some.injEq] at hstep
      obtain ⟨hhead, rfl⟩ := hstep
      obtain ⟨header, hheader⟩ :=
        hgeometry.built base (by simp [halloc, AllocPc.building])
      have hplaced := (hgeometry.placed base header hheader).2.2
      obtain ⟨hchain, hframe⟩ :=
        carveLoop_segment st.heap.memory cfg.size_ge hplaced
      exact ⟨hgeometry.carve halloc,
        hchains.carve hgeometry halloc hhead hchain hframe⟩

/-! ## Frees -/

theorem Shape.startFree (hinv : Shape cfg st) {tid ptr : ℕ}
    (hstep : startFree cfg st tid ptr = some st') : Shape cfg st' := by
  simp only [FreeList.startFree, Option.ite_none_right_eq_some,
    Option.some.injEq] at hstep
  obtain ⟨⟨hheld, hfree, howner⟩, rfl⟩ := hstep
  exact ⟨hinv.geometry.congr (fun _ => rfl) rfl rfl
    (update_uncarved (by simp [hheld]) (by simp)),
    hinv.chains.startFree hheld hfree howner⟩

/-- The access a call of `free_managed` makes next. -/
theorem freeStep_eq_some {tid : ℕ} {spurious : Bool} :
    freeStep cfg st tid spurious = some st' ↔
      ∃ pc header, st.frees tid = some pc ∧
        st.heap.loadHeader (segmentOf cfg.layout pc.ptr) = some header ∧
        freeAccess cfg st tid spurious header pc = some st' := by
  simp only [freeStep, Option.bind_eq_some_iff]
  constructor
  · rintro ⟨pc, hpc, header, hload, haccess⟩
    exact ⟨pc, header, hpc, hload, haccess⟩
  · rintro ⟨pc, header, hpc, hload, haccess⟩
    exact ⟨pc, hpc, header, hload, haccess⟩

/-- A call goes on, with the same chunk. -/
theorem Shape.goto (hinv : Shape cfg st) {tid : ℕ} {pc pc' : FreePc}
    (hpc : st.frees tid = some pc) (hptr : pc'.ptr = pc.ptr)
    (hok : FreeOk cfg st tid pc') : Shape cfg (st.goto tid pc') :=
  ⟨hinv.geometry.congr (fun _ => rfl) rfl rfl fun _ => Iff.rfl,
    hinv.chains.goto hpc hptr hok⟩

/-- A call stores a link into the chunk it has and goes on. -/
theorem Shape.link (hinv : Shape cfg st) {tid value : ℕ} {pc pc' : FreePc}
    (hpc : st.frees tid = some pc) (hptr : pc'.ptr = pc.ptr)
    (hmind : FreeOk cfg { st with heap := { st.heap with
      memory := writeWord st.heap.memory pc.ptr value } } tid pc)
    (hok : FreeOk cfg { st with heap := { st.heap with
      memory := writeWord st.heap.memory pc.ptr value } } tid pc') :
    Shape cfg ({ st with heap := { st.heap with
      memory := writeWord st.heap.memory pc.ptr value } }.goto tid pc') := by
  have hplace := hinv.chains.place_of_free hpc
  have htracked : st.place pc.ptr ≠ .uncarved := by simp [hplace]
  have hroom := cfg.size_ge
  unfold pointerSize at hroom
  have hmemory : ∀ address,
      address < pc.ptr ∨ pc.ptr + cfg.size ≤ address →
        writeWord st.heap.memory pc.ptr value address =
          st.heap.memory address :=
    fun address haddress => writeWord_outside _ _ (by omega)
  have hshape : Shape cfg { st with heap := { st.heap with
      memory := writeWord st.heap.memory pc.ptr value } } := by
    refine ⟨hinv.geometry.congr (fun _ => rfl) rfl rfl fun _ => Iff.rfl,
      hinv.chains.setChunk hinv.geometry pc.ptr htracked (by simp [hplace])
        (by simp [hplace]) (fun tid' pc'' hpc'' heq => ?_) hmemory⟩
    have hother := hinv.chains.place_of_free hpc''
    rw [heq, hplace, Place.freeing.injEq] at hother
    subst hother
    obtain rfl := Option.some.inj (hpc.symm.trans hpc'')
    exact hmind
  exact hshape.goto hpc hptr hok

/-- A header store that leaves the identity and the remote queue alone. -/
theorem Shape.setHeader (hinv : Shape cfg st) {base : ℕ}
    {before after : SegmentHeader}
    (hload : st.heap.loadHeader base = some before)
    (hidentity : identityOf after = identityOf before)
    (hremote : after.remoteHead = before.remoteHead) :
    Shape cfg { st with heap := st.heap.storeHeader base after } :=
  ⟨hinv.geometry.congr (map_storeHeader _ hload hidentity) rfl rfl
    fun _ => Iff.rfl, hinv.chains.setHeader hload hremote⟩

theorem Shape.freeStep (hinv : Shape cfg st) {tid : ℕ} {spurious : Bool}
    (hstep : freeStep cfg st tid spurious = some st') : Shape cfg st' := by
  obtain ⟨pc, header, hpc, hload, haccess⟩ := freeStep_eq_some.mp hstep
  have hgeometry := hinv.geometry
  have hchains := hinv.chains
  have hplace := hchains.place_of_free hpc
  have htracked : st.place pc.ptr ≠ .uncarved := by simp [hplace]
  have hheader := (loadHeader_eq_some.mp hload).2
  have hcall := hchains.calls tid pc hpc
  have hne : pc.ptr ≠ 0 := (hgeometry.isChunk htracked).ne_zero
  have howner := (hgeometry.named _ header hheader).2.2.1
  have hlist := hgeometry.listOf_eq htracked hheader
  cases pc with
  | readRetired ptr =>
      simp only [freeAccess, Option.some.injEq] at haccess
      subst haccess
      split <;> exact hinv.goto hpc rfl trivial
  | fetchSub ptr =>
      simp only [freeAccess, Option.some.injEq] at haccess
      subst haccess
      have hstored : Shape cfg { st with
          heap := st.heap.storeHeader (segmentOf cfg.layout ptr)
            { header with
              liveChunks := Segment.fetchSub header.liveChunks } } :=
        hinv.setHeader hload (by simp only [identityOf]) rfl
      exact ⟨hstored.geometry.congr (fun _ => rfl) rfl rfl
        (update_uncarved htracked (by simp)), hstored.chains.giveBack hpc⟩
  | readOwner ptr =>
      simp only [freeAccess, Option.some.injEq] at haccess
      subst haccess
      split
      · next heq => exact hinv.goto hpc rfl (heq.symm.trans howner)
      · exact hinv.goto hpc rfl trivial
  | readHead ptr =>
      simp only [freeAccess, hlist, Option.map_some, Option.some.injEq] at haccess
      subst haccess
      obtain rfl : tid = cfg.owner := hcall
      exact hinv.goto hpc rfl ⟨rfl, rfl⟩
  | storeLink ptr head =>
      simp only [freeAccess, Option.some.injEq] at haccess
      subst haccess
      obtain ⟨rfl, rfl⟩ := hcall
      have hidle := hchains.solo (by simp [hpc])
      have hlt := hchains.ownerHead_lt hgeometry
      simp only [ownerHead, hidle] at hlt
      exact hinv.link hpc rfl ⟨rfl, (listHead_setMemory _ _ _ _).symm⟩
        ⟨rfl, (readWord_writeWord_same _ _ hlt).trans
          (listHead_setMemory _ _ _ _).symm⟩
  | storeHead ptr =>
      simp only [freeAccess, hlist, Option.map_some, Option.some.injEq] at haccess
      subst haccess
      exact ⟨hgeometry.congr (by simp [Machine.finish]) rfl rfl
        (update_uncarved htracked (by simp)), hchains.pushOwn hne hpc⟩
  | pushLoad ptr =>
      simp only [freeAccess, Option.some.injEq] at haccess
      subst haccess
      exact hinv.goto hpc rfl (hchains.remoteHead_lt hgeometry hheader)
  | pushLink ptr cur =>
      simp only [freeAccess, Option.some.injEq] at haccess
      subst haccess
      exact hinv.link hpc rfl hcall (readWord_writeWord_same _ _ hcall)
  | pushSwap ptr cur =>
      simp only [freeAccess] at haccess
      split at haccess
      · next hswap =>
          obtain rfl := Option.some.inj haccess
          obtain ⟨rfl, -⟩ := hswap
          exact ⟨hgeometry.congr (map_storeHeader _ hload rfl) rfl rfl
            (update_uncarved htracked (by simp)),
            hchains.pushRemote hne hpc hload⟩
      · obtain rfl := Option.some.inj haccess
        exact hinv.goto hpc rfl (hchains.remoteHead_lt hgeometry hheader)

theorem Shape.clientWrite (hinv : Shape cfg st) {ptr offset : ℕ}
    {byte : UInt8} (hstep : clientWrite cfg st ptr offset byte = some st') :
    Shape cfg st' := by
  simp only [FreeList.clientWrite, Option.ite_none_right_eq_some,
    Option.some.injEq] at hstep
  obtain ⟨⟨hheld, hoffset⟩, rfl⟩ := hstep
  refine ⟨hinv.geometry.congr (fun _ => rfl) rfl rfl fun _ => Iff.rfl, ?_⟩
  apply hinv.chains.setChunk hinv.geometry ptr (by simp [hheld]) (by simp [hheld])
    (by simp [hheld])
  · intro tid pc hpc heq
    have hplace := hinv.chains.place_of_free hpc
    simp [heq, hheld] at hplace
  · intro address haddress
    exact Function.update_of_ne (by omega) _ _

/-! ## The reaper -/

/-- Parts of the state that neither the segments nor the lists depend on. -/
theorem Shape.congr (hinv : Shape cfg st)
    (hmemory : st'.heap.memory = st.heap.memory)
    (hheader : st'.heap.header = st.heap.header)
    (hhead : listHead st'.heap cfg.owner cfg.ref =
      listHead st.heap cfg.owner cfg.ref)
    (halloc : st'.alloc = st.alloc) (hfrees : st'.frees = st.frees)
    (hplace : st'.place = st.place) : Shape cfg st' :=
  ⟨hinv.geometry.congr (by simp [hheader]) (by rw [halloc]) (by rw [halloc])
    (by simp [hplace]),
    hinv.chains.congr hmemory hheader hhead halloc hfrees hplace⟩

theorem Shape.setSweep (hinv : Shape cfg st) (id : ℕ) (pc : SweepPc) :
    Shape cfg (st.setSweep id pc) :=
  hinv.congr rfl rfl rfl rfl rfl rfl

theorem Shape.startSweep (hinv : Shape cfg st) {id : ℕ}
    (hstep : startSweep st id = some st') : Shape cfg st' := by
  simp only [FreeList.startSweep, Option.ite_none_right_eq_some,
    Option.some.injEq] at hstep
  obtain ⟨-, rfl⟩ := hstep
  exact hinv.congr rfl rfl rfl rfl rfl rfl

/-- The payload of a drained segment goes back to the system. -/
theorem Shape.decommit (hinv : Shape cfg st) {base : ℕ}
    (hplaced : cfg.layout.segmentSize ∣ base) (hdrained : Drained cfg st base) :
    Shape cfg { st with heap := { st.heap with
      memory := fill st.heap.memory (base + cfg.pageSize)
        (segmentEnd cfg.layout base) 0 } } := by
  refine ⟨hinv.geometry.congr (fun _ => rfl) rfl rfl fun _ => Iff.rfl, ?_⟩
  apply hinv.chains.setUntracked
  intro ptr htracked hreturned
  have hne : segmentOf cfg.layout ptr ≠ base := fun heq =>
    (hdrained ptr heq).elim htracked hreturned
  refine (hinv.geometry.isChunk htracked).readWord_congr cfg.size_ge hplaced hne
    fun address houtside => fill_outside _ ?_
  omega

/-- The sweeps work on drained segments only. -/
theorem Shape.sweepStep (hinv : Shape cfg st) {id : ℕ} {keep : Bool}
    (hselected : ∀ base rest, st.sweeps id = .reclaim (base :: rest) →
      cfg.layout.segmentSize ∣ base ∧ Drained cfg st base)
    (hstep : sweepStep cfg st id keep = some st') : Shape cfg st' := by
  cases hpc : st.sweeps id with
  | idle => simp [FreeList.sweepStep, hpc] at hstep
  | scan i count selected =>
      simp only [FreeList.sweepStep, hpc] at hstep
      split at hstep
      · simp only [Option.bind_eq_some_iff, Option.map_eq_some_iff] at hstep
        obtain ⟨base, -, header, -, rfl⟩ := hstep
        exact hinv.setSweep id _
      · obtain rfl := Option.some.inj hstep
        exact hinv.congr rfl rfl rfl rfl rfl rfl
  | scanLive i count selected base =>
      simp only [FreeList.sweepStep, hpc, Option.map_eq_some_iff] at hstep
      obtain ⟨header, -, rfl⟩ := hstep
      exact hinv.setSweep id _
  | scanGate i count selected base =>
      simp only [FreeList.sweepStep, hpc, Option.map_eq_some_iff] at hstep
      obtain ⟨header, -, rfl⟩ := hstep
      exact hinv.setSweep id _
  | reclaim selected =>
      cases selected with
      | nil =>
          simp only [FreeList.sweepStep, hpc, Option.some.injEq] at hstep
          subst hstep
          exact hinv.setSweep id _
      | cons base rest =>
          obtain ⟨hplaced, hdrained⟩ := hselected base rest hpc
          simp only [FreeList.sweepStep, hpc] at hstep
          split at hstep
          · split at hstep
            · obtain rfl := Option.some.inj hstep
              exact hinv.setSweep id _
            · obtain rfl := Option.some.inj hstep
              exact (hinv.decommit hplaced hdrained).setSweep id _
          · split at hstep
            · obtain rfl := Option.some.inj hstep
              exact hinv.congr rfl rfl (listHead_congr rfl rfl) rfl rfl rfl
            · cases hstep
  | unmap base rest =>
      simp only [FreeList.sweepStep, hpc, Option.some.injEq] at hstep
      subst hstep
      exact hinv.congr rfl rfl (listHead_congr rfl rfl) rfl rfl rfl
  | mark base rest =>
      simp only [FreeList.sweepStep, hpc, Option.map_eq_some_iff] at hstep
      obtain ⟨header, hload, rfl⟩ := hstep
      have hstored : Shape cfg { st with
          heap := st.heap.storeHeader base
            { header with decommitted := true } } :=
        hinv.setHeader hload rfl rfl
      exact hstored.setSweep id _

end Steps

end TbjitAlloc.FreeList
