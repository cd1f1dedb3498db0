import TbjitAlloc.FreeList.Ledger

/-!
# Every step keeps the ledger

What each party may do to the counts: the owner sets a count before the flag, a
call counts a chunk off after it has seen the flag, and a sweep reclaims
segments whose count is zero.  With the lists this is the whole invariant.
-/

namespace TbjitAlloc.FreeList

open TbjitAlloc.ByteMemory
open TbjitAlloc.Carving
open TbjitAlloc.Codegen
open TbjitAlloc.Segment

structure Inv (cfg : ListConfig) (st : Machine) : Prop where
  shape : Shape cfg st
  ledger : Ledger cfg st
  turnover : Turnover cfg st

section Steps

variable {cfg : ListConfig} {st st' : Machine}

theorem inv_initial (slotToSite : ℕ → ℕ) : Inv cfg (.initial slotToSite) :=
  ⟨shape_initial slotToSite, ledger_initial slotToSite,
    turnover_initial slotToSite⟩

/-! ## Changes of the segment in use -/

/-- No segment is being replaced, before or after. -/
theorem Turnover.settle (hinv : Turnover cfg st)
    (hcounts : ∀ base, (st'.heap.header base).map countsOf =
      (st.heap.header base).map countsOf)
    (hsegs : listSegs st'.heap cfg.owner cfg.ref =
      listSegs st.heap cfg.owner cfg.ref)
    (hbefore : ¬ st.alloc.Replacing) (hretiring : st'.alloc.retiring = none)
    (hbuilding : st'.alloc.building = none) : Turnover cfg st' where
  segs := fun _ => hinv.named hbefore hsegs (exists_active hcounts)
  retiring := by simp [hretiring]
  fresh := by simp [hbuilding]

/-- The refill goes on with the segment it builds. -/
theorem Turnover.build (hinv : Turnover cfg st)
    (hcounts : ∀ base, (st'.heap.header base).map countsOf =
      (st.heap.header base).map countsOf)
    (hafter : st'.alloc.Replacing) (hretiring : st'.alloc.retiring = none)
    (hbuilding : st'.alloc.building = st.alloc.building) :
    Turnover cfg st' where
  segs := fun hnot => absurd hafter hnot
  retiring := by simp [hretiring]
  fresh := by
    intro base hbase
    rw [hbuilding] at hbase
    obtain ⟨header, hheader, hactive⟩ := hinv.fresh base hbase
    exact exists_active hcounts base header hheader hactive

/-- Retired headers stay as they are, and the others keep to the ledger. -/
theorem Ledger.keepRetired (hinv : Ledger cfg st)
    (hkeep : ∀ base header, st.heap.header base = some header →
      header.retired = true → st'.heap.header base = some header)
    (hretired : ∀ base header, st'.heap.header base = some header →
      header.retired = true →
      header.liveChunks + returnedCount cfg st.place base =
        chunkCount cfg.layout cfg.size)
    (hactive : ∀ base header, st'.heap.header base = some header →
      header.retired = false →
      ∀ ptr, segmentOf cfg.layout ptr = base → st.place ptr ≠ .returned)
    (hunmapped : ∀ base header, st'.heap.header base = some header →
      st'.heap.mapped base = false → Emptied st base)
    (hfrees : st'.frees = st.frees) (hsweeps : st'.sweeps = st.sweeps)
    (hplace : st'.place = st.place) : Ledger cfg st' := by
  have hempty : ∀ base, Emptied st base → Emptied st' base := by
    rintro base ⟨header, hheader, hflag, hlive⟩
    exact ⟨header, hkeep base header hheader hflag, hflag, hlive⟩
  exact
  { retired := by
      rw [hplace]
      exact hretired
    active := by
      rw [hplace]
      exact hactive
    counting := by
      intro tid ptr hpc
      rw [hfrees] at hpc
      obtain ⟨header, hheader, hflag⟩ := hinv.counting tid ptr hpc
      exact ⟨header, hkeep _ header hheader hflag, hflag⟩
    sweeping := by
      intro id
      rw [hsweeps]
      exact (hinv.sweeping id).mono hempty fun base header hheader hflag =>
        ⟨header, hkeep base header hheader hflag, hflag⟩
    unmapped := fun base header hheader hfalse =>
      hempty base (hunmapped base header hheader hfalse) }

/-- A header that is not retired is replaced: no retired one is touched. -/
theorem keep_storeHeader {heap : Heap} {base : ℕ}
    {before after : SegmentHeader}
    (hload : heap.loadHeader base = some before)
    (hbefore : before.retired = false) (other : ℕ) (header : SegmentHeader)
    (hheader : heap.header other = some header)
    (hretired : header.retired = true) :
    (heap.storeHeader base after).header other = some header := by
  refine storeHeader_eq_some.mpr (Or.inr ⟨?_, hheader⟩)
  rintro rfl
  obtain rfl := Option.some.inj
    ((loadHeader_eq_some.mp hload).2.symm.trans hheader)
  exact absurd hretired (by simp [hbefore])

theorem Ledger.unmapped_storeHeader (hinv : Ledger cfg st) {base : ℕ}
    {before after : SegmentHeader}
    (hload : st.heap.loadHeader base = some before) (other : ℕ)
    (header : SegmentHeader)
    (hheader : (st.heap.storeHeader base after).header other = some header)
    (hunmapped : st.heap.mapped other = false) : Emptied st other := by
  rcases storeHeader_eq_some.mp hheader with ⟨rfl, rfl⟩ | ⟨_, hbefore⟩
  · exact hinv.unmapped _ before (loadHeader_eq_some.mp hload).2 hunmapped
  · exact hinv.unmapped other header hbefore hunmapped

/-- The count of a segment that is not retired is of no account. -/
theorem Ledger.setCount (hinv : Ledger cfg st) {base : ℕ}
    {before after : SegmentHeader}
    (hload : st.heap.loadHeader base = some before)
    (hbefore : before.retired = false) (hafter : after.retired = false)
    {pc : AllocPc} :
    Ledger cfg { st with
      heap := st.heap.storeHeader base after
      alloc := pc } := by
  refine hinv.keepRetired (keep_storeHeader hload hbefore) ?_ ?_
    (hinv.unmapped_storeHeader hload) rfl rfl rfl
  · intro other header hheader hretired
    rcases storeHeader_eq_some.mp hheader with ⟨rfl, rfl⟩ | ⟨_, hother⟩
    · exact absurd hretired (by simp [hafter])
    · exact hinv.retired other header hother hretired
  · intro other header hheader hactive
    rcases storeHeader_eq_some.mp hheader with ⟨rfl, rfl⟩ | ⟨_, hother⟩
    · exact hinv.active _ before (loadHeader_eq_some.mp hload).2 hbefore
    · exact hinv.active other header hother hactive

/-- The flag is set once the count is. -/
theorem Ledger.retire (hgeometry : Geometry cfg st) (hinv : Ledger cfg st)
    {active : ℕ} {header : SegmentHeader}
    (hload : st.heap.loadHeader active = some header)
    (hactive : header.retired = false)
    (hlive : header.liveChunks = chunkCount cfg.layout cfg.size) :
    Ledger cfg { st with
      heap := st.heap.storeHeader active { header with retired := true }
      alloc := .map } := by
  refine hinv.keepRetired (keep_storeHeader hload hactive) ?_ ?_
    (hinv.unmapped_storeHeader hload) rfl rfl rfl
  · intro other header' hheader' hretired
    rcases storeHeader_eq_some.mp hheader' with ⟨rfl, rfl⟩ | ⟨_, hother⟩
    · have hheader := (loadHeader_eq_some.mp hload).2
      have haligned := (hgeometry.placed _ header hheader).2.1
      have hnone := returnedCount_eq_zero haligned
        (hinv.active _ header hheader hactive)
      simp only [hnone, hlive, Nat.add_zero]
    · exact hinv.retired other header' hother hretired
  · intro other header' hheader' hactive'
    rcases storeHeader_eq_some.mp hheader' with ⟨rfl, rfl⟩ | ⟨_, hother⟩
    · exact absurd hactive' (by simp)
    · exact hinv.active other header' hother hactive'

/-- A fresh segment has had nothing given back. -/
theorem Ledger.map (hgeometry : Geometry cfg st) (hinv : Ledger cfg st)
    {base : ℕ} (hfresh : Fresh cfg.layout st.heap base) :
    Ledger cfg { st with
      heap := initSegment cfg.layout st.heap cfg.owner cfg.ref.strategy
        cfg.ref.slot (st.heap.slotToSite cfg.ref.slot) cfg.size base
      alloc := .register base } := by
  refine hinv.keepRetired ?_ ?_ ?_ ?_ rfl rfl rfl
  · intro other header hheader _
    rw [← hheader]
    exact Function.update_of_ne (hfresh.ne hheader) _ _
  · intro other header hheader hretired
    by_cases heq : other = base
    · subst heq
      simp only [initSegment, Function.update_self, Option.some.injEq] at hheader
      subst hheader
      exact absurd hretired (by simp)
    · simp only [initSegment, Function.update_of_ne heq] at hheader
      exact hinv.retired other header hheader hretired
  · intro other header hheader hactive ptr hptr hreturned
    by_cases heq : other = base
    · exact absurd (hptr.trans heq)
        (hgeometry.segment_ne hfresh (by simp [hreturned]))
    · simp only [initSegment, Function.update_of_ne heq] at hheader
      exact hinv.active other header hheader hactive ptr hptr hreturned
  · intro other header hheader hunmapped
    by_cases heq : other = base
    · simp [initSegment, heq] at hunmapped
    · simp only [initSegment, Function.update_of_ne heq] at hheader hunmapped
      exact hinv.unmapped other header hheader hunmapped

/-- A chunk is counted off. -/
theorem Ledger.giveBack (hgeometry : Geometry cfg st) (hchains : Chains cfg st)
    (hcount : chunkCount cfg.layout cfg.size < 2 ^ 32) (hinv : Ledger cfg st)
    {tid ptr : ℕ} {header : SegmentHeader}
    (hpc : st.frees tid = some (.fetchSub ptr))
    (hload : st.heap.loadHeader (segmentOf cfg.layout ptr) = some header) :
    Ledger cfg ({ st with
      heap := st.heap.storeHeader (segmentOf cfg.layout ptr)
        { header with
          liveChunks := Segment.fetchSub header.liveChunks } }.finish tid ptr
      .returned) := by
  have hplace : st.place ptr = .freeing tid := hchains.place_of_free hpc
  have htracked : st.place ptr ≠ .uncarved := by simp [hplace]
  have hchunk := hgeometry.isChunk htracked
  have hheader := (loadHeader_eq_some.mp hload).2
  have hretired : header.retired = true := by
    obtain ⟨other, hother, hflag⟩ := hinv.counting tid ptr hpc
    obtain rfl := Option.some.inj (hheader.symm.trans hother)
    exact hflag
  have hbooks := hinv.retired _ header hheader hretired
  have hgiven : returnedCount cfg (Function.update st.place ptr .returned)
      (segmentOf cfg.layout ptr) =
        returnedCount cfg st.place (segmentOf cfg.layout ptr) + 1 :=
    returnedCount_update hchunk (by simp [hplace])
  -- The chunk was outstanding, so the count was not zero.
  have hpositive : 0 < header.liveChunks := by
    by_contra hzero
    have hall : returnedCount cfg st.place (segmentOf cfg.layout ptr) =
        chunkCount cfg.layout cfg.size := by omega
    exact absurd (returnedCount_eq_chunkCount hall hchunk) (by simp [hplace])
  have hsub : Segment.fetchSub header.liveChunks = header.liveChunks - 1 :=
    fetchSub_of_pos hpositive (by omega)
  have hempty : ∀ other, Emptied st other →
      ∃ header', (st.heap.storeHeader (segmentOf cfg.layout ptr)
        { header with
          liveChunks := Segment.fetchSub header.liveChunks }).header other =
          some header' ∧ header'.retired = true ∧ header'.liveChunks = 0 := by
    rintro other ⟨header', hheader', hflag, hzero⟩
    refine ⟨header', storeHeader_eq_some.mpr (Or.inr ⟨?_, hheader'⟩), hflag, hzero⟩
    rintro rfl
    obtain rfl := Option.some.inj (hheader.symm.trans hheader')
    omega
  exact
  { retired := by
      intro other header' hheader' hflag
      simp only [Machine.finish] at hheader' ⊢
      rcases storeHeader_eq_some.mp hheader' with ⟨rfl, rfl⟩ | ⟨hne, hheader'⟩
      · dsimp only
        rw [hgiven, hsub]
        omega
      · rw [returnedCount_congr, hinv.retired other header' hheader' hflag]
        intro node hnode
        have haligned := (hgeometry.placed other header' hheader').2.1
        have hnodeNe : node ≠ ptr := by
          rintro rfl
          exact hne (hnode.segmentOf_eq haligned).symm
        simp [hnodeNe]
    active := by
      intro other header' hheader' hactive node hnode
      simp only [Machine.finish] at hheader' ⊢
      rcases storeHeader_eq_some.mp hheader' with ⟨rfl, rfl⟩ | ⟨hne, hheader'⟩
      · exact absurd hactive (by simp [hretired])
      · have hnodeNe : node ≠ ptr := by
          rintro rfl
          exact hne hnode.symm
        rw [Function.update_of_ne hnodeNe]
        exact hinv.active other header' hheader' hactive node hnode
    counting := by
      intro tid' node hother
      have hbefore : st.frees tid' = some (.fetchSub node) :=
        (frees_finish hother).2
      obtain ⟨header', hheader', hflag⟩ := hinv.counting tid' node hbefore
      by_cases heq : segmentOf cfg.layout node = segmentOf cfg.layout ptr
      · exact ⟨_, storeHeader_eq_some.mpr (Or.inl ⟨heq, rfl⟩), hretired⟩
      · exact ⟨header', storeHeader_eq_some.mpr (Or.inr ⟨heq, hheader'⟩), hflag⟩
    sweeping := fun id => (hinv.sweeping id).mono hempty
      fun other header' hheader' hflag => by
        by_cases heq : other = segmentOf cfg.layout ptr
        · exact ⟨_, storeHeader_eq_some.mpr (Or.inl ⟨heq, rfl⟩), hretired⟩
        · exact ⟨header', storeHeader_eq_some.mpr (Or.inr ⟨heq, hheader'⟩),
            hflag⟩
    unmapped := by
      intro other header' hheader' hunmapped
      apply hempty
      rcases storeHeader_eq_some.mp hheader' with ⟨rfl, rfl⟩ | ⟨_, hheader'⟩
      · exact hinv.unmapped _ header hheader hunmapped
      · exact hinv.unmapped other header' hheader' hunmapped }

/-! ## Every step keeps the ledger -/

/-- An allocation gives nothing back, and it retires a segment only after
setting its count. -/
theorem Inv.booksAllocStep (hcount : chunkCount cfg.layout cfg.size < 2 ^ 32)
    (hinv : Inv cfg st) {base : ℕ} (hstep : allocStep cfg st base = some st') :
    Ledger cfg st' ∧ Turnover cfg st' := by
  have hgeometry := hinv.shape.geometry
  have hledger := hinv.ledger
  have hturnover := hinv.turnover
  cases halloc : st.alloc with
  | idle => simp [FreeList.allocStep, halloc] at hstep
  | serveLink chunk =>
      simp only [FreeList.allocStep, halloc, Option.some.injEq] at hstep
      subst hstep
      exact ⟨hledger.congr (fun _ => rfl) rfl (fun _ => Iff.rfl)
        (fun _ _ h => h) rfl,
        hturnover.settle (fun _ => rfl) rfl
          (by simp [halloc, AllocPc.Replacing]) rfl rfl⟩
  | serveStore chunk link =>
      simp only [FreeList.allocStep, halloc, Option.some.injEq] at hstep
      subst hstep
      have hlisted := (hinv.shape.chains.serveStore_listed halloc).2.2
      exact ⟨hledger.congr (by simp) (by simp)
        (update_place_other (by simp [hlisted]) (by simp)) (fun _ _ h => h) rfl,
        hturnover.settle (by simp) (by simp)
          (by simp [halloc, AllocPc.Replacing]) rfl rfl⟩
  | refill =>
      simp only [FreeList.allocStep, halloc, Option.some.injEq] at hstep
      subst hstep
      refine ⟨hledger.congr (fun _ => rfl) rfl (fun _ => Iff.rfl)
        (fun _ _ h => h) rfl, ?_⟩
      have hsegs := hturnover.segs (by simp [halloc, AllocPc.Replacing])
      split
      · exact hturnover.settle (fun _ => rfl) rfl
          (by simp [halloc, AllocPc.Replacing]) rfl rfl
      · next hne =>
          obtain ⟨header, hheader, hactive⟩ := hsegs.resolve_left hne
          exact
          { segs := fun _ => Or.inr ⟨header, hheader, hactive⟩
            retiring := by
              intro other hother
              obtain rfl := Option.some.inj hother
              exact ⟨header, hheader, hactive, by simp⟩
            fresh := by simp [AllocPc.building] }
  | harvest active =>
      simp only [FreeList.allocStep, halloc, Option.map_eq_some_iff] at hstep
      obtain ⟨header, hload, rfl⟩ := hstep
      obtain ⟨before, hbefore, hactive, -⟩ :=
        hturnover.retiring active (by simp [halloc, AllocPc.retiring])
      obtain rfl := Option.some.inj
        (hbefore.symm.trans (loadHeader_eq_some.mp hload).2)
      have hcounts := map_storeHeader countsOf hload
        (show countsOf { before with remoteHead := 0 } = countsOf before from rfl)
      split
      · refine ⟨hledger.congr hcounts rfl (fun _ => Iff.rfl)
          (fun _ _ h => h) rfl, ?_⟩
        have hkept : Turnover cfg { st with
            heap := st.heap.storeHeader active
              { before with remoteHead := 0 } } :=
          hturnover.congr hcounts (listSegs_congr rfl rfl) rfl
        exact
        { segs := fun _ => hkept.segs (by simp [halloc, AllocPc.Replacing])
          retiring := by
            intro other hother
            obtain rfl := Option.some.inj hother
            obtain ⟨header, hheader, hflag, -⟩ :=
              hkept.retiring active (by simp [halloc, AllocPc.retiring])
            exact ⟨header, hheader, hflag, by simp⟩
          fresh := by simp [AllocPc.building] }
      · refine ⟨hledger.congr hcounts rfl (fun ptr => ?_) (fun _ _ h => h) rfl,
          hturnover.settle hcounts (listSegs_congr rfl rfl)
            (by simp [halloc, AllocPc.Replacing]) rfl rfl⟩
        dsimp only
        split
        · next htaken => simp [htaken.1]
        · exact Iff.rfl
  | retireCount active =>
      simp only [FreeList.allocStep, halloc, Option.map_eq_some_iff] at hstep
      obtain ⟨header, hload, rfl⟩ := hstep
      have hheader := (loadHeader_eq_some.mp hload).2
      obtain ⟨before, hbefore, hactive, -⟩ :=
        hturnover.retiring active (by simp [halloc, AllocPc.retiring])
      obtain rfl := Option.some.inj (hbefore.symm.trans hheader)
      refine ⟨hledger.setCount hload hactive (by exact hactive), ?_⟩
      exact
      { segs := by
          intro _
          refine hturnover.named (by simp [halloc, AllocPc.Replacing])
            (listSegs_congr rfl rfl) fun other header hother hflag => ?_
          by_cases heq : other = active
          · exact ⟨_, storeHeader_eq_some.mpr (Or.inl ⟨heq, rfl⟩), hactive⟩
          · exact ⟨header, storeHeader_eq_some.mpr (Or.inr ⟨heq, hother⟩), hflag⟩
        retiring := by
          intro other hother
          obtain rfl := Option.some.inj hother
          refine ⟨_, storeHeader_eq_some.mpr (Or.inl ⟨rfl, rfl⟩), hactive,
            fun _ => ?_⟩
          have hsize := (hgeometry.named _ before hheader).2.2.2
          have hroom := cfg.size_ge
          unfold pointerSize at hroom
          change chunksInSegment cfg.layout before.chunkSize = _
          rw [chunksInSegment, hsize, if_neg (by omega), Nat.mod_eq_of_lt hcount]
        fresh := by simp [AllocPc.building] }
  | retireFlag active =>
      simp only [FreeList.allocStep, halloc, Option.map_eq_some_iff] at hstep
      obtain ⟨header, hload, rfl⟩ := hstep
      obtain ⟨before, hbefore, hactive, hlive⟩ :=
        hturnover.retiring active (by simp [halloc, AllocPc.retiring])
      obtain rfl := Option.some.inj
        (hbefore.symm.trans (loadHeader_eq_some.mp hload).2)
      exact ⟨hledger.retire hgeometry hload hactive (hlive halloc),
        fun hnot => absurd trivial hnot, by simp [AllocPc.retiring],
        by simp [AllocPc.building]⟩
  | map =>
      simp only [FreeList.allocStep, halloc, Option.ite_none_right_eq_some,
        Option.some.injEq] at hstep
      obtain ⟨hfresh, rfl⟩ := hstep
      refine ⟨hledger.map hgeometry hfresh, fun hnot => absurd trivial hnot,
        by simp [AllocPc.retiring], fun other hother => ?_⟩
      obtain rfl := Option.some.inj hother
      exact ⟨_, Function.update_self _ _ _, rfl⟩
  | register base =>
      simp only [FreeList.allocStep, halloc, Option.ite_none_right_eq_some,
        Option.some.injEq] at hstep
      obtain ⟨-, rfl⟩ := hstep
      refine ⟨hledger.congr (fun _ => rfl) rfl (fun _ => Iff.rfl)
        (fun _ _ h => h) rfl, ?_⟩
      cases cfg.ref <;>
        exact hturnover.build (fun _ => rfl) trivial rfl
          (by simp [halloc, AllocPc.building])
  | storeClass base =>
      simp only [FreeList.allocStep, halloc, Option.map_eq_some_iff] at hstep
      obtain ⟨header, hload, rfl⟩ := hstep
      exact ⟨hledger.congr (map_storeHeader _ hload rfl) rfl (fun _ => Iff.rfl)
        (fun _ _ h => h) rfl,
        hturnover.build (map_storeHeader _ hload rfl) trivial rfl
          (by simp [halloc, AllocPc.building])⟩
  | readSegs base =>
      simp only [FreeList.allocStep, halloc, Option.some.injEq] at hstep
      subst hstep
      exact ⟨hledger.congr (fun _ => rfl) rfl (fun _ => Iff.rfl)
        (fun _ _ h => h) rfl,
        hturnover.build (fun _ => rfl) trivial rfl
          (by simp [halloc, AllocPc.building])⟩
  | storeNext base segs =>
      simp only [FreeList.allocStep, halloc, Option.map_eq_some_iff] at hstep
      obtain ⟨header, hload, rfl⟩ := hstep
      exact ⟨hledger.congr (map_storeHeader _ hload rfl) rfl (fun _ => Iff.rfl)
        (fun _ _ h => h) rfl,
        hturnover.build (map_storeHeader _ hload rfl) trivial rfl
          (by simp [halloc, AllocPc.building])⟩
  | storeSegs base =>
      simp only [FreeList.allocStep, halloc, Option.some.injEq] at hstep
      subst hstep
      obtain ⟨header, hheader, hactive⟩ :=
        hturnover.fresh base (by simp [halloc, AllocPc.building])
      refine ⟨hledger.congr (by simp) (by simp) (fun _ => Iff.rfl)
        (fun _ _ h => h) rfl, ?_⟩
      exact
      { segs := fun _ => Or.inr ⟨header, by simpa using hheader, hactive⟩
        retiring := by simp [AllocPc.retiring]
        fresh := by
          intro other hother
          obtain rfl := Option.some.inj hother
          exact ⟨header, by simpa using hheader, hactive⟩ }
  | carve base =>
      simp only [FreeList.allocStep, halloc, Option.ite_none_left_eq_some,
        Option.some.injEq] at hstep
      obtain ⟨-, rfl⟩ := hstep
      obtain ⟨header, hheader, hactive⟩ :=
        hturnover.fresh base (by simp [halloc, AllocPc.building])
      have haligned := (hgeometry.placed base header hheader).2.1
      refine ⟨hledger.congr (fun _ => rfl) rfl (fun ptr => ?_)
        (fun _ _ h => h) rfl,
        hturnover.settle (fun _ => rfl) (listSegs_congr rfl rfl)
          (by simp [halloc, AllocPc.Replacing]) rfl rfl⟩
      dsimp only
      split
      · next hptr =>
          have hchunk := mem_pieces_iff_isChunk.mp hptr
          have hnone := hledger.active base header hheader hactive ptr
            (hchunk.segmentOf_eq haligned)
          simp [hnone]
      · exact Iff.rfl

/-- A call counts a chunk off only when it has seen the segment retired. -/
theorem Inv.booksFreeStep (hcount : chunkCount cfg.layout cfg.size < 2 ^ 32)
    (hinv : Inv cfg st) {tid : ℕ} {spurious : Bool}
    (hstep : freeStep cfg st tid spurious = some st') :
    Ledger cfg st' ∧ Turnover cfg st' := by
  obtain ⟨pc, header, hpc, hload, haccess⟩ := freeStep_eq_some.mp hstep
  have hgeometry := hinv.shape.geometry
  have hledger := hinv.ledger
  have hturnover := hinv.turnover
  have hplace := hinv.shape.chains.place_of_free hpc
  have hheader := (loadHeader_eq_some.mp hload).2
  have hlist := hgeometry.listOf_eq (by simp [hplace]) hheader
  -- Going on at another access is no business of the ledger, except where
  -- that access counts.
  have hgoto : ∀ pc' : FreePc, (∀ ptr, pc' = .fetchSub ptr →
      segmentOf cfg.layout ptr = segmentOf cfg.layout pc.ptr ∧
        header.retired = true) → Ledger cfg (st.goto tid pc') := by
    intro pc' hcounts
    refine { hledger with counting := ?_ }
    intro tid' ptr hother
    by_cases heq : tid' = tid
    · subst heq
      have hpc' : pc' = .fetchSub ptr := by simpa [Machine.goto] using hother
      obtain ⟨hsegment, hretired⟩ := hcounts ptr hpc'
      exact ⟨header, hsegment ▸ hheader, hretired⟩
    · exact hledger.counting tid' ptr (by simpa [Machine.goto, heq] using hother)
  have hfinish : ∀ tid' ptr target other,
      (st.finish tid ptr target).frees tid' = some (.fetchSub other) →
        st.frees tid' = some (.fetchSub other) :=
    fun _ _ _ _ hother => (frees_finish hother).2
  cases pc with
  | readRetired ptr =>
      simp only [freeAccess, Option.some.injEq] at haccess
      subst haccess
      refine ⟨hgoto _ fun other hother => ?_,
        hturnover.congr (fun _ => rfl) rfl rfl⟩
      split at hother
      · next hretired =>
          obtain rfl : ptr = other := FreePc.fetchSub.inj hother
          exact ⟨rfl, hretired⟩
      · cases hother
  | fetchSub ptr =>
      simp only [freeAccess, Option.some.injEq] at haccess
      subst haccess
      refine ⟨hledger.giveBack hgeometry hinv.shape.chains hcount hpc hload, ?_⟩
      obtain ⟨other, hother, hretired⟩ := hledger.counting tid ptr hpc
      obtain rfl := Option.some.inj (hheader.symm.trans hother)
      -- The segments in use and under construction are not retired.
      have hkeep : ∀ base before, st.heap.header base = some before →
          before.retired = false →
          (st.heap.storeHeader (segmentOf cfg.layout ptr) { header with
            liveChunks := Segment.fetchSub header.liveChunks }).header base =
            some before := by
        intro base before hbefore hactive
        refine storeHeader_eq_some.mpr (Or.inr ⟨?_, hbefore⟩)
        rintro rfl
        obtain rfl := Option.some.inj (hheader.symm.trans hbefore)
        exact absurd hretired (by simp [hactive])
      exact
      { segs := fun hnot =>
          hturnover.named hnot (listSegs_congr rfl rfl)
            fun base before hbefore hactive =>
              ⟨before, hkeep base before hbefore hactive, hactive⟩
        retiring := by
          intro base hbase
          obtain ⟨before, hbefore, hactive, hlive⟩ := hturnover.retiring base hbase
          exact ⟨before, hkeep _ before hbefore hactive, hactive, hlive⟩
        fresh := by
          intro base hbase
          obtain ⟨before, hbefore, hactive⟩ := hturnover.fresh base hbase
          exact ⟨before, hkeep _ before hbefore hactive, hactive⟩ }
  | readOwner ptr =>
      simp only [freeAccess, Option.some.injEq] at haccess
      subst haccess
      refine ⟨hgoto _ fun other hother => ?_,
        hturnover.congr (fun _ => rfl) rfl rfl⟩
      split at hother <;> cases hother
  | readHead ptr =>
      simp only [freeAccess, hlist, Option.map_some, Option.some.injEq] at haccess
      subst haccess
      exact ⟨hgoto _ (by simp), hturnover.congr (fun _ => rfl) rfl rfl⟩
  | storeLink ptr head =>
      simp only [freeAccess, Option.some.injEq] at haccess
      subst haccess
      have hnext := hgoto (.storeHead ptr) (by simp)
      exact ⟨hnext.congr (fun _ => rfl) rfl (fun _ => Iff.rfl)
        (fun _ _ h => h) rfl,
        hturnover.congr (fun _ => rfl) (listSegs_congr rfl rfl) rfl⟩
  | storeHead ptr =>
      simp only [freeAccess, hlist, Option.map_some, Option.some.injEq] at haccess
      subst haccess
      exact ⟨hledger.congr (by simp [Machine.finish]) (by simp [Machine.finish])
        (update_place_other (by simp [show st.place ptr = _ from hplace])
          (by simp)) (hfinish · ptr .listed ·) rfl,
        hturnover.congr (by simp [Machine.finish]) (by simp [Machine.finish]) rfl⟩
  | pushLoad ptr =>
      simp only [freeAccess, Option.some.injEq] at haccess
      subst haccess
      exact ⟨hgoto _ (by simp), hturnover.congr (fun _ => rfl) rfl rfl⟩
  | pushLink ptr cur =>
      simp only [freeAccess, Option.some.injEq] at haccess
      subst haccess
      have hnext := hgoto (.pushSwap ptr cur) (by simp)
      exact ⟨hnext.congr (fun _ => rfl) rfl (fun _ => Iff.rfl)
        (fun _ _ h => h) rfl,
        hturnover.congr (fun _ => rfl) (listSegs_congr rfl rfl) rfl⟩
  | pushSwap ptr cur =>
      simp only [freeAccess] at haccess
      split at haccess
      · obtain rfl := Option.some.inj haccess
        have hcounts := map_storeHeader countsOf hload
          (show countsOf { header with remoteHead := ptr } = countsOf header
            from rfl)
        exact ⟨hledger.congr hcounts rfl
          (update_place_other (by simp [show st.place ptr = _ from hplace])
            (by simp)) (hfinish · ptr .queued ·) rfl,
          hturnover.congr hcounts (listSegs_congr rfl rfl) rfl⟩
      · obtain rfl := Option.some.inj haccess
        exact ⟨hgoto _ (by simp), hturnover.congr (fun _ => rfl) rfl rfl⟩

/-- A sweep moves on to a program point it is entitled to. -/
theorem Ledger.setSweep (hinv : Ledger cfg st) {id : ℕ} {pc : SweepPc}
    (hok : SweepOk st pc) : Ledger cfg (st.setSweep id pc) where
  retired := hinv.retired
  active := hinv.active
  counting := hinv.counting
  sweeping := by
    intro other
    by_cases heq : other = id
    · subst heq
      simp only [Machine.setSweep, Function.update_self]
      exact hok.mono (fun _ h => h) fun _ header hheader hflag =>
        ⟨header, hheader, hflag⟩
    · simp only [Machine.setSweep, Function.update_of_ne heq]
      exact (hinv.sweeping other).mono (fun _ h => h)
        fun _ header hheader hflag => ⟨header, hheader, hflag⟩
  unmapped := hinv.unmapped

/-- A sweep selects and reclaims emptied segments only. -/
theorem Inv.booksSweepStep (hinv : Inv cfg st) {id : ℕ} {keep : Bool}
    (hstep : sweepStep cfg st id keep = some st') :
    Ledger cfg st' ∧ Turnover cfg st' := by
  have hledger := hinv.ledger
  have hturnover := hinv.turnover
  have hok := hledger.sweeping id
  cases hpc : st.sweeps id with
  | idle => simp [FreeList.sweepStep, hpc] at hstep
  | scan i count selected =>
      rw [hpc] at hok
      simp only [FreeList.sweepStep, hpc] at hstep
      split at hstep
      · simp only [Option.bind_eq_some_iff, Option.map_eq_some_iff] at hstep
        obtain ⟨base, -, header, hload, rfl⟩ := hstep
        refine ⟨hledger.setSweep ?_, hturnover.congr (fun _ => rfl) rfl rfl⟩
        split
        · next hflag => exact ⟨hok, header, (loadHeader_eq_some.mp hload).2, hflag⟩
        · exact hok
      · obtain rfl := Option.some.inj hstep
        have hmoved : Ledger cfg (st.setSweep id (.reclaim selected)) :=
          hledger.setSweep hok
        exact ⟨hmoved.congr (fun _ => rfl) rfl (fun _ => Iff.rfl)
          (fun _ _ h => h) rfl, hturnover.congr (fun _ => rfl) rfl rfl⟩
  | scanLive i count selected base =>
      rw [hpc] at hok
      simp only [FreeList.sweepStep, hpc, Option.map_eq_some_iff] at hstep
      obtain ⟨header, hload, rfl⟩ := hstep
      refine ⟨hledger.setSweep ?_, hturnover.congr (fun _ => rfl) rfl rfl⟩
      obtain ⟨hselected, before, hbefore, hflag⟩ := hok
      obtain rfl := Option.some.inj
        (hbefore.symm.trans (loadHeader_eq_some.mp hload).2)
      split
      · next hlive => exact ⟨hselected, before, hbefore, hflag, hlive⟩
      · exact hselected
  | scanGate i count selected base =>
      rw [hpc] at hok
      simp only [FreeList.sweepStep, hpc, Option.map_eq_some_iff] at hstep
      obtain ⟨header, -, rfl⟩ := hstep
      refine ⟨hledger.setSweep ?_, hturnover.congr (fun _ => rfl) rfl rfl⟩
      split
      · exact hok.1
      · intro other hother
        rcases List.mem_append.mp hother with hother | hother
        · exact hok.1 other hother
        · exact List.mem_singleton.mp hother ▸ hok.2
  | reclaim selected =>
      rw [hpc] at hok
      cases selected with
      | nil =>
          simp only [FreeList.sweepStep, hpc, Option.some.injEq] at hstep
          subst hstep
          exact ⟨hledger.setSweep trivial, hturnover.congr (fun _ => rfl) rfl rfl⟩
      | cons base rest =>
          have hhead := hok base List.mem_cons_self
          have hrest : ∀ other ∈ rest, Emptied st other := fun other hother =>
            hok other (List.mem_cons_of_mem _ hother)
          simp only [FreeList.sweepStep, hpc] at hstep
          split at hstep
          · split at hstep
            · obtain rfl := Option.some.inj hstep
              exact ⟨hledger.setSweep hrest,
                hturnover.congr (fun _ => rfl) rfl rfl⟩
            · obtain rfl := Option.some.inj hstep
              have hmoved : Ledger cfg (st.setSweep id (.mark base rest)) :=
                hledger.setSweep ⟨hhead, hrest⟩
              exact ⟨hmoved.congr (fun _ => rfl) rfl (fun _ => Iff.rfl)
                (fun _ _ h => h) rfl,
                hturnover.congr (fun _ => rfl) (listSegs_congr rfl rfl) rfl⟩
          · split at hstep
            · obtain rfl := Option.some.inj hstep
              have hmoved : Ledger cfg (st.setSweep id (.unmap base rest)) :=
                hledger.setSweep ⟨hhead, hrest⟩
              exact ⟨hmoved.congr (fun _ => rfl) rfl (fun _ => Iff.rfl)
                (fun _ _ h => h) rfl,
                hturnover.congr (fun _ => rfl) (listSegs_congr rfl rfl) rfl⟩
            · cases hstep
  | unmap base rest =>
      rw [hpc] at hok
      simp only [FreeList.sweepStep, hpc, Option.some.injEq] at hstep
      subst hstep
      have hmoved : Ledger cfg (st.setSweep id (.reclaim rest)) :=
        hledger.setSweep hok.2
      refine ⟨{ hmoved with unmapped := ?_ },
        hturnover.congr (fun _ => rfl) (listSegs_congr rfl rfl) rfl⟩
      intro other header hheader hunmapped
      by_cases heq : other = base
      · exact heq ▸ hok.1
      · simp only [Machine.setSweep, Function.update_of_ne heq] at hunmapped
        exact hledger.unmapped other header hheader hunmapped
  | mark base rest =>
      rw [hpc] at hok
      simp only [FreeList.sweepStep, hpc, Option.map_eq_some_iff] at hstep
      obtain ⟨header, hload, rfl⟩ := hstep
      have hmoved : Ledger cfg (st.setSweep id (.reclaim rest)) :=
        hledger.setSweep hok.2
      have hcounts := map_storeHeader countsOf hload
        (show countsOf { header with decommitted := true } = countsOf header
          from rfl)
      exact ⟨hmoved.congr hcounts rfl (fun _ => Iff.rfl) (fun _ _ h => h) rfl,
        hturnover.congr hcounts (listSegs_congr rfl rfl) rfl⟩

theorem Inv.step (hcount : chunkCount cfg.layout cfg.size < 2 ^ 32)
    (hinv : Inv cfg st) {action : Action}
    (hstep : step cfg st action = some st') : Inv cfg st' := by
  have hledger := hinv.ledger
  have hturnover := hinv.turnover
  cases action with
  | alloc =>
      have hshape := hinv.shape.startAlloc hstep
      simp only [FreeList.step, FreeList.startAlloc,
        Option.ite_none_right_eq_some, Option.some.injEq] at hstep
      obtain ⟨⟨hidle, -⟩, rfl⟩ := hstep
      refine ⟨hshape, hledger.congr (fun _ => rfl) rfl (fun _ => Iff.rfl)
        (fun _ _ h => h) rfl, ?_⟩
      split <;>
        exact hturnover.settle (fun _ => rfl) rfl
          (by simp [hidle, AllocPc.Replacing]) rfl rfl
  | allocStep base =>
      obtain ⟨hledger', hturnover'⟩ := hinv.booksAllocStep hcount hstep
      exact ⟨hinv.shape.allocStep hstep, hledger', hturnover'⟩
  | free tid ptr =>
      have hshape := hinv.shape.startFree hstep
      simp only [FreeList.step, FreeList.startFree,
        Option.ite_none_right_eq_some, Option.some.injEq] at hstep
      obtain ⟨⟨hheld, -, -⟩, rfl⟩ := hstep
      refine ⟨hshape, hledger.congr (fun _ => rfl) rfl
        (update_place_other (by simp [hheld]) (by simp)) ?_ rfl,
        hturnover.congr (fun _ => rfl) rfl rfl⟩
      intro tid' other hother
      by_cases heq : tid' = tid
      · simp [heq] at hother
      · simpa [heq] using hother
  | freeStep tid spurious =>
      obtain ⟨hledger', hturnover'⟩ := hinv.booksFreeStep hcount hstep
      exact ⟨hinv.shape.freeStep hstep, hledger', hturnover'⟩
  | write ptr offset byte =>
      have hshape := hinv.shape.clientWrite hstep
      simp only [FreeList.step, FreeList.clientWrite,
        Option.ite_none_right_eq_some, Option.some.injEq] at hstep
      obtain ⟨-, rfl⟩ := hstep
      exact ⟨hshape, hledger.congr (fun _ => rfl) rfl (fun _ => Iff.rfl)
        (fun _ _ h => h) rfl,
        hturnover.congr (fun _ => rfl) (listSegs_congr rfl rfl) rfl⟩
  | sweep id =>
      have hshape := hinv.shape.startSweep hstep
      simp only [FreeList.step, FreeList.startSweep,
        Option.ite_none_right_eq_some, Option.some.injEq] at hstep
      obtain ⟨-, rfl⟩ := hstep
      have hmoved : Ledger cfg
          (st.setSweep id (.scan 0 st.heap.index.length [])) :=
        hledger.setSweep (by simp [SweepOk])
      exact ⟨hshape, hmoved.congr (fun _ => rfl) rfl (fun _ => Iff.rfl)
        (fun _ _ h => h) rfl, hturnover.congr (fun _ => rfl) rfl rfl⟩
  | sweepStep id keep =>
      obtain ⟨hledger', hturnover'⟩ := hinv.booksSweepStep hstep
      refine ⟨hinv.shape.sweepStep (fun base rest hpc => ?_) hstep, hledger',
        hturnover'⟩
      have hok := hledger.sweeping id
      rw [hpc] at hok
      have hempty := hok base List.mem_cons_self
      obtain ⟨header, hheader, -⟩ := hempty
      exact ⟨(hinv.shape.geometry.placed base header hheader).2.1,
        hledger.drained hinv.shape.geometry (hok base List.mem_cons_self)⟩

end Steps

end TbjitAlloc.FreeList
