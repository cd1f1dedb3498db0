import TbjitAlloc.FreeList.Conservation

/-!
# Frees across a retirement

A refill retires a segment in three steps: it finds the remote queue empty,
stores the count and sets the flag.  A call that read the flag before may push
its chunk after the queue was looked at for the last time.  That chunk is lost:
it stays on a queue nobody harvests, and the count stays positive.  Without such
a push, a retired segment whose chunks have all been freed has count zero.
-/

namespace TbjitAlloc.FreeList

open TbjitAlloc.ByteMemory
open TbjitAlloc.Carving
open TbjitAlloc.Codegen
open TbjitAlloc.LinkedChain
open TbjitAlloc.Segment
open TbjitAlloc.Transition

/-- Every retired segment whose chunks are all freed, by calls that have
returned, is one an eager sweep takes. -/
def Settled (cfg : ListConfig) (st : Machine) : Prop :=
  ∀ base header, st.heap.header base = some header → header.retired = true →
    (∀ ptr, segmentOf cfg.layout ptr = base → ¬ FoundAt cfg st ptr .held ∧
      ∀ tid, ¬ FoundAt cfg st ptr (.freeing tid)) →
    header.liveChunks = 0 ∧ ∀ pred, eligible .eager pred header = true

/-- A push that succeeds on a segment whose queue was looked at for the last
time. -/
def latePush (cfg : ListConfig) (st : Machine) : Action → Bool
  | .freeStep tid false =>
      match st.frees tid with
      | some (.pushSwap ptr cur) =>
          let base := segmentOf cfg.layout ptr
          (st.heap.loadHeader base).any fun header =>
            header.remoteHead = cur &&
              (header.retired || st.alloc = .retireCount base ||
                st.alloc = .retireFlag base)
      | _ => false
  | _ => false

/-- On the way to the owner's list. -/
def FreePc.PastCheck : FreePc → Prop
  | .readOwner _ | .readHead _ | .storeLink _ _ | .storeHead _ => True
  | _ => False

/-- Between the look at the queue and the flag. -/
def AllocPc.Closing (pc : AllocPc) (base : ℕ) : Prop :=
  pc = .retireCount base ∨ pc = .retireFlag base

/-- No chunk is on a list that nobody will look at. -/
structure Clean (cfg : ListConfig) (st : Machine) : Prop where
  listed : ∀ ptr header, st.place ptr = .listed →
    st.heap.header (segmentOf cfg.layout ptr) = some header →
    header.retired = false
  queued : ∀ ptr header, st.place ptr = .queued →
    st.heap.header (segmentOf cfg.layout ptr) = some header →
    header.retired = false ∧ ¬ st.alloc.Closing (segmentOf cfg.layout ptr)
  own : ∀ pc header, st.frees cfg.owner = some pc → pc.PastCheck →
    st.heap.header (segmentOf cfg.layout pc.ptr) = some header →
    header.retired = false

section Steps

variable {cfg : ListConfig} {st st' : Machine}

theorem clean_initial (slotToSite : ℕ → ℕ) :
    Clean cfg (.initial slotToSite) where
  listed := by simp [Machine.initial]
  queued := by simp [Machine.initial]
  own := by simp [Machine.initial]

/-- With no chunk on a list nobody looks at, all chunks are given back. -/
theorem Clean.settled (hinv : Inv cfg st) (hclean : Clean cfg st) :
    Settled cfg st := by
  intro base header hheader hretired hfreed
  have hgiven : ∀ ptr, segmentOf cfg.layout ptr = base →
      st.place ptr = .uncarved ∨ st.place ptr = .returned := by
    rintro ptr rfl
    obtain ⟨hheld, hfreeing⟩ := hfreed ptr rfl
    cases hplace : st.place ptr with
    | uncarved => exact Or.inl rfl
    | held => exact absurd hplace hheld
    | listed =>
        have hactive := hclean.listed ptr header hplace hheader
        simp [hretired] at hactive
    | queued =>
        have hactive := (hclean.queued ptr header hplace hheader).1
        simp [hretired] at hactive
    | freeing tid =>
        exact absurd (hinv.shape.foundAt_iff.mpr ⟨by simp, hplace⟩)
          (hfreeing tid)
    | returned => exact Or.inr rfl
  have hlive := (hinv.conserved.outstanding base header hheader hretired).1
  have hnone : countPlaces cfg st base (· ≠ .returned) = 0 := by
    unfold countPlaces
    rw [List.countP_eq_zero]
    intro ptr hptr
    have hchunk := mem_pieces_iff_isChunk.mp hptr
    have haligned := (hinv.shape.geometry.placed base header hheader).2.1
    have hsegment := hchunk.segmentOf_eq haligned
    have hbuilding : st.alloc.building ≠ some base := by
      intro hbuilding
      obtain ⟨other, hother, hactive⟩ := hinv.turnover.fresh base hbuilding
      obtain rfl := Option.some.inj (hheader.symm.trans hother)
      simp [hretired] at hactive
    have htracked : st.place ptr ≠ .uncarved :=
      (hinv.shape.geometry.carved ptr).mpr
        ⟨⟨header, hsegment ▸ hheader⟩, hsegment ▸ hbuilding, hsegment ▸ hchunk⟩
    simp [(hgiven ptr hsegment).resolve_left htracked]
  have hzero : header.liveChunks = 0 := hlive.trans hnone
  exact ⟨hzero, fun pred => by simp [eligible, hretired, hzero]⟩

/-- Only the flags and the lists matter. -/
theorem Clean.congr (hclean : Clean cfg st)
    (hretired : ∀ base, (st'.heap.header base).map SegmentHeader.retired =
      (st.heap.header base).map SegmentHeader.retired)
    (hlisted : ∀ ptr, st'.place ptr = .listed → st.place ptr = .listed)
    (hqueued : ∀ ptr, st'.place ptr = .queued → st.place ptr = .queued)
    (halloc : ∀ base, st'.alloc.Closing base → st.alloc.Closing base)
    (hown : ∀ pc, st'.frees cfg.owner = some pc → pc.PastCheck →
      ∃ pc', st.frees cfg.owner = some pc' ∧ pc'.PastCheck ∧
        pc'.ptr = pc.ptr) : Clean cfg st' where
  listed := by
    intro ptr header hptr hheader
    obtain ⟨other, hother, hview⟩ := exists_of_map_eq hretired hheader
    exact hview.trans (hclean.listed ptr other (hlisted ptr hptr) hother)
  queued := by
    intro ptr header hptr hheader
    obtain ⟨other, hother, hview⟩ := exists_of_map_eq hretired hheader
    obtain ⟨hactive, hopen⟩ :=
      hclean.queued ptr other (hqueued ptr hptr) hother
    exact ⟨hview.trans hactive, fun hclosing => hopen (halloc _ hclosing)⟩
  own := by
    intro pc header hpc hpast hheader
    obtain ⟨other, hother, hview⟩ := exists_of_map_eq hretired hheader
    obtain ⟨pc', hpc', hpast', hptr⟩ := hown pc hpc hpast
    rw [← hptr] at hother
    exact hview.trans (hclean.own pc' other hpc' hpast' hother)

/-- While the list is empty no chunk is listed. -/
theorem Chains.none_listed (hchains : Chains cfg st)
    (halloc : st.alloc.Refilling) (ptr : ℕ) : st.place ptr ≠ .listed := by
  have hown := hchains.own
  rw [ownerHead_of_refilling halloc,
    (allocOk_of_refilling halloc).mp hchains.serving] at hown
  exact hown.not_member ptr

/-- The refill goes on without touching a list or a flag. -/
theorem Clean.refill (hinv : Inv cfg st) (hclean : Clean cfg st)
    (hbefore : st.alloc.Refilling)
    (hretired : ∀ base, (st'.heap.header base).map SegmentHeader.retired =
      (st.heap.header base).map SegmentHeader.retired)
    (hfrees : st'.frees = st.frees) (hplace : st'.place = st.place)
    (halloc : ∀ base, st'.alloc.Closing base → st.alloc.Closing base) :
    Clean cfg st' := by
  apply hclean.congr hretired (by simp [hplace]) (by simp [hplace]) halloc
  intro pc hpc
  rw [hfrees] at hpc
  have hidle := hinv.shape.chains.solo (by simp [hpc])
  rw [hidle] at hbefore
  exact hbefore.elim

theorem Clean.allocStep (hinv : Inv cfg st) (hclean : Clean cfg st) {base : ℕ}
    (hstep : allocStep cfg st base = some st') : Clean cfg st' := by
  have hgeometry := hinv.shape.geometry
  have hchains := hinv.shape.chains
  cases halloc : st.alloc with
  | idle => simp [FreeList.allocStep, halloc] at hstep
  | serveLink chunk =>
      simp only [FreeList.allocStep, halloc, Option.some.injEq] at hstep
      subst hstep
      exact hclean.congr (fun _ => rfl) (fun _ h => h) (fun _ h => h)
        (by simp [AllocPc.Closing]) fun pc hpc hpast => ⟨pc, hpc, hpast, rfl⟩
  | serveStore chunk link =>
      simp only [FreeList.allocStep, halloc, Option.some.injEq] at hstep
      subst hstep
      exact hclean.congr (by simp) (fun _ h => place_of_update h (by simp))
        (fun _ h => place_of_update h (by simp)) (by simp [AllocPc.Closing])
        fun pc hpc hpast => ⟨pc, hpc, hpast, rfl⟩
  | refill =>
      simp only [FreeList.allocStep, halloc, Option.some.injEq] at hstep
      subst hstep
      split <;>
        exact hclean.refill hinv (by simp [halloc, AllocPc.Refilling])
          (fun _ => rfl) rfl rfl (by simp [AllocPc.Closing])
  | harvest active =>
      simp only [FreeList.allocStep, halloc, Option.map_eq_some_iff] at hstep
      obtain ⟨header, hload, rfl⟩ := hstep
      obtain ⟨before, hbefore, hactive, -⟩ :=
        hinv.turnover.retiring active (by simp [halloc, AllocPc.retiring])
      have hheader := (loadHeader_eq_some.mp hload).2
      obtain rfl := Option.some.inj (hbefore.symm.trans hheader)
      have hretired := map_storeHeader SegmentHeader.retired hload
        (show SegmentHeader.retired { before with remoteHead := 0 } =
          before.retired from rfl)
      have hidle := hchains.frees_owner (by simp [halloc])
      split
      · next hhead =>
          -- The queue of the segment being closed is empty.
          have hempty := hchains.queue active before hheader
          rw [hhead] at hempty
          exact
          { listed := fun ptr _ hptr =>
              absurd hptr (hchains.none_listed
                (by simp [halloc, AllocPc.Refilling]) ptr)
            queued := by
              intro ptr header hptr hheader'
              obtain ⟨other, hother, hview⟩ := exists_of_map_eq hretired hheader'
              refine ⟨hview.trans (hclean.queued ptr other hptr hother).1, ?_⟩
              rintro (hclosing | hclosing)
              · obtain rfl := AllocPc.retireCount.inj hclosing
                exact hempty.not_member ptr ⟨hptr, rfl⟩
              · cases hclosing
            own := fun pc _ hpc => absurd hpc (by simp [hidle]) }
      · exact
        { listed := by
            intro ptr header hptr hheader'
            obtain ⟨other, hother, hview⟩ := exists_of_map_eq hretired hheader'
            dsimp only at hptr
            split at hptr
            · next htaken =>
                rw [htaken.2, hheader] at hother
                exact hview.trans (Option.some.inj hother ▸ hactive)
            · exact hview.trans (hclean.listed ptr other hptr hother)
          queued := by
            intro ptr header hptr hheader'
            obtain ⟨other, hother, hview⟩ := exists_of_map_eq hretired hheader'
            dsimp only at hptr
            split at hptr
            · cases hptr
            · exact ⟨hview.trans (hclean.queued ptr other hptr hother).1,
                by simp [AllocPc.Closing]⟩
          own := fun pc _ hpc => absurd hpc (by simp [hidle]) }
  | retireCount active =>
      simp only [FreeList.allocStep, halloc, Option.map_eq_some_iff] at hstep
      obtain ⟨header, hload, rfl⟩ := hstep
      refine hclean.refill hinv (by simp [halloc, AllocPc.Refilling])
        (map_storeHeader _ hload rfl) rfl rfl fun base hclosing => ?_
      rcases hclosing with h | h
      · cases h
      · obtain rfl := AllocPc.retireFlag.inj h
        exact Or.inl halloc
  | retireFlag active =>
      simp only [FreeList.allocStep, halloc, Option.map_eq_some_iff] at hstep
      obtain ⟨header, hload, rfl⟩ := hstep
      have hidle := hchains.frees_owner (by simp [halloc])
      exact
      { listed := fun ptr _ hptr =>
          absurd hptr (hchains.none_listed
            (by simp [halloc, AllocPc.Refilling]) ptr)
        queued := by
          intro ptr header' hptr hheader'
          refine ⟨?_, by simp [AllocPc.Closing]⟩
          rcases storeHeader_eq_some.mp hheader' with ⟨heq, -⟩ | ⟨-, hother⟩
          · have hheader := (loadHeader_eq_some.mp hload).2
            have hopen := (hclean.queued ptr header hptr (heq ▸ hheader)).2
            exact absurd (Or.inr (heq ▸ halloc)) hopen
          · exact (hclean.queued ptr header' hptr hother).1
        own := fun pc _ hpc => absurd hpc (by simp [hidle]) }
  | map =>
      simp only [FreeList.allocStep, halloc, Option.ite_none_right_eq_some,
        Option.some.injEq] at hstep
      obtain ⟨hfresh, rfl⟩ := hstep
      have hidle := hchains.frees_owner (by simp [halloc])
      exact
      { listed := fun ptr _ hptr =>
          absurd hptr (hchains.none_listed
            (by simp [halloc, AllocPc.Refilling]) ptr)
        queued := by
          intro ptr header hptr hheader
          have hplaced : st.place ptr ≠ .uncarved := by
            simp [show st.place ptr = .queued from hptr]
          have hne := hgeometry.segment_ne hfresh hplaced
          simp only [initSegment, Function.update_of_ne hne] at hheader
          exact ⟨(hclean.queued ptr header hptr hheader).1,
            by simp [AllocPc.Closing]⟩
        own := fun pc _ hpc => absurd hpc (by simp [hidle]) }
  | register base =>
      simp only [FreeList.allocStep, halloc, Option.ite_none_right_eq_some,
        Option.some.injEq] at hstep
      obtain ⟨-, rfl⟩ := hstep
      cases cfg.ref <;>
        exact hclean.refill hinv (by simp [halloc, AllocPc.Refilling])
          (fun _ => rfl) rfl rfl (by simp [AllocPc.Closing])
  | storeClass base =>
      simp only [FreeList.allocStep, halloc, Option.map_eq_some_iff] at hstep
      obtain ⟨header, hload, rfl⟩ := hstep
      exact hclean.refill hinv (by simp [halloc, AllocPc.Refilling])
        (map_storeHeader _ hload rfl) rfl rfl (by simp [AllocPc.Closing])
  | readSegs base =>
      simp only [FreeList.allocStep, halloc, Option.some.injEq] at hstep
      subst hstep
      exact hclean.refill hinv (by simp [halloc, AllocPc.Refilling])
        (fun _ => rfl) rfl rfl (by simp [AllocPc.Closing])
  | storeNext base segs =>
      simp only [FreeList.allocStep, halloc, Option.map_eq_some_iff] at hstep
      obtain ⟨header, hload, rfl⟩ := hstep
      exact hclean.refill hinv (by simp [halloc, AllocPc.Refilling])
        (map_storeHeader _ hload rfl) rfl rfl (by simp [AllocPc.Closing])
  | storeSegs base =>
      simp only [FreeList.allocStep, halloc, Option.some.injEq] at hstep
      subst hstep
      exact hclean.refill hinv (by simp [halloc, AllocPc.Refilling])
        (by simp) rfl rfl (by simp [AllocPc.Closing])
  | carve base =>
      simp only [FreeList.allocStep, halloc, Option.ite_none_left_eq_some,
        Option.some.injEq] at hstep
      obtain ⟨-, rfl⟩ := hstep
      obtain ⟨fresh, hfresh, hactive⟩ :=
        hinv.turnover.fresh base (by simp [halloc, AllocPc.building])
      have haligned := (hgeometry.placed base fresh hfresh).2.1
      have hidle := hchains.frees_owner (by simp [halloc])
      exact
      { listed := by
          intro ptr header hptr hheader
          dsimp only at hptr
          split at hptr
          · next hpiece =>
              have hchunk := mem_pieces_iff_isChunk.mp hpiece
              rw [hchunk.segmentOf_eq haligned] at hheader
              exact Option.some.inj (hfresh.symm.trans hheader) ▸ hactive
          · exact hclean.listed ptr header hptr hheader
        queued := by
          intro ptr header hptr hheader
          dsimp only at hptr
          split at hptr
          · cases hptr
          · exact ⟨(hclean.queued ptr header hptr hheader).1,
              by simp [AllocPc.Closing]⟩
        own := fun pc _ hpc => absurd hpc (by simp [hidle]) }

/-- A call moves a chunk to the list or to a queue only when that one is still
looked at. -/
theorem Clean.freeStep (hinv : Inv cfg st) (hclean : Clean cfg st) {tid : ℕ}
    {spurious : Bool} (htimely : latePush cfg st (.freeStep tid spurious) = false)
    (hstep : freeStep cfg st tid spurious = some st') : Clean cfg st' := by
  obtain ⟨pc, header, hpc, hload, haccess⟩ := freeStep_eq_some.mp hstep
  have hplace := hinv.shape.chains.place_of_free hpc
  have hheader := (loadHeader_eq_some.mp hload).2
  have hlist := hinv.shape.geometry.listOf_eq (by simp [hplace]) hheader
  have hcall := hinv.shape.chains.calls tid pc hpc
  -- The owner's call reaches the list path from a read of the flag.
  have hgoto : ∀ pc' : FreePc, pc'.ptr = pc.ptr →
      (tid = cfg.owner → pc'.PastCheck →
        header.retired = false ∨ pc.PastCheck) →
      Clean cfg (st.goto tid pc') := by
    intro pc' hptr hpast
    refine { hclean with own := ?_ }
    intro other before hother hpast' hbefore
    by_cases heq : cfg.owner = tid
    · subst heq
      obtain rfl : pc' = other := by simpa [Machine.goto] using hother
      rw [hptr] at hbefore
      obtain rfl := Option.some.inj (hheader.symm.trans hbefore)
      exact (hpast rfl hpast').elim id fun h => hclean.own pc header hpc h hheader
    · exact hclean.own other before (by simpa [Machine.goto, heq] using hother)
        hpast' hbefore
  -- A call that returns leaves the other calls as they were.
  have hreturn : ∀ ptr target, ∀ other,
      (st.finish tid ptr target).frees cfg.owner = some other →
      other.PastCheck → ∃ pc', st.frees cfg.owner = some pc' ∧ pc'.PastCheck ∧
        pc'.ptr = other.ptr :=
    fun _ _ other hother hpast => ⟨other, (frees_finish hother).2, hpast, rfl⟩
  cases pc with
  | readRetired ptr =>
      simp only [freeAccess, Option.some.injEq] at haccess
      subst haccess
      split
      · exact hgoto _ rfl (by simp [FreePc.PastCheck])
      · next hactive => exact hgoto _ rfl fun _ _ => Or.inl (by simpa using hactive)
  | fetchSub ptr =>
      simp only [freeAccess, Option.some.injEq] at haccess
      subst haccess
      exact hclean.congr (map_storeHeader _ hload rfl)
        (fun _ h => place_of_update h (by simp))
        (fun _ h => place_of_update h (by simp)) (fun _ h => h)
        (hreturn ptr .returned)
  | readOwner ptr =>
      simp only [freeAccess, Option.some.injEq] at haccess
      subst haccess
      split
      · exact hgoto _ rfl fun _ _ => Or.inr trivial
      · exact hgoto _ rfl (by simp [FreePc.PastCheck])
  | readHead ptr =>
      simp only [freeAccess, hlist, Option.map_some, Option.some.injEq] at haccess
      subst haccess
      exact hgoto _ rfl fun _ _ => Or.inr trivial
  | storeLink ptr head =>
      simp only [freeAccess, Option.some.injEq] at haccess
      subst haccess
      have hnext := hgoto (.storeHead ptr) rfl fun _ _ => Or.inr trivial
      exact hnext.congr (fun _ => rfl) (fun _ h => h) (fun _ h => h)
        (fun _ h => h) fun pc hpc hpast => ⟨pc, hpc, hpast, rfl⟩
  | storeHead ptr =>
      simp only [freeAccess, hlist, Option.map_some, Option.some.injEq] at haccess
      subst haccess
      have howner : tid = cfg.owner := hcall.1
      have hactive : header.retired = false :=
        hclean.own (.storeHead ptr) header (howner ▸ hpc) trivial hheader
      exact
      { listed := by
          intro other before hother hbefore
          simp only [Machine.finish, setListHead_header] at hother hbefore
          rcases update_place.mp hother with ⟨rfl, -⟩ | ⟨-, h⟩
          · obtain rfl := Option.some.inj (hheader.symm.trans hbefore)
            exact hactive
          · exact hclean.listed other before h hbefore
        queued := by
          intro other before hother hbefore
          simp only [Machine.finish, setListHead_header] at hother hbefore
          exact hclean.queued other before (place_of_update hother (by simp))
            hbefore
        own := by
          intro other before hother hpast hbefore
          simp only [Machine.finish, setListHead_header] at hbefore
          exact hclean.own other before (frees_finish hother).2 hpast hbefore }
  | pushLoad ptr =>
      simp only [freeAccess, Option.some.injEq] at haccess
      subst haccess
      exact hgoto _ rfl (by simp [FreePc.PastCheck])
  | pushLink ptr cur =>
      simp only [freeAccess, Option.some.injEq] at haccess
      subst haccess
      have hnext := hgoto (.pushSwap ptr cur) rfl (by simp [FreePc.PastCheck])
      exact hnext.congr (fun _ => rfl) (fun _ h => h) (fun _ h => h)
        (fun _ h => h) fun pc hpc hpast => ⟨pc, hpc, hpast, rfl⟩
  | pushSwap ptr cur =>
      simp only [freeAccess] at haccess
      split at haccess
      · next hswap =>
          obtain rfl := Option.some.inj haccess
          obtain ⟨hcur, rfl⟩ := hswap
          have hopen : header.retired = false ∧
              ¬ st.alloc.Closing (segmentOf cfg.layout ptr) := by
            rw [FreePc.ptr] at hload
            simpa [latePush, hpc, hload, hcur, AllocPc.Closing, and_assoc] using
              htimely
          have hretired := map_storeHeader SegmentHeader.retired hload
            (show SegmentHeader.retired { header with remoteHead := ptr } =
              header.retired from rfl)
          exact
          { listed := by
              intro other before hother hbefore
              obtain ⟨before', hbefore', hview⟩ :=
                exists_of_map_eq hretired hbefore
              exact hview.trans (hclean.listed other before'
                (place_of_update hother (by simp)) hbefore')
            queued := by
              intro other before hother hbefore
              obtain ⟨before', hbefore', hview⟩ :=
                exists_of_map_eq hretired hbefore
              rcases update_place.mp hother with ⟨rfl, -⟩ | ⟨-, h⟩
              · obtain rfl := Option.some.inj (hheader.symm.trans hbefore')
                exact ⟨hview.trans hopen.1, hopen.2⟩
              · obtain ⟨hactive, hclosing⟩ := hclean.queued other before' h hbefore'
                exact ⟨hview.trans hactive, hclosing⟩
            own := by
              intro other before hother hpast hbefore
              obtain ⟨before', hbefore', hview⟩ :=
                exists_of_map_eq hretired hbefore
              have hsame : st.frees cfg.owner = some other :=
                (frees_finish hother).2
              exact hview.trans (hclean.own other before' hsame hpast hbefore') }
      · obtain rfl := Option.some.inj haccess
        exact hgoto _ rfl (by simp [FreePc.PastCheck])

theorem Clean.sweepStep (hclean : Clean cfg st) {id : ℕ} {keep : Bool}
    (hstep : sweepStep cfg st id keep = some st') : Clean cfg st' := by
  -- A sweep changes no flag, and nothing else that matters.
  have hkeep : ∀ target : Machine,
      (∀ base, (target.heap.header base).map SegmentHeader.retired =
        (st.heap.header base).map SegmentHeader.retired) →
      target.alloc = st.alloc → target.frees = st.frees →
      target.place = st.place → Clean cfg target := by
    intro target hretired halloc hfrees hplace
    refine hclean.congr hretired (by simp [hplace]) (by simp [hplace])
      (by simp [halloc]) fun pc hpc hpast => ?_
    rw [hfrees] at hpc
    exact ⟨pc, hpc, hpast, rfl⟩
  cases hpc : st.sweeps id with
  | idle => simp [FreeList.sweepStep, hpc] at hstep
  | scan i count selected =>
      simp only [FreeList.sweepStep, hpc] at hstep
      split at hstep
      · simp only [Option.bind_eq_some_iff, Option.map_eq_some_iff] at hstep
        obtain ⟨base, -, header, -, rfl⟩ := hstep
        exact hkeep _ (fun _ => rfl) rfl rfl rfl
      · obtain rfl := Option.some.inj hstep
        exact hkeep _ (fun _ => rfl) rfl rfl rfl
  | scanLive i count selected base =>
      simp only [FreeList.sweepStep, hpc, Option.map_eq_some_iff] at hstep
      obtain ⟨header, -, rfl⟩ := hstep
      exact hkeep _ (fun _ => rfl) rfl rfl rfl
  | scanGate i count selected base =>
      simp only [FreeList.sweepStep, hpc, Option.map_eq_some_iff] at hstep
      obtain ⟨header, -, rfl⟩ := hstep
      exact hkeep _ (fun _ => rfl) rfl rfl rfl
  | reclaim selected =>
      cases selected with
      | nil =>
          simp only [FreeList.sweepStep, hpc, Option.some.injEq] at hstep
          subst hstep
          exact hkeep _ (fun _ => rfl) rfl rfl rfl
      | cons base rest =>
          simp only [FreeList.sweepStep, hpc] at hstep
          split at hstep
          · split at hstep
            all_goals
              obtain rfl := Option.some.inj hstep
              exact hkeep _ (fun _ => rfl) rfl rfl rfl
          · split at hstep
            · obtain rfl := Option.some.inj hstep
              exact hkeep _ (fun _ => rfl) rfl rfl rfl
            · cases hstep
  | unmap base rest =>
      simp only [FreeList.sweepStep, hpc, Option.some.injEq] at hstep
      subst hstep
      exact hkeep _ (fun _ => rfl) rfl rfl rfl
  | mark base rest =>
      simp only [FreeList.sweepStep, hpc, Option.map_eq_some_iff] at hstep
      obtain ⟨header, hload, rfl⟩ := hstep
      exact hkeep _ (map_storeHeader _ hload rfl) rfl rfl rfl

theorem Clean.step (hinv : Inv cfg st) (hclean : Clean cfg st)
    {action : Action} (htimely : latePush cfg st action = false)
    (hstep : FreeList.step cfg st action = some st') : Clean cfg st' := by
  cases action with
  | alloc =>
      simp only [FreeList.step, FreeList.startAlloc,
        Option.ite_none_right_eq_some, Option.some.injEq] at hstep
      obtain ⟨-, rfl⟩ := hstep
      refine hclean.congr (fun _ => rfl) (fun _ h => h) (fun _ h => h)
        (fun base => ?_) fun pc hpc hpast => ⟨pc, hpc, hpast, rfl⟩
      split <;> simp [AllocPc.Closing]
  | allocStep base => exact hclean.allocStep hinv hstep
  | free tid ptr =>
      simp only [FreeList.step, FreeList.startFree,
        Option.ite_none_right_eq_some, Option.some.injEq] at hstep
      obtain ⟨-, rfl⟩ := hstep
      refine hclean.congr (fun _ => rfl)
        (fun _ h => place_of_update h (by simp))
        (fun _ h => place_of_update h (by simp)) (fun _ h => h)
        fun pc hpc hpast => ?_
      by_cases heq : cfg.owner = tid
      · subst heq
        simp only [Function.update_self, Option.some.injEq] at hpc
        subst hpc
        exact hpast.elim
      · exact ⟨pc, by simpa [heq] using hpc, hpast, rfl⟩
  | freeStep tid spurious => exact hclean.freeStep hinv htimely hstep
  | write ptr offset byte =>
      simp only [FreeList.step, FreeList.clientWrite,
        Option.ite_none_right_eq_some, Option.some.injEq] at hstep
      obtain ⟨-, rfl⟩ := hstep
      exact hclean.congr (fun _ => rfl) (fun _ h => h) (fun _ h => h)
        (fun _ h => h) fun pc hpc hpast => ⟨pc, hpc, hpast, rfl⟩
  | sweep id =>
      simp only [FreeList.step, FreeList.startSweep,
        Option.ite_none_right_eq_some, Option.some.injEq] at hstep
      obtain ⟨-, rfl⟩ := hstep
      exact hclean.congr (fun _ => rfl) (fun _ h => h) (fun _ h => h)
        (fun _ h => h) fun pc hpc hpast => ⟨pc, hpc, hpast, rfl⟩
  | sweepStep id keep => exact hclean.sweepStep hstep

end Steps

/-- Without late pushes no chunk is stranded. -/
theorem clean_reachable (cfg : ListConfig)
    (hsize : cfg.layout.segmentSize ≤ 2 ^ 35) {slotToSite : ℕ → ℕ}
    {st : Machine}
    (hreach : ReachableWhen (step cfg)
      (fun st action => latePush cfg st action = false) (.initial slotToSite) st) :
    Clean cfg st := by
  induction hreach with
  | start => exact clean_initial slotToSite
  | next hbefore htimely hstep ih =>
      exact ih.step (inv_reachable cfg hsize hbefore.reachable) htimely hstep

/-- In a run without late pushes, freeing the last chunk of a retired segment
brings its count to zero. -/
theorem settled_reachable (cfg : ListConfig)
    (hsize : cfg.layout.segmentSize ≤ 2 ^ 35) {slotToSite : ℕ → ℕ}
    {st : Machine}
    (hreach : ReachableWhen (step cfg)
      (fun st action => latePush cfg st action = false) (.initial slotToSite) st) :
    Settled cfg st :=
  (clean_reachable cfg hsize hreach).settled
    (inv_reachable cfg hsize hreach.reachable)

/-! ## One chunk to a segment -/

section OneChunk

/-- Thread 2 reads the flag, the owner retires the segment, thread 2 pushes. -/
def lateRun : List Action :=
  [.alloc, .allocStep 0] ++ allocFresh 4096 ++
    [.free 2 4160, .freeStep 2 false, .freeStep 2 false, .freeStep 2 false,
      .freeStep 2 false, .alloc, .allocStep 0, .allocStep 0, .allocStep 0,
      .allocStep 0, .freeStep 2 false]

/-- The one chunk has been freed and the call has returned, and the count stays
one. -/
theorem not_settled_lateRun :
    ∃ st, Reachable (step oneChunkList) (.initial fun _ => 0) st ∧
      ¬ Settled oneChunkList st := by
  have hany : (run (step oneChunkList) (.initial fun _ => 0) lateRun).any
      (fun st => decide ((st.heap.header 4096).map countsOf = some (true, 1) ∧
        st.place 4160 = .queued)) = true := by
    decide +kernel
  obtain ⟨st, hrun, hfacts⟩ := (Option.any_eq_true _ _).mp hany
  obtain ⟨hcounts, hqueued⟩ := of_decide_eq_true hfacts
  have hreach := reachable_of_run .start hrun
  refine ⟨st, hreach, fun hsettled => ?_⟩
  obtain ⟨header, hheader, hview⟩ := Option.map_eq_some_iff.mp hcounts
  simp only [countsOf, Prod.mk.injEq] at hview
  have hshape := (inv_reachable oneChunkList (by decide) hreach).shape
  -- The segment has no other chunk.
  have honly : ∀ ptr, segmentOf oneChunkList.layout ptr = 4096 →
      st.place ptr ≠ .uncarved → ptr = 4160 := by
    intro ptr hsegment htracked
    obtain ⟨number, hnumber, hptr⟩ := hshape.geometry.isChunk htracked
    have hone : chunkCount oneChunkList.layout oneChunkList.size = 1 := by decide
    obtain rfl : number = 0 := by omega
    rw [hptr, hsegment]
    rfl
  have hzero := (hsettled 4096 header hheader hview.1 fun ptr hptr => ?_).1
  · omega
  · constructor
    · intro hheld
      have hplace := (hshape.foundAt_iff.mp hheld).2
      rw [honly ptr hptr (by simp [hplace]), hqueued] at hplace
      cases hplace
    · intro tid hfreeing
      have hplace := (hshape.foundAt_iff.mp hfreeing).2
      rw [honly ptr hptr (by simp [hplace]), hqueued] at hplace
      cases hplace

/-- The owner retires the segment, then thread 2 frees its chunk. -/
def timelyRun : List Action :=
  [.alloc, .allocStep 0] ++ allocFresh 4096 ++
    [.alloc, .allocStep 0, .allocStep 0, .allocStep 0, .allocStep 0] ++
    allocFresh 8192 ++ [.free 2 4160, .freeStep 2 false, .freeStep 2 false]

theorem settled_timelyRun :
    ∃ st, (st.heap.header 4096).map countsOf = some (true, 0) ∧
      Settled oneChunkList st := by
  have hany : (run (fun st action =>
      if !latePush oneChunkList st action then step oneChunkList st action
      else none) (.initial fun _ => 0) timelyRun).any
      (fun st => decide ((st.heap.header 4096).map countsOf =
        some (true, 0))) = true := by
    decide +kernel
  obtain ⟨st, hrun, hfacts⟩ := (Option.any_eq_true _ _).mp hany
  refine ⟨st, of_decide_eq_true hfacts, ?_⟩
  exact settled_reachable oneChunkList (by decide)
    (reachableWhen_of_run (fun _ _ h => by simpa using h) .start hrun)

end OneChunk

end TbjitAlloc.FreeList
