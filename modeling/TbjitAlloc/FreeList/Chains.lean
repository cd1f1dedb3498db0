import TbjitAlloc.FreeList.Geometry

/-!
# The lists stay linked

The owner's list and every remote queue are chains in memory that visit exactly
the chunks whose place says so, and a chunk is in the hands of a call exactly
when that call is in progress.  While a refill holds a chain that it has not
stored yet, that chain is the owner's list.
-/

namespace TbjitAlloc.FreeList

open TbjitAlloc.ByteMemory
open TbjitAlloc.Carving
open TbjitAlloc.Codegen
open TbjitAlloc.LinkedChain
open TbjitAlloc.Segment

/-- Where the owner's list starts: in the list word, or in the hands of the
allocation that is about to overwrite that word. -/
def ownerHead (cfg : ListConfig) (st : Machine) : ℕ :=
  match st.alloc with
  | .serveLink chunk | .serveStore chunk _ => chunk
  | _ => listHead st.heap cfg.owner cfg.ref

/-- From the empty list on until a new one is linked. -/
def AllocPc.Refilling : AllocPc → Prop
  | .idle | .serveLink _ | .serveStore _ _ => False
  | _ => True

/-- What the owner's allocation has read so far is still so. -/
def AllocOk (cfg : ListConfig) (st : Machine) : Prop :=
  match st.alloc with
  | .idle => True
  | .serveLink chunk => chunk ≠ 0
  | .serveStore chunk link =>
      chunk ≠ 0 ∧ link = readWord st.heap.memory chunk
  | _ => listHead st.heap cfg.owner cfg.ref = 0

/-- What a call of `free_managed` needs to remember. -/
def FreeOk (cfg : ListConfig) (st : Machine) (tid : ℕ) : FreePc → Prop
  | .readHead _ => tid = cfg.owner
  | .storeLink _ head =>
      tid = cfg.owner ∧ head = listHead st.heap cfg.owner cfg.ref
  | .storeHead ptr =>
      tid = cfg.owner ∧
        readWord st.heap.memory ptr = listHead st.heap cfg.owner cfg.ref
  | .pushLink _ cur => cur < 2 ^ 64
  | .pushSwap ptr cur => readWord st.heap.memory ptr = cur
  | _ => True

structure Chains (cfg : ListConfig) (st : Machine) : Prop where
  own : Lists 0 (readWord st.heap.memory) (ownerHead cfg st)
    fun ptr => st.place ptr = .listed
  queue : ∀ base header, st.heap.header base = some header →
    Lists 0 (readWord st.heap.memory) header.remoteHead
      fun ptr => st.place ptr = .queued ∧ segmentOf cfg.layout ptr = base
  freeing : ∀ tid ptr, st.place ptr = .freeing tid ↔
    ∃ pc, st.frees tid = some pc ∧ pc.ptr = ptr
  calls : ∀ tid pc, st.frees tid = some pc → FreeOk cfg st tid pc
  solo : st.frees cfg.owner ≠ none → st.alloc = .idle
  serving : AllocOk cfg st

section Facts

variable {cfg : ListConfig} {st st' : Machine}

theorem chains_initial (slotToSite : ℕ → ℕ) :
    Chains cfg (.initial slotToSite) where
  own := by
    have hhead : ownerHead cfg (.initial slotToSite) = 0 := by
      cases href : cfg.ref <;>
        simp [ownerHead, Machine.initial, Heap.empty, listHead, href]
    rw [hhead]
    exact lists_null fun ptr => by simp [Machine.initial]
  queue := by simp [Machine.initial, Heap.empty]
  freeing := by simp [Machine.initial]
  calls := by simp [Machine.initial]
  solo := by simp [Machine.initial]
  serving := trivial

theorem ownerHead_of_refilling (halloc : st.alloc.Refilling) :
    ownerHead cfg st = listHead st.heap cfg.owner cfg.ref := by
  cases hpc : st.alloc <;> simp_all [AllocPc.Refilling, ownerHead]

theorem allocOk_of_refilling (halloc : st.alloc.Refilling) :
    AllocOk cfg st ↔ listHead st.heap cfg.owner cfg.ref = 0 := by
  cases hpc : st.alloc <;> simp_all [AllocPc.Refilling, AllocOk]

/-- The chunk about to be served is on the list. -/
theorem Chains.serveLink_listed (hinv : Chains cfg st) {chunk : ℕ}
    (halloc : st.alloc = .serveLink chunk) :
    chunk ≠ 0 ∧ st.place chunk = .listed := by
  have hown := hinv.own
  have hserving := hinv.serving
  simp only [ownerHead, AllocOk, halloc] at hown hserving
  exact ⟨hserving, hown.head_member hserving⟩

theorem Chains.serveStore_listed (hinv : Chains cfg st) {chunk link : ℕ}
    (halloc : st.alloc = .serveStore chunk link) :
    chunk ≠ 0 ∧ link = readWord st.heap.memory chunk ∧
      st.place chunk = .listed := by
  have hown := hinv.own
  have hserving := hinv.serving
  simp only [ownerHead, AllocOk, halloc] at hown hserving
  exact ⟨hserving.1, hserving.2, hown.head_member hserving.1⟩

theorem Chains.place_of_free (hinv : Chains cfg st) {tid : ℕ} {pc : FreePc}
    (hpc : st.frees tid = some pc) : st.place pc.ptr = .freeing tid :=
  (hinv.freeing tid pc.ptr).mpr ⟨pc, hpc, rfl⟩

/-- No call is in progress on the owner's thread while it allocates. -/
theorem Chains.frees_owner (hinv : Chains cfg st)
    (halloc : st.alloc ≠ .idle) : st.frees cfg.owner = none := by
  by_contra hbusy
  exact halloc (hinv.solo hbusy)

theorem Chains.ownerHead_lt (hgeometry : Geometry cfg st)
    (hinv : Chains cfg st) : ownerHead cfg st < 2 ^ 64 := by
  by_cases hnull : ownerHead cfg st = 0
  · rw [hnull]
    norm_num
  · apply hgeometry.ptr_lt
    simp [hinv.own.head_member hnull]

theorem Chains.remoteHead_lt (hgeometry : Geometry cfg st)
    (hinv : Chains cfg st) {base : ℕ} {header : SegmentHeader}
    (hheader : st.heap.header base = some header) :
    header.remoteHead < 2 ^ 64 := by
  by_cases hnull : header.remoteHead = 0
  · rw [hnull]
    norm_num
  · apply hgeometry.ptr_lt
    have hqueue := hinv.queue base header hheader
    simp [(hqueue.head_member hnull).1]

theorem AllocOk.congr (hok : AllocOk cfg st) (halloc : st'.alloc = st.alloc)
    (hhead : listHead st'.heap cfg.owner cfg.ref =
      listHead st.heap cfg.owner cfg.ref)
    (hlink : ∀ chunk link, st.alloc = .serveStore chunk link →
      readWord st'.heap.memory chunk = readWord st.heap.memory chunk) :
    AllocOk cfg st' := by
  unfold AllocOk at hok ⊢
  rw [halloc]
  cases hpc : st.alloc with
  | serveStore chunk link =>
      rw [hpc] at hok
      exact ⟨hok.1, hok.2.trans (hlink chunk link hpc).symm⟩
  | idle => trivial
  | serveLink chunk => simpa only [hpc] using hok
  | _ =>
      rw [hpc] at hok
      exact hhead.trans hok

/-- A call of another thread remembers nothing about the owner's list word. -/
theorem FreeOk.congr {tid : ℕ} {pc : FreePc} (hok : FreeOk cfg st tid pc)
    (hhead : tid = cfg.owner → listHead st'.heap cfg.owner cfg.ref =
      listHead st.heap cfg.owner cfg.ref)
    (hlink : readWord st'.heap.memory pc.ptr =
      readWord st.heap.memory pc.ptr) : FreeOk cfg st' tid pc := by
  cases pc with
  | storeLink ptr head => exact ⟨hok.1, hok.2.trans (hhead hok.1).symm⟩
  | storeHead ptr => exact ⟨hok.1, hlink.trans (hok.2.trans (hhead hok.1).symm)⟩
  | pushSwap ptr cur => exact hlink.trans hok
  | _ => exact hok

/-- Queues are kept when their heads, their chunks and the links of these are. -/
theorem Chains.queue_congr (hinv : Chains cfg st)
    (hremote : ∀ base, (st'.heap.header base).map SegmentHeader.remoteHead =
      (st.heap.header base).map SegmentHeader.remoteHead)
    (hplace : ∀ ptr, st'.place ptr = .queued ↔ st.place ptr = .queued)
    (hlink : ∀ ptr, st.place ptr = .queued →
      readWord st'.heap.memory ptr = readWord st.heap.memory ptr) :
    ∀ base header, st'.heap.header base = some header →
      Lists 0 (readWord st'.heap.memory) header.remoteHead
        fun ptr => st'.place ptr = .queued ∧
          segmentOf cfg.layout ptr = base := by
  intro base header hheader
  obtain ⟨other, hother, hview⟩ := exists_of_map_eq hremote hheader
  rw [hview]
  exact (hinv.queue base other hother).congr
    (fun ptr => and_congr_left' (hplace ptr))
    fun ptr hptr => hlink ptr hptr.1

/-! ## Changes that the steps are made of -/

/-- The owner's allocation goes on, with the same list. -/
theorem Chains.setAlloc (hinv : Chains cfg st) {pc : AllocPc}
    (hidle : st.frees cfg.owner = none)
    (hhead : ownerHead cfg { st with alloc := pc } = ownerHead cfg st)
    (hok : AllocOk cfg { st with alloc := pc }) :
    Chains cfg { st with alloc := pc } where
  own := hhead ▸ hinv.own
  queue := hinv.queue
  freeing := hinv.freeing
  calls := fun tid pc hpc =>
    (hinv.calls tid pc hpc).congr (fun _ => rfl) rfl
  solo := fun hbusy => absurd hidle hbusy
  serving := hok

/-- A call goes on, with the same chunk. -/
theorem Chains.goto (hinv : Chains cfg st) {tid : ℕ} {pc pc' : FreePc}
    (hpc : st.frees tid = some pc) (hptr : pc'.ptr = pc.ptr)
    (hok : FreeOk cfg st tid pc') : Chains cfg (st.goto tid pc') where
  own := hinv.own
  queue := hinv.queue
  freeing := by
    intro other ptr
    rw [show (st.goto tid pc').place = st.place from rfl, hinv.freeing]
    by_cases heq : other = tid
    · subst heq
      simp [Machine.goto, hpc, hptr]
    · simp [Machine.goto, heq]
  calls := by
    intro other pc'' hother
    by_cases heq : other = tid
    · subst heq
      obtain rfl : pc' = pc'' := by simpa [Machine.goto] using hother
      exact hok.congr (fun _ => rfl) rfl
    · have hother' : st.frees other = some pc'' := by
        simpa [Machine.goto, heq] using hother
      exact (hinv.calls other pc'' hother').congr (fun _ => rfl) rfl
  solo := by
    intro hbusy
    apply hinv.solo
    by_cases heq : cfg.owner = tid
    · simp [heq, hpc]
    · simpa [Machine.goto, heq] using hbusy
  serving := hinv.serving

/-- The memory changes without touching a link anyone relies on. -/
theorem Chains.setMemory (hinv : Chains cfg st) {memory : Memory}
    (hlink : ∀ ptr, st.place ptr = .listed ∨ st.place ptr = .queued →
      readWord memory ptr = readWord st.heap.memory ptr)
    (hcalls : ∀ tid pc, st.frees tid = some pc →
      FreeOk cfg { st with heap := { st.heap with memory := memory } } tid
        pc) :
    Chains cfg { st with heap := { st.heap with memory := memory } } where
  own := hinv.own.congr (fun _ => Iff.rfl) fun ptr hptr =>
    hlink ptr (Or.inl hptr)
  queue := hinv.queue_congr (fun _ => rfl) (fun _ => Iff.rfl)
    fun ptr hptr => hlink ptr (Or.inr hptr)
  freeing := hinv.freeing
  calls := hcalls
  solo := hinv.solo
  serving := hinv.serving.congr rfl (listHead_setMemory _ _ _ _)
    fun chunk _ halloc =>
      hlink chunk (Or.inl (hinv.serveStore_listed halloc).2.2)

/-- The memory changes where no chunk of the list is tracked. -/
theorem Chains.setUntracked (hinv : Chains cfg st) {memory : Memory}
    (hlink : ∀ ptr, st.place ptr ≠ .uncarved → st.place ptr ≠ .returned →
      readWord memory ptr = readWord st.heap.memory ptr) :
    Chains cfg { st with heap := { st.heap with memory := memory } } := by
  apply hinv.setMemory
  · rintro ptr (hptr | hptr) <;> exact hlink ptr (by simp [hptr]) (by simp [hptr])
  · intro tid pc hpc
    have hptr := hinv.place_of_free hpc
    exact (hinv.calls tid pc hpc).congr (fun _ => listHead_setMemory _ _ _ _)
      (hlink pc.ptr (by simp [hptr]) (by simp [hptr]))

/-- The memory changes inside one chunk that is on no list, and the call that
has the chunk, if any, does not mind. -/
theorem Chains.setChunk (hgeometry : Geometry cfg st) (hinv : Chains cfg st)
    {memory : Memory} (ptr : ℕ) (htracked : st.place ptr ≠ .uncarved)
    (hlisted : st.place ptr ≠ .listed) (hqueued : st.place ptr ≠ .queued)
    (hcall : ∀ tid pc, st.frees tid = some pc → pc.ptr = ptr →
      FreeOk cfg { st with heap := { st.heap with memory := memory } } tid pc)
    (hmemory : ∀ address, address < ptr ∨ ptr + cfg.size ≤ address →
      memory address = st.heap.memory address) :
    Chains cfg { st with heap := { st.heap with memory := memory } } := by
  apply hinv.setMemory
  · intro node hnode
    apply hgeometry.readWord_eq htracked
    · rcases hnode with h | h <;> simp [h]
    · rintro rfl
      exact hnode.elim hlisted hqueued
    · exact hmemory
  · intro tid pc hpc
    by_cases heq : pc.ptr = ptr
    · exact hcall tid pc hpc heq
    · have hptr := hinv.place_of_free hpc
      have hlink := hgeometry.readWord_eq htracked (by simp [hptr]) heq hmemory
      exact (hinv.calls tid pc hpc).congr (fun _ => listHead_setMemory _ _ _ _)
        hlink

/-- A header store that leaves the remote queue alone. -/
theorem Chains.setHeader (hinv : Chains cfg st) {base : ℕ}
    {before after : SegmentHeader}
    (hload : st.heap.loadHeader base = some before)
    (hremote : after.remoteHead = before.remoteHead) :
    Chains cfg { st with heap := st.heap.storeHeader base after } where
  own := hinv.own
  queue := hinv.queue_congr (map_storeHeader _ hload hremote)
    (fun _ => Iff.rfl) fun _ _ => rfl
  freeing := hinv.freeing
  calls := fun tid pc hpc =>
    (hinv.calls tid pc hpc).congr (fun _ => listHead_congr rfl rfl) rfl
  solo := hinv.solo
  serving := hinv.serving.congr rfl (listHead_congr rfl rfl) fun _ _ _ => rfl

/-- The refill goes on, and no list changes. -/
theorem Chains.refill (hinv : Chains cfg st) (hbefore : st.alloc.Refilling)
    (hafter : st'.alloc.Refilling)
    (hmemory : st'.heap.memory = st.heap.memory)
    (hremote : ∀ base, (st'.heap.header base).map SegmentHeader.remoteHead =
      (st.heap.header base).map SegmentHeader.remoteHead)
    (hhead : listHead st'.heap cfg.owner cfg.ref =
      listHead st.heap cfg.owner cfg.ref)
    (hfrees : st'.frees = st.frees) (hplace : st'.place = st.place) :
    Chains cfg st' where
  own := by
    rw [ownerHead_of_refilling hafter, hhead, hmemory, hplace,
      ← ownerHead_of_refilling hbefore]
    exact hinv.own
  queue := hinv.queue_congr hremote (fun ptr => by rw [hplace])
    fun ptr _ => by rw [hmemory]
  freeing := by
    rw [hfrees, hplace]
    exact hinv.freeing
  calls := by
    intro tid pc hpc
    rw [hfrees] at hpc
    exact (hinv.calls tid pc hpc).congr (fun _ => hhead) (by rw [hmemory])
  solo := by
    intro hbusy
    rw [hfrees] at hbusy
    rw [hinv.solo hbusy] at hbefore
    exact hbefore.elim
  serving := by
    rw [allocOk_of_refilling hafter, hhead]
    exact (allocOk_of_refilling hbefore).mp hinv.serving

/-- Parts of the state that no list is kept in. -/
theorem Chains.congr (hinv : Chains cfg st)
    (hmemory : st'.heap.memory = st.heap.memory)
    (hheader : st'.heap.header = st.heap.header)
    (hhead : listHead st'.heap cfg.owner cfg.ref =
      listHead st.heap cfg.owner cfg.ref)
    (halloc : st'.alloc = st.alloc) (hfrees : st'.frees = st.frees)
    (hplace : st'.place = st.place) : Chains cfg st' where
  own := by
    have heq : ownerHead cfg st' = ownerHead cfg st := by
      simp only [ownerHead, halloc, hhead]
    rw [heq, hmemory, hplace]
    exact hinv.own
  queue := by
    rw [hmemory, hplace, hheader]
    exact hinv.queue
  freeing := by
    rw [hfrees, hplace]
    exact hinv.freeing
  calls := by
    intro tid pc hpc
    rw [hfrees] at hpc
    exact (hinv.calls tid pc hpc).congr (fun _ => hhead) (by rw [hmemory])
  solo := by
    rw [hfrees, halloc]
    exact hinv.solo
  serving := hinv.serving.congr halloc hhead fun _ _ _ => by rw [hmemory]

/-! ## Chunks change their places -/

theorem update_place {place : ℕ → Place} {ptr other : ℕ} {target q : Place} :
    Function.update place ptr target other = q ↔
      other = ptr ∧ target = q ∨ other ≠ ptr ∧ place other = q := by
  by_cases heq : other = ptr <;> simp [heq]

/-- No chunk reaches another place than the one stored. -/
theorem place_of_update {place : ℕ → Place} {ptr other : ℕ} {target q : Place}
    (hupdate : Function.update place ptr target other = q)
    (htarget : target ≠ q) : place other = q := by
  rcases update_place.mp hupdate with ⟨-, heq⟩ | ⟨-, heq⟩
  · exact absurd heq htarget
  · exact heq

/-- Nothing changes for a place the chunk neither leaves nor reaches. -/
theorem update_place_other {place : ℕ → Place} {ptr : ℕ} {target q : Place}
    (hbefore : place ptr ≠ q) (hafter : target ≠ q) (other : ℕ) :
    Function.update place ptr target other = q ↔ place other = q := by
  rw [update_place]
  by_cases heq : other = ptr
  · subst heq
    simp [hbefore, hafter]
  · simp [heq]

/-- The store that hands out the first chunk of the list. -/
theorem Chains.serve (hinv : Chains cfg st) {chunk link : ℕ}
    (halloc : st.alloc = .serveStore chunk link) :
    Chains cfg { st with
      heap := setListHead st.heap cfg.owner cfg.ref link
      alloc := .idle
      place := Function.update st.place chunk .held } := by
  obtain ⟨hne, hread, hlisted⟩ := hinv.serveStore_listed halloc
  have hown := hinv.own
  simp only [ownerHead, halloc] at hown
  have hidle := hinv.frees_owner (by simp [halloc])
  exact
  { own := by
      simp only [ownerHead, listHead_setListHead, and_self, if_true,
        setListHead_memory, hread]
      refine hown.pop hne fun other => ?_
      rw [update_place]
      simp [and_comm]
    queue := hinv.queue_congr (by simp)
      (update_place_other (by simp [hlisted]) (by simp)) (by simp)
    freeing := by
      intro tid ptr
      rw [← hinv.freeing]
      exact update_place_other (by simp [hlisted]) (by simp) ptr
    calls := by
      intro tid pc hpc
      refine (hinv.calls tid pc hpc).congr (fun heq => ?_) (by simp)
      rw [heq] at hpc
      exact absurd hpc (by simp [hidle])
    solo := fun _ => rfl
    serving := trivial }

/-- The exchange that takes the remote queue over as the list. -/
theorem Chains.takeQueue (hinv : Chains cfg st) {active : ℕ}
    {header : SegmentHeader} (halloc : st.alloc = .harvest active)
    (hload : st.heap.loadHeader active = some header)
    (hhead : header.remoteHead ≠ 0) :
    Chains cfg { st with
      heap := st.heap.storeHeader active { header with remoteHead := 0 }
      alloc := .serveLink header.remoteHead
      place := fun ptr =>
        if st.place ptr = .queued ∧ segmentOf cfg.layout ptr = active then
          .listed
        else st.place ptr } := by
  have hown := hinv.own
  have hserving := hinv.serving
  simp only [ownerHead, AllocOk, halloc] at hown hserving
  rw [hserving] at hown
  have hidle := hinv.frees_owner (by simp [halloc])
  have hqueue := hinv.queue active header (loadHeader_eq_some.mp hload).2
  exact
  { own := by
      refine hqueue.congr (fun ptr => ?_) fun _ _ => rfl
      have hnone := hown.not_member ptr
      dsimp only
      split
      · simp_all
      · simp_all
    queue := by
      intro base other hother
      rcases storeHeader_eq_some.mp hother with ⟨rfl, rfl⟩ | ⟨hne, hother⟩
      · apply lists_null
        intro ptr hptr
        dsimp only at hptr
        split at hptr
        · simp at hptr
        · simp_all
      · refine (hinv.queue base other hother).congr (fun ptr => ?_) fun _ _ => rfl
        dsimp only
        split
        · next htaken =>
            constructor
            · exact fun hptr => absurd hptr.1 (by simp)
            · exact fun hptr => absurd (hptr.2.symm.trans htaken.2) hne
        · exact Iff.rfl
    freeing := by
      intro tid ptr
      rw [← hinv.freeing]
      dsimp only
      split
      · next htaken => simp [htaken.1]
      · exact Iff.rfl
    calls := fun tid pc hpc =>
      (hinv.calls tid pc hpc).congr (fun _ => listHead_congr rfl rfl) rfl
    solo := fun hbusy => absurd hidle hbusy
    serving := hhead }

/-- A fresh segment is mapped: no chunk lies in it. -/
theorem Chains.map (hgeometry : Geometry cfg st) (hinv : Chains cfg st)
    {base : ℕ} (halloc : st.alloc = .map)
    (hfresh : Fresh cfg.layout st.heap base) :
    Chains cfg { st with
      heap := initSegment cfg.layout st.heap cfg.owner cfg.ref.strategy
        cfg.ref.slot (st.heap.slotToSite cfg.ref.slot) cfg.size base
      alloc := .register base } := by
  have hlink : ∀ ptr, st.place ptr ≠ .uncarved →
      readWord (fill st.heap.memory base (segmentEnd cfg.layout base) 0) ptr =
        readWord st.heap.memory ptr := by
    intro ptr hptr
    exact (hgeometry.isChunk hptr).readWord_congr cfg.size_ge hfresh.2.1
      (hgeometry.segment_ne hfresh hptr) fun address houtside =>
        fill_outside _ houtside
  have hidle := hinv.frees_owner (by simp [halloc])
  have hown := hinv.own
  have hserving := hinv.serving
  simp only [ownerHead, AllocOk, halloc] at hown hserving
  exact
  { own := hown.congr (fun _ => Iff.rfl) fun ptr hptr => hlink ptr (by simp [hptr])
    queue := by
      intro other header hheader
      by_cases heq : other = base
      · subst heq
        simp only [initSegment, Function.update_self, Option.some.injEq] at hheader
        subst hheader
        apply lists_null
        rintro ptr ⟨hptr, hsegment⟩
        have htracked : st.place ptr ≠ .uncarved := hptr.symm ▸ (by simp)
        exact hgeometry.segment_ne hfresh htracked hsegment
      · simp only [initSegment, Function.update_of_ne heq] at hheader
        exact (hinv.queue other header hheader).congr (fun _ => Iff.rfl)
          fun ptr hptr => hlink ptr (by simp [hptr.1])
    freeing := hinv.freeing
    calls := by
      intro tid pc hpc
      have hptr := hinv.place_of_free hpc
      exact (hinv.calls tid pc hpc).congr (fun _ => listHead_congr rfl rfl)
        (hlink pc.ptr (by simp [hptr]))
    solo := fun hbusy => absurd hidle hbusy
    serving := (listHead_congr rfl rfl).trans hserving }

/-- The payload of a fresh segment becomes the list. -/
theorem Chains.carve (hgeometry : Geometry cfg st) (hinv : Chains cfg st)
    {base head : ℕ} {memory : Memory} (halloc : st.alloc = .carve base)
    (hhead : head ≠ 0)
    (hchain : Chain 0 (readWord memory) head
      (pieces (payloadStart base) cfg.size
        (chunkCount cfg.layout cfg.size)).reverse)
    (hmemory : ∀ address,
      address < payloadStart base ∨ segmentEnd cfg.layout base ≤ address →
        memory address = st.heap.memory address) :
    Chains cfg { st with
      heap := { st.heap with memory := memory }
      alloc := .serveLink head
      place := fun ptr =>
        if ptr ∈ pieces (payloadStart base) cfg.size
            (chunkCount cfg.layout cfg.size) then
          .listed
        else st.place ptr } := by
  obtain ⟨header, hheader⟩ := hgeometry.built base (by simp [halloc, AllocPc.building])
  have haligned := (hgeometry.placed base header hheader).2.1
  have hlink : ∀ ptr, st.place ptr ≠ .uncarved →
      readWord memory ptr = readWord st.heap.memory ptr := by
    intro ptr hptr
    have hne : segmentOf cfg.layout ptr ≠ base := fun heq => by
      have hbuilding := ((hgeometry.carved ptr).mp hptr).2.1
      simp [halloc, AllocPc.building, heq] at hbuilding
    refine (hgeometry.isChunk hptr).readWord_congr cfg.size_ge haligned hne
      fun address houtside => hmemory address ?_
    unfold payloadStart
    omega
  -- Until now no chunk of the segment had a place.
  have huncarved : ∀ ptr ∈ pieces (payloadStart base) cfg.size
      (chunkCount cfg.layout cfg.size), st.place ptr = .uncarved := by
    intro ptr hptr
    by_contra hplace
    obtain ⟨number, hnumber, rfl⟩ := mem_pieces.mp hptr
    have hchunk : IsChunk cfg.layout base cfg.size
        (piece (payloadStart base) cfg.size number) := ⟨number, hnumber, rfl⟩
    have hbuilding := ((hgeometry.carved _).mp hplace).2.1
    rw [hchunk.segmentOf_eq haligned] at hbuilding
    simp [halloc, AllocPc.building] at hbuilding
  have hidle := hinv.frees_owner (by simp [halloc])
  have hown := hinv.own
  have hserving := hinv.serving
  simp only [ownerHead, AllocOk, halloc] at hown hserving
  rw [hserving] at hown
  -- A place other than the list is unaffected.
  have hother : ∀ ptr (q : Place), q ≠ .listed → q ≠ .uncarved →
      ((if ptr ∈ pieces (payloadStart base) cfg.size
          (chunkCount cfg.layout cfg.size) then Place.listed
        else st.place ptr) = q ↔ st.place ptr = q) := by
    intro ptr q hlisted hq
    split
    · next hptr => simp [huncarved ptr hptr, hlisted.symm, hq.symm]
    · exact Iff.rfl
  exact
  { own := by
      refine ⟨_, hchain, fun ptr => ?_⟩
      have hnone := hown.not_member ptr
      rw [List.mem_reverse]
      dsimp only
      split
      · simp_all
      · simp_all
    queue := hinv.queue_congr (fun _ => rfl)
      (fun ptr => hother ptr _ (by simp) (by simp))
      fun ptr hptr => hlink ptr (by simp [hptr])
    freeing := by
      intro tid ptr
      rw [← hinv.freeing]
      exact hother ptr _ (by simp) (by simp)
    calls := by
      intro tid pc hpc
      have hptr := hinv.place_of_free hpc
      exact (hinv.calls tid pc hpc).congr (fun _ => listHead_congr rfl rfl)
        (hlink pc.ptr (by simp [hptr]))
    solo := fun hbusy => absurd hidle hbusy
    serving := hhead }

/-- A call begins. -/
theorem Chains.startFree (hinv : Chains cfg st) {tid ptr : ℕ}
    (hheld : st.place ptr = .held) (hfree : st.frees tid = none)
    (howner : tid = cfg.owner → st.alloc = .idle) :
    Chains cfg { st with
      frees := Function.update st.frees tid (some (.readRetired ptr))
      place := Function.update st.place ptr (.freeing tid) } where
  own := hinv.own.congr
    (update_place_other (by simp [hheld]) (by simp)) fun _ _ => rfl
  queue := hinv.queue_congr (fun _ => rfl)
    (update_place_other (by simp [hheld]) (by simp)) fun _ _ => rfl
  freeing := by
    intro tid' other
    rw [update_place, hinv.freeing]
    by_cases htid : tid' = tid
    · subst htid
      by_cases hptr : other = ptr
      · simp [hptr, FreePc.ptr]
      · simp [hptr, hfree, FreePc.ptr, Ne.symm hptr]
    · have hne : ¬ tid = tid' := fun heq => htid heq.symm
      simp only [Place.freeing.injEq, hne, and_false, false_or,
        Function.update_of_ne htid, and_iff_right_iff_imp]
      rintro ⟨pc, hpc, rfl⟩ rfl
      simp [hinv.place_of_free hpc] at hheld
  calls := by
    intro tid' pc hpc
    by_cases htid : tid' = tid
    · subst htid
      simp only [Function.update_self, Option.some.injEq] at hpc
      subst hpc
      trivial
    · simp only [Function.update_of_ne htid] at hpc
      exact (hinv.calls tid' pc hpc).congr (fun _ => rfl) rfl
  solo := by
    intro hbusy
    by_cases htid : cfg.owner = tid
    · exact howner htid.symm
    · exact hinv.solo (by simpa [htid] using hbusy)
  serving := hinv.serving.congr rfl rfl fun _ _ _ => rfl

section Finish

variable {tid : ℕ} {pc : FreePc}

/-- The call that had a chunk returns. -/
theorem Chains.freeing_finish (hinv : Chains cfg st)
    (hpc : st.frees tid = some pc) {target : Place}
    (htarget : ∀ other, target ≠ .freeing other) (tid' ptr : ℕ) :
    (st.finish tid pc.ptr target).place ptr = .freeing tid' ↔
      ∃ pc', (st.finish tid pc.ptr target).frees tid' = some pc' ∧
        pc'.ptr = ptr := by
  have hplace := hinv.place_of_free hpc
  simp only [Machine.finish]
  rw [update_place, hinv.freeing]
  by_cases htid : tid' = tid
  · subst htid
    simp [htarget, hpc, eq_comm]
  · simp only [htarget, and_false, false_or, Function.update_of_ne htid,
      and_iff_right_iff_imp]
    rintro ⟨pc', hpc', rfl⟩ heq
    have hother := hinv.place_of_free hpc'
    rw [heq, hplace, Place.freeing.injEq] at hother
    exact htid hother.symm

/-- The calls of the other threads. -/
theorem frees_finish {target : Place} {ptr tid' : ℕ} {pc' : FreePc}
    (hpc' : (st.finish tid ptr target).frees tid' = some pc') :
    tid' ≠ tid ∧ st.frees tid' = some pc' := by
  have hne : tid' ≠ tid := fun heq => by simp [Machine.finish, heq] at hpc'
  exact ⟨hne, by simpa [Machine.finish, hne] using hpc'⟩

/-- The chunk is counted off. -/
theorem Chains.giveBack (hinv : Chains cfg st)
    (hpc : st.frees tid = some pc) :
    Chains cfg (st.finish tid pc.ptr .returned) where
  own := hinv.own.congr (update_place_other
    (by simp [hinv.place_of_free hpc]) (by simp)) fun _ _ => rfl
  queue := hinv.queue_congr (fun _ => rfl) (update_place_other
    (by simp [hinv.place_of_free hpc]) (by simp)) fun _ _ => rfl
  freeing := hinv.freeing_finish hpc (by simp)
  calls := by
    intro tid' pc' hpc'
    exact (hinv.calls tid' pc' (frees_finish hpc').2).congr (fun _ => rfl) rfl
  solo := by
    intro hbusy
    obtain ⟨pc', hpc'⟩ := Option.ne_none_iff_exists'.mp hbusy
    exact hinv.solo (by simp [(frees_finish hpc').2])
  serving := hinv.serving.congr rfl rfl fun _ _ _ => rfl

/-- The owner puts the chunk on its list. -/
theorem Chains.pushOwn (hinv : Chains cfg st) {ptr : ℕ} (hptr : ptr ≠ 0)
    (hpc : st.frees tid = some (.storeHead ptr)) :
    Chains cfg ({ st with
      heap := setListHead st.heap tid cfg.ref ptr }.finish tid ptr
        .listed) := by
  obtain ⟨rfl, hlink⟩ := hinv.calls tid _ hpc
  have hplace : st.place ptr = .freeing cfg.owner := hinv.place_of_free hpc
  have hidle := hinv.solo (by simp [hpc])
  have hown := hinv.own
  simp only [ownerHead, hidle] at hown
  exact
  { own := by
      simp only [ownerHead, Machine.finish, hidle, listHead_setListHead,
        and_self, if_true, setListHead_memory]
      refine hown.push hptr hlink (fun other => ?_) fun _ _ => rfl
      rw [update_place]
      by_cases heq : other = ptr <;> simp [heq]
    queue := hinv.queue_congr (by simp [Machine.finish]) (update_place_other
      (by simp [hplace]) (by simp)) (by simp [Machine.finish])
    freeing := hinv.freeing_finish hpc (by simp)
    calls := by
      intro tid' pc' hpc'
      obtain ⟨hne, hpc'⟩ := frees_finish hpc'
      exact (hinv.calls tid' pc' hpc').congr (fun heq => absurd heq hne)
        (by simp [Machine.finish])
    solo := fun _ => hidle
    serving := by simp [AllocOk, Machine.finish, hidle] }

/-- The compare-and-swap that puts the chunk on the remote queue. -/
theorem Chains.pushRemote (hinv : Chains cfg st) {ptr : ℕ} (hptr : ptr ≠ 0)
    {header : SegmentHeader}
    (hpc : st.frees tid = some (.pushSwap ptr header.remoteHead))
    (hload : st.heap.loadHeader (segmentOf cfg.layout ptr) = some header) :
    Chains cfg ({ st with
      heap := st.heap.storeHeader (segmentOf cfg.layout ptr)
        { header with remoteHead := ptr } }.finish tid ptr .queued) where
  own := hinv.own.congr (update_place_other
    (by simp [show st.place ptr = _ from hinv.place_of_free hpc]) (by simp))
    fun _ _ => rfl
  queue := by
    have hplace : st.place ptr = .freeing tid := hinv.place_of_free hpc
    have hlink : readWord st.heap.memory ptr = header.remoteHead :=
      hinv.calls tid _ hpc
    intro base other hother
    rcases storeHeader_eq_some.mp hother with ⟨rfl, rfl⟩ | ⟨hne, hother⟩
    · have hqueue := hinv.queue _ header (loadHeader_eq_some.mp hload).2
      refine hqueue.push hptr hlink (fun node => ?_) fun _ _ => rfl
      simp only [Machine.finish]
      rw [update_place]
      by_cases heq : node = ptr <;> simp [heq]
    · refine (hinv.queue base other hother).congr (fun node => ?_) fun _ _ => rfl
      simp only [Machine.finish]
      rw [update_place]
      by_cases heq : node = ptr
      · simp [heq, hplace, Ne.symm hne]
      · simp [heq]
  freeing := hinv.freeing_finish hpc (by simp)
  calls := by
    intro tid' pc' hpc'
    exact (hinv.calls tid' pc' (frees_finish hpc').2).congr
      (fun _ => listHead_congr rfl rfl) rfl
  solo := by
    intro hbusy
    obtain ⟨pc', hpc'⟩ := Option.ne_none_iff_exists'.mp hbusy
    have hbefore : st.frees cfg.owner = some pc' := (frees_finish hpc').2
    exact hinv.solo (by simp [hbefore])
  serving := hinv.serving.congr rfl (listHead_congr rfl rfl) fun _ _ _ => rfl

end Finish

end Facts

end TbjitAlloc.FreeList
