import TbjitAlloc.FreeList.Bookkeeping

/-!
# Conservation of chunks

In every interleaving of the owner's allocations, frees by any threads and
sweeps, each chunk of a linked segment is in exactly one place: with a client,
on the owner's list, on the remote queue of its segment, in the hands of one
call of `free_managed`, or given back to its retired segment.
-/

namespace TbjitAlloc.FreeList

open TbjitAlloc.ByteMemory
open TbjitAlloc.Carving
open TbjitAlloc.Codegen
open TbjitAlloc.LinkedChain
open TbjitAlloc.Segment
open TbjitAlloc.Transition

/-- Where the program has a chunk: on a chain in memory or in a call in
progress.  What clients hold and what was given back is nowhere in memory. -/
def FoundAt (cfg : ListConfig) (st : Machine) (ptr : ℕ) : Place → Prop
  | .uncarved => False
  | .held => st.place ptr = .held
  | .listed => ∃ nodes,
      Chain 0 (readWord st.heap.memory) (ownerHead cfg st) nodes ∧ ptr ∈ nodes
  | .queued => ∃ header nodes,
      st.heap.header (segmentOf cfg.layout ptr) = some header ∧
        Chain 0 (readWord st.heap.memory) header.remoteHead nodes ∧ ptr ∈ nodes
  | .freeing tid => ∃ pc, st.frees tid = some pc ∧ pc.ptr = ptr
  | .returned => st.place ptr = .returned

/-- How many chunks of a segment satisfy a condition on their place. -/
def countPlaces (cfg : ListConfig) (st : Machine) (base : ℕ)
    (condition : Place → Bool) : ℕ :=
  (pieces (payloadStart base) cfg.size (chunkCount cfg.layout cfg.size)).countP
    fun ptr => condition (st.place ptr)

structure Conserved (cfg : ListConfig) (st : Machine) : Prop where
  found : ∀ base header ptr, st.heap.header base = some header →
    st.alloc.building ≠ some base → IsChunk cfg.layout base cfg.size ptr →
    ∃! place, FoundAt cfg st ptr place
  servedOnce : ∀ action st' ptr, step cfg st action = some st' →
    served st action = some ptr →
    FoundAt cfg st ptr .listed ∧ FoundAt cfg st' ptr .held
  disjoint : ∀ left right, FoundAt cfg st left .held →
    FoundAt cfg st right .held → left ≠ right →
    Carving.Disjoint left cfg.size right cfg.size
  inside : ∀ ptr, FoundAt cfg st ptr .held →
    (∃ header, st.heap.loadHeader (segmentOf cfg.layout ptr) = some header) ∧
      payloadStart (segmentOf cfg.layout ptr) ≤ ptr ∧
      ptr + cfg.size ≤ segmentEnd cfg.layout (segmentOf cfg.layout ptr)
  outstanding : ∀ base header, st.heap.header base = some header →
    header.retired = true →
    header.liveChunks = countPlaces cfg st base (· ≠ .returned) ∧
      countPlaces cfg st base (· = .held) ≤ header.liveChunks

section Results

variable {cfg : ListConfig} {st : Machine}

/-- The chunks on a list are the members of any chain from its head. -/
theorem mem_lists_iff {memory : Memory} {head ptr : ℕ} {member : ℕ → Prop}
    (hlists : Lists 0 (readWord memory) head member) :
    (∃ nodes, Chain 0 (readWord memory) head nodes ∧ ptr ∈ nodes) ↔
      member ptr := by
  obtain ⟨nodes, hchain, hmember⟩ := hlists
  constructor
  · rintro ⟨nodes', hchain', hptr⟩
    rw [hchain'.unique hchain] at hptr
    exact (hmember ptr).mp hptr
  · exact fun hptr => ⟨nodes, hchain, (hmember ptr).mpr hptr⟩

/-- The ghost place is where the chunk is found. -/
theorem Shape.foundAt_iff (hinv : Shape cfg st) {ptr : ℕ} {place : Place} :
    FoundAt cfg st ptr place ↔ place ≠ .uncarved ∧ st.place ptr = place := by
  have hchains := hinv.chains
  cases place with
  | uncarved => simp [FoundAt]
  | held => simp [FoundAt]
  | listed =>
      simp only [FoundAt, ne_eq, reduceCtorEq, not_false_eq_true, true_and]
      exact mem_lists_iff hchains.own
  | queued =>
      simp only [FoundAt, ne_eq, reduceCtorEq, not_false_eq_true, true_and]
      constructor
      · rintro ⟨header, nodes, hheader, hchain⟩
        exact ((mem_lists_iff (hchains.queue _ header hheader)).mp
          ⟨nodes, hchain⟩).1
      · intro hptr
        obtain ⟨header, hheader⟩ := hinv.geometry.header
          (show st.place ptr ≠ .uncarved by simp [hptr])
        obtain ⟨nodes, hchain⟩ := (mem_lists_iff
          (hchains.queue _ header hheader)).mpr ⟨hptr, rfl⟩
        exact ⟨header, nodes, hheader, hchain⟩
  | freeing tid =>
      simp only [FoundAt, ne_eq, reduceCtorEq, not_false_eq_true, true_and]
      exact (hchains.freeing tid ptr).symm
  | returned => simp [FoundAt]

/-- A held chunk keeps its segment mapped. -/
theorem Inv.mapped_of_held (hinv : Inv cfg st) {ptr : ℕ}
    (hheld : st.place ptr = .held) :
    ∃ header, st.heap.loadHeader (segmentOf cfg.layout ptr) = some header := by
  obtain ⟨header, hheader⟩ := hinv.shape.geometry.header
    (show st.place ptr ≠ .uncarved by simp [hheld])
  cases hmapped : st.heap.mapped (segmentOf cfg.layout ptr) with
  | true => exact ⟨header, loadHeader_eq_some.mpr ⟨hmapped, hheader⟩⟩
  | false =>
      have hempty := hinv.ledger.unmapped _ header hheader hmapped
      have hdrained := hinv.ledger.drained hinv.shape.geometry hempty ptr rfl
      simp [hheld] at hdrained

theorem Inv.conserved (hinv : Inv cfg st) : Conserved cfg st where
  found := by
    intro base header ptr hheader hbuilding hchunk
    have haligned := (hinv.shape.geometry.placed base header hheader).2.1
    have hsegment := hchunk.segmentOf_eq haligned
    have htracked : st.place ptr ≠ .uncarved :=
      (hinv.shape.geometry.carved ptr).mpr
        ⟨⟨header, hsegment ▸ hheader⟩, hsegment ▸ hbuilding, hsegment ▸ hchunk⟩
    refine ⟨st.place ptr, hinv.shape.foundAt_iff.mpr ⟨htracked, rfl⟩, ?_⟩
    intro place hplace
    exact (hinv.shape.foundAt_iff.mp hplace).2.symm
  servedOnce := by
    intro action st' ptr hstep hserved
    cases action with
    | allocStep base =>
        cases halloc : st.alloc with
        | serveStore chunk link =>
            obtain rfl : chunk = ptr := by simpa [served, halloc] using hserved
            have hlisted := (hinv.shape.chains.serveStore_listed halloc).2.2
            refine ⟨hinv.shape.foundAt_iff.mpr ⟨by simp, hlisted⟩, ?_⟩
            simp only [FreeList.step, FreeList.allocStep, halloc,
              Option.some.injEq] at hstep
            subst hstep
            simp [FoundAt]
        | _ => simp [served, halloc] at hserved
    | _ => simp [served] at hserved
  disjoint := by
    intro left right hleft hright hne
    simp only [FoundAt] at hleft hright
    exact hinv.shape.geometry.disjoint (by simp [hleft]) (by simp [hright]) hne
  inside := by
    intro ptr hptr
    simp only [FoundAt] at hptr
    have hchunk := hinv.shape.geometry.isChunk
      (show st.place ptr ≠ .uncarved by simp [hptr])
    exact ⟨hinv.mapped_of_held hptr, hchunk.inside⟩
  outstanding := by
    intro base header hheader hretired
    have hbooks := hinv.ledger.retired base header hheader hretired
    have hsplit := List.length_eq_countP_add_countP
      (fun ptr => decide (st.place ptr = .returned))
      (l := pieces (payloadStart base) cfg.size
        (chunkCount cfg.layout cfg.size))
    have hheld : countPlaces cfg st base (· = .held) ≤
        countPlaces cfg st base (· ≠ .returned) := by
      apply List.countP_mono_left
      intro ptr _ hptr
      simp only [decide_eq_true_eq] at hptr ⊢
      simp [hptr]
    have hlive : header.liveChunks =
        countPlaces cfg st base (· ≠ .returned) := by
      rw [length_pieces] at hsplit
      simp only [countPlaces, returnedCount, ne_eq, decide_not,
        decide_eq_true_eq] at hsplit hbooks ⊢
      omega
    exact ⟨hlive, hlive ▸ hheld⟩

end Results

/-- Segments of up to 32 GiB have fewer than 2^32 chunks. -/
theorem chunkCount_lt (cfg : ListConfig)
    (hsize : cfg.layout.segmentSize ≤ 2 ^ 35) :
    chunkCount cfg.layout cfg.size < 2 ^ 32 := by
  have hroom := cfg.size_ge
  unfold pointerSize at hroom
  unfold chunkCount headerSize
  rw [Nat.div_lt_iff_lt_mul (by omega)]
  calc cfg.layout.segmentSize - 64
      < 2 ^ 32 * 8 := by omega
    _ ≤ 2 ^ 32 * cfg.size := Nat.mul_le_mul_left _ hroom

theorem inv_reachable (cfg : ListConfig)
    (hsize : cfg.layout.segmentSize ≤ 2 ^ 35) {slotToSite : ℕ → ℕ}
    {st : Machine}
    (hreach : Reachable (step cfg) (.initial slotToSite) st) : Inv cfg st :=
  hreach.invariant (inv_initial slotToSite) fun _ _ _ hinv hstep =>
    hinv.step (chunkCount_lt cfg hsize) hstep

/-- Chunks are conserved in every reachable state. -/
theorem conserved_reachable (cfg : ListConfig)
    (hsize : cfg.layout.segmentSize ≤ 2 ^ 35) {slotToSite : ℕ → ℕ}
    {st : Machine}
    (hreach : Reachable (step cfg) (.initial slotToSite) st) :
    Conserved cfg st :=
  (inv_reachable cfg hsize hreach).conserved

/-! ## One chunk to a segment -/

/-- Chunks of 2048 bytes in 4 KiB segments: one fits. -/
def oneChunkList : ListConfig where
  layout := ⟨12, by decide, by decide⟩
  ref := .single 0
  owner := 1
  size := 2048
  mode := .eager
  pageSize := 4096
  size_ge := by decide
  size_lt := by decide
  class_lt := by decide

/-- The owner allocates the chunk of a fresh segment at `base`, from a null
list head on. -/
def allocFresh (base : ℕ) : List Action :=
  [.allocStep base, .allocStep 0, .allocStep 0, .allocStep 0, .allocStep 0,
    .allocStep 0, .allocStep 0, .allocStep 0]

/-- Thread 2 pushes the chunk and the owner's refill takes it over. -/
theorem conserved_harvested :
    ∃ st, st.alloc = .serveLink 4160 ∧ st.place 4160 = .listed ∧
      Conserved oneChunkList st := by
  have hany : (run (step oneChunkList) (.initial fun _ => 0)
      ([.alloc, .allocStep 0] ++ allocFresh 4096 ++
        [.free 2 4160, .freeStep 2 false, .freeStep 2 false, .freeStep 2 false,
          .freeStep 2 false, .freeStep 2 false, .alloc, .allocStep 0,
          .allocStep 0])).any
      (fun st => decide (st.alloc = .serveLink 4160 ∧
        st.place 4160 = .listed)) = true := by
    decide +kernel
  obtain ⟨st, hrun, hfacts⟩ := (Option.any_eq_true _ _).mp hany
  obtain ⟨halloc, hlisted⟩ := of_decide_eq_true hfacts
  exact ⟨st, halloc, hlisted, conserved_reachable oneChunkList (by decide)
    (reachable_of_run .start hrun)⟩

end TbjitAlloc.FreeList
