import TbjitAlloc.Allocator.Safety
import TbjitAlloc.Shadow.Validator

/-!
# The allocator under the validator

In the debug build `malloc` hands what it got to `validate_alloc`, and `free`
calls `validate_free` before it gives the chunk back.  The table is locked within
these two calls only.  Between the routine and the validator, and between the
validator and `free_managed`, the other threads go on.

A chunk leaves the table before its routine can serve it again, and it enters
the table after it was served, so the validator does not stop a program for what
the threads do in between.
-/

namespace TbjitAlloc.Shadow

open TbjitAlloc.Allocator
open TbjitAlloc.Carving
open TbjitAlloc.Codegen
open TbjitAlloc.Segment

/-! ## The system -/

/-- A chunk on its way through `malloc`, a client and `free`. -/
structure Service where
  slot : ℕ
  tid : ℕ
  site : CallSiteID
  chunk : Chunk
  deriving DecidableEq, Repr

/-- What `validate_alloc` records of it. -/
def Service.entry (service : Service) : Entry where
  ptr := service.chunk.ptr
  size := service.chunk.size
  allocId := service.site
  allocTid := service.tid

structure BuildState where
  allocator : AllocatorState
  /-- `g_table`. -/
  table : Table
  /-- The routine has returned, and `validate_alloc` has not been called. -/
  served : List Service
  /-- A client holds the chunk, and it is in the table. -/
  tracked : List Service
  /-- A client holds the chunk, and `validate_alloc` has passed it over. -/
  untracked : List Service
  /-- `validate_free` has returned, and the chunk is not given back. -/
  leaving : List Service

def BuildState.initial : BuildState where
  allocator := .initial
  table := fun _ => none
  served := []
  tracked := []
  untracked := []
  leaving := []

/-- Every chunk is in one of these stages from the call that serves it to the
free that gives it back. -/
def BuildState.out (state : BuildState) : List Service :=
  state.served ++ (state.tracked ++ (state.untracked ++ state.leaving))

inductive BuildAction
  /-- A compilation, a sweep, or a client's write to its chunk. -/
  | aside (action : AllocatorAction)
  /-- A routine is called and returns to `malloc`. -/
  | serve (slot tid request base : ℕ)
  | validateAlloc (service : Service)
  /-- `malloc` hands a pointer of the real allocator to `validate_alloc`. -/
  | libcAlloc (entry : Entry)
  | validateFree (service : Service)
  /-- `free` calls `validate_free` for a pointer of the real allocator. -/
  | libcFree (ptr : ℕ)
  /-- The rest of `free`, in the thread that called it. -/
  | giveBack (tid : ℕ) (service : Service)

section Step

variable (layout : SegmentLayout)

/-- `is_managed(of(ptr))`. -/
def BuildState.manages (state : BuildState) (ptr : ℕ) : Bool :=
  isManaged layout state.allocator.heap (segmentOf layout ptr)

/-- The real allocator's memory is where no segment has been. -/
def BuildState.libcCanServe (state : BuildState) (ptr : ℕ) : Bool :=
  (state.allocator.heap.header (segmentOf layout ptr)).isNone

/-- The steps that neither serve nor free a chunk. -/
def BuildState.Aside (state : BuildState) : AllocatorAction → Prop
  | .compile _ _ => True
  | .use slot (.write chunk _ _) =>
      ∃ service ∈ state.tracked ++ state.untracked,
        service.slot = slot ∧ service.chunk = chunk
  | .use _ (.sweep _ _ _) => True
  | .use _ (.alloc _ _ _) => False
  | .use _ (.free _ _) => False

instance (state : BuildState) (action : AllocatorAction) :
    Decidable (state.Aside action) :=
  match action with
  | .compile _ _ => .isTrue trivial
  | .use slot (.write chunk _ _) =>
      inferInstanceAs (Decidable (∃ service ∈ state.tracked ++ state.untracked,
        service.slot = slot ∧ service.chunk = chunk))
  | .use _ (.sweep _ _ _) => .isTrue trivial
  | .use _ (.alloc _ _ _) => .isFalse id
  | .use _ (.free _ _) => .isFalse id

/-- The validator's answer for a chunk that has been served. -/
def BuildState.verdict (state : BuildState) (service : Service) :
    AllocOutcome :=
  validateAlloc hashPtr (state.manages layout service.chunk.ptr) state.table
    service.entry

/-- `none` when the step is not possible or the process is aborted. -/
def buildStep (state : BuildState) : BuildAction → Option BuildState
  | .aside action =>
      if state.Aside action then
        (allocatorStep layout state.allocator action).map fun allocator =>
          { state with allocator := allocator }
      else none
  | .serve slot tid request base =>
      (state.allocator.routines slot).bind fun spec =>
        (allocatorStep layout state.allocator
          (.use slot (.alloc tid request base))).map fun allocator =>
            match routine layout spec slot tid request base
              state.allocator.heap with
            | some (_, .chunk ptr) => { state with
                allocator := allocator
                served := ⟨slot, tid, spec.id, ⟨ptr, request⟩⟩ :: state.served }
            | _ => { state with allocator := allocator }
  | .validateAlloc service =>
      if service ∈ state.served then
        match state.verdict layout service with
        | .recorded next => some { state with
            table := next
            served := state.served.erase service
            tracked := service :: state.tracked }
        | .unmanaged => some { state with
            served := state.served.erase service
            untracked := service :: state.untracked }
        | _ => none
      else none
  | .libcAlloc entry =>
      if state.libcCanServe layout entry.ptr then
        match validateAlloc hashPtr (state.manages layout entry.ptr) state.table
          entry with
        | .recorded next => some { state with table := next }
        | .unmanaged => some state
        | _ => none
      else none
  | .validateFree service =>
      if service ∈ state.tracked then
        (validateFree hashPtr (tableSize ^ 3) state.table service.chunk.ptr).map
          fun next => { state with
            table := next
            tracked := state.tracked.erase service
            leaving := service :: state.leaving }
      else if service ∈ state.untracked then
        (validateFree hashPtr (tableSize ^ 3) state.table service.chunk.ptr).map
          fun next => { state with
            table := next
            untracked := state.untracked.erase service
            leaving := service :: state.leaving }
      else none
  | .libcFree ptr =>
      if state.libcCanServe layout ptr then
        (validateFree hashPtr (tableSize ^ 3) state.table ptr).map fun next =>
          { state with table := next }
      else none
  | .giveBack tid service =>
      if service ∈ state.leaving then
        (allocatorStep layout state.allocator
          (.use service.slot (.free tid service.chunk))).map fun allocator =>
            { state with
              allocator := allocator
              leaving := state.leaving.erase service }
      else none

def BuildReachable : BuildState → Prop :=
  Transition.Reachable (buildStep layout) .initial

end Step

/-! ## The entries of a list of chunks -/

/-- What the table should answer. -/
def liveEntry (tracked : List Service) (ptr : ℕ) : Option Entry :=
  (tracked.find? fun service => service.chunk.ptr = ptr).map Service.entry

section Entries

variable {tracked : List Service} {service : Service} {ptr : ℕ}

theorem liveEntry_cons :
    liveEntry (service :: tracked) =
      Function.update (liveEntry tracked) service.chunk.ptr
        (some service.entry) := by
  funext ptr
  by_cases hptr : ptr = service.chunk.ptr
  · rw [hptr, Function.update_self, liveEntry,
      List.find?_cons_of_pos (by simp), Option.map_some]
  · rw [Function.update_of_ne hptr, liveEntry,
      List.find?_cons_of_neg (by simpa using Ne.symm hptr), liveEntry]

theorem liveEntry_eq_none :
    liveEntry tracked ptr = none ↔
      ∀ service ∈ tracked, service.chunk.ptr ≠ ptr := by
  rw [liveEntry, Option.map_eq_none_iff, List.find?_eq_none]
  simp only [decide_eq_true_eq, ne_eq]

theorem liveEntry_of_mem
    (hnodup : (tracked.map fun service => service.chunk.ptr).Nodup)
    (hservice : service ∈ tracked) :
    liveEntry tracked service.chunk.ptr = some service.entry := by
  induction tracked with
  | nil => exact absurd hservice List.not_mem_nil
  | cons first rest ih =>
      rw [List.map_cons, List.nodup_cons] at hnodup
      rw [liveEntry_cons]
      rcases List.mem_cons.mp hservice with rfl | hrest
      · exact Function.update_self _ _ _
      · have hne : service.chunk.ptr ≠ first.chunk.ptr := by
          intro hsame
          exact hnodup.1 (List.mem_map.mpr ⟨service, hrest, hsame⟩)
        rw [Function.update_of_ne hne]
        exact ih hnodup.2 hrest

theorem liveEntry_eq_some
    (hnodup : (tracked.map fun service => service.chunk.ptr).Nodup)
    {entry : Entry} :
    liveEntry tracked ptr = some entry ↔
      ∃ service ∈ tracked, service.chunk.ptr = ptr ∧
        service.entry = entry := by
  constructor
  · intro hlive
    rw [liveEntry, Option.map_eq_some_iff] at hlive
    obtain ⟨service, hfind, hentry⟩ := hlive
    have hptr := List.find?_some hfind
    rw [decide_eq_true_eq] at hptr
    exact ⟨service, List.mem_of_find?_eq_some hfind, hptr, hentry⟩
  · rintro ⟨service, hservice, rfl, rfl⟩
    exact liveEntry_of_mem hnodup hservice

theorem liveEntry_erase
    (hnodup : (tracked.map fun service => service.chunk.ptr).Nodup)
    (hservice : service ∈ tracked) :
    liveEntry (tracked.erase service) =
      Function.update (liveEntry tracked) service.chunk.ptr none := by
  induction tracked with
  | nil => exact absurd hservice List.not_mem_nil
  | cons first rest ih =>
      rw [List.map_cons, List.nodup_cons] at hnodup
      by_cases hsame : first = service
      · subst hsame
        have hnone : liveEntry rest first.chunk.ptr = none := by
          rw [liveEntry_eq_none]
          intro other hother hptr
          exact hnodup.1 (List.mem_map.mpr ⟨other, hother, hptr⟩)
        rw [List.erase_cons_head, liveEntry_cons, Function.update_idem, ← hnone,
          Function.update_eq_self]
      · have hrest : service ∈ rest :=
          (List.mem_cons.mp hservice).resolve_left (Ne.symm hsame)
        have hne : service.chunk.ptr ≠ first.chunk.ptr := by
          intro hptr
          exact hnodup.1 (List.mem_map.mpr ⟨service, hrest, hptr⟩)
        rw [List.erase_cons_tail (by simpa using hsame), liveEntry_cons,
          liveEntry_cons, ih hnodup.2 hrest, Function.update_comm hne]

/-- The number of busy slots is the number of entries. -/
theorem card_busy {hash : ℕ → ℕ} {table : Table}
    (hrep : Represents hash table (liveEntry tracked))
    (hnodup : (tracked.map fun service => service.chunk.ptr).Nodup) :
    ((Finset.range tableSize).filter fun slot => table slot ≠ none).card =
      tracked.length := by
  have hkeys : (tracked.map fun service => service.chunk.ptr).toFinset.card =
      tracked.length := by
    rw [List.toFinset_card_of_nodup hnodup, List.length_map]
  rw [← hkeys]
  refine Finset.card_bij (fun slot _ => ((table slot).map Entry.ptr).getD 0)
    ?_ ?_ ?_
  · intro slot hslot
    obtain ⟨hlt, hbusy⟩ := Finset.mem_filter.mp hslot
    obtain ⟨entry, hentry⟩ := Option.ne_none_iff_exists'.mp hbusy
    have hlive := (hrep.stored entry).mp
      ⟨slot, Finset.mem_range.mp hlt, hentry⟩
    obtain ⟨service, hservice, hptr, -⟩ :=
      (liveEntry_eq_some hnodup).mp hlive
    rw [hentry, List.mem_toFinset]
    exact List.mem_map.mpr ⟨service, hservice, hptr⟩
  · intro left hleft right hright hsame
    obtain ⟨hleftLt, hleftBusy⟩ := Finset.mem_filter.mp hleft
    obtain ⟨hrightLt, hrightBusy⟩ := Finset.mem_filter.mp hright
    obtain ⟨first, hfirst⟩ := Option.ne_none_iff_exists'.mp hleftBusy
    obtain ⟨second, hsecond⟩ := Option.ne_none_iff_exists'.mp hrightBusy
    rw [hfirst, hsecond] at hsame
    exact hrep.probed.unique left (Finset.mem_range.mp hleftLt) right
      (Finset.mem_range.mp hrightLt) first second hfirst hsecond hsame
  · intro ptr hptr
    obtain ⟨service, hservice, rfl⟩ :=
      List.mem_map.mp (List.mem_toFinset.mp hptr)
    obtain ⟨slot, hlt, hentry⟩ := (hrep.stored service.entry).mpr
      (liveEntry_of_mem hnodup hservice)
    refine ⟨slot, Finset.mem_filter.mpr ⟨Finset.mem_range.mpr hlt, ?_⟩, ?_⟩
    · rw [hentry]
      exact Option.some_ne_none _
    · rw [hentry]
      rfl

/-- The table is full exactly when it has as many entries as slots. -/
theorem full_iff {hash : ℕ → ℕ} {table : Table}
    (hrep : Represents hash table (liveEntry tracked))
    (hnodup : (tracked.map fun service => service.chunk.ptr).Nodup) :
    (∀ slot < tableSize, table slot ≠ none) ↔ tracked.length = tableSize := by
  have hall := Finset.card_filter_eq_iff (s := Finset.range tableSize)
    (p := fun slot => table slot ≠ none)
  rw [Finset.card_range, card_busy hrep hnodup] at hall
  rw [hall]
  simp only [Finset.mem_range]

end Entries

/-! ## Where the chunks are -/

/-- The chunks of one slot. -/
def chunksOf (slot : ℕ) (services : List Service) : List Chunk :=
  (services.filter fun service => service.slot = slot).map Service.chunk

section Chunks

variable {slot : ℕ} {service : Service} {left right : List Service}

theorem chunksOf_perm (hperm : left.Perm right) :
    (chunksOf slot left).Perm (chunksOf slot right) :=
  (hperm.filter _).map _

theorem chunksOf_cons_self (service : Service) (services : List Service) :
    chunksOf service.slot (service :: services) =
      service.chunk :: chunksOf service.slot services := by
  simp [chunksOf]

theorem chunksOf_cons_of_ne (hne : service.slot ≠ slot)
    (services : List Service) :
    chunksOf slot (service :: services) = chunksOf slot services := by
  simp [chunksOf, hne]

theorem mem_chunksOf (hservice : service ∈ left) :
    service.chunk ∈ chunksOf service.slot left := by
  refine List.mem_map.mpr ⟨service, List.mem_filter.mpr ⟨hservice, ?_⟩, rfl⟩
  exact decide_eq_true rfl

/-- Every stage is part of the whole. -/
theorem BuildState.mem_out {state : BuildState} :
    service ∈ state.out ↔ service ∈ state.served ∨ service ∈ state.tracked ∨
      service ∈ state.untracked ∨ service ∈ state.leaving := by
  simp only [BuildState.out, List.mem_append]

end Chunks

/-- The routine of the chunk's slot was compiled for the site. -/
def Named (allocator : AllocatorState) (service : Service) : Prop :=
  ∃ spec, allocator.routines service.slot = some spec ∧
    spec.id = service.site

/-- The routine of the slot does not recycle an arena. -/
def Lasting (allocator : AllocatorState) (slot : ℕ) : Prop :=
  ∃ spec, allocator.routines slot = some spec ∧ spec.strategy ≠ .epochArena

/-- The chunks the allocator has handed out are those in the four stages, each
in one of them. -/
structure Accounted (layout : SegmentLayout) (state : BuildState) : Prop where
  reachable : AllocatorReachable layout state.allocator
  held : ∀ slot, (chunksOf slot state.out).Perm (state.allocator.held slot)
  named : ∀ service ∈ state.out, Named state.allocator service
  lasting : ∀ service ∈ state.untracked, Lasting state.allocator service.slot

/-- The table holds what has been recorded and not freed. -/
structure Exact (table : Table) (tracked : List Service) : Prop where
  nodup : (tracked.map fun service => service.chunk.ptr).Nodup
  represents : Represents hashPtr table (liveEntry tracked)

structure BuildOk (layout : SegmentLayout) (state : BuildState) : Prop where
  accounted : Accounted layout state
  exactTable : Exact state.table state.tracked

section Accounts

variable {layout : SegmentLayout} {state target : BuildState}
variable {service : Service}

theorem Accounted.mem_held (haccounted : Accounted layout state)
    (hservice : service ∈ state.out) :
    service.chunk ∈ state.allocator.held service.slot :=
  (haccounted.held service.slot).mem_iff.mp (mem_chunksOf hservice)

/-- Two chunks that are out do not share their address. -/
theorem Accounted.ptr_ne (hroomy : 13 ≤ layout.shift)
    (haccounted : Accounted layout state)
    (hlimits : WithinLimits state.allocator) {left right : Service}
    (hsub : [left, right].Sublist state.out)
    (hlasting : left.slot = right.slot → Lasting state.allocator left.slot) :
    left.chunk.ptr ≠ right.chunk.ptr := by
  have hok := allocatorOk_reachable hroomy haccounted.reachable hlimits
  have hleft := haccounted.mem_held (hsub.subset List.mem_cons_self)
  have hright := haccounted.mem_held
    (hsub.subset (List.mem_cons_of_mem _ (List.mem_singleton_self _)))
  obtain ⟨-, -, -, -, -, -, -, hplace⟩ := hok.heldChunk hroomy hleft
  obtain ⟨-, -, -, -, -, -, -, hplace'⟩ := hok.heldChunk hroomy hright
  have hdisjoint : Disjoint left.chunk.ptr left.chunk.size right.chunk.ptr
      right.chunk.size := by
    by_cases hslot : left.slot = right.slot
    · obtain ⟨spec, hspec, hstrategy⟩ := hlasting hslot
      have hroutine := hok.routines left.slot spec hspec
      have hpairwise := hroutine.slotOk.disjoint hroutine.accepts hstrategy
      have hout := (haccounted.held left.slot).symm.pairwise hpairwise
        fun hapart => hapart.symm
      have hpair := hout.sublist ((hsub.filter _).map _)
      simpa [chunksOf, hslot] using hpair
    · exact hok.disjoint_of_ne hroomy hslot hleft hright
  have hpos := hplace.size_pos
  have hpos' := hplace'.size_pos
  rcases hdisjoint with h | h
  · omega
  · omega

/-- A step that only moves chunks between stages. -/
theorem Accounted.rearrange (haccounted : Accounted layout state)
    (hallocator : target.allocator = state.allocator)
    (hout : target.out.Perm state.out)
    (huntracked : ∀ service ∈ target.untracked,
      service ∈ state.untracked ∨ Lasting state.allocator service.slot) :
    Accounted layout target where
  reachable := hallocator ▸ haccounted.reachable
  held := fun slot => by
    rw [hallocator]
    exact (chunksOf_perm hout).trans (haccounted.held slot)
  named := fun service hservice => by
    rw [hallocator]
    exact haccounted.named service (hout.mem_iff.mp hservice)
  lasting := fun service hservice => by
    rw [hallocator]
    exact (huntracked service hservice).elim (haccounted.lasting service) id

/-- A step of the allocator that hands out or takes back what the stages gain or
lose. -/
theorem Accounted.advance (haccounted : Accounted layout state)
    (hlimits : WithinLimits target.allocator) {action : AllocatorAction}
    (hstep : allocatorStep layout state.allocator action =
      some target.allocator)
    (hheld : ∀ slot,
      (chunksOf slot target.out).Perm (target.allocator.held slot))
    (hout : ∀ service ∈ target.out,
      service ∈ state.out ∨ Named state.allocator service)
    (huntracked : target.untracked = state.untracked) :
    Accounted layout target := by
  have hbefore := hlimits.before haccounted.reachable hstep
  have hkept := (routines_step (slotsAssigned_reachable haccounted.reachable
    hbefore.slots) hlimits.slots hstep).2
  refine ⟨haccounted.reachable.next hstep, hheld, fun service hservice => ?_,
    fun service hservice => ?_⟩
  · obtain ⟨spec, hspec, hsite⟩ :=
      (hout service hservice).elim (haccounted.named service) id
    exact ⟨spec, hkept _ _ hspec, hsite⟩
  · obtain ⟨spec, hspec, hstrategy⟩ :=
      haccounted.lasting service (huntracked ▸ hservice)
    exact ⟨spec, hkept _ _ hspec, hstrategy⟩

end Accounts

/-! ## What the validator does to the table -/

section Tables

variable {table next : Table} {tracked : List Service} {service : Service}
variable {managed : Bool} {entry : Entry} {ptr : ℕ}

/-- What `validate_alloc` has checked of a pointer it records. -/
theorem validateAlloc_eq_recorded
    (hverdict : validateAlloc hashPtr managed table entry = .recorded next) :
    entry.ptr ≠ 0 ∧ managed = true ∧ entry.ptr % maxAlign = 0 := by
  rw [validateAlloc] at hverdict
  split at hverdict
  · cases hverdict
  next hptr =>
  split at hverdict
  · cases hverdict
  next hmanaged =>
  split at hverdict
  · cases hverdict
  next haligned =>
  exact ⟨hptr, not_not.mp hmanaged, not_not.mp haligned⟩

/-- It passes over what is in no segment. -/
theorem validateAlloc_unmanaged (hptr : entry.ptr ≠ 0) :
    validateAlloc hashPtr false table entry = .unmanaged := by
  rw [validateAlloc, if_neg hptr, if_pos Bool.false_ne_true]

theorem managed_of_unmanaged
    (hverdict : validateAlloc hashPtr managed table entry = .unmanaged) :
    managed = false := by
  rw [validateAlloc] at hverdict
  split at hverdict
  · cases hverdict
  split at hverdict
  · next hmanaged => exact Bool.not_eq_true _ ▸ hmanaged
  split at hverdict
  · cases hverdict
  split at hverdict
  · cases hverdict
  · split at hverdict <;> cases hverdict

theorem exact_empty : Exact (fun _ => none) [] where
  nodup := List.nodup_nil
  represents := represents_empty

theorem Exact.record (hexact : Exact table tracked)
    (hverdict : validateAlloc hashPtr managed table service.entry =
      .recorded next) : Exact next (service :: tracked) := by
  obtain ⟨hptr, rfl, haligned⟩ := validateAlloc_eq_recorded hverdict
  rcases hexact.represents.validateAlloc_cases hashPtr_lt hptr haligned with
    ⟨existing, -, houtcome⟩ | ⟨-, -, houtcome⟩ |
    ⟨recorded, hnone, -, houtcome, hnext⟩
  · cases houtcome.symm.trans hverdict
  · cases houtcome.symm.trans hverdict
  · cases houtcome.symm.trans hverdict
    refine ⟨?_, ?_⟩
    · rw [List.map_cons, List.nodup_cons]
      refine ⟨fun hmem => ?_, hexact.nodup⟩
      obtain ⟨other, hother, hsame⟩ := List.mem_map.mp hmem
      exact liveEntry_eq_none.mp hnone other hother hsame
    · rw [liveEntry_cons]
      exact hnext

theorem Exact.erase (hexact : Exact table tracked)
    (hservice : service ∈ tracked)
    (hfree : validateFree hashPtr (tableSize ^ 3) table service.chunk.ptr =
      some next) : Exact next (tracked.erase service) := by
  obtain ⟨freed, hfreed, hnext⟩ := hexact.represents.validateFree hashPtr_lt
    le_rfl service.chunk.ptr
  obtain rfl := Option.some.inj (hfreed.symm.trans hfree)
  refine ⟨hexact.nodup.sublist (List.erase_sublist.map _), ?_⟩
  rw [liveEntry_erase hexact.nodup hservice]
  exact hnext

/-- A search for a pointer that was not recorded changes nothing. -/
theorem Exact.pass (hexact : Exact table tracked)
    (habsent : ∀ service ∈ tracked, service.chunk.ptr ≠ ptr)
    (hfree : validateFree hashPtr (tableSize ^ 3) table ptr = some next) :
    Exact next tracked := by
  obtain ⟨freed, hfreed, hnext⟩ := hexact.represents.validateFree hashPtr_lt
    le_rfl ptr
  obtain rfl := Option.some.inj (hfreed.symm.trans hfree)
  rw [← liveEntry_eq_none.mpr habsent, Function.update_eq_self] at hnext
  exact ⟨hexact.nodup, hnext⟩

end Tables

/-! ## What the steps do to the held chunks -/

section Held

variable {layout : SegmentLayout} {state : BuildState}
variable {allocator : AllocatorState}

theorem held_aside {action : AllocatorAction} (haside : state.Aside action)
    (hstep : allocatorStep layout state.allocator action = some allocator) :
    allocator.held = state.allocator.held := by
  cases action with
  | compile page spec =>
      simp only [allocatorStep] at hstep
      split at hstep <;> exact Option.some.inj hstep ▸ rfl
  | use slot action =>
      simp only [allocatorStep, Option.bind_eq_some_iff,
        Option.map_eq_some_iff] at hstep
      obtain ⟨spec, -, moved, hmoved, rfl⟩ := hstep
      suffices hheld : moved.held = state.allocator.held slot by
        rw [AllocatorState.setSlot, hheld]
        exact Function.update_eq_self _ _
      cases action with
      | alloc tid request base => exact absurd haside id
      | free tid chunk => exact absurd haside id
      | write chunk offset byte =>
          simp only [routineStep] at hmoved
          split at hmoved
          · exact Option.some.inj hmoved ▸ rfl
          · cases hmoved
      | sweep mode pred pageSize => exact Option.some.inj hmoved ▸ rfl

/-- A call either serves a chunk to the slot's clients or serves nothing. -/
theorem held_serve {slot tid request base : ℕ} {spec : RoutineSpec}
    (hspec : state.allocator.routines slot = some spec)
    (hstep : allocatorStep layout state.allocator
      (.use slot (.alloc tid request base)) = some allocator) :
    (∃ heap ptr, routine layout spec slot tid request base
        state.allocator.heap = some (heap, .chunk ptr) ∧
      allocator.held = Function.update state.allocator.held slot
        (⟨ptr, request⟩ :: state.allocator.held slot)) ∨
    ∃ heap, routine layout spec slot tid request base
        state.allocator.heap = some (heap, .deopt) ∧
      allocator.held = state.allocator.held := by
  simp only [allocatorStep, hspec, Option.bind_some,
    Option.map_eq_some_iff] at hstep
  obtain ⟨moved, hmoved, rfl⟩ := hstep
  simp only [routineStep] at hmoved
  split at hmoved
  · rw [Option.map_eq_some_iff] at hmoved
    obtain ⟨⟨heap, answer⟩, hcall, rfl⟩ := hmoved
    cases answer with
    | chunk ptr => exact .inl ⟨heap, ptr, hcall, rfl⟩
    | deopt => exact .inr ⟨heap, hcall, Function.update_eq_self _ _⟩
  · cases hmoved

theorem held_giveBack {slot tid : ℕ} {chunk : Chunk}
    (hstep : allocatorStep layout state.allocator
      (.use slot (.free tid chunk)) = some allocator) :
    allocator.held = Function.update state.allocator.held slot
      ((state.allocator.held slot).erase chunk) := by
  simp only [allocatorStep, Option.bind_eq_some_iff,
    Option.map_eq_some_iff] at hstep
  obtain ⟨spec, -, moved, hmoved, rfl⟩ := hstep
  simp only [routineStep] at hmoved
  split at hmoved
  · rw [Option.map_eq_some_iff] at hmoved
    obtain ⟨heap, -, rfl⟩ := hmoved
    rfl
  · cases hmoved

end Held

/-! ## Runs -/

open List in
/-- A chunk moves on from one stage to a later one. -/
theorem perm_move {service : Service} {before : List Service}
    (hservice : service ∈ before) (middle after : List Service) :
    (before.erase service ++ (middle ++ service :: after)).Perm
      (before ++ (middle ++ after)) := by
  calc before.erase service ++ (middle ++ service :: after)
      ~ before.erase service ++ (service :: (middle ++ after)) :=
        List.perm_middle.append_left _
    _ ~ service :: (before.erase service ++ (middle ++ after)) :=
        List.perm_middle
    _ ~ before ++ (middle ++ after) :=
        (List.perm_cons_erase hservice).symm.append_right _

section Runs

variable {layout : SegmentLayout} {state target : BuildState}

/-- No chunk that is out lies where the real allocator's memory may be. -/
theorem Accounted.ptr_ne_libc (hroomy : 13 ≤ layout.shift)
    (haccounted : Accounted layout state)
    (hlimits : WithinLimits state.allocator) {ptr : ℕ}
    (hlibc : state.libcCanServe layout ptr = true) {service : Service}
    (hservice : service ∈ state.out) : service.chunk.ptr ≠ ptr := by
  have hok := allocatorOk_reachable hroomy haccounted.reachable hlimits
  obtain ⟨_, header, -, hheader, -⟩ :=
    hok.heldChunk hroomy (haccounted.mem_held hservice)
  rintro rfl
  rw [BuildState.libcCanServe, hheader] at hlibc
  cases hlibc

/-- Such memory is not managed. -/
theorem manages_of_libc (hroomy : 13 ≤ layout.shift)
    (haccounted : Accounted layout state)
    (hlimits : WithinLimits state.allocator) {ptr : ℕ}
    (hlibc : state.libcCanServe layout ptr = true) :
    state.manages layout ptr = false := by
  have hok := allocatorOk_reachable hroomy haccounted.reachable hlimits
  rw [← Bool.not_eq_true, BuildState.manages,
    hok.registry.isManaged_iff (dvd_segmentOf ptr)]
  intro hmapped
  exact hok.registry.recorded _ hmapped (Option.isNone_iff_eq_none.mp hlibc)

/-- A chunk that is passed over belongs to no arena: arenas stay mapped. -/
theorem Accounted.lasting_of_unmanaged (hroomy : 13 ≤ layout.shift)
    (haccounted : Accounted layout state)
    (hlimits : WithinLimits state.allocator) {service : Service}
    (hservice : service ∈ state.out)
    (hunmanaged : state.manages layout service.chunk.ptr = false) :
    Lasting state.allocator service.slot := by
  have hok := allocatorOk_reachable hroomy haccounted.reachable hlimits
  have hheld := haccounted.mem_held hservice
  obtain ⟨spec, header, hspec, hheader, hslot, -⟩ :=
    hok.heldChunk hroomy hheld
  refine ⟨spec, hspec, fun harena => ?_⟩
  have hactive := (hok.routines _ spec hspec).slotOk.active_of_arena harena
    (slotHeader_eq_some.mpr ⟨hheader, hslot⟩)
  have hmanaged := hok.isManaged_of_active hroomy hheld hheader hactive
  rw [BuildState.manages, hmanaged] at hunmanaged
  cases hunmanaged

theorem buildOk_initial (layout : SegmentLayout) :
    BuildOk layout .initial where
  accounted :=
    { reachable := .start
      held := fun _ => .nil
      named := fun _ hservice => absurd hservice List.not_mem_nil
      lasting := fun _ hservice => absurd hservice List.not_mem_nil }
  exactTable := exact_empty

/-! ### The single steps -/

theorem BuildOk.aside {action : AllocatorAction}
    (hlimits : WithinLimits target.allocator) (hok : BuildOk layout state)
    (hstep : buildStep layout state (.aside action) = some target) :
    BuildOk layout target := by
  simp only [buildStep] at hstep
  split at hstep
  · next haside =>
      obtain ⟨allocator, hallocator, rfl⟩ := Option.map_eq_some_iff.mp hstep
      refine ⟨hok.accounted.advance hlimits hallocator (fun slot => ?_)
        (fun service hservice => .inl hservice) rfl, hok.exactTable⟩
      dsimp only
      rw [held_aside haside hallocator]
      exact hok.accounted.held slot
  · cases hstep

theorem BuildOk.serve {slot tid request base : ℕ}
    (hlimits : WithinLimits target.allocator) (hok : BuildOk layout state)
    (hstep : buildStep layout state (.serve slot tid request base) =
      some target) : BuildOk layout target := by
  simp only [buildStep, Option.bind_eq_some_iff,
    Option.map_eq_some_iff] at hstep
  obtain ⟨spec, hspec, allocator, hallocator, rfl⟩ := hstep
  rcases held_serve hspec hallocator with
    ⟨heap, ptr, hcall, hheld⟩ | ⟨heap, hcall, hheld⟩
  · simp only [hcall] at hlimits ⊢
    refine ⟨hok.accounted.advance hlimits hallocator (fun other => ?_)
      (fun service hservice => ?_) rfl, hok.exactTable⟩
    · dsimp only [BuildState.out]
      rw [hheld, List.cons_append]
      by_cases hsame : other = slot
      · subst hsame
        rw [Function.update_self, chunksOf_cons_self ⟨other, tid, spec.id, _⟩]
        exact (hok.accounted.held other).cons _
      · rw [Function.update_of_ne hsame, chunksOf_cons_of_ne (Ne.symm hsame)]
        exact hok.accounted.held other
    · rcases List.mem_cons.mp hservice with rfl | hservice
      · exact .inr ⟨spec, hspec, rfl⟩
      · exact .inl hservice
  · simp only [hcall] at hlimits ⊢
    refine ⟨hok.accounted.advance hlimits hallocator (fun other => ?_)
      (fun service hservice => .inl hservice) rfl, hok.exactTable⟩
    dsimp only
    rw [hheld]
    exact hok.accounted.held other

theorem BuildOk.validateAlloc (hroomy : 13 ≤ layout.shift)
    (hlimits : WithinLimits state.allocator) {service : Service}
    (hok : BuildOk layout state)
    (hstep : buildStep layout state (.validateAlloc service) = some target) :
    BuildOk layout target := by
  simp only [buildStep] at hstep
  split at hstep
  · next hservice =>
      split at hstep
      · next next hverdict =>
          obtain rfl := Option.some.inj hstep
          exact ⟨hok.accounted.rearrange rfl (perm_move hservice [] _)
            fun _ => .inl, hok.exactTable.record hverdict⟩
      · next hverdict =>
          obtain rfl := Option.some.inj hstep
          have hlasting := hok.accounted.lasting_of_unmanaged hroomy hlimits
            (BuildState.mem_out.mpr (.inl hservice))
            (managed_of_unmanaged hverdict)
          refine ⟨hok.accounted.rearrange rfl
            (perm_move hservice state.tracked _) fun other hother => ?_,
            hok.exactTable⟩
          rcases List.mem_cons.mp hother with rfl | hother
          · exact .inr hlasting
          · exact .inl hother
      · cases hstep
  · cases hstep

theorem BuildOk.libcAlloc (hroomy : 13 ≤ layout.shift)
    (hlimits : WithinLimits state.allocator) {entry : Entry}
    (hok : BuildOk layout state)
    (hstep : buildStep layout state (.libcAlloc entry) = some target) :
    BuildOk layout target := by
  simp only [buildStep] at hstep
  split at hstep
  · next hlibc =>
      have hunmanaged := manages_of_libc hroomy hok.accounted hlimits hlibc
      split at hstep
      · next hverdict =>
          have hmanaged := (validateAlloc_eq_recorded hverdict).2.1
          rw [hunmanaged] at hmanaged
          cases hmanaged
      · exact Option.some.inj hstep ▸ hok
      · cases hstep
  · cases hstep

theorem BuildOk.validateFree (hroomy : 13 ≤ layout.shift)
    (hlimits : WithinLimits state.allocator) {service : Service}
    (hok : BuildOk layout state)
    (hstep : buildStep layout state (.validateFree service) = some target) :
    BuildOk layout target := by
  simp only [buildStep] at hstep
  split at hstep
  · next hservice =>
      obtain ⟨next, hfree, rfl⟩ := Option.map_eq_some_iff.mp hstep
      exact ⟨hok.accounted.rearrange rfl
        ((perm_move hservice state.untracked _).append_left _)
        fun _ => .inl, hok.exactTable.erase hservice hfree⟩
  split at hstep
  · next hservice =>
      obtain ⟨next, hfree, rfl⟩ := Option.map_eq_some_iff.mp hstep
      refine ⟨hok.accounted.rearrange rfl
        (((perm_move hservice [] _).append_left _).append_left _)
        fun other hother => .inl (List.mem_of_mem_erase hother),
        hok.exactTable.pass (fun other hother => ?_) hfree⟩
      -- A chunk of another stage has another address.
      have hsub : [other, service].Sublist state.out := by
        have htracked := List.singleton_sublist.mpr hother
        have huntracked := (List.singleton_sublist.mpr hservice).trans
          (List.sublist_append_left state.untracked state.leaving)
        exact (htracked.append huntracked).trans
          (List.sublist_append_right state.served _)
      exact hok.accounted.ptr_ne hroomy hlimits hsub
        fun hsame => hsame ▸ hok.accounted.lasting service hservice
  · cases hstep

theorem BuildOk.libcFree (hroomy : 13 ≤ layout.shift)
    (hlimits : WithinLimits state.allocator) {ptr : ℕ}
    (hok : BuildOk layout state)
    (hstep : buildStep layout state (.libcFree ptr) = some target) :
    BuildOk layout target := by
  simp only [buildStep] at hstep
  split at hstep
  · next hlibc =>
      obtain ⟨next, hfree, rfl⟩ := Option.map_eq_some_iff.mp hstep
      refine ⟨hok.accounted.rearrange rfl (.refl _) fun _ => .inl,
        hok.exactTable.pass (fun other hother => ?_) hfree⟩
      exact hok.accounted.ptr_ne_libc hroomy hlimits hlibc
        (BuildState.mem_out.mpr (.inr (.inl hother)))
  · cases hstep

theorem BuildOk.giveBack {tid : ℕ} {service : Service}
    (hlimits : WithinLimits target.allocator) (hok : BuildOk layout state)
    (hstep : buildStep layout state (.giveBack tid service) = some target) :
    BuildOk layout target := by
  simp only [buildStep] at hstep
  split at hstep
  · next hservice =>
      obtain ⟨allocator, hallocator, rfl⟩ := Option.map_eq_some_iff.mp hstep
      have hout : state.out.Perm (service :: (state.served ++
          (state.tracked ++
            (state.untracked ++ state.leaving.erase service)))) := by
        simp only [BuildState.out, ← List.append_assoc]
        exact ((List.perm_cons_erase hservice).append_left _).trans
          List.perm_middle
      refine ⟨hok.accounted.advance hlimits hallocator (fun slot => ?_)
        (fun other hother => .inl (hout.mem_iff.mpr
          (List.mem_cons_of_mem _ hother))) rfl, hok.exactTable⟩
      dsimp only
      rw [held_giveBack hallocator]
      have hheld := (chunksOf_perm hout).symm.trans (hok.accounted.held slot)
      by_cases hsame : service.slot = slot
      · subst hsame
        rw [chunksOf_cons_self] at hheld
        have herased := hheld.erase service.chunk
        rw [List.erase_cons_head] at herased
        rwa [Function.update_self]
      · rw [chunksOf_cons_of_ne hsame] at hheld
        rwa [Function.update_of_ne (Ne.symm hsame)]
  · cases hstep

theorem buildOk_step (hroomy : 13 ≤ layout.shift)
    (hbefore : WithinLimits state.allocator)
    (hlimits : WithinLimits target.allocator) {action : BuildAction}
    (hok : BuildOk layout state)
    (hstep : buildStep layout state action = some target) :
    BuildOk layout target := by
  cases action with
  | aside action => exact hok.aside hlimits hstep
  | serve slot tid request base => exact hok.serve hlimits hstep
  | validateAlloc service => exact hok.validateAlloc hroomy hbefore hstep
  | libcAlloc entry => exact hok.libcAlloc hroomy hbefore hstep
  | validateFree service => exact hok.validateFree hroomy hbefore hstep
  | libcFree ptr => exact hok.libcFree hroomy hbefore hstep
  | giveBack tid service => exact hok.giveBack hlimits hstep

/-! ### Whole runs -/

/-- The allocator under the validator is the allocator. -/
theorem buildStep_allocator {action : BuildAction}
    (hstep : buildStep layout state action = some target) :
    target.allocator = state.allocator ∨ ∃ action,
      allocatorStep layout state.allocator action = some target.allocator := by
  cases action with
  | aside action =>
      simp only [buildStep] at hstep
      split at hstep
      · obtain ⟨allocator, hallocator, rfl⟩ := Option.map_eq_some_iff.mp hstep
        exact .inr ⟨action, hallocator⟩
      · cases hstep
  | serve slot tid request base =>
      simp only [buildStep, Option.bind_eq_some_iff,
        Option.map_eq_some_iff] at hstep
      obtain ⟨spec, hspec, allocator, hallocator, rfl⟩ := hstep
      refine .inr ⟨.use slot (.alloc tid request base), ?_⟩
      split <;> exact hallocator
  | validateAlloc service =>
      simp only [buildStep] at hstep
      split at hstep
      · split at hstep
        · exact .inl (Option.some.inj hstep ▸ rfl)
        · exact .inl (Option.some.inj hstep ▸ rfl)
        · cases hstep
      · cases hstep
  | libcAlloc entry =>
      simp only [buildStep] at hstep
      split at hstep
      · split at hstep
        · exact .inl (Option.some.inj hstep ▸ rfl)
        · exact .inl (Option.some.inj hstep ▸ rfl)
        · cases hstep
      · cases hstep
  | validateFree service =>
      simp only [buildStep] at hstep
      split at hstep
      · obtain ⟨next, -, rfl⟩ := Option.map_eq_some_iff.mp hstep
        exact .inl rfl
      split at hstep
      · obtain ⟨next, -, rfl⟩ := Option.map_eq_some_iff.mp hstep
        exact .inl rfl
      · cases hstep
  | libcFree ptr =>
      simp only [buildStep] at hstep
      split at hstep
      · obtain ⟨next, -, rfl⟩ := Option.map_eq_some_iff.mp hstep
        exact .inl rfl
      · cases hstep
  | giveBack tid service =>
      simp only [buildStep] at hstep
      split at hstep
      · obtain ⟨allocator, hallocator, rfl⟩ := Option.map_eq_some_iff.mp hstep
        exact .inr ⟨_, hallocator⟩
      · cases hstep

theorem allocatorReachable_of_build (hreach : BuildReachable layout state) :
    AllocatorReachable layout state.allocator := by
  induction hreach with
  | start => exact .start
  | next _ _ hstep ih =>
      rcases buildStep_allocator hstep with hsame | ⟨action, hallocator⟩
      · rwa [hsame]
      · exact ih.next hallocator

theorem buildOk_reachable (hroomy : 13 ≤ layout.shift)
    (hreach : BuildReachable layout state)
    (hlimits : WithinLimits state.allocator) : BuildOk layout state := by
  induction hreach with
  | start => exact buildOk_initial layout
  | @next before _ _ hreach _ hstep ih =>
      have hbefore : WithinLimits before.allocator := by
        rcases buildStep_allocator hstep with hsame | ⟨action, hallocator⟩
        · exact hsame ▸ hlimits
        · exact hlimits.before (allocatorReachable_of_build hreach) hallocator
      exact buildOk_step hroomy hbefore hlimits (ih hbefore) hstep

/-! ## Main results -/

/-- Whatever the threads do between a routine and the validator, the validator
never reports the served chunk as a duplicate.  It aborts only for a routine
compiled for a size that is not aligned, or for want of a free slot, and it
passes over a chunk only if the reaper has unmapped its segment. -/
theorem verdict_served (hroomy : 13 ≤ layout.shift)
    (hreach : BuildReachable layout state)
    (hlimits : WithinLimits state.allocator) {service : Service}
    (hservice : service ∈ state.served) {spec : RoutineSpec}
    (hspec : state.allocator.routines service.slot = some spec)
    (hstrategy : spec.strategy ≠ .epochArena) :
    (state.verdict layout service = .unmanaged ∧
      ∃ header, state.allocator.heap.header
          (segmentOf layout service.chunk.ptr) = some header ∧
        header.retired = true) ∨
    (state.verdict layout service = .misaligned ∧
      ∃ size ∈ servedSizes spec, ¬ maxAlign ∣ size) ∨
    (state.verdict layout service = .tableFull ∧
      state.tracked.length = tableSize) ∨
    ((∃ next, state.verdict layout service = .recorded next) ∧
      state.tracked.length ≠ tableSize) := by
  obtain ⟨haccounted, hexact⟩ := buildOk_reachable hroomy hreach hlimits
  have hok := allocatorOk_reachable hroomy haccounted.reachable hlimits
  have hout := BuildState.mem_out.mpr (.inl hservice)
  have hheld := haccounted.mem_held hout
  obtain ⟨_, header, -, hheader, hslot, -, -, hplace⟩ :=
    hok.heldChunk hroomy hheld
  have hnotNull : service.entry.ptr ≠ 0 := by
    have hlow := hplace.base_lt
    exact Nat.ne_of_gt (Nat.zero_lt_of_lt hlow)
  cases hmanaged : state.manages layout service.chunk.ptr with
  | false =>
      refine .inl ⟨?_, header, hheader, ?_⟩
      · rw [BuildState.verdict, hmanaged]
        exact validateAlloc_unmanaged hnotNull
      · by_contra hactive
        have hyes := hok.isManaged_of_active hroomy hheld hheader
          (Bool.eq_false_iff.mpr hactive)
        rw [BuildState.manages, hyes] at hmanaged
        cases hmanaged
  | true =>
      by_cases haligned : service.entry.ptr % maxAlign = 0
      · rcases hexact.represents.validateAlloc_cases hashPtr_lt hnotNull
          haligned with ⟨existing, hlive, -⟩ | ⟨-, hfull, hverdict⟩ |
          ⟨next, -, ⟨slot, hslot, hempty⟩, hverdict, -⟩
        · -- The chunk would be out twice.
          obtain ⟨other, hother, hsame, -⟩ :=
            (liveEntry_eq_some hexact.nodup).mp hlive
          have hsub : [service, other].Sublist state.out := by
            have hserved := List.singleton_sublist.mpr hservice
            have htracked := (List.singleton_sublist.mpr hother).trans
              (List.sublist_append_left state.tracked
                (state.untracked ++ state.leaving))
            exact hserved.append htracked
          exact absurd hsame.symm (haccounted.ptr_ne hroomy hlimits hsub
            fun _ => ⟨spec, hspec, hstrategy⟩)
        · rw [full_iff hexact.represents hexact.nodup] at hfull
          rw [← hmanaged] at hverdict
          exact .inr (.inr (.inl ⟨hverdict, hfull⟩))
        · rw [← hmanaged] at hverdict
          refine .inr (.inr (.inr ⟨⟨next, hverdict⟩, fun hfull => ?_⟩))
          rw [← full_iff hexact.represents hexact.nodup] at hfull
          exact hfull slot hslot hempty
      · refine .inr (.inl ⟨?_, service.chunk.size, ?_, fun hdvd => ?_⟩)
        · rw [BuildState.verdict, hmanaged, validateAlloc, if_neg hnotNull,
            if_neg (not_not.mpr rfl), if_pos haligned]
        · exact (hok.routines _ spec hspec).slotOk.size_mem hheld
        · refine haligned (Nat.mod_eq_zero_of_dvd ?_)
          exact isChunk_aligned hplace (dvd_segmentOf _) (.inl hdvd)

/-- One thread has a chunk of a site in the table, and another has been served
one of a second site. -/
def twoServed : List BuildAction :=
  [.aside (.compile 4096 queuedObjects), .aside (.compile 8192 pairedObjects),
    .serve 0 0 32 (2 ^ 21), .validateAlloc ⟨0, 0, 5, queuedChunk⟩,
    .serve 1 1 48 (2 ^ 22)]

theorem exists_twoServed :
    ∃ state, Transition.run (buildStep .default) .initial twoServed =
        some state ∧
      BuildReachable .default state ∧ WithinLimits state.allocator ∧
      state.allocator.routines 1 = some pairedObjects ∧
      state.manages .default pairedChunk.ptr = true ∧
      state.served = [⟨1, 1, 7, pairedChunk⟩] ∧
      state.tracked = [⟨0, 0, 5, queuedChunk⟩] := by
  have hsome : (Transition.run (buildStep .default) .initial
      twoServed).isSome = true := rfl
  obtain ⟨state, hrun⟩ := Option.isSome_iff_exists.mp hsome
  have hseen : (Transition.run (buildStep .default) .initial twoServed).map
      (fun state => (state.allocator.routines, state.allocator.accepted,
        state.manages .default pairedChunk.ptr, state.served, state.tracked)) =
        some (twoRoutines, 2, true, [⟨1, 1, 7, pairedChunk⟩],
          [⟨0, 0, 5, queuedChunk⟩]) := rfl
  rw [hrun, Option.map_some, Option.some.injEq, Prod.mk.injEq, Prod.mk.injEq,
    Prod.mk.injEq, Prod.mk.injEq] at hseen
  obtain ⟨hroutines, haccepted, hmanaged, hserved, htracked⟩ := hseen
  refine ⟨state, hrun, Transition.reachable_of_run .start hrun,
    withinLimits_twoRoutines hroutines haccepted, ?_, hmanaged, hserved,
    htracked⟩
  rw [hroutines]
  rfl

/-- The second chunk is recorded. -/
theorem verdict_served_twoServed :
    ∃ state, Transition.run (buildStep .default) .initial twoServed =
        some state ∧
      ∃ next, state.verdict .default ⟨1, 1, 7, pairedChunk⟩ =
        .recorded next := by
  obtain ⟨state, hrun, hreach, hlimits, hspec, hmanaged, hserved, htracked⟩ :=
    exists_twoServed
  have hservice : (⟨1, 1, 7, pairedChunk⟩ : Service) ∈ state.served := by
    rw [hserved]
    exact List.mem_singleton_self _
  refine ⟨state, hrun, ?_⟩
  rcases verdict_served (by decide) hreach hlimits hservice hspec (by decide)
    with ⟨hpassed, -⟩ | ⟨-, size, hsize, hodd⟩ | ⟨-, hfull⟩ | ⟨hrecorded, -⟩
  · rw [managed_of_unmanaged hpassed] at hmanaged
    cases hmanaged
  · obtain rfl := List.mem_singleton.mp hsize
    exact absurd (by decide) hodd
  · rw [htracked] at hfull
    exact absurd hfull (by decide)
  · exact hrecorded

end Runs

end TbjitAlloc.Shadow
