import TbjitAlloc.Common
import TbjitAlloc.Core.Transition

/-!
# The inline cache of the malloc prologue

Each thread remembers the last site it looked up, with the routine it found and
the generation it had read before the lookup.  An update stores a routine and
then bumps the generation.  Any number of prologues and updates interleave, one
access to a shared variable at a time; the table is a map from sites to atomic
pointers, and the 64-bit generation does not wrap.

`stores` and `settled` are history.  The first holds all values a site's pointer
has had, and the second the position in it of the latest value whose update has
returned.
-/

namespace TbjitAlloc.Dispatch.InlineCache

open TbjitAlloc.Transition

/-- `tl_ic_id`, `tl_ic_fn` and `tl_ic_gen`. -/
structure Cache where
  id : CallSiteID
  fn : ℕ
  gen : ℕ
  deriving DecidableEq, Repr

/-- A prologue, with the position that was settled for its site when it
started. -/
inductive MallocPc
  | idle
  | generation (id : CallSiteID) (floor : ℕ)
  | lookup (id : CallSiteID) (floor curGen : ℕ)
  | fill (id : CallSiteID) (floor curGen fn : ℕ)
  | call (id : CallSiteID) (floor fn : ℕ)
  deriving DecidableEq, Repr

/-- A call of `install` or `revert`, with the position of the value it has
stored. -/
inductive UpdatePc
  | idle
  | store (id : CallSiteID) (fn : ℕ)
  | bump (id : CallSiteID) (position : ℕ)
  deriving DecidableEq, Repr

structure State where
  routine : CallSiteID → ℕ
  present : CallSiteID → Bool
  generation : ℕ
  cache : ℕ → Cache
  mallocs : ℕ → MallocPc
  updates : ℕ → UpdatePc
  stores : CallSiteID → List ℕ
  settled : CallSiteID → ℕ

def State.initial : State where
  routine := fun _ => 0
  present := fun _ => false
  generation := 1
  cache := fun _ => ⟨0, 0, 0⟩
  mallocs := fun _ => .idle
  updates := fun _ => .idle
  stores := fun _ => [0]
  settled := fun _ => 0

inductive Action
  | malloc (tid : ℕ) (id : CallSiteID)
  | mallocStep (tid : ℕ)
  | install (call : ℕ) (id : CallSiteID) (fn : ℕ)
  | revert (call : ℕ) (id : CallSiteID)
  | updateStep (call : ℕ)
  deriving DecidableEq, Repr

namespace State

def setMalloc (state : State) (tid : ℕ) (pc : MallocPc) : State :=
  { state with mallocs := Function.update state.mallocs tid pc }

def setUpdate (state : State) (call : ℕ) (pc : UpdatePc) : State :=
  { state with updates := Function.update state.updates call pc }

/-- One access of a prologue.  The cache is the thread's own, so the comparison
belongs to the load of the generation. -/
def mallocStep (state : State) (tid : ℕ) : Option State :=
  match state.mallocs tid with
  | .idle => none
  | .generation id floor =>
      some (state.setMalloc tid
        (if id = (state.cache tid).id ∧
            state.generation = (state.cache tid).gen then
          .call id floor (state.cache tid).fn
        else .lookup id floor state.generation))
  | .lookup id floor curGen =>
      some (state.setMalloc tid (.fill id floor curGen (state.routine id)))
  | .fill id floor curGen fn =>
      some { state.setMalloc tid (.call id floor fn) with
        cache := Function.update state.cache tid ⟨id, fn, curGen⟩ }
  | .call _ _ _ => some (state.setMalloc tid .idle)

/-- One access of an update. -/
def updateStep (state : State) (call : ℕ) : Option State :=
  match state.updates call with
  | .idle => none
  | .store id fn =>
      some { state.setUpdate call (.bump id (state.stores id).length) with
        routine := Function.update state.routine id fn
        present := Function.update state.present id true
        stores := Function.update state.stores id (state.stores id ++ [fn]) }
  | .bump id position =>
      some { state.setUpdate call .idle with
        generation := state.generation + 1
        settled := Function.update state.settled id
          (max (state.settled id) position) }

end State

/-- A revert of a site that was never installed returns without a store. -/
def step (state : State) : Action → Option State
  | .malloc tid id =>
      if state.mallocs tid = .idle then
        some (state.setMalloc tid (.generation id (state.settled id)))
      else none
  | .mallocStep tid => state.mallocStep tid
  | .install call id fn =>
      if state.updates call = .idle then
        some (state.setUpdate call (.store id fn))
      else none
  | .revert call id =>
      if state.updates call = .idle then
        some (if state.present id then state.setUpdate call (.store id 0)
          else state)
      else none
  | .updateStep call => state.updateStep call

/-! ## Freshness -/

/-- The site's pointer has had this value at the settled position or later. -/
def State.HadSince (state : State) (id : CallSiteID) (floor fn : ℕ) : Prop :=
  ∃ position, floor ≤ position ∧ (state.stores id)[position]? = some fn

/-- A value found under a generation is fresh while that generation lasts. -/
def State.FreshUnder (state : State) (gen : ℕ) (id : CallSiteID) (fn : ℕ) :
    Prop :=
  gen ≤ state.generation ∧
    (gen = state.generation → state.HadSince id (state.settled id) fn)

def State.MallocOk (state : State) : MallocPc → Prop
  | .idle => True
  | .generation id floor => floor ≤ state.settled id
  | .lookup id floor curGen =>
      floor ≤ state.settled id ∧ curGen ≤ state.generation
  | .fill id floor curGen fn =>
      state.HadSince id floor fn ∧ state.FreshUnder curGen id fn
  | .call id floor fn => state.HadSince id floor fn

def State.UpdateOk (state : State) : UpdatePc → Prop
  | .bump id position => position < (state.stores id).length
  | _ => True

structure Inv (state : State) : Prop where
  started : 0 < state.generation
  last : ∀ id, (state.stores id).getLast? = some (state.routine id)
  settled_lt : ∀ id, state.settled id < (state.stores id).length
  cache : ∀ tid, (state.cache tid).gen = 0 ∨
    state.FreshUnder (state.cache tid).gen (state.cache tid).id
      (state.cache tid).fn
  malloc : ∀ tid, state.MallocOk (state.mallocs tid)
  update : ∀ call, state.UpdateOk (state.updates call)

theorem inv_initial : Inv .initial where
  started := Nat.one_pos
  last := fun _ => rfl
  settled_lt := fun _ => Nat.one_pos
  cache := fun _ => .inl rfl
  malloc := fun _ => trivial
  update := fun _ => trivial

/-- What later updates do to the history of a site: it grows at its end, and
settles only when the generation moves on. -/
structure Later (state target : State) : Prop where
  grows : ∀ id, state.stores id <+: target.stores id
  settles : ∀ id, state.settled id ≤ target.settled id
  generation : state.generation ≤ target.generation
  steady : state.generation = target.generation →
    target.settled = state.settled

section Steps

variable {state target : State}

theorem State.HadSince.later (hlater : Later state target) {id floor fn : ℕ}
    (hhad : state.HadSince id floor fn) : target.HadSince id floor fn := by
  obtain ⟨position, hfloor, hvalue⟩ := hhad
  obtain ⟨rest, hrest⟩ := hlater.grows id
  have hlt := (List.getElem?_eq_some_iff.mp hvalue).1
  exact ⟨position, hfloor,
    by rw [← hrest, List.getElem?_append_left hlt, hvalue]⟩

theorem State.FreshUnder.later (hlater : Later state target) {gen id fn : ℕ}
    (hfresh : state.FreshUnder gen id fn) : target.FreshUnder gen id fn := by
  refine ⟨hfresh.1.trans hlater.generation, fun hgen => ?_⟩
  have hsame : state.generation = target.generation :=
    le_antisymm hlater.generation (hgen ▸ hfresh.1)
  rw [hlater.steady hsame]
  exact (hfresh.2 (hgen.trans hsame.symm)).later hlater

theorem State.MallocOk.later (hlater : Later state target) {pc : MallocPc}
    (hok : state.MallocOk pc) : target.MallocOk pc := by
  cases pc with
  | idle => trivial
  | generation id floor => exact le_trans hok (hlater.settles id)
  | lookup id floor curGen =>
      exact ⟨hok.1.trans (hlater.settles id), hok.2.trans hlater.generation⟩
  | fill id floor curGen fn =>
      exact ⟨hok.1.later hlater, hok.2.later hlater⟩
  | call id floor fn => exact State.HadSince.later hlater hok

theorem State.UpdateOk.later (hlater : Later state target) {pc : UpdatePc}
    (hok : state.UpdateOk pc) : target.UpdateOk pc := by
  cases pc with
  | bump id position => exact lt_of_lt_of_le hok (hlater.grows id).length_le
  | _ => trivial

/-- The current value of a site is fresh. -/
theorem Inv.hadSince_routine (hinv : Inv state) (id : CallSiteID) :
    state.HadSince id (state.settled id) (state.routine id) := by
  have hlt := hinv.settled_lt id
  refine ⟨(state.stores id).length - 1, by omega, ?_⟩
  rw [← List.getLast?_eq_getElem?, hinv.last id]

theorem State.HadSince.mono {id floor lower fn : ℕ}
    (hhad : state.HadSince id floor fn) (hle : lower ≤ floor) :
    state.HadSince id lower fn := by
  obtain ⟨position, hfloor, hvalue⟩ := hhad
  exact ⟨position, hle.trans hfloor, hvalue⟩

/-- A step of a prologue changes its own counter only, and perhaps its thread's
cache. -/
theorem Inv.setMalloc (hinv : Inv state) {tid : ℕ} {pc : MallocPc}
    (hok : state.MallocOk pc) : Inv (state.setMalloc tid pc) where
  started := hinv.started
  last := hinv.last
  settled_lt := hinv.settled_lt
  cache := hinv.cache
  malloc := by
    intro other
    change State.MallocOk state (Function.update state.mallocs tid pc other)
    by_cases heq : other = tid
    · rwa [heq, Function.update_self]
    · rw [Function.update_of_ne heq]
      exact hinv.malloc other
  update := hinv.update

theorem Inv.mallocStep (hinv : Inv state) {tid : ℕ}
    (hstep : state.mallocStep tid = some target) : Inv target := by
  have hok := hinv.malloc tid
  unfold State.mallocStep at hstep
  split at hstep
  · cases hstep
  · next id floor hpc =>
      rw [hpc] at hok
      obtain rfl := Option.some.inj hstep
      refine hinv.setMalloc ?_
      split
      · next hhit =>
          -- The cached generation is the current one.
          rcases hinv.cache tid with hzero | hfresh
          · have := hinv.started
            omega
          · rw [← hhit.1] at hfresh
            exact (hfresh.2 hhit.2.symm).mono hok
      · exact ⟨hok, le_rfl⟩
  · next id floor curGen hpc =>
      rw [hpc] at hok
      obtain rfl := Option.some.inj hstep
      exact hinv.setMalloc ⟨(hinv.hadSince_routine id).mono hok.1, hok.2,
        fun _ => hinv.hadSince_routine id⟩
  · next id floor curGen fn hpc =>
      rw [hpc] at hok
      obtain rfl := Option.some.inj hstep
      have hset : Inv (state.setMalloc tid (.call id floor fn)) :=
        hinv.setMalloc hok.1
      refine { hset with cache := fun other => ?_ }
      by_cases heq : other = tid
      · rw [heq]
        dsimp only
        rw [Function.update_self]
        exact .inr hok.2
      · dsimp only
        rw [Function.update_of_ne heq]
        exact hinv.cache other
  · obtain rfl := Option.some.inj hstep
    exact hinv.setMalloc trivial

/-- What an update leaves to show: its own counter and the site's last value. -/
theorem Inv.of_later (hinv : Inv state) (hlater : Later state target)
    (hcache : target.cache = state.cache)
    (hmallocs : target.mallocs = state.mallocs)
    (hlast : ∀ id, (target.stores id).getLast? = some (target.routine id))
    (hsettled : ∀ id, target.settled id < (target.stores id).length)
    {call : ℕ} {pc : UpdatePc}
    (hupdates : target.updates = Function.update state.updates call pc)
    (hok : target.UpdateOk pc) : Inv target where
  started := hinv.started.trans_le hlater.generation
  last := hlast
  settled_lt := hsettled
  cache := by
    intro tid
    rw [hcache]
    exact (hinv.cache tid).imp id fun hfresh => hfresh.later hlater
  malloc := by
    intro tid
    rw [hmallocs]
    exact (hinv.malloc tid).later hlater
  update := by
    intro other
    rw [hupdates]
    by_cases heq : other = call
    · rwa [heq, Function.update_self]
    · rw [Function.update_of_ne heq]
      exact (hinv.update other).later hlater

theorem Inv.updateStep (hinv : Inv state) {call : ℕ}
    (hstep : state.updateStep call = some target) : Inv target := by
  have hok := hinv.update call
  unfold State.updateStep at hstep
  split at hstep
  · cases hstep
  · next id fn hpc =>
      obtain rfl := Option.some.inj hstep
      have hgrows : ∀ other, state.stores other <+:
          Function.update state.stores id (state.stores id ++ [fn]) other := by
        intro other
        by_cases heq : other = id
        · rw [heq, Function.update_self]
          exact List.prefix_append _ _
        · rw [Function.update_of_ne heq]
      refine hinv.of_later
        ⟨hgrows, fun _ => le_rfl, le_rfl, fun _ => rfl⟩ rfl rfl (fun other => ?_)
        (fun other => ?_) rfl ?_
      · dsimp only
        by_cases heq : other = id
        · rw [heq, Function.update_self, Function.update_self,
            List.getLast?_concat]
        · rw [Function.update_of_ne heq, Function.update_of_ne heq,
            hinv.last other]
      · exact (hinv.settled_lt other).trans_le (hgrows other).length_le
      · change (state.stores id).length <
          (Function.update state.stores id (state.stores id ++ [fn]) id).length
        rw [Function.update_self, List.length_append, List.length_singleton]
        exact Nat.lt_succ_self _
  · next id position hpc =>
      rw [hpc] at hok
      obtain rfl := Option.some.inj hstep
      refine hinv.of_later ⟨fun _ => List.prefix_rfl, fun other => ?_,
        Nat.le_succ _, fun hsame => ?_⟩ rfl rfl hinv.last (fun other => ?_) rfl
        trivial
      · dsimp only
        by_cases heq : other = id
        · rw [heq, Function.update_self]
          exact le_max_left _ _
        · rw [Function.update_of_ne heq]
      · exact absurd hsame (Nat.lt_succ_self _).ne
      · dsimp only
        by_cases heq : other = id
        · rw [heq, Function.update_self]
          exact max_lt (hinv.settled_lt id) hok
        · rw [Function.update_of_ne heq]
          exact hinv.settled_lt other

theorem Inv.setUpdate (hinv : Inv state) {call : ℕ} {id fn : ℕ} :
    Inv (state.setUpdate call (.store id fn)) :=
  hinv.of_later ⟨fun _ => List.prefix_rfl, fun _ => le_rfl, le_rfl,
    fun _ => rfl⟩ rfl rfl hinv.last hinv.settled_lt rfl trivial

theorem Inv.step (hinv : Inv state) {action : Action}
    (hstep : step state action = some target) : Inv target := by
  cases action with
  | malloc tid id =>
      rw [InlineCache.step] at hstep
      split at hstep
      · obtain rfl := Option.some.inj hstep
        exact hinv.setMalloc le_rfl
      · cases hstep
  | mallocStep tid => exact hinv.mallocStep hstep
  | install call id fn =>
      rw [InlineCache.step] at hstep
      split at hstep
      · obtain rfl := Option.some.inj hstep
        exact hinv.setUpdate
      · cases hstep
  | revert call id =>
      rw [InlineCache.step] at hstep
      split at hstep
      · obtain rfl := Option.some.inj hstep
        split
        · exact hinv.setUpdate
        · exact hinv
      · cases hstep
  | updateStep call => exact hinv.updateStep hstep

end Steps

/-- The inline cache never outlives an update: in every interleaving, the routine
a malloc is about to use was its site's at the position that was settled when
the malloc started, or later. -/
theorem fresh_reachable {state : State}
    (hreach : Reachable step .initial state) {tid floor fn : ℕ}
    {id : CallSiteID} (hcall : state.mallocs tid = .call id floor fn) :
    state.HadSince id floor fn := by
  have hinv : Inv state := hreach.invariant inv_initial
    fun _ _ _ hinv hstep => hinv.step hstep
  have hok := hinv.malloc tid
  rwa [hcall] at hok

/-- A routine is installed, looked up and cached; then it is reverted, and the
next malloc of the same thread finds the revert. -/
def revertSeen : List Action :=
  [.install 0 7 16, .updateStep 0, .updateStep 0,
    .malloc 1 7, .mallocStep 1, .mallocStep 1, .mallocStep 1, .mallocStep 1,
    .revert 2 7, .updateStep 2, .updateStep 2,
    .malloc 1 7, .mallocStep 1, .mallocStep 1, .mallocStep 1]

theorem fresh_revertSeen : ∃ state, Reachable step .initial state ∧
    state.mallocs 1 = .call 7 2 0 ∧ state.HadSince 7 2 0 := by
  have hrun : (run step .initial revertSeen).any
      (fun state => state.mallocs 1 = .call 7 2 0) := by decide
  obtain ⟨state, hstate, hcall⟩ := (Option.any_eq_true _ _).mp hrun
  rw [decide_eq_true_eq] at hcall
  have hreach : Reachable step .initial state := reachable_of_run .start hstate
  exact ⟨state, hreach, hcall, fresh_reachable hreach hcall⟩

end TbjitAlloc.Dispatch.InlineCache
