import TbjitAlloc.Core.Transition

/-!
# The internal arena

The library takes its own memory from one mapping of 4 MiB with a bump cursor:
first the dispatch table, then one ring for every thread that records an event.
The cursor is a plain variable, so taking a ring is a read of the cursor and a
later write, and the default build compiles the bounds assertion out.
-/

namespace TbjitAlloc.Arena

open TbjitAlloc.Transition

/-- `ARENA_SIZE`. -/
def arenaSize : ℕ := 4 * 1024 * 1024

/-- `sizeof(AllocEvent)`: two 32-bit fields, the 64-bit time, the 32-bit thread
id with its padding, and a pointer. -/
def allocEventSize : ℕ := 32

/-- `sizeof(RingBuffer)`: the slots, the two indices and the link. -/
def ringSize : ℕ := 1024 * allocEventSize + 3 * 8

/-- `alignof(RingBuffer)`, and also `alignof(Entry)`. -/
def wordAlign : ℕ := 8

/-- `sizeof(Entry) * TABLE_SIZE` of the dispatch table: a pointer, an id and its
padding in each entry. -/
def tableBytes : ℕ := 16 * 4096

/-- The mapping that `init` makes; `mmap` returns whole pages. -/
structure Mapping where
  base : ℕ
  base_dvd : 4096 ∣ base

def Mapping.stop (mapping : Mapping) : ℕ := mapping.base + arenaSize

/-- The block `alloc` returns when it has read `cursor`. -/
def alignedBlock (cursor align : ℕ) : ℕ :=
  (cursor + align - 1) / align * align

/-- What `alloc` writes back. -/
def nextCursor (cursor size align : ℕ) : ℕ :=
  alignedBlock cursor align + size

/-- A thread's first event: it has read the cursor or not. -/
inductive RingPc
  | idle
  | loaded (cursor : ℕ)
  deriving DecidableEq, Repr

/-- `rings` is the list that starts at `g_ring_head`, newest first, with the owner
of each ring. -/
structure State where
  cursor : ℕ
  pc : ℕ → RingPc
  rings : List (ℕ × ℕ)

inductive Action
  | readCursor (tid : ℕ)
  | writeCursor (tid : ℕ)
  deriving DecidableEq, Repr

/-- Where the dispatch table is. -/
def tableStart (mapping : Mapping) : ℕ := alignedBlock mapping.base wordAlign

/-- The arena after `dispatch::init`. -/
def State.initial (mapping : Mapping) : State where
  cursor := nextCursor mapping.base tableBytes wordAlign
  pc := fun _ => .idle
  rings := []

/-- `get_ring` of a thread without a ring: `alloc` reads the cursor and writes it,
and the new ring is linked. -/
def step (state : State) : Action → Option State
  | .readCursor tid =>
      if state.pc tid = .idle ∧ tid ∉ state.rings.map Prod.fst then
        some { state with
          pc := Function.update state.pc tid (.loaded state.cursor) }
      else none
  | .writeCursor tid =>
      match state.pc tid with
      | .idle => none
      | .loaded cursor =>
          some
            { cursor := nextCursor cursor ringSize wordAlign
              pc := Function.update state.pc tid .idle
              rings := (tid, alignedBlock cursor wordAlign) :: state.rings }

/-- Two blocks have no byte in common. -/
def Apart (left leftSize right rightSize : ℕ) : Prop :=
  left + leftSize ≤ right ∨ right + rightSize ≤ left

instance (left leftSize right rightSize : ℕ) :
    Decidable (Apart left leftSize right rightSize) :=
  inferInstanceAs (Decidable (_ ∨ _))

/-- The rings lie within the arena, apart from the table and from each other. -/
structure RingsOk (mapping : Mapping) (state : State) : Prop where
  within : ∀ ring ∈ state.rings,
    mapping.base ≤ ring.2 ∧ ring.2 + ringSize ≤ mapping.stop
  table : ∀ ring ∈ state.rings,
    Apart (tableStart mapping) tableBytes ring.2 ringSize
  disjoint : state.rings.Pairwise fun newer older =>
    Apart newer.2 ringSize older.2 ringSize

/-- The number of rings for which the arena has room behind the table. -/
def ringCapacity : ℕ := 125

/-- The condition under which every thread gets its ring: the cursor is read only
while no thread is between its read and its write, and by no more than
`ringCapacity` threads. -/
def Orderly (state : State) : Action → Prop
  | .readCursor _ =>
      (∀ other, state.pc other = .idle) ∧ state.rings.length < ringCapacity
  | .writeCursor _ => True

section Layout

variable {mapping : Mapping}

theorem tableStart_eq (mapping : Mapping) : tableStart mapping = mapping.base := by
  obtain ⟨pages, hpages⟩ := mapping.base_dvd
  rw [tableStart, alignedBlock, wordAlign, hpages]
  omega

theorem initial_cursor (mapping : Mapping) :
    (State.initial mapping).cursor = mapping.base + tableBytes := by
  change tableStart mapping + tableBytes = _
  rw [tableStart_eq]

/-- Rings follow the table without gaps. -/
theorem alignedBlock_ring (mapping : Mapping) (count : ℕ) :
    alignedBlock (mapping.base + tableBytes + count * ringSize) wordAlign =
      mapping.base + tableBytes + count * ringSize := by
  obtain ⟨pages, hpages⟩ := mapping.base_dvd
  rw [hpages]
  unfold alignedBlock wordAlign tableBytes ringSize allocEventSize
  omega

/-- The arena holds `ringCapacity` rings and no more. -/
theorem rings_fit (mapping : Mapping) (count : ℕ) :
    mapping.base + tableBytes + count * ringSize ≤ mapping.stop ↔
      count ≤ ringCapacity := by
  unfold Mapping.stop arenaSize tableBytes ringSize allocEventSize ringCapacity
  omega

end Layout

/-- What orderly runs keep: the rings fill the arena from the table to the
cursor, and at most one thread has read it. -/
structure Inv (mapping : Mapping) (state : State) : Prop where
  cursor_eq : state.cursor =
    mapping.base + tableBytes + state.rings.length * ringSize
  count_le : state.rings.length ≤ ringCapacity
  above : ∀ ring ∈ state.rings, mapping.base + tableBytes ≤ ring.2
  below : ∀ ring ∈ state.rings, ring.2 + ringSize ≤ state.cursor
  disjoint : state.rings.Pairwise fun newer older =>
    Apart newer.2 ringSize older.2 ringSize
  loaded : ∀ tid cursor, state.pc tid = .loaded cursor →
    cursor = state.cursor ∧ state.rings.length < ringCapacity ∧
      ∀ other, other ≠ tid → state.pc other = .idle

section Steps

variable {mapping : Mapping} {state target : State}

theorem inv_initial (mapping : Mapping) : Inv mapping (.initial mapping) where
  cursor_eq := by
    change _ = mapping.base + tableBytes + 0 * ringSize
    rw [initial_cursor, Nat.zero_mul, add_zero]
  count_le := Nat.zero_le _
  above := fun _ h => absurd h List.not_mem_nil
  below := fun _ h => absurd h List.not_mem_nil
  disjoint := .nil
  loaded := by
    intro tid cursor h
    cases h

theorem Inv.step (hinv : Inv mapping state) {action : Action}
    (horderly : Orderly state action) (hstep : step state action = some target) :
    Inv mapping target := by
  cases action with
  | readCursor tid =>
      obtain ⟨hidle, hroom⟩ := horderly
      rw [Arena.step] at hstep
      split at hstep
      swap
      · cases hstep
      obtain rfl := Option.some.inj hstep
      refine { hinv with loaded := fun other cursor hother => ?_ }
      dsimp only at hother ⊢
      by_cases heq : other = tid
      · subst heq
        rw [Function.update_self] at hother
        refine ⟨(RingPc.loaded.inj hother).symm, hroom, fun third hne => ?_⟩
        rw [Function.update_of_ne hne, hidle third]
      · rw [Function.update_of_ne heq, hidle other] at hother
        cases hother
  | writeCursor tid =>
      rw [Arena.step] at hstep
      split at hstep
      · cases hstep
      · next cursor hpc =>
          obtain ⟨rfl, hroom, halone⟩ := hinv.loaded tid cursor hpc
          obtain rfl := Option.some.inj hstep
          have hblock : alignedBlock state.cursor wordAlign = state.cursor := by
            rw [hinv.cursor_eq, alignedBlock_ring]
          have hnext : nextCursor state.cursor ringSize wordAlign =
              state.cursor + ringSize := by
            rw [nextCursor, hblock]
          rw [hblock, hnext]
          have hbase : mapping.base + tableBytes ≤ state.cursor := by
            rw [hinv.cursor_eq]
            exact Nat.le_add_right _ _
          constructor <;> dsimp only
          · rw [List.length_cons, Nat.succ_mul, ← add_assoc, hinv.cursor_eq]
          · exact hroom
          · intro ring hring
            rcases List.mem_cons.mp hring with rfl | hold
            · exact hbase
            · exact hinv.above ring hold
          · intro ring hring
            rcases List.mem_cons.mp hring with rfl | hold
            · exact le_rfl
            · exact (hinv.below ring hold).trans (Nat.le_add_right _ _)
          · exact .cons (fun older holder => .inr (hinv.below older holder))
              hinv.disjoint
          · intro other cursor hother
            by_cases heq : other = tid
            · rw [heq, Function.update_self] at hother
              cases hother
            · rw [Function.update_of_ne heq, halone other heq] at hother
              cases hother

theorem Inv.ringsOk (hinv : Inv mapping state) : RingsOk mapping state where
  within := by
    intro ring hring
    have habove := hinv.above ring hring
    have hbelow := hinv.below ring hring
    have hstop := (rings_fit mapping state.rings.length).mpr hinv.count_le
    rw [← hinv.cursor_eq] at hstop
    exact ⟨le_trans (Nat.le_add_right _ _) habove, hbelow.trans hstop⟩
  table := by
    intro ring hring
    rw [tableStart_eq]
    exact .inl (hinv.above ring hring)
  disjoint := hinv.disjoint

end Steps

/-- In every orderly run all rings lie in the arena, apart from the table and
from each other. -/
theorem ringsOk_reachable (mapping : Mapping) {state : State}
    (hreach : ReachableWhen step Orderly (.initial mapping) state) :
    RingsOk mapping state := by
  have hinv : Inv mapping state := hreach.invariant (inv_initial mapping)
    fun _ _ _ hinv horderly hstep => hinv.step horderly hstep
  exact hinv.ringsOk

/-! ## Runs that are not orderly -/

/-- No thread reads the cursor while another is about to write it. -/
def OneAtATime (state : State) : Action → Prop
  | .readCursor _ => ∀ other, state.pc other = .idle
  | .writeCursor _ => True

/-- The arena after an undisturbed first event of a thread. -/
def State.takeRing (state : State) (tid : ℕ) : State :=
  { state with
    cursor := nextCursor state.cursor ringSize wordAlign
    rings := (tid, alignedBlock state.cursor wordAlign) :: state.rings }

theorem step_takeRing {state : State} {tid : ℕ} (hidle : state.pc tid = .idle)
    (hfresh : tid ∉ state.rings.map Prod.fst) :
    ∃ middle, step state (.readCursor tid) = some middle ∧
      step middle (.writeCursor tid) = some (state.takeRing tid) := by
  refine ⟨_, if_pos ⟨hidle, hfresh⟩, ?_⟩
  have hpc : Function.update (Function.update state.pc tid
      (.loaded state.cursor)) tid .idle = state.pc := by
    rw [Function.update_idem, ← hidle, Function.update_eq_self]
  simp only [step, Function.update_self, hpc, State.takeRing]

/-- Any number of threads can record their first event one after another. -/
theorem exists_sequential (mapping : Mapping) (count : ℕ) :
    ∃ state, ReachableWhen step OneAtATime (.initial mapping) state ∧
      (∀ tid, state.pc tid = .idle) ∧
      (∀ ring ∈ state.rings, ring.1 < count) ∧
      state.cursor = mapping.base + tableBytes + count * ringSize ∧
      (0 < count → ∃ ring ∈ state.rings,
        ring.2 + ringSize = state.cursor) := by
  induction count with
  | zero =>
      refine ⟨.initial mapping, .start, fun _ => rfl,
        fun _ h => absurd h List.not_mem_nil, ?_, fun h => absurd h (by decide)⟩
      rw [initial_cursor, Nat.zero_mul, add_zero]
  | succ count ih =>
      obtain ⟨state, hreach, hidle, howners, hcursor, -⟩ := ih
      have hfresh : count ∉ state.rings.map Prod.fst := by
        intro hmem
        obtain ⟨ring, hring, heq⟩ := List.mem_map.mp hmem
        exact absurd (howners ring hring) (by omega)
      obtain ⟨middle, hread, hwrite⟩ := step_takeRing (hidle count) hfresh
      have halone : OneAtATime state (.readCursor count) := hidle
      refine ⟨state.takeRing count,
        .act (.writeCursor count) (.next hreach halone hread) trivial hwrite,
        hidle, fun ring hring => ?_, ?_, fun _ => ⟨_, List.mem_cons_self, rfl⟩⟩
      · rcases List.mem_cons.mp hring with rfl | hold
        · exact Nat.lt_succ_self _
        · exact Nat.lt_succ_of_lt (howners ring hold)
      · change nextCursor state.cursor ringSize wordAlign = _
        rw [nextCursor, hcursor, alignedBlock_ring, Nat.succ_mul, add_assoc]

/-- Two threads that read the cursor before either writes it. -/
def crossing : List Action :=
  [.readCursor 0, .readCursor 1, .writeCursor 0, .writeCursor 1]

/-- Two crossing threads share a ring, and even one at a time the threads can
exhaust the arena. -/
theorem not_ringsOk_reachable :
    (¬∀ state, Reachable step (.initial ⟨4096, dvd_rfl⟩) state →
        RingsOk ⟨4096, dvd_rfl⟩ state) ∧
      ¬∀ state, ReachableWhen step OneAtATime (.initial ⟨4096, dvd_rfl⟩) state →
        RingsOk ⟨4096, dvd_rfl⟩ state := by
  constructor
  · intro hall
    have hrun : (run step (.initial ⟨4096, dvd_rfl⟩) crossing).any
        (fun state => state.rings = [(1, 69632), (0, 69632)]) := by decide
    obtain ⟨state, hstate, hrings⟩ := (Option.any_eq_true _ _).mp hrun
    rw [decide_eq_true_eq] at hrings
    have hok := hall state (reachable_of_run .start hstate)
    have hapart := hok.disjoint
    rw [hrings, List.pairwise_pair] at hapart
    exact absurd hapart (by decide)
  · intro hall
    obtain ⟨state, hreach, -, -, hcursor, hlast⟩ :=
      exists_sequential ⟨4096, dvd_rfl⟩ (ringCapacity + 1)
    obtain ⟨ring, hring, hend⟩ := hlast (Nat.succ_pos _)
    have hwithin := ((hall state hreach).within ring hring).2
    rw [hend, hcursor, rings_fit] at hwithin
    exact absurd hwithin (Nat.not_succ_le_self _)

/-- Two threads that take turns. -/
theorem ringsOk_turns : ∃ state,
    ReachableWhen step Orderly (.initial ⟨4096, dvd_rfl⟩) state ∧
      state.rings = [(1, 102424), (0, 69632)] ∧
      RingsOk ⟨4096, dvd_rfl⟩ state := by
  obtain ⟨first, hread, hwrite⟩ := @step_takeRing
    (.initial ⟨4096, dvd_rfl⟩) 0 rfl List.not_mem_nil
  obtain ⟨second, hread', hwrite'⟩ := @step_takeRing
    ((State.initial ⟨4096, dvd_rfl⟩).takeRing 0) 1 rfl (by decide)
  have hreach : ReachableWhen step Orderly (.initial ⟨4096, dvd_rfl⟩)
      (((State.initial ⟨4096, dvd_rfl⟩).takeRing 0).takeRing 1) :=
    .act (.writeCursor 1)
      (.act (.readCursor 1)
        (.act (.writeCursor 0)
          (.act (.readCursor 0) .start ⟨fun _ => rfl, by decide⟩ hread)
          trivial hwrite)
        ⟨fun _ => rfl, by decide⟩ hread')
      trivial hwrite'
  exact ⟨_, hreach, rfl, ringsOk_reachable _ hreach⟩

end TbjitAlloc.Arena
