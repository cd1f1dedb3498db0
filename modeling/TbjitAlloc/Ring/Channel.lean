import TbjitAlloc.Common
import TbjitAlloc.Core.Transition

/-!
# The trace ring

Every thread records its events in a ring of its own, which the background
thread drains.  A push and a pop are four accesses each to the shared indices and
slots, and the two sides interleave in any way.  The indices are free-running
64-bit counters.  `offered`, `pushed`, `popped` and `drops` are history: no step
reads them.
-/

namespace TbjitAlloc.Ring

open TbjitAlloc.Transition

/-- `RingBuffer::CAPACITY`. -/
def capacity : ℕ := 1024

structure RingBuffer where
  slots : ℕ → AllocEvent
  head : ℕ
  tail : ℕ

/-- A call of `push`, by what it has loaded so far. -/
inductive PushPc
  | idle
  | loadTail (event : AllocEvent) (head : ℕ)
  | writeSlot (event : AllocEvent) (head : ℕ) (wasEmpty : Bool)
  | storeHead (event : AllocEvent) (head : ℕ) (wasEmpty : Bool)
  deriving DecidableEq, Repr

/-- A call of `pop`. -/
inductive PopPc
  | idle
  | loadHead (tail : ℕ)
  | readSlot (tail : ℕ)
  | storeTail (tail : ℕ) (event : AllocEvent)
  deriving DecidableEq, Repr

/-- A ring with its two users.  `offered` holds the events `push` was called
with, and `drops`, for each event given up, how many were pending when the tail
was read. -/
structure Channel where
  ring : RingBuffer
  push : PushPc
  pop : PopPc
  offered : List AllocEvent
  pushed : List AllocEvent
  popped : List AllocEvent
  drops : List ℕ

def Channel.initial : Channel where
  ring := ⟨fun _ => ⟨0, 0, 0, 0⟩, 0, 0⟩
  push := .idle
  pop := .idle
  offered := []
  pushed := []
  popped := []
  drops := []

/-- A 64-bit difference. -/
def sub64 (left right : ℕ) : ℕ :=
  (left + 2 ^ 64 - right) % 2 ^ 64

namespace Channel

def isEmpty (channel : Channel) : Bool :=
  channel.ring.head = channel.ring.tail

/-- The number of events pushed and not popped. -/
def pending (channel : Channel) : ℕ :=
  channel.pushed.length - channel.popped.length

/-- The call of `push` and its load of the head. -/
def startPush (channel : Channel) (event : AllocEvent) : Option Channel :=
  if channel.push = .idle then
    some
      { channel with
        push := .loadTail event channel.ring.head
        offered := channel.offered ++ [event] }
  else none

/-- The next access of `push`, with its result when it returns. -/
def stepPush (channel : Channel) : Option (Channel × Option Bool) :=
  match channel.push with
  | .idle => none
  | .loadTail event head =>
      if capacity ≤ sub64 head channel.ring.tail then
        some
          ({ channel with
            push := .idle
            drops := channel.pending :: channel.drops }, some false)
      else
        some
          ({ channel with
            push := .writeSlot event head (head = channel.ring.tail) }, none)
  | .writeSlot event head wasEmpty =>
      some
        ({ channel with
          ring := { channel.ring with
            slots := Function.update channel.ring.slots (head % capacity)
              event }
          push := .storeHead event head wasEmpty }, none)
  | .storeHead event head wasEmpty =>
      some
        ({ channel with
          ring := { channel.ring with head := (head + 1) % 2 ^ 64 }
          push := .idle
          pushed := channel.pushed ++ [event] }, some wasEmpty)

/-- The next access of `pop`, with its result when it returns. -/
def stepPop (channel : Channel) : Channel × Option (Option AllocEvent) :=
  match channel.pop with
  | .idle => ({ channel with pop := .loadHead channel.ring.tail }, none)
  | .loadHead tail =>
      if tail = channel.ring.head then
        ({ channel with pop := .idle }, some none)
      else ({ channel with pop := .readSlot tail }, none)
  | .readSlot tail =>
      ({ channel with
        pop := .storeTail tail (channel.ring.slots (tail % capacity)) }, none)
  | .storeTail tail event =>
      ({ channel with
        ring := { channel.ring with tail := (tail + 1) % 2 ^ 64 }
        pop := .idle
        popped := channel.popped ++ [event] }, some (some event))

end Channel

inductive Action
  | startPush (event : AllocEvent)
  | stepPush
  | stepPop
  deriving DecidableEq, Repr

def step (channel : Channel) : Action → Option Channel
  | .startPush event => channel.startPush event
  | .stepPush => channel.stepPush.map Prod.fst
  | .stepPop => some channel.stepPop.1

/-! ## What holds in every interleaving -/

/-- What a push knows: its head is the ring's, and once it has tested the tail
there is room, since the other side only makes more. -/
def PushOk (channel : Channel) : Prop :=
  match channel.push with
  | .idle => True
  | .loadTail _ head => head = channel.ring.head
  | .writeSlot _ head _ =>
      head = channel.ring.head ∧
        channel.pushed.length < channel.popped.length + capacity
  | .storeHead event head _ =>
      head = channel.ring.head ∧
        channel.pushed.length < channel.popped.length + capacity ∧
        channel.ring.slots (channel.pushed.length % capacity) = event

/-- What a pop knows: its tail is the ring's, and once it has tested the head
there is an event. -/
def PopOk (channel : Channel) : Prop :=
  match channel.pop with
  | .idle => True
  | .loadHead tail => tail = channel.ring.tail
  | .readSlot tail =>
      tail = channel.ring.tail ∧
        channel.popped.length < channel.pushed.length
  | .storeTail tail event =>
      tail = channel.ring.tail ∧
        channel.pushed[channel.popped.length]? = some event

/-- The event a push has in hand. -/
def PushPc.event : PushPc → Option AllocEvent
  | .idle => none
  | .loadTail event _ => some event
  | .writeSlot event _ _ => some event
  | .storeHead event _ _ => some event

/-- Every event offered was pushed or dropped, except the one in hand. -/
def Accounted (channel : Channel) : Prop :=
  ∃ settled, channel.offered = settled ++ channel.push.event.toList ∧
    channel.pushed.Sublist settled ∧
    settled.length = channel.pushed.length + channel.drops.length

structure Inv (channel : Channel) : Prop where
  head_eq : channel.ring.head = channel.pushed.length % 2 ^ 64
  tail_eq : channel.ring.tail = channel.popped.length % 2 ^ 64
  le : channel.popped.length ≤ channel.pushed.length
  bound : channel.pushed.length ≤ channel.popped.length + capacity
  order : channel.popped <+: channel.pushed
  content : ∀ index event, channel.popped.length ≤ index →
    channel.pushed[index]? = some event →
      channel.ring.slots (index % capacity) = event
  push_ok : PushOk channel
  pop_ok : PopOk channel
  full : ∀ count ∈ channel.drops, count = capacity
  accounted : Accounted channel

theorem inv_initial : Inv .initial where
  head_eq := rfl
  tail_eq := rfl
  le := le_rfl
  bound := Nat.zero_le _
  order := List.prefix_rfl
  content := by
    intro index event _ hevent
    cases hevent
  push_ok := trivial
  pop_ok := trivial
  full := fun _ h => absurd h List.not_mem_nil
  accounted := ⟨[], rfl, .slnil, rfl⟩

/-- A wrapped counter names the same slot. -/
theorem mod_capacity (count : ℕ) : count % 2 ^ 64 % capacity = count % capacity :=
  Nat.mod_mod_of_dvd count (by decide)

/-- Fewer than `capacity` consecutive events have distinct slots. -/
theorem slot_ne {left right : ℕ} (hlt : left < right)
    (hnear : right < left + capacity) : left % capacity ≠ right % capacity := by
  unfold capacity at *
  omega

section Steps

variable {channel : Channel}

/-- The difference of the counters is the number of pending events. -/
theorem Inv.sub64_eq (hinv : Inv channel) :
    sub64 channel.ring.head channel.ring.tail = channel.pending := by
  have hle := hinv.le
  have hbound := hinv.bound
  rw [hinv.head_eq, hinv.tail_eq, sub64, Channel.pending]
  unfold capacity at hbound
  omega

/-- Equal counters mean an empty ring. -/
theorem Inv.head_eq_tail_iff (hinv : Inv channel) :
    channel.ring.head = channel.ring.tail ↔
      channel.pushed.length = channel.popped.length := by
  have hle := hinv.le
  have hbound := hinv.bound
  rw [hinv.head_eq, hinv.tail_eq]
  unfold capacity at hbound
  omega

theorem Inv.isEmpty_iff (hinv : Inv channel) :
    channel.isEmpty = true ↔ channel.pushed.length = channel.popped.length := by
  rw [Channel.isEmpty, decide_eq_true_eq, hinv.head_eq_tail_iff]

theorem Inv.startPush (hinv : Inv channel) {event : AllocEvent}
    {target : Channel} (hstep : channel.startPush event = some target) :
    Inv target := by
  unfold Channel.startPush at hstep
  split at hstep
  · next hidle =>
      obtain rfl := Option.some.inj hstep
      obtain ⟨settled, hoffered, hpushed, hlength⟩ := hinv.accounted
      rw [hidle, PushPc.event, Option.toList_none, List.append_nil] at hoffered
      exact { hinv with
        push_ok := rfl
        accounted := ⟨settled, by rw [hoffered]; rfl, hpushed, hlength⟩ }
  · cases hstep

theorem Inv.stepPush (hinv : Inv channel) {target : Channel}
    {result : Option Bool} (hstep : channel.stepPush = some (target, result)) :
    Inv target := by
  have hpush := hinv.push_ok
  obtain ⟨settled, hoffered, hpushed, hlength⟩ := hinv.accounted
  unfold Channel.stepPush at hstep
  unfold PushOk at hpush
  split at hstep
  · cases hstep
  · next event head hpc =>
      rw [hpc] at hpush hoffered
      dsimp only at hpush
      subst hpush
      rw [hinv.sub64_eq] at hstep
      split at hstep
      · next hfull =>
          obtain ⟨rfl, -⟩ := Prod.mk.inj (Option.some.inj hstep)
          refine { hinv with
            push_ok := trivial
            full := fun count hcount => ?_
            accounted := ⟨settled ++ [event], ?_,
              hpushed.trans (List.sublist_append_left _ _), ?_⟩ }
          · rcases List.mem_cons.mp hcount with rfl | hold
            · have hbound := hinv.bound
              rw [Channel.pending] at hfull ⊢
              omega
            · exact hinv.full count hold
          · exact hoffered.trans (List.append_nil _).symm
          · rw [List.length_append, List.length_singleton, List.length_cons,
              hlength, add_assoc]
      · next hroom =>
          obtain ⟨rfl, -⟩ := Prod.mk.inj (Option.some.inj hstep)
          refine { hinv with
            push_ok := ⟨rfl, ?_⟩
            accounted := ⟨settled, hoffered, hpushed, hlength⟩ }
          rw [Channel.pending] at hroom
          dsimp only
          omega
  · next event head wasEmpty hpc =>
      rw [hpc] at hpush hoffered
      obtain ⟨hhead, hroom⟩ := hpush
      obtain ⟨rfl, -⟩ := Prod.mk.inj (Option.some.inj hstep)
      have hslot : head % capacity = channel.pushed.length % capacity := by
        rw [hhead, hinv.head_eq, mod_capacity]
      refine { hinv with
        content := fun index other hindex hother => ?_
        push_ok := ⟨hhead, hroom, ?_⟩
        accounted := ⟨settled, hoffered, hpushed, hlength⟩ }
      · -- No pending event is in the slot that is written.
        have hlt : index < channel.pushed.length :=
          (List.getElem?_eq_some_iff.mp hother).1
        have hne : index % capacity ≠ head % capacity := by
          rw [hslot]
          exact slot_ne hlt (by dsimp only at hindex; omega)
        dsimp only
        rw [Function.update_of_ne hne]
        exact hinv.content index other hindex hother
      · dsimp only
        rw [← hslot, Function.update_self]
  · next event head wasEmpty hpc =>
      rw [hpc] at hpush hoffered
      obtain ⟨hhead, hroom, hevent⟩ := hpush
      obtain ⟨rfl, -⟩ := Prod.mk.inj (Option.some.inj hstep)
      have hgrown : (channel.pushed ++ [event]).length =
          channel.pushed.length + 1 := by
        rw [List.length_append, List.length_singleton]
      refine
        { head_eq := ?_
          tail_eq := hinv.tail_eq
          le := by rw [hgrown]; exact Nat.le_succ_of_le hinv.le
          bound := by rw [hgrown]; exact hroom
          order := hinv.order.trans (List.prefix_append _ _)
          content := fun index other hindex hother => ?_
          push_ok := trivial
          pop_ok := ?_
          full := hinv.full
          accounted := ⟨settled ++ [event],
            hoffered.trans (List.append_nil _).symm, hpushed.append_right _, ?_⟩ }
      · dsimp only
        rw [hgrown, hhead, hinv.head_eq, Nat.mod_add_mod]
      · dsimp only at hindex hother ⊢
        rcases Nat.lt_or_ge index channel.pushed.length with hlt | hge
        · rw [List.getElem?_append_left hlt] at hother
          exact hinv.content index other hindex hother
        · have hlast : index = channel.pushed.length := by
            have := (List.getElem?_eq_some_iff.mp hother).1
            omega
          rw [hlast, List.getElem?_concat_length, Option.some.injEq] at hother
          rw [hlast, hevent, hother]
      · have hpop := hinv.pop_ok
        unfold PopOk at hpop ⊢
        dsimp only
        split
        · trivial
        · next hpc => rwa [hpc] at hpop
        · next hpc =>
            rw [hpc] at hpop
            exact ⟨hpop.1, by rw [hgrown]; exact Nat.lt_succ_of_lt hpop.2⟩
        · next hpc =>
            rw [hpc] at hpop
            exact ⟨hpop.1, List.getElem?_append_left
              (List.getElem?_eq_some_iff.mp hpop.2).1 ▸ hpop.2⟩
      · rw [hgrown, List.length_append, List.length_singleton, hlength]
        exact Nat.add_right_comm _ _ _

/-- A push that has tested the tail keeps its room when an event is taken. -/
theorem PushOk.storeTail (hpush : PushOk channel) (tail : ℕ)
    (event : AllocEvent) :
    PushOk { channel with
      ring := { channel.ring with tail := tail }
      pop := .idle
      popped := channel.popped ++ [event] } := by
  unfold PushOk at hpush ⊢
  dsimp only
  rw [List.length_append, List.length_singleton]
  split
  · trivial
  · next hpc => rwa [hpc] at hpush
  · next hpc =>
      rw [hpc] at hpush
      exact ⟨hpush.1, by omega⟩
  · next hpc =>
      rw [hpc] at hpush
      exact ⟨hpush.1, by omega, hpush.2.2⟩

theorem Inv.stepPop (hinv : Inv channel) : Inv channel.stepPop.1 := by
  have hpop := hinv.pop_ok
  unfold Channel.stepPop
  unfold PopOk at hpop
  split
  · exact { hinv with pop_ok := rfl }
  · next tail hpc =>
      rw [hpc] at hpop
      dsimp only at hpop
      split
      · exact { hinv with pop_ok := trivial }
      · next hne =>
          refine { hinv with pop_ok := ⟨hpop, ?_⟩ }
          rw [hpop, eq_comm, hinv.head_eq_tail_iff] at hne
          exact lt_of_le_of_ne hinv.le (Ne.symm hne)
  · next tail hpc =>
      rw [hpc] at hpop
      obtain ⟨htail, hlt⟩ := hpop
      refine { hinv with pop_ok := ⟨htail, ?_⟩ }
      dsimp only
      obtain ⟨event, hevent⟩ :
          ∃ event, channel.pushed[channel.popped.length]? = some event :=
        ⟨_, List.getElem?_eq_getElem hlt⟩
      rw [htail, hinv.tail_eq, mod_capacity,
        hinv.content _ event le_rfl hevent, hevent]
  · next tail event hpc =>
      rw [hpc] at hpop
      obtain ⟨htail, hevent⟩ := hpop
      have hlt := (List.getElem?_eq_some_iff.mp hevent).1
      have hlength : (channel.popped ++ [event]).length =
          channel.popped.length + 1 := by
        rw [List.length_append, List.length_singleton]
      exact
        { head_eq := hinv.head_eq
          tail_eq := by
            dsimp only
            rw [hlength, htail, hinv.tail_eq, Nat.mod_add_mod]
          le := by rw [hlength]; exact hlt
          bound := by
            rw [hlength]
            exact hinv.bound.trans (Nat.add_le_add_right (Nat.le_succ _) _)
          order := by
            obtain ⟨rest, hrest⟩ := hinv.order
            rw [← hrest, List.getElem?_append_right le_rfl,
              Nat.sub_self] at hevent
            obtain ⟨others, rfl⟩ := List.head?_eq_some_iff.mp
              (List.head?_eq_getElem? ▸ hevent)
            exact ⟨others, by rw [← hrest]; simp⟩
          content := fun index other hindex hother =>
            hinv.content index other
              (by rw [hlength] at hindex; omega) hother
          push_ok := hinv.push_ok.storeTail _ event
          pop_ok := trivial
          full := hinv.full
          accounted := hinv.accounted }

theorem Inv.step (hinv : Inv channel) {action : Action} {target : Channel}
    (hstep : step channel action = some target) : Inv target := by
  cases action with
  | startPush event => exact hinv.startPush hstep
  | stepPush =>
      obtain ⟨⟨next, result⟩, hnext, rfl⟩ := Option.map_eq_some_iff.mp hstep
      exact hinv.stepPush hnext
  | stepPop =>
      obtain rfl := Option.some.inj hstep
      exact hinv.stepPop

end Steps

theorem inv_of_reachable {channel : Channel}
    (hreach : Reachable step .initial channel) : Inv channel :=
  hreach.invariant inv_initial fun _ _ _ hinv hstep => hinv.step hstep

/-- In every interleaving the popped events are the first of the pushed ones, at
most `capacity` are pending, and an event is dropped only when that many are.
The pushed events are the offered ones less those dropped or still in hand. -/
theorem fifo_reachable {channel : Channel}
    (hreach : Reachable step .initial channel) :
    channel.popped <+: channel.pushed ∧
      channel.pending ≤ capacity ∧
      (∀ count ∈ channel.drops, count = capacity) ∧
      channel.pushed.Sublist channel.offered ∧
      channel.offered.length = channel.pushed.length + channel.drops.length +
        channel.push.event.toList.length := by
  have hinv := inv_of_reachable hreach
  obtain ⟨settled, hoffered, hpushed, hlength⟩ := hinv.accounted
  refine ⟨hinv.order, ?_, hinv.full, ?_, ?_⟩
  · have hbound := hinv.bound
    rw [Channel.pending]
    omega
  · rw [hoffered]
    exact hpushed.trans (List.sublist_append_left _ _)
  · rw [hoffered, List.length_append, hlength]

/-- A push whose head is stored between the pop's two loads. -/
def interleaved : List Action :=
  [.startPush ⟨7, 48, 1, 4096⟩, .stepPush, .stepPop, .stepPush, .stepPush,
    .stepPop, .stepPop, .stepPop]

theorem fifo_interleaved :
    (run step .initial interleaved).any
        (fun channel => channel.popped = [⟨7, 48, 1, 4096⟩]) ∧
      ∃ channel, run step .initial interleaved = some channel ∧
        channel.popped <+: channel.pushed := by
  have hrun : (run step .initial interleaved).any
      (fun channel => channel.popped = [⟨7, 48, 1, 4096⟩]) := by decide
  obtain ⟨channel, hchannel, -⟩ := (Option.any_eq_true _ _).mp hrun
  exact ⟨hrun, channel, hchannel,
    (fifo_reachable (reachable_of_run .start hchannel)).1⟩

end TbjitAlloc.Ring
