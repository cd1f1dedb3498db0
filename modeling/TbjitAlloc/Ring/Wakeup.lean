import TbjitAlloc.Ring.Channel

/-!
# Parking the background thread

The background thread drains every ring and parks on a futex word when it finds
nothing for a while.  A producer whose push reports that the ring was empty
reads the word and wakes the thread if it has announced that it sleeps.  Each
access to an index, a slot or the word and each system call is a step.  The
waits of the back-off and the time limit of the futex are left to chance.
-/

namespace TbjitAlloc.Ring

open TbjitAlloc.Transition

inductive FutexState
  | awake
  | sleeping
  deriving DecidableEq, Repr

/-- A call of `notify_if_sleeping`: it loads the word, and if that says sleeping
stores that it is awake and makes the wake-up call. -/
inductive NotifyPc
  | idle
  | load
  | storeAwake
  | wake
  deriving DecidableEq, Repr

/-- Where the background thread is: in `drain_all`, with the rings that are still
to be drained; before the exchange, before the wait, inside it, or behind it in
`futex_wait`. -/
inductive Background
  | drain (found : Bool) (rest : List ℕ)
  | announce
  | wait
  | blocked
  | storeAwake
  deriving DecidableEq, Repr

/-- A ring belongs to one thread and is named by it.  `rings` is the list that
`ring_head` starts, newest first. -/
structure System where
  channels : ℕ → Channel
  notify : ℕ → NotifyPc
  rings : List ℕ
  word : FutexState
  background : Background

def System.initial : System where
  channels := fun _ => .initial
  notify := fun _ => .idle
  rings := []
  word := .awake
  background := .drain false []

inductive Move
  | register (tid : ℕ)
  | push (tid : ℕ) (event : AllocEvent)
  | pushStep (tid : ℕ)
  | notifyStep (tid : ℕ)
  | background (park : Bool)
  | timeout
  deriving DecidableEq, Repr

/-- Every move but those of the background thread. -/
def Move.elsewhere : Move → Bool
  | .background _ => false
  | _ => true

namespace System

def setChannel (sys : System) (tid : ℕ) (channel : Channel) : System :=
  { sys with channels := Function.update sys.channels tid channel }

def setNotify (sys : System) (tid : ℕ) (pc : NotifyPc) : System :=
  { sys with notify := Function.update sys.notify tid pc }

/-- A push that returns true goes on to `notify_if_sleeping`. -/
def pushStep (sys : System) (tid : ℕ) : Option System :=
  (sys.channels tid).stepPush.map fun outcome =>
    let next := sys.setChannel tid outcome.1
    if outcome.2 = some true then next.setNotify tid .load else next

def notifyStep (sys : System) (tid : ℕ) : Option System :=
  match sys.notify tid with
  | .idle => none
  | .load =>
      some (sys.setNotify tid
        (if sys.word = .sleeping then .storeAwake else .idle))
  | .storeAwake => some { sys.setNotify tid .wake with word := .awake }
  | .wake =>
      some { sys.setNotify tid .idle with
        background :=
          if sys.background = .blocked then .storeAwake else sys.background }

/-- One access of `drain_all` to the ring it has come to. -/
def drainStep (sys : System) (found : Bool) (tid : ℕ) (rest : List ℕ) :
    System :=
  let outcome := (sys.channels tid).stepPop
  { sys.setChannel tid outcome.1 with
    background :=
      match outcome.2 with
      | none => .drain found (tid :: rest)
      | some none => .drain found rest
      | some (some _) => .drain true (tid :: rest) }

/-- The background thread.  `park` says that the back-off has reached its end. -/
def backgroundStep (sys : System) (park : Bool) : Option System :=
  match sys.background with
  | .drain found [] =>
      some { sys with
        background :=
          if found = false ∧ park then .announce else .drain false sys.rings }
  | .drain found (tid :: rest) => some (sys.drainStep found tid rest)
  | .announce => some { sys with word := .sleeping, background := .wait }
  | .wait =>
      some { sys with
        background := if sys.word = .sleeping then .blocked else .storeAwake }
  | .blocked => none
  | .storeAwake =>
      some { sys with word := .awake, background := .drain false sys.rings }

def step (sys : System) : Move → Option System
  | .register tid =>
      if tid ∈ sys.rings then none
      else some { sys with rings := tid :: sys.rings }
  | .push tid event =>
      if tid ∈ sys.rings ∧ sys.notify tid = .idle then
        ((sys.channels tid).startPush event).map (sys.setChannel tid)
      else none
  | .pushStep tid => sys.pushStep tid
  | .notifyStep tid => sys.notifyStep tid
  | .background park => sys.backgroundStep park
  | .timeout =>
      if sys.background = .blocked then
        some { sys with background := .storeAwake }
      else none

/-! ## Wake-ups -/

/-- While the background thread is blocked, a ring that is not empty means that
some producer is on its way to wake it. -/
def NoLostWakeup (sys : System) : Prop :=
  sys.background = .blocked → ∀ tid, (sys.channels tid).isEmpty = false →
    ∃ other, sys.notify other ≠ .idle

/-- A push whose head store meets an empty ring returns true. -/
def PushSignals (sys : System) : Prop :=
  ∀ tid event head wasEmpty,
    (sys.channels tid).push = .storeHead event head wasEmpty →
      (sys.channels tid).isEmpty = true → wasEmpty = true

end System

/-- The push has found events in its ring, so it will not report it empty. -/
def PushPc.sawEvents : PushPc → Bool
  | .writeSlot _ _ wasEmpty => !wasEmpty
  | .storeHead _ _ wasEmpty => !wasEmpty
  | _ => false

/-- The condition under which no wake-up is lost: the background thread blocks
only if the producer of every ring that is not empty has yet to load the word or
has loaded that it sleeps, and it takes the last event of a ring only if no push
to that ring has already seen it there. -/
def Attentive (sys : System) : Move → Prop
  | .background _ =>
      match sys.background with
      | .wait =>
          sys.word = .sleeping → ∀ tid, (sys.channels tid).isEmpty = false →
            sys.notify tid = .load ∨ sys.notify tid = .storeAwake
      | .drain _ (tid :: _) =>
          ∀ tail event, (sys.channels tid).pop = .storeTail tail event →
            (sys.channels tid).pending = 1 →
              (sys.channels tid).push.sawEvents = false
      | _ => True
  | _ => True

/-! ## What a push and a pop do to an empty ring -/

section Channels

variable {channel target : Channel}

theorem Inv.isEmpty_eq_false_iff (hinv : Inv channel) :
    channel.isEmpty = false ↔
      channel.popped.length < channel.pushed.length := by
  have hle := hinv.le
  rw [← Bool.not_eq_true, hinv.isEmpty_iff]
  omega

/-- A push step stores the head, or leaves the indices alone and sees events only
if there are some. -/
theorem Inv.stepPush_cases (hinv : Inv channel) {result : Option Bool}
    (hstep : channel.stepPush = some (target, result)) :
    channel.push ≠ .idle ∧
      ((target.isEmpty = channel.isEmpty ∧ result ≠ some true ∧
          (target.push.sawEvents = true →
            channel.isEmpty = false ∨ channel.push.sawEvents = true)) ∨
        (target.isEmpty = false ∧ target.push = .idle ∧
          ∃ wasEmpty, result = some wasEmpty ∧
            channel.push.sawEvents = !wasEmpty)) := by
  have htarget := hinv.stepPush hstep
  have hpush := hinv.push_ok
  unfold PushOk at hpush
  unfold Channel.stepPush at hstep
  split at hstep
  · cases hstep
  · next event head hpc =>
      rw [hpc] at hpush
      dsimp only at hpush
      split at hstep
      · obtain ⟨rfl, rfl⟩ := Prod.mk.inj (Option.some.inj hstep)
        exact ⟨by rw [hpc]; exact PushPc.noConfusion,
          .inl ⟨rfl, by decide, by rintro ⟨⟩⟩⟩
      · obtain ⟨rfl, rfl⟩ := Prod.mk.inj (Option.some.inj hstep)
        refine ⟨by rw [hpc]; exact PushPc.noConfusion,
          .inl ⟨rfl, by decide, fun hsaw => .inl ?_⟩⟩
        rw [Channel.isEmpty, ← hpush]
        simpa [PushPc.sawEvents] using hsaw
  · next event head wasEmpty hpc =>
      obtain ⟨rfl, rfl⟩ := Prod.mk.inj (Option.some.inj hstep)
      exact ⟨by rw [hpc]; exact PushPc.noConfusion,
        .inl ⟨rfl, by decide, fun hsaw => .inr (by rw [hpc]; exact hsaw)⟩⟩
  · next event head wasEmpty hpc =>
      obtain ⟨rfl, rfl⟩ := Prod.mk.inj (Option.some.inj hstep)
      refine ⟨by rw [hpc]; exact PushPc.noConfusion,
        .inr ⟨?_, rfl, wasEmpty, rfl, by rw [hpc]; rfl⟩⟩
      have hle := hinv.le
      rw [htarget.isEmpty_eq_false_iff]
      dsimp only
      rw [List.length_append, List.length_singleton]
      omega

/-- A pop step takes an event, or leaves the indices alone. -/
theorem Inv.stepPop_cases (hinv : Inv channel) :
    channel.stepPop.1.push = channel.push ∧
      (channel.stepPop.1.isEmpty = channel.isEmpty ∨
        (∃ tail event, channel.pop = .storeTail tail event) ∧
          channel.isEmpty = false ∧
          (channel.stepPop.1.isEmpty = true → channel.pending = 1)) := by
  have htarget := hinv.stepPop
  have hpop := hinv.pop_ok
  unfold PopOk at hpop
  unfold Channel.stepPop at htarget ⊢
  split
  · exact ⟨rfl, .inl rfl⟩
  · split <;> exact ⟨rfl, .inl rfl⟩
  · exact ⟨rfl, .inl rfl⟩
  · next tail event hpc =>
      rw [hpc] at hpop
      simp only [hpc] at htarget
      have hlt := (List.getElem?_eq_some_iff.mp hpop.2).1
      refine ⟨rfl, .inr ⟨⟨tail, event, hpc⟩,
        hinv.isEmpty_eq_false_iff.mpr hlt, fun hempty => ?_⟩⟩
      rw [htarget.isEmpty_iff] at hempty
      dsimp only at hempty
      rw [List.length_append, List.length_singleton] at hempty
      rw [Channel.pending]
      omega

end Channels

/-! ## The invariant -/

structure SystemInv (sys : System) : Prop where
  channel : ∀ tid, Inv (sys.channels tid)
  busy : ∀ tid, (sys.channels tid).push ≠ .idle → sys.notify tid = .idle
  saw : ∀ tid, (sys.channels tid).push.sawEvents = true →
    (sys.channels tid).isEmpty = false
  watched : sys.background = .blocked → ∀ tid,
    (sys.channels tid).isEmpty = false → sys.notify tid = .load ∨
      sys.notify tid = .storeAwake ∨ sys.word = .awake
  woken : sys.background = .blocked → sys.word = .awake →
    ∃ tid, sys.notify tid = .wake

theorem systemInv_initial : SystemInv .initial where
  channel := fun _ => inv_initial
  busy := fun _ h => absurd rfl h
  saw := by
    rintro tid ⟨⟩
  watched := by
    rintro ⟨⟩
  woken := by
    rintro ⟨⟩

section Moves

variable {sys target : System} {tid : ℕ}

/-- One ring and the place of its producer are replaced.  Only that ring has to
be looked at again. -/
theorem SystemInv.setRing (hinv : SystemInv sys) {next : Channel}
    {pc : NotifyPc} {background : Background}
    (hbackground : background = .blocked → sys.background = .blocked)
    (hchannel : Inv next) (hbusy : next.push ≠ .idle → pc = .idle)
    (hsaw : next.push.sawEvents = true → next.isEmpty = false)
    (hwatched : background = .blocked → next.isEmpty = false →
      pc = .load ∨ pc = .storeAwake ∨ sys.word = .awake)
    (hwake : background = .blocked → sys.notify tid = .wake → pc = .wake) :
    SystemInv { (sys.setChannel tid next).setNotify tid pc with
      background := background } := by
  unfold System.setNotify System.setChannel
  constructor <;> dsimp only
  · intro other
    by_cases heq : other = tid
    · rwa [heq, Function.update_self]
    · rw [Function.update_of_ne heq]
      exact hinv.channel other
  · intro other hpush
    by_cases heq : other = tid
    · rw [heq, Function.update_self] at hpush ⊢
      exact hbusy hpush
    · rw [Function.update_of_ne heq] at hpush ⊢
      exact hinv.busy other hpush
  · intro other hother
    by_cases heq : other = tid
    · rw [heq, Function.update_self] at hother ⊢
      exact hsaw hother
    · rw [Function.update_of_ne heq] at hother ⊢
      exact hinv.saw other hother
  · intro hblocked other hother
    by_cases heq : other = tid
    · rw [heq, Function.update_self] at hother ⊢
      exact hwatched hblocked hother
    · rw [Function.update_of_ne heq] at hother ⊢
      exact hinv.watched (hbackground hblocked) other hother
  · intro hblocked hawake
    obtain ⟨waker, hwaker⟩ := hinv.woken (hbackground hblocked) hawake
    by_cases heq : waker = tid
    · refine ⟨tid, ?_⟩
      rw [Function.update_self]
      exact hwake hblocked (heq ▸ hwaker)
    · exact ⟨waker, by rwa [Function.update_of_ne heq]⟩

/-- A producer that stays where it is. -/
theorem setNotify_self (sys : System) (tid : ℕ) (next : Channel) :
    (sys.setChannel tid next).setNotify tid (sys.notify tid) =
      sys.setChannel tid next := by
  unfold System.setNotify System.setChannel
  rw [Function.update_eq_self]

/-- A producer moves on and its ring stays as it is. -/
theorem setChannel_self (sys : System) (tid : ℕ) (pc : NotifyPc) :
    (sys.setChannel tid (sys.channels tid)).setNotify tid pc =
      sys.setNotify tid pc := by
  unfold System.setNotify System.setChannel
  rw [Function.update_eq_self]

theorem SystemInv.push (hinv : SystemInv sys) {event : AllocEvent}
    (hstep : sys.step (.push tid event) = some target) :
    SystemInv target := by
  rw [System.step] at hstep
  split at hstep
  swap
  · cases hstep
  next hready =>
  obtain ⟨next, hnext, rfl⟩ := Option.map_eq_some_iff.mp hstep
  have hchannel := (hinv.channel tid).startPush hnext
  unfold Channel.startPush at hnext
  split at hnext
  swap
  · cases hnext
  obtain rfl := Option.some.inj hnext
  rw [← setNotify_self]
  refine hinv.setRing id hchannel (fun _ => hready.2) (by rintro ⟨⟩)
    (fun hblocked hevents => ?_) fun _ => id
  exact hinv.watched hblocked tid hevents

theorem SystemInv.pushStep (hinv : SystemInv sys)
    (hstep : sys.pushStep tid = some target) : SystemInv target := by
  obtain ⟨⟨next, result⟩, hnext, rfl⟩ := Option.map_eq_some_iff.mp hstep
  have hchannel := (hinv.channel tid).stepPush hnext
  obtain ⟨hbusy, hcases⟩ := (hinv.channel tid).stepPush_cases hnext
  have hidle := hinv.busy tid hbusy
  dsimp only
  rcases hcases with ⟨hsame, hresult, hevents⟩ |
    ⟨hfilled, hdone, wasEmpty, rfl, hwas⟩
  · rw [if_neg hresult, ← setNotify_self]
    refine hinv.setRing id hchannel (fun _ => hidle) (fun hnow => ?_)
      (fun hblocked hother => ?_) fun _ => id
    · refine hsame.trans ?_
      rcases hevents hnow with hloaded | hbefore
      · exact hloaded
      · exact hinv.saw tid hbefore
    · exact hinv.watched hblocked tid (hsame.symm.trans hother)
  · cases wasEmpty with
    | true =>
        rw [if_pos rfl]
        refine hinv.setRing id hchannel (fun hpush => absurd hdone hpush)
          (fun _ => hfilled) (fun _ _ => .inl rfl) fun _ hwake => ?_
        rw [hidle] at hwake
        cases hwake
    | false =>
        rw [if_neg (by decide), ← setNotify_self]
        refine hinv.setRing id hchannel (fun _ => hidle) (fun _ => hfilled)
          (fun hblocked _ => ?_) fun _ => id
        -- The ring was not empty before, and its producer was in `push`.
        exact hinv.watched hblocked tid (hinv.saw tid hwas)

theorem SystemInv.notifyStep (hinv : SystemInv sys)
    (hstep : sys.notifyStep tid = some target) : SystemInv target := by
  have hquiet : sys.notify tid ≠ .idle → (sys.channels tid).push = .idle :=
    fun hactive => not_not.mp fun hpush => hactive (hinv.busy tid hpush)
  unfold System.notifyStep at hstep
  split at hstep
  · cases hstep
  · next hload =>
      obtain rfl := Option.some.inj hstep
      rw [← setChannel_self]
      refine hinv.setRing id (hinv.channel tid)
        (absurd (hquiet (by rw [hload]; decide))) (hinv.saw tid)
        (fun _ _ => ?_) fun _ hwake => ?_
      · cases sys.word with
        | sleeping => exact .inr (.inl rfl)
        | awake => exact .inr (.inr rfl)
      · rw [hload] at hwake
        cases hwake
  · next hstore =>
      obtain rfl := Option.some.inj hstep
      have hidle := hquiet (by rw [hstore]; decide)
      refine ⟨hinv.channel, fun other hpush => ?_, hinv.saw,
        fun _ _ _ => .inr (.inr rfl), fun _ _ => ⟨tid, Function.update_self ..⟩⟩
      have hne : other ≠ tid := fun heq => hpush (heq ▸ hidle)
      exact (Function.update_of_ne hne ..).trans (hinv.busy other hpush)
  · next hwake =>
      obtain rfl := Option.some.inj hstep
      have hnot : (if sys.background = .blocked then Background.storeAwake
          else sys.background) ≠ .blocked := by
        split
        · exact Background.noConfusion
        · next hne => exact hne
      rw [← setChannel_self]
      exact hinv.setRing (fun hblocked => absurd hblocked hnot)
        (hinv.channel tid) (fun _ => rfl) (hinv.saw tid)
        (fun hblocked => absurd hblocked hnot)
        fun hblocked => absurd hblocked hnot

theorem SystemInv.drainStep (hinv : SystemInv sys) {found : Bool}
    {rest : List ℕ} (hbackground : sys.background = .drain found (tid :: rest))
    {park : Bool} (hattentive : Attentive sys (.background park)) :
    SystemInv (sys.drainStep found tid rest) := by
  simp only [Attentive, hbackground] at hattentive
  have hchannel := (hinv.channel tid).stepPop
  obtain ⟨hpush, hcases⟩ := (hinv.channel tid).stepPop_cases
  have hnot : (sys.drainStep found tid rest).background ≠ .blocked := by
    unfold System.drainStep
    dsimp only
    split <;> exact Background.noConfusion
  unfold System.drainStep at hnot ⊢
  dsimp only at hnot ⊢
  rw [← setNotify_self]
  refine hinv.setRing (fun hblocked => absurd hblocked hnot) hchannel
    (fun hother => ?_) (fun hother => ?_) (fun hblocked => absurd hblocked hnot)
    fun hblocked => absurd hblocked hnot
  · rw [hpush] at hother
    exact hinv.busy tid hother
  · rw [hpush] at hother
    rcases hcases with hsame | ⟨⟨tail, event, hpop⟩, -, hlast⟩
    · rw [hsame]
      exact hinv.saw tid hother
    · rw [← Bool.not_eq_true]
      intro hempty
      rw [hattentive tail event hpop (hlast hempty)] at hother
      cases hother

/-- A move of the background thread that leaves it running, or lets it block
with every ring watched. -/
theorem SystemInv.backgroundStep (hinv : SystemInv sys) {park : Bool}
    (hattentive : Attentive sys (.background park))
    (hstep : sys.backgroundStep park = some target) : SystemInv target := by
  unfold System.backgroundStep at hstep
  split at hstep
  · next found hbackground =>
    obtain rfl := Option.some.inj hstep
    have hnot : (if found = false ∧ park then Background.announce
        else .drain false sys.rings) ≠ .blocked := by
      split <;> exact Background.noConfusion
    exact ⟨hinv.channel, hinv.busy, hinv.saw,
      fun hblocked => absurd hblocked hnot,
      fun hblocked => absurd hblocked hnot⟩
  · next found other rest hbackground =>
      obtain rfl := Option.some.inj hstep
      exact hinv.drainStep hbackground hattentive
  · obtain rfl := Option.some.inj hstep
    exact ⟨hinv.channel, hinv.busy, hinv.saw, by rintro ⟨⟩, by rintro ⟨⟩⟩
  · next hbackground =>
      obtain rfl := Option.some.inj hstep
      simp only [Attentive, hbackground] at hattentive
      refine ⟨hinv.channel, hinv.busy, hinv.saw, fun hblocked other hother => ?_,
        fun hblocked hawake => ?_⟩
      · dsimp only at hblocked hother ⊢
        split at hblocked
        · next hsleeping =>
            rcases hattentive hsleeping other hother with hload | hstore
            · exact .inl hload
            · exact .inr (.inl hstore)
        · cases hblocked
      · dsimp only at hblocked hawake
        rw [hawake] at hblocked
        cases hblocked
  · cases hstep
  · obtain rfl := Option.some.inj hstep
    exact ⟨hinv.channel, hinv.busy, hinv.saw, by rintro ⟨⟩, by rintro ⟨⟩⟩

theorem SystemInv.step (hinv : SystemInv sys) {move : Move}
    (hattentive : Attentive sys move) (hstep : sys.step move = some target) :
    SystemInv target := by
  cases move with
  | register tid =>
      rw [System.step] at hstep
      split at hstep
      · cases hstep
      · obtain rfl := Option.some.inj hstep
        exact ⟨hinv.channel, hinv.busy, hinv.saw, hinv.watched, hinv.woken⟩
  | push tid event => exact hinv.push hstep
  | pushStep tid => exact hinv.pushStep hstep
  | notifyStep tid => exact hinv.notifyStep hstep
  | background park => exact hinv.backgroundStep hattentive hstep
  | timeout =>
      rw [System.step] at hstep
      split at hstep
      · obtain rfl := Option.some.inj hstep
        exact ⟨hinv.channel, hinv.busy, hinv.saw, by rintro ⟨⟩, by rintro ⟨⟩⟩
      · cases hstep

end Moves

theorem SystemInv.noLostWakeup {sys : System} (hinv : SystemInv sys) :
    sys.NoLostWakeup := by
  intro hblocked tid hfilled
  rcases hinv.watched hblocked tid hfilled with hload | hstore | hawake
  · exact ⟨tid, by rw [hload]; exact NotifyPc.noConfusion⟩
  · exact ⟨tid, by rw [hstore]; exact NotifyPc.noConfusion⟩
  · obtain ⟨waker, hwaker⟩ := hinv.woken hblocked hawake
    exact ⟨waker, by rw [hwaker]; exact NotifyPc.noConfusion⟩

theorem SystemInv.pushSignals {sys : System} (hinv : SystemInv sys) :
    sys.PushSignals := by
  intro tid event head wasEmpty hpush hempty
  by_contra hfalse
  rw [Bool.not_eq_true] at hfalse
  subst hfalse
  rw [hinv.saw tid (by rw [hpush]; rfl)] at hempty
  cases hempty

/-- In every run whose steps are attentive, no wake-up is lost and every push
that fills an empty ring reports it. -/
theorem wakeup_reachable {sys : System}
    (hreach : ReachableWhen System.step Attentive .initial sys) :
    sys.NoLostWakeup ∧ sys.PushSignals := by
  have hinv : SystemInv sys := hreach.invariant systemInv_initial
    fun _ _ _ hinv hattentive hstep => hinv.step hattentive hstep
  exact ⟨hinv.noLostWakeup, hinv.pushSignals⟩

/-- A push to an empty ring while the background thread is blocked. -/
theorem wakeup_blocked : ∃ sys : System, sys.background = .blocked ∧
    (sys.channels 0).isEmpty = false ∧ sys.NoLostWakeup := by
  have hparked : ReachableWhen System.step Attentive .initial
      { System.initial with word := .sleeping, background := .blocked } := by
    refine .act (.background false)
      (.act (.background false)
        (.act (.background true) .start trivial rfl) trivial rfl) ?_ rfl
    intro _ tid hfilled
    cases hfilled
  have hrun : (run
      (fun sys move =>
        if move.elsewhere = true then System.step sys move else none)
      { System.initial with word := .sleeping, background := .blocked }
      [.register 0, .push 0 ⟨7, 48, 0, 4096⟩, .pushStep 0, .pushStep 0,
        .pushStep 0]).any (fun sys =>
          sys.background = .blocked ∧ (sys.channels 0).isEmpty = false) := by
    decide
  obtain ⟨sys, hsys, hstate⟩ := (Option.any_eq_true _ _).mp hrun
  rw [decide_eq_true_eq] at hstate
  refine ⟨sys, hstate.1, hstate.2, (wakeup_reachable
    (reachableWhen_of_run (fun state move hmove => ?_) hparked hsys)).1⟩
  cases move with
  | background park => cases hmove
  | _ => trivial

/-- The ring is found empty; a push finds the word awake; the background thread
announces that it sleeps and blocks. -/
def lateAnnounce : List Move :=
  [.register 0, .background false, .background false, .background false,
    .push 0 ⟨7, 48, 0, 4096⟩, .pushStep 0, .pushStep 0, .pushStep 0,
    .notifyStep 0, .background true, .background true, .background true]

/-- A second push loads the indices before the background thread takes the only
event and stores the head after. -/
def staleTail : List Move :=
  [.register 0, .background false,
    .push 0 ⟨7, 48, 0, 4096⟩, .pushStep 0, .pushStep 0, .pushStep 0,
    .notifyStep 0, .push 0 ⟨7, 48, 0, 8192⟩, .pushStep 0, .pushStep 0,
    .background false, .background false, .background false, .background false]

/-- A wake-up can be lost, and a push that fills an empty ring can report that
it was not empty. -/
theorem not_wakeup_reachable :
    (¬∀ sys, Reachable System.step .initial sys → sys.NoLostWakeup) ∧
      ¬∀ sys, Reachable System.step .initial sys → sys.PushSignals := by
  constructor
  · intro hall
    have hrun : (run System.step .initial lateAnnounce).any (fun sys =>
        sys.background = .blocked ∧ (sys.channels 0).isEmpty = false) := by
      decide
    have hnotify : (run System.step .initial lateAnnounce).map System.notify =
        some (Function.update (Function.update (fun _ => .idle) 0 .load) 0
          .idle) := rfl
    obtain ⟨sys, hsys, hstate⟩ := (Option.any_eq_true _ _).mp hrun
    rw [decide_eq_true_eq] at hstate
    rw [hsys, Option.map_some, Option.some.injEq] at hnotify
    obtain ⟨other, hother⟩ :=
      hall sys (reachable_of_run .start hsys) hstate.1 0 hstate.2
    rw [hnotify, Function.update_idem, Function.update_apply, ite_self] at hother
    exact hother rfl
  · intro hall
    have hrun : (run System.step .initial staleTail).any (fun sys =>
        (sys.channels 0).push = .storeHead ⟨7, 48, 0, 8192⟩ 1 false ∧
          (sys.channels 0).isEmpty = true) := by decide
    obtain ⟨sys, hsys, hstate⟩ := (Option.any_eq_true _ _).mp hrun
    rw [decide_eq_true_eq] at hstate
    have := hall sys (reachable_of_run .start hsys) 0 _ _ _ hstate.1 hstate.2
    cases this

end TbjitAlloc.Ring
