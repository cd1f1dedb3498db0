import TbjitAlloc.Trace.File
import TbjitAlloc.Trace.Record
import TbjitAlloc.Ring.Channel

/-!
# Capturing a trace

A process from the start of its background thread in `tbjit_init` to the end of
`tbjit_fini`.  The threads push the events of their calls, and the background
thread takes them from the rings, processes them and writes them to the file.
Every access to a ring and to a flag is a step.  Handling an event is one step
with the pop that took it, since no other party reads the table of sites or the
file meanwhile.  How long the background thread sleeps and who wakes it, which
failed guards it finds queued and what happens when an event is processed are
left to chance.  The file is what `fwrite` has been given, of which stdio may
hold a part back until `writer_close`.
-/

namespace TbjitAlloc.Trace

open TbjitAlloc.Analysis
open TbjitAlloc.Codegen
open TbjitAlloc.Records
open TbjitAlloc.Ring (Channel)

/-- A call the trampoline records, with its site and its pointer. -/
inductive RecordedCall
  | alloc (id size ptr : ℕ)
  | free (id ptr : ℕ)
  deriving DecidableEq, Repr

/-- The event of a call by the thread with number `tid`; the numbers are counted
in 32 bits. -/
def RecordedCall.event (tid : ℕ) : RecordedCall → AllocEvent
  | .alloc id size ptr => recordAlloc id size (tid % 2 ^ 32) ptr
  | .free id ptr => recordFree id (tid % 2 ^ 32) ptr

/-- Sites have 32 bits and pointers 64. -/
def RecordedCall.InRange : RecordedCall → Prop
  | .alloc id _ ptr => id < 2 ^ 32 ∧ ptr < 2 ^ 64
  | .free id ptr => id < 2 ^ 32 ∧ ptr < 2 ^ 64

instance : DecidablePred RecordedCall.InRange := fun call =>
  match call with
  | .alloc _ _ _ => inferInstanceAs (Decidable (_ ∧ _))
  | .free _ _ => inferInstanceAs (Decidable (_ ∧ _))

/-- What an event meets when it is processed: the answer of `compile`, the site
of the segment its pointer lies in, and the bytes of its record that the analyzer
does not read. -/
structure Chance where
  compile : RoutineSpec → Option ℕ
  segSite : Option ℕ
  timestampNs : ℕ
  padding : Bytes
  timestamp_lt : timestampNs < 2 ^ 64
  padding_length : padding.length = 4

def Chance.record (chance : Chance) (event : AllocEvent) : EventRecord where
  callSite := event.callSite
  size := event.size
  timestampNs := chance.timestampNs
  threadId := event.threadId
  padding := chance.padding
  ptr := event.ptr

/-- What the process has done last: started the background thread, called
`writer_open` if a path is set, set `g_initialized`, set `g_shutting_down`,
cleared `g_running`, called `writer_close`. -/
inductive Stage
  | started
  | opened
  | enabled
  | shuttingDown
  | stopped
  | closed
  deriving DecidableEq, Repr

/-- Calls may have been recorded. -/
def Stage.recording : Stage → Bool
  | .started | .opened => false
  | _ => true

/-- `g_running` has been cleared. -/
def Stage.halted : Stage → Bool
  | .stopped | .closed => true
  | _ => false

/-- Where the background thread is.  `last` says that it has left its loop. -/
inductive Collector
  | check
  | reset (last : Bool)
  | drain (last found : Bool) (rest : List ℕ)
  | napping
  | parked
  | exited
  deriving DecidableEq, Repr

def Collector.last : Collector → Bool
  | .reset last => last
  | .drain last _ _ => last
  | .exited => true
  | _ => false

/-- A ring is named by its thread.  `entered` says of a thread that it has passed
the gates of `malloc` or `free`, `active` whether `g_file` is set.  `processed`
lists the records of the events handled, with their rings, and `atStop` how many
events were in each ring's history when `g_running` was cleared; no step reads
these two. -/
structure Process where
  channels : ℕ → Channel
  rings : List ℕ
  entered : ℕ → Bool
  stage : Stage
  running : Bool
  collector : Collector
  analyzer : Analyzer
  installed : List ℕ
  file : Option Bytes
  active : Bool
  processed : List (ℕ × EventRecord)
  atStop : ℕ → ℕ

def Process.initial : Process where
  channels := fun _ => .initial
  rings := []
  entered := fun _ => false
  stage := .started
  running := true
  collector := .check
  analyzer := .empty
  installed := []
  file := none
  active := false
  processed := []
  atStop := fun _ => 0

inductive Move
  | enter (tid : ℕ)
  | leave (tid : ℕ)
  | register (tid : ℕ)
  | push (tid : ℕ) (call : RecordedCall)
  | pushStep (tid : ℕ)
  | openFile (start : Option ℕ)
  | enable
  | shutDown
  | stop
  | close
  | reset (id : ℕ) (reason : DeoptReason)
  | collect (park : Bool) (chance : Chance)

/-- The site whose routine was compiled, which `advance_prespec` installs. -/
def installedSite (calls : Calls) : Option ℕ :=
  match calls.compiled with
  | some (spec, some _) => some spec.id
  | _ => none

namespace Process

def setChannel (proc : Process) (tid : ℕ) (channel : Channel) : Process :=
  { proc with channels := Function.update proc.channels tid channel }

def setEntered (proc : Process) (tid : ℕ) (entered : Bool) : Process :=
  { proc with entered := Function.update proc.entered tid entered }

/-! ## Allocator threads -/

/-- The gates: `g_initialized` is set and `g_shutting_down` is not. -/
def enter (proc : Process) (tid : ℕ) : Option Process :=
  if proc.stage = .enabled ∧ proc.entered tid = false ∧
      (proc.channels tid).push = .idle then
    some (proc.setEntered tid true)
  else none

/-- The call was answered by a routine and is not recorded. -/
def leave (proc : Process) (tid : ℕ) : Option Process :=
  if proc.entered tid = true then some (proc.setEntered tid false) else none

/-- `get_ring` on the first recorded call of a thread. -/
def register (proc : Process) (tid : ℕ) : Option Process :=
  if proc.entered tid = true ∧ tid ∉ proc.rings then
    some { proc with rings := tid :: proc.rings }
  else none

def push (proc : Process) (tid : ℕ) (call : RecordedCall) : Option Process :=
  if proc.entered tid = true ∧ tid ∈ proc.rings ∧ call.InRange then
    ((proc.channels tid).startPush (call.event tid)).map fun channel =>
      (proc.setChannel tid channel).setEntered tid false
  else none

def pushStep (proc : Process) (tid : ℕ) : Option Process :=
  (proc.channels tid).stepPush.map fun outcome => proc.setChannel tid outcome.1

/-! ## `tbjit_init` and `tbjit_fini` -/

/-- `writer_open`, with its clock; `none` says that no path is set or that the
file could not be opened. -/
def openFile (proc : Process) (start : Option ℕ) : Option Process :=
  if proc.stage = .started ∧ ∀ startNs ∈ start, startNs < 2 ^ 64 then
    some { proc with
      stage := .opened
      file := start.map writerOpen
      active := start.isSome }
  else none

def enable (proc : Process) : Option Process :=
  if proc.stage = .opened then some { proc with stage := .enabled } else none

def shutDown (proc : Process) : Option Process :=
  if proc.stage = .enabled then some { proc with stage := .shuttingDown }
  else none

def stop (proc : Process) : Option Process :=
  if proc.stage = .shuttingDown then
    some { proc with
      stage := .stopped
      running := false
      atStop := fun tid => (proc.channels tid).pushed.length }
  else none

/-- The background thread is joined, then the file is closed. -/
def close (proc : Process) : Option Process :=
  if proc.stage = .stopped ∧ proc.collector = .exited then
    some { proc with stage := .closed, active := false }
  else none

/-! ## The background thread -/

/-- An entry of the deopt queue: some site that had a routine. -/
def reset (knobs : Knobs) (proc : Process) (id : ℕ) (reason : DeoptReason) :
    Option Process :=
  match proc.collector with
  | .reset _ =>
      if id ∈ proc.installed then
        some { proc with
          analyzer := proc.analyzer.resetCallSite knobs id reason }
      else none
  | _ => none

/-- `process_event` and `writer_write`. -/
def handle (knobs : Knobs) (proc : Process) (tid : ℕ) (event : AllocEvent)
    (chance : Chance) : Process :=
  let result := proc.analyzer.processEvent knobs chance.compile chance.segSite
    event
  let record := chance.record event
  { proc with
    analyzer := result.1
    installed := (installedSite result.2).toList ++ proc.installed
    file :=
      if proc.active then proc.file.map fun file => writerWrite file record
      else proc.file
    processed := proc.processed ++ [(tid, record)] }

/-- One access of `drain_all` to the ring it has come to.  Only routines make
segments. -/
def drainStep (knobs : Knobs) (proc : Process) (last found : Bool) (tid : ℕ)
    (rest : List ℕ) (chance : Chance) : Option Process :=
  let outcome := (proc.channels tid).stepPop
  let next := proc.setChannel tid outcome.1
  match outcome.2 with
  | none => some { next with collector := .drain last found (tid :: rest) }
  | some none => some { next with collector := .drain last found rest }
  | some (some event) =>
      if ∀ site ∈ chance.segSite, site ∈ proc.installed then
        some { next.handle knobs tid event chance with
          collector := .drain last true (tid :: rest) }
      else none

/-- `background_loop`.  `park` says that the back-off has reached its end. -/
def collect (knobs : Knobs) (proc : Process) (park : Bool) (chance : Chance) :
    Option Process :=
  match proc.collector with
  | .check => some { proc with collector := .reset (!proc.running) }
  | .reset last => some { proc with collector := .drain last false proc.rings }
  | .drain last found [] =>
      some { proc with
        collector :=
          if last then .exited else if found then .check else .napping }
  | .drain last found (tid :: rest) =>
      proc.drainStep knobs last found tid rest chance
  | .napping =>
      some { proc with
        collector :=
          if park then if proc.running then .parked else .reset true
          else .check }
  | .parked => some { proc with collector := .check }
  | .exited => none

def step (knobs : Knobs) (proc : Process) : Move → Option Process
  | .enter tid => proc.enter tid
  | .leave tid => proc.leave tid
  | .register tid => proc.register tid
  | .push tid call => proc.push tid call
  | .pushStep tid => proc.pushStep tid
  | .openFile start => proc.openFile start
  | .enable => proc.enable
  | .shutDown => proc.shutDown
  | .stop => proc.stop
  | .close => proc.close
  | .reset id reason => proc.reset knobs id reason
  | .collect park chance => proc.collect knobs park chance

end Process

/-! ## Accesses to a ring -/

section Channels

variable {channel target : Channel}

theorem startPush_frame {event : AllocEvent}
    (hstep : channel.startPush event = some target) :
    target.offered = channel.offered ++ [event] ∧
      target.pushed = channel.pushed ∧ target.popped = channel.popped := by
  unfold Channel.startPush at hstep
  split at hstep
  · obtain rfl := Option.some.inj hstep
    exact ⟨rfl, rfl, rfl⟩
  · cases hstep

theorem stepPush_frame {result : Option Bool}
    (hstep : channel.stepPush = some (target, result)) :
    target.offered = channel.offered ∧
      channel.pushed.length ≤ target.pushed.length ∧
      target.popped = channel.popped := by
  unfold Channel.stepPush at hstep
  split at hstep
  · cases hstep
  · split at hstep
    · obtain ⟨rfl, -⟩ := Prod.mk.inj (Option.some.inj hstep)
      exact ⟨rfl, le_rfl, rfl⟩
    · obtain ⟨rfl, -⟩ := Prod.mk.inj (Option.some.inj hstep)
      exact ⟨rfl, le_rfl, rfl⟩
  · obtain ⟨rfl, -⟩ := Prod.mk.inj (Option.some.inj hstep)
    exact ⟨rfl, le_rfl, rfl⟩
  · obtain ⟨rfl, -⟩ := Prod.mk.inj (Option.some.inj hstep)
    refine ⟨rfl, ?_, rfl⟩
    dsimp only
    rw [List.length_append]
    exact Nat.le_add_right _ _

/-- What an access of `pop` takes. -/
def taken (outcome : Option (Option AllocEvent)) : List AllocEvent :=
  (outcome.bind id).toList

/-- A pop that returns without an event has found the ring empty. -/
theorem stepPop_frame (hinv : Ring.Inv channel) :
    channel.stepPop.1.offered = channel.offered ∧
      channel.stepPop.1.pushed = channel.pushed ∧
      channel.stepPop.1.popped = channel.popped ++ taken channel.stepPop.2 ∧
      (channel.stepPop.2 = some none →
        channel.pushed.length = channel.popped.length) := by
  have hpop := hinv.pop_ok
  unfold Channel.stepPop
  unfold Ring.PopOk at hpop
  split
  · exact ⟨rfl, rfl, (List.append_nil _).symm, fun h => by cases h⟩
  · next tail hpc =>
      rw [hpc] at hpop
      dsimp only at hpop
      split
      · next hempty =>
          refine ⟨rfl, rfl, (List.append_nil _).symm, fun _ => ?_⟩
          exact hinv.head_eq_tail_iff.mp (hempty.symm.trans hpop)
      · exact ⟨rfl, rfl, (List.append_nil _).symm, fun h => by cases h⟩
  · exact ⟨rfl, rfl, (List.append_nil _).symm, fun h => by cases h⟩
  · exact ⟨rfl, rfl, rfl, fun h => by cases h⟩

theorem pushed_sublist (hinv : Ring.Inv channel) :
    channel.pushed.Sublist channel.offered := by
  obtain ⟨settled, hoffered, hpushed, -⟩ := hinv.accounted
  rw [hoffered]
  exact hpushed.trans (List.sublist_append_left _ _)

end Channels

/-! ## What is captured -/

/-- The fields of an event fit their words. -/
structure EventInRange (event : AllocEvent) : Prop where
  callSite : event.callSite < 2 ^ 32
  size : event.size < 2 ^ 32
  threadId : event.threadId < 2 ^ 32
  ptr : event.ptr < 2 ^ 64

theorem eventInRange {call : RecordedCall} (hcall : call.InRange) (tid : ℕ) :
    EventInRange (call.event tid) := by
  have hword : ∀ value : ℕ, value % 2 ^ 32 < 2 ^ 32 :=
    fun value => Nat.mod_lt _ (by decide)
  cases call with
  | alloc id size ptr => exact ⟨hcall.1, hword size, hword tid, hcall.2⟩
  | free id ptr =>
      exact ⟨hcall.1, Nat.two_pow_pos 32, hword tid, hcall.2⟩

theorem record_inRange {event : AllocEvent} (hevent : EventInRange event)
    (chance : Chance) : (chance.record event).InRange :=
  ⟨hevent.callSite, hevent.size, chance.timestamp_lt, hevent.threadId,
    chance.padding_length, hevent.ptr⟩

theorem record_event (event : AllocEvent) (chance : Chance) :
    (chance.record event).event = event := rfl

/-- The rings the last drain has still to come to. -/
def Collector.remaining : Collector → Option (List ℕ)
  | .drain true _ rest => some rest
  | .exited => some []
  | _ => none

namespace Process

/-- The events of a thread that were handled, in order. -/
def eventsOf (proc : Process) (tid : ℕ) : List AllocEvent :=
  (proc.processed.filter fun item => item.1 = tid).map fun item => item.2.event

end Process

/-- The file holds the records handled, those of a ring are what was popped from
it, and behind the last drain they include all that was there at the stop. -/
structure Captured (proc : Process) : Prop where
  channel : ∀ tid, Ring.Inv (proc.channels tid)
  ranged : ∀ tid, ∀ event ∈ (proc.channels tid).offered, EventInRange event
  silent : proc.stage.recording = false →
    ∀ tid, (proc.channels tid).offered = [] ∧ proc.entered tid = false
  registered : ∀ tid, tid ∉ proc.rings → (proc.channels tid).offered = []
  handled : ∀ tid, proc.eventsOf tid = (proc.channels tid).popped
  records : ∀ item ∈ proc.processed, item.2.InRange
  file : ∀ bytes, proc.file = some bytes → ∃ startNs < 2 ^ 64,
    bytes = (proc.processed.map Prod.snd).foldl writerWrite
      (writerOpen startNs)
  active : proc.file.isSome = true → proc.collector ≠ .exited →
    proc.active = true
  running : proc.running = !proc.stage.halted
  last : proc.collector.last = true → proc.running = false
  atStop : ∀ tid, proc.atStop tid ≤ (proc.channels tid).pushed.length
  drained : ∀ rest, proc.collector.remaining = some rest →
    ∀ tid, tid ∉ rest → proc.atStop tid ≤ (proc.channels tid).popped.length

theorem captured_initial : Captured .initial where
  channel := fun _ => Ring.inv_initial
  ranged := fun _ _ h => absurd h List.not_mem_nil
  silent := fun _ _ => ⟨rfl, rfl⟩
  registered := fun _ _ => rfl
  handled := fun _ => rfl
  records := fun _ h => absurd h List.not_mem_nil
  file := fun _ h => by cases h
  active := fun h => by cases h
  running := rfl
  last := fun h => by cases h
  atStop := fun _ => le_rfl
  drained := fun _ h => by cases h

section Steps

variable {knobs : Knobs} {proc target : Process} {tid : ℕ}

theorem Captured.pushed_eq_nil (hinv : Captured proc)
    (hoffered : (proc.channels tid).offered = []) :
    (proc.channels tid).pushed = [] :=
  List.sublist_nil.mp (hoffered ▸ pushed_sublist (hinv.channel tid))

theorem Captured.popped_eq_nil (hinv : Captured proc)
    (hoffered : (proc.channels tid).offered = []) :
    (proc.channels tid).popped = [] :=
  List.prefix_nil.mp
    (hinv.pushed_eq_nil hoffered ▸ (hinv.channel tid).order)

/-- Nothing is handled before the calls are recorded. -/
theorem Captured.processed_eq_nil (hinv : Captured proc)
    (hsilent : proc.stage.recording = false) : proc.processed = [] := by
  refine List.eq_nil_iff_forall_not_mem.mpr fun item hitem => ?_
  have hmem : item.2.event ∈ proc.eventsOf item.1 :=
    List.mem_map_of_mem (List.mem_filter.mpr ⟨hitem, decide_eq_true rfl⟩)
  rw [hinv.handled, hinv.popped_eq_nil (hinv.silent hsilent item.1).1] at hmem
  exact absurd hmem List.not_mem_nil

/-- An access to one ring that takes nothing from it. -/
theorem Captured.setChannel (hinv : Captured proc) {channel : Channel}
    (hchannel : Ring.Inv channel)
    (hpopped : channel.popped = (proc.channels tid).popped)
    (hpushed : (proc.channels tid).pushed.length ≤ channel.pushed.length)
    (hranged : ∀ event ∈ channel.offered, EventInRange event)
    (hoffered : channel.offered = (proc.channels tid).offered ∨
      proc.stage.recording = true ∧ tid ∈ proc.rings) :
    Captured (proc.setChannel tid channel) where
  channel other := by
    rcases eq_or_ne other tid with rfl | hne
    · simpa [Process.setChannel] using hchannel
    · simpa [Process.setChannel, hne] using hinv.channel other
  ranged other := by
    rcases eq_or_ne other tid with rfl | hne
    · simpa [Process.setChannel] using hranged
    · simpa [Process.setChannel, hne] using hinv.ranged other
  silent hsilent other := by
    refine ⟨?_, (hinv.silent hsilent other).2⟩
    rcases eq_or_ne other tid with rfl | hne
    · rcases hoffered with hsame | ⟨hrecording, -⟩
      · simpa [Process.setChannel, hsame] using (hinv.silent hsilent other).1
      · exact absurd (hsilent.symm.trans hrecording) (by decide)
    · simpa [Process.setChannel, hne] using (hinv.silent hsilent other).1
  registered other hother := by
    rcases eq_or_ne other tid with rfl | hne
    · rcases hoffered with hsame | ⟨-, hring⟩
      · simpa [Process.setChannel, hsame] using hinv.registered other hother
      · exact absurd hring hother
    · simpa [Process.setChannel, hne] using hinv.registered other hother
  handled other := by
    refine (hinv.handled other).trans ?_
    rcases eq_or_ne other tid with rfl | hne
    · simp [Process.setChannel, hpopped]
    · simp [Process.setChannel, hne]
  records := hinv.records
  file := hinv.file
  active := hinv.active
  running := hinv.running
  last := hinv.last
  atStop other := by
    refine (hinv.atStop other).trans ?_
    rcases eq_or_ne other tid with rfl | hne
    · simpa [Process.setChannel] using hpushed
    · simp [Process.setChannel, hne]
  drained rest hrest other hother := by
    refine (hinv.drained rest hrest other hother).trans (le_of_eq ?_)
    rcases eq_or_ne other tid with rfl | hne
    · simp [Process.setChannel, hpopped]
    · simp [Process.setChannel, hne]

theorem Captured.enter (hinv : Captured proc)
    (hstep : proc.enter tid = some target) : Captured target := by
  unfold Process.enter at hstep
  split at hstep
  · next hguard =>
      obtain rfl := Option.some.inj hstep
      refine { hinv with silent := fun hsilent => ?_ }
      have hrecording : proc.stage.recording = false := hsilent
      rw [hguard.1] at hrecording
      cases hrecording
  · cases hstep

theorem Captured.leave (hinv : Captured proc) (tid : ℕ) :
    Captured (proc.setEntered tid false) := by
  refine { hinv with silent := fun hsilent other => ?_ }
  refine ⟨(hinv.silent hsilent other).1, ?_⟩
  rcases eq_or_ne other tid with rfl | hne
  · exact Function.update_self ..
  · exact (Function.update_of_ne hne ..).trans (hinv.silent hsilent other).2

theorem Captured.register (hinv : Captured proc)
    (hstep : proc.register tid = some target) : Captured target := by
  unfold Process.register at hstep
  split at hstep
  · obtain rfl := Option.some.inj hstep
    exact { hinv with
      registered := fun other hother =>
        hinv.registered other fun h => hother (List.mem_cons_of_mem _ h) }
  · cases hstep

theorem Captured.push (hinv : Captured proc) {call : RecordedCall}
    (hstep : proc.push tid call = some target) : Captured target := by
  unfold Process.push at hstep
  split at hstep
  · next hguard =>
      obtain ⟨channel, hchannel, rfl⟩ := Option.map_eq_some_iff.mp hstep
      obtain ⟨hentered, hring, hcall⟩ := hguard
      obtain ⟨hoffered, hpushed, hpopped⟩ := startPush_frame hchannel
      have hrecording : proc.stage.recording = true := by
        by_contra hsilent
        have hnot := (hinv.silent (Bool.eq_false_of_not_eq_true hsilent) tid).2
        exact absurd (hnot.symm.trans hentered) (by decide)
      refine (hinv.setChannel ((hinv.channel tid).startPush hchannel) hpopped
        (le_of_eq (by rw [hpushed])) (fun event hevent => ?_)
        (.inr ⟨hrecording, hring⟩)).leave tid
      rw [hoffered, List.mem_append, List.mem_singleton] at hevent
      rcases hevent with hold | rfl
      · exact hinv.ranged tid event hold
      · exact eventInRange hcall tid
  · cases hstep

theorem Captured.pushStep (hinv : Captured proc)
    (hstep : proc.pushStep tid = some target) : Captured target := by
  obtain ⟨⟨channel, result⟩, hchannel, rfl⟩ := Option.map_eq_some_iff.mp hstep
  obtain ⟨hoffered, hpushed, hpopped⟩ := stepPush_frame hchannel
  exact hinv.setChannel ((hinv.channel tid).stepPush hchannel) hpopped hpushed
    (by rw [hoffered]; exact hinv.ranged tid) (.inl hoffered)

theorem Captured.openFile (hinv : Captured proc) {start : Option ℕ}
    (hstep : proc.openFile start = some target) : Captured target := by
  unfold Process.openFile at hstep
  split at hstep
  · next hguard =>
      obtain rfl := Option.some.inj hstep
      obtain ⟨hstage, hstart⟩ := hguard
      have hsilent : proc.stage.recording = false := by rw [hstage]; rfl
      have hrunning : proc.running = true := by
        rw [hinv.running, hstage]
        rfl
      refine { hinv with
        silent := fun _ => hinv.silent hsilent
        file := fun bytes hbytes => ?_
        active := fun hsome _ => ?_
        running := hrunning }
      · obtain ⟨startNs, hmem, rfl⟩ := Option.map_eq_some_iff.mp hbytes
        refine ⟨startNs, hstart startNs hmem, ?_⟩
        dsimp only
        rw [hinv.processed_eq_nil hsilent]
        rfl
      · simpa using hsome
  · cases hstep

theorem Captured.enable (hinv : Captured proc)
    (hstep : proc.enable = some target) : Captured target := by
  unfold Process.enable at hstep
  split at hstep
  · next hstage =>
      obtain rfl := Option.some.inj hstep
      refine { hinv with
        silent := fun h => by cases h
        running := ?_ }
      rw [hinv.running, hstage]
      rfl
  · cases hstep

theorem Captured.shutDown (hinv : Captured proc)
    (hstep : proc.shutDown = some target) : Captured target := by
  unfold Process.shutDown at hstep
  split at hstep
  · next hstage =>
      obtain rfl := Option.some.inj hstep
      refine { hinv with
        silent := fun h => by cases h
        running := ?_ }
      rw [hinv.running, hstage]
      rfl
  · cases hstep

/-- The background thread cannot have begun its last drain before the stop. -/
theorem Captured.stop (hinv : Captured proc)
    (hstep : proc.stop = some target) : Captured target := by
  unfold Process.stop at hstep
  split at hstep
  · next hstage =>
      obtain rfl := Option.some.inj hstep
      have hrunning : proc.running = true := by
        rw [hinv.running, hstage]
        rfl
      refine { hinv with
        silent := fun h => by cases h
        running := rfl
        last := fun _ => rfl
        atStop := fun _ => le_rfl
        drained := fun rest hrest => ?_ }
      have hlast : proc.collector.last = true := by
        have hremaining : proc.collector.remaining = some rest := hrest
        unfold Collector.remaining at hremaining
        split at hremaining
        · next hcollector => rw [hcollector]; rfl
        · next hcollector => rw [hcollector]; rfl
        · cases hremaining
      exact absurd ((hinv.last hlast).symm.trans hrunning) (by decide)
  · cases hstep

theorem Captured.close (hinv : Captured proc)
    (hstep : proc.close = some target) : Captured target := by
  unfold Process.close at hstep
  split at hstep
  · next hguard =>
      obtain rfl := Option.some.inj hstep
      obtain ⟨hstage, hexited⟩ := hguard
      refine { hinv with
        silent := fun h => by cases h
        active := fun _ hnot => absurd hexited hnot
        running := ?_ }
      rw [hinv.running, hstage]
      rfl
  · cases hstep

theorem Captured.reset (hinv : Captured proc) {id : ℕ} {reason : DeoptReason}
    (hstep : proc.reset knobs id reason = some target) : Captured target := by
  unfold Process.reset at hstep
  split at hstep
  · split at hstep
    · obtain rfl := Option.some.inj hstep
      exact { hinv with }
    · cases hstep
  · cases hstep

/-- The next event of the ring is handled. -/
theorem Captured.handle (hinv : Captured proc) {last found : Bool}
    {rest : List ℕ} {event : AllocEvent} (chance : Chance)
    (hcollector : proc.collector = .drain last found (tid :: rest))
    (htaken : (proc.channels tid).stepPop.2 = some (some event)) :
    Captured
      { (proc.setChannel tid (proc.channels tid).stepPop.1).handle knobs tid
          event chance with
        collector := .drain last true (tid :: rest) } := by
  have hnext := (hinv.channel tid).stepPop
  obtain ⟨hoffered, hpushed, hpopped, -⟩ := stepPop_frame (hinv.channel tid)
  rw [htaken] at hpopped
  have hactive : proc.file.isSome = true → proc.active = true := fun hfile =>
    hinv.active hfile (by rw [hcollector]; exact Collector.noConfusion)
  have hrange : EventInRange event := by
    refine hinv.ranged tid event ?_
    rw [← hoffered]
    refine (pushed_sublist hnext).subset (hnext.order.subset ?_)
    rw [hpopped]
    exact List.mem_append_right _ List.mem_cons_self
  -- Nothing but the channel's popped events changes.
  have hother : ∀ other, other ≠ tid →
      ((proc.setChannel tid (proc.channels tid).stepPop.1).channels other) =
        proc.channels other := fun _ hne => Function.update_of_ne hne ..
  have hself : (proc.setChannel tid (proc.channels tid).stepPop.1).channels tid =
      (proc.channels tid).stepPop.1 := Function.update_self ..
  have hgrow : ∀ other, (proc.channels other).popped.length ≤
      ((proc.setChannel tid (proc.channels tid).stepPop.1).channels
        other).popped.length := fun other => by
    rcases eq_or_ne other tid with rfl | hne
    · rw [hself, hpopped, List.length_append]
      exact Nat.le_add_right _ _
    · rw [hother other hne]
  have hkeep : ∀ other,
      ((proc.setChannel tid (proc.channels tid).stepPop.1).channels
          other).offered = (proc.channels other).offered ∧
        ((proc.setChannel tid (proc.channels tid).stepPop.1).channels
          other).pushed = (proc.channels other).pushed := fun other => by
    rcases eq_or_ne other tid with rfl | hne
    · rw [hself]
      exact ⟨hoffered, hpushed⟩
    · rw [hother other hne]
      exact ⟨rfl, rfl⟩
  have hchannel : ∀ other, Ring.Inv
      ((proc.setChannel tid (proc.channels tid).stepPop.1).channels other) :=
    fun other => by
      rcases eq_or_ne other tid with rfl | hne
      · rwa [hself]
      · rw [hother other hne]
        exact hinv.channel other
  exact
    { channel := hchannel
      ranged := fun other offered hmem =>
        hinv.ranged other offered ((hkeep other).1 ▸ hmem)
      silent := fun hsilent other =>
        ⟨(hkeep other).1.trans (hinv.silent hsilent other).1,
          (hinv.silent hsilent other).2⟩
      registered := fun other hring =>
        (hkeep other).1.trans (hinv.registered other hring)
      handled := fun other => by
        change List.map _ (List.filter _ (proc.processed ++ _)) = _
        rw [List.filter_append, List.map_append]
        rcases eq_or_ne other tid with rfl | hne
        · refine Eq.trans ?_ (congrArg Channel.popped hself).symm
          rw [hpopped, ← hinv.handled other]
          congr 1
          simp [taken, record_event]
        · refine Eq.trans ?_ (congrArg Channel.popped (hother other hne)).symm
          rw [← hinv.handled other]
          simp [hne.symm, Process.eventsOf]
      records := fun item hitem => by
        rcases List.mem_append.mp hitem with hold | hnew
        · exact hinv.records item hold
        · rw [List.mem_singleton.mp hnew]
          exact record_inRange hrange chance
      file := fun bytes hbytes => by
        dsimp only [Process.handle, Process.setChannel] at hbytes ⊢
        cases hfile : proc.file with
        | none => simp [hfile] at hbytes
        | some before =>
            rw [hfile, if_pos (hactive (by rw [hfile]; rfl)),
              Option.map_some, Option.some.injEq] at hbytes
            obtain ⟨startNs, hstart, hbefore⟩ := hinv.file before hfile
            refine ⟨startNs, hstart, ?_⟩
            rw [← hbytes, hbefore, List.map_append, List.foldl_append]
            rfl
      active := fun hfile _ => by
        refine hactive ?_
        dsimp only [Process.handle, Process.setChannel] at hfile
        split at hfile
        · rwa [Option.isSome_map] at hfile
        · exact hfile
      running := hinv.running
      last := fun hlast => hinv.last (by rw [hcollector]; exact hlast)
      atStop := fun other =>
        (hinv.atStop other).trans (le_of_eq (by rw [← (hkeep other).2]; rfl))
      drained := fun others hothers other hnot => by
        refine (hinv.drained others ?_ other hnot).trans (hgrow other)
        rw [hcollector]
        cases last <;> exact hothers }

/-- The background thread moves on without touching a ring. -/
theorem Captured.goto (hinv : Captured proc) {collector : Collector}
    (hexited : proc.collector ≠ .exited)
    (hlast : collector.last = true → proc.running = false)
    (hdrained : ∀ rest, collector.remaining = some rest →
      ∀ tid, tid ∉ rest → proc.atStop tid ≤ (proc.channels tid).popped.length) :
    Captured { proc with collector := collector } :=
  { hinv with
    active := fun hfile _ => hinv.active hfile hexited
    last := hlast
    drained := hdrained }

theorem Captured.drainStep (hinv : Captured proc) {last found : Bool}
    {rest : List ℕ} {chance : Chance}
    (hcollector : proc.collector = .drain last found (tid :: rest))
    (hstep : proc.drainStep knobs last found tid rest chance = some target) :
    Captured target := by
  obtain ⟨hoffered, hpushed, hpopped, hempty⟩ :=
    stepPop_frame (hinv.channel tid)
  have hexited : proc.collector ≠ .exited := by
    rw [hcollector]
    exact Collector.noConfusion
  have hlast : last = true → proc.running = false := fun h =>
    hinv.last (by rw [hcollector]; exact h)
  -- An access that takes nothing leaves the histories of the ring alone.
  have hframe : taken (proc.channels tid).stepPop.2 = [] →
      Captured (proc.setChannel tid (proc.channels tid).stepPop.1) ∧
        ∀ other, ((proc.setChannel tid
          (proc.channels tid).stepPop.1).channels other).popped =
            (proc.channels other).popped := fun hnone => by
    rw [hnone, List.append_nil] at hpopped
    refine ⟨hinv.setChannel (hinv.channel tid).stepPop hpopped
      (le_of_eq (by rw [hpushed])) (by rw [hoffered]; exact hinv.ranged tid)
      (.inl hoffered), fun other => ?_⟩
    rcases eq_or_ne other tid with rfl | hne
    · simpa [Process.setChannel] using hpopped
    · simp [Process.setChannel, hne]
  unfold Process.drainStep at hstep
  dsimp only at hstep
  split at hstep
  · next hnone =>
      obtain rfl := Option.some.inj hstep
      obtain ⟨hnext, hsame⟩ := hframe (by rw [hnone]; rfl)
      refine hnext.goto hexited hlast fun others hothers other hnot => ?_
      rw [hsame]
      refine hinv.drained others ?_ other hnot
      rw [hcollector]
      exact hothers
  · next hnone =>
      obtain rfl := Option.some.inj hstep
      obtain ⟨hnext, hsame⟩ := hframe (by rw [hnone]; rfl)
      refine hnext.goto hexited hlast fun others hothers other hnot => ?_
      rw [hsame]
      cases last with
      | false => cases hothers
      | true =>
          obtain rfl := Option.some.inj hothers
          rcases eq_or_ne other tid with rfl | hne
          · rw [← hempty hnone]
            exact hinv.atStop other
          · refine hinv.drained (tid :: rest) ?_ other
              (List.not_mem_cons_of_ne_of_not_mem hne hnot)
            rw [hcollector]
            rfl
  · next event htaken =>
      split at hstep
      · obtain rfl := Option.some.inj hstep
        exact hinv.handle chance hcollector htaken
      · cases hstep

theorem Captured.collect (hinv : Captured proc) {park : Bool} {chance : Chance}
    (hstep : proc.collect knobs park chance = some target) :
    Captured target := by
  have hexited : ∀ {collector}, proc.collector = collector →
      collector ≠ .exited → proc.collector ≠ .exited := by
    rintro _ rfl h
    exact h
  unfold Process.collect at hstep
  split at hstep
  · next hcollector =>
      obtain rfl := Option.some.inj hstep
      refine hinv.goto (hexited hcollector Collector.noConfusion)
        (fun hlast => ?_) fun _ h => by cases h
      simpa [Collector.last] using hlast
  · next last hcollector =>
      obtain rfl := Option.some.inj hstep
      refine hinv.goto (hexited hcollector Collector.noConfusion)
        (fun hlast => hinv.last (by rw [hcollector]; exact hlast))
        fun rest hrest tid hnot => ?_
      cases last with
      | false => cases hrest
      | true =>
          -- A ring that is not in the list has never been used.
          obtain rfl := Option.some.inj hrest
          have hnone := hinv.pushed_eq_nil (hinv.registered tid hnot)
          exact (hinv.atStop tid).trans (by rw [hnone]; exact Nat.zero_le _)
  · next last found hcollector =>
      obtain rfl := Option.some.inj hstep
      have hdrained := hinv.drained
      have hlast := hinv.last
      rw [hcollector] at hdrained hlast
      refine hinv.goto (hexited hcollector Collector.noConfusion) ?_ ?_
      · cases last with
        | true => exact fun _ => hlast rfl
        | false => cases found <;> exact fun h => by cases h
      · cases last with
        | true =>
            intro rest hrest
            obtain rfl := Option.some.inj hrest
            exact hdrained [] rfl
        | false => cases found <;> exact fun _ h => by cases h
  · next last found tid rest hcollector => exact hinv.drainStep hcollector hstep
  · next hcollector =>
      obtain rfl := Option.some.inj hstep
      refine hinv.goto (hexited hcollector Collector.noConfusion) ?_ ?_
      · cases park with
        | false => exact fun h => by cases h
        | true =>
            cases hrunning : proc.running with
            | false => exact fun _ => rfl
            | true => exact fun h => by cases h
      · cases park with
        | false => exact fun _ h => by cases h
        | true => cases proc.running <;> exact fun _ h => by cases h
  · next hcollector =>
      obtain rfl := Option.some.inj hstep
      exact hinv.goto (hexited hcollector Collector.noConfusion)
        (fun h => by cases h) fun _ h => by cases h
  · cases hstep

theorem Captured.step (hinv : Captured proc) {move : Move}
    (hstep : proc.step knobs move = some target) : Captured target := by
  cases move with
  | enter tid => exact hinv.enter hstep
  | leave tid =>
      change proc.leave tid = some target at hstep
      unfold Process.leave at hstep
      split at hstep
      · obtain rfl := Option.some.inj hstep
        exact hinv.leave tid
      · cases hstep
  | register tid => exact hinv.register hstep
  | push tid call => exact hinv.push hstep
  | pushStep tid => exact hinv.pushStep hstep
  | openFile start => exact hinv.openFile hstep
  | enable => exact hinv.enable hstep
  | shutDown => exact hinv.shutDown hstep
  | stop => exact hinv.stop hstep
  | close => exact hinv.close hstep
  | reset id reason => exact hinv.reset hstep
  | collect park chance => exact hinv.collect hstep

end Steps

theorem captured_of_reachable {knobs : Knobs} {proc : Process}
    (hreach : Transition.Reachable (Process.step knobs) .initial proc) :
    Captured proc :=
  hreach.invariant captured_initial fun _ _ _ hinv hstep => hinv.step hstep

/-! ## What a reader gets -/

section Reading

variable {knobs : Knobs} {proc : Process} {bytes : Bytes}

/-- A reader gets the records of the events handled. -/
theorem Captured.readTrace_eq (hinv : Captured proc)
    (hfile : proc.file = some bytes) :
    readTrace bytes = .ok (proc.processed.map Prod.snd) := by
  obtain ⟨startNs, hstart, rfl⟩ := hinv.file bytes hfile
  refine readTrace_eq_ok_iff.mpr ⟨fun record hrecord => ?_, startNs, [], hstart,
    eventCodec.size_pos, (List.append_nil _).symm⟩
  obtain ⟨item, hitem, rfl⟩ := List.mem_map.mp hrecord
  exact hinv.records item hitem

/-- Nothing is special about an event. -/
def plainChance : Chance where
  compile := fun _ => none
  segSite := none
  timestampNs := 9
  padding := [0, 0, 0, 0]
  timestamp_lt := by decide
  padding_length := rfl

/-- The background thread goes on. -/
def onward (count : ℕ) : List Move :=
  List.replicate count (.collect false plainChance)

/-- Thread 3 records an allocation while its ring is drained, thread 4 another
and its free, and the process ends. -/
def twoThreads : List Move :=
  [.openFile (some 5), .enable, .enter 3, .register 3,
    .push 3 (.alloc 7 48 4096), .enter 4, .register 4,
    .push 4 (.alloc 9 32 8192)] ++ onward 2 ++
  [.pushStep 3, .pushStep 4, .pushStep 4, .pushStep 3, .pushStep 4,
    .pushStep 3, .enter 4, .push 4 (.free 9 8192), .pushStep 4, .pushStep 4,
    .pushStep 4, .shutDown, .stop] ++ onward 24 ++ [.close]

/-- The newer ring is drained first. -/
def twoThreadsRecords : List EventRecord :=
  [⟨9, 32, 9, 4, [0, 0, 0, 0], 8192⟩, ⟨9, 0, 9, 4, [0, 0, 0, 0], 8192⟩,
    ⟨7, 48, 9, 3, [0, 0, 0, 0], 4096⟩]

end Reading

end TbjitAlloc.Trace
