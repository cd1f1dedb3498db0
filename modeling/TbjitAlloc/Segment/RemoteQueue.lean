import TbjitAlloc.Core.Transition
import TbjitAlloc.Segment.Heap

/-!
# The remote-free queue, access by access

`mpsc_push` and `mpsc_harvest` of one segment with every access to shared memory
a step of its own.  Any number of threads push at the same time, a
compare-exchange may fail for no reason, and the owner takes the whole chain
whenever it likes.  In between the application writes to the chunks it holds.
The link words of distinct chunks are taken not to overlap, as those of chunks
of at least eight bytes do not; what a free of a shorter chunk overwrites is
stated with the free path.
A log of the pushes and of the harvests is kept beside the memory; no step reads
it.
-/

namespace TbjitAlloc.Segment

open TbjitAlloc.ByteMemory
open TbjitAlloc.LinkedChain
open TbjitAlloc.Transition

/-- A call of `mpsc_push`: `cur` is the head it has loaded, `linked` says that
`cur` has been written into the chunk. -/
structure Push where
  chunk : ℕ
  cur : ℕ
  linked : Bool
  deriving DecidableEq

/-- What a harvest returned, and the links at that moment. -/
structure Harvest where
  head : ℕ
  link : ℕ → ℕ

/-- `link` is the first word of every chunk. -/
structure RemoteQueue (Producer : Type*) where
  remoteHead : ℕ
  link : ℕ → ℕ
  pushing : Producer → Option Push
  pushed : List ℕ
  harvests : List Harvest

inductive QueueStep (Producer : Type*)
  /-- A call starts with the load of the head. -/
  | load (tid : Producer) (chunk : ℕ)
  | link (tid : Producer)
  | compareExchange (tid : Producer) (spurious : Bool)
  | harvest
  /-- The application writes to the first word of a chunk. -/
  | write (chunk value : ℕ)

/-- The chunk a step hands to the queue or writes to. -/
def QueueStep.touched {Producer : Type*} : QueueStep Producer → Option ℕ
  | .load _ chunk => some chunk
  | .write chunk _ => some chunk
  | _ => none

namespace RemoteQueue

variable {Producer : Type*} [DecidableEq Producer]

/-- An empty queue over memory with anything in it. -/
def initial (link : ℕ → ℕ) : RemoteQueue Producer where
  remoteHead := 0
  link := link
  pushing := fun _ => none
  pushed := []
  harvests := []

def setPushing (queue : RemoteQueue Producer) (tid : Producer)
    (push : Option Push) : RemoteQueue Producer :=
  { queue with pushing := Function.update queue.pushing tid push }

/-- `*static_cast<void**>(chunk) = cur`. -/
def writeLink (queue : RemoteQueue Producer) (tid : Producer) (push : Push) :
    RemoteQueue Producer :=
  { queue.setPushing tid (some { push with linked := true }) with
    link := Function.update queue.link push.chunk push.cur }

/-- A failed exchange leaves the head it has seen in `cur`. -/
def exchange (queue : RemoteQueue Producer) (tid : Producer) (push : Push)
    (spurious : Bool) : RemoteQueue Producer :=
  if queue.remoteHead = push.cur ∧ spurious = false then
    { queue.setPushing tid none with
      remoteHead := push.chunk
      pushed := queue.pushed ++ [push.chunk] }
  else queue.setPushing tid (some ⟨push.chunk, queue.remoteHead, false⟩)

/-- `mpsc_harvest`: the head is exchanged for null. -/
def harvest (queue : RemoteQueue Producer) : RemoteQueue Producer :=
  { queue with
    remoteHead := 0
    harvests := queue.harvests ++ [⟨queue.remoteHead, queue.link⟩] }

def step (queue : RemoteQueue Producer) :
    QueueStep Producer → Option (RemoteQueue Producer)
  | .load tid chunk =>
      if (queue.pushing tid).isSome then none
      else some (queue.setPushing tid (some ⟨chunk, queue.remoteHead, false⟩))
  | .link tid =>
      (queue.pushing tid).bind fun push =>
        if push.linked then none else some (queue.writeLink tid push)
  | .compareExchange tid spurious =>
      (queue.pushing tid).bind fun push =>
        if push.linked then some (queue.exchange tid push spurious) else none
  | .harvest => some queue.harvest
  | .write chunk value =>
      some { queue with link := Function.update queue.link chunk value }

/-- The chunk is on the chain from `remote_head`. -/
def OnQueue (queue : RemoteQueue Producer) (chunk : ℕ) : Prop :=
  ∃ nodes, Chain 0 queue.link queue.remoteHead nodes ∧ chunk ∈ nodes

/-- The chunk is nobody else's: not on the queue and not about to be. -/
def Held (queue : RemoteQueue Producer) (chunk : ℕ) : Prop :=
  ¬queue.OnQueue chunk ∧
    ∀ tid push, queue.pushing tid = some push → push.chunk ≠ chunk

/-- Chunks are pushed, and written to, by whoever holds them. -/
def Allowed (queue : RemoteQueue Producer) : QueueStep Producer → Prop
  | .load _ chunk => chunk ≠ 0 ∧ queue.Held chunk
  | .write chunk _ => queue.Held chunk
  | _ => True

/-! ## What the links say -/

/-- A push under way: its chunk is not on the queue yet, and once it is linked
the link is the head that the exchange expects. -/
structure PushOk (queue : RemoteQueue Producer) (nodes : List ℕ)
    (push : Push) : Prop where
  chunk_ne : push.chunk ≠ 0
  chunk_notMem : push.chunk ∉ nodes
  link_eq : push.linked = true → queue.link push.chunk = push.cur

/-- The chain from the head is `nodes`, apart from the chunks on their way. -/
structure Linked (queue : RemoteQueue Producer) (nodes : List ℕ) : Prop where
  chain : Chain 0 queue.link queue.remoteHead nodes
  push : ∀ tid push, queue.pushing tid = some push → queue.PushOk nodes push
  distinct : ∀ tid other push push', queue.pushing tid = some push →
    queue.pushing other = some push' → push.chunk = push'.chunk → tid = other

/-- Every chain that was harvested is a chain, and the pushes so far are those
of the harvested chains and of the queue, each chain newest first. -/
def Accounted (queue : RemoteQueue Producer) (nodes : List ℕ) : Prop :=
  ∃ chains : List (List ℕ),
    List.Forall₂ (fun harvest nodes => Chain 0 harvest.link harvest.head nodes)
      queue.harvests chains ∧
    queue.pushed = (chains.map List.reverse).flatten ++ nodes.reverse

section Step

variable {queue target : RemoteQueue Producer} {nodes nodes' : List ℕ}
variable {tid : Producer} {push : Push} {chunk : ℕ}

omit [DecidableEq Producer] in
theorem Linked.onQueue_iff (hlinked : queue.Linked nodes) :
    queue.OnQueue chunk ↔ chunk ∈ nodes := by
  constructor
  · rintro ⟨others, hchain, hmem⟩
    rwa [hlinked.chain.unique hchain]
  · exact fun hmem => ⟨nodes, hlinked.chain, hmem⟩

omit [DecidableEq Producer] in
/-- A step of one producer: the others keep their pushes, and neither their
links nor their chunks are touched. -/
theorem Linked.move (hlinked : queue.Linked nodes) (tid : Producer)
    (hchain : Chain 0 target.link target.remoteHead nodes')
    (hothers : ∀ other push, other ≠ tid →
      target.pushing other = some push →
      queue.pushing other = some push ∧ push.chunk ∉ nodes' ∧
        target.link push.chunk = queue.link push.chunk)
    (hown : ∀ push, target.pushing tid = some push →
      target.PushOk nodes' push ∧ ∀ other push', other ≠ tid →
        queue.pushing other = some push' → push'.chunk ≠ push.chunk) :
    target.Linked nodes' := by
  refine ⟨hchain, fun other push hpush => ?_,
    fun one other push push' hpush hpush' hsame => ?_⟩
  · by_cases hother : other = tid
    · exact (hown push (hother ▸ hpush)).1
    · obtain ⟨hkept, hnotMem, hlink⟩ := hothers other push hother hpush
      have hok := hlinked.push other push hkept
      exact ⟨hok.chunk_ne, hnotMem, fun h => hlink.trans (hok.link_eq h)⟩
  · by_cases hone : one = tid
    · by_cases hother : other = tid
      · rw [hone, hother]
      · have hkept := (hothers other push' hother hpush').1
        exact absurd hsame.symm
          ((hown push (hone ▸ hpush)).2 other push' hother hkept)
    · have hkept := (hothers one push hone hpush).1
      by_cases hother : other = tid
      · exact absurd hsame
          ((hown push' (hother ▸ hpush')).2 one push hone hkept)
      · exact hlinked.distinct one other push push' hkept
          (hothers other push' hother hpush').1 hsame

@[simp] theorem setPushing_self (queue : RemoteQueue Producer) (tid : Producer)
    (push : Option Push) : (queue.setPushing tid push).pushing tid = push :=
  Function.update_self _ _ _

theorem setPushing_of_ne {other : Producer} (queue : RemoteQueue Producer)
    (push : Option Push) (hother : other ≠ tid) :
    (queue.setPushing tid push).pushing other = queue.pushing other :=
  Function.update_of_ne hother _ _

theorem Linked.load (hlinked : queue.Linked nodes) (tid : Producer)
    (hchunk : chunk ≠ 0) (hheld : queue.Held chunk) :
    (queue.setPushing tid (some ⟨chunk, queue.remoteHead, false⟩)).Linked
      nodes := by
  refine hlinked.move tid hlinked.chain (fun other push hother hpush => ?_)
    fun push hpush => ?_
  · rw [setPushing_of_ne _ _ hother] at hpush
    exact ⟨hpush, (hlinked.push other push hpush).chunk_notMem, rfl⟩
  · rw [setPushing_self] at hpush
    obtain rfl := Option.some.inj hpush
    refine ⟨⟨hchunk, fun hmem => ?_, fun h => Bool.noConfusion h⟩,
      fun other push' _ hpush' => hheld.2 other push' hpush'⟩
    exact hheld.1 (hlinked.onQueue_iff.mpr hmem)

theorem Linked.writeLink (hlinked : queue.Linked nodes)
    (hpush : queue.pushing tid = some push) :
    (queue.writeLink tid push).Linked nodes := by
  have hok := hlinked.push tid push hpush
  have hagree : ∀ other, other ≠ push.chunk →
      (queue.writeLink tid push).link other = queue.link other :=
    fun other hother => Function.update_of_ne hother _ _
  have hdistinct : ∀ other push', other ≠ tid →
      queue.pushing other = some push' → push'.chunk ≠ push.chunk :=
    fun other push' hother hpush' hsame =>
      hother (hlinked.distinct other tid push' push hpush' hpush hsame)
  refine hlinked.move tid
    (hlinked.chain.congr fun node hnode => hagree node ?_)
    (fun other push' hother hpush' => ?_) fun push' hpush' => ?_
  · exact fun h => hok.chunk_notMem (h ▸ hnode)
  · have hkept := (setPushing_of_ne queue _ hother).symm.trans hpush'
    exact ⟨hkept, (hlinked.push other push' hkept).chunk_notMem,
      hagree _ (hdistinct other push' hother hkept)⟩
  · obtain rfl := Option.some.inj
      ((setPushing_self queue tid _).symm.trans hpush')
    exact ⟨⟨hok.chunk_ne, hok.chunk_notMem, fun _ =>
      Function.update_self _ _ _⟩, hdistinct⟩

/-- A successful exchange puts the chunk in front: the head it was linked to is
the head now, whatever has happened in between. -/
theorem Linked.exchanged (hlinked : queue.Linked nodes)
    (hpush : queue.pushing tid = some push) (hwritten : push.linked = true)
    (hhead : queue.remoteHead = push.cur) :
    Linked
      { queue.setPushing tid none with
        remoteHead := push.chunk
        pushed := queue.pushed ++ [push.chunk] } (push.chunk :: nodes) := by
  have hok := hlinked.push tid push hpush
  refine hlinked.move tid (hlinked.chain.push hok.chunk_ne
    ((hok.link_eq hwritten).trans hhead.symm) fun _ _ => rfl)
    (fun other push' hother hpush' => ?_) fun push' hpush' => ?_
  · have hkept := (setPushing_of_ne queue _ hother).symm.trans hpush'
    refine ⟨hkept, fun hmem => ?_, rfl⟩
    rcases List.mem_cons.mp hmem with hsame | hmem
    · exact hother (hlinked.distinct other tid push' push hkept hpush hsame)
    · exact (hlinked.push other push' hkept).chunk_notMem hmem
  · have hnone := (setPushing_self queue tid none).symm.trans hpush'
    exact absurd hnone.symm (Option.some_ne_none _)

theorem Linked.failed (hlinked : queue.Linked nodes)
    (hpush : queue.pushing tid = some push) :
    (queue.setPushing tid (some ⟨push.chunk, queue.remoteHead, false⟩)).Linked
      nodes := by
  have hok := hlinked.push tid push hpush
  refine hlinked.move tid hlinked.chain (fun other push' hother hpush' => ?_)
    fun push' hpush' => ?_
  · rw [setPushing_of_ne _ _ hother] at hpush'
    exact ⟨hpush', (hlinked.push other push' hpush').chunk_notMem, rfl⟩
  · rw [setPushing_self] at hpush'
    obtain rfl := Option.some.inj hpush'
    exact ⟨⟨hok.chunk_ne, hok.chunk_notMem, fun h => Bool.noConfusion h⟩,
      fun other push'' hother hpush'' hsame =>
        hother (hlinked.distinct other tid push'' push hpush'' hpush hsame)⟩

omit [DecidableEq Producer] in
theorem Linked.harvested (hlinked : queue.Linked nodes) :
    queue.harvest.Linked [] where
  chain := rfl
  push tid push hpush :=
    { hlinked.push tid push hpush with chunk_notMem := List.not_mem_nil }
  distinct := hlinked.distinct

omit [DecidableEq Producer] in
theorem Linked.written (hlinked : queue.Linked nodes)
    (hheld : queue.Held chunk) (value : ℕ) :
    Linked { queue with link := Function.update queue.link chunk value }
      nodes where
  chain := hlinked.chain.congr fun node hnode => by
    have hother : node ≠ chunk := fun h =>
      hheld.1 (hlinked.onQueue_iff.mpr (h ▸ hnode))
    exact Function.update_of_ne hother _ _
  push tid push hpush := by
    have hok := hlinked.push tid push hpush
    refine ⟨hok.chunk_ne, hok.chunk_notMem, fun hlinked => ?_⟩
    rw [← hok.link_eq hlinked]
    exact Function.update_of_ne (hheld.2 tid push hpush) _ _
  distinct := hlinked.distinct

/-! ## What the log says -/

omit [DecidableEq Producer] in
theorem Accounted.exchanged {next : RemoteQueue Producer}
    (haccounted : queue.Accounted nodes)
    (hharvests : next.harvests = queue.harvests)
    (hpushed : next.pushed = queue.pushed ++ [chunk]) :
    next.Accounted (chunk :: nodes) := by
  obtain ⟨chains, hchains, hlog⟩ := haccounted
  refine ⟨chains, hharvests ▸ hchains, ?_⟩
  rw [hpushed, hlog, List.reverse_cons, List.append_assoc]

omit [DecidableEq Producer] in
theorem Accounted.harvested (haccounted : queue.Accounted nodes)
    (hchain : Chain 0 queue.link queue.remoteHead nodes) :
    queue.harvest.Accounted [] := by
  obtain ⟨chains, hchains, hlog⟩ := haccounted
  refine ⟨chains ++ [nodes], List.rel_append hchains (.cons hchain .nil), ?_⟩
  rw [harvest, hlog]
  simp

/-! ## Runs -/

/-- What holds in every state. -/
def Consistent (queue : RemoteQueue Producer) : Prop :=
  ∃ nodes, queue.Linked nodes ∧ queue.Accounted nodes

theorem consistent_step {action : QueueStep Producer}
    (hconsistent : queue.Consistent) (hallowed : queue.Allowed action)
    (hstep : queue.step action = some target) : target.Consistent := by
  obtain ⟨nodes, hlinked, haccounted⟩ := hconsistent
  cases action with
  | load tid chunk =>
      rw [step] at hstep
      split at hstep
      · cases hstep
      · obtain rfl := Option.some.inj hstep
        exact ⟨nodes, hlinked.load tid hallowed.1 hallowed.2, haccounted⟩
  | link tid =>
      obtain ⟨push, hpush, hstep⟩ := Option.bind_eq_some_iff.mp hstep
      split at hstep
      · cases hstep
      · obtain rfl := Option.some.inj hstep
        exact ⟨nodes, hlinked.writeLink hpush, haccounted⟩
  | compareExchange tid spurious =>
      obtain ⟨push, hpush, hstep⟩ := Option.bind_eq_some_iff.mp hstep
      split at hstep
      · next hwritten =>
          obtain rfl := Option.some.inj hstep
          rw [exchange]
          split
          · next hsucceeds =>
              exact ⟨push.chunk :: nodes,
                hlinked.exchanged hpush hwritten hsucceeds.1,
                haccounted.exchanged rfl rfl⟩
          · exact ⟨nodes, hlinked.failed hpush, haccounted⟩
      · cases hstep
  | harvest =>
      obtain rfl := Option.some.inj hstep
      exact ⟨[], hlinked.harvested,
        haccounted.harvested hlinked.chain⟩
  | write chunk value =>
      obtain rfl := Option.some.inj hstep
      exact ⟨nodes, hlinked.written hallowed value, haccounted⟩

theorem consistent_reachable {link : ℕ → ℕ}
    (hreach : ReachableWhen step Allowed (initial link) queue) :
    queue.Consistent := by
  refine hreach.invariant ⟨[], ?_, [], .nil, rfl⟩
    fun _ _ _ hconsistent hallowed hstep =>
      consistent_step hconsistent hallowed hstep
  exact ⟨rfl, fun tid push hpush => absurd hpush.symm (Option.some_ne_none _),
    fun tid other push push' hpush =>
      absurd hpush.symm (Option.some_ne_none _)⟩

end Step

/-! ## After a harvest -/

/-- No step pushes a chunk of the chain or writes to it. -/
def LeavesAlone (nodes : List ℕ) (queue : RemoteQueue Producer)
    (action : QueueStep Producer) : Prop :=
  queue.Allowed action ∧ ∀ chunk ∈ action.touched, chunk ∉ nodes

/-- A chain that no push under way is about to write to. -/
structure Apart (head : ℕ) (nodes : List ℕ) (queue : RemoteQueue Producer) :
    Prop where
  chain : Chain 0 queue.link head nodes
  chunk_notMem : ∀ tid push, queue.pushing tid = some push →
    push.chunk ∉ nodes

section Apart

variable {queue target : RemoteQueue Producer} {nodes : List ℕ} {head : ℕ}

theorem Apart.setPushing {tid : Producer} {push : Option Push}
    (hapart : Apart head nodes queue)
    (hchunk : ∀ kept, push = some kept → kept.chunk ∉ nodes) :
    Apart head nodes (queue.setPushing tid push) := by
  refine ⟨hapart.chain, fun other kept hkept => ?_⟩
  by_cases hother : other = tid
  · rw [hother, setPushing_self] at hkept
    exact hchunk kept hkept
  · rw [setPushing_of_ne _ _ hother] at hkept
    exact hapart.chunk_notMem other kept hkept

omit [DecidableEq Producer] in
theorem Apart.update {chunk : ℕ} (hapart : Apart head nodes queue)
    (hchunk : chunk ∉ nodes) (value : ℕ) :
    Chain 0 (Function.update queue.link chunk value) head nodes :=
  hapart.chain.congr fun node hnode => by
    have hother : node ≠ chunk := fun h => hchunk (h ▸ hnode)
    exact Function.update_of_ne hother _ _

theorem apart_step {action : QueueStep Producer}
    (hapart : Apart head nodes queue)
    (halone : queue.LeavesAlone nodes action)
    (hstep : queue.step action = some target) : Apart head nodes target := by
  cases action with
  | load tid chunk =>
      rw [step] at hstep
      split at hstep
      · cases hstep
      · obtain rfl := Option.some.inj hstep
        refine hapart.setPushing fun kept hkept => ?_
        obtain rfl := Option.some.inj hkept
        exact halone.2 chunk rfl
  | link tid =>
      obtain ⟨push, hpush, hstep⟩ := Option.bind_eq_some_iff.mp hstep
      have hchunk := hapart.chunk_notMem tid push hpush
      split at hstep
      · cases hstep
      · obtain rfl := Option.some.inj hstep
        have hmoved : Apart head nodes
            (queue.setPushing tid (some { push with linked := true })) :=
          hapart.setPushing fun kept hkept => Option.some.inj hkept ▸ hchunk
        exact ⟨hmoved.update hchunk push.cur, hmoved.chunk_notMem⟩
  | compareExchange tid spurious =>
      obtain ⟨push, hpush, hstep⟩ := Option.bind_eq_some_iff.mp hstep
      have hchunk := hapart.chunk_notMem tid push hpush
      split at hstep
      · obtain rfl := Option.some.inj hstep
        rw [exchange]
        split
        · have hmoved : Apart head nodes (queue.setPushing tid none) :=
            hapart.setPushing fun kept hkept =>
              absurd hkept.symm (Option.some_ne_none _)
          exact ⟨hmoved.chain, hmoved.chunk_notMem⟩
        · exact hapart.setPushing fun kept hkept =>
            Option.some.inj hkept ▸ hchunk
      · cases hstep
  | harvest =>
      obtain rfl := Option.some.inj hstep
      exact ⟨hapart.chain, hapart.chunk_notMem⟩
  | write chunk value =>
      obtain rfl := Option.some.inj hstep
      exact ⟨hapart.update (halone.2 chunk rfl) value, hapart.chunk_notMem⟩

end Apart

/-! ## No chunk is lost, none comes twice -/

section Conservation

variable {queue : RemoteQueue Producer} {link : ℕ → ℕ}

theorem count_flatten_reverse (chains : List (List ℕ)) (chunk : ℕ) :
    (chains.map List.reverse).flatten.count chunk =
      chains.flatten.count chunk := by
  simp [List.count_flatten, Function.comp_def]

/-- At any time the chains harvested so far, followed when they were taken, and
the chain in the queue end in null and visit the pushed chunks in the order of
the pushes, each chain newest first, so every chunk as often as it was pushed.
A chain that is harvested now can be followed until somebody else gets one of
its chunks. -/
theorem remoteQueue_conserves
    (hreach : ReachableWhen step Allowed (initial link) queue) :
    ∃ (chains : List (List ℕ)) (nodes : List ℕ),
      List.Forall₂ (fun harvest nodes =>
        Chain 0 harvest.link harvest.head nodes) queue.harvests chains ∧
      Chain 0 queue.link queue.remoteHead nodes ∧
      queue.pushed = (chains.map List.reverse).flatten ++ nodes.reverse ∧
      (∀ chunk, (chains.flatten ++ nodes).count chunk =
        queue.pushed.count chunk) ∧
      ∀ later, ReachableWhen step (LeavesAlone nodes) queue.harvest later →
        Chain 0 later.link queue.remoteHead nodes := by
  obtain ⟨nodes, hlinked, chains, hchains, hpushed⟩ :=
    consistent_reachable hreach
  refine ⟨chains, nodes, hchains, hlinked.chain, hpushed, fun chunk => ?_,
    fun later hlater => ?_⟩
  · rw [hpushed, List.count_append, List.count_append, count_flatten_reverse,
      List.count_reverse]
  · have hapart : Apart queue.remoteHead nodes queue.harvest :=
      ⟨hlinked.chain, fun tid push hpush =>
        (hlinked.push tid push hpush).chunk_notMem⟩
    exact (hlater.invariant hapart fun _ _ _ hapart halone hstep =>
      apart_step hapart halone hstep).chain

/-- Whether a chunk is held, for two producers and a short queue. -/
def heldCheck (queue : RemoteQueue Bool) (chunk : ℕ) : Bool :=
  ((walk 0 queue.link 4 queue.remoteHead).any fun nodes => chunk ∉ nodes) &&
    [false, true].all fun tid =>
      (queue.pushing tid).all fun push => push.chunk ≠ chunk

theorem held_of_check {queue : RemoteQueue Bool} {chunk : ℕ}
    (hcheck : heldCheck queue chunk = true) : queue.Held chunk := by
  obtain ⟨hwalk, hpushing⟩ := (Bool.and_eq_true _ _).mp hcheck
  obtain ⟨nodes, hnodes, hnotMem⟩ := (Option.any_eq_true _ _).mp hwalk
  refine ⟨fun ⟨others, hchain, hmem⟩ => ?_, fun tid push hpush => ?_⟩
  · rw [hchain.unique (chain_of_walk hnodes)] at hmem
    exact of_decide_eq_true hnotMem hmem
  · have hall := List.all_eq_true.mp hpushing tid (by cases tid <;> simp)
    rw [hpush] at hall
    exact of_decide_eq_true hall

def allowedCheck (queue : RemoteQueue Bool) : QueueStep Bool → Bool
  | .load _ chunk => chunk ≠ 0 && heldCheck queue chunk
  | .write chunk _ => heldCheck queue chunk
  | _ => true

theorem allowed_of_check (queue : RemoteQueue Bool) (action : QueueStep Bool)
    (hcheck : allowedCheck queue action = true) : queue.Allowed action := by
  cases action with
  | load tid chunk =>
      obtain ⟨hchunk, hheld⟩ := (Bool.and_eq_true _ _).mp hcheck
      exact ⟨of_decide_eq_true hchunk, held_of_check hheld⟩
  | write chunk value => exact held_of_check hcheck
  | _ => trivial

/-- Two producers load the same head.  One wins, the other fails, fails again
for no reason and then succeeds.  The chain is harvested, its first chunk is
written to and pushed once more. -/
def race : List (QueueStep Bool) :=
  [.load false 16, .load true 32, .link false, .link true,
    .compareExchange false false, .compareExchange true false, .link true,
    .compareExchange true true, .link true, .compareExchange true false,
    .harvest, .write 32 7, .load false 32, .link false,
    .compareExchange false false]

theorem remoteQueue_conserves_race :
    ∃ queue : RemoteQueue Bool, queue.pushed = [16, 32, 32] ∧
      queue.harvests.map Harvest.head = [32] ∧
      ∃ (chains : List (List ℕ)) (nodes : List ℕ),
        List.Forall₂ (fun harvest nodes =>
          Chain 0 harvest.link harvest.head nodes) queue.harvests chains ∧
        Chain 0 queue.link queue.remoteHead nodes ∧
        queue.pushed = (chains.map List.reverse).flatten ++ nodes.reverse ∧
        (∀ chunk, (chains.flatten ++ nodes).count chunk =
          queue.pushed.count chunk) ∧
        ∀ later, ReachableWhen step (LeavesAlone nodes) queue.harvest later →
          Chain 0 later.link queue.remoteHead nodes := by
  have hrun : (run (fun queue action =>
      if allowedCheck queue action then step queue action else none)
      (initial fun _ => 0) race).any (fun queue =>
        decide (queue.pushed = [16, 32, 32] ∧
          queue.harvests.map Harvest.head = [32])) = true := by
    decide +kernel
  obtain ⟨queue, hqueue, hfacts⟩ := (Option.any_eq_true _ _).mp hrun
  obtain ⟨hpushed, hharvests⟩ := of_decide_eq_true hfacts
  exact ⟨queue, hpushed, hharvests, remoteQueue_conserves
    (reachableWhen_of_run allowed_of_check .start hqueue)⟩

end Conservation

/-! ## The atomic push -/

section Atomic

variable {heap : Heap} {base chunk : ℕ}

/-- The queue of a segment as the interleaved model sees it. -/
def ofHeap (heap : Heap) (header : SegmentHeader) : RemoteQueue Producer where
  remoteHead := header.remoteHead
  link := readWord heap.memory
  pushing := fun _ => none
  pushed := []
  harvests := []

/-- The accesses of a push in a row. -/
theorem run_uncontended (queue : RemoteQueue Producer) (tid : Producer)
    (chunk : ℕ) (hidle : queue.pushing tid = none) :
    ∃ target, run step queue
        [.load tid chunk, .link tid, .compareExchange tid false] = some target ∧
      target.remoteHead = chunk ∧
      target.link = Function.update queue.link chunk queue.remoteHead := by
  obtain ⟨push, hpush⟩ :
      ∃ push : Push, push = ⟨chunk, queue.remoteHead, false⟩ := ⟨_, rfl⟩
  have hload : queue.step (.load tid chunk) =
      some (queue.setPushing tid (some push)) := by
    rw [step, hidle, hpush]
    rfl
  have hlink : (queue.setPushing tid (some push)).step (.link tid) =
      some ((queue.setPushing tid (some push)).writeLink tid push) := by
    rw [step, setPushing_self, hpush]
    rfl
  subst hpush
  refine ⟨_, by rw [run, hload, Option.bind_some, run, hlink, Option.bind_some,
    run, step, writeLink, setPushing_self, Option.bind_some, if_pos rfl,
    exchange, if_pos ⟨rfl, rfl⟩, Option.bind_some, run], rfl, rfl⟩

/-- A push that nobody interferes with is `mpscPush`. -/
theorem mpscPush_uncontended {header : SegmentHeader} (tid : Producer)
    (hload : heap.loadHeader base = some header)
    (hhead : header.remoteHead < 2 ^ 64) :
    ∃ (target : Heap) (queue : RemoteQueue Producer),
      mpscPush heap base chunk = some target ∧
      run step (ofHeap heap header)
        [.load tid chunk, .link tid, .compareExchange tid false] =
          some queue ∧
      (target.loadHeader base).map SegmentHeader.remoteHead =
        some queue.remoteHead ∧
      ∀ other, other = chunk ∨ other + 8 ≤ chunk ∨ chunk + 8 ≤ other →
        readWord target.memory other = queue.link other := by
  obtain ⟨queue, hrun, hchunk, hlink⟩ :=
    run_uncontended (ofHeap heap header) tid chunk rfl
  have hmapped : heap.mapped base = true := by
    by_contra hunmapped
    rw [Heap.loadHeader, if_neg hunmapped] at hload
    cases hload
  refine ⟨_, queue, by rw [mpscPush, hload, Option.map_some], hrun, ?_,
    fun other hother => ?_⟩
  · rw [hchunk, Heap.loadHeader]
    simp [Heap.storeHeader, hmapped]
  · rw [hlink]
    rcases hother with rfl | hdisjoint
    · rw [Function.update_self]
      exact readWord_writeWord_same _ _ hhead
    · rw [Function.update_of_ne (by omega)]
      exact readWord_writeWord_disjoint _ _ hdisjoint

end Atomic

end RemoteQueue

end TbjitAlloc.Segment
