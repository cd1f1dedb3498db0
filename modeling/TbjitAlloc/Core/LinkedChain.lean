import Mathlib

/-!
# Null-terminated chains

A singly linked list stored in some memory is seen through its successor
function.  `Chain null next head nodes` says that following `next` from `head`
visits exactly `nodes`, in order, and then stops at `null`.  Chains are
determined by their head, have no repeated node, and survive every change of
the successor function outside their nodes.  `Lists` forgets the order and keeps
the set of nodes.
-/

namespace TbjitAlloc.LinkedChain

variable {Node : Type*}

/-- Following `next` from `head` visits `nodes` and ends at `null`. -/
def Chain (null : Node) (next : Node → Node) : Node → List Node → Prop
  | head, [] => head = null
  | head, node :: rest =>
      head = node ∧ node ≠ null ∧ Chain null next (next node) rest

/-- Walk a chain for at most `fuel` links; `none` when it has not ended. -/
def walk [DecidableEq Node] (null : Node) (next : Node → Node) :
    ℕ → Node → Option (List Node)
  | 0, head => if head = null then some [] else none
  | fuel + 1, head =>
      if head = null then some []
      else (walk null next fuel (next head)).map (head :: ·)

variable {null : Node} {next : Node → Node}

@[simp]
theorem chain_nil {head : Node} : Chain null next head [] ↔ head = null :=
  Iff.rfl

@[simp]
theorem chain_cons {head node : Node} {rest : List Node} :
    Chain null next head (node :: rest) ↔
      head = node ∧ node ≠ null ∧ Chain null next (next node) rest :=
  Iff.rfl

theorem Chain.ne_null {head : Node} {nodes : List Node}
    (hchain : Chain null next head nodes) :
    ∀ node ∈ nodes, node ≠ null := by
  induction nodes generalizing head with
  | nil => simp
  | cons first rest ih =>
      obtain ⟨_, hfirst, hrest⟩ := hchain
      intro node hnode
      rcases List.mem_cons.mp hnode with rfl | hnode
      · exact hfirst
      · exact ih hrest node hnode

/-- Only the successors of the visited nodes matter. -/
theorem Chain.congr {next' : Node → Node} {head : Node} {nodes : List Node}
    (hchain : Chain null next head nodes)
    (hagree : ∀ node ∈ nodes, next' node = next node) :
    Chain null next' head nodes := by
  induction nodes generalizing head with
  | nil => exact hchain
  | cons node rest ih =>
      obtain ⟨hhead, hnode, hrest⟩ := hchain
      refine ⟨hhead, hnode, ?_⟩
      rw [hagree node List.mem_cons_self]
      exact ih hrest fun other hother =>
        hagree other (List.mem_cons_of_mem _ hother)

/-- The head determines the visited nodes. -/
theorem Chain.unique {head : Node} {left right : List Node}
    (hleft : Chain null next head left) (hright : Chain null next head right) :
    left = right := by
  induction left generalizing head right with
  | nil =>
      cases right with
      | nil => rfl
      | cons node rest => exact absurd (hright.1.symm.trans hleft) hright.2.1
  | cons node rest ih =>
      cases right with
      | nil => exact absurd (hleft.1.symm.trans hright) hleft.2.1
      | cons node' rest' =>
          obtain ⟨hhead, _, hrest⟩ := hleft
          obtain ⟨hhead', _, hrest'⟩ := hright
          obtain rfl : node = node' := hhead.symm.trans hhead'
          rw [ih hrest hrest']

theorem Chain.suffix {head : Node} {before after : List Node} {node : Node}
    (hchain : Chain null next head (before ++ node :: after)) :
    Chain null next node (node :: after) := by
  induction before generalizing head with
  | nil => exact ⟨rfl, hchain.2⟩
  | cons first before ih => exact ih hchain.2.2

/-- A chain never visits a node twice: the second visit would have to end
after fewer links than the first. -/
theorem Chain.nodup {head : Node} {nodes : List Node}
    (hchain : Chain null next head nodes) : nodes.Nodup := by
  induction nodes generalizing head with
  | nil => exact List.nodup_nil
  | cons node rest ih =>
      refine List.nodup_cons.mpr ⟨fun hmem => ?_, ih hchain.2.2⟩
      obtain ⟨before, after, rfl⟩ := List.append_of_mem hmem
      have hlong : Chain null next node (node :: (before ++ node :: after)) :=
        ⟨rfl, hchain.2⟩
      have hlength := congrArg List.length
        (hlong.unique (Chain.suffix hchain.2.2))
      simp only [List.length_cons, List.length_append] at hlength
      omega

/-- A non-null head is the first node of its chain. -/
theorem Chain.cons_of_ne {head : Node} {nodes : List Node}
    (hchain : Chain null next head nodes) (hhead : head ≠ null) :
    ∃ rest, nodes = head :: rest ∧ Chain null next (next head) rest := by
  cases nodes with
  | nil => exact absurd hchain hhead
  | cons node rest =>
      obtain ⟨rfl, _, hrest⟩ := hchain
      exact ⟨rest, rfl, hrest⟩

theorem Chain.head_mem {head : Node} {nodes : List Node}
    (hchain : Chain null next head nodes) : head = null ∨ head ∈ nodes := by
  cases nodes with
  | nil => exact Or.inl hchain
  | cons node rest => exact Or.inr (hchain.1 ▸ List.mem_cons_self)

theorem Chain.eq_nil {nodes : List Node}
    (hchain : Chain null next null nodes) : nodes = [] := by
  cases nodes with
  | nil => rfl
  | cons node rest => exact absurd hchain.1.symm hchain.2.1

/-- Linking a new node in front of a chain. -/
theorem Chain.push {next' : Node → Node} {head node : Node}
    {nodes : List Node} (hchain : Chain null next head nodes)
    (hnode : node ≠ null) (hlink : next' node = head)
    (hagree : ∀ other ∈ nodes, next' other = next other) :
    Chain null next' node (node :: nodes) :=
  ⟨rfl, hnode, hlink.symm ▸ hchain.congr hagree⟩

/-- With as much fuel as the chain has links, the walk returns it. -/
theorem Chain.walk_eq [DecidableEq Node] {head : Node} {nodes : List Node}
    (hchain : Chain null next head nodes) {fuel : ℕ}
    (hfuel : nodes.length ≤ fuel) :
    walk null next fuel head = some nodes := by
  induction nodes generalizing head fuel with
  | nil =>
      obtain rfl : head = null := hchain
      cases fuel <;> simp [walk]
  | cons node rest ih =>
      obtain ⟨rfl, hnode, hrest⟩ := hchain
      obtain ⟨fuel, rfl⟩ : ∃ smaller, fuel = smaller + 1 :=
        ⟨fuel - 1, by simp only [List.length_cons] at hfuel; omega⟩
      have hwalk : walk null next fuel (next head) = some rest :=
        ih hrest (by simp only [List.length_cons] at hfuel; omega)
      simp [walk, hnode, hwalk]

/-- What a walk returns is the chain of its head. -/
theorem chain_of_walk [DecidableEq Node] {head : Node} {nodes : List Node}
    {fuel : ℕ} (hwalk : walk null next fuel head = some nodes) :
    Chain null next head nodes := by
  induction fuel generalizing head nodes with
  | zero =>
      by_cases hhead : head = null
      · simp only [walk, hhead, if_true, Option.some.injEq] at hwalk
        exact hwalk ▸ hhead
      · simp [walk, hhead] at hwalk
  | succ fuel ih =>
      by_cases hhead : head = null
      · simp only [walk, hhead, if_true, Option.some.injEq] at hwalk
        exact hwalk ▸ hhead
      · simp only [walk, hhead, if_false, Option.map_eq_some_iff] at hwalk
        obtain ⟨rest, hrest, rfl⟩ := hwalk
        exact ⟨rfl, hhead, ih hrest⟩

/-! ## Chains as sets -/

/-- The chain from `head` visits exactly the nodes that satisfy `member`. -/
def Lists (null : Node) (next : Node → Node) (head : Node)
    (member : Node → Prop) : Prop :=
  ∃ nodes, Chain null next head nodes ∧ ∀ node, node ∈ nodes ↔ member node

section Lists

variable {head node : Node} {member : Node → Prop}

theorem lists_null (hnone : ∀ node, ¬ member node) :
    Lists null next null member :=
  ⟨[], rfl, fun node => by simp [hnone node]⟩

theorem Lists.not_member (hlists : Lists null next null member) (node : Node) :
    ¬ member node := by
  obtain ⟨nodes, hchain, hmember⟩ := hlists
  rw [← hmember, hchain.eq_nil]
  exact List.not_mem_nil

theorem Lists.ne_null (hlists : Lists null next head member)
    (hnode : member node) : node ≠ null := by
  obtain ⟨nodes, hchain, hmember⟩ := hlists
  exact hchain.ne_null node ((hmember node).mpr hnode)

theorem Lists.head_member (hlists : Lists null next head member)
    (hhead : head ≠ null) : member head := by
  obtain ⟨nodes, hchain, hmember⟩ := hlists
  exact (hmember head).mp (hchain.head_mem.resolve_left hhead)

/-- Only the links of the listed nodes matter. -/
theorem Lists.congr {next' : Node → Node} {member' : Node → Prop}
    (hlists : Lists null next head member)
    (hmember : ∀ node, member' node ↔ member node)
    (hagree : ∀ node, member node → next' node = next node) :
    Lists null next' head member' := by
  obtain ⟨nodes, hchain, hnodes⟩ := hlists
  exact ⟨nodes, hchain.congr fun node hnode =>
    hagree node ((hnodes node).mp hnode),
    fun node => (hnodes node).trans (hmember node).symm⟩

/-- A node is linked in front. -/
theorem Lists.push {next' : Node → Node} {member' : Node → Prop}
    (hlists : Lists null next head member) (hnode : node ≠ null)
    (hlink : next' node = head)
    (hmember : ∀ other, member' other ↔ other = node ∨ member other)
    (hagree : ∀ other, member other → next' other = next other) :
    Lists null next' node member' := by
  obtain ⟨nodes, hchain, hnodes⟩ := hlists
  refine ⟨node :: nodes, hchain.push hnode hlink fun other hother =>
    hagree other ((hnodes other).mp hother), fun other => ?_⟩
  rw [List.mem_cons, hnodes, hmember]

/-- The first node is taken off. -/
theorem Lists.pop {member' : Node → Prop}
    (hlists : Lists null next node member) (hnode : node ≠ null)
    (hmember : ∀ other, member' other ↔ member other ∧ other ≠ node) :
    Lists null next (next node) member' := by
  obtain ⟨nodes, hchain, hnodes⟩ := hlists
  obtain ⟨rest, rfl, hrest⟩ := hchain.cons_of_ne hnode
  have hfresh := (List.nodup_cons.mp hchain.nodup).1
  refine ⟨rest, hrest, fun other => ?_⟩
  rw [hmember, ← hnodes, List.mem_cons]
  constructor
  · exact fun hother => ⟨Or.inr hother, fun heq => hfresh (heq ▸ hother)⟩
  · exact fun hother => hother.1.resolve_left hother.2

end Lists

end TbjitAlloc.LinkedChain
