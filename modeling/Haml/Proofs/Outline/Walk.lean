import Haml.Node
import Mathlib.Data.List.Chain
import Mathlib.Data.List.TakeWhile

/-! A forest as the list of its nodes in order, parents first, each node with its depth. An outline
whose entries go at most one level deeper from each to the next is such a list, and the forest of it
is the one that was listed. -/

namespace Haml

namespace Node

mutual

/-- A node at a depth and the nodes below it. -/
def walk (depth : Nat) : Node → List (Nat × Node)
  | mk line item children => (depth, mk line item children) :: walkAll (depth + 1) children

def walkAll (depth : Nat) : List Node → List (Nat × Node)
  | [] => []
  | n :: rest => walk depth n ++ walkAll depth rest

end

/-- What an outline says of a node at a depth. -/
def entry (p : Nat × Node) : Entry := ⟨p.1, p.2.line, p.2.item⟩

/-- A node has children only if its item takes some. -/
def Lawful (n : Node) : Prop := n.children ≠ [] → n.item.refusal = none

instance (n : Node) : Decidable n.Lawful :=
  decidable_of_iff (¬n.children.isEmpty = true → n.item.refusal = none) (by simp [Lawful])

end Node

namespace Entry

/-- An entry can stand after another one: it is no more than one level deeper, and that only if the
other one's item takes children. -/
def Follows (e next : Entry) : Prop :=
  next.depth ≤ e.depth ∨ next.depth = e.depth + 1 ∧ e.item.refusal = none

/-- Every entry can stand where it stands, the first one at no depth. -/
structure IsOutline (entries : List Entry) : Prop where
  root : ∀ e ∈ entries.head?, e.depth = 0
  chain : entries.IsChain Follows

end Entry

namespace Node

variable {depth : Nat} {nodes : List (Nat × Node)}

def walkEach (nodes : List (Nat × Node)) : List (Nat × Node) :=
  nodes.flatMap fun p => walk p.1 p.2

theorem walkAll_map_snd (h : ∀ p ∈ nodes, p.1 = depth) :
    walkAll depth (nodes.map Prod.snd) = walkEach nodes := by
  induction nodes with
  | nil => rfl
  | cons p rest ih =>
    have hrest := ih fun q hq => h q (List.mem_cons_of_mem _ hq)
    rw [List.map_cons, walkAll, hrest, ← h p List.mem_cons_self]
    rfl

/-- What is built from the entries of an outline, from the back: nodes that go no deeper, whose list
is that of the entries. -/
structure Built (entries : List Entry) (nodes : List (Nat × Node)) : Prop where
  walk : (walkEach nodes).map entry = entries
  head : nodes.head?.map Prod.fst = entries.head?.map Entry.depth
  descending : nodes.Pairwise fun p q => q.1 ≤ p.1
  lawful : ∀ p ∈ walkEach nodes, p.2.Lawful

theorem Built.nil : Built [] [] := ⟨rfl, rfl, List.Pairwise.nil, nofun⟩

theorem Built.depth_le {entries : List Entry} (h : Built entries nodes) {bound : Nat}
    (hhead : ∀ e ∈ entries.head?, e.depth ≤ bound) : ∀ p ∈ nodes, p.1 ≤ bound := by
  cases nodes with
  | nil => nofun
  | cons first rest =>
    obtain ⟨e, he, hdepth⟩ := Option.map_eq_some_iff.mp h.head.symm
    have hfirst : first.1 ≤ bound := hdepth ▸ hhead e he
    intro p hp
    rcases List.mem_cons.mp hp with rfl | hp
    · exact hfirst
    · exact (List.rel_of_pairwise_cons h.descending hp).trans hfirst

theorem depth_le_of_mem_dropWhile (h : nodes.Pairwise fun p q => q.1 ≤ p.1) :
    ∀ q ∈ nodes.dropWhile (fun p => decide (depth < p.1)), q.1 ≤ depth := by
  have hhead := List.head?_dropWhile_not (fun p : Nat × Node => decide (depth < p.1)) nodes
  have hrest := h.sublist (List.dropWhile_sublist (fun p => decide (depth < p.1)))
  cases hdrop : nodes.dropWhile (fun p => decide (depth < p.1)) with
  | nil => nofun
  | cons first rest =>
    rw [hdrop] at hhead hrest
    have hfirst : first.1 ≤ depth := by simpa using hhead
    intro q hq
    rcases List.mem_cons.mp hq with rfl | hq
    · exact hfirst
    · exact (List.rel_of_pairwise_cons hrest hq).trans hfirst

theorem Built.attach {e : Entry} {entries : List Entry} (h : Built entries nodes)
    (hfollows : ∀ next ∈ entries.head?, e.Follows next) :
    Built (e :: entries) (e.attach nodes) := by
  let deeper := fun (p : Nat × Node) => decide (e.depth < p.1)
  have happend : walkEach (nodes.takeWhile deeper) ++ walkEach (nodes.dropWhile deeper) =
      walkEach nodes := by
    rw [walkEach, walkEach, ← List.flatMap_append, List.takeWhile_append_dropWhile, walkEach]
  have hchild : ∀ p ∈ nodes.takeWhile deeper, e.depth < p.1 := fun p hp => by
    simpa [deeper] using List.mem_takeWhile_imp hp
  -- Nothing stands two levels below the entry, so that all deeper nodes are its children.
  have hchildren : walkAll (e.depth + 1) ((nodes.takeWhile deeper).map Prod.snd) =
      walkEach (nodes.takeWhile deeper) := by
    apply walkAll_map_snd
    intro p hp
    have hle : p.1 ≤ e.depth + 1 := by
      apply h.depth_le _ p (List.takeWhile_subset _ hp)
      intro next hnext
      rcases hfollows next hnext with hle | ⟨heq, -⟩ <;> omega
    have hlt := hchild p hp
    omega
  have hwalk : walkEach (e.attach nodes) =
      (e.depth, .mk e.line e.item ((nodes.takeWhile deeper).map Prod.snd)) :: walkEach nodes := by
    rw [← happend, ← hchildren]
    rfl
  -- The head is the new node itself; what is left is as deep as it was or less.
  refine ⟨?_, rfl, ?_, ?_⟩
  · rw [hwalk, List.map_cons, h.walk]
    rfl
  · exact List.pairwise_cons.mpr ⟨depth_le_of_mem_dropWhile h.descending,
      h.descending.sublist (List.dropWhile_sublist _)⟩
  · intro p hp
    rw [hwalk] at hp
    rcases List.mem_cons.mp hp with rfl | hp
    · intro hne
      obtain ⟨p, hp⟩ := List.exists_mem_of_ne_nil _ fun hnil =>
        hne (congrArg (List.map Prod.snd) hnil)
      by_contra hrefusal
      -- An entry that takes no children is followed by one that is no deeper.
      have hle : p.1 ≤ e.depth := by
        apply h.depth_le _ p (List.takeWhile_subset _ hp)
        intro next hnext
        rcases hfollows next hnext with hle | ⟨-, hnone⟩
        · exact hle
        · exact absurd hnone hrefusal
      exact absurd (hchild p hp) (by omega)
    · exact h.lawful p hp

theorem built_of_chain {entries : List Entry} (h : entries.IsChain Entry.Follows) :
    Built entries (entries.foldr Entry.attach []) := by
  induction entries with
  | nil => exact Built.nil
  | cons e rest ih =>
    obtain ⟨hfollows, hrest⟩ := List.isChain_cons.mp h
    exact (ih hrest).attach hfollows

/-- The forest of an outline lists its entries, and only items that take children have some. -/
theorem walkAll_forest {entries : List Entry} (h : Entry.IsOutline entries) :
    (walkAll 0 (Entry.forest entries)).map entry = entries ∧
      ∀ p ∈ walkAll 0 (Entry.forest entries), p.2.Lawful := by
  have hbuilt := built_of_chain h.chain
  have hroot : ∀ p ∈ entries.foldr Entry.attach [], p.1 = 0 := fun p hp =>
    Nat.le_zero.mp (hbuilt.depth_le (fun e he => (h.root e he).le) p hp)
  rw [Entry.forest, walkAll_map_snd hroot]
  exact ⟨hbuilt.walk, hbuilt.lawful⟩

/-- A node anywhere in the forest of an outline is an entry of it. -/
theorem entry_mem_of_mem_walkAll {entries : List Entry} (h : Entry.IsOutline entries)
    {p : Nat × Node} (hp : p ∈ walkAll 0 (Entry.forest entries)) : entry p ∈ entries := by
  have hentry := List.mem_map_of_mem (f := entry) hp
  rwa [(walkAll_forest h).1] at hentry

theorem attach_append (e : Entry) (children : List Node) {rest : List (Nat × Node)}
    (hrest : ∀ p ∈ rest.head?, p.1 ≤ e.depth) :
    e.attach (children.map (Prod.mk (e.depth + 1)) ++ rest) =
      (e.depth, .mk e.line e.item children) :: rest := by
  have hdeeper : ∀ p ∈ children.map (Prod.mk (e.depth + 1)), decide (e.depth < p.1) = true := by
    simp
  have hstop : rest.takeWhile (fun p => decide (e.depth < p.1)) = [] ∧
      rest.dropWhile (fun p => decide (e.depth < p.1)) = rest := by
    cases rest with
    | nil => exact ⟨rfl, rfl⟩
    | cons first rest =>
      have hfirst : ¬decide (e.depth < first.1) = true := by simpa using hrest first rfl
      exact ⟨List.takeWhile_cons_of_neg hfirst, List.dropWhile_cons_of_neg hfirst⟩
  rw [Entry.attach, List.takeWhile_append_of_pos hdeeper, List.dropWhile_append_of_pos hdeeper,
    hstop.1, hstop.2]
  simp [Function.comp_def]

mutual

theorem foldr_attach_walk (n : Node) {depth : Nat} {rest : List (Nat × Node)}
    (hrest : ∀ p ∈ rest.head?, p.1 ≤ depth) :
    ((walk depth n).map entry).foldr Entry.attach rest = (depth, n) :: rest := by
  cases n with
  | mk line item children =>
    have hdeep : ∀ p ∈ rest.head?, p.1 ≤ depth + 1 := fun p hp =>
      (hrest p hp).trans (Nat.le_succ depth)
    have hchildren := foldr_attach_walkAll children hdeep
    rw [walk, List.map_cons, List.foldr_cons, hchildren]
    exact attach_append ⟨depth, line, item⟩ children hrest

theorem foldr_attach_walkAll (forest : List Node) {depth : Nat} {rest : List (Nat × Node)}
    (hrest : ∀ p ∈ rest.head?, p.1 ≤ depth) :
    ((walkAll depth forest).map entry).foldr Entry.attach rest =
      forest.map (Prod.mk depth) ++ rest := by
  cases forest with
  | nil => rfl
  | cons n more =>
    rw [walkAll, List.map_append, List.foldr_append, foldr_attach_walkAll more hrest,
      foldr_attach_walk n]
    · rfl
    · cases more with
      | nil => exact hrest
      | cons first more => simp

end

theorem forest_walkAll (forest : List Node) :
    Entry.forest ((walkAll 0 forest).map entry) = forest := by
  rw [Entry.forest, foldr_attach_walkAll forest (by simp)]
  simp [Function.comp_def]

end Node

end Haml
