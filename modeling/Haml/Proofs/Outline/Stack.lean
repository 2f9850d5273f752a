import Haml.Proofs.Outline.Walk

/-! The forest of an outline built from the front, with a stack of open nodes. An entry closes the
nodes that it does not stand below. A closed node becomes a child of the next open one if that one
can hold children, and moves to the root of the document if not. In an outline no node is moved. -/

namespace Haml

namespace Item

def holdsChildren : Item → Bool
  | text _ _ => false
  | filter _ _ => false
  | doctype _ => false
  | element _ => true
  | script _ => true
  | silent _ => true
  | comment _ _ => true

theorem holdsChildren_of_refusal {i : Item} (h : i.refusal = none) : i.holdsChildren = true := by
  cases i with
  | text segments escape => cases h
  | filter name segments => cases h
  | doctype args => cases h
  | element e => rfl
  | script s => rfl
  | silent code => rfl
  | comment condition text => rfl

end Item

namespace Node

def push : Node → Node → Node
  | mk line item children, child => mk line item (children ++ [child])

@[simp] theorem item_push (n child : Node) : (n.push child).item = n.item := by
  cases n
  rfl

theorem walkAll_append (depth : Nat) (u v : List Node) :
    walkAll depth (u ++ v) = walkAll depth u ++ walkAll depth v := by
  induction u with
  | nil => rfl
  | cons n rest ih => rw [List.cons_append, walkAll, walkAll, ih, List.append_assoc]

theorem map_entry_walk_push (depth : Nat) (n child : Node) :
    (walk depth (n.push child)).map entry =
      (walk depth n).map entry ++ (walk (depth + 1) child).map entry := by
  cases n with
  | mk line item children =>
    have hchild : walkAll (depth + 1) [child] = walk (depth + 1) child := by
      rw [walkAll, walkAll, List.append_nil]
    rw [push, walk, walk, walkAll_append, hchild, List.map_cons, List.map_append]
    rfl

end Node

/-- Nodes at the root that are closed, and open ones, the innermost first. -/
structure Stack where
  roots : List Node
  opened : List Node

namespace Stack

def close : Stack → Stack
  | ⟨roots, []⟩ => ⟨roots, []⟩
  | ⟨roots, [n]⟩ => ⟨roots ++ [n], []⟩
  | ⟨roots, n :: parent :: rest⟩ =>
    if parent.item.holdsChildren then ⟨roots, parent.push n :: rest⟩
    else ⟨roots ++ [n], parent :: rest⟩

/-- Closes nodes until no more than `depth` are open. -/
def closeTo (depth : Nat) (s : Stack) : Stack := close^[s.opened.length - depth] s

def enter (s : Stack) (e : Entry) : Stack :=
  ⟨(s.closeTo e.depth).roots, .mk e.line e.item [] :: (s.closeTo e.depth).opened⟩

def build (entries : List Entry) : List Node := ((entries.foldl enter ⟨[], []⟩).closeTo 0).roots

/-- The entries of open nodes, which stand one below the other. -/
def openEntries : List Node → List Entry
  | [] => []
  | n :: outer => openEntries outer ++ (Node.walk outer.length n).map Node.entry

def entries (s : Stack) : List Entry :=
  (Node.walkAll 0 s.roots).map Node.entry ++ openEntries s.opened

/-- Open nodes that have open ones inside take children. -/
def Sound (s : Stack) : Prop := ∀ n ∈ s.opened.tail, n.item.refusal = none

variable {s : Stack} {depth : Nat}

theorem length_close (s : Stack) : s.close.opened.length = s.opened.length - 1 := by
  obtain ⟨roots, - | ⟨n, - | ⟨parent, rest⟩⟩⟩ := s
  · rfl
  · rfl
  · rw [close]
    split <;> rfl

theorem Sound.close (h : s.Sound) : s.close.Sound := by
  obtain ⟨roots, - | ⟨n, - | ⟨parent, rest⟩⟩⟩ := s
  · exact h
  · exact nofun
  · intro m hm
    rw [Stack.close] at hm
    split at hm
    · exact h m (List.mem_cons_of_mem _ hm)
    · exact h m (List.mem_cons_of_mem _ hm)

theorem Sound.entries_close (h : s.Sound) : s.close.entries = s.entries := by
  obtain ⟨roots, - | ⟨n, - | ⟨parent, rest⟩⟩⟩ := s
  · rfl
  · simp [Stack.close, entries, openEntries, Node.walkAll_append, Node.walkAll]
  · have hparent : parent.item.holdsChildren = true :=
      Item.holdsChildren_of_refusal (h parent List.mem_cons_self)
    rw [Stack.close, if_pos hparent, entries, entries, openEntries, openEntries, openEntries,
      Node.map_entry_walk_push, List.append_assoc]
    rfl

theorem Sound.close_iterate (h : s.Sound) (n : Nat) : (Stack.close^[n] s).Sound ∧
    (Stack.close^[n] s).entries = s.entries ∧
    (Stack.close^[n] s).opened.length = s.opened.length - n := by
  induction n with
  | zero => exact ⟨h, rfl, rfl⟩
  | succ n ih =>
    obtain ⟨hsound, hentries, hlength⟩ := ih
    rw [Function.iterate_succ_apply']
    refine ⟨hsound.close, hsound.entries_close.trans hentries, ?_⟩
    rw [length_close, hlength]
    omega

theorem Sound.closeTo (h : s.Sound) (hdepth : depth ≤ s.opened.length) :
    (s.closeTo depth).Sound ∧ (s.closeTo depth).entries = s.entries ∧
      (s.closeTo depth).opened.length = depth := by
  obtain ⟨hsound, hentries, hlength⟩ := h.close_iterate (s.opened.length - depth)
  refine ⟨hsound, hentries, ?_⟩
  rw [Stack.closeTo, hlength]
  omega

/-- What is still open after closing a node had an open node inside. -/
theorem Sound.refusal_close (h : s.Sound) : ∀ n ∈ s.close.opened, n.item.refusal = none := by
  obtain ⟨roots, - | ⟨n, - | ⟨parent, rest⟩⟩⟩ := s
  · exact nofun
  · exact nofun
  · intro m hm
    rw [Stack.close] at hm
    split at hm
    · rcases List.mem_cons.mp hm with rfl | hm
      · rw [Node.item_push]
        exact h parent List.mem_cons_self
      · exact h m (List.mem_cons_of_mem _ hm)
    · exact h m hm

theorem Sound.refusal_closeTo (h : s.Sound) (hdepth : depth < s.opened.length) :
    ∀ n ∈ (s.closeTo depth).opened, n.item.refusal = none := by
  obtain ⟨k, hk⟩ : ∃ k, s.opened.length - depth = k + 1 := ⟨s.opened.length - depth - 1, by omega⟩
  rw [Stack.closeTo, hk, Function.iterate_succ_apply']
  exact (h.close_iterate k).1.refusal_close

/-- An entry can stand below the open nodes that it leaves open. -/
def Fits (s : Stack) (e : Entry) : Prop :=
  e.depth < s.opened.length ∨
    e.depth = s.opened.length ∧ ∀ n ∈ s.opened.head?, n.item.refusal = none

variable {e : Entry}

theorem Sound.enter (h : s.Sound) (hfits : s.Fits e) : (s.enter e).Sound ∧
    (s.enter e).entries = s.entries ++ [e] ∧ (s.enter e).opened.length = e.depth + 1 := by
  have hdepth : e.depth ≤ s.opened.length := by
    rcases hfits with hlt | ⟨heq, -⟩ <;> omega
  obtain ⟨hsound, hentries, hlength⟩ := h.closeTo hdepth
  refine ⟨?_, ?_, by rw [Stack.enter, List.length_cons, hlength]⟩
  -- If a node is closed, what is left had an open node inside; if none is, the top takes children.
  · rcases hfits with hlt | ⟨heq, htop⟩
    · exact h.refusal_closeTo hlt
    · intro n hn
      have hclose : s.closeTo e.depth = s := by
        rw [Stack.closeTo, heq, Nat.sub_self, Function.iterate_zero_apply]
      rw [Stack.enter, hclose, List.tail_cons] at hn
      cases hopened : s.opened with
      | nil =>
        rw [hopened] at hn
        cases hn
      | cons first rest =>
        rw [hopened] at hn
        rcases List.mem_cons.mp hn with rfl | hn
        · exact htop n (by rw [hopened]; rfl)
        · exact h n (by rw [hopened]; exact hn)
  · rw [← hentries, entries, Stack.enter, openEntries, hlength]
    simp [entries, Node.walk, Node.walkAll, Node.entry, Node.line, Node.item]

/-- A stack takes in an outline, its first entry where it fits and every other one where it can
stand behind the one before. -/
theorem Sound.foldl_enter {more : List Entry} (h : s.Sound) (hfirst : ∀ e ∈ more.head?, s.Fits e)
    (hchain : more.IsChain Entry.Follows) :
    (more.foldl Stack.enter s).Sound ∧ (more.foldl Stack.enter s).entries = s.entries ++ more := by
  induction more generalizing s with
  | nil => exact ⟨h, (List.append_nil _).symm⟩
  | cons e rest ih =>
    obtain ⟨hfollows, hrest⟩ := List.isChain_cons.mp hchain
    obtain ⟨hsound, hentries, hlength⟩ := h.enter (hfirst e rfl)
    have hnext : ∀ next ∈ rest.head?, (s.enter e).Fits next := by
      intro next hnext
      rcases hfollows next hnext with hle | ⟨heq, hnone⟩
      · exact .inl (by omega)
      · refine .inr ⟨by omega, ?_⟩
        intro n hn
        obtain rfl : Node.mk e.line e.item [] = n := Option.some.inj hn
        exact hnone
    obtain ⟨hsound', hentries'⟩ := ih hsound hnext hrest
    exact ⟨hsound', by rw [List.foldl_cons, hentries', hentries, List.append_assoc]; rfl⟩

/-- The two ways to build the forest of an outline agree. -/
theorem build_eq_forest {entries : List Entry} (h : Entry.IsOutline entries) :
    build entries = Entry.forest entries := by
  have hempty : (⟨[], []⟩ : Stack).Sound := nofun
  have hfirst : ∀ e ∈ entries.head?, (⟨[], []⟩ : Stack).Fits e := fun e he =>
    .inr ⟨h.root e he, nofun⟩
  obtain ⟨hsound, hentries⟩ := hempty.foldl_enter hfirst h.chain
  obtain ⟨-, hclosed, hlength⟩ := hsound.closeTo (Nat.zero_le _)
  rw [hentries, Stack.entries, List.eq_nil_of_length_eq_zero hlength] at hclosed
  have hwalk : (Node.walkAll 0 (build entries)).map Node.entry = entries := by
    rw [build]
    simpa [openEntries, Stack.entries, Node.walkAll] using hclosed
  -- A forest is known by its entries.
  rw [← Node.forest_walkAll (build entries), hwalk]

end Stack

end Haml
