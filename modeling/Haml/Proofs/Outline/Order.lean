import Haml.Proofs.Outline.Walk

/-! The order in which a forest is listed. Behind a node come the nodes below it, and no node is more
than one level deeper than the one before it. If only items that take children have some, the list
is an outline. -/

namespace Haml.Node

mutual

/-- A list of a node goes on behind each of its nodes with those that are below. -/
theorem below_of_walk (n : Node) {depth : Nat} {before after : List (Nat × Node)} {p : Nat × Node}
    (h : walk depth n = before ++ p :: after) : walkAll (p.1 + 1) p.2.children <+: after := by
  cases n with
  | mk line item children =>
    rw [walk] at h
    cases before with
    | nil =>
      obtain ⟨rfl, rfl⟩ := List.cons.inj h
      exact List.prefix_rfl
    | cons first before =>
      obtain ⟨rfl, hrest⟩ := List.cons.inj h
      exact below_of_walkAll children hrest

theorem below_of_walkAll (forest : List Node) {depth : Nat} {before after : List (Nat × Node)}
    {p : Nat × Node} (h : walkAll depth forest = before ++ p :: after) :
    walkAll (p.1 + 1) p.2.children <+: after := by
  cases forest with
  | nil => exact absurd h (by simp [walkAll])
  | cons n rest =>
    rw [walkAll] at h
    -- The cut is behind the first tree or inside it.
    rcases List.append_eq_append_iff.mp h with ⟨middle, rfl, hrest⟩ | ⟨middle, hfirst, hafter⟩
    · exact below_of_walkAll rest hrest
    · cases middle with
      | nil =>
        have hrest : walkAll depth rest = [] ++ p :: after := hafter.symm
        exact below_of_walkAll rest hrest
      | cons q middle =>
        obtain ⟨rfl, rfl⟩ := List.cons.inj hafter
        exact (below_of_walk n hfirst).trans (List.prefix_append _ _)

end

/-- A node can be listed right behind another one. -/
def Next (p q : Nat × Node) : Prop := q.1 ≤ p.1 ∨ q.1 = p.1 + 1 ∧ p.2.children ≠ []

theorem head?_walkAll (depth : Nat) (forest : List Node) :
    (walkAll depth forest).head? = forest.head?.map (Prod.mk depth) := by
  cases forest with
  | nil => rfl
  | cons n rest =>
    cases n with
    | mk line item children => rw [walkAll, walk]; rfl

mutual

theorem chain_walk (n : Node) (depth : Nat) :
    (walk depth n).IsChain Next ∧ ∀ p ∈ walk depth n, depth ≤ p.1 := by
  cases n with
  | mk line item children =>
    obtain ⟨hchain, hdeep⟩ := chain_walkAll children (depth + 1)
    rw [walk]
    refine ⟨List.isChain_cons.mpr ⟨?_, hchain⟩, ?_⟩
    · intro q hq
      rw [head?_walkAll] at hq
      obtain ⟨child, hchild, rfl⟩ := Option.map_eq_some_iff.mp hq
      refine .inr ⟨rfl, ?_⟩
      rintro rfl
      cases hchild
    · exact List.forall_mem_cons.mpr ⟨le_rfl, fun p hp => (Nat.le_succ depth).trans (hdeep p hp)⟩

theorem chain_walkAll (forest : List Node) (depth : Nat) :
    (walkAll depth forest).IsChain Next ∧ ∀ p ∈ walkAll depth forest, depth ≤ p.1 := by
  cases forest with
  | nil => exact ⟨.nil, nofun⟩
  | cons n rest =>
    obtain ⟨hfirst, hdeep⟩ := chain_walk n depth
    obtain ⟨hrest, hdeeper⟩ := chain_walkAll rest depth
    rw [walkAll]
    refine ⟨List.isChain_append.mpr ⟨hfirst, hrest, ?_⟩, ?_⟩
    · intro p hp q hq
      rw [head?_walkAll] at hq
      obtain ⟨node, -, rfl⟩ := Option.map_eq_some_iff.mp hq
      exact .inl (hdeep p (List.mem_of_getLast? hp))
    · exact List.forall_mem_append.mpr ⟨hdeep, hdeeper⟩

end

theorem chain_follows {ps : List (Nat × Node)} (h : ps.IsChain Next)
    (hlawful : ∀ p ∈ ps.dropLast, p.2.Lawful) : (ps.map entry).IsChain Entry.Follows := by
  induction ps with
  | nil => exact .nil
  | cons p rest ih =>
    cases rest with
    | nil => exact .singleton _
    | cons q rest =>
      rw [List.dropLast_cons_cons] at hlawful
      obtain ⟨hp, hrest⟩ := List.forall_mem_cons.mp hlawful
      obtain ⟨hnext, hchain⟩ := List.isChain_cons_cons.mp h
      refine List.isChain_cons_cons.mpr ⟨?_, ih hchain hrest⟩
      rcases hnext with hle | ⟨heq, hchildren⟩
      · exact .inl hle
      · exact .inr ⟨heq, hp hchildren⟩

theorem mem_walkAll {n : Node} {forest : List Node} (h : n ∈ forest) (depth : Nat) :
    (depth, n) ∈ walkAll depth forest := by
  induction forest with
  | nil => cases h
  | cons first rest ih =>
    rw [walkAll]
    rcases List.mem_cons.mp h with rfl | h
    · cases n with
      | mk line item children =>
        rw [walk]
        exact List.mem_append_left _ List.mem_cons_self
    · exact List.mem_append_right _ (ih h)

theorem mem_after_of_mem_children {forest : List Node} {before after : List (Nat × Node)}
    {p : Nat × Node} {child : Node} (h : walkAll 0 forest = before ++ p :: after)
    (hchild : child ∈ p.2.children) : (p.1 + 1, child) ∈ after :=
  (below_of_walkAll forest h).subset (mem_walkAll hchild _)

theorem exists_first_unlawful {ps : List (Nat × Node)} (h : ∃ p ∈ ps, ¬p.2.Lawful) :
    ∃ before p after, ps = before ++ p :: after ∧ (∀ q ∈ before, q.2.Lawful) ∧ ¬p.2.Lawful := by
  induction ps with
  | nil => simp at h
  | cons first rest ih =>
    by_cases hfirst : first.2.Lawful
    · have hrest : ∃ p ∈ rest, ¬p.2.Lawful := by simpa [hfirst] using h
      obtain ⟨before, p, after, rfl, hbefore, hp⟩ := ih hrest
      exact ⟨first :: before, p, after, rfl, List.forall_mem_cons.mpr ⟨hfirst, hbefore⟩, hp⟩
    · exact ⟨[], first, rest, rfl, nofun, hfirst⟩

theorem root_walkAll (forest : List Node) : ∀ p ∈ (walkAll 0 forest).head?, p.1 = 0 := by
  intro p hp
  rw [head?_walkAll] at hp
  obtain ⟨n, -, rfl⟩ := Option.map_eq_some_iff.mp hp
  rfl

end Haml.Node
