import Haml.Proofs.Program.Steps

/-! Places in programs. The operations of a program are its steps written out and nothing else, so
that a block that is cut out of the operations is a block at some place among the steps. Other
operations with their blocks paired can be put in its place. -/

namespace Haml.Step

variable {index : Nat} {blocks : List Opened} {done steps : List Step} {ops : List Op}

/-- What is read on a level: the operations of steps, up to the end of the level. That is the end of
all operations where no block is open, and an exit where one is. -/
theorem exists_level (h : read index blocks done ops = .ok steps) :
    ∃ u rest, ops = allToOps u ++ rest ∧ (blocks = [] → rest = []) ∧
      (blocks ≠ [] → ∃ more, rest = .exit :: more) := by
  -- A block on the level is read up to its exit first, so that what is left is only shorter.
  induction hn : ops.length using Nat.strongRecOn generalizing index blocks done ops with
  | ind n ih =>
    subst hn
    cases ops with
    | nil =>
      cases blocks with
      | nil => exact ⟨[], [], rfl, fun _ => rfl, fun hne => absurd rfl hne⟩
      | cons opened blocks => cases h
    | cons op ops =>
      have hlt : ops.length < (op :: ops).length := Nat.lt_succ_self _
      cases op with
      | act action =>
        rw [read] at h
        obtain ⟨u, rest, rfl, hend, hexit⟩ := ih _ hlt h rfl
        exact ⟨.act action :: u, rest, by simp [allToOps, toOps], hend, hexit⟩
      | enter statement =>
        rw [read] at h
        obtain ⟨body, rest, rfl, -, hexit⟩ := ih _ hlt h rfl
        obtain ⟨more, rfl⟩ := hexit (List.cons_ne_nil _ _)
        rw [read_allToOps, read] at h
        have hshorter : more.length <
            (Op.enter statement :: (allToOps body ++ .exit :: more)).length := by
          simp only [List.length_cons, List.length_append]
          omega
        obtain ⟨u, rest, rfl, hend, hexit⟩ := ih _ hshorter h rfl
        exact ⟨.block statement body :: u, rest, by simp [allToOps, toOps], hend, hexit⟩
      | exit =>
        cases blocks with
        | nil => cases h
        | cons opened blocks =>
          exact ⟨[], .exit :: ops, rfl, nofun, fun _ => ⟨ops, rfl⟩⟩

theorem ofOps_eq_ok_iff : ofOps ops = .ok steps ↔ ops = allToOps steps := by
  constructor
  · intro h
    obtain ⟨u, rest, rfl, hend, -⟩ := exists_level h
    obtain rfl := hend rfl
    rw [List.append_nil, ofOps_allToOps] at h
    rw [List.append_nil, Except.ok.inj h]
  · rintro rfl
    exact ofOps_allToOps steps

/-- A place among steps, possibly inside blocks. -/
inductive Place
  | here (before after : List Step)
  | inside (before : List Step) (statement : BlockStatement) (inner : Place) (after : List Step)

namespace Place

/-- The steps with the given ones in the place. -/
def fill : Place → List Step → List Step
  | here before after, u => before ++ u ++ after
  | inside before statement inner after, u => before ++ block statement (inner.fill u) :: after

/-- The statements of the blocks around a place, from the outside in. -/
def statements : Place → List BlockStatement
  | here _ _ => []
  | inside _ statement inner _ => statement :: inner.statements

/-- The place with more steps behind it on its outermost level. -/
def behind (more : List Step) : Place → Place
  | here before after => here before (after ++ more)
  | inside before statement inner after => inside before statement inner (after ++ more)

theorem fill_behind (place : Place) (more u : List Step) :
    (place.behind more).fill u = place.fill u ++ more := by
  cases place <;> simp [behind, fill]

theorem statements_behind (place : Place) (more : List Step) :
    (place.behind more).statements = place.statements := by
  cases place <;> rfl

/-- Operations that close the open blocks make a place of the outermost level out of one on the
current level. -/
theorem exists_of_read (place : Place) (v : List Step)
    (h : read index blocks (place.fill v).reverse ops = .ok steps) :
    ∃ outer : Place,
      (∀ index u, read index blocks (place.fill u).reverse ops = .ok (outer.fill u)) ∧
      outer.statements = (blocks.map Opened.statement).reverse ++ place.statements := by
  induction blocks generalizing place index ops with
  | nil =>
    obtain ⟨more, rest, rfl, hend, -⟩ := exists_level h
    obtain rfl := hend rfl
    refine ⟨place.behind more, fun index u => ?_, statements_behind place more⟩
    rw [read_allToOps, read, fill_behind]
    simp
  | cons opened blocks ih =>
    obtain ⟨more, rest, rfl, -, hexit⟩ := exists_level h
    obtain ⟨rest, rfl⟩ := hexit (List.cons_ne_nil _ _)
    let outer : Place := inside opened.before.reverse opened.statement (place.behind more) []
    have hread (index : Nat) (u : List Step) :
        read index (opened :: blocks) (place.fill u).reverse (allToOps more ++ .exit :: rest) =
          read (index + (allToOps more).length + 1) blocks (outer.fill u).reverse rest := by
      rw [read_allToOps, read]
      simp [outer, fill, fill_behind]
    rw [hread] at h
    obtain ⟨outermost, hfill, hstatements⟩ := ih outer h
    refine ⟨outermost, fun index u => ?_, ?_⟩
    · rw [hread, hfill]
    · rw [hstatements]
      simp [outer, statements, statements_behind]

end Place

/-- The blocks that are open behind operations: what an operation makes of those before it. -/
def openBehind (opened : List BlockStatement) : Op → List BlockStatement
  | .act _ => opened
  | .enter statement => statement :: opened
  | .exit => opened.tail

/-- The statements of the blocks that operations leave open, the innermost first. -/
def openAfter (ops : List Op) : List BlockStatement := ops.foldl openBehind []

/-- Reading what stands in front of other operations fails, or leads to a state of its own. -/
theorem read_append (index : Nat) (blocks : List Opened) (done : List Step) (before : List Op) :
    (∃ e, ∀ rest, read index blocks done (before ++ rest) = .error e) ∨
      ∃ index' blocks' done',
        (∀ rest, read index blocks done (before ++ rest) = read index' blocks' done' rest) ∧
        blocks'.map Opened.statement = before.foldl openBehind (blocks.map Opened.statement) := by
  induction before generalizing index blocks done with
  | nil => exact .inr ⟨index, blocks, done, fun _ => rfl, rfl⟩
  | cons op before ih =>
    cases op with
    | act action => exact ih (index + 1) blocks (.act action :: done)
    | enter statement => exact ih (index + 1) (⟨index, statement, done⟩ :: blocks) []
    | exit =>
      cases blocks with
      | nil => exact .inl ⟨index, fun _ => rfl⟩
      | cons opened blocks =>
        exact ih (index + 1) blocks (.block opened.statement done.reverse :: opened.before)

/-- A block that is cut out of operations stands at a place of their steps, inside of the blocks
that are open before it. The operations of other steps in between have these in that place. -/
theorem exists_place {before body after : List Op} {statement : BlockStatement} {inner : List Step}
    (h : ofOps (before ++ .enter statement :: (body ++ .exit :: after)) = .ok steps)
    (hbody : ofOps body = .ok inner) :
    ∃ place : Place, steps = place.fill [.block statement inner] ∧
      (∀ u, ofOps (before ++ (allToOps u ++ after)) = .ok (place.fill u)) ∧
      place.statements = (openAfter before).reverse := by
  obtain rfl := ofOps_eq_ok_iff.mp hbody
  rcases read_append 0 [] [] before with ⟨e, herror⟩ | ⟨index, blocks, done, hread, hopen⟩
  · rw [ofOps, herror] at h
    cases h
  · have hfill (index : Nat) (u : List Step) :
        read index blocks done (allToOps u ++ after) = read (index + (allToOps u).length) blocks
          ((Place.here done.reverse []).fill u).reverse after := by
      rw [read_allToOps]
      simp [Place.fill]
    have hblock : Op.enter statement :: (allToOps inner ++ .exit :: after) =
        allToOps [.block statement inner] ++ after := by simp [allToOps, toOps]
    rw [ofOps, hread, hblock, hfill] at h
    obtain ⟨place, hplace, hstatements⟩ := Place.exists_of_read _ _ h
    have hsteps := h.symm.trans (hplace _ [.block statement inner])
    refine ⟨place, Except.ok.inj hsteps, fun u => ?_, ?_⟩
    · rw [ofOps, hread, hfill, hplace]
    · rw [hstatements, hopen]
      simp [openAfter, Place.statements]

end Haml.Step
