import Haml.Proofs.Nested
import Haml.Proofs.Program.Place

/-! Blocks that are paired, and operations that are left over. An entry and an exit belong together
if the blocks between them are paired. Reading operations as steps fails where something is left
over: at the first exit that has no entry, or else at the last entry that has no exit. -/

namespace Haml

namespace Op

/-- What an operation does to the blocks that are open. -/
def blockRole : Op → Role Unit
  | act _ => .plain
  | enter _ => .opening ()
  | exit => .closing ()

/-- The blocks of operations are paired: each is entered and left, and they do not overlap. -/
def Paired (ops : List Op) : Prop := Nested blockRole ops

/-- The operations with the numbers `i` and `j` are the two ends of a block. -/
def Ends (ops : List Op) (i j : Nat) : Prop :=
  ∃ before statement body after, ops = before ++ .enter statement :: (body ++ .exit :: after) ∧
    Paired body ∧ i = before.length ∧ j = before.length + 1 + body.length

/-- An exit that leaves no block. -/
def StrayExit (ops : List Op) (j : Nat) : Prop := ops[j]? = some .exit ∧ ∀ i, ¬Ends ops i j

/-- An entry whose block is never left. -/
def OpenEntry (ops : List Op) (i : Nat) : Prop :=
  (∃ statement, ops[i]? = some (.enter statement)) ∧ ∀ j, ¬Ends ops i j

/-- The operation that is found to be left over: the first exit that leaves no block or, if there is
none, the last entry whose block is never left. -/
def Unpaired (ops : List Op) (index : Nat) : Prop :=
  (StrayExit ops index ∧ ∀ j < index, ¬StrayExit ops j) ∨
    ((∀ j, ¬StrayExit ops j) ∧ OpenEntry ops index ∧ ∀ i > index, ¬OpenEntry ops i)

/-- Operations that leave no block but one that they have entered. -/
inductive Rising : List Op → Prop
  | paired {w : List Op} (h : Paired w) : Rising w
  | enter {w v : List Op} (h : Rising w) (statement : BlockStatement) (hv : Paired v) :
      Rising (w ++ .enter statement :: v)

variable {ops w v rest : List Op} {statement : BlockStatement} {i j index : Nat}

theorem exists_split {op : Op} (h : ops[i]? = some op) :
    ∃ before after, ops = before ++ op :: after ∧ before.length = i := by
  obtain ⟨hi, rfl⟩ := List.getElem?_eq_some_iff.mp h
  refine ⟨ops.take i, ops.drop (i + 1), ?_, List.length_take_of_le (Nat.le_of_lt hi)⟩
  rw [← List.drop_eq_getElem_cons hi, List.take_append_drop]

theorem eq_exit_of_role {op : Op} (h : op.blockRole = .closing ()) : op = .exit := by
  cases op with
  | exit => rfl
  | act a => cases h
  | enter statement => cases h

theorem exists_enter_of_role {op : Op} (h : op.blockRole = .opening ()) :
    ∃ statement, op = .enter statement := by
  cases op with
  | enter statement => exact ⟨statement, rfl⟩
  | act a => cases h
  | exit => cases h

theorem Ends.append (h : Ends w i j) (rest : List Op) : Ends (w ++ rest) i j := by
  obtain ⟨before, statement, body, after, rfl, hbody, hi, hj⟩ := h
  exact ⟨before, statement, body, after ++ rest, by simp, hbody, hi, hj⟩

theorem Ends.behind (h : Ends v i j) (w : List Op) :
    Ends (w ++ v) (w.length + i) (w.length + j) := by
  obtain ⟨before, statement, body, after, rfl, hbody, rfl, rfl⟩ := h
  refine ⟨w ++ before, statement, body, after, by simp, hbody, by simp, ?_⟩
  rw [List.length_append]
  omega

theorem Ends.behind_cons (h : Ends v i j) (w : List Op) (op : Op) :
    Ends (w ++ op :: v) (w.length + i + 1) (w.length + j + 1) := by
  have hall := h.behind (w ++ [op])
  rw [List.append_assoc, List.singleton_append, List.length_append, List.length_singleton] at hall
  rwa [Nat.add_right_comm w.length i, Nat.add_right_comm w.length j]

theorem getElem?_behind_cons (w v : List Op) (op : Op) (k : Nat) :
    (w ++ op :: v)[w.length + k + 1]? = v[k]? := by
  rw [List.getElem?_append_right (by omega), Nat.add_assoc, Nat.add_sub_cancel_left,
    List.getElem?_cons_succ]

theorem Paired.exists_entry (h : Paired w) (hj : w[j]? = some .exit) : ∃ i, Ends w i j := by
  obtain ⟨before, after, rfl, rfl⟩ := exists_split hj
  obtain ⟨rest, op, body, rfl, hop, hbody⟩ := h.exists_opening rfl rfl
  obtain ⟨statement, rfl⟩ := exists_enter_of_role hop
  refine ⟨rest.length, rest, statement, body, after, by simp, hbody, rfl, ?_⟩
  rw [List.length_append, List.length_cons]
  omega

theorem Paired.exists_exit (h : Paired w) (hi : w[i]? = some (.enter statement)) :
    ∃ j, Ends w i j := by
  obtain ⟨before, after, rfl, rfl⟩ := exists_split hi
  obtain ⟨body, op, rest, rfl, hop, hbody⟩ := h.exists_closing rfl rfl
  obtain rfl := eq_exit_of_role hop
  exact ⟨_, before, statement, body, rest, rfl, hbody, rfl, rfl⟩

theorem Paired.not_strayExit (h : Paired ops) (j : Nat) : ¬StrayExit ops j := by
  rintro ⟨hexit, hnone⟩
  obtain ⟨i, hends⟩ := h.exists_entry hexit
  exact hnone i hends

theorem Paired.not_openEntry (h : Paired ops) (i : Nat) : ¬OpenEntry ops i := by
  rintro ⟨⟨statement, henter⟩, hnone⟩
  obtain ⟨j, hends⟩ := h.exists_exit henter
  exact hnone j hends

theorem Rising.exists_entry (h : Rising w) (hj : w[j]? = some .exit) : ∃ i, Ends w i j := by
  induction h generalizing j with
  | paired h => exact h.exists_entry hj
  | @enter w v h statement hv ih =>
    rcases Nat.lt_trichotomy j w.length with hlt | rfl | hlt
    · rw [List.getElem?_append_left hlt] at hj
      obtain ⟨i, hends⟩ := ih hj
      exact ⟨i, hends.append _⟩
    · simp at hj
    · obtain ⟨k, rfl⟩ := Nat.exists_eq_add_of_lt hlt
      rw [getElem?_behind_cons] at hj
      obtain ⟨i, hends⟩ := hv.exists_entry hj
      exact ⟨_, hends.behind_cons w _⟩

/-- An exit behind paired blocks is the first one that leaves none. -/
theorem unpaired_exit (hw : Paired w) : Unpaired (w ++ .exit :: rest) w.length := by
  refine .inl ⟨⟨by simp, ?_⟩, ?_⟩
  · rintro i ⟨before, statement, body, after, hops, hbody, rfl, hlength⟩
    have hsplit : w ++ .exit :: rest = (before ++ .enter statement :: body) ++ .exit :: after := by
      simpa using hops
    obtain ⟨rfl, -⟩ := List.append_inj hsplit (by simp; omega)
    have hheight := hw.height_eq
    have hbefore := hw.height_nonneg (List.prefix_append before _)
    rw [height_append, height_cons, hbody.height_eq] at hheight
    change height blockRole before + (1 + 0) = 0 at hheight
    omega
  · rintro j hj ⟨hexit, hnone⟩
    rw [List.getElem?_append_left hj] at hexit
    obtain ⟨i, hends⟩ := hw.exists_entry hexit
    exact hnone i (hends.append _)

/-- An entry in front of paired blocks is the last one whose block is never left. -/
theorem unpaired_enter (hw : Rising w) (hv : Paired v) :
    Unpaired (w ++ .enter statement :: v) w.length := by
  refine .inr ⟨?_, ⟨⟨statement, by simp⟩, ?_⟩, ?_⟩
  · rintro j ⟨hexit, hnone⟩
    obtain ⟨i, hends⟩ := (hw.enter statement hv).exists_entry hexit
    exact hnone i hends
  · rintro j ⟨before, statement', body, after, hops, hbody, hi, rfl⟩
    obtain ⟨rfl, htail⟩ := List.append_inj hops hi
    obtain ⟨-, rfl⟩ := List.cons.inj htail
    refine hv.not_prefix_closing hbody (y := .exit) rfl ⟨after, by simp⟩
  · rintro i hi ⟨⟨statement', henter⟩, hnone⟩
    obtain ⟨k, rfl⟩ := Nat.exists_eq_add_of_lt hi
    rw [getElem?_behind_cons] at henter
    obtain ⟨j, hends⟩ := hv.exists_exit henter
    exact hnone _ (hends.behind_cons w _)

theorem Unpaired.eq (hi : Unpaired ops i) (hj : Unpaired ops j) : i = j := by
  rcases hi with ⟨histray, hifirst⟩ | ⟨hinone, hiopen, hilast⟩ <;>
    rcases hj with ⟨hjstray, hjfirst⟩ | ⟨hjnone, hjopen, hjlast⟩
  · rcases Nat.lt_trichotomy i j with hlt | heq | hlt
    · exact absurd histray (hjfirst i hlt)
    · exact heq
    · exact absurd hjstray (hifirst j hlt)
  · exact absurd histray (hjnone i)
  · exact absurd hjstray (hinone j)
  · rcases Nat.lt_trichotomy i j with hlt | heq | hlt
    · exact absurd hjopen (hilast j hlt)
    · exact heq
    · exact absurd hiopen (hjlast i hlt)

theorem Paired.not_unpaired (h : Paired ops) : ¬Unpaired ops index := by
  rintro (⟨hstray, -⟩ | ⟨-, hopen, -⟩)
  · exact h.not_strayExit index hstray
  · exact h.not_openEntry index hopen

end Op

namespace Step

open Op (Paired Rising Unpaired)

mutual

theorem paired_toOps (step : Step) : Paired step.toOps := by
  cases step with
  | act a => exact .plain rfl
  | block statement body => exact .pair rfl (paired_allToOps body) rfl

theorem paired_allToOps (steps : List Step) : Paired (allToOps steps) := by
  cases steps with
  | nil => exact .nil
  | cons step rest => exact .append (paired_toOps step) (paired_allToOps rest)

end

/-- Paired blocks are the blocks of steps. -/
theorem exists_ofOps_iff {ops : List Op} : (∃ steps, ofOps ops = .ok steps) ↔ Paired ops := by
  constructor
  · rintro ⟨steps, hsteps⟩
    obtain rfl := ofOps_eq_ok_iff.mp hsteps
    exact paired_allToOps steps
  · intro h
    suffices ∃ steps, allToOps steps = ops by
      obtain ⟨steps, rfl⟩ := this
      exact ⟨steps, ofOps_allToOps steps⟩
    induction h with
    | nil => exact ⟨[], rfl⟩
    | @plain op hop =>
      cases op with
      | act a => exact ⟨[act a], rfl⟩
      | enter statement => cases hop
      | exit => cases hop
    | @pair first last _ body hfirst _ hlast ih =>
      obtain ⟨steps, rfl⟩ := ih
      obtain ⟨statement, rfl⟩ := Op.exists_enter_of_role hfirst
      obtain rfl := Op.eq_exit_of_role hlast
      exact ⟨[block statement steps], allToOps_singleton _⟩
    | append _ _ ihu ihv =>
      obtain ⟨u, rfl⟩ := ihu
      obtain ⟨v, rfl⟩ := ihv
      exact ⟨u ++ v, allToOps_append u v⟩

/-- The operations that were read when steps are read inside of open blocks. -/
def written : List Opened → List Step → List Op
  | [], done => allToOps done.reverse
  | opened :: blocks, done =>
    written blocks opened.before ++ .enter opened.statement :: allToOps done.reverse

/-- Every open block has the number of its entry. -/
def Numbered : List Opened → Prop
  | [] => True
  | opened :: blocks => opened.index = (written blocks opened.before).length ∧ Numbered blocks

theorem written_cons (blocks : List Opened) (step : Step) (done : List Step) :
    written blocks (step :: done) = written blocks done ++ step.toOps := by
  cases blocks <;> simp [written, allToOps_append, allToOps_singleton]

theorem rising_written (blocks : List Opened) (done : List Step) :
    Rising (written blocks done) := by
  induction blocks generalizing done with
  | nil => exact .paired (paired_allToOps _)
  | cons opened blocks ih =>
    exact (ih opened.before).enter opened.statement (paired_allToOps _)

/-- Where reading fails, an exit stands behind paired blocks, or an entry in front of them. -/
theorem unpaired_of_read {index e : Nat} {blocks : List Opened} {done : List Step} {ops : List Op}
    (hnumbered : Numbered blocks) (hindex : index = (written blocks done).length)
    (h : read index blocks done ops = .error e) : Unpaired (written blocks done ++ ops) e := by
  induction ops generalizing index blocks done with
  | nil =>
    cases blocks with
    | nil => cases h
    | cons opened blocks =>
      obtain rfl : opened.index = e := Except.error.inj h
      rw [List.append_nil, written, hnumbered.1]
      exact Op.unpaired_enter (rising_written _ _) (paired_allToOps _)
  | cons op ops ih =>
    cases op with
    | act a =>
      have hwritten : written blocks (act a :: done) = written blocks done ++ [.act a] :=
        written_cons blocks (act a) done
      have hread := ih hnumbered (by rw [hwritten, hindex]; simp) h
      rwa [hwritten, List.append_assoc] at hread
    | enter statement =>
      have hwritten : written (⟨index, statement, done⟩ :: blocks) [] =
          written blocks done ++ [.enter statement] := rfl
      have hopened : Numbered (⟨index, statement, done⟩ :: blocks) := ⟨hindex, hnumbered⟩
      have hread := ih hopened (by rw [hwritten, hindex]; simp) h
      rwa [hwritten, List.append_assoc] at hread
    | exit =>
      cases blocks with
      | nil =>
        obtain rfl : index = e := Except.error.inj h
        rw [hindex]
        exact Op.unpaired_exit (paired_allToOps _)
      | cons opened blocks =>
        have hwritten : written blocks (block opened.statement done.reverse :: opened.before) =
            written (opened :: blocks) done ++ [.exit] := by
          rw [written_cons, written]
          simp [toOps]
        have hread := ih hnumbered.2 (by rw [hwritten, hindex]; simp) h
        rwa [hwritten, List.append_assoc] at hread

/-- Reading fails at the operation that is left over. -/
theorem ofOps_eq_error_iff {ops : List Op} {index : Nat} :
    ofOps ops = .error index ↔ Unpaired ops index := by
  have hread {e : Nat} (h : ofOps ops = .error e) : Unpaired (written [] [] ++ ops) e :=
    unpaired_of_read trivial rfl h
  refine ⟨hread, fun h => ?_⟩
  cases hsteps : ofOps ops with
  | ok steps => exact absurd h (exists_ofOps_iff.mp ⟨steps, hsteps⟩).not_unpaired
  | error e => rw [(hread hsteps).eq h]

example (s : BlockStatement) : ofOps [.enter s, .enter s, .exit, .enter s] = .error 3 := rfl

end Step

end Haml
