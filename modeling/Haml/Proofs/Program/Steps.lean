import Haml.Program.Step

/-! Steps written out as operations are read back as the same steps. -/

namespace Haml.Step

mutual

theorem read_toOps (step : Step) (index : Nat) (blocks : List Opened) (done : List Step)
    (rest : List Op) : read index blocks done (step.toOps ++ rest) =
      read (index + step.toOps.length) blocks (step :: done) rest := by
  cases step with
  | act action => rfl
  | block statement body =>
    have hops : (block statement body).toOps ++ rest =
        .enter statement :: (allToOps body ++ .exit :: rest) := by simp [toOps]
    have hlength : index + (block statement body).toOps.length =
        index + 1 + (allToOps body).length + 1 := by simp [toOps]; omega
    -- The body is read on a level of its own, which the exit behind it takes off again.
    rw [hops, hlength, read, read_allToOps body, read]
    simp

theorem read_allToOps (steps : List Step) (index : Nat) (blocks : List Opened) (done : List Step)
    (rest : List Op) : read index blocks done (allToOps steps ++ rest) =
      read (index + (allToOps steps).length) blocks (steps.reverse ++ done) rest := by
  cases steps with
  | nil => rfl
  | cons step steps =>
    rw [allToOps, List.append_assoc, read_toOps step, read_allToOps steps]
    simp [Nat.add_assoc]

end

theorem ofOps_allToOps (steps : List Step) : ofOps (allToOps steps) = .ok steps := by
  have h := read_allToOps steps 0 [] [] []
  rw [List.append_nil, List.append_nil, read] at h
  rw [ofOps, h, List.reverse_reverse]

theorem allToOps_append (u v : List Step) : allToOps (u ++ v) = allToOps u ++ allToOps v := by
  induction u with
  | nil => rfl
  | cons step u ih => rw [List.cons_append, allToOps, allToOps, ih, List.append_assoc]

theorem allToOps_singleton (step : Step) : allToOps [step] = step.toOps := by
  rw [allToOps, allToOps, List.append_nil]

theorem ofOps_actions (actions : List Action) :
    ofOps (actions.map .act) = .ok (actions.map .act) := by
  have hops : allToOps (actions.map .act) = actions.map .act := by
    induction actions with
    | nil => rfl
    | cons a actions ih => rw [List.map_cons, List.map_cons, allToOps, ih]; rfl
  rw [← hops]
  exact ofOps_allToOps _

end Haml.Step
