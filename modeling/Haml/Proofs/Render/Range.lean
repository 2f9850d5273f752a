import Haml.Proofs.Program.Stray
import Haml.Proofs.Render.Calls
import Haml.Proofs.Render.Paired

/-! Running operations by their numbers. A table says of every entry where its block is left; the
operations of a range are run one after the other, and the body of a block is a range of its own.
That is another way to run the steps of a program. It does not depend on what would be done where an
operation has no other end, since no range that is run has one. -/

namespace Haml

namespace Step

/-- The exits of blocks by their entries. Operations are numbered from `index` on; the entries are
those of the blocks that are open, the innermost first. Fails as reading does. -/
def exits (index : Nat) (entries : List Nat) : List Op → Except Nat (List (Nat × Nat))
  | [] =>
    match entries with
    | [] => .ok []
    | entry :: _ => .error entry
  | .act _ :: rest => exits (index + 1) entries rest
  | .enter _ :: rest => exits (index + 1) (index :: entries) rest
  | .exit :: rest =>
    match entries with
    | [] => .error index
    | entry :: entries => (exits (index + 1) entries rest).map ((entry, index) :: ·)

mutual

/-- The entries and exits of a step whose operations are numbered from `index` on. -/
def exitsOf (index : Nat) : Step → List (Nat × Nat)
  | act _ => []
  | block _ body => exitsOfAll (index + 1) body ++ [(index, index + 1 + (allToOps body).length)]

def exitsOfAll (index : Nat) : List Step → List (Nat × Nat)
  | [] => []
  | step :: rest => exitsOf index step ++ exitsOfAll (index + step.toOps.length) rest

end

theorem length_toOps_block (statement : BlockStatement) (body : List Step) :
    (block statement body).toOps.length = 1 + (allToOps body).length + 1 := by
  rw [toOps, List.length_append, List.length_cons, List.length_singleton]
  omega

mutual

theorem exits_toOps (step : Step) (index : Nat) (entries : List Nat) (rest : List Op) :
    exits index entries (step.toOps ++ rest) =
      (exits (index + step.toOps.length) entries rest).map (exitsOf index step ++ ·) := by
  cases step with
  | act a =>
    rw [exitsOf, Outcome.map_nil_append]
    rfl
  | block statement body =>
    have hops : (block statement body).toOps ++ rest =
        .enter statement :: (allToOps body ++ .exit :: rest) := by simp [toOps]
    have hlength : index + (block statement body).toOps.length =
        index + 1 + (allToOps body).length + 1 := by
      rw [length_toOps_block]
      omega
    rw [hops, hlength, exits, exits_allToOps body, exits, exitsOf]
    cases exits (index + 1 + (allToOps body).length + 1) entries rest with
    | error e => rfl
    | ok more => exact congrArg Except.ok (by simp)

theorem exits_allToOps (steps : List Step) (index : Nat) (entries : List Nat) (rest : List Op) :
    exits index entries (allToOps steps ++ rest) =
      (exits (index + (allToOps steps).length) entries rest).map (exitsOfAll index steps ++ ·) := by
  cases steps with
  | nil =>
    rw [exitsOfAll, Outcome.map_nil_append]
    rfl
  | cons step steps =>
    rw [allToOps, List.append_assoc, exits_toOps step, exits_allToOps steps, Outcome.map_append,
      List.length_append, Nat.add_assoc]
    rfl

end

/-- The table is found where steps are read, and if there is none both fail in one place. -/
theorem exits_eq_read (index : Nat) (blocks : List Opened) (done : List Step) (ops : List Op) :
    (exits index (blocks.map Opened.index) ops).map (fun _ => ()) =
      (read index blocks done ops).map fun _ => () := by
  induction ops generalizing index blocks done with
  | nil => cases blocks <;> rfl
  | cons op ops ih =>
    cases op with
    | act a => exact ih (index + 1) blocks (act a :: done)
    | enter statement => exact ih (index + 1) (⟨index, statement, done⟩ :: blocks) []
    | exit =>
      cases blocks with
      | nil => rfl
      | cons opened blocks =>
        have hrest := ih (index + 1) blocks
          (block opened.statement done.reverse :: opened.before)
        rw [List.map_cons, exits, read, ← hrest]
        cases exits (index + 1) (blocks.map Opened.index) ops <;> rfl

theorem exits_of_error {ops : List Op} {index : Nat} (h : ofOps ops = .error index) :
    exits 0 [] ops = .error index := by
  have hread := exits_eq_read 0 [] [] ops
  rw [← ofOps, h] at hread
  exact Outcome.eq_error_of_map hread

theorem exits_of_ok {ops : List Op} {steps : List Step} (h : ofOps ops = .ok steps) :
    exits 0 [] ops = .ok (exitsOfAll 0 steps) := by
  obtain rfl := ofOps_eq_ok_iff.mp h
  have hexits := exits_allToOps steps 0 [] []
  rw [List.append_nil] at hexits
  rw [hexits]
  exact congrArg Except.ok (List.append_nil _)

mutual

theorem entry_bounds (step : Step) (index : Nat) : ∀ p ∈ exitsOf index step,
    index ≤ p.1 ∧ p.1 < index + step.toOps.length := by
  cases step with
  | act a => exact List.forall_mem_nil _
  | block statement body =>
    rw [length_toOps_block]
    intro p hp
    rcases List.mem_append.mp hp with hp | hp
    · have hbounds := entries_bounds body (index + 1) p hp
      omega
    · obtain rfl := List.mem_singleton.mp hp
      dsimp only
      omega

theorem entries_bounds (steps : List Step) (index : Nat) : ∀ p ∈ exitsOfAll index steps,
    index ≤ p.1 ∧ p.1 < index + (allToOps steps).length := by
  cases steps with
  | nil => exact List.forall_mem_nil _
  | cons step steps =>
    rw [allToOps, List.length_append]
    intro p hp
    rcases List.mem_append.mp hp with hp | hp
    · have hbounds := entry_bounds step index p hp
      omega
    · have hbounds := entries_bounds steps (index + step.toOps.length) p hp
      omega

end

mutual

theorem nodup_exitsOf (step : Step) (index : Nat) :
    ((exitsOf index step).map Prod.fst).Nodup := by
  cases step with
  | act a => exact List.nodup_nil
  | block statement body =>
    rw [exitsOf, List.map_append]
    refine List.nodup_append.mpr ⟨nodup_exitsOfAll body (index + 1), by simp, ?_⟩
    intro k hk k' hk' heq
    obtain ⟨p, hp, rfl⟩ := List.mem_map.mp hk
    obtain rfl : k' = index := by simpa using hk'
    have hbounds := entries_bounds body (k' + 1) p hp
    omega

theorem nodup_exitsOfAll (steps : List Step) (index : Nat) :
    ((exitsOfAll index steps).map Prod.fst).Nodup := by
  cases steps with
  | nil => exact List.nodup_nil
  | cons step steps =>
    rw [exitsOfAll, List.map_append]
    refine List.nodup_append.mpr ⟨nodup_exitsOf step index, nodup_exitsOfAll steps _, ?_⟩
    intro k hk k' hk' heq
    obtain ⟨p, hp, rfl⟩ := List.mem_map.mp hk
    obtain ⟨p', hp', rfl⟩ := List.mem_map.mp hk'
    have hbounds := entry_bounds step index p hp
    have hbounds' := entries_bounds steps (index + step.toOps.length) p' hp'
    omega

end

end Step

variable {σ : Type}

namespace Renderer

variable (r : Renderer σ)

/-- Runs the operations from `start` on and in front of `stop`, where `exit?` is the table of exits.
What is done at an operation that has no other end in the range is left open. -/
def range (lost : Nat → Rendering σ Unit) (ops : List Op) (exit? : Nat → Option Nat)
    (start stop : Nat) : Rendering σ Unit :=
  if start < stop then
    match ops[start]? with
    | some (.act action) => do
      r.actStep action
      range lost ops exit? (start + 1) stop
    | some (.enter statement) =>
      match exit? start with
      | none => lost start
      | some exit =>
        if start < exit ∧ exit < stop then do
          r.block statement (range lost ops exit? (start + 1) exit)
          range lost ops exit? (exit + 1) stop
        else lost start
    | _ => lost start
  else pure ()
  termination_by stop - start

/-- Renders operations by their numbers. -/
def renderRange (lost : Nat → Rendering σ Unit) (ops : List Op) (state : σ) :
    Except RenderError Text × σ :=
  match Step.exits 0 [] ops with
  | .error index => (.error (.unbalancedBlock index), state)
  | .ok exits =>
    match r.range lost ops (exits.lookup ·) 0 ops.length ⟨{}, none, state⟩ with
    | (.ok (), scene) => (.ok scene.layout.finish, scene.state)
    | (.error e, scene) => (.error e, scene.state)

variable {r} {lost : Nat → Rendering σ Unit} {ops : List Op} {exit? : Nat → Option Nat}

theorem range_done (start : Nat) : r.range lost ops exit? start start = pure () := by
  rw [range, if_neg (Nat.lt_irrefl start)]

theorem drop_behind {start : Nat} {u after : List Op} (h : ops.drop start = u ++ after) :
    ops.drop (start + u.length) = after := by
  rw [← List.drop_drop, h, List.drop_left]

mutual

/-- A range that goes on with the operations of a step runs the step. -/
theorem range_step (s : Step) {start stop : Nat} {after : List Op}
    (hops : ops.drop start = s.toOps ++ after)
    (hexits : ∀ p ∈ Step.exitsOf start s, exit? p.1 = some p.2)
    (hstop : start + s.toOps.length ≤ stop) :
    r.range lost ops exit? start stop = (do
      r.step s
      r.range lost ops exit? (start + s.toOps.length) stop) := by
  cases s with
  | act a =>
    have hlt : start < stop := hstop
    have hop : ops[start]? = some (.act a) := by rw [← List.head?_drop, hops]; rfl
    rw [range, if_pos hlt, hop, step]
    rfl
  | block statement body =>
    have hinner : ops.drop start =
        [.enter statement] ++ (Step.allToOps body ++ .exit :: after) := by
      rw [hops, Step.toOps]
      simp
    have hop : ops[start]? = some (.enter statement) := by rw [← List.head?_drop, hinner]; rfl
    rw [Step.length_toOps_block] at hstop ⊢
    obtain ⟨hbodyExits, hexit⟩ := List.forall_mem_append.mp hexits
    have hexit : exit? start = some (start + 1 + (Step.allToOps body).length) :=
      hexit _ List.mem_cons_self
    -- The body is a range that ends right in front of its exit.
    have hbody : r.range lost ops exit? (start + 1) (start + 1 + (Step.allToOps body).length) =
        r.steps body := by
      have hbelow : ops.drop (start + 1) = Step.allToOps body ++ .exit :: after :=
        drop_behind hinner
      rw [range_steps body hbelow hbodyExits (Nat.le_refl _), range_done]
      exact bind_pure_unit
    have hwithin : start < start + 1 + (Step.allToOps body).length ∧
        start + 1 + (Step.allToOps body).length < stop := by omega
    rw [range, if_pos (by omega), hop]
    simp only [hexit, if_pos hwithin, hbody]
    rw [step, ← Nat.add_assoc, ← Nat.add_assoc]

theorem range_steps (steps : List Step) {start stop : Nat} {after : List Op}
    (hops : ops.drop start = Step.allToOps steps ++ after)
    (hexits : ∀ p ∈ Step.exitsOfAll start steps, exit? p.1 = some p.2)
    (hstop : start + (Step.allToOps steps).length ≤ stop) :
    r.range lost ops exit? start stop = (do
      r.steps steps
      r.range lost ops exit? (start + (Step.allToOps steps).length) stop) := by
  cases steps with
  | nil =>
    rw [Renderer.steps]
    rfl
  | cons step rest =>
    rw [Step.allToOps, List.append_assoc] at hops
    rw [Step.allToOps, List.length_append, ← Nat.add_assoc] at hstop ⊢
    obtain ⟨hfirst, hrest⟩ := List.forall_mem_append.mp hexits
    rw [range_step step hops hfirst (by omega),
      range_steps rest (drop_behind hops) hrest hstop, Renderer.steps, bind_assoc]

end

/-- Rendering by numbers is rendering, whatever is done where an operation is lost. -/
theorem renderRange_eq (r : Renderer σ) (lost : Nat → Rendering σ Unit) (ops : List Op)
    (state : σ) : r.renderRange lost ops state = r.render ops state := by
  rw [renderRange, render]
  cases hsteps : Step.ofOps ops with
  | error index => rw [Step.exits_of_error hsteps]
  | ok steps =>
    have hlookup : ∀ p ∈ Step.exitsOfAll 0 steps,
        (Step.exitsOfAll 0 steps).lookup p.1 = some p.2 := fun p hp =>
      (lookup_eq_some_iff_mem (Step.nodup_exitsOfAll steps 0)).mpr hp
    obtain rfl := Step.ofOps_eq_ok_iff.mp hsteps
    have hrange : r.range lost (Step.allToOps steps) ((Step.exitsOfAll 0 steps).lookup ·) 0
        (Step.allToOps steps).length = r.steps steps := by
      rw [range_steps steps (List.append_nil _).symm hlookup (by omega), Nat.zero_add, range_done]
      exact bind_pure_unit
    rw [Step.exits_of_ok hsteps]
    rcases hrun : r.steps steps ⟨{}, none, state⟩ with ⟨e | ⟨⟩, scene⟩ <;>
      simp only [hrange, hrun]

end Renderer

namespace Program

variable (p : Program) (filters : Registry) (ev : Evaluator σ) (state : σ)

theorem render_of_unpaired {index : Nat} (h : Op.Unpaired p.ops index) :
    p.render filters ev state = (.error (.unbalancedBlock index), state) := by
  rw [render, Renderer.render, Step.ofOps_eq_error_iff.mpr h]

theorem calls_of_unpaired {index : Nat} (h : Op.Unpaired p.ops index) :
    p.calls filters ev state = [] := by
  rw [calls, p.render_of_unpaired filters ev.recorded (state, []) h]

/-- A program whose blocks are not paired is refused before anything is asked for. The failure names
the operation that is left over, and it does not come in any other way: run by numbers, a program
does not depend on what would be done where an operation has no other end. -/
theorem render_unpaired :
    (∀ index, (p.render filters ev state).1 = .error (.unbalancedBlock index) ↔
      Op.Unpaired p.ops index) ∧
    ((∃ index, (p.render filters ev state).1 = .error (.unbalancedBlock index)) ↔
      ¬Op.Paired p.ops) ∧
    (¬Op.Paired p.ops → p.calls filters ev state = [] ∧ (p.render filters ev state).2 = state) ∧
    ∀ lost : Nat → Rendering σ Unit,
      Renderer.renderRange ⟨ev, filters, p.options⟩ lost p.ops state =
        p.render filters ev state := by
  have hunpaired (h : ¬Op.Paired p.ops) : ∃ index, Op.Unpaired p.ops index := by
    cases hsteps : Step.ofOps p.ops with
    | ok steps => exact absurd (Step.exists_ofOps_iff.mp ⟨steps, hsteps⟩) h
    | error index => exact ⟨index, Step.ofOps_eq_error_iff.mp hsteps⟩
  have hindex (index : Nat) : (p.render filters ev state).1 = .error (.unbalancedBlock index) ↔
      Op.Unpaired p.ops index := by
    refine ⟨fun h => ?_, fun h => by rw [p.render_of_unpaired filters ev state h]⟩
    by_cases hpaired : Op.Paired p.ops
    · obtain ⟨steps, hsteps⟩ := Step.exists_ofOps_iff.mpr hpaired
      exact absurd h (render_ne_unbalancedBlock hsteps filters ev state index)
    · obtain ⟨index', h'⟩ := hunpaired hpaired
      rw [p.render_of_unpaired filters ev state h'] at h
      cases h
      exact h'
  refine ⟨hindex, ⟨?_, ?_⟩, ?_, fun lost => Renderer.renderRange_eq _ lost p.ops state⟩
  · rintro ⟨index, h⟩ hpaired
    exact hpaired.not_unpaired ((hindex index).mp h)
  · intro h
    obtain ⟨index, hleft⟩ := hunpaired h
    exact ⟨index, (hindex index).mpr hleft⟩
  · intro h
    obtain ⟨index, hleft⟩ := hunpaired h
    exact ⟨p.calls_of_unpaired filters ev state hleft,
      congrArg Prod.snd (p.render_of_unpaired filters ev state hleft)⟩

end Program

end Haml
