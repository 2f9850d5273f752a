import Haml.Proofs.Render.Congruence

/-! Unrolling a block. A block that a table runs some number of times over, in empty scopes, comes
to that many copies of its body; only the entries into the block are missing from the record. -/

namespace Haml

namespace Table

/-- A record, and the same one without some of the entries of a statement. -/
inductive Omits (statement : BlockStatement) : List Call → List Call → Prop
  | nil : Omits statement [] []
  | both {calls calls' : List Call} (call : Call) (h : Omits statement calls calls') :
      Omits statement (calls ++ [call]) (calls' ++ [call])
  | entry {calls calls' : List Call} (h : Omits statement calls calls') :
      Omits statement (calls ++ [.enter statement]) calls'

variable {statement : BlockStatement}

/-- States with the given scopes, which have the same answers, and with entries of a statement left
out of the second record. -/
structure Beside (t : Table) (statement : BlockStatement) (i : List Scope × List Scope)
    (s s' : State) : Prop where
  left : s.scopes = i.1
  right : s'.scopes = i.2
  find : ∀ code, t.find? i.1 code = t.find? i.2 code
  calls : Omits statement s.calls s'.calls

variable {t : Table} {i : List Scope × List Scope} {s s' : State}

theorem find?_cons (t : Table) (scope : Scope) (scopes : List Scope) (code : Text) :
    t.find? (scope :: scopes) code = (scope.lookup code).or (t.find? scopes code) := by
  unfold find?
  rw [List.cons_append, List.findSome?_cons]
  cases scope.lookup code <;> rfl

namespace Beside

theorem record (h : Beside t statement i s s') (call : Call) :
    Beside t statement i (s.record call) (s'.record call) :=
  ⟨h.left, h.right, h.find, h.calls.both call⟩

theorem enter (h : Beside t statement i s s') :
    Beside t statement i (s.record (.enter statement)) s' :=
  ⟨h.left, h.right, h.find, h.calls.entry⟩

theorem push (h : Beside t statement i s s') (scope : Scope) :
    Beside t statement (scope :: i.1, scope :: i.2) { s with scopes := scope :: s.scopes }
      { s' with scopes := scope :: s'.scopes } where
  left := by rw [h.left]
  right := by rw [h.right]
  find code := by
    rw [find?_cons, find?_cons]
    exact congrArg _ (h.find code)
  calls := h.calls

/-- An empty scope has no answers. -/
theorem push_nil (h : Beside t statement i s s') :
    Beside t statement ([] :: i.1, i.2) { s with scopes := [] :: s.scopes } s' where
  left := by rw [h.left]
  right := h.right
  find code := by
    rw [find?_cons]
    exact h.find code
  calls := h.calls

theorem pop {scope : Scope} (hfind : ∀ code, t.find? i.1 code = t.find? i.2 code)
    (h : Beside t statement (scope :: i.1, scope :: i.2) s s') :
    Beside t statement i { s with scopes := s.scopes.tail }
      { s' with scopes := s'.scopes.tail } where
  left := by rw [h.left]; rfl
  right := by rw [h.right]; rfl
  find := hfind
  calls := h.calls

theorem pop_left {scope : Scope} (hfind : ∀ code, t.find? i.1 code = t.find? i.2 code)
    (h : Beside t statement (scope :: i.1, i.2) s s') :
    Beside t statement i { s with scopes := s.scopes.tail } s' where
  left := by rw [h.left]; rfl
  right := h.right
  find := hfind
  calls := h.calls

theorem evaluate (h : Beside t statement i s s') (code : Text) :
    (t.evaluate code s).1 = (t.evaluate code s').1 ∧
      Beside t statement i (t.evaluate code s).2 (t.evaluate code s').2 := by
  have hfind : t.find? s.scopes code = t.find? s'.scopes code := by
    rw [h.left, h.right, h.find]
  refine ⟨?_, h.record (.evaluate code)⟩
  unfold Table.evaluate
  rw [hfind]

theorem runAll (h : Beside t statement i s s') (b : Block) (runs : List Scope) :
    (b.runAll runs s).Corresponds (Beside t statement) i (b.runAll runs s') := by
  induction runs generalizing s s' with
  | nil => exact .done h
  | cons scope runs ih =>
    refine .body (h.push scope) fun through s s' hbody => ?_
    have hpop := hbody.pop h.find
    by_cases hgo : through || b.swallow
    · rw [if_pos hgo, if_pos hgo]
      exact ih hpop
    · rw [if_neg hgo, if_neg hgo]
      exact .done hpop

theorem run (h : Beside t statement i s s') (b : Block) :
    (b.run t s).Corresponds (Beside t statement) i (b.run t s') := by
  unfold Block.run
  cases hcondition : b.condition with
  | none => exact h.runAll b b.runs
  | some code =>
    obtain ⟨hanswer, hstate⟩ := h.evaluate code
    dsimp only
    rcases Outcome.error_or_ok hanswer with ⟨e, s₁, s₁', hs, hs'⟩ | ⟨v, s₁, s₁', hs, hs'⟩ <;>
      rw [hs, hs'] at hstate ⊢
    · exact .done hstate
    · exact hstate.runAll b _

theorem runBlock (h : Beside t statement i s s') (other : BlockStatement) :
    (t.runBlock other s).Corresponds (Beside t statement) i (t.runBlock other s') := by
  have hrecord := h.record (.enter other)
  unfold Table.runBlock
  cases t.blocks.lookup other.code with
  | none => exact .done hrecord
  | some b => exact hrecord.run b

end Beside

theorem corresponds (t : Table) (statement : BlockStatement) (filters : Registry) (o : Options) :
    Renderer.Corresponds (Beside t statement) ⟨t.evaluator, filters, o⟩
      ⟨t.evaluator, filters, o⟩ where
  filters := rfl
  options := rfl
  evaluate code h := h.evaluate code
  runBlock statement h := h.runBlock statement

theorem Block.stopsAtFailure_runAll {b : Block} (hswallow : b.swallow = false)
    (runs : List Scope) (s : State) : (b.runAll runs s).StopsAtFailure := by
  induction runs generalizing s with
  | nil => trivial
  | cons scope runs ih =>
    refine ⟨fun s => ⟨.error .halted, { s with scopes := s.scopes.tail }, ?_⟩, fun s => ih _⟩
    simp [hswallow]

theorem stopsAtFailure (hswallow : ∀ b, t.blocks.lookup statement.code = some b → b.swallow = false)
    (s : State) : (t.evaluator.runBlock statement s).StopsAtFailure := by
  change (t.runBlock statement s).StopsAtFailure
  unfold runBlock
  cases hlookup : t.blocks.lookup statement.code with
  | none => trivial
  | some b =>
    have hb := hswallow b hlookup
    dsimp only
    unfold Block.run
    cases b.condition with
    | none => exact Block.stopsAtFailure_runAll hb b.runs _
    | some code =>
      dsimp only
      rcases t.evaluate code (s.record (.enter statement)) with ⟨e | v, s₁⟩
      · trivial
      · exact Block.stopsAtFailure_runAll hb _ s₁

end Table

open Table (Beside Omits)

namespace Renderer

variable {t : Table} {statement : BlockStatement} {r : Renderer Table.State}

/-- How a run of a body in a block ends, and how copies of the body do. A failure is set aside in
the one and raised in the other. -/
inductive EndsAlike (G : Table.State → Table.State → Prop) :
    Except EvalError (Option Value) × Scene Table.State →
    Except RenderError Unit × Scene Table.State → Prop
  | through {l : Layout} {s s' : Table.State} (h : G s s') :
      EndsAlike G (.ok none, ⟨l, none, s⟩) (.ok (), ⟨l, none, s'⟩)
  | failed {e : RenderError} {l : Layout} {s s' : Table.State} (h : G s s') :
      EndsAlike G (.error .halted, ⟨l, some e, s⟩) (.error e, ⟨l, none, s'⟩)

/-- Running a body in empty scopes, and copies of it one behind the other. -/
theorem drive_copies (h : r.Corresponds (Beside t statement) r) {b : Table.Block}
    (hresult : b.result = .ok none) (hswallow : b.swallow = false) (inner : List Step) (k : Nat)
    (i : List Table.Scope × List Table.Scope) (l : Layout) {s s' : Table.State}
    (hs : Beside t statement i s s') :
    EndsAlike (Beside t statement i)
      ((b.runAll (List.replicate k []) s).drive (r.steps inner) l none)
      (r.steps (List.replicate k inner).flatten ⟨l, none, s'⟩) := by
  induction k generalizing l s s' with
  | zero =>
    rw [List.replicate_zero, Table.Block.runAll, hresult, BlockRun.drive]
    exact .through hs
  | succ k ih =>
    obtain ⟨hbody, hscene⟩ := h.steps inner ([] :: i.1, i.2)
      ⟨l, none, { s with scopes := [] :: s.scopes }⟩ ⟨l, none, s'⟩ ⟨rfl, rfl, hs.push_nil⟩
    have hnone := halted_steps r inner ⟨l, none, s'⟩ rfl
    rw [List.replicate_succ, List.replicate_succ, List.flatten_cons, steps_append_apply,
      Table.Block.runAll, BlockRun.drive]
    rcases Outcome.error_or_ok hbody with
      ⟨e, after, after', hm, hn⟩ | ⟨⟨⟩, after, after', hm, hn⟩ <;>
      rw [hn] at hnone <;> rw [hm, hn] at hscene ⊢
    · have hafter' : after' = ⟨after.layout, none, after'.state⟩ := by
        rw [hscene.layout, ← hnone]
      simp only [hswallow, Bool.or_self, Bool.false_eq_true, if_false, BlockRun.drive]
      rw [hafter']
      exact .failed (hscene.state.pop_left hs.find)
    · have hnone' : after.halted = none := hscene.halted.trans hnone
      have hrest := ih after.layout (hscene.state.pop_left hs.find)
      have hafter' : after' = ⟨after.layout, none, after'.state⟩ := by
        rw [hscene.layout, ← hnone]
      dsimp only
      rw [hnone', hafter', Bool.true_or, if_pos rfl]
      exact hrest

/-- A block that runs its body in empty scopes agrees with copies of the body. -/
theorem agrees_copies {filters : Registry} {o : Options} {same : Prop} {k : Nat}
    (hentry : t.blocks.lookup statement.code = some { runs := List.replicate k [] })
    (inner : List Step) :
    Rendering.Agrees same (Beside t statement)
      (Renderer.steps ⟨t.evaluator, filters, o⟩ [.block statement inner])
      (Renderer.steps ⟨t.evaluator, filters, o⟩ (List.replicate k inner).flatten) := by
  intro i ⟨l, halted, s⟩ ⟨l', halted', s'⟩ ⟨hlayout, hhalted, hstate⟩ hnone
  obtain rfl : l = l' := hlayout
  obtain rfl : halted = none := hnone
  obtain rfl : none = halted' := hhalted
  have hrun : t.evaluator.runBlock statement s =
      Table.Block.runAll { runs := List.replicate k [] } (List.replicate k [])
        (s.record (.enter statement)) := by
    change t.runBlock statement s = _
    unfold Table.runBlock
    rw [hentry]
    rfl
  have henter : Beside t statement i (s.record (.enter statement)) s' := hstate.enter
  have hcopies := drive_copies (t.corresponds statement filters o)
    (b := { runs := List.replicate k [] }) rfl rfl inner k i l henter
  rw [steps_singleton_apply, step, block]
  dsimp only
  rw [hrun]
  generalize (Table.Block.runAll _ _ _).drive _ l none = driven at hcopies ⊢
  generalize Renderer.steps _ (List.replicate k inner).flatten _ = copied at hcopies ⊢
  cases hcopies with
  | @through l' _ _ hend =>
    have hwrite : writeValue l' statement.output none = l' := by
      cases statement.output <;> rfl
    dsimp only
    rw [hwrite]
    exact .through ⟨rfl, rfl, hend⟩
  | failed hend => exact .failed fun _ => ⟨rfl, rfl, rfl, hend⟩

end Renderer

namespace Step

theorem allToOps_copies (k : Nat) (steps : List Step) :
    allToOps (List.replicate k steps).flatten = (List.replicate k (allToOps steps)).flatten := by
  induction k with
  | zero => rfl
  | succ k ih =>
    rw [List.replicate_succ, List.replicate_succ, List.flatten_cons, List.flatten_cons,
      allToOps_append, ih]

end Step

/-- Unrolling a block that a table runs `k` times, in empty scopes and with nothing else to it. The
page is the same one, if there is one. Failures and calls are the same too, except for the entries
of the block that are gone, unless a block around it goes on after its body failed and rendering
fails. -/
theorem Program.render_unrolled {before body after : List Op} {statement : BlockStatement} {k : Nat}
    {t : Table} {steps inner : List Step}
    (hsteps : Step.ofOps (before ++ .enter statement :: (body ++ .exit :: after)) = .ok steps)
    (hbody : Step.ofOps body = .ok inner)
    (hentry : t.blocks.lookup statement.code = some { runs := List.replicate k [] })
    (filters : Registry) (o : Options) :
    let block := render ⟨before ++ .enter statement :: (body ++ .exit :: after), o⟩ filters
      t.evaluator {}
    let copies := render ⟨before ++ ((List.replicate k body).flatten ++ after), o⟩ filters
      t.evaluator {}
    (∀ html, block.1 = .ok html ↔ copies.1 = .ok html) ∧
      ((∃ html, block.1 = .ok html) ∨
        (∀ enclosing ∈ Step.openAfter before, ∀ b,
          t.blocks.lookup enclosing.code = some b → b.swallow = false) →
        block.1 = copies.1 ∧ Omits statement block.2.calls copies.2.calls) := by
  intro block copies
  obtain ⟨place, rfl, hfill, hstatements⟩ := Step.exists_place hsteps hbody
  have hcopies : Step.ofOps (before ++ ((List.replicate k body).flatten ++ after)) =
      .ok (place.fill (List.replicate k inner).flatten) := by
    rw [← hfill, Step.allToOps_copies, ← Step.ofOps_eq_ok_iff.mp hbody]
  have hstop (hsame : ∀ enclosing ∈ Step.openAfter before, ∀ b,
      t.blocks.lookup enclosing.code = some b → b.swallow = false) :
      ∀ enclosing ∈ place.statements, ∀ s, (t.evaluator.runBlock enclosing s).StopsAtFailure := by
    intro enclosing henclosing
    rw [hstatements, List.mem_reverse] at henclosing
    exact Table.stopsAtFailure (hsame enclosing henclosing)
  have hstart : Scene.Corresponds (Beside t statement ([], [])) ⟨{}, none, {}⟩ ⟨{}, none, {}⟩ :=
    ⟨rfl, rfl, rfl, rfl, fun _ => rfl, .nil⟩
  have hagree := (t.corresponds statement filters o).agrees_fill place hstop
    (Renderer.agrees_copies hentry inner) ([], []) _ _ hstart rfl
  have hblock : block = _ := render_apply hsteps filters t.evaluator {}
  have hunrolled : copies = _ := render_apply hcopies filters t.evaluator {}
  rw [hblock, hunrolled]
  rcases hx : Renderer.steps ⟨t.evaluator, filters, o⟩ (place.fill [.block statement inner])
    ⟨{}, none, {}⟩ with ⟨e | ⟨⟩, scene⟩ <;>
    rcases hy : Renderer.steps ⟨t.evaluator, filters, o⟩
      (place.fill (List.replicate k inner).flatten) ⟨{}, none, {}⟩ with ⟨e' | ⟨⟩, scene'⟩ <;>
    rw [hx, hy] at hagree
  · refine ⟨fun html => ⟨nofun, nofun⟩, ?_⟩
    rintro (⟨html, hhtml⟩ | hsame)
    · cases hhtml
    · obtain ⟨rfl, hscene⟩ := hagree.alike hsame
      exact ⟨rfl, hscene.state.calls⟩
  · cases hagree
  · cases hagree
  · obtain ⟨hscene⟩ := hagree
    dsimp only
    rw [hscene.layout]
    exact ⟨fun html => .rfl, fun _ => ⟨rfl, hscene.state.calls⟩⟩

section Example

theorem Program.render_unrolled_each :
    let t : Table := {
      blocks := [("each", { runs := [[("x", .value (.int 1))], [("x", .value (.int 2))]] }),
        ("twice", { runs := [[], []] })] }
    let before : List Op := [.enter ⟨"each", false, none, 1⟩]
    let body : List Op := [.act (.expr "x" false false .line 3)]
    let after : List Op := [.act (.expr "y" false false .line 4), .exit]
    let o : Options := { autoclose := ⟨[]⟩, preserve := ⟨[]⟩ }
    let block := render ⟨before ++ .enter ⟨"twice", false, none, 2⟩ :: (body ++ .exit :: after), o⟩
      .builtin t.evaluator {}
    let copies := render ⟨before ++ (body ++ body ++ after), o⟩ .builtin t.evaluator {}
    block.1 = .error (.evaluation "undefined `y`" "y" 4) ∧ block.1 = copies.1 ∧
      Omits ⟨"twice", false, none, 2⟩ block.2.calls copies.2.calls := by
  intro t before body after o block copies
  let statement : BlockStatement := ⟨"twice", false, none, 2⟩
  have hsteps : Step.ofOps (before ++ .enter statement :: (body ++ .exit :: after)) =
      .ok [.block ⟨"each", false, none, 1⟩
        [.block statement [.act (.expr "x" false false .line 3)],
          .act (.expr "y" false false .line 4)]] := rfl
  have hbody : Step.ofOps body = .ok [.act (.expr "x" false false .line 3)] := rfl
  have hentry : t.blocks.lookup statement.code = some { runs := List.replicate 2 [] } := rfl
  have h := render_unrolled hsteps hbody hentry .builtin o
  exact ⟨by decide, h.2 (.inr (by decide))⟩

/-- Where a block around it goes on after its body failed, a block that runs no times is not gone:
it reports the earlier failure, and what is behind it is not run. -/
theorem Program.render_ne_unrolled :
    let t : Table := {
      blocks := [("outer", { runs := [[("x", .fails (.failed "boom"))], [("x", .value (.int 1))]]
                             swallow := true }),
        ("inner", { runs := List.replicate 0 [] })] }
    let before : List Op :=
      [.enter ⟨"outer", false, none, 1⟩, .act (.expr "x" false false .line 2)]
    let after : List Op := [.act (.expr "y" false false .line 4), .exit]
    let o : Options := { autoclose := ⟨[]⟩, preserve := ⟨[]⟩ }
    let block := render ⟨before ++ .enter ⟨"inner", false, none, 3⟩ :: ([] ++ .exit :: after), o⟩
      .builtin t.evaluator {}
    let copies := render ⟨before ++ ((List.replicate 0 []).flatten ++ after), o⟩ .builtin
      t.evaluator {}
    block.1 = .error (.evaluation "boom" "x" 2) ∧
      copies.1 = .error (.evaluation "undefined `y`" "y" 4) ∧
      .evaluate "y" ∉ block.2.calls ∧ .evaluate "y" ∈ copies.2.calls := by
  decide

end Example

end Haml
