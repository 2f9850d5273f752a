import Haml.Proofs.Render.Alike

/-! Markup comes from the source. With escaping on, tables that answer with other texts give pages
with the same angle brackets, unless an angle bracket is what attribute values stand between. -/

namespace Haml

namespace Table

/-- Both are texts, or neither comes to a value. -/
inductive Answer.Alike : Answer → Answer → Prop
  | value {v w : Value} (h : v.BothTexts w) : Alike (.value v) (.value w)
  | fails (e e' : EvalError) : Alike (.fails e) (.fails e')

/-- Scopes with answers to the same code. -/
def ScopesAlike (a b : Scope) : Prop :=
  ∀ code, Option.Rel Answer.Alike (a.lookup code) (b.lookup code)

/-- Blocks that differ in nothing but the texts in their scopes and the one they return. -/
structure Block.Alike (b c : Block) : Prop where
  condition : b.condition = c.condition
  runs : List.Forall₂ ScopesAlike b.runs c.runs
  swallow : b.swallow = c.swallow
  failure : b.failure = c.failure
  returns : Option.Rel Value.BothTexts b.returns c.returns

/-- Tables with answers to the same code, all of them texts, and the same blocks but for texts. -/
structure Alike (t u : Table) : Prop where
  vars : ScopesAlike t.vars u.vars
  blocks : ∀ code, Option.Rel Block.Alike (t.blocks.lookup code) (u.blocks.lookup code)

/-- The open scopes are alike; calls are a record only. -/
def StatesAlike (s s' : State) : Prop := List.Forall₂ ScopesAlike s.scopes s'.scopes

theorem StatesAlike.pop {s s' : State} (h : StatesAlike s s') :
    StatesAlike { s with scopes := s.scopes.tail } { s' with scopes := s'.scopes.tail } := by
  unfold StatesAlike
  rw [← List.drop_one, ← List.drop_one]
  exact List.forall₂_drop 1 h

theorem findSome?_alike {scopes scopes' : List Scope}
    (h : List.Forall₂ ScopesAlike scopes scopes') (code : Text) :
    Option.Rel Answer.Alike (scopes.findSome? (·.lookup code))
      (scopes'.findSome? (·.lookup code)) := by
  induction h with
  | nil => exact .none
  | @cons a b scopes scopes' hab hrest ih =>
    have hfirst := hab code
    rw [List.findSome?_cons, List.findSome?_cons]
    generalize a.lookup code = x at hfirst ⊢
    generalize b.lookup code = y at hfirst ⊢
    cases hfirst with
    | some hanswer => exact .some hanswer
    | none => exact ih

namespace Alike

variable {t u : Table} (h : t.Alike u) {s s' : State} (hs : StatesAlike s s')

include h hs

theorem evaluate (code : Text) :
    Outcome.Alike Value.BothTexts StatesAlike (t.evaluate code s) (u.evaluate code s') := by
  have hfind : Option.Rel Answer.Alike (t.find? s.scopes code) (u.find? s'.scopes code) :=
    findSome?_alike (List.rel_append hs (.cons h.vars .nil)) code
  have hrecord : StatesAlike (s.record (.evaluate code)) (s'.record (.evaluate code)) := hs
  unfold Table.evaluate
  generalize t.find? s.scopes code = x at hfind ⊢
  generalize u.find? s'.scopes code = y at hfind ⊢
  cases hfind with
  | none => exact .failed hrecord
  | some hanswer =>
    cases hanswer with
    | value hvw => exact .through hvw hrecord
    | fails e e' => exact .failed hrecord

omit h in
theorem runAll {b c : Block} (hbc : b.Alike c) {runs runs' : List Scope}
    (hruns : List.Forall₂ ScopesAlike runs runs') :
    (b.runAll runs s).Alike StatesAlike (c.runAll runs' s') := by
  induction hruns generalizing s s' with
  | nil =>
    refine .done ?_
    unfold Block.result
    rw [hbc.failure]
    split
    · exact .failed hs
    · exact .through hbc.returns hs
  | @cons scope scope' runs runs' hscope hrest ih =>
    refine .body (List.Forall₂.cons hscope hs) fun through s s' hbody => ?_
    rw [← hbc.swallow]
    by_cases hgo : through || b.swallow
    · rw [if_pos hgo, if_pos hgo]
      exact ih hbody.pop
    · rw [if_neg hgo, if_neg hgo]
      exact .done (.failed hbody.pop)

/-- A condition that is a text holds, whatever the text. -/
theorem run {b c : Block} (hbc : b.Alike c) :
    (b.run t s).Alike StatesAlike (c.run u s') := by
  unfold Block.run
  rw [← hbc.condition]
  cases b.condition with
  | none => exact runAll hs hbc hbc.runs
  | some code =>
    have hanswers := h.evaluate hs code
    dsimp only
    generalize t.evaluate code s = x at hanswers ⊢
    generalize u.evaluate code s' = y at hanswers ⊢
    cases hanswers with
    | failed hs => exact .done (.failed hs)
    | through hvw hs =>
      cases hvw with
      | str v w => exact runAll hs hbc hbc.runs

theorem runBlock (statement : BlockStatement) :
    (t.runBlock statement s).Alike StatesAlike (u.runBlock statement s') := by
  have hrecord : StatesAlike (s.record (.enter statement)) (s'.record (.enter statement)) := hs
  have hblock := h.blocks statement.code
  unfold Table.runBlock
  dsimp only
  generalize t.blocks.lookup statement.code = x at hblock ⊢
  generalize u.blocks.lookup statement.code = y at hblock ⊢
  cases hblock with
  | none => exact .done (.failed hrecord)
  | some hbc => exact h.run hrecord hbc

omit hs in
theorem renderer (filters : Registry) (o : Options) :
    Renderer.Alike StatesAlike ⟨t.evaluator, filters, o⟩ ⟨u.evaluator, filters, o⟩ where
  options := rfl
  evaluate code _ _ hs := h.evaluate hs code
  runBlock statement _ _ hs := h.runBlock hs statement

end Alike

end Table

/-- Evaluated values cannot add markup. A program compiled with escaping on, from a source that asks
for nothing raw and runs no code in the text of a filter, is rendered with two tables that answer the
same code and have the same blocks, but with other texts. Then both renderings fail, or both go
through to pages with the same angle brackets in the same order. -/
theorem Program.render_other_texts {source : Text} {o : Options} {registry : Registry} {p : Program}
    {entries : List Entry} {t u : Table} (hescape : o.escapeHtml = true)
    (hquote : o.attrWrapper ≠ '<' ∧ o.attrWrapper ≠ '>')
    (hp : compile source o registry = .ok p) (hread : Outline.read source = .ok entries)
    (hescaped : ∀ e ∈ entries, e.item.Escaped) (h : t.Alike u) (filters : Registry) :
    (∃ e e', (p.render filters t.evaluator {}).1 = .error e ∧
        (p.render filters u.evaluator {}).1 = .error e') ∨
      ∃ html html', (p.render filters t.evaluator {}).1 = .ok html ∧
        (p.render filters u.evaluator {}).1 = .ok html' ∧
        Text.markup html = Text.markup html' := by
  obtain rfl := (compile_eq_ok hp).1
  have hbracket : Text.isBracket p.options.attrWrapper = false := by
    simp [Text.isBracket, hquote.1, hquote.2]
  have hops := Compile.program_invariant (Compile.invariant_escaped hescape) hread hescaped hp
  have hpages := (h.renderer filters p.options).render hbracket hops (s := {}) (t := {}) .nil
  unfold render
  generalize Renderer.render ⟨t.evaluator, filters, p.options⟩ p.ops {} = x at hpages ⊢
  generalize Renderer.render ⟨u.evaluator, filters, p.options⟩ p.ops {} = y at hpages ⊢
  cases hpages with
  | @failed e e' s s' _ => exact .inl ⟨e, e', rfl, rfl⟩
  | @through html html' s s' hmarkup _ => exact .inr ⟨html, html', rfl, rfl, hmarkup⟩

section Example

/-- Other texts for a script, a preserved region, a class, an attribute, interpolated text, the scopes
of a block and what it returns. -/
theorem Program.render_other_texts_everywhere :
    let o : Options := { escapeHtml := true, autoclose := ⟨[]⟩, preserve := ⟨["pre"]⟩ }
    let source : Text :=
      "%pre\x7b:class => k\x7d\n  ~ x\n= wrap do\n  %b\x7b:data => d\x7d a #\x7by\x7d"
    let t : Table := {
      vars := [("k", .value (.str "i j")), ("d", .value (.str [])), ("x", .value (.str "<i>\n"))]
      blocks := [("wrap do", { runs := [[("y", .value (.str "1"))], [("y", .value (.str "<2>"))]]
                               returns := some (.str ">") })] }
    let u : Table := {
      vars := [("k", .value (.str [])), ("d", .value (.str "'>")), ("x", .value (.str "v\nw"))]
      blocks := [("wrap do", { runs := [[("y", .value (.str "<"))], [("y", .value (.str []))]]
                               returns := some (.str []) })] }
    let html : Text :=
      "<pre class='i j'>&lt;i&gt;</pre>\n<b data=''>a 1</b>\n<b data=''>a &lt;2&gt;</b>\n&gt;\n"
    let html' : Text := "<pre>v&#x000A;w</pre>\n<b data='&#x27;&gt;'>a &lt;</b>\n" ++
      "<b data='&#x27;&gt;'>a </b>\n"
    ∃ p entries, compile source o .builtin = .ok p ∧ Outline.read source = .ok entries ∧
      (∀ e ∈ entries, e.item.Escaped) ∧ t.Alike u ∧
      (p.render .builtin t.evaluator {}).1 = .ok html ∧
      (p.render .builtin u.evaluator {}).1 = .ok html' ∧ Text.markup html = Text.markup html' := by
  intro o source t u html html'
  obtain ⟨p, hp, hpages⟩ : ∃ p, compile source o .builtin = .ok p ∧
      [t, u].map (fun t => (p.render .builtin t.evaluator {}).1) = [.ok html, .ok html'] :=
    Outcome.exists_of_map_eq_ok (by decide +kernel)
  obtain ⟨entries, hread, hescaped⟩ : ∃ entries, Outline.read source = .ok entries ∧
      decide (∀ e ∈ entries, e.item.Escaped) = true :=
    Outcome.exists_of_map_eq_ok (by decide +kernel)
  have hescaped := of_decide_eq_true hescaped
  obtain ⟨hpage, hpages⟩ := List.cons.inj hpages
  obtain ⟨hpage', -⟩ := List.cons.inj hpages
  have htext (code : Text) (v w : Text) : EntriesRel Table.Answer.Alike
      [(code, .value (.str v))] [(code, .value (.str w))] :=
    .cons ⟨rfl, .value (.str v w)⟩ .nil
  have hvars : EntriesRel Table.Answer.Alike t.vars u.vars :=
    .cons ⟨rfl, .value (.str _ _)⟩ (.cons ⟨rfl, .value (.str _ _)⟩ (htext "x" _ _))
  have hblocks : EntriesRel Table.Block.Alike t.blocks u.blocks :=
    .cons ⟨rfl, rfl, .cons (htext "y" _ _).lookup (.cons (htext "y" _ _).lookup .nil), rfl, rfl,
      .some (.str _ _)⟩ .nil
  have halike : t.Alike u := ⟨hvars.lookup, hblocks.lookup⟩
  refine ⟨p, entries, hp, hread, hescaped, halike, hpage, hpage', ?_⟩
  rcases render_other_texts rfl (by decide) hp hread hescaped halike .builtin with
    ⟨e, e', he, -⟩ | ⟨first, second, hfirst, hsecond, hmarkup⟩
  · exact absurd (he.symm.trans hpage) (by simp)
  · obtain rfl := Except.ok.inj (hfirst.symm.trans hpage)
    obtain rfl := Except.ok.inj (hsecond.symm.trans hpage')
    exact hmarkup

/-- An angle bracket for a quote is there only if the attribute is. -/
theorem Program.render_other_texts_quote :
    let o : Options :=
      { escapeHtml := true, attrWrapper := '<', autoclose := ⟨[]⟩, preserve := ⟨[]⟩ }
    let source : Text := "%p\x7b:class => x\x7d"
    let t : Table := { vars := [("x", .value (.str []))] }
    let u : Table := { vars := [("x", .value (.str "a"))] }
    ∃ p entries, compile source o .builtin = .ok p ∧ Outline.read source = .ok entries ∧
      (∀ e ∈ entries, e.item.Escaped) ∧ t.Alike u ∧
      (p.render .builtin t.evaluator {}).1 = .ok "<p></p>\n" ∧
      (p.render .builtin u.evaluator {}).1 = .ok "<p class=<a<></p>\n" ∧
      Text.markup "<p></p>\n" ≠ Text.markup "<p class=<a<></p>\n" := by
  intro o source t u
  obtain ⟨p, hp, hpages⟩ : ∃ p, compile source o .builtin = .ok p ∧
      [t, u].map (fun t => (p.render .builtin t.evaluator {}).1) =
        [.ok "<p></p>\n", .ok "<p class=<a<></p>\n"] :=
    Outcome.exists_of_map_eq_ok (by decide +kernel)
  obtain ⟨entries, hread, hescaped⟩ : ∃ entries, Outline.read source = .ok entries ∧
      decide (∀ e ∈ entries, e.item.Escaped) = true :=
    Outcome.exists_of_map_eq_ok (by decide +kernel)
  obtain ⟨hpage, hpages⟩ := List.cons.inj hpages
  obtain ⟨hpage', -⟩ := List.cons.inj hpages
  have hvars : EntriesRel Table.Answer.Alike t.vars u.vars :=
    .cons ⟨rfl, .value (.str _ _)⟩ .nil
  exact ⟨p, entries, hp, hread, of_decide_eq_true hescaped, ⟨hvars.lookup, fun _ => .none⟩, hpage,
    hpage', by decide⟩

end Example

end Haml
