import Haml.Proofs.Compile.Append
import Haml.Proofs.Layout.Break
import Haml.Proofs.Layout.Seam
import Haml.Proofs.Outline.Unbroken

/-! Compiled documents are whole lines, as far as they are static. What an item is written as begins
with a line break and ends in a text or a tag; a line break is left out behind it only if it ends in
a tag that says so, since the closing end of what it opened uses up any other request. -/

namespace Haml

open Text (Solid)

namespace Compile

variable {o : Options} {r : Registry} {line : Nat} {childless : Bool}
  {body : Except CompileError (List Op)} {ops : List Op}

/-- Operations that are none at all, or actions that are whole lines. -/
def AreLines (o : Options) (ops : List Op) : Prop :=
  ops = [] ∨ ∃ actions : List Action, ops = actions.map .act ∧ Action.Lines o actions

/-- Literals that follow one another inline, and where they come from. -/
theorem exists_inline {escape : Escape} {written : List Segment} (heval : o.suppressEval = false)
    (hstatic : Op.AllStatic (segments o escape line .inline written)) :
    ∃ texts : List Text, segments o escape line .inline written =
      texts.map (fun t => Op.act (.literal t .inline)) ∧ ∀ t ∈ texts, .literal t ∈ written := by
  induction written with
  | nil => exact ⟨[], rfl, nofun⟩
  | cons segment rest ih =>
    cases segment with
    | literal text =>
      obtain ⟨-, hrest⟩ := List.forall_mem_cons.mp hstatic
      obtain ⟨texts, htexts, hmem⟩ := ih hrest
      refine ⟨text :: texts, congrArg _ htexts, List.forall_mem_cons.mpr ⟨List.mem_cons_self, ?_⟩⟩
      exact fun t ht => List.mem_cons_of_mem _ (hmem t ht)
    | expression code =>
      rw [segments, heval] at hstatic
      exact absurd (hstatic _ List.mem_cons_self) Bool.false_ne_true

theorem exists_content {c : Content} (heval : o.suppressEval = false)
    (hstatic : Op.AllStatic (content o line c)) :
    ∃ texts : List Text, content o line c = texts.map (fun t => Op.act (.literal t .inline)) := by
  cases c with
  | none => exact ⟨[], rfl⟩
  | text written =>
    obtain ⟨texts, htexts, -⟩ := exists_inline heval hstatic
    exact ⟨texts, htexts⟩
  | script s =>
    have hop := hstatic (script o line .inline s) List.mem_cons_self
    rw [script, heval] at hop
    exact absurd hop Bool.false_ne_true

theorem lines_text {escape : Escape} {written : List Segment} (heval : o.suppressEval = false)
    (hsolid : ∀ t, .literal t ∈ written → t.Solid)
    (hstatic : Op.AllStatic (segments o escape line .line written)) :
    AreLines o (segments o escape line .line written) := by
  cases written with
  | nil => exact .inl rfl
  | cons segment rest =>
    cases segment with
    | expression code =>
      rw [segments, heval] at hstatic
      exact absurd (hstatic _ List.mem_cons_self) Bool.false_ne_true
    | literal text =>
      obtain ⟨-, hrest⟩ := List.forall_mem_cons.mp hstatic
      obtain ⟨texts, htexts, hmem⟩ := exists_inline heval hrest
      have htext : text.Solid := hsolid text List.mem_cons_self
      refine .inr ⟨.literal text .line :: texts.map (.literal · .inline), ?_, ?_⟩
      · rw [segments, htexts, List.map_cons, List.map_map]
        rfl
      · refine ⟨⟨_, rfl, htext.ne_nil⟩, ?_⟩
        have hflag (l : Layout) : (Layout.play o l (.literal text .line ::
            texts.map (.literal · .inline))).suppressBreak = false := by
          refine (Layout.suppressBreak_play_inline o (l.write text .line) texts).trans ?_
          exact l.suppressBreak_write_line text
        rcases List.eq_nil_or_concat' texts with rfl | ⟨init, last, rfl⟩
        · exact ⟨_, rfl, htext, hflag⟩
        · refine ⟨.literal last .inline, ?_, ?_, hflag⟩
          · rw [List.map_append, List.map_singleton, ← List.cons_append]
            exact List.getLast?_concat
          · exact hsolid last (List.mem_cons_of_mem _ (hmem last (by simp)))

theorem lines_single {a : Action} (hstarts : a.StartsLine) (hends : a.EndsLine)
    (hflag : ∀ l, (a.place o.format (a.text o) l).suppressBreak = a.nukesAfter) :
    AreLines o [.act a] :=
  .inr ⟨[a], rfl, ⟨a, rfl, hstarts⟩, a, rfl, hends, hflag⟩

theorem lines_literal {text : Text} (h : text.Solid) : AreLines o [.act (.literal text .line)] :=
  lines_single h.ne_nil h fun l => l.suppressBreak_write_line text

/-- Two actions around others are whole lines if they start and end some. -/
theorem lines_pair {first last : Action} {inner : List Op} (hfirst : first.StartsLine)
    (hlast : last.EndsLine) (hstatic : Op.AllStatic (.act first :: inner ++ [.act last]))
    (hflag : ∀ (actions : List Action) l, inner = actions.map .act →
      (last.place o.format (last.text o)
        ((first.place o.format (first.text o) l).play o actions)).suppressBreak = last.nukesAfter) :
    AreLines o (.act first :: inner ++ [.act last]) := by
  have hinner : Op.AllStatic inner :=
    (List.forall_mem_cons.mp (List.forall_mem_append.mp hstatic).1).2
  obtain ⟨actions, rfl, -⟩ := hinner.exists_actions
  refine .inr ⟨first :: actions ++ [last], ?_, ⟨first, rfl, hfirst⟩, last, ?_, hlast, fun l => ?_⟩
  · rw [List.map_append, List.map_cons]
    rfl
  · exact List.getLast?_concat
  · rw [Layout.play_append]
    exact hflag actions l rfl

theorem lines_element {e : Element} (heval : o.suppressEval = false)
    (hchildless : childless = true → body = .ok [])
    (h : element o line e childless body = .ok ops) (hstatic : Op.AllStatic ops) :
    AreLines o ops := by
  rcases element_eq_ok h with ⟨-, rfl⟩ | ⟨-, b, hb, rfl⟩
  · exact lines_single trivial trivial fun l => l.suppressBreak_selfCloseTag _ _ _ _
  · refine lines_pair trivial trivial hstatic fun actions l hactions => ?_
    refine Layout.suppressBreak_closeTag _ _ _ fun hinline => ?_
    -- A childless element has inline content only.
    obtain rfl : [] = b := Except.ok.inj ((hchildless hinline).symm.trans hb)
    have hcontent : Op.AllStatic (content o line e.content) := by
      rw [List.append_nil] at hstatic
      exact (List.forall_mem_cons.mp (List.forall_mem_append.mp hstatic).1).2
    obtain ⟨texts, htexts⟩ := exists_content heval hcontent
    obtain rfl : actions = texts.map (.literal · .inline) := by
      apply List.map_injective_iff.mpr fun a b h => Op.act.inj h
      rw [← hactions, List.append_nil, htexts, List.map_map]
      rfl
    rw [Layout.suppressBreak_play_inline]
    exact Layout.suppressBreak_openTag l e.tag _ hinline

theorem lines_comment {condition text : Option Text}
    (h : comment condition text childless body = .ok ops) (hstatic : Op.AllStatic ops) :
    AreLines o ops := by
  have hmarks : (commentMarks condition).1 ≠ [] ∧ (commentMarks condition).2.Solid := by
    cases condition with
    | none => exact ⟨by decide, '>', rfl, by decide⟩
    | some condition => exact ⟨List.cons_ne_nil _ _, '>', rfl, by decide⟩
  unfold comment at h
  dsimp only at h
  cases text with
  | some text =>
    obtain rfl := Except.ok.inj h
    exact lines_literal (Text.solid_append _ (Text.solid_cons ' ' hmarks.2))
  | none =>
    dsimp only at h
    split at h
    · obtain rfl := Except.ok.inj h
      exact lines_literal (Text.solid_append _ hmarks.2)
    · obtain ⟨b, -, rfl⟩ := Outcome.exists_of_map_eq_ok h
      refine lines_pair hmarks.1 hmarks.2 hstatic fun actions l hactions => ?_
      exact Layout.suppressBreak_write_closing _ _

theorem lines_filter {name : Text} {written : List Segment} (heval : o.suppressEval = false)
    (hsolid : ∀ t, Segment.literalText? written = some t → t ≠ [] → t.Solid)
    (h : filter o .builtin line name written = .ok ops) (hstatic : Op.AllStatic ops) :
    AreLines o ops := by
  obtain ⟨apply, hget, ⟨-, rfl⟩ | ⟨text, output, htext, happly, rfl⟩⟩ :=
    filter_eq_ok_of_evaluated heval h
  · exact absurd (hstatic _ List.mem_cons_self) Bool.false_ne_true
  · split
    · exact .inl rfl
    · next hne =>
      have hfilled : output ≠ [] := fun hnil => hne (List.isEmpty_iff.mpr hnil)
      exact lines_literal (Filter.solid_builtin hget (hsolid text htext) happly hfilled)

/-- What an item is written as is whole lines, if it is static. Of filters this is known for those
that are built in. -/
theorem lines_item {i : Item} (heval : o.suppressEval = false) (hsolid : i.Solid)
    (hfilter : i.isFilter = true → r = .builtin) (hchildless : childless = true → body = .ok [])
    (h : item o r line childless body i = .ok ops) (hstatic : Op.AllStatic ops) :
    AreLines o ops := by
  have hblock {statement : BlockStatement} (h : block o statement body = .ok ops) :
      AreLines o ops := by
    rcases block_eq_ok h with ⟨htrue, -⟩ | ⟨-, b, -, rfl⟩
    · rw [heval] at htrue
      cases htrue
    · exact absurd (hstatic _ List.mem_cons_self) Bool.false_ne_true
  cases i with
  | element e => exact lines_element heval hchildless h hstatic
  | text written escape =>
    obtain rfl := Except.ok.inj h
    exact lines_text heval hsolid hstatic
  | script s =>
    rw [item] at h
    split at h
    · obtain rfl := Except.ok.inj h
      have hop := hstatic (script o line .line s) List.mem_cons_self
      rw [script, heval] at hop
      exact absurd hop Bool.false_ne_true
    · exact hblock h
  | silent code => exact hblock h
  | comment condition text => exact lines_comment h hstatic
  | filter name written =>
    obtain rfl := hfilter rfl
    exact lines_filter heval hsolid h hstatic
  | doctype args =>
    change doctype o line args = .ok ops at h
    unfold doctype at h
    split at h
    · cases h
    · exact .inl (Except.ok.inj h).symm
    · next hresolve =>
      obtain rfl := Except.ok.inj h
      have hsolid := Doctype.solid_resolve hresolve
      exact lines_single hsolid.ne_nil hsolid fun l => l.suppressBreak_write_line _

theorem AreLines.append {u v : List Op} (hu : AreLines o u) (hv : AreLines o v) :
    AreLines o (u ++ v) := by
  rcases hu with rfl | ⟨a, rfl, ha⟩
  · exact hv
  · rcases hv with rfl | ⟨b, rfl, hb⟩
    · rw [List.append_nil]
      exact .inr ⟨a, rfl, ha⟩
    · exact .inr ⟨a ++ b, List.map_append.symm, ha.append hb⟩

theorem lines_nodes {forest : List Node} (heval : o.suppressEval = false)
    (hsolid : ∀ n ∈ forest, n.item.Solid)
    (hfilter : ∀ n ∈ forest, n.item.isFilter = true → r = .builtin)
    (h : nodes o r forest = .ok ops) (hstatic : Op.AllStatic ops) : AreLines o ops := by
  induction forest generalizing ops with
  | nil =>
    rw [nodes] at h
    exact .inl (Except.ok.inj h).symm
  | cons n rest ih =>
    obtain ⟨hn, hrest⟩ := List.forall_mem_cons.mp hsolid
    obtain ⟨hfilterFirst, hfilterMore⟩ := List.forall_mem_cons.mp hfilter
    obtain ⟨first, more, hfirst, hmore, rfl⟩ := nodes_cons_eq_ok h
    obtain ⟨hstaticFirst, hstaticMore⟩ := List.forall_mem_append.mp hstatic
    refine AreLines.append ?_ (ih hrest hfilterMore hmore hstaticMore)
    cases n with
    | mk line i children =>
      rw [node] at hfirst
      refine lines_item heval hn hfilterFirst (fun hempty => ?_) hfirst hstaticFirst
      rw [List.isEmpty_iff.mp hempty, nodes]

/-- A static program with operations is whole lines, if it has no filters that are not built in. -/
theorem exists_lines_of_read {source : Text} {p : Program} (heval : o.suppressEval = false)
    (h : Program.compile source o r = .ok p) {entries : List Entry}
    (hread : Outline.read source = .ok entries)
    (hfilter : ∀ e ∈ entries, e.item.isFilter = true → r = .builtin)
    (hstatic : Op.AllStatic p.ops) (hne : p.ops ≠ []) :
    ∃ actions : List Action, p.ops = actions.map .act ∧ (∀ a ∈ actions, a.isStatic = true) ∧
      Action.Lines o actions := by
  obtain ⟨-, entries', hread', hops⟩ := Program.compile_eq_ok h
  obtain rfl : entries = entries' := Except.ok.inj (hread.symm.trans hread')
  have hsolid := Outline.solid_of_read hread
  have hroot (n : Node) (hn : n ∈ Entry.forest entries) : n.item.isFilter = true → r = .builtin :=
    hfilter _ (Outline.entry_mem_of_read hread hn)
  rcases lines_nodes heval hsolid hroot hops hstatic with hnil | ⟨actions, heq, hlines⟩
  · exact absurd hnil hne
  · refine ⟨actions, heq, fun a ha => ?_, hlines⟩
    exact hstatic (.act a) (heq ▸ List.mem_map_of_mem ha)

theorem exists_lines {source : Text} {p : Program} (heval : o.suppressEval = false)
    (h : Program.compile source o .builtin = .ok p) (hstatic : Op.AllStatic p.ops)
    (hne : p.ops ≠ []) : ∃ actions : List Action, p.ops = actions.map .act ∧
      (∀ a ∈ actions, a.isStatic = true) ∧ Action.Lines o actions := by
  obtain ⟨-, entries, hread, -⟩ := Program.compile_eq_ok h
  exact exists_lines_of_read heval h hread (fun _ _ _ => rfl) hstatic hne

end Compile

end Haml
