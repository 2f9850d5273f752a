import Haml.Proofs.Compile.Forest
import Haml.Proofs.Outline.Shut
import Haml.Proofs.Program.Brackets

/-! What each node gives to a program. An item has operations in front of those of its children, and
one behind them if it is closed again; a program where everything is evaluated is made of these and
of nothing else. No content is left out, since a header with a slash has none, and no children are,
since those that an item refuses are not read. -/

namespace Haml

/-- A piece of scanned text on a line, and the operation that writes it. -/
inductive Segment.Gives (escape : Bool) (line : Nat) : Segment → Op → Prop
  | literal {text : Text} {flow : Flow} (hflow : flow = .inline ∨ flow = .line) :
      Gives escape line (.literal text) (.act (.literal text flow))
  | expression {code : Text} {flow : Flow} (hflow : flow = .inline ∨ flow = .line) :
      Gives escape line (.expression code) (.act (.expr code escape false flow line))

/-- What a tag has on its line, and the operations that write it. -/
inductive Content.Gives (o : Options) (line : Nat) : Content → List Op → Prop
  | none : Gives o line .none []
  | text {written : List Segment} {ops : List Op}
      (h : List.Forall₂ (Segment.Gives (Escape.configured.resolve o.escapeHtml) line) written ops) :
      Gives o line (.text written) ops
  | script {s : Script} : Gives o line (.script s)
      [.act (.expr s.code (s.escape.resolve o.escapeHtml) s.preserve .inline line)]

/-- The operations of an item in front of those of its children, and those behind them. Where there
can be children, the last but one argument says that there are none. -/
inductive Item.Frames (o : Options) (r : Registry) (line : Nat) :
    Item → Bool → List Op → List Op → Prop
  | selfClosed {e : Element} {nukeOuter nukeInner : Bool}
      (hclosed : e.selfClosing = true ∨ o.isAutoclose e.tag = true) (hcontent : e.content = .none) :
      Frames o r line (.element e) true
        [.act (.selfClose e.tag (.resolve e false) nukeOuter nukeInner line)] []
  | tags {e : Element} {childless : Bool} {flags : TagFlags} {content : List Op}
      (hopen : e.selfClosing = false) (hcontent : e.content.Gives o line content) :
      Frames o r line (.element e) childless
        (.act (.openTag e.tag (.resolve e false) flags line) :: content)
        [.act (.closeTag e.tag flags)]
  | text {written : List Segment} {escape : Escape} {ops : List Op}
      (h : List.Forall₂ (Segment.Gives (escape.resolve o.escapeHtml) line) written ops) :
      Frames o r line (.text written escape) true ops []
  | value {s : Script} : Frames o r line (.script s) true
      [.act (.expr s.code (s.escape.resolve o.escapeHtml) s.preserve .line line)] []
  | valueBlock {s : Script} : Frames o r line (.script s) false
      [.enter ⟨s.code, false, some ⟨s.escape.resolve o.escapeHtml, s.preserve⟩, line⟩] [.exit]
  | statement {code : Text} {childless : Bool} : Frames o r line (.silent code) childless
      [.enter ⟨code, continuesBlock code, none, line⟩] [.exit]
  | commentText {condition : Option Text} {text : Text} :
      Frames o r line (.comment condition (some text)) true
        [.act (.literal ((Compile.commentMarks condition).1 ++ ' ' :: text ++
          ' ' :: (Compile.commentMarks condition).2) .line)] []
  | commentEmpty {condition : Option Text} : Frames o r line (.comment condition none) true
      [.act (.literal ((Compile.commentMarks condition).1 ++
        (Compile.commentMarks condition).2) .line)] []
  | commentAround {condition : Option Text} : Frames o r line (.comment condition none) false
      [.act (.literal (Compile.commentMarks condition).1 .opening)]
      [.act (.literal (Compile.commentMarks condition).2 .closing)]
  | filterNow {name text output : Text} {written : List Segment} {apply : Filter} {ops : List Op}
      (hget : r.get? name = some apply) (hliteral : Segment.literalText? written = some text)
      (happly : apply text o = .ok output)
      (hops : ops = if output.isEmpty then [] else [.act (.literal output .line)]) :
      Frames o r line (.filter name written) true ops []
  | filterLater {name : Text} {written : List Segment}
      (hcode : Segment.literalText? written = none) :
      Frames o r line (.filter name written) true [.act (.filter name written line)] []
  | doctype {args : Text} {text : Option Text} (hresolve : Doctype.resolve args o = .ok text) :
      Frames o r line (.doctype args) true (text.toList.map fun text => .act (.doctype text)) []

mutual

/-- The operations of a node: those of its children, between those of its item. -/
inductive Node.Gives (o : Options) (r : Registry) : Node → List Op → Prop
  | mk {line : Nat} {item : Item} {children : List Node} {first inner last : List Op}
      (hitem : item.Frames o r line children.isEmpty first last)
      (hchildren : Node.AllGive o r children inner) :
      Node.Gives o r (.mk line item children) (first ++ inner ++ last)

inductive Node.AllGive (o : Options) (r : Registry) : List Node → List Op → Prop
  | nil : Node.AllGive o r [] []
  | cons {n : Node} {rest : List Node} {first more : List Op} (hfirst : Node.Gives o r n first)
      (hrest : Node.AllGive o r rest more) : Node.AllGive o r (n :: rest) (first ++ more)

end

/-- Is an operation the second end of a bracket? -/
def Op.closes (op : Op) : Bool :=
  match op.role with
  | .closing _ => true
  | _ => false

/-- The operations that a node begins with. -/
def Node.Begins (o : Options) (r : Registry) (p : Nat × Node) (first : List Op) : Prop :=
  ∃ last, p.2.item.Frames o r p.2.line p.2.children.isEmpty first last

variable {o : Options} {r : Registry} {line : Nat}

theorem Segment.Gives.closes {escape : Bool} {s : Segment} {op : Op} (h : s.Gives escape line op) :
    op.closes = false := by
  cases h with
  | literal hflow => rcases hflow with rfl | rfl <;> rfl
  | expression hflow => rcases hflow with rfl | rfl <;> rfl

theorem Segment.closes_of_forall_gives {escape : Bool} {written : List Segment} {ops : List Op}
    (h : List.Forall₂ (Segment.Gives escape line) written ops) :
    ∀ op ∈ ops, op.closes = false := by
  induction h with
  | nil => exact List.forall_mem_nil _
  | cons hs _ ih => exact List.forall_mem_cons.mpr ⟨hs.closes, ih⟩

theorem Content.Gives.closes {c : Content} {ops : List Op} (h : c.Gives o line ops) :
    ∀ op ∈ ops, op.closes = false := by
  cases h with
  | none => exact List.forall_mem_nil _
  | text h => exact Segment.closes_of_forall_gives h
  | script => exact List.forall_mem_singleton.mpr rfl

theorem Item.Frames.closes {i : Item} {childless : Bool} {first last : List Op}
    (h : i.Frames o r line childless first last) :
    (∀ op ∈ first, op.closes = false) ∧ ∀ op ∈ last, op.closes = true := by
  cases h with
  | tags hopen hcontent =>
    exact ⟨List.forall_mem_cons.mpr ⟨rfl, hcontent.closes⟩, List.forall_mem_singleton.mpr rfl⟩
  | text h => exact ⟨Segment.closes_of_forall_gives h, List.forall_mem_nil _⟩
  | filterNow hget hliteral happly hops =>
    refine ⟨?_, List.forall_mem_nil _⟩
    rw [hops]
    split
    · exact List.forall_mem_nil _
    · exact List.forall_mem_singleton.mpr rfl
  | @doctype args text hresolve =>
    refine ⟨?_, List.forall_mem_nil _⟩
    cases text with
    | none => exact List.forall_mem_nil _
    | some text => exact List.forall_mem_singleton.mpr rfl
  | selfClosed | value | commentText | commentEmpty | filterLater =>
    exact ⟨List.forall_mem_singleton.mpr rfl, List.forall_mem_nil _⟩
  | valueBlock | statement | commentAround =>
    exact ⟨List.forall_mem_singleton.mpr rfl, List.forall_mem_singleton.mpr rfl⟩

/-- Without the operations behind children, those of an item are the ones it begins with. -/
theorem Item.Frames.filter {i : Item} {childless : Bool} {first last : List Op}
    (h : i.Frames o r line childless first last) (inner : List Op) :
    (first ++ inner ++ last).filter (!·.closes) = first ++ inner.filter (!·.closes) := by
  obtain ⟨hfirst, hlast⟩ := h.closes
  have hkept : first.filter (!·.closes) = first :=
    List.filter_eq_self.mpr fun op hop => by rw [hfirst op hop]; rfl
  have hdropped : last.filter (!·.closes) = [] :=
    List.filter_eq_nil_iff.mpr fun op hop => by rw [hlast op hop]; decide
  rw [List.filter_append, List.filter_append, hkept, hdropped, List.append_nil]

mutual

/-- A walk through a node meets the operations that are not the ends of others, in order. -/
theorem Node.Gives.exists_walk {n : Node} {ops : List Op} (h : n.Gives o r ops) (depth : Nat) :
    ∃ begins, List.Forall₂ (Node.Begins o r) (n.walk depth) begins ∧
      ops.filter (!·.closes) = begins.flatten := by
  cases h with
  | @mk line item children first inner last hitem hchildren =>
    obtain ⟨begins, hbegins, hinner⟩ := hchildren.exists_walkAll (depth + 1)
    refine ⟨first :: begins, ?_, ?_⟩
    · rw [walk]
      exact .cons ⟨last, hitem⟩ hbegins
    · rw [hitem.filter, hinner, List.flatten_cons]

theorem Node.AllGive.exists_walkAll {forest : List Node} {ops : List Op}
    (h : Node.AllGive o r forest ops) (depth : Nat) :
    ∃ begins, List.Forall₂ (Node.Begins o r) (Node.walkAll depth forest) begins ∧
      ops.filter (!·.closes) = begins.flatten := by
  cases h with
  | nil => exact ⟨[], .nil, rfl⟩
  | cons hfirst hrest =>
    obtain ⟨begins, hbegins, hops⟩ := hfirst.exists_walk depth
    obtain ⟨more, hmore, hops'⟩ := hrest.exists_walkAll depth
    refine ⟨begins ++ more, ?_, ?_⟩
    · rw [walkAll]
      exact List.rel_append hbegins hmore
    · rw [List.filter_append, hops, hops', List.flatten_append]

end

namespace Compile

variable (heval : o.suppressEval = false)

include heval

theorem segments_give {escape : Escape} {flow : Flow} (hflow : flow = .inline ∨ flow = .line)
    (written : List Segment) :
    List.Forall₂ (Segment.Gives (escape.resolve o.escapeHtml) line) written
      (segments o escape line flow written) := by
  fun_induction segments o escape line flow written with
  | case1 => exact .nil
  | case2 flow text rest ih => exact .cons (.literal hflow) (ih (.inl rfl))
  | case3 flow code rest hs ih => exact absurd hs (ne_true_of_eq_false heval)
  | case4 flow code rest hs ih => exact .cons (.expression hflow) (ih (.inl rfl))

theorem script_eq (flow : Flow) (s : Script) : script o line flow s =
    .act (.expr s.code (s.escape.resolve o.escapeHtml) s.preserve flow line) := by
  rw [script, heval]
  rfl

theorem content_gives (c : Content) : c.Gives o line (content o line c) := by
  cases c with
  | none => exact .none
  | text written => exact .text (segments_give heval (.inl rfl) written)
  | script s =>
    rw [content, script_eq heval]
    exact .script

variable {childless : Bool} {body : Except CompileError (List Op)} {ops : List Op}

omit heval in
/-- What an item without children is written as, its children being none. -/
theorem exists_of_alone {i : Item} (hempty : body = .ok [])
    (hops : i.Frames o r line childless ops []) : ∃ first inner last,
      i.Frames o r line childless first last ∧ body = .ok inner ∧ ops = first ++ inner ++ last :=
  ⟨ops, [], [], hops, hempty, by rw [List.append_nil, List.append_nil]⟩

omit heval in
/-- An element that closes itself is empty. -/
theorem empty_of_closesItself {e : Element} (hshut : (Item.element e).Shut)
    (hrefusal : (Item.element e).refusal ≠ none → childless = true)
    (hself : closesItself o e childless = true) :
    (e.selfClosing = true ∨ o.isAutoclose e.tag = true) ∧ e.content = .none ∧ childless = true := by
  have hcases : e.selfClosing = true ∨
      (e.content = .none ∧ childless = true) ∧ o.isAutoclose e.tag = true := by
    simpa [closesItself] using hself
  rcases hcases with hclosed | ⟨hempty, hauto⟩
  · refine ⟨.inl hclosed, hshut hclosed, hrefusal ?_⟩
    rw [Item.refusal, if_pos hclosed]
    exact Option.some_ne_none _
  · exact ⟨.inr hauto, hempty⟩

theorem element_frames {e : Element} (hshut : (Item.element e).Shut)
    (hrefusal : (Item.element e).refusal ≠ none → childless = true)
    (hempty : childless = true → body = .ok [])
    (h : element o line e childless body = .ok ops) : ∃ first inner last,
      (Item.element e).Frames o r line childless first last ∧ body = .ok inner ∧
        ops = first ++ inner ++ last := by
  rcases element_eq_ok h with ⟨hself, rfl⟩ | ⟨hself, b, hb, rfl⟩
  · obtain ⟨hclosed, hnone, rfl⟩ := empty_of_closesItself hshut hrefusal hself
    rw [heval]
    exact exists_of_alone (hempty rfl) (.selfClosed hclosed hnone)
  · have hopen : e.selfClosing = false := by
      rw [closesItself, Bool.or_eq_false_iff] at hself
      exact hself.1
    have hframes : (Item.element e).Frames o r line childless
        (.act (.openTag e.tag (Attributes.resolve e false) (elementFlags o e childless) line) ::
          content o line e.content)
        [.act (.closeTag e.tag (elementFlags o e childless))] :=
      .tags hopen (content_gives heval e.content)
    rw [heval]
    exact ⟨_, b, _, hframes, hb, rfl⟩

omit heval in
theorem comment_frames {condition text : Option Text}
    (hrefusal : (Item.comment condition text).refusal ≠ none → childless = true)
    (hempty : childless = true → body = .ok [])
    (h : comment condition text childless body = .ok ops) : ∃ first inner last,
      (Item.comment condition text).Frames o r line childless first last ∧ body = .ok inner ∧
        ops = first ++ inner ++ last := by
  unfold comment at h
  dsimp only at h
  cases text with
  | some text =>
    obtain rfl := hrefusal (Option.some_ne_none _)
    obtain rfl := Except.ok.inj h
    exact exists_of_alone (hempty rfl) .commentText
  | none =>
    cases childless with
    | true =>
      obtain rfl := Except.ok.inj h
      exact exists_of_alone (hempty rfl) .commentEmpty
    | false =>
      obtain ⟨b, hb, rfl⟩ := Outcome.exists_of_map_eq_ok h
      exact ⟨_, b, _, .commentAround, hb, rfl⟩

theorem filter_frames {name : Text} {written : List Segment}
    (h : filter o r line name written = .ok ops) :
    (Item.filter name written).Frames o r line true ops [] := by
  obtain ⟨apply, hget, ⟨hnone, rfl⟩ | ⟨text, output, htext, happly, hops⟩⟩ :=
    filter_eq_ok_of_evaluated heval h
  · exact .filterLater hnone
  · exact .filterNow hget htext happly hops

omit heval in
theorem doctype_frames {args : Text} (h : doctype o line args = .ok ops) :
    (Item.doctype args).Frames o r line true ops [] := by
  unfold doctype at h
  split at h
  · cases h
  · next hresolve => exact Except.ok.inj h ▸ .doctype hresolve
  · next hresolve => exact Except.ok.inj h ▸ .doctype hresolve

theorem block_eq {statement : BlockStatement} (h : block o statement body = .ok ops) :
    ∃ inner, body = .ok inner ∧ ops = [.enter statement] ++ inner ++ [.exit] := by
  rcases block_eq_ok h with ⟨htrue, -⟩ | ⟨-, inner, hinner, rfl⟩
  · exact absurd htrue (ne_true_of_eq_false heval)
  · exact ⟨inner, hinner, rfl⟩

/-- The operations of an item stand around those of its children, all of which are there. -/
theorem item_frames {i : Item} (hshut : i.Shut) (hrefusal : i.refusal ≠ none → childless = true)
    (hempty : childless = true → body = .ok []) (h : item o r line childless body i = .ok ops) :
    ∃ first inner last, i.Frames o r line childless first last ∧ body = .ok inner ∧
      ops = first ++ inner ++ last := by
  cases i with
  | element e => exact element_frames heval hshut hrefusal hempty h
  | text written escape =>
    obtain rfl := hrefusal (Option.some_ne_none _)
    obtain rfl := Except.ok.inj h
    exact exists_of_alone (hempty rfl) (.text (segments_give heval (.inr rfl) written))
  | script s =>
    cases childless with
    | true =>
      obtain rfl := Except.ok.inj h
      rw [script_eq heval]
      exact exists_of_alone (hempty rfl) .value
    | false =>
      obtain ⟨inner, hinner, rfl⟩ := block_eq heval h
      exact ⟨_, inner, _, .valueBlock, hinner, rfl⟩
  | silent code =>
    obtain ⟨inner, hinner, rfl⟩ := block_eq heval h
    exact ⟨_, inner, _, .statement, hinner, rfl⟩
  | comment condition text => exact comment_frames hrefusal hempty h
  | filter name written =>
    obtain rfl := hrefusal (Option.some_ne_none _)
    exact exists_of_alone (hempty rfl) (filter_frames heval h)
  | doctype args =>
    obtain rfl := hrefusal (Option.some_ne_none _)
    exact exists_of_alone (hempty rfl) (doctype_frames h)

omit heval

mutual

theorem node_gives (heval : o.suppressEval = false) (n : Node) (depth : Nat)
    (hn : ∀ p ∈ n.walk depth, p.2.Lawful ∧ p.2.item.Shut) (ops : List Op)
    (h : node o r n = .ok ops) : n.Gives o r ops := by
  cases n with
  | mk line i children =>
    rw [Node.walk] at hn
    obtain ⟨⟨hlawful, hshut⟩, hchildren⟩ := List.forall_mem_cons.mp hn
    rw [node] at h
    have hempty (hnone : children.isEmpty = true) : nodes o r children = .ok [] := by
      rw [List.isEmpty_iff.mp hnone, nodes]
    obtain ⟨first, inner, last, hframes, hinner, rfl⟩ :=
      item_frames heval hshut hlawful.isEmpty hempty h
    exact .mk hframes (nodes_give heval children (depth + 1) hchildren inner hinner)

theorem nodes_give (heval : o.suppressEval = false) (forest : List Node) (depth : Nat)
    (hforest : ∀ p ∈ Node.walkAll depth forest, p.2.Lawful ∧ p.2.item.Shut) (ops : List Op)
    (h : nodes o r forest = .ok ops) : Node.AllGive o r forest ops := by
  cases forest with
  | nil =>
    rw [nodes] at h
    exact Except.ok.inj h ▸ .nil
  | cons n rest =>
    rw [Node.walkAll] at hforest
    obtain ⟨hn, hrest⟩ := List.forall_mem_append.mp hforest
    obtain ⟨first, more, hfirst, hmore, rfl⟩ := nodes_cons_eq_ok h
    exact .cons (node_gives heval n depth hn first hfirst)
      (nodes_give heval rest depth hrest more hmore)

end

end Compile

/-- Compiling loses nothing and invents nothing. The operations are those of the nodes, each node's
own around those of its children, and without the ends of brackets they are met on a walk through
the document. What is written at once has nothing inside. -/
theorem Program.compile_complete {source : Text} {p : Program} (heval : o.suppressEval = false)
    (h : compile source o r = .ok p) : ∃ forest, Document.read source = .ok forest ∧
      Node.AllGive o r forest p.ops ∧
      (∃ begins, List.Forall₂ (Node.Begins o r) (Node.walkAll 0 forest) begins ∧
        p.ops.filter (!·.closes) = begins.flatten) ∧
      ∀ q ∈ Node.walkAll 0 forest,
        (∀ e, q.2.item = .element e → Compile.closesItself o e q.2.children.isEmpty = true →
          e.content = .none ∧ q.2.children = []) ∧
        ∀ condition text, q.2.item = .comment condition (some text) → q.2.children = [] := by
  obtain ⟨-, entries, hread, hops⟩ := compile_eq_ok h
  have hforest := Document.lawful_of_read hread
  have hgives := Compile.nodes_give heval (Entry.forest entries) 0 hforest p.ops hops
  refine ⟨Entry.forest entries, ?_, hgives, hgives.exists_walkAll 0, fun q hq => ?_⟩
  · rw [Document.read, hread]
    rfl
  · obtain ⟨hlawful, hshut⟩ := hforest q hq
    have hempty := hlawful.isEmpty
    constructor
    · rintro e he hself
      rw [he] at hshut hempty
      obtain ⟨-, hnone, hchildless⟩ := Compile.empty_of_closesItself hshut hempty hself
      exact ⟨hnone, List.isEmpty_iff.mp hchildless⟩
    · rintro condition text he
      rw [he] at hempty
      exact List.isEmpty_iff.mp (hempty (Option.some_ne_none _))

/-- One document with items of every kind. -/
theorem Program.compile_complete_kinds : ∃ p,
    compile ("!!!\n%ul\n  %li b#\x7bc\x7d\n  %br\n" ++
        "- e\n  = f\n    g\n/ h\n/\n  %p/\n:plain\n  #\x7bk\x7d")
      { autoclose := ⟨["br"]⟩, preserve := ⟨["pre"]⟩ } .builtin = .ok p ∧ p.ops.length = 18 ∧
    ∃ forest, Document.read
        ("!!!\n%ul\n  %li b#\x7bc\x7d\n  %br\n" ++
          "- e\n  = f\n    g\n/ h\n/\n  %p/\n:plain\n  #\x7bk\x7d") = .ok forest ∧
      Node.AllGive { autoclose := ⟨["br"]⟩, preserve := ⟨["pre"]⟩ } .builtin forest p.ops := by
  refine Outcome.exists_viewed ?_ fun p hp => ?_
  · decide +kernel
  · obtain ⟨forest, hread, hgives, -⟩ := compile_complete rfl hp
    exact ⟨forest, hread, hgives⟩

end Haml
