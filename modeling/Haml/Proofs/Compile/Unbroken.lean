import Haml.Proofs.Compile.Lines
import Haml.Proofs.Layout.Inset
import Haml.Proofs.Text.Decode

/-! Line breaks in compiled documents. Where there are no filters, what is written out has no line
feed in it, but for those that attribute values bring along; and only an element that says so takes
away the white space at an end of the document. -/

namespace Haml

theorem Entity.not_mem_escape_of_not_mem {t : Text} (h : '\n' ∉ t) : '\n' ∉ escape t := by
  intro hmem
  obtain ⟨c, hc, hchar⟩ := List.mem_flatMap.mp hmem
  unfold ofChar at hchar
  repeat' split at hchar
  all_goals first
    | exact absurd hchar (by decide)
    | exact h (List.mem_singleton.mp hchar ▸ hc)

theorem Entity.mem_escape_iff {t : Text} : '\n' ∈ escape t ↔ '\n' ∈ t := by
  constructor
  · intro hmem
    by_contra hfree
    exact not_mem_escape_of_not_mem hfree hmem
  · intro hmem
    exact List.mem_flatMap.mpr ⟨'\n', hmem, by decide⟩

namespace Doctype

variable {o : Options} {t : Text}

theorem not_mem_declaration {format : Format} {version : Version} {kind : Option Kind}
    (h : declaration? format version kind = some t) : '\n' ∉ t := by
  unfold declaration? at h
  split at h
  all_goals first
    | cases h; done
    | exact Option.some.inj h ▸ by decide +kernel

theorem not_mem_resolve {args : Text} (hquote : o.attrWrapper ≠ '\n')
    (h : resolve args o = .ok (some t)) : '\n' ∉ t := by
  rcases resolve_eq_ok h with ⟨version, kind, hdeclaration⟩ | ⟨encoding, hencoding, rfl⟩
  · exact not_mem_declaration hdeclaration
  · have hfree : '\n' ∉ encoding := by
      rcases hencoding with rfl | hword
      · decide
      · intro hmem
        have hblank := (Text.isWord_of_mem_words hword).2 '\n' hmem
        cases hblank
    have hquoted {u : Text} (hu : '\n' ∉ u) : '\n' ∉ o.attrWrapper :: u :=
      List.not_mem_cons_of_ne_of_not_mem hquote.symm hu
    have hversion : '\n' ∉ ("<?xml version=".toList : Text) := by decide
    exact List.not_mem_append (List.not_mem_append (List.not_mem_append (List.not_mem_append hversion
      (hquoted (by decide))) (hquoted (by decide))) (hquoted hfree)) (hquoted (by decide))

end Doctype

namespace Bag

variable {o : Options}

/-- No line feed in the names and the values of what is rendered. -/
def Unbroken (b : Bag) : Prop :=
  ∀ p ∈ b.pairs, p.2.isTruthy = true → '\n' ∉ p.1 ∧ '\n' ∉ p.2.text

theorem mem_renderPair_iff (hquote : o.attrWrapper ≠ '\n') (name : Text) (value : Value) :
    '\n' ∈ renderPair o name value ↔
      value.isTruthy = true ∧ ('\n' ∈ name ∨ '\n' ∈ value.text) := by
  have hpair (text : Text) :
      '\n' ∈ ' ' :: name ++ '=' :: o.attrWrapper :: text ++ [o.attrWrapper] ↔
        '\n' ∈ name ∨ '\n' ∈ text := by
    simp [hquote.symm]
  have hvalue : '\n' ∈ ' ' :: name ++ '=' :: o.attrWrapper :: Entity.escape value.text ++
      [o.attrWrapper] ↔ true = true ∧ ('\n' ∈ name ∨ '\n' ∈ value.text) := by
    rw [hpair, Entity.mem_escape_iff, eq_self_iff_true, true_and]
  cases value with
  | nil => exact iff_of_false List.not_mem_nil nofun
  | bool b =>
    cases b with
    | false => exact iff_of_false List.not_mem_nil nofun
    | true =>
      have htext : '\n' ∉ (Value.bool true).text := by decide
      have htrue : (Value.bool true).isTruthy = true := rfl
      rw [renderPair]
      simp only [htext, htrue, or_false, true_and]
      split
      · simp
      · rw [hpair, or_self]
  | _ => exact hvalue

theorem not_mem_render_iff {b : Bag} (hquote : o.attrWrapper ≠ '\n') :
    '\n' ∉ b.render o ↔ b.Unbroken := by
  have hrender : '\n' ∈ b.render o ↔ ∃ p ∈ b.pairs, '\n' ∈ renderPair o p.1 p.2 := by
    simp [render, List.mem_flatMap, List.mem_mergeSort]
  rw [hrender, Unbroken]
  push Not
  refine forall₂_congr fun p _ => ?_
  rw [mem_renderPair_iff hquote, not_and, not_or]

end Bag

namespace Attributes

/-- No line feed in the names and the values of what is known beforehand. -/
def Unbroken (a : Attributes) : Prop := ∀ p ∈ a.base.pairs, '\n' ∉ p.1 ∧ '\n' ∉ p.2.text

theorem Unbroken.render {a : Attributes} (h : a.Unbroken) {o : Options}
    (hquote : o.attrWrapper ≠ '\n') : '\n' ∉ a.base.render o :=
  (Bag.not_mem_render_iff hquote).mpr fun p hp _ => h p hp

end Attributes

/-- No line feed in what an action writes besides attributes and values. -/
def Action.Unbroken : Action → Prop
  | literal text _ => '\n' ∉ text
  | openTag name _ _ _ => '\n' ∉ name
  | closeTag name _ => '\n' ∉ name
  | selfClose name _ _ _ _ => '\n' ∉ name
  | doctype text => '\n' ∉ text
  | expr _ _ _ _ _ => True
  | filter _ _ _ => True

namespace Op

def AllUnbroken (ops : List Op) : Prop := ∀ a, .act a ∈ ops → a.Unbroken

variable {ops u v : List Op} {a : Action}

theorem allUnbroken_nil : AllUnbroken [] := nofun

theorem AllUnbroken.append (hu : AllUnbroken u) (hv : AllUnbroken v) : AllUnbroken (u ++ v) :=
  fun a ha => (List.mem_append.mp ha).elim (hu a) (hv a)

theorem AllUnbroken.cons (ha : a.Unbroken) (h : AllUnbroken ops) : AllUnbroken (.act a :: ops) := by
  intro b hb
  rcases List.mem_cons.mp hb with hb | hb
  · exact Op.act.inj hb ▸ ha
  · exact h b hb

theorem allUnbroken_singleton (ha : a.Unbroken) : AllUnbroken [.act a] := allUnbroken_nil.cons ha

end Op

namespace Compile

variable {o : Options} {r : Registry} {line : Nat} {childless : Bool}
  {body : Except CompileError (List Op)} {ops : List Op}

theorem segments_unbroken {escape : Escape} {flow : Flow} {written : List Segment}
    (h : ∀ t, .literal t ∈ written → '\n' ∉ t) :
    Op.AllUnbroken (segments o escape line flow written) := by
  fun_induction segments o escape line flow written with
  | case1 => exact Op.allUnbroken_nil
  | case2 flow text rest ih =>
    exact (ih fun t ht => h t (List.mem_cons_of_mem _ ht)).cons (h text List.mem_cons_self)
  | case3 flow code rest hs ih => exact ih fun t ht => h t (List.mem_cons_of_mem _ ht)
  | case4 flow code rest hs ih =>
    exact (ih fun t ht => h t (List.mem_cons_of_mem _ ht)).cons trivial

theorem script_unbroken (flow : Flow) (s : Script) :
    Op.AllUnbroken [script o line flow s] := by
  unfold script
  split
  · exact Op.allUnbroken_singleton List.not_mem_nil
  · exact Op.allUnbroken_singleton trivial

theorem element_unbroken {e : Element} (he : (Item.element e).Unbroken)
    (hbody : ∀ b, body = .ok b → Op.AllUnbroken b)
    (h : element o line e childless body = .ok ops) : Op.AllUnbroken ops := by
  have hcontent : Op.AllUnbroken (content o line e.content) := by
    cases hkind : e.content with
    | none => exact Op.allUnbroken_nil
    | text written => exact segments_unbroken (he.2 written hkind)
    | script s => exact script_unbroken .inline s
  rcases element_eq_ok h with ⟨-, rfl⟩ | ⟨-, b, hb, rfl⟩
  · exact Op.allUnbroken_singleton he.1
  · refine Op.AllUnbroken.append ?_ (Op.allUnbroken_singleton he.1)
    exact Op.AllUnbroken.cons (a := .openTag _ _ _ _) he.1 (hcontent.append (hbody b hb))

theorem commentMarks_unbroken {condition : Option Text} (h : ∀ t ∈ condition, '\n' ∉ t) :
    '\n' ∉ (commentMarks condition).1 ∧ '\n' ∉ (commentMarks condition).2 := by
  cases condition with
  | none => exact ⟨by decide, by decide⟩
  | some condition =>
    have hopen : '\n' ∉ ("<!--[".toList : Text) := by decide
    have hclose : '\n' ∉ ("<![endif]-->".toList : Text) := by decide
    exact ⟨List.not_mem_append (List.not_mem_append hopen (h condition rfl)) (by decide), hclose⟩

theorem comment_unbroken {condition text : Option Text}
    (hitem : (Item.comment condition text).Unbroken)
    (hbody : ∀ b, body = .ok b → Op.AllUnbroken b)
    (h : comment condition text childless body = .ok ops) : Op.AllUnbroken ops := by
  obtain ⟨hcondition, htext⟩ := hitem
  obtain ⟨hfirst, hlast⟩ := commentMarks_unbroken hcondition
  unfold comment at h
  dsimp only at h
  cases text with
  | some text =>
    obtain rfl := Except.ok.inj h
    have hspaced {u : Text} (hu : '\n' ∉ u) : '\n' ∉ ' ' :: u :=
      List.not_mem_cons_of_ne_of_not_mem (by decide) hu
    exact Op.allUnbroken_singleton (List.not_mem_append
      (List.not_mem_append hfirst (hspaced (htext text rfl))) (hspaced hlast))
  | none =>
    dsimp only at h
    split at h
    · exact Except.ok.inj h ▸ Op.allUnbroken_singleton (List.not_mem_append hfirst hlast)
    · obtain ⟨b, hb, rfl⟩ := Outcome.exists_of_map_eq_ok h
      refine Op.AllUnbroken.append ?_ (Op.allUnbroken_singleton hlast)
      exact Op.AllUnbroken.cons (a := .literal _ .opening) hfirst (hbody b hb)

theorem doctype_unbroken {args : Text} (hquote : o.attrWrapper ≠ '\n')
    (h : doctype o line args = .ok ops) : Op.AllUnbroken ops := by
  unfold doctype at h
  split at h
  · cases h
  · exact Except.ok.inj h ▸ Op.allUnbroken_nil
  · next hresolve =>
    exact Except.ok.inj h ▸ Op.allUnbroken_singleton (Doctype.not_mem_resolve hquote hresolve)

theorem block_unbroken {statement : BlockStatement} (hbody : ∀ b, body = .ok b → Op.AllUnbroken b)
    (h : block o statement body = .ok ops) : Op.AllUnbroken ops := by
  rcases block_eq_ok h with ⟨-, rfl⟩ | ⟨-, b, hb, rfl⟩
  · exact Op.allUnbroken_nil
  · intro a ha
    have hmem : .act a ∈ b := by simpa using ha
    exact hbody b hb a hmem

/-- The operations of an unbroken item are unbroken if those of its children are. -/
theorem invariant_unbroken (hquote : o.attrWrapper ≠ '\n') :
    Invariant Item.Unbroken o r Op.AllUnbroken where
  nil := Op.allUnbroken_nil
  append _ _ hu hv := hu.append hv
  item line childless body i ops hitem hbody h := by
    cases i with
    | element e => exact element_unbroken hitem hbody h
    | text written escape => exact Except.ok.inj h ▸ segments_unbroken hitem
    | script s =>
      rw [item] at h
      split at h
      · exact Except.ok.inj h ▸ script_unbroken .line s
      · exact block_unbroken hbody h
    | silent code => exact block_unbroken hbody h
    | comment condition text => exact comment_unbroken hitem hbody h
    | filter name written => cases hitem
    | doctype args => exact doctype_unbroken hquote h

end Compile

/-- Does an item take away the white space around it? -/
def Item.nukesOuter : Item → Bool
  | element e => e.nukeOuter
  | _ => false

/-- Operations with no tag at either end that takes away the white space around them. -/
structure Op.Spaced (ops : List Op) : Prop where
  first : ∀ op ∈ ops.head?, op.nukesBefore = false
  last : ∀ op ∈ ops.getLast?, op.nukesAfter = false

namespace Op

variable {ops u v : List Op} {first last : Op}

theorem spaced_nil : Spaced [] := ⟨nofun, nofun⟩

theorem Spaced.append (hu : Spaced u) (hv : Spaced v) : Spaced (u ++ v) where
  first op hop := by
    rw [List.head?_append, Option.mem_def, Option.or_eq_some_iff] at hop
    exact hop.elim (hu.first op) fun h => hv.first op h.2
  last op hop := by
    rw [List.getLast?_append, Option.mem_def, Option.or_eq_some_iff] at hop
    exact hop.elim (hv.last op) fun h => hu.last op h.2

theorem spaced_of_forall (h : ∀ op ∈ ops, op.nukesBefore = false ∧ op.nukesAfter = false) :
    Spaced ops :=
  ⟨fun op hop => (h op (List.mem_of_mem_head? hop)).1,
    fun op hop => (h op (List.mem_of_mem_getLast? hop)).2⟩

theorem spaced_pair (hfirst : first.nukesBefore = false) (hlast : last.nukesAfter = false) :
    Spaced (first :: ops ++ [last]) where
  first op hop := Option.some.inj hop ▸ hfirst
  last op hop := by
    rw [List.getLast?_concat] at hop
    exact Option.some.inj hop ▸ hlast

end Op

namespace Compile

variable {o : Options} {r : Registry} {line : Nat} {childless : Bool}
  {body : Except CompileError (List Op)} {ops : List Op}

theorem segments_spaced {escape : Escape} {flow : Flow} (written : List Segment) :
    Op.Spaced (segments o escape line flow written) :=
  Op.spaced_of_forall (forall_segments (fun _ _ => ⟨rfl, rfl⟩) (fun _ _ _ => ⟨rfl, rfl⟩) flow
    written)

theorem block_spaced {statement : BlockStatement} (h : block o statement body = .ok ops) :
    Op.Spaced ops := by
  rcases block_eq_ok h with ⟨-, rfl⟩ | ⟨-, b, -, rfl⟩
  · exact Op.spaced_nil
  · exact Op.spaced_pair rfl rfl

theorem item_spaced {i : Item} (hi : i.nukesOuter = false)
    (h : item o r line childless body i = .ok ops) : Op.Spaced ops := by
  have hsingle {a : Action} (hbefore : a.nukesBefore = false) (hafter : a.nukesAfter = false) :
      Op.Spaced [.act a] :=
    Op.spaced_of_forall (List.forall_mem_singleton.mpr ⟨hbefore, hafter⟩)
  cases i with
  | element e =>
    rcases element_eq_ok h with ⟨-, rfl⟩ | ⟨-, b, -, rfl⟩
    · exact hsingle hi hi
    · exact Op.spaced_pair hi hi
  | text written escape => exact Except.ok.inj h ▸ segments_spaced written
  | script s =>
    rw [item] at h
    split at h
    · obtain rfl := Except.ok.inj h
      unfold script
      split <;> exact hsingle rfl rfl
    · exact block_spaced h
  | silent code => exact block_spaced h
  | comment condition text =>
    rcases comment_eq_ok h with ⟨written, rfl⟩ | ⟨b, -, rfl⟩
    · exact hsingle rfl rfl
    · exact Op.spaced_pair rfl rfl
  | filter name written =>
    rcases filter_eq_ok h with rfl | ⟨output, rfl⟩ | ⟨segments, rfl, -⟩
    · exact Op.spaced_nil
    · exact hsingle rfl rfl
    · exact hsingle rfl rfl
  | doctype args =>
    rcases doctype_eq_ok h with rfl | ⟨text, rfl⟩
    · exact Op.spaced_nil
    · exact hsingle rfl rfl

/-- Only the items at no depth can be at the ends of a document. -/
theorem program_spaced {source : Text} {p : Program} (h : Program.compile source o r = .ok p)
    {entries : List Entry} (hread : Outline.read source = .ok entries)
    (hkept : ∀ e ∈ entries, e.depth = 0 → e.item.nukesOuter = false) : Op.Spaced p.ops := by
  obtain ⟨-, entries', hread', hops⟩ := Program.compile_eq_ok h
  obtain rfl : entries = entries' := Except.ok.inj (hread.symm.trans hread')
  have hroot (n : Node) (hn : n ∈ Entry.forest entries) : n.item.nukesOuter = false :=
    hkept _ (Outline.entry_mem_of_read hread hn) rfl
  generalize Entry.forest entries = forest at hops hroot
  generalize p.ops = ops at hops
  induction forest generalizing ops with
  | nil =>
    rw [nodes] at hops
    exact Except.ok.inj hops ▸ Op.spaced_nil
  | cons n rest ih =>
    obtain ⟨hn, hrest⟩ := List.forall_mem_cons.mp hroot
    obtain ⟨first, more, hfirst, hmore, rfl⟩ := nodes_cons_eq_ok hops
    refine Op.Spaced.append ?_ (ih hrest more hmore)
    cases n with
    | mk line i children =>
      rw [node] at hfirst
      exact item_spaced hn hfirst

end Compile

end Haml
