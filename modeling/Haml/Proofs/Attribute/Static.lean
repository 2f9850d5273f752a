import Haml.Proofs.Attribute.Folding
import Haml.Proofs.Attribute.Sources
import Haml.Proofs.Render.Asked
import Haml.Proofs.Render.Quiet

/-! Attributes that are known beforehand. An element is quiet if rendering its attributes calls no
evaluator, which is so if it has no object reference and no code in its sources. Its attributes are
then all known, but they are not all folded: a quoted text in which every pair that opens code is
escaped has no code in it, and is left to rendering as text with code is. -/

namespace Haml

variable {σ : Type}

/-- Is there nothing to evaluate in a source? -/
def AttributeSource.isCodeless : AttributeSource → Bool
  | fixed _ _ => true
  | interpolated _ segments => segments.all Segment.isLiteral
  | dynamic _ _ => false
  | hash _ => false

namespace Element

/-- No object reference, and no source with code. -/
structure IsCodeless (e : Element) : Prop where
  reference : e.reference = none
  attributes : ∀ a ∈ e.attributes, a.isCodeless = true

/-- Rendering the attributes calls no evaluator. -/
def IsQuiet (e : Element) : Prop := ∀ (σ : Type) (r : Renderer σ) (line : Nat) (s : σ),
  (r.recorded.attributes line (Attributes.resolve e false) (s, [])).2.2 = []

end Element

/-- The evaluator that knows nothing but nil. -/
def Evaluator.blank : Evaluator Unit where
  evaluate _ s := (.ok .nil, s)
  runBlock _ s := .done (.ok none) s

/-- Work that comes to a result in every state. -/
def Asking.Succeeds {α : Type} (m : Asking σ α) : Prop := ∀ s, ∃ a t, m s = (.ok a, t)

namespace Asking.Succeeds

variable {α β : Type} {m : Asking σ α} {f : α → Asking σ β}

theorem pure (a : α) : Succeeds (Pure.pure a : Asking σ α) := fun s => ⟨a, s, rfl⟩

theorem bind (hm : m.Succeeds) (hf : ∀ a, (f a).Succeeds) : (m >>= f).Succeeds := by
  intro s
  obtain ⟨a, t, hmid⟩ := hm s
  rw [Outcome.bind_apply, hmid]
  exact hf a t

theorem ask {r : Renderer σ} (hnil : ∀ code s, (r.evaluator.evaluate code s).1 = .ok .nil)
    (line : Nat) (code : Text) {f : Value → Asking σ β} (hf : (f .nil).Succeeds) :
    (r.ask line code >>= f).Succeeds := by
  intro s
  have hanswer : r.ask line code s = (.ok .nil, (r.evaluator.evaluate code s).2) := by
    have hvalue := hnil code s
    unfold Renderer.ask
    rcases hcode : r.evaluator.evaluate code s with ⟨result, t⟩
    rw [hcode] at hvalue
    obtain rfl : result = .ok .nil := hvalue
    rfl
  rw [Outcome.bind_apply, hanswer]
  exact hf _

end Asking.Succeeds

namespace Renderer

open Asking (Succeeds)

section Nil

variable {r : Renderer σ} (hnil : ∀ code s, (r.evaluator.evaluate code s).1 = .ok .nil) (line : Nat)

include hnil

theorem interpolate_succeeds (segments : List Segment) :
    (r.interpolate line segments).Succeeds := by
  induction segments with
  | nil => exact .pure _
  | cons segment rest ih =>
    cases segment with
    | literal text => exact ih.bind fun more => .pure _
    | expression code => exact .ask hnil line code (ih.bind fun more => .pure _)

theorem qualifier_succeeds (q : Option Qualifier) : (r.qualifier line q).Succeeds := by
  rcases q with _ | text | code
  · exact .pure _
  · exact .pure _
  · exact .ask hnil line code (.pure _)

/-- Nil is good for every part of attributes. -/
theorem part_succeeds (b : Bag) (part : AttributePart) : (r.part line b part).Succeeds := by
  cases part with
  | object code q =>
    exact (qualifier_succeeds hnil line q).bind fun q => .ask hnil line code (.pure _)
  | literal name value => exact .pure _
  | interpolated name segments =>
    exact (interpolate_succeeds hnil line segments).bind fun text => .pure _
  | expr name code => exact .ask hnil line code (.pure _)
  | hash code => exact .ask hnil line code (.pure _)

theorem parts_succeed (b : Bag) (parts : List AttributePart) :
    (parts.foldlM (r.part line) b).Succeeds := by
  induction parts generalizing b with
  | nil => exact .pure b
  | cons part parts ih =>
    rw [List.foldlM_cons]
    exact (part_succeeds hnil line b part).bind ih

theorem attributes_succeed (a : Attributes) : (r.attributes line a).Succeeds :=
  (parts_succeed hnil line a.base a.parts).bind fun _ => .pure _

end Nil

variable (r : Renderer σ) (line : Nat)

/-- The calls of rendering attributes are for their codes in order, and for all of them where there
is a result. -/
theorem exists_calls_attributes (a : Attributes) (s : σ) : ∃ asked,
    (r.recorded.attributes line a (s, [])).2.2 = asked.map .evaluate ∧
    asked <+: a.parts.flatMap AttributePart.codes ∧
    ∀ text, (r.recorded.attributes line a (s, [])).1 = .ok text →
      asked = a.parts.flatMap AttributePart.codes := by
  obtain ⟨asked, h⟩ := r.recorded.attributes_follows line a (s, [])
  have hstate := h.eq_stateAfter
  have hrecorded : r.recorded.evaluator.stateAfter asked (s, []) = _ :=
    r.evaluator.stateAfter_recorded asked s []
  rw [hrecorded, List.nil_append] at hstate
  refine ⟨asked, congrArg Prod.snd hstate, h.isPrefix, fun text htext => ?_⟩
  rw [htext] at h
  exact h.eq_of_ok

end Renderer

namespace AttributePart

theorem codes_eq_nil_iff {part : AttributePart} : part.codes = [] ↔ part.isCodeless = true := by
  cases part with
  | object code q => simp [codes, isCodeless]
  | literal name value => simp [codes, isCodeless]
  | interpolated name segments =>
    rw [codes, Segment.codes, List.filterMap_eq_nil_iff, isCodeless, List.all_eq_true]
    refine forall₂_congr fun segment _ => ?_
    cases segment <;> simp [Segment.isLiteral]
  | expr name code => simp [codes, isCodeless]
  | hash code => simp [codes, isCodeless]

theorem codes_of_isLiteral {part : AttributePart} (h : part.isLiteral = true) :
    part.codes = [] := by
  cases part with
  | literal name value => rfl
  | _ => cases h

end AttributePart

namespace Attributes

variable {e : Element}

/-- Folding takes no code away. -/
theorem codes_resolve (e : Element) : (resolve e false).parts.flatMap AttributePart.codes =
    (contributions e false).flatMap AttributePart.codes := by
  have hsplit := List.takeWhile_append_dropWhile (p := AttributePart.isLiteral)
    (l := contributions e false)
  have hfront : ((contributions e false).takeWhile AttributePart.isLiteral).flatMap
      AttributePart.codes = [] := by
    rw [List.flatMap_eq_nil_iff]
    intro part hpart
    exact AttributePart.codes_of_isLiteral (List.mem_takeWhile_imp hpart)
  have happend := congrArg (List.flatMap AttributePart.codes) hsplit
  rw [List.flatMap_append, hfront, List.nil_append] at happend
  exact happend

/-- What holds of no object holds of all contributions if there is no reference and it holds of
every source. -/
theorem forall_mem_contributions {P : AttributePart → Prop} {Q : AttributeSource → Prop}
    (hobject : ∀ code q, ¬P (.object code q))
    (hsource : ∀ a, (∀ part, AttributePart.ofSource? false a = some part → P part) ↔ Q a) :
    (∀ part ∈ contributions e false, P part) ↔ e.reference = none ∧ ∀ a ∈ e.attributes, Q a := by
  rw [contributions, List.forall_mem_append]
  refine and_congr ?_ ?_
  · cases e.reference with
    | none => simp
    | some r => simp [hobject]
  · simp only [List.mem_filterMap, ← hsource]
    constructor
    · intro h a ha part hpart
      exact h part ⟨a, ha, hpart⟩
    · rintro h part ⟨a, ha, hpart⟩
      exact h a ha part hpart

theorem codes_eq_nil_iff : (resolve e false).parts.flatMap AttributePart.codes = [] ↔
    e.IsCodeless := by
  simp only [codes_resolve, List.flatMap_eq_nil_iff, AttributePart.codes_eq_nil_iff]
  rw [forall_mem_contributions (Q := fun a => a.isCodeless = true)
    (fun _ _ => Bool.false_ne_true)]
  · exact ⟨fun ⟨hreference, hattributes⟩ => ⟨hreference, hattributes⟩,
      fun ⟨hreference, hattributes⟩ => ⟨hreference, hattributes⟩⟩
  · intro a
    cases a <;> simp [AttributePart.ofSource?, AttributePart.isCodeless, AttributeSource.isCodeless]

/-- Attributes are folded if there is no reference and every source is fixed. -/
theorem isStatic_iff : (resolve e false).isStatic = true ↔
    e.reference = none ∧ ∀ a ∈ e.attributes, ∃ name value, a = .fixed name value := by
  rw [isStatic, resolve, List.isEmpty_iff, List.dropWhile_eq_nil_iff]
  refine forall_mem_contributions (fun _ _ => Bool.false_ne_true) fun a => ?_
  cases a <;> simp [AttributePart.ofSource?, AttributePart.isLiteral]

end Attributes

/-- An evaluator that answers nil is asked for all codes there are. -/
theorem Element.isQuiet_iff {e : Element} : e.IsQuiet ↔ e.IsCodeless := by
  rw [← Attributes.codes_eq_nil_iff]
  constructor
  · intro h
    let r : Renderer Unit := ⟨.blank, .builtin, {}⟩
    obtain ⟨asked, hcalls, -, hall⟩ :=
      r.exists_calls_attributes 0 (Attributes.resolve e false) ()
    obtain ⟨text, t, hresult⟩ := Renderer.attributes_succeed (r := r.recorded)
      (fun code s => rfl) 0 (Attributes.resolve e false) ((), [])
    rw [h Unit r 0 ()] at hcalls
    rw [← hall text (congrArg Prod.fst hresult)]
    exact List.map_eq_nil_iff.mp hcalls.symm
  · intro h σ r line s
    obtain ⟨asked, hcalls, hprefix, -⟩ :=
      r.exists_calls_attributes line (Attributes.resolve e false) s
    rw [h, List.prefix_nil] at hprefix
    rw [hcalls, hprefix, List.map_nil]

namespace Renderer

variable (r : Renderer σ) (line : Nat)

theorem interpolate_of_isLiteral {segments : List Segment}
    (h : segments.all Segment.isLiteral = true) :
    r.interpolate line segments = pure (Segment.literalText segments) := by
  induction segments with
  | nil => rfl
  | cons segment rest ih =>
    cases segment with
    | literal text =>
      rw [interpolate, ih h, pure_bind]
      rfl
    | expression code => cases h

/-- A source without code writes what it is where nothing is evaluated. -/
theorem exists_literal_of_isCodeless {a : AttributeSource} (h : a.isCodeless = true) :
    ∃ name value, AttributePart.ofSource? true a = some (.literal name value) ∧
      ∀ b, r.source line b a = pure (b.set name value) := by
  cases a with
  | fixed name value => exact ⟨name, value.value, rfl, fun b => rfl⟩
  | interpolated name segments =>
    refine ⟨name, .str (Segment.literalText segments), rfl, fun b => ?_⟩
    rw [source, r.interpolate_of_isLiteral line h, pure_bind]
  | dynamic name code => cases h
  | hash code => cases h

theorem sources_of_isCodeless {sources : List AttributeSource}
    (h : ∀ a ∈ sources, a.isCodeless = true) (b : Bag) :
    (∀ part ∈ sources.filterMap (AttributePart.ofSource? true), part.isLiteral = true) ∧
    sources.foldlM (r.source line) b =
      pure ((sources.filterMap (AttributePart.ofSource? true)).foldl AttributePart.fold b) := by
  induction sources generalizing b with
  | nil => exact ⟨List.forall_mem_nil _, rfl⟩
  | cons a sources ih =>
    obtain ⟨ha, hsources⟩ := List.forall_mem_cons.mp h
    obtain ⟨name, value, hpart, hwrite⟩ := r.exists_literal_of_isCodeless line ha
    obtain ⟨hliteral, hrest⟩ := ih hsources (b.set name value)
    rw [List.filterMap_cons_some hpart, List.foldlM_cons, hwrite, pure_bind, hrest]
    exact ⟨List.forall_mem_cons.mpr ⟨rfl, hliteral⟩, rfl⟩

/-- Attributes without code are rendered as they are folded where nothing is evaluated. -/
theorem attributes_of_isCodeless {e : Element} (h : e.IsCodeless) :
    (Attributes.resolve e true).isStatic = true ∧ ∀ s : σ,
      r.attributes line (Attributes.resolve e false) s =
        (.ok ((Attributes.resolve e true).base.render r.options), s) := by
  obtain ⟨hliteral, hwritten⟩ :=
    r.sources_of_isCodeless line h.attributes (Attributes.shorthand e)
  have hparts : Attributes.contributions e true =
      e.attributes.filterMap (AttributePart.ofSource? true) := by
    rw [Attributes.contributions, h.reference]
    rfl
  have hbase : (Attributes.resolve e true).base =
      (e.attributes.filterMap (AttributePart.ofSource? true)).foldl AttributePart.fold
        (Attributes.shorthand e) := by
    rw [Attributes.resolve, hparts, List.takeWhile_eq_self_iff.mpr hliteral]
  refine ⟨?_, fun s => ?_⟩
  · rw [Attributes.isStatic, Attributes.resolve, hparts, List.isEmpty_iff,
      List.dropWhile_eq_nil_iff]
    exact hliteral
  · have hresolved : r.resolved line (Attributes.resolve e false) =
        pure (Attributes.resolve e true).base := by
      rw [resolved, Attributes.resolve, parts_folded, parts_contributions, h.reference, reference,
        pure_bind, hwritten, hbase]
    have hattributes : r.attributes line (Attributes.resolve e false) =
        r.resolved line (Attributes.resolve e false) >>= fun b => pure (b.render r.options) := rfl
    rw [hattributes, hresolved, pure_bind]
    rfl

end Renderer

namespace Document

/-- The elements of a document whose attributes call no evaluator are those without a reference and
without code in their sources. Their attributes are folded unless there is a quoted text among them
in which every pair that opens code is escaped; such a text is one literal with the pair in it, and
it is rendered as it would be folded. -/
theorem isStatic_of_read {source : Text} {forest : List Node} (h : read source = .ok forest)
    {p : Nat × Node} (hp : p ∈ Node.walkAll 0 forest) {e : Element}
    (he : p.2.item = .element e) :
    (e.IsQuiet ↔ e.reference = none ∧ ∀ a ∈ e.attributes, a.isCodeless = true) ∧
    ((Attributes.resolve e false).isStatic = true ↔
      e.IsQuiet ∧ ∀ name text, .interpolated name [.literal text] ∉ e.attributes) ∧
    (∀ name text, .interpolated name [.literal text] ∈ e.attributes →
      Segment.opensIn text = true) ∧
    (e.IsQuiet → (Attributes.resolve e true).isStatic = true ∧
      ∀ (σ : Type) (r : Renderer σ) (line : Nat) (s : σ),
        r.attributes line (Attributes.resolve e false) s =
          (.ok ((Attributes.resolve e true).base.render r.options), s)) := by
  have hmade := made_of_read h hp he
  have hliteral {name : Text} {segments : List Segment}
      (hmem : .interpolated name segments ∈ e.attributes)
      (hall : segments.all Segment.isLiteral = true) :
      ∃ text, segments = [.literal text] ∧ Segment.opensIn text = true := by
    obtain ⟨line, hsource⟩ := hmade _ hmem
    exact hsource.literal hall
  refine ⟨?_, ?_, ?_, ?_⟩
  · rw [Element.isQuiet_iff]
    exact ⟨fun ⟨hreference, hattributes⟩ => ⟨hreference, hattributes⟩,
      fun ⟨hreference, hattributes⟩ => ⟨hreference, hattributes⟩⟩
  · rw [Element.isQuiet_iff, Attributes.isStatic_iff]
    constructor
    · rintro ⟨hreference, hfixed⟩
      refine ⟨⟨hreference, fun a ha => ?_⟩, fun name text hmem => ?_⟩
      · obtain ⟨name, value, rfl⟩ := hfixed a ha
        rfl
      · obtain ⟨_, _, hkind⟩ := hfixed _ hmem
        cases hkind
    · rintro ⟨⟨hreference, hcodeless⟩, hescaped⟩
      refine ⟨hreference, fun a ha => ?_⟩
      have hcode := hcodeless a ha
      cases a with
      | fixed name value => exact ⟨name, value, rfl⟩
      | interpolated name segments =>
        obtain ⟨text, rfl, -⟩ := hliteral ha hcode
        exact absurd ha (hescaped name text)
      | dynamic name code => cases hcode
      | hash code => cases hcode
  · intro name text hmem
    obtain ⟨text', htext, hopens⟩ := hliteral hmem rfl
    obtain ⟨rfl⟩ : text = text' := by simpa using htext
    exact hopens
  · intro hquiet
    have hcodeless := Element.isQuiet_iff.mp hquiet
    have hstatic := (Renderer.attributes_of_isCodeless ⟨.blank, .builtin, {}⟩ 0 hcodeless).1
    exact ⟨hstatic, fun σ r line s => (r.attributes_of_isCodeless line hcodeless).2 s⟩

/-- An escaped pair between a literal and a number. -/
def escapedSource : Text := "%a.b\x7b:t => \"\\#\x7bx\x7d\", :u => 1\x7d"

def escapedElement : Element where
  tag := "a"
  classes := ["b"]
  id := none
  attributes := [.interpolated "t" [.literal "#\x7bx\x7d"], .fixed "u" (.number "1")]
  reference := none
  nukeOuter := false
  nukeInner := false
  selfClosing := false
  content := .none

theorem read_escapedSource : read escapedSource = .ok [.mk 1 (.element escapedElement) []] := by
  have houtline : Outline.read escapedSource = .ok [⟨0, 1, .element escapedElement⟩] := by
    decide +kernel
  rw [read, houtline]
  rfl

theorem mem_escapedSource : (0, Node.mk 1 (.element escapedElement) []) ∈
    Node.walkAll 0 [.mk 1 (.element escapedElement) []] := by
  simp [Node.walkAll, Node.walk]

theorem isStatic_of_read_escaped :
    read escapedSource = .ok [.mk 1 (.element escapedElement) []] ∧ escapedElement.IsQuiet ∧
    (Attributes.resolve escapedElement false).isStatic = false ∧
    (Attributes.resolve escapedElement true).isStatic = true := by
  obtain ⟨hquiet, -, -, hfolded⟩ := isStatic_of_read read_escapedSource mem_escapedSource rfl
  have hcodeless := hquiet.mpr ⟨rfl, by decide⟩
  exact ⟨read_escapedSource, hcodeless, rfl, (hfolded hcodeless).1⟩

/-- Attributes without code that are not folded. -/
theorem isStatic_ne_isCodeless : ¬∀ (source : Text) (forest : List Node), read source = .ok forest →
    ∀ p ∈ Node.walkAll 0 forest, ∀ e, p.2.item = .element e →
      ((Attributes.resolve e false).isStatic = true ↔
        e.reference = none ∧ ∀ a ∈ e.attributes, a.isCodeless = true) := by
  intro h
  have hstatic := (h _ _ read_escapedSource _ mem_escapedSource escapedElement rfl).mpr
    ⟨rfl, by decide⟩
  cases hstatic

end Document

end Haml
