import Haml.Proofs.Render.Action

/-! Which operation a failure belongs to. A failure names code that the operation evaluates, or its
filter, and the line that it stands on; a block's own failure names its statement. -/

namespace Haml

/-- The code in segments, in order. -/
def Segment.codes (segments : List Segment) : List Text :=
  segments.filterMap fun
    | literal _ => none
    | expression code => some code

def Qualifier.codes : Option Qualifier → List Text
  | some (code c) => [c]
  | _ => []

/-- The code of a part, in the order of evaluation. -/
def AttributePart.codes : AttributePart → List Text
  | object code q => Qualifier.codes q ++ [code]
  | literal _ _ => []
  | interpolated _ segments => Segment.codes segments
  | expr _ code => [code]
  | hash code => [code]

/-- The code of an action, in the order of evaluation. -/
def Action.codes : Action → List Text
  | expr code _ _ _ _ => [code]
  | openTag _ a _ _ => a.parts.flatMap AttributePart.codes
  | selfClose _ a _ _ _ => a.parts.flatMap AttributePart.codes
  | filter _ segments _ => Segment.codes segments
  | _ => []

def Action.line? : Action → Option Nat
  | expr _ _ _ _ line => some line
  | openTag _ _ _ line => some line
  | selfClose _ _ _ _ line => some line
  | filter _ _ line => some line
  | _ => none

/-- Can an operation be what a failure is reported for? -/
def Op.Raises : Op → RenderError → Prop
  | act a, .evaluation _ code line => code ∈ a.codes ∧ a.line? = some line
  | act a, .filter name _ line => ∃ segments, a = .filter name segments line
  | enter statement, .evaluation _ code line => code = statement.code ∧ line = statement.line
  | _, _ => False

variable {σ : Type}

/-- Work whose failures name one of the given codes and a line. -/
def Asking.Evaluates {α : Type} (line : Nat) (codes : List Text) (m : Asking σ α) : Prop :=
  ∀ s e s', m s = (.error e, s') → ∃ message, ∃ code ∈ codes, e = .evaluation message code line

namespace Asking.Evaluates

variable {α β : Type} {line : Nat} {codes more : List Text} {m : Asking σ α} {f : α → Asking σ β}

theorem pure (a : α) : Evaluates line codes (Pure.pure a : Asking σ α) := by
  intro s e s' h
  cases h

theorem mono (h : m.Evaluates line codes) (hsubset : codes ⊆ more) : m.Evaluates line more := by
  intro s e s' hm
  obtain ⟨message, code, hcode, he⟩ := h s e s' hm
  exact ⟨message, code, hsubset hcode, he⟩

theorem bind (hm : m.Evaluates line codes) (hf : ∀ a, (f a).Evaluates line codes) :
    (m >>= f).Evaluates line codes := by
  intro s e s' h
  rw [Outcome.bind_apply] at h
  rcases hms : m s with ⟨e' | a, t⟩
  · rw [hms] at h
    cases h
    exact hm s _ _ hms
  · rw [hms] at h
    exact hf a t e s' h

theorem throw {message code : Text} (hcode : code ∈ codes) :
    Evaluates line codes (throw (.evaluation message code line) : Asking σ α) := by
  intro s e s' h
  cases h
  exact ⟨message, code, hcode, rfl⟩

end Asking.Evaluates

namespace Renderer

variable (r : Renderer σ) (line : Nat)

theorem ask_evaluates {codes : List Text} {code : Text} (hcode : code ∈ codes) :
    (r.ask line code).Evaluates line codes := by
  intro s e s' h
  unfold ask at h
  split at h
  · cases h
  · cases h
    exact ⟨_, code, hcode, rfl⟩

theorem interpolate_evaluates (segments : List Segment) :
    (r.interpolate line segments).Evaluates line (Segment.codes segments) := by
  induction segments with
  | nil => exact .pure _
  | cons segment rest ih =>
    cases segment with
    | literal text => exact ih.bind fun more => .pure _
    | expression code =>
      have hcodes : Segment.codes (.expression code :: rest) = code :: Segment.codes rest := rfl
      have hrest := ih.mono (List.subset_cons_self code (Segment.codes rest))
      rw [hcodes]
      refine .bind (r.ask_evaluates line List.mem_cons_self) fun value => ?_
      exact hrest.bind fun more => .pure _

theorem qualifier_evaluates (q : Option Qualifier) :
    (r.qualifier line q).Evaluates line (Qualifier.codes q) := by
  rcases q with _ | text | code
  · exact .pure _
  · exact .pure _
  · exact .bind (r.ask_evaluates line List.mem_cons_self) fun value => .pure _

theorem part_evaluates (b : Bag) (part : AttributePart) :
    (r.part line b part).Evaluates line part.codes := by
  cases part with
  | object code q =>
    have hcode : code ∈ (AttributePart.object code q).codes := by simp [AttributePart.codes]
    have hqualifier := (r.qualifier_evaluates line q).mono (List.subset_append_left _ [code])
    refine .bind hqualifier fun q => .bind (r.ask_evaluates line hcode) fun value => ?_
    split
    · exact .pure _
    · exact .pure _
    · exact .throw hcode
  | literal name value => exact .pure _
  | interpolated name segments =>
    exact (r.interpolate_evaluates line segments).bind fun text => .pure _
  | expr name code => exact .bind (r.ask_evaluates line List.mem_cons_self) fun value => .pure _
  | hash code =>
    refine .bind (r.ask_evaluates line List.mem_cons_self) fun value => ?_
    split
    · exact .pure _
    · exact .pure _
    · exact .throw List.mem_cons_self

theorem parts_evaluates (b : Bag) (parts : List AttributePart) :
    (parts.foldlM (r.part line) b).Evaluates line (parts.flatMap AttributePart.codes) := by
  induction parts generalizing b with
  | nil => exact .pure b
  | cons part parts ih =>
    rw [List.foldlM_cons, List.flatMap_cons]
    have hpart := (r.part_evaluates line b part).mono
      (List.subset_append_left _ (parts.flatMap AttributePart.codes))
    exact hpart.bind fun b => (ih b).mono (List.subset_append_right _ _)

theorem attributes_evaluates (a : Attributes) :
    (r.attributes line a).Evaluates line (a.parts.flatMap AttributePart.codes) :=
  (r.parts_evaluates line a.base a.parts).bind fun _ => .pure _

theorem filter_raises (name : Text) (segments : List Segment) {s s' : σ} {e : RenderError}
    (h : r.filter line name segments s = (.error e, s')) :
    (Op.act (.filter name segments line)).Raises e := by
  unfold filter at h
  cases hget : r.filters.get? name with
  | none =>
    rw [hget] at h
    cases h
    exact ⟨segments, rfl⟩
  | some apply =>
    rw [hget] at h
    dsimp only at h
    rw [Outcome.bind_apply] at h
    rcases htext : r.interpolate line segments s with ⟨e' | text, t⟩
    · rw [htext] at h
      cases h
      obtain ⟨message, code, hcode, rfl⟩ := r.interpolate_evaluates line segments s _ _ htext
      exact ⟨hcode, rfl⟩
    · rw [htext] at h
      dsimp only at h
      cases happly : apply text r.options with
      | ok output =>
        rw [happly] at h
        cases h
      | error message =>
        rw [happly] at h
        cases h
        exact ⟨segments, rfl⟩

theorem supply_raises (a : Action) {s s' : σ} {e : RenderError}
    (h : r.supply a s = (.error e, s')) : (Op.act a).Raises e := by
  -- All but filters only fail where they evaluate.
  have hevaluates {line : Nat} {m : Asking σ Text} (hm : m.Evaluates line a.codes)
      (hline : a.line? = some line) (h : m s = (.error e, s')) : (Op.act a).Raises e := by
    obtain ⟨message, code, hcode, rfl⟩ := hm s e s' h
    exact ⟨hcode, hline⟩
  cases a with
  | literal text flow => cases h
  | expr code escape preserve flow line =>
    refine hevaluates ?_ rfl h
    exact .bind (r.ask_evaluates line List.mem_cons_self) fun value => .pure _
  | openTag name a flags line => exact hevaluates (r.attributes_evaluates line a) rfl h
  | closeTag name flags => cases h
  | selfClose name a nukeOuter nukeInner line =>
    exact hevaluates (r.attributes_evaluates line a) rfl h
  | filter name segments line => exact r.filter_raises line name segments h
  | doctype text => cases h

end Renderer

end Haml
