import Haml.Proofs.Render.Calls

/-! Folding of attributes. What an element declares can be read in the order of writing, with
nothing settled beforehand. That reading and the resolved attributes ask for the same values one
after the other, and come to the same bag or the same failure. -/

namespace Haml

variable {σ : Type}

namespace Renderer

variable (r : Renderer σ) (line : Nat)

/-- Writes what one source says. -/
def source (b : Bag) : AttributeSource → Asking σ Bag
  | .fixed name value => return b.set name value.value
  | .interpolated name segments => return b.set name (.str (← r.interpolate line segments))
  | .dynamic name code => return b.set name (← r.ask line code)
  | .hash code => do
    match ← r.ask line code with
    | .map entries => return b.merge entries
    | .nil => return b
    | other =>
      throw (.evaluation ("attribute hash got `" ++ other.text ++ "`, not a map") code line)

/-- Writes the class and the id of an object reference, if there is one. -/
def reference (b : Bag) : Option Reference → Asking σ Bag
  | none => return b
  | some ref => do
    let q ← r.qualifier line ref.qualifier
    match ← r.ask line ref.code with
    | .object o => return b.addObject o q
    | .nil => return b
    | other =>
      throw (.evaluation ("object reference got `" ++ other.text ++ "`, not an object")
        ref.code line)

/-- The bag of an element read as it is written: classes, id, object reference, sources. -/
def written (e : Element) : Asking σ Bag := do
  let classed := e.classes.foldl (fun b classes => b.addClass classes) {}
  let named := (e.id.map classed.addId).getD classed
  let referred ← r.reference line named e.reference
  e.attributes.foldlM (r.source line) referred

/-- The bag of resolved attributes: the parts in order, on top of what is known beforehand. -/
def resolved (a : Attributes) : Asking σ Bag := a.parts.foldlM (r.part line) a.base

/-- Literal parts ask for nothing, so those in front can be written beforehand. -/
theorem parts_folded (parts : List AttributePart) (b : Bag) :
    (parts.dropWhile AttributePart.isLiteral).foldlM (r.part line)
      ((parts.takeWhile AttributePart.isLiteral).foldl AttributePart.fold b) =
    parts.foldlM (r.part line) b := by
  induction parts generalizing b with
  | nil => rfl
  | cons part parts ih =>
    cases part with
    | literal name value =>
      have hpart : r.part line b (.literal name value) = pure (b.set name value) := rfl
      rw [List.takeWhile_cons_of_pos rfl, List.dropWhile_cons_of_pos rfl, List.foldl_cons,
        List.foldlM_cons, hpart, pure_bind]
      exact ih (b.set name value)
    -- Any other part ends the literal ones in front, and nothing is moved.
    | object code q => rfl
    | interpolated name segments => rfl
    | expr name code => rfl
    | hash code => rfl

theorem parts_sources (sources : List AttributeSource) (b : Bag) :
    (sources.filterMap (AttributePart.ofSource? false)).foldlM (r.part line) b =
      sources.foldlM (r.source line) b := by
  rw [List.foldlM_filterMap]
  congr 1
  funext b source
  cases source with
  | fixed name value => rfl
  | interpolated name segments => rfl
  | dynamic name code => rfl
  | hash code => rfl

theorem parts_contributions (e : Element) (b : Bag) :
    (Attributes.contributions e false).foldlM (r.part line) b =
      r.reference line b e.reference >>= fun b => e.attributes.foldlM (r.source line) b := by
  rw [Attributes.contributions, List.foldlM_append]
  have hsources : (fun b => (e.attributes.filterMap (AttributePart.ofSource? false)).foldlM
      (r.part line) b) = fun b => e.attributes.foldlM (r.source line) b := by
    funext b
    exact r.parts_sources line e.attributes b
  rw [hsources]
  cases e.reference with
  | none => rfl
  | some ref =>
    have hpart : [.object ref.code ref.qualifier].foldlM (r.part line) b =
        r.reference line b (some ref) := by
      rw [List.foldlM_cons]
      exact bind_pure (r.reference line b (some ref))
    exact congrArg (· >>= fun b => e.attributes.foldlM (r.source line) b) hpart

theorem resolved_resolve (e : Element) :
    r.resolved line (Attributes.resolve e false) = r.written line e := by
  have hshorthand : Attributes.shorthand e = (e.id.map (e.classes.foldl Bag.addClass {}).addId).getD
      (e.classes.foldl Bag.addClass {}) := by
    rw [Attributes.shorthand]
    cases e.id with
    | none => rfl
    | some id => rfl
  rw [resolved, Attributes.resolve, parts_folded, parts_contributions, hshorthand]
  rfl

theorem resolved_recorded (a : Attributes) :
    Asking.Recorded Bag (r.resolved line a) (r.recorded.resolved line a) :=
  parts_related Asking.compatible_recorded r.ask_recorded line a.base a.parts

/-- Folding is not seen. Applying the parts of an element's attributes and reading the element as it
is written make the same calls in the same order, leave the evaluator in the same state and have the
same bag, or the same failure. The tag shows that bag. -/
theorem resolved_eq_written (e : Element) (s : σ) : ∃ outcome after calls,
    r.resolved line (Attributes.resolve e false) s = (outcome, after) ∧
    r.written line e s = (outcome, after) ∧
    r.recorded.resolved line (Attributes.resolve e false) (s, []) = (outcome, after, calls) ∧
    r.recorded.written line e (s, []) = (outcome, after, calls) ∧
    r.attributes line (Attributes.resolve e false) s =
      (outcome.map fun b => b.render r.options, after) := by
  obtain ⟨calls, hrecorded⟩ := r.resolved_recorded line (Attributes.resolve e false) s []
  refine ⟨(r.written line e s).1, (r.written line e s).2, calls, ?_, rfl, ?_, ?_, ?_⟩
  · exact congrFun (r.resolved_resolve line e) s
  · rw [hrecorded, resolved_resolve, List.nil_append]
  · rw [← resolved_resolve, hrecorded, resolved_resolve, List.nil_append]
  · have hattributes : r.attributes line (Attributes.resolve e false) =
        (fun b => b.render r.options) <$> r.written line e := by
      rw [← resolved_resolve, map_eq_pure_bind]
      rfl
    rw [hattributes, Outcome.map_apply]
    rcases r.written line e s with ⟨error | b, after⟩ <;> rfl

end Renderer

end Haml
