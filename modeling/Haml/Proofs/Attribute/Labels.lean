import Haml.Compile
import Haml.Proofs.Text.Words

/-! Classes and id of an element written out as attributes. The text of a class attribute is cut
into words again, so that classes joined by spaces are added one by one as they are for the element,
and equal ones once. What is settled beforehand is the same, if no object reference comes in
between. -/

namespace Haml

open Text (IsWord)

namespace Element

/-- The names and texts of attributes that say what classes and an id say. All classes stand in one
text. -/
def labels (classes : List Text) (id : Option Text) : List (Text × Text) :=
  (if classes.isEmpty then [] else [("class".toList, Text.join [' '] classes)]) ++
    (id.map fun id => ("id".toList, id)).toList

/-- The element with its classes and id as its first attributes. -/
def explicit (e : Element) : Element :=
  { e with
    classes := []
    id := none
    attributes :=
      (labels e.classes e.id).map (fun (name, text) => .fixed name (.str text)) ++ e.attributes }

end Element

namespace Bag

theorem addClass_of_isWord {word : Text} (h : IsWord word) (b : Bag) :
    b.addClass word = b.addClassName word := by
  rw [addClass, Text.words_of_isWord h]
  rfl

theorem foldl_addClass {classes : List Text} (h : ∀ c ∈ classes, IsWord c) (b : Bag) :
    classes.foldl addClass b = b.addClassNames classes := by
  induction classes generalizing b with
  | nil => rfl
  | cons c classes ih =>
    obtain ⟨hc, hclasses⟩ := List.forall_mem_cons.mp h
    rw [List.foldl_cons, addClass_of_isWord hc, ih hclasses]
    rfl

/-- Classes joined in one text are added one by one. -/
theorem set_class {classes : List Text} (h : ∀ c ∈ classes, IsWord c) (b : Bag) :
    b.set "class" (.str (Text.join [' '] classes)) = classes.foldl addClass b :=
  (congrArg b.addClassNames (Text.words_join h)).trans (foldl_addClass h b).symm

end Bag

namespace Attributes

variable {e : Element}

/-- Labels that are written to an empty bag are the element's own classes and id. -/
theorem foldl_labels (hclasses : ∀ c ∈ e.classes, IsWord c) :
    (Element.labels e.classes e.id).foldl (fun b (name, text) => b.set name (.str text)) {} =
      shorthand e := by
  have hclassed : (if e.classes.isEmpty then []
      else [("class".toList, Text.join [' '] e.classes)]).foldl
        (fun (b : Bag) (name, text) => b.set name (.str text)) {} =
        e.classes.foldl Bag.addClass {} := by
    split
    · next hempty => rw [List.isEmpty_iff.mp hempty]; rfl
    · exact Bag.set_class hclasses {}
  rw [Element.labels, List.foldl_append, hclassed, shorthand]
  cases e.id <;> rfl

theorem contributions_explicit (hreference : e.reference = none) (suppressEval : Bool) :
    contributions e.explicit suppressEval =
      (Element.labels e.classes e.id).map (fun (name, text) => .literal name (.str text)) ++
        contributions e suppressEval := by
  have hreference' : e.explicit.reference = none := hreference
  rw [contributions, contributions, hreference, hreference', List.nil_append, List.nil_append,
    Element.explicit, List.filterMap_append, List.filterMap_map]
  exact congrArg (· ++ _) (congrFun List.filterMap_eq_map' _)

/-- Classes and id are settled the same where they are written as attributes. -/
theorem resolve_explicit (hclasses : ∀ c ∈ e.classes, IsWord c) (hreference : e.reference = none)
    (suppressEval : Bool) : resolve e.explicit suppressEval = resolve e suppressEval := by
  have hliteral : ∀ part ∈ (Element.labels e.classes e.id).map
      (fun (name, text) => AttributePart.literal name (.str text)), part.isLiteral = true := by
    intro part hpart
    obtain ⟨label, -, rfl⟩ := List.mem_map.mp hpart
    rfl
  have hfold : ((Element.labels e.classes e.id).map
      fun (name, text) => AttributePart.literal name (.str text)).foldl AttributePart.fold {} =
        shorthand e := by
    rw [List.foldl_map]
    exact foldl_labels hclasses
  have hnone : shorthand e.explicit = {} := rfl
  rw [resolve, resolve, contributions_explicit hreference]
  dsimp only
  rw [List.takeWhile_append_of_pos hliteral, List.dropWhile_append_of_pos hliteral,
    List.foldl_append, hnone, hfold]

end Attributes

theorem Compile.element_explicit {e : Element} (hclasses : ∀ c ∈ e.classes, IsWord c)
    (hreference : e.reference = none) (o : Options) (line : Nat) (childless : Bool)
    (body : Except CompileError (List Op)) :
    element o line e.explicit childless body = element o line e childless body := by
  rw [element, element, Attributes.resolve_explicit hclasses hreference]
  rfl

end Haml
