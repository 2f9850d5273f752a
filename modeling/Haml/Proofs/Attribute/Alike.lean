import Haml.Proofs.Attribute.Sound
import Haml.Proofs.Text.Markup
import Mathlib.Data.List.Forall2

/-! Bags that differ in texts only. Written to in the same way, but for the texts, they keep the same
names in the same order. Classes and ids do not matter at all: what is escaped between quotes adds
no markup, and only names are written as they are. -/

namespace Haml

/-- Entries with the same names in the same order, and values in relation. -/
abbrev EntriesRel {α β : Type} (R : α → β → Prop) : List (Text × α) → List (Text × β) → Prop :=
  List.Forall₂ fun p q => p.1 = q.1 ∧ R p.2 q.2

namespace EntriesRel

variable {α β : Type} {R : α → β → Prop} {us : List (Text × α)} {vs : List (Text × β)}

theorem insertEntry (h : EntriesRel R us vs) (key : Text) {a : α} {b : β} (hab : R a b) :
    EntriesRel R (insertEntry key a us) (insertEntry key b vs) := by
  induction h with
  | nil => exact .cons ⟨rfl, hab⟩ .nil
  | @cons p q us vs hpq hrest ih =>
    rw [Haml.insertEntry, Haml.insertEntry, hpq.1]
    split
    · exact .cons ⟨rfl, hab⟩ hrest
    · exact .cons ⟨rfl, hpq.2⟩ ih

theorem lookup (h : EntriesRel R us vs) (key : Text) :
    Option.Rel R (us.lookup key) (vs.lookup key) := by
  induction h with
  | nil => exact .none
  | @cons p q us vs hpq hrest ih =>
    rw [List.lookup_cons, List.lookup_cons, hpq.1]
    split
    · exact .some hpq.2
    · exact ih

end EntriesRel

namespace Value

/-- Both are texts. -/
inductive BothTexts : Value → Value → Prop
  | str (s t : Text) : BothTexts (str s) (str t)

/-- The same value, or two texts. -/
def Alike (v w : Value) : Prop := v = w ∨ BothTexts v w

theorem leaves_alike (name : Text) {v w : Value} (h : v.Alike w) :
    EntriesRel Alike (v.leaves name) (w.leaves name) := by
  rcases h with rfl | ⟨s, t⟩
  · exact List.forall₂_same.mpr fun leaf _ => ⟨rfl, .inl rfl⟩
  · exact .cons ⟨rfl, .inr (.str s t)⟩ .nil

end Value

namespace Bag

/-- Bags that have alike values under the same names, besides their classes and ids. -/
def Alike (b c : Bag) : Prop := EntriesRel Value.Alike b.entries c.entries

theorem alike_refl (b : Bag) : b.Alike b := List.forall₂_same.mpr fun _ _ => ⟨rfl, .inl rfl⟩

theorem entries_addClassNames (b : Bag) (names : List Text) :
    (b.addClassNames names).entries = b.entries := by
  refine List.foldlRecOn (motive := fun c => c.entries = b.entries) names addClassName rfl
    fun c hc name _ => ?_
  rw [addClassName]
  split <;> exact hc

theorem entries_addId (b : Bag) (id : Text) : (b.addId id).entries = b.entries := by
  rw [addId]
  split <;> rfl

namespace Alike

variable {b c : Bag}

theorem insert (h : b.Alike c) (name : Text) {v w : Value} (hvw : v.Alike w) :
    (b.insert name v).Alike (c.insert name w) := h.insertEntry name hvw

theorem insertAll (h : b.Alike c) {us vs : List (Text × Value)}
    (hentries : EntriesRel Value.Alike us vs) :
    (b.insertAll us).Alike (c.insertAll vs) := by
  induction hentries generalizing b c with
  | nil => exact h
  | @cons p q us vs hpq hrest ih =>
    obtain ⟨name, v⟩ := p
    obtain ⟨name', w⟩ := q
    obtain ⟨rfl, hvw⟩ : name = name' ∧ v.Alike w := hpq
    exact ih (h.insert name hvw)

theorem set (h : b.Alike c) (name : Text) {v w : Value} (hvw : v.Alike w) :
    (b.set name v).Alike (c.set name w) := by
  rw [Bag.set, Bag.set]
  split
  · rw [Alike, entries_addClassNames, entries_addClassNames]
    exact h
  · split
    · rw [Alike, entries_addId, entries_addId]
      exact h
    · split
      · exact h.insertAll (Value.leaves_alike name hvw)
      · exact h.insert name hvw

end Alike

/-! The markup of what is written for a bag. -/

open Text

def pairMarkup (o : Options) (p : Text × Value) : Text := markup (renderPair o p.1 p.2)

variable {o : Options} (hquote : isBracket o.attrWrapper = false)

include hquote

/-- A text is written with the markup of the name alone. -/
theorem markup_renderPair_str (name t : Text) :
    markup (renderPair o name (.str t)) = markup name := by
  have hopen : markup (' ' :: name ++ ['=', o.attrWrapper]) = markup name := by
    rw [List.cons_append, markup_cons_of_not (by decide), markup_append,
      markup_cons_of_not (by decide), markup_singleton_of_not hquote, List.append_nil]
  have hpair : renderPair o name (.str t) =
      ' ' :: name ++ ['=', o.attrWrapper] ++ Entity.escape t ++ [o.attrWrapper] := by
    simp [renderPair, Value.text]
  rw [hpair, markup_append, markup_append, hopen, Entity.markup_escape,
    markup_singleton_of_not hquote, List.append_nil, List.append_nil]

theorem pairMarkup_alike (name : Text) {v w : Value} (h : v.Alike w) :
    pairMarkup o (name, v) = pairMarkup o (name, w) := by
  rcases h with rfl | ⟨s, t⟩
  · rfl
  · exact (markup_renderPair_str hquote name s).trans (markup_renderPair_str hquote name t).symm

omit hquote in
/-- What adds nothing can be left out before sorting. -/
theorem flatMap_mergeSort_cons {α β : Type} {le : α → α → Bool}
    (htrans : ∀ a b c, le a b = true → le b c = true → le a c = true)
    (htotal : ∀ a b, (le a b || le b a) = true) {f : α → List β} {a : α} (h : f a = [])
    (l : List α) : ((a :: l).mergeSort le).flatMap f = (l.mergeSort le).flatMap f := by
  obtain ⟨before, after, hcons, hrest, -⟩ := List.mergeSort_cons htrans htotal a l
  rw [hcons, hrest, List.flatMap_append, List.flatMap_append, List.flatMap_cons, h,
    List.nil_append]

/-- Classes and id are texts under names without markup, so that only the entries are left. -/
theorem markup_render (b : Bag) : markup (b.render o) =
    (b.entries.mergeSort fun p q => Text.le p.1 q.1).flatMap (pairMarkup o) := by
  have htext {name : Text} (hname : markup name = []) (text : Option Text)
      (pairs : List (Text × Value)) :
      (((text.map fun t => (name, Value.str t)).toList ++ pairs).mergeSort
        fun p q => Text.le p.1 q.1).flatMap (pairMarkup o) =
      (pairs.mergeSort fun p q => Text.le p.1 q.1).flatMap (pairMarkup o) := by
    cases text with
    | none => rfl
    | some t =>
      have hnil : pairMarkup o (name, .str t) = [] :=
        (markup_renderPair_str hquote name t).trans hname
      exact flatMap_mergeSort_cons (fun p q r => Text.le_trans p.1 q.1 r.1)
        (fun p q => Text.le_total p.1 q.1) hnil pairs
  rw [render, markup_flatMap, pairs, List.append_assoc]
  exact (htext (by decide) _ _).trans (htext (by decide) _ _)

theorem Alike.markup_render {b c : Bag} (h : b.Alike c) :
    markup (b.render o) = markup (c.render o) := by
  -- Sorting looks at names only, so each pair can be replaced by its markup first.
  let mark := fun (p : Text × Value) => (p.1, pairMarkup o p)
  have hsort (entries : List (Text × Value)) :
      (entries.mergeSort fun p q => Text.le p.1 q.1).flatMap (pairMarkup o) =
        ((entries.map mark).mergeSort fun p q => Text.le p.1 q.1).flatMap Prod.snd := by
    have hmap : (entries.mergeSort fun p q => Text.le p.1 q.1).map mark =
        (entries.map mark).mergeSort fun p q => Text.le p.1 q.1 :=
      List.map_mergeSort fun p _ q _ => rfl
    rw [← hmap, List.flatMap_map]
  have hmark : b.entries.map mark = c.entries.map mark := by
    rw [← List.forall₂_eq_eq_eq, List.forall₂_map_left_iff, List.forall₂_map_right_iff]
    refine h.imp fun p q hpq => ?_
    obtain ⟨name, v⟩ := p
    obtain ⟨name', w⟩ := q
    obtain ⟨rfl, hvw⟩ : name = name' ∧ v.Alike w := hpq
    exact Prod.ext rfl (pairMarkup_alike hquote name hvw)
  rw [Bag.markup_render hquote, Bag.markup_render hquote, hsort, hsort, hmark]

end Bag

end Haml
