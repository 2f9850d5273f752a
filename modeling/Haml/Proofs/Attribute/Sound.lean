import Haml.Attribute.Bag
import Haml.Proofs.Text.Words
import Mathlib.Data.List.Nodup

/-! What holds of every bag. Whatever is written to it, its classes are distinct words, and each of
its entries has a name of its own, which is never that of the classes or of the id. A pair of it is
written as a name, alone or with a text behind it that is a name or is escaped. -/

namespace Haml

theorem names_insertEntry {α : Type} (key : Text) (value : α) (entries : List (Text × α)) :
    (insertEntry key value entries).map Prod.fst =
      if key ∈ entries.map Prod.fst then entries.map Prod.fst
      else entries.map Prod.fst ++ [key] := by
  induction entries with
  | nil => rfl
  | cons entry entries ih =>
    obtain ⟨k, v⟩ := entry
    rw [insertEntry]
    by_cases hk : k = key
    · simp [hk]
    · simp only [if_neg hk, List.map_cons, ih, List.mem_cons, Ne.symm hk, false_or]
      split <;> rfl

theorem mem_names_insertEntry {α : Type} {key k : Text} {value : α} {entries : List (Text × α)}
    (h : k ∈ (insertEntry key value entries).map Prod.fst) :
    k = key ∨ k ∈ entries.map Prod.fst := by
  rw [names_insertEntry] at h
  split at h
  · exact .inr h
  · exact (List.mem_append.mp h).symm.imp List.mem_singleton.mp id

theorem nodup_names_insertEntry {α : Type} {entries : List (Text × α)}
    (h : (entries.map Prod.fst).Nodup) (key : Text) (value : α) :
    ((insertEntry key value entries).map Prod.fst).Nodup := by
  rw [names_insertEntry]
  split
  · exact h
  · next hnew => exact List.concat_eq_append ▸ h.concat hnew

namespace Value

mutual

theorem isWord_of_mem_classNames {word : Text} : (value : Value) →
    word ∈ value.classNames → Text.IsWord word
  | .list items => isWord_of_mem_itemClassNames items
  | .nil => nofun
  | .bool false => nofun
  | .bool true | .int _ | .float _ | .str _ | .map _ | .object _ => Text.isWord_of_mem_words

theorem isWord_of_mem_itemClassNames {word : Text} : (items : List Value) →
    word ∈ itemClassNames items → Text.IsWord word
  | [] => nofun
  | item :: items => fun h => (List.mem_append.mp h).elim (isWord_of_mem_classNames item)
      (isWord_of_mem_itemClassNames items)

end

mutual

/-- The leaves of a value are written under names that start with its own. -/
theorem prefix_of_mem_leaves {name : Text} {leaf : Text × Value} : (value : Value) →
    leaf ∈ value.leaves name → name <+: leaf.1
  | .map entries => prefix_of_mem_entryLeaves entries
  | .nil | .bool _ | .int _ | .float _ | .str _ | .list _ | .object _ => fun h =>
      List.mem_singleton.mp h ▸ List.prefix_rfl

theorem prefix_of_mem_entryLeaves {name : Text} {leaf : Text × Value} :
    (entries : List (Text × Value)) → leaf ∈ entryLeaves name entries → name <+: leaf.1
  | [] => nofun
  | (_, value) :: entries => fun h => (List.mem_append.mp h).elim
      (fun h => (List.prefix_append name _).trans (prefix_of_mem_leaves value h))
      (prefix_of_mem_entryLeaves entries)

end

end Value

namespace Bag

/-- Is this the name of the classes or of the id? -/
def IsReserved (name : Text) : Prop := name = "class".toList ∨ name = "id".toList

structure Sound (b : Bag) : Prop where
  classes_nodup : b.classes.Nodup
  classes_words : ∀ c ∈ b.classes, Text.IsWord c
  names_nodup : (b.entries.map Prod.fst).Nodup
  names_free : ∀ name ∈ b.entries.map Prod.fst, ¬ IsReserved name

namespace Sound

variable {b : Bag}

theorem empty : Sound {} := ⟨List.nodup_nil, nofun, List.nodup_nil, nofun⟩

theorem addClassName (h : b.Sound) {name : Text} (hname : Text.IsWord name) :
    (b.addClassName name).Sound := by
  rw [Bag.addClassName]
  split
  · exact h
  · next hnew =>
    have hmem : name ∉ b.classes := by simpa using hnew
    exact ⟨List.concat_eq_append ▸ h.classes_nodup.concat hmem,
      List.forall_mem_append.mpr ⟨h.classes_words, List.forall_mem_singleton.mpr hname⟩,
      h.names_nodup, h.names_free⟩

theorem addClassNames (h : b.Sound) {names : List Text} (hnames : ∀ name ∈ names, Text.IsWord name) :
    (b.addClassNames names).Sound :=
  List.foldlRecOn names Bag.addClassName h fun _ h name hmem => h.addClassName (hnames name hmem)

theorem addClass (h : b.Sound) (classes : Text) : (b.addClass classes).Sound :=
  h.addClassNames fun _ => Text.isWord_of_mem_words

theorem addId (h : b.Sound) (id : Text) : (b.addId id).Sound := by
  rw [Bag.addId]
  split
  · exact h
  · exact ⟨h.classes_nodup, h.classes_words, h.names_nodup, h.names_free⟩

theorem insert (h : b.Sound) {name : Text} (hname : ¬ IsReserved name) (value : Value) :
    (b.insert name value).Sound where
  classes_nodup := h.classes_nodup
  classes_words := h.classes_words
  names_nodup := nodup_names_insertEntry h.names_nodup name value
  names_free other hmem := (mem_names_insertEntry hmem).elim (fun heq => heq ▸ hname)
    (h.names_free other)

theorem insertAll (h : b.Sound) {entries : List (Text × Value)}
    (hentries : ∀ e ∈ entries, ¬ IsReserved e.1) : (b.insertAll entries).Sound :=
  List.foldlRecOn entries _ h fun _ h entry hmem => h.insert (hentries entry hmem) entry.2

theorem set (h : b.Sound) (name : Text) (value : Value) : (b.set name value).Sound := by
  rw [Bag.set]
  split
  · exact h.addClassNames fun _ => Value.isWord_of_mem_classNames value
  · next hclass =>
    split
    · exact h.addId value.idText
    · next hid =>
      split
      · next hdata =>
        -- Behind `data` there is no way to a reserved name.
        refine h.insertAll fun leaf hleaf hreserved => ?_
        have hprefix := hdata ▸ Value.prefix_of_mem_leaves value hleaf
        rcases hreserved with hname | hname
        · exact absurd (hname ▸ hprefix) (by decide)
        · exact absurd (hname ▸ hprefix) (by decide)
      · exact h.insert (not_or.mpr ⟨hclass, hid⟩) value

theorem merge (h : b.Sound) (entries : List (Text × Value)) : (b.merge entries).Sound :=
  List.foldlRecOn entries _ h fun _ h entry _ => h.set entry.1 entry.2

theorem addObject (h : b.Sound) (o : Object) (qualifier : Option Text) :
    (b.addObject o qualifier).Sound :=
  (h.addClass _).addId _

end Sound

/-- One thing written to a bag. -/
inductive Write
  | addClass (classes : Text)
  | addId (id : Text)
  | set (name : Text) (value : Value)
  | merge (entries : List (Text × Value))
  | addObject (o : Object) (qualifier : Option Text)

def write (b : Bag) : Write → Bag
  | .addClass classes => b.addClass classes
  | .addId id => b.addId id
  | .set name value => b.set name value
  | .merge entries => b.merge entries
  | .addObject o qualifier => b.addObject o qualifier

/-- The bag that some writing leaves. -/
def ofWrites (writes : List Write) : Bag := writes.foldl write {}

theorem Sound.write {b : Bag} (h : b.Sound) (w : Write) : (b.write w).Sound := by
  cases w with
  | addClass classes => exact h.addClass classes
  | addId id => exact h.addId id
  | set name value => exact h.set name value
  | merge entries => exact h.merge entries
  | addObject o qualifier => exact h.addObject o qualifier

theorem sound_ofWrites (writes : List Write) : (ofWrites writes).Sound :=
  List.foldlRecOn writes Bag.write Sound.empty fun _ h w _ => h.write w

end Bag

end Haml
