import Haml.Proofs.Attribute.Sound
import Haml.Proofs.Header.RoundTrip
import Haml.Proofs.Text.Decode

/-! Attributes read back from a tag. The reader knows nothing of bags: it takes a name, and a value
between two quotes with its entities undone. What it reads of a rendered bag is what the bag has to
say, once for each name and in the order of names. -/

namespace Haml

open AttributeList (isListName)

namespace AttributeText

/-- A name, with a text unless it stands alone. -/
abbrev TagItem := Text × Option Text

/-- The value between two quotes, and what follows it. -/
def readValue? (quote : Char) : Text → Option (Text × Text)
  | [] => none
  | opener :: rest =>
    if opener = quote then
      match rest.dropWhile (· != quote) with
      | [] => none
      | _ :: after => some (Entity.decode (rest.takeWhile (· != quote)), after)
    else none

/-- The item at the start of a text, and what follows it. -/
def readItem? (quote : Char) : Text → Option (TagItem × Text)
  | ' ' :: rest =>
    let name := rest.takeWhile isListName
    if name.isEmpty then none
    else
      match rest.dropWhile isListName with
      | '=' :: value => (readValue? quote value).map fun (text, after) => ((name, some text), after)
      | after => some ((name, none), after)
  | _ => none

theorem length_lt_of_readValue? {quote : Char} {t text after : Text}
    (h : readValue? quote t = some (text, after)) : after.length < t.length := by
  unfold readValue? at h
  split at h
  · cases h
  · next opener rest =>
    split at h
    · split at h
      · cases h
      · next mark after' hdrop =>
        obtain ⟨-, rfl⟩ := Prod.mk.inj (Option.some.inj h)
        have hle := (List.dropWhile_suffix (l := rest) (· != quote)).length_le
        rw [hdrop] at hle
        simp only [List.length_cons] at hle ⊢
        omega
    · cases h

theorem length_lt_of_readItem? {quote : Char} {t after : Text} {item : TagItem}
    (h : readItem? quote t = some (item, after)) : after.length < t.length := by
  unfold readItem? at h
  split at h
  · next rest =>
    have hle := (List.dropWhile_suffix (l := rest) isListName).length_le
    dsimp only at h
    split at h
    · cases h
    · split at h
      · next value hdrop =>
        obtain ⟨⟨text, after'⟩, hread, heq⟩ := Option.map_eq_some_iff.mp h
        obtain ⟨-, rfl⟩ := Prod.mk.inj heq
        have hlt := length_lt_of_readValue? hread
        rw [hdrop] at hle
        simp only [List.length_cons] at hle ⊢
        omega
      · obtain ⟨-, rfl⟩ := Prod.mk.inj (Option.some.inj h)
        exact Nat.lt_succ_of_le hle
  · cases h

/-- All items of a text, if it is nothing but items. -/
def readItems? (quote : Char) (t : Text) : Option (List TagItem) :=
  if t.isEmpty then some []
  else
    match h : readItem? quote t with
    | none => none
    | some (item, after) =>
      have := length_lt_of_readItem? h
      (readItems? quote after).map (item :: ·)
termination_by t.length

variable {quote : Char} {name rest : Text}

theorem readItems?_nil : readItems? quote [] = some [] := by
  rw [readItems?]
  rfl

theorem readItems?_of_readItem? {t : Text} {item : TagItem}
    (h : readItem? quote t = some (item, rest)) :
    readItems? quote t = (readItems? quote rest).map (item :: ·) := by
  have hne : t ≠ [] := by
    rintro rfl
    cases h
  rw [readItems?, if_neg (by simpa using hne)]
  split
  · next hnone => cases hnone.symm.trans h
  · next item' after hsome =>
    obtain ⟨rfl, rfl⟩ := Prod.mk.inj (Option.some.inj (hsome.symm.trans h))
    rfl

/-- A name of characters that belong to names, and not empty. -/
def IsAttributeName (name : Text) : Prop := name ≠ [] ∧ name.all isListName = true

instance (name : Text) : Decidable (IsAttributeName name) :=
  inferInstanceAs (Decidable (name ≠ [] ∧ name.all isListName = true))

theorem readItem?_bare (hname : IsAttributeName name) (hrest : Starts [' '] rest) :
    readItem? quote (' ' :: name ++ rest) = some ((name, none), rest) := by
  have hblank : [' '].any isListName = false := by decide
  rw [List.cons_append, readItem?]
  dsimp only
  rw [hrest.takeWhile_append hname.2 hblank, hrest.dropWhile_append hname.2 hblank,
    if_neg (by simpa using hname.1)]
  cases rest with
  | nil => rfl
  | cons c rest =>
    obtain rfl : c = ' ' := by simpa using hrest c rfl
    rfl

theorem readItem?_quoted (hname : IsAttributeName name) {value : Text} (hvalue : quote ∉ value) :
    readItem? quote (' ' :: name ++ '=' :: quote :: value ++ [quote] ++ rest) =
      some ((name, some (Entity.decode value)), rest) := by
  have hequals : ['='].any isListName = false := by decide
  have hstart : Starts ['='] ('=' :: quote :: (value ++ quote :: rest)) := .cons (by decide)
  have hbody : value.all (· != quote) = true :=
    List.all_eq_true.mpr fun c hc => bne_iff_ne.mpr fun heq => hvalue (heq ▸ hc)
  have hclose : Starts [quote] (quote :: rest) := .cons List.mem_cons_self
  have hquote : [quote].any (· != quote) = false := by simp
  have happend : ' ' :: name ++ '=' :: quote :: value ++ [quote] ++ rest =
      ' ' :: (name ++ '=' :: quote :: (value ++ quote :: rest)) := by simp
  have hread : readValue? quote (quote :: (value ++ quote :: rest)) =
      some (Entity.decode value, rest) := by
    rw [readValue?, if_pos rfl, hclose.takeWhile_append hbody hquote,
      hclose.dropWhile_append hbody hquote]
  rw [happend, readItem?]
  dsimp only
  rw [hstart.takeWhile_append hname.2 hequals, hstart.dropWhile_append hname.2 hequals,
    if_neg (by simpa using hname.1)]
  exact congrArg (Option.map fun (text, after) => ((name, some text), after)) hread

end AttributeText

namespace Bag

open AttributeText

/-- How an attribute shows in a tag: with a text, alone, or not at all. -/
def shown? (format : Format) (name : Text) : Value → Option (Option Text)
  | .nil => none
  | .bool false => none
  | .bool true => some (if format.isHtml then none else some name)
  | value => some (some value.text)

/-- What a bag has to say of a name. -/
def contribution? (b : Bag) (format : Format) (name : Text) : Option (Option Text) :=
  if name = "class".toList then
    if b.classes = [] then none else some (some (Text.join [' '] b.classes))
  else if name = "id".toList then
    if b.ids = [] then none else some (some (Text.join ['_'] b.ids))
  else (b.get? name).bind (shown? format name)

/-- The pairs as items, without those that do not show. -/
def items (format : Format) (pairs : List (Text × Value)) : List TagItem :=
  pairs.filterMap fun (name, value) => (shown? format name value).map (name, ·)

theorem starts_renderPair (o : Options) (name : Text) (value : Value) :
    Starts [' '] (renderPair o name value) := by
  unfold renderPair
  split
  · exact .nil
  · exact .nil
  · split <;> exact .cons List.mem_cons_self
  · exact .cons List.mem_cons_self

theorem starts_flatMap_renderPair (o : Options) (pairs : List (Text × Value)) :
    Starts [' '] (pairs.flatMap fun (name, value) => renderPair o name value) := by
  induction pairs with
  | nil => exact .nil
  | cons pair pairs ih => exact (starts_renderPair o pair.1 pair.2).append ih

theorem escape_eq_self_of_isAttributeName {name : Text} (h : IsAttributeName name) :
    Entity.escape name = name := by
  have hspecial : ['&', '<', '>', '"', '\''].any isListName = false := by decide
  have hself : ∀ c ∈ name, Entity.ofChar c = [c] := by
    intro c hc
    have hnot : c ∉ ['&', '<', '>', '"', '\''] := fun hmem =>
      List.any_eq_false.mp hspecial c hmem (List.all_eq_true.mp h.2 c hc)
    simp only [List.mem_cons, List.not_mem_nil, or_false, not_or] at hnot
    simp [Entity.ofChar, hnot]
  rw [Entity.escape, List.flatMap_congr hself]
  exact List.flatMap_singleton' name

/-- A pair is no text at all, a name alone, or a name with an escaped text. -/
theorem renderPair_shown (o : Options) {name : Text} (hname : IsAttributeName name)
    (value : Value) :
    (renderPair o name value = [] ∧ shown? o.format name value = none) ∨
    (renderPair o name value = ' ' :: name ∧ shown? o.format name value = some none) ∨
    ∃ text, renderPair o name value =
        ' ' :: name ++ '=' :: o.attrWrapper :: Entity.escape text ++ [o.attrWrapper] ∧
      shown? o.format name value = some (some text) := by
  cases value with
  | nil => exact .inl ⟨rfl, rfl⟩
  | bool b =>
    cases b with
    | false => exact .inl ⟨rfl, rfl⟩
    | true =>
      rw [renderPair, shown?]
      cases o.format.isHtml with
      | true => exact .inr (.inl ⟨rfl, rfl⟩)
      | false => exact .inr (.inr ⟨name, by rw [escape_eq_self_of_isAttributeName hname]; rfl, rfl⟩)
  | int n => exact .inr (.inr ⟨_, rfl, rfl⟩)
  | float x => exact .inr (.inr ⟨_, rfl, rfl⟩)
  | str text => exact .inr (.inr ⟨_, rfl, rfl⟩)
  | list items => exact .inr (.inr ⟨_, rfl, rfl⟩)
  | map entries => exact .inr (.inr ⟨_, rfl, rfl⟩)
  | object object => exact .inr (.inr ⟨_, rfl, rfl⟩)

theorem readItems?_renderPair {o : Options} (hquote : o.attrWrapper ∈ ['"', '\'']) {name : Text}
    (hname : IsAttributeName name) (value : Value) {rest : Text} (hrest : Starts [' '] rest) :
    readItems? o.attrWrapper (renderPair o name value ++ rest) =
      (readItems? o.attrWrapper rest).map fun more =>
        ((shown? o.format name value).map (name, ·)).toList ++ more := by
  rcases renderPair_shown o hname value with ⟨hrender, hshown⟩ | ⟨hrender, hshown⟩ |
    ⟨text, hrender, hshown⟩
  · rw [hrender, hshown]
    exact Option.map_id'.symm
  · rw [hrender, hshown, readItems?_of_readItem? (readItem?_bare hname hrest)]
    rfl
  · have hmem : o.attrWrapper ∉ Entity.escape text :=
      Entity.not_mem_escape (List.mem_cons_of_mem _ (List.mem_cons_of_mem _ hquote)) text
    rw [hrender, hshown, readItems?_of_readItem? (readItem?_quoted hname hmem),
      Entity.decode_escape]
    rfl

theorem readItems?_pairs {o : Options} (hquote : o.attrWrapper ∈ ['"', '\''])
    {pairs : List (Text × Value)} (hnames : ∀ p ∈ pairs, IsAttributeName p.1) :
    readItems? o.attrWrapper (pairs.flatMap fun (name, value) => renderPair o name value) =
      some (items o.format pairs) := by
  induction pairs with
  | nil => exact readItems?_nil
  | cons pair pairs ih =>
    obtain ⟨name, value⟩ := pair
    obtain ⟨hname, hrest⟩ := List.forall_mem_cons.mp hnames
    rw [List.flatMap_cons, readItems?_renderPair hquote hname value
      (starts_flatMap_renderPair o pairs), ih hrest, Option.map_some, items, items,
      List.filterMap_cons]
    dsimp only
    cases shown? o.format name value <;> rfl

theorem mem_items {format : Format} {pairs : List (Text × Value)} {name : Text}
    {shown : Option Text} : (name, shown) ∈ items format pairs ↔
      ∃ value, (name, value) ∈ pairs ∧ shown? format name value = some shown := by
  rw [items, List.mem_filterMap]
  constructor
  · rintro ⟨⟨name', value⟩, hmem, hsome⟩
    obtain ⟨shown', hshown, heq⟩ := Option.map_eq_some_iff.mp hsome
    obtain ⟨rfl, rfl⟩ := Prod.mk.inj heq
    exact ⟨value, hmem, hshown⟩
  · rintro ⟨value, hmem, hshown⟩
    exact ⟨(name, value), hmem, Option.map_eq_some_iff.mpr ⟨shown, hshown, rfl⟩⟩

theorem pairwise_items {format : Format} {pairs : List (Text × Value)} {R : Text → Text → Prop}
    (h : pairs.Pairwise fun p q => R p.1 q.1) :
    (items format pairs).Pairwise fun p q => R p.1 q.1 := by
  refine List.pairwise_filterMap.mpr (h.imp fun hR item hitem item' hitem' => ?_)
  obtain ⟨_, -, rfl⟩ := Option.map_eq_some_iff.mp hitem
  obtain ⟨_, -, rfl⟩ := Option.map_eq_some_iff.mp hitem'
  exact hR

theorem mem_pairs {b : Bag} {name : Text} {value : Value} : (name, value) ∈ b.pairs ↔
    (name = "class".toList ∧ b.classes ≠ [] ∧ value = .str (Text.join [' '] b.classes)) ∨
    (name = "id".toList ∧ b.ids ≠ [] ∧ value = .str (Text.join ['_'] b.ids)) ∨
    (name, value) ∈ b.entries := by
  rw [pairs, List.mem_append, List.mem_append, or_assoc, id?]
  refine or_congr ?_ (or_congr ?_ Iff.rfl)
  · cases hclasses : b.classes <;> simp
  · cases hids : b.ids <;> simp

theorem Sound.pairs_nodup {b : Bag} (h : b.Sound) : (b.pairs.map Prod.fst).Nodup := by
  have hclass : "class".toList ∉ b.entries.map Prod.fst := fun hmem =>
    h.names_free _ hmem (.inl rfl)
  have hid : "id".toList ∉ b.entries.map Prod.fst := fun hmem => h.names_free _ hmem (.inr rfl)
  have hne : "class".toList ≠ "id".toList := by decide
  rw [pairs, id?, List.map_append, List.map_append]
  cases hclasses : b.classes.isEmpty <;> cases hids : b.ids.isEmpty <;>
    simp_all [h.names_nodup]

theorem shown_joined {format : Format} {name separator : Text} {pieces : List Text}
    {shown : Option Text} :
    (∃ value, (pieces ≠ [] ∧ value = .str (Text.join separator pieces)) ∧
        shown? format name value = some shown) ↔
      (if pieces = [] then none else some (some (Text.join separator pieces))) = some shown := by
  by_cases hnone : pieces = [] <;> simp [hnone, shown?, Value.text]

/-- Being shown by some pair is being contributed: no two pairs share a name. -/
theorem Sound.shown_iff {b : Bag} (h : b.Sound) {format : Format} {name : Text}
    {shown : Option Text} :
    (∃ value, (name, value) ∈ b.pairs ∧ shown? format name value = some shown) ↔
      b.contribution? format name = some shown := by
  have hfree : IsReserved name → ∀ value, (name, value) ∉ b.entries := fun hreserved value hmem =>
    h.names_free name (List.mem_map.mpr ⟨_, hmem, rfl⟩) hreserved
  simp only [mem_pairs, contribution?]
  by_cases hclass : name = "class".toList
  · have hid : name ≠ "id".toList := hclass ▸ by decide
    simp only [eq_true hclass, eq_false hid, hfree (.inl hclass), true_and, false_and, or_false,
      if_true]
    exact shown_joined
  · by_cases hid : name = "id".toList
    · simp only [eq_false hclass, eq_true hid, hfree (.inr hid), true_and, false_and, or_false,
        false_or, if_true, if_false]
      exact shown_joined
    · simp only [eq_false hclass, eq_false hid, false_and, false_or, if_false,
        Option.bind_eq_some_iff, get?, lookup_eq_some_iff_mem h.names_nodup]

/-- A rendered bag reads back. Whatever was written to the bag, its classes are distinct words; and
if its names are attribute names, a tag shows what the bag has to say of each name, once, in the
order of names. -/
theorem readItems?_render (writes : List Write) :
    ((ofWrites writes).classes.Nodup ∧ ∀ c ∈ (ofWrites writes).classes, Text.IsWord c) ∧
    ∀ o : Options, o.attrWrapper ∈ ['"', '\''] →
      (∀ e ∈ (ofWrites writes).entries, IsAttributeName e.1) →
      ∃ items, readItems? o.attrWrapper ((ofWrites writes).render o) = some items ∧
        items.Pairwise (fun p q => Text.le p.1 q.1 = true ∧ p.1 ≠ q.1) ∧
        ∀ name shown, (name, shown) ∈ items ↔
          (ofWrites writes).contribution? o.format name = some shown := by
  have hsound := sound_ofWrites writes
  refine ⟨⟨hsound.classes_nodup, hsound.classes_words⟩, fun o hquote hnames => ?_⟩
  generalize ofWrites writes = b at hsound hnames ⊢
  have hperm := List.mergeSort_perm b.pairs fun p q => Text.le p.1 q.1
  have hpairs : ∀ p ∈ b.pairs, IsAttributeName p.1 := by
    rintro ⟨name, value⟩ hmem
    rcases mem_pairs.mp hmem with ⟨rfl, -⟩ | ⟨rfl, -⟩ | hmem
    · exact (by decide : IsAttributeName "class".toList)
    · exact (by decide : IsAttributeName "id".toList)
    · exact hnames _ hmem
  refine ⟨_, readItems?_pairs hquote fun p hp => hpairs p (hperm.mem_iff.mp hp), ?_, ?_⟩
  · have hsorted : (b.pairs.mergeSort fun p q => Text.le p.1 q.1).Pairwise
        fun p q => Text.le p.1 q.1 = true :=
      List.pairwise_mergeSort (fun p q r => Text.le_trans p.1 q.1 r.1)
        (fun p q => Text.le_total p.1 q.1) b.pairs
    have hnodup := List.pairwise_map.mp ((hperm.map Prod.fst).nodup_iff.mpr hsound.pairs_nodup)
    exact pairwise_items (R := fun p q => Text.le p q = true ∧ p ≠ q) (hsorted.and hnodup)
  · intro name shown
    rw [mem_items, ← hsound.shown_iff]
    simp only [hperm.mem_iff]

/-- A bag written in five ways. -/
def sundryWrites : List Write :=
  [.addClass "note".toList, .addId "top".toList,
    .set "class".toList (.list [.str "wide note".toList, .nil]),
    .merge [("data".toList, .map [("rank_of".toList, .str "'1' & <2>".toList)])],
    .addObject ⟨"BlogPost".toList, some "7".toList, 0⟩ none]

theorem readItems?_render_sundry :
    (∀ e ∈ (ofWrites sundryWrites).entries, IsAttributeName e.1) ∧
    ∃ items, readItems? '"' ((ofWrites sundryWrites).render { attrWrapper := '"' }) = some items ∧
      ("class".toList, some "note wide blog_post".toList) ∈ items ∧
      ("id".toList, some "top_blog_post_7".toList) ∈ items ∧
      ("data-rank-of".toList, some "'1' & <2>".toList) ∈ items := by
  have hnames : ∀ e ∈ (ofWrites sundryWrites).entries, IsAttributeName e.1 := by decide
  obtain ⟨items, hread, -, hitems⟩ := (readItems?_render sundryWrites).2 { attrWrapper := '"' }
    (by decide) hnames
  exact ⟨hnames, items, hread, (hitems _ _).mpr (by decide), (hitems _ _).mpr (by decide),
    (hitems _ _).mpr (by decide)⟩

end Bag

end Haml
