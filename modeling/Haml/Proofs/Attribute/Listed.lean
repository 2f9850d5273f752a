import Haml.Attribute.Bag
import Haml.Proofs.Text.Words

/-! Lists written to a bag. As classes, a list is its items written one after the other. As an id,
it is one id, the texts of its items joined, and so comes to the same only where each item's id is
its text and no item is without one. -/

namespace Haml

namespace Text

variable {pieces more : List Text}

/-- The length of texts with one character more for each. -/
def spread : List Text → Nat
  | [] => 0
  | piece :: pieces => piece.length + 1 + spread pieces

theorem spread_cons (piece : Text) (pieces : List Text) :
    spread (piece :: pieces) = piece.length + 1 + spread pieces := rfl

theorem length_flatMap_cons (c : Char) (pieces : List Text) :
    (pieces.flatMap (c :: ·)).length = spread pieces := by
  induction pieces with
  | nil => rfl
  | cons piece pieces ih =>
    rw [List.flatMap_cons, List.length_append, ih, spread_cons, List.length_cons]

theorem length_join (c : Char) (pieces : List Text) :
    (join [c] pieces).length = spread pieces - 1 := by
  cases pieces with
  | nil => rfl
  | cons piece pieces =>
    have hlength : (pieces.flatMap ([c] ++ ·)).length = spread pieces :=
      length_flatMap_cons c pieces
    rw [join_cons, List.length_append, hlength, spread_cons]
    omega

theorem spread_le (h : more.Sublist pieces) : spread more ≤ spread pieces := by
  induction h with
  | slnil => exact Nat.le_refl 0
  | cons piece h ih => exact Nat.le_trans ih (Nat.le_add_left _ _)
  | cons_cons piece h ih => exact Nat.add_le_add_left ih _

/-- No text can be left out without a loss, not even an empty one. -/
theorem eq_of_spread_le (h : more.Sublist pieces) (hspread : spread pieces ≤ spread more) :
    more = pieces := by
  induction h with
  | slnil => rfl
  | cons piece h ih =>
    have hle := spread_le h
    rw [spread_cons] at hspread
    omega
  | cons_cons piece h ih =>
    rw [spread_cons, spread_cons] at hspread
    rw [ih (by omega)]

/-- Several texts joined show what they are joined by. -/
theorem join_ne_join {a b : Char} (hab : a ≠ b) (first second : Text) (pieces : List Text) :
    join [a] (first :: second :: pieces) ≠ join [b] (first :: second :: pieces) := by
  rw [join_cons, join_cons]
  intro heq
  exact hab (List.cons.inj (List.append_cancel_left heq)).1

end Text

open Text (spread)

namespace Value

variable {value : Value} {items : List Value}

/-- Not a list, or one with a single item at most, which is not false. -/
def IsNarrow : Value → Prop
  | list items => items.length ≤ 1 ∧ ∀ item ∈ items, item.isTruthy = true ∨ item.isNil = true
  | _ => True

theorem itemTexts_eq_map (items : List Value) : itemTexts items = items.map text := by
  induction items with
  | nil => rfl
  | cons item items ih => rw [itemTexts, ih, List.map_cons]

theorem idText_list (items : List Value) :
    (list items).idText = Text.join ['_'] ((items.filter isTruthy).map text) := rfl

theorem text_list (items : List Value) :
    (list items).text = Text.join [' '] (items.map text) := by
  rw [text, itemTexts_eq_map]

theorem idText_of_not_isTruthy (h : value.isTruthy = false) : value.idText = [] := by
  cases value with
  | nil => rfl
  | bool b =>
    obtain rfl : b = false := h
    rfl
  | _ => cases h

theorem sublist_truthy_texts (items : List Value) :
    ((items.filter isTruthy).map text).Sublist (items.map text) := List.filter_sublist.map text

theorem isNarrow_of_not_isTruthy (h : ¬value.isTruthy = true) : value.IsNarrow := by
  cases value with
  | nil | bool _ => trivial
  | _ => exact absurd rfl h

theorem length_idText_le (value : Value) : value.idText.length ≤ value.text.length := by
  cases value with
  | list items =>
    have hspread := Text.spread_le (sublist_truthy_texts items)
    rw [idText_list, text_list, Text.length_join, Text.length_join]
    omega
  | bool b => cases b <;> decide
  | nil | int _ | float _ | str _ | map _ | object _ => exact Nat.le_refl _

/-- The id of several items is never their text: either an item is left out of it, or the items have
different separators. -/
theorem idText_ne_text (first second : Value) (rest : List Value) :
    (list (first :: second :: rest)).idText ≠ (list (first :: second :: rest)).text := by
  intro heq
  rw [idText_list, text_list] at heq
  have hspread : spread ((first :: second :: rest).map text) ≤
      spread (((first :: second :: rest).filter isTruthy).map text) := by
    have hlength := congrArg List.length heq
    rw [Text.length_join, Text.length_join] at hlength
    simp only [List.map_cons, Text.spread_cons] at hlength ⊢
    omega
  rw [Text.eq_of_spread_le (sublist_truthy_texts _) hspread] at heq
  exact Text.join_ne_join (by decide) first.text second.text (rest.map text) heq

theorem idText_singleton_iff (item : Value) : (list [item]).idText = (list [item]).text ↔
    item.isTruthy = true ∨ item.isNil = true := by
  rw [idText_list, text_list]
  by_cases h : item.isTruthy = true
  · rw [List.filter_cons_of_pos h]
    exact iff_of_true rfl (.inl h)
  · rw [List.filter_cons_of_neg h]
    cases item with
    | nil => exact iff_of_true rfl (.inr rfl)
    | bool b =>
      obtain rfl : b = false := by simpa [isTruthy] using h
      decide
    | _ => exact absurd rfl h

/-- A value has its text as its id exactly if it is narrow. -/
theorem idText_eq_text_iff (h : value.isTruthy = true) :
    value.idText = value.text ↔ value.IsNarrow := by
  cases value with
  | nil => cases h
  | bool b =>
    obtain rfl : b = true := h
    exact iff_of_true rfl trivial
  | list items =>
    rw [IsNarrow]
    match items with
    | [] => exact iff_of_true rfl ⟨Nat.zero_le 1, nofun⟩
    | [item] =>
      rw [idText_singleton_iff, List.forall_mem_singleton]
      exact (and_iff_right (Nat.le_refl 1)).symm
    | first :: second :: rest =>
      exact iff_of_false (idText_ne_text first second rest) fun hnarrow =>
        absurd hnarrow.1 (by simp)
  | int _ | float _ | str _ | map _ | object _ => exact iff_of_true rfl trivial

end Value

namespace Bag

variable {b : Bag} {items : List Value}

/-- The ids of a bag as they are joined, each behind a separator. -/
def jointIds (ids : List Text) : Text := ids.flatMap ('_' :: ·)

theorem jointIds_append (ids more : List Text) :
    jointIds (ids ++ more) = jointIds ids ++ jointIds more := List.flatMap_append

theorem jointIds_singleton (id : Text) : jointIds [id] = '_' :: id := List.flatMap_singleton ..

theorem length_jointIds (ids : List Text) : (jointIds ids).length = spread ids :=
  Text.length_flatMap_cons '_' ids

theorem jointIds_join (first : Text) (rest : List Text) :
    jointIds [Text.join ['_'] (first :: rest)] = jointIds (first :: rest) := by
  rw [jointIds_singleton, Text.join_cons]
  rfl

theorem id?_eq_iff {c : Bag} : b.id? = c.id? ↔ jointIds b.ids = jointIds c.ids := by
  rw [id?, id?]
  cases hb : b.ids with
  | nil =>
    cases hc : c.ids with
    | nil => exact iff_of_true rfl rfl
    | cons first rest => exact iff_of_false nofun nofun
  | cons first rest =>
    cases hc : c.ids with
    | nil => exact iff_of_false nofun nofun
    | cons second more =>
      rw [← jointIds_join first rest, ← jointIds_join second more, jointIds_singleton,
        jointIds_singleton]
      simp

theorem set_id (b : Bag) (value : Value) :
    b.set "id" value = { b with ids := b.ids ++ [value.idText].filter (!·.isEmpty) } := by
  have hset : b.set "id" value = b.addId value.idText := rfl
  rw [hset, addId]
  by_cases h : value.idText.isEmpty = true
  · rw [if_pos h, List.filter_cons_of_neg (by simp [h]), List.filter_nil, List.append_nil]
  · rw [if_neg h, List.filter_cons_of_pos (by simp [h]), List.filter_nil]

theorem foldl_set_id (b : Bag) (items : List Value) :
    items.foldl (fun b item => b.set "id" item) b =
      { b with ids := b.ids ++ (items.map Value.idText).filter (!·.isEmpty) } := by
  induction items generalizing b with
  | nil => simp
  | cons item items ih =>
    rw [List.foldl_cons, set_id, ih, List.map_cons, List.append_assoc, ← List.filter_append]
    rfl

theorem foldl_set_class (b : Bag) (items : List Value) :
    items.foldl (fun b item => b.set "class" item) b = b.set "class" (.list items) := by
  have hset (b : Bag) (value : Value) :
      b.set "class" value = b.addClassNames value.classNames := rfl
  rw [hset, Value.classNames]
  induction items generalizing b with
  | nil => rfl
  | cons item items ih =>
    rw [List.foldl_cons, ih, hset, Value.itemClassNames, addClassNames, addClassNames,
      addClassNames, List.foldl_append]

theorem idTexts_filter (items : List Value) :
    ((items.filter Value.isTruthy).map Value.idText).filter (!·.isEmpty) =
      (items.map Value.idText).filter (!·.isEmpty) := by
  induction items with
  | nil => rfl
  | cons item items ih =>
    by_cases h : item.isTruthy = true
    · rw [List.filter_cons_of_pos h, List.map_cons, List.map_cons, List.filter_cons,
        List.filter_cons, ih]
    · rw [List.filter_cons_of_neg h, ih, List.map_cons,
        Value.idText_of_not_isTruthy (by simpa using h)]
      rfl

/-- Ids written one by one are no longer than the texts of the values. -/
theorem length_idTexts_le (items : List Value) :
    (jointIds ((items.map Value.idText).filter (!·.isEmpty))).length ≤
      (jointIds (items.map Value.text)).length := by
  rw [length_jointIds, length_jointIds]
  calc spread ((items.map Value.idText).filter (!·.isEmpty))
      ≤ spread (items.map Value.idText) := Text.spread_le List.filter_sublist
    _ ≤ spread (items.map Value.text) := by
      induction items with
      | nil => exact Nat.le_refl 0
      | cons item items ih =>
        have hitem := Value.length_idText_le item
        rw [List.map_cons, List.map_cons, Text.spread_cons, Text.spread_cons]
        omega

theorem jointIds_eq_iff (items : List Value) :
    jointIds ((items.map Value.idText).filter (!·.isEmpty)) = jointIds (items.map Value.text) ↔
      ∀ item ∈ items, item.idText = item.text ∧ item.text ≠ [] := by
  have hcons (id : Text) (ids : List Text) : jointIds (id :: ids) = '_' :: id ++ jointIds ids := rfl
  induction items with
  | nil => exact iff_of_true rfl nofun
  | cons item items ih =>
    have hrest := length_idTexts_le items
    rw [List.forall_mem_cons, List.map_cons, List.map_cons, hcons]
    by_cases hempty : item.idText = []
    · -- An id that is not written is missed, with its separator at least.
      rw [hempty, List.filter_cons_of_neg (by simp)]
      refine iff_of_false (fun heq => ?_) fun h => h.1.2 h.1.1.symm
      have hlength := congrArg List.length heq
      simp only [List.length_append, List.length_cons] at hlength
      omega
    · rw [List.filter_cons_of_pos (by simpa using hempty), hcons]
      constructor
      · intro heq
        have hitem := Value.length_idText_le item
        have hlength := congrArg List.length heq
        simp only [List.length_append, List.length_cons] at hlength
        obtain ⟨htext, hjoint⟩ := List.append_inj heq (by simp only [List.length_cons]; omega)
        have htext := (List.cons.inj htext).2
        exact ⟨⟨htext, htext ▸ hempty⟩, ih.mp hjoint⟩
      · rintro ⟨⟨htext, -⟩, hitems⟩
        rw [htext, ih.mpr hitems]

theorem jointIds_filter_iff (id other : Text) :
    jointIds ([id].filter (!·.isEmpty)) = jointIds ([other].filter (!·.isEmpty)) ↔ id = other := by
  cases id with
  | nil => cases other <;> simp [jointIds]
  | cons c id => cases other <;> simp [jointIds]

/-- A list of ids comes to its items exactly if each of them is narrow and, where several are not
false, has a text. -/
theorem jointIds_list_iff (items : List Value) :
    jointIds ([(Value.list items).idText].filter (!·.isEmpty)) =
      jointIds ((items.map Value.idText).filter (!·.isEmpty)) ↔
    (∀ item ∈ items, item.IsNarrow) ∧ ((items.filter Value.isTruthy).length ≤ 1 ∨
      ∀ item ∈ items, item.isTruthy = true → item.text ≠ []) := by
  have hnarrow : (∀ item ∈ items, item.IsNarrow) ↔
      ∀ item ∈ items.filter Value.isTruthy, item.idText = item.text := by
    simp only [List.mem_filter, and_imp]
    refine forall₂_congr fun item _ => ?_
    by_cases h : item.isTruthy = true
    · rw [Value.idText_eq_text_iff h]
      exact (imp_iff_right h).symm
    · exact iff_of_true (Value.isNarrow_of_not_isTruthy h) fun htruthy => absurd htruthy h
  have htext : (∀ item ∈ items, item.isTruthy = true → item.text ≠ []) ↔
      ∀ item ∈ items.filter Value.isTruthy, item.text ≠ [] := by
    simp only [List.mem_filter, and_imp]
  rw [Value.idText_list, ← idTexts_filter, hnarrow, htext]
  match items.filter Value.isTruthy with
  | [] => exact iff_of_true rfl ⟨nofun, .inl (Nat.zero_le 1)⟩
  | [item] =>
    have hjoin : Text.join ['_'] ([item].map Value.text) = item.text := by
      rw [List.map_singleton, Text.join_cons, List.flatMap_nil, List.append_nil]
    rw [hjoin, List.map_singleton, jointIds_filter_iff, List.forall_mem_singleton, eq_comm]
    exact (and_iff_left (.inl (Nat.le_refl 1))).symm
  | first :: second :: rest =>
    have hlength : ¬(first :: second :: rest).length ≤ 1 := by simp
    have hfilled : Text.join ['_'] ((first :: second :: rest).map Value.text) ≠ [] := by
      simp [Text.join_cons]
    have htexts : (first :: second :: rest).map Value.text =
        first.text :: (second :: rest).map Value.text := rfl
    rw [List.filter_cons_of_pos (by simpa using hfilled), List.filter_nil, htexts, jointIds_join,
      ← htexts, eq_comm, jointIds_eq_iff, or_iff_right hlength]
    exact ⟨fun h => ⟨fun item hitem => (h item hitem).1, fun item hitem => (h item hitem).2⟩,
      fun h item hitem => ⟨h.1 item hitem, h.2 item hitem⟩⟩

/-- Classes written as a list are its items written one by one. An id written as a list is that of
its items exactly if each of them is narrow and, where several are not false, has a text. -/
theorem set_list_iff (b : Bag) (items : List Value) :
    b.set "class" (.list items) = items.foldl (fun b item => b.set "class" item) b ∧
    (b.set "id" (.list items)).classes = (items.foldl (fun b item => b.set "id" item) b).classes ∧
    ((b.set "id" (.list items)).id? = (items.foldl (fun b item => b.set "id" item) b).id? ↔
      (∀ item ∈ items, item.IsNarrow) ∧ ((items.filter Value.isTruthy).length ≤ 1 ∨
        ∀ item ∈ items, item.isTruthy = true → item.text ≠ [])) := by
  rw [foldl_set_class, foldl_set_id, set_id]
  refine ⟨rfl, rfl, ?_⟩
  rw [id?_eq_iff, jointIds_append, jointIds_append, List.append_cancel_left_eq, jointIds_list_iff]

/-- A list among the ids keeps its blanks, and an empty text keeps its separator. -/
theorem set_list_ne_items :
    (¬∀ (b : Bag) (items : List Value),
      (b.set "id" (.list items)).id? = (items.foldl (fun b item => b.set "id" item) b).id?) ∧
    (set {} "id" (.list [.str "a", .list [.str "b", .str "c"]])).id? = some "a_b c".toList ∧
    (set {} "id" (.list [.str "a", .str "", .str "b"])).id? = some "a__b".toList := by
  refine ⟨fun hall => ?_, by decide, by decide⟩
  have hitems := hall {} [.str "a", .list [.str "b", .str "c"]]
  revert hitems
  decide

end Bag

end Haml
