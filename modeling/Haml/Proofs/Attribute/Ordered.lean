import Haml.Proofs.Attribute.Sound

/-! The order of writing is not seen in what is rendered. Writing one name leaves the entries under
all others as they are, so that writes of different names come to the same entries in whatever order
they are done, though not in the same places. Sorting by name undoes the difference in places: it
keeps entries of one name in order, and a sorted list is known by its entries under each name. -/

namespace Haml

section Under

variable {α : Type} {us vs : List (Text × α)}

/-- The entries under one name, in order. -/
def under (name : Text) (entries : List (Text × α)) : List (Text × α) :=
  entries.filter fun e => e.1 = name

theorem under_append (name : Text) (us vs : List (Text × α)) :
    under name (us ++ vs) = under name us ++ under name vs := List.filter_append us vs

theorem under_cons_self (e : Text × α) (us : List (Text × α)) :
    under e.1 (e :: us) = e :: under e.1 us := List.filter_cons_of_pos (by simp)

theorem under_cons_of_ne {name : Text} {e : Text × α} (h : e.1 ≠ name) (us : List (Text × α)) :
    under name (e :: us) = under name us := List.filter_cons_of_neg (by simpa using h)

theorem under_eq_nil {name : Text} (h : name ∉ us.map Prod.fst) : under name us = [] :=
  List.filter_eq_nil_iff.mpr fun e he heq => h (List.mem_map.mpr ⟨e, he, by simpa using heq⟩)

/-- A name that heads one list has an entry in the other. -/
theorem exists_mem_of_under {e : Text × α} (h : ∀ name, under name (e :: us) = under name vs) :
    ∃ f ∈ vs, f.1 = e.1 := by
  have hmem : e ∈ under e.1 vs := h e.1 ▸ under_cons_self e us ▸ List.mem_cons_self
  exact ⟨e, List.mem_of_mem_filter hmem, rfl⟩

theorem under_insertEntry (key name : Text) (value : α) (entries : List (Text × α)) :
    under name (insertEntry key value entries) =
      if key = name then insertEntry key value (under name entries) else under name entries := by
  induction entries with
  | nil =>
    split
    · next h => exact h ▸ under_cons_self (key, value) []
    · next h => exact under_cons_of_ne h []
  | cons entry entries ih =>
    obtain ⟨k, v⟩ := entry
    rw [insertEntry]
    by_cases hk : k = key
    · subst hk
      rw [if_pos rfl]
      split
      · next h =>
        subst h
        rw [under_cons_self (k, value), under_cons_self (k, v), insertEntry, if_pos rfl]
      · next h => rw [under_cons_of_ne h, under_cons_of_ne h]
    · rw [if_neg hk]
      by_cases hname : k = name
      · subst hname
        rw [under_cons_self (k, v), ih, if_neg (Ne.symm hk), if_neg (Ne.symm hk),
          under_cons_self (k, v)]
      · rw [under_cons_of_ne hname, under_cons_of_ne hname, ih]

/-- Sorted by name. -/
abbrev SortedByName (entries : List (Text × α)) : Prop :=
  entries.Pairwise fun p q => Text.le p.1 q.1 = true

theorem sortedByName_mergeSort (entries : List (Text × α)) :
    SortedByName (entries.mergeSort fun p q => Text.le p.1 q.1) :=
  List.pairwise_mergeSort (fun p q r => Text.le_trans p.1 q.1 r.1)
    (fun p q => Text.le_total p.1 q.1) entries

/-- Sorting by name is stable. -/
theorem under_mergeSort (name : Text) (entries : List (Text × α)) :
    under name (entries.mergeSort fun p q => Text.le p.1 q.1) = under name entries := by
  have hsorted : SortedByName (under name entries) := by
    refine List.pairwise_of_forall_mem_list fun p hp q hq => ?_
    have hp : p.1 = name := by simpa using List.of_mem_filter hp
    have hq : q.1 = name := by simpa using List.of_mem_filter hq
    rw [hp, hq]
    simpa using Text.le_total name name
  have hkept : (under name entries).Sublist (entries.mergeSort fun p q => Text.le p.1 q.1) :=
    List.sublist_mergeSort (fun p q r => Text.le_trans p.1 q.1 r.1)
      (fun p q => Text.le_total p.1 q.1) hsorted List.filter_sublist
  have hunder := hkept.filter fun e => e.1 = name
  rw [under, List.filter_filter] at hunder
  simp only [Bool.and_self] at hunder
  exact (hunder.eq_of_length ((List.mergeSort_perm entries _).filter _).length_eq.symm).symm

/-- A list sorted by name is known by its entries under each name. -/
theorem SortedByName.eq_of_under (hus : SortedByName us) (hvs : SortedByName vs)
    (h : ∀ name, under name us = under name vs) : us = vs := by
  induction us generalizing vs with
  | nil =>
    cases vs with
    | nil => rfl
    | cons v vs => exact absurd (under_cons_self v vs) (h v.1 ▸ nofun)
  | cons u us ih =>
    cases vs with
    | nil => exact absurd (under_cons_self u us) (h u.1 ▸ nofun)
    | cons v vs =>
      obtain ⟨hu, husorted⟩ := List.pairwise_cons.mp hus
      obtain ⟨hv, hvsorted⟩ := List.pairwise_cons.mp hvs
      have hle {e : Text × α} {es : List (Text × α)} (hes : ∀ f ∈ es, Text.le e.1 f.1 = true) :
          ∀ f ∈ e :: es, Text.le e.1 f.1 = true :=
        List.forall_mem_cons.mpr ⟨by simpa using Text.le_total e.1 e.1, hes⟩
      -- Each head has an entry in the other list, where the head comes first.
      have hname : u.1 = v.1 := by
        obtain ⟨f, hf, hfu⟩ := exists_mem_of_under h
        obtain ⟨g, hg, hgv⟩ := exists_mem_of_under fun name => (h name).symm
        exact Text.le_antisymm u.1 v.1 (hgv ▸ hle hu g hg) (hfu ▸ hle hv f hf)
      have hhead : u :: under u.1 us = v :: under u.1 vs := by
        have hsame := h u.1
        rw [under_cons_self] at hsame
        rwa [hname, under_cons_self, ← hname] at hsame
      obtain ⟨rfl, -⟩ := List.cons.inj hhead
      refine congrArg (u :: ·) (ih husorted hvsorted fun name => ?_)
      by_cases hu : u.1 = name
      · subst hu
        exact (List.cons.inj hhead).2
      · have hsame := h name
        rwa [under_cons_of_ne hu, under_cons_of_ne hu] at hsame

theorem mergeSort_eq_of_under (h : ∀ name, under name us = under name vs) :
    (us.mergeSort fun p q => Text.le p.1 q.1) = vs.mergeSort fun p q => Text.le p.1 q.1 :=
  (sortedByName_mergeSort us).eq_of_under (sortedByName_mergeSort vs) fun name => by
    rw [under_mergeSort, under_mergeSort, h]

end Under

namespace Bag

/-- The attributes that one write comes to: the leaves of what is written to `data`, and any other
value under the name it is written to. -/
def expanded (w : Text × Value) : List (Text × Value) :=
  if w.1 = "data".toList then w.2.leaves w.1 else [w]

/-- The names that one write writes. -/
def written (w : Text × Value) : List Text := (expanded w).map Prod.fst

variable {b c : Bag} {writes writes' : List (Text × Value)}

theorem insertAll_append (b : Bag) (us vs : List (Text × Value)) :
    b.insertAll (us ++ vs) = (b.insertAll us).insertAll vs := List.foldl_append

theorem set_eq_insertAll {w : Text × Value} (h : ¬ IsReserved w.1) (b : Bag) :
    b.set w.1 w.2 = b.insertAll (expanded w) := by
  obtain ⟨hclass, hid⟩ := not_or.mp h
  rw [set, if_neg hclass, if_neg hid, expanded]
  split <;> rfl

theorem merge_eq_insertAll (b : Bag) (h : ∀ w ∈ writes, ¬ IsReserved w.1) :
    b.merge writes = b.insertAll (writes.flatMap expanded) := by
  induction writes generalizing b with
  | nil => rfl
  | cons w writes ih =>
    obtain ⟨hw, hwrites⟩ := List.forall_mem_cons.mp h
    rw [List.flatMap_cons, insertAll_append, ← set_eq_insertAll hw]
    exact ih _ hwrites

/-- The bag with the entries under one name only. -/
def only (b : Bag) (name : Text) : Bag := { b with entries := under name b.entries }

theorem only_insert (b : Bag) (name : Text) (w : Text × Value) :
    (b.insert w.1 w.2).only name = (b.only name).insertAll (under name [w]) := by
  rw [only, insert, under_insertEntry]
  split
  · next h =>
    subst h
    have hself : under w.1 [w] = [w] := under_cons_self w []
    rw [hself]
    rfl
  · next h =>
    have hnil : under name [w] = [] := under_cons_of_ne h []
    rw [hnil]
    rfl

/-- What is written under a name depends on nothing that is written under others. -/
theorem only_insertAll (b : Bag) (name : Text) (us : List (Text × Value)) :
    (b.insertAll us).only name = (b.only name).insertAll (under name us) := by
  induction us generalizing b with
  | nil => rfl
  | cons u us ih =>
    have hsplit : under name (u :: us) = under name [u] ++ under name us :=
      under_append name [u] us
    rw [hsplit, insertAll_append, ← only_insert]
    exact ih (b.insert u.1 u.2)

theorem render_eq_of_only (o : Options) (h : ∀ name, b.only name = c.only name) :
    b.render o = c.render o := by
  have hclasses : b.classes = c.classes :=
    show (b.only []).classes = (c.only []).classes by rw [h]
  have hids : b.ids = c.ids := show (b.only []).ids = (c.only []).ids by rw [h]
  have hentries (name : Text) : under name b.entries = under name c.entries :=
    congrArg Bag.entries (h name)
  have hpairs (name : Text) : under name b.pairs = under name c.pairs := by
    rw [pairs, pairs, id?, id?, hclasses, hids, under_append, hentries, ← under_append]
  rw [render, render, mergeSort_eq_of_under hpairs]

/-- Writes of different names can be done in any order, as far as one name is concerned. -/
theorem under_expanded_perm (name : Text) (hperm : writes.Perm writes')
    (hdistinct : writes.Pairwise fun v w => List.Disjoint (written v) (written w)) :
    under name (writes.flatMap expanded) = under name (writes'.flatMap expanded) := by
  induction hperm with
  | nil => rfl
  | cons w _ ih =>
    rw [List.flatMap_cons, List.flatMap_cons, under_append, under_append, ih hdistinct.of_cons]
  | swap v w rest =>
    have hvw : List.Disjoint (written w) (written v) :=
      (List.pairwise_cons.mp hdistinct).1 v List.mem_cons_self
    have hcomm : under name (expanded w) ++ under name (expanded v) =
        under name (expanded v) ++ under name (expanded w) := by
      by_cases hmem : name ∈ written w
      · rw [under_eq_nil (hvw hmem), List.nil_append, List.append_nil]
      · rw [under_eq_nil hmem, List.nil_append, List.append_nil]
    simp only [List.flatMap_cons, under_append]
    rw [← List.append_assoc, hcomm, List.append_assoc]
  | trans hperm _ ih ih' =>
    have hdistinct' := (hperm.pairwise_iff List.disjoint_comm.mp).mp hdistinct
    exact (ih hdistinct).trans (ih' hdistinct')

/-- Attributes render the same in whatever order they are written, if no two writes write the same
name. -/
theorem render_merge_perm (b : Bag) (o : Options) (hperm : writes.Perm writes')
    (hplain : ∀ w ∈ writes, ¬ IsReserved w.1)
    (hdistinct : writes.Pairwise fun v w => List.Disjoint (written v) (written w)) :
    (b.merge writes).render o = (b.merge writes').render o := by
  have hplain' : ∀ w ∈ writes', ¬ IsReserved w.1 := fun w hw => hplain w (hperm.mem_iff.mpr hw)
  rw [merge_eq_insertAll b hplain, merge_eq_insertAll b hplain']
  refine render_eq_of_only o fun name => ?_
  rw [only_insertAll, only_insertAll, under_expanded_perm name hperm hdistinct]

/-- A nested map and two other writes, done in both directions. -/
theorem render_merge_perm_data :
    let nested := ("data".toList, Value.map
      [("to_do".toList, .map [("id".toList, .int 1)]), ("x".toList, .bool true)])
    let writes := [("title".toList, .nil), nested, ("href".toList, .str "/")]
    (∀ w ∈ writes, ¬ IsReserved w.1) ∧
    (writes.Pairwise fun v w => List.Disjoint (written v) (written w)) ∧
    writes.flatMap written = ["title", "data-to-do-id", "data-x", "href"] ∧
    (merge {} writes).render {} = (merge {} writes.reverse).render {} := by
  intro nested writes
  have hplain : ∀ w ∈ writes, ¬ IsReserved w.1 := by
    simp only [IsReserved]
    decide
  have hdistinct : writes.Pairwise fun v w => List.Disjoint (written v) (written w) := by
    simp only [List.Disjoint]
    decide
  exact ⟨hplain, hdistinct, by decide,
    render_merge_perm {} {} (List.reverse_perm writes).symm hplain hdistinct⟩

end Bag

end Haml
