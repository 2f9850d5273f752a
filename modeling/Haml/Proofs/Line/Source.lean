import Haml.Line.Physical
import Mathlib.Data.List.Forall2

/-! Sources as numbered lines. Lines that are written out, each with a line feed at its end, are read
back, with the numbers from the first one on. -/

namespace Haml

namespace Text

/-- Neither character of a line ending occurs. -/
def OneLine (t : Text) : Prop := ∀ c ∈ t, c ≠ '\n' ∧ c ≠ '\r'

instance (t : Text) : Decidable (OneLine t) :=
  decidable_of_iff (t.all fun c => c != '\n' && c != '\r') (by simp [OneLine])

variable {t : Text}

theorem lines_cons_of_head? {c : Char} {rest : Text} (hfeed : c ≠ '\n')
    (hreturn : c = '\r' → rest.head? ≠ some '\n') : lines (c :: rest) = match lines rest with
      | [] => [[c]]
      | line :: more => (c :: line) :: more := by
  rw [lines.eq_def]
  split
  · next hnil => cases hnil
  · next heq => exact absurd (List.cons.inj heq).1 hfeed
  · next heq =>
    obtain ⟨rfl, rfl⟩ := List.cons.inj heq
    exact absurd rfl (hreturn rfl)
  · next heq =>
    obtain ⟨rfl, rfl⟩ := List.cons.inj heq
    rfl

theorem lines_cons {c : Char} (hc : c ≠ '\n' ∧ c ≠ '\r') (rest : Text) :
    lines (c :: rest) = match lines rest with
      | [] => [[c]]
      | line :: more => (c :: line) :: more :=
  lines_cons_of_head? hc.1 fun h => absurd h hc.2

theorem lines_append (h : OneLine t) (rest : Text) :
    lines (t ++ '\n' :: rest) = t :: lines rest := by
  induction t with
  | nil => rw [List.nil_append, lines]
  | cons c t ih =>
    obtain ⟨hc, ht⟩ := List.forall_mem_cons.mp h
    rw [List.cons_append, lines_cons hc, ih ht]

/-- A line without a line feed is read up to a carriage return at its end. -/
theorem exists_lines_append (h : '\n' ∉ t) (rest : Text) :
    ∃ u, lines (t ++ '\n' :: rest) = u :: lines rest ∧ (t = u ∨ t = u ++ ['\r']) := by
  induction t with
  | nil => exact ⟨[], by rw [List.nil_append, lines], .inl rfl⟩
  | cons c t ih =>
    obtain ⟨hc, ht⟩ := List.ne_and_not_mem_of_not_mem_cons h
    by_cases hreturn : c = '\r' ∧ t = []
    · obtain ⟨rfl, rfl⟩ := hreturn
      exact ⟨[], by rw [List.singleton_append, lines], .inr rfl⟩
    · obtain ⟨u, hu, htail⟩ := ih ht
      refine ⟨c :: u, ?_, ?_⟩
      · rw [List.cons_append, lines_cons_of_head? (Ne.symm hc), hu]
        intro heq hhead
        cases t with
        | nil => exact hreturn ⟨heq, rfl⟩
        | cons d t =>
          obtain rfl : d = '\n' := Option.some.inj hhead
          exact ht List.mem_cons_self
      · rcases htail with rfl | rfl
        · exact .inl rfl
        · exact .inr rfl

theorem lines_of_not_mem (h : '\n' ∉ t) (hne : t ≠ []) : lines t = [t] := by
  induction t with
  | nil => exact absurd rfl hne
  | cons c t ih =>
    obtain ⟨hc, ht⟩ := List.ne_and_not_mem_of_not_mem_cons h
    rw [lines_cons_of_head? (Ne.symm hc) fun _ hhead => ht (List.mem_of_mem_head? hhead)]
    cases t with
    | nil => rw [lines]
    | cons d t => rw [ih ht (List.cons_ne_nil d t)]

theorem lines_of_oneLine (h : OneLine t) (hne : t ≠ []) : lines t = [t] :=
  lines_of_not_mem (fun hmem => (h _ hmem).1 rfl) hne

theorem lines_flatMap {texts : List Text} (h : ∀ t ∈ texts, OneLine t) :
    lines (texts.flatMap (· ++ ['\n'])) = texts := by
  induction texts with
  | nil => rfl
  | cons t rest ih =>
    obtain ⟨ht, hrest⟩ := List.forall_mem_cons.mp h
    rw [List.flatMap_cons, List.append_assoc, List.singleton_append, lines_append ht, ih hrest]

/-- Lines one behind the other, with or without a line feed at the end, are read up to carriage
returns in front of line feeds. -/
theorem forall₂_lines {first : Text} {more : List Text} (hfree : ∀ t ∈ first :: more, '\n' ∉ t)
    (hlast : ∀ t ∈ (first :: more).getLast?, t ≠ []) {ending : Text}
    (hending : ending = [] ∨ ending = ['\n']) :
    List.Forall₂ (fun t u => t = u ∨ t = u ++ ['\r']) (first :: more)
      (lines (first ++ more.flatMap ('\n' :: ·) ++ ending)) := by
  induction more generalizing first with
  | nil =>
    have hfirst : '\n' ∉ first := hfree first List.mem_cons_self
    rw [List.flatMap_nil, List.append_nil]
    rcases hending with rfl | rfl
    · rw [List.append_nil, lines_of_not_mem hfirst (hlast first rfl)]
      exact .cons (.inl rfl) .nil
    · obtain ⟨u, hu, hcases⟩ := exists_lines_append hfirst []
      rw [hu, lines]
      exact .cons hcases .nil
  | cons t more ih =>
    obtain ⟨hfirst, hmore⟩ := List.forall_mem_cons.mp hfree
    obtain ⟨u, hu, hcases⟩ := exists_lines_append hfirst (t ++ more.flatMap ('\n' :: ·) ++ ending)
    have hsource : first ++ (t :: more).flatMap ('\n' :: ·) ++ ending =
        first ++ '\n' :: (t ++ more.flatMap ('\n' :: ·) ++ ending) := by simp
    rw [hsource, hu]
    exact .cons hcases (ih hmore hlast)

end Text

namespace PhysicalLine

theorem numbered_append (n : Nat) (first last : List Text) :
    numbered n (first ++ last) = numbered n first ++ numbered (n + first.length) last := by
  induction first generalizing n with
  | nil => rfl
  | cons t first ih =>
    rw [List.cons_append, numbered, numbered, ih, List.length_cons, Nat.add_right_comm]
    rfl

theorem map_number_numbered (n : Nat) (texts : List Text) :
    (numbered n texts).map number = List.range' n texts.length := by
  induction texts generalizing n with
  | nil => rfl
  | cons text rest ih => rw [numbered, List.map_cons, ih, List.length_cons, List.range'_succ]

end PhysicalLine

end Haml
