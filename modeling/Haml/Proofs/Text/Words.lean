import Haml.Text.Basic

/-! Pieces of a split text, pieces that are joined, and the order of texts. -/

namespace Haml

theorem not_of_mem_splitOnP {α : Type} {p : α → Bool} {t piece : List α}
    (h : piece ∈ t.splitOnP p) : ∀ c ∈ piece, p c = false := by
  induction t generalizing piece with
  | nil =>
    obtain rfl : piece = [] := by simpa [List.splitOnP_nil] using h
    nofun
  | cons c t ih =>
    rw [List.splitOnP_cons_eq_if_modifyHead] at h
    split at h
    · rcases List.mem_cons.mp h with rfl | h
      · nofun
      · exact ih h
    · next hc =>
      obtain ⟨first, rest, hsplit⟩ := List.exists_cons_of_ne_nil (List.splitOnP_ne_nil p t)
      rw [hsplit] at h ih
      rcases List.mem_cons.mp h with rfl | h
      · exact List.forall_mem_cons.mpr ⟨eq_false_of_ne_true hc, ih List.mem_cons_self⟩
      · exact ih (List.mem_cons_of_mem first h)

namespace Text

/-- A text with no white space in it, and not empty. -/
def IsWord (t : Text) : Prop := t ≠ [] ∧ ∀ c ∈ t, Unicode.isBlank c = false

theorem isWord_iff {t : Text} : IsWord t ↔ t ≠ [] ∧ t.all (!Unicode.isBlank ·) = true := by
  simp [IsWord]

instance : DecidablePred IsWord := fun _ => decidable_of_iff' _ isWord_iff

theorem isWord_of_mem_words {t word : Text} (h : word ∈ words t) : IsWord word := by
  obtain ⟨hmem, hne⟩ := List.mem_filter.mp h
  exact ⟨by simpa using hne, not_of_mem_splitOnP hmem⟩

theorem join_cons (separator piece : Text) (pieces : List Text) :
    join separator (piece :: pieces) = piece ++ pieces.flatMap (separator ++ ·) := by
  induction pieces generalizing piece with
  | nil => simp [join]
  | cons second pieces ih =>
    have hrest := ih second
    rw [join] at hrest ⊢
    rw [List.intercalate_cons_cons, hrest, List.flatMap_cons, List.append_assoc, List.append_assoc]

theorem join_concat (separator : Text) (pieces : List Text) (last : Text) :
    join separator (pieces ++ [last]) = pieces.flatMap (· ++ separator) ++ last := by
  induction pieces with
  | nil => simp [join]
  | cons piece pieces ih =>
    have hne : pieces ++ [last] ≠ [] := by simp
    rw [join] at ih ⊢
    rw [List.cons_append, List.intercalate_cons_of_ne_nil hne, ih, List.flatMap_cons]
    simp

theorem mem_join {c : Char} {separator : Text} {pieces : List Text}
    (h : c ∈ join separator pieces) : c ∈ separator ∨ ∃ piece ∈ pieces, c ∈ piece := by
  cases pieces with
  | nil => cases h
  | cons piece pieces =>
    rw [join_cons] at h
    rcases List.mem_append.mp h with h | h
    · exact .inr ⟨piece, List.mem_cons_self, h⟩
    · obtain ⟨other, hother, hc⟩ := List.mem_flatMap.mp h
      rcases List.mem_append.mp hc with hc | hc
      · exact .inl hc
      · exact .inr ⟨other, List.mem_cons_of_mem _ hother, hc⟩

/-- A word in front of a space is the first word. -/
theorem words_append {word : Text} (h : IsWord word) (rest : Text) :
    words (word ++ ' ' :: rest) = word :: words rest := by
  rw [words, List.splitOnP_append_cons_of_forall_mem h.2 ' ' (by decide),
    List.filter_cons_of_pos (by simpa using h.1), words]

theorem words_of_isWord {word : Text} (h : IsWord word) : words word = [word] := by
  rw [words, List.splitOnP_eq_singleton h.2, List.filter_cons_of_pos (by simpa using h.1),
    List.filter_nil]

/-- Words that are joined by spaces are found again. -/
theorem words_join {pieces : List Text} (h : ∀ piece ∈ pieces, IsWord piece) :
    words (join [' '] pieces) = pieces := by
  induction pieces with
  | nil => rfl
  | cons piece pieces ih =>
    obtain ⟨hpiece, hpieces⟩ := List.forall_mem_cons.mp h
    cases pieces with
    | nil =>
      have hjoin : join [' '] [piece] = piece := by simp [join]
      rw [hjoin, words_of_isWord hpiece]
    | cons second pieces =>
      have hjoin : join [' '] (piece :: second :: pieces) =
          piece ++ ' ' :: join [' '] (second :: pieces) := by
        rw [join, List.intercalate_cons_cons, join, List.append_assoc]
        rfl
      rw [hjoin, words_append hpiece, ih hpieces]

theorem le_cons {a b : Char} {s t : Text} :
    le (a :: s) (b :: t) = true ↔ a.toNat < b.toNat ∨ a = b ∧ le s t = true := by
  simp [le]

theorem le_trans (s t u : Text) (hst : le s t = true) (htu : le t u = true) : le s u = true := by
  induction s generalizing t u with
  | nil => rfl
  | cons a s ih =>
    cases t with
    | nil => cases hst
    | cons b t =>
      cases u with
      | nil => cases htu
      | cons c u =>
        rw [le_cons] at hst htu ⊢
        rcases hst with hab | ⟨rfl, hst⟩
        · rcases htu with hbc | ⟨rfl, -⟩
          · exact .inl (Nat.lt_trans hab hbc)
          · exact .inl hab
        · rcases htu with hac | ⟨rfl, htu⟩
          · exact .inl hac
          · exact .inr ⟨rfl, ih t u hst htu⟩

theorem le_antisymm (s t : Text) (hst : le s t = true) (hts : le t s = true) : s = t := by
  induction s generalizing t with
  | nil =>
    cases t with
    | nil => rfl
    | cons b t => cases hts
  | cons a s ih =>
    cases t with
    | nil => cases hst
    | cons b t =>
      rw [le_cons] at hst hts
      rcases hst with hlt | ⟨rfl, hst⟩
      · rcases hts with hgt | ⟨rfl, -⟩
        · exact absurd hlt (Nat.lt_asymm hgt)
        · exact absurd hlt (Nat.lt_irrefl _)
      · rcases hts with hlt | ⟨-, hts⟩
        · exact absurd hlt (Nat.lt_irrefl _)
        · exact congrArg (a :: ·) (ih t hst hts)

theorem le_total (s t : Text) : (le s t || le t s) = true := by
  induction s generalizing t with
  | nil => rfl
  | cons a s ih =>
    cases t with
    | nil => rfl
    | cons b t =>
      rw [Bool.or_eq_true, le_cons, le_cons]
      rcases Nat.lt_trichotomy a.toNat b.toNat with hlt | heq | hgt
      · exact .inl (.inl hlt)
      · obtain rfl : a = b := Char.toNat_inj.mp heq
        exact (Bool.or_eq_true_iff.mp (ih t)).imp (fun h => .inr ⟨rfl, h⟩) fun h => .inr ⟨rfl, h⟩
      · exact .inr (.inl hgt)

end Text

end Haml
