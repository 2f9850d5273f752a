import Haml.Text.Basic
import Mathlib.Data.List.Infix

/-! Texts under byte offsets. A cut at an offset gives something where the offset lies within the
text and between two characters, and nothing elsewhere; those are the positions that strings in
UTF-8 call valid. Where a text is known to fall into parts, a cut behind a part gives that part. -/

namespace Haml.Text

variable {c : Char} {t u v w : Text} {start stop n : Nat}

/-- The width of a text in bytes. -/
def bytes (t : Text) : Nat := (String.ofList t).utf8ByteSize

@[simp] theorem bytes_nil : bytes [] = 0 := rfl

@[simp] theorem bytes_cons (c : Char) (t : Text) : bytes (c :: t) = c.utf8Size + bytes t := by
  rw [bytes, String.ofList_cons, String.utf8ByteSize_append, String.utf8ByteSize_singleton, bytes]

@[simp] theorem bytes_append (u v : Text) : bytes (u ++ v) = bytes u + bytes v := by
  rw [bytes, String.ofList_append, String.utf8ByteSize_append, bytes, bytes]

theorem bytes_concat (t : Text) (c : Char) : bytes (t ++ [c]) = bytes t + c.utf8Size := by
  rw [bytes_append, bytes_cons, bytes_nil, Nat.add_zero]

theorem bytes_eq_length (h : ∀ c ∈ t, c.utf8Size = 1) : bytes t = t.length := by
  induction t with
  | nil => rfl
  | cons c t ih =>
    obtain ⟨hc, ht⟩ := List.forall_mem_cons.mp h
    rw [bytes_cons, hc, ih ht, List.length_cons, Nat.add_comm]

/-- The text in front of a byte offset. -/
def takeBytes? : Nat → Text → Option Text
  | 0, _ => some []
  | _ + 1, [] => none
  | n + 1, c :: t =>
    if c.utf8Size ≤ n + 1 then (takeBytes? (n + 1 - c.utf8Size) t).map (c :: ·) else none

/-- The text from a byte offset on. -/
def dropBytes? : Nat → Text → Option Text
  | 0, t => some t
  | _ + 1, [] => none
  | n + 1, c :: t => if c.utf8Size ≤ n + 1 then dropBytes? (n + 1 - c.utf8Size) t else none

/-- The text between two byte offsets. -/
def slice? (start stop : Nat) (t : Text) : Option Text :=
  (takeBytes? stop t).bind (dropBytes? start)

/-- A difference of offsets, none below zero. -/
def sub? (m n : Nat) : Option Nat := if n ≤ m then some (m - n) else none

theorem sub?_add (m n : Nat) : sub? (m + n) n = some m := by
  rw [sub?, if_pos (Nat.le_add_left n m), Nat.add_sub_cancel]

@[simp] theorem takeBytes?_zero (t : Text) : takeBytes? 0 t = some [] := by
  cases t <;> rfl

@[simp] theorem dropBytes?_zero (t : Text) : dropBytes? 0 t = some t := by
  cases t <;> rfl

theorem takeBytes?_cons (h : c.utf8Size ≤ n) :
    takeBytes? n (c :: t) = (takeBytes? (n - c.utf8Size) t).map (c :: ·) := by
  have hpos := c.utf8Size_pos
  obtain ⟨m, rfl⟩ : ∃ m, n = m + 1 := ⟨n - 1, by omega⟩
  rw [takeBytes?, if_pos h]

theorem dropBytes?_cons (h : c.utf8Size ≤ n) :
    dropBytes? n (c :: t) = dropBytes? (n - c.utf8Size) t := by
  have hpos := c.utf8Size_pos
  obtain ⟨m, rfl⟩ : ∃ m, n = m + 1 := ⟨n - 1, by omega⟩
  rw [dropBytes?, if_pos h]

theorem dropBytes?_inside (hpos : 0 < n) (h : n < c.utf8Size) : dropBytes? n (c :: t) = none := by
  obtain ⟨m, rfl⟩ : ∃ m, n = m + 1 := ⟨n - 1, by omega⟩
  rw [dropBytes?, if_neg (by omega)]

theorem takeBytes?_append (u v : Text) : takeBytes? (bytes u) (u ++ v) = some u := by
  induction u with
  | nil => exact takeBytes?_zero v
  | cons c u ih =>
    rw [bytes_cons, List.cons_append, takeBytes?_cons (Nat.le_add_right _ _),
      Nat.add_sub_cancel_left, ih]
    rfl

theorem dropBytes?_append (u v : Text) : dropBytes? (bytes u) (u ++ v) = some v := by
  induction u with
  | nil => exact dropBytes?_zero v
  | cons c u ih =>
    rw [bytes_cons, List.cons_append, dropBytes?_cons (Nat.le_add_right _ _),
      Nat.add_sub_cancel_left, ih]

theorem slice?_append (u v w : Text) :
    slice? (bytes u) (bytes (u ++ v)) (u ++ v ++ w) = some v := by
  rw [slice?, takeBytes?_append, Option.bind_some, dropBytes?_append]

theorem eq_append_of_takeBytes? (h : takeBytes? n t = some u) : ∃ v, t = u ++ v ∧ n = bytes u := by
  induction t generalizing n u with
  | nil =>
    cases n with
    | zero =>
      obtain rfl : [] = u := by simpa using h
      exact ⟨[], rfl, rfl⟩
    | succ n => cases h
  | cons c t ih =>
    cases n with
    | zero =>
      obtain rfl : [] = u := by simpa using h
      exact ⟨c :: t, rfl, rfl⟩
    | succ n =>
      rw [takeBytes?] at h
      split at h
      · next hwidth =>
        obtain ⟨u, hu, rfl⟩ := Option.map_eq_some_iff.mp h
        obtain ⟨v, rfl, hn⟩ := ih hu
        exact ⟨v, rfl, by rw [bytes_cons]; omega⟩
      · cases h

theorem eq_append_of_dropBytes? (h : dropBytes? n t = some v) : ∃ u, t = u ++ v ∧ n = bytes u := by
  induction t generalizing n with
  | nil =>
    cases n with
    | zero => exact ⟨[], by simpa [dropBytes?] using h, rfl⟩
    | succ n => cases h
  | cons c t ih =>
    cases n with
    | zero => exact ⟨[], by simpa [dropBytes?] using h, rfl⟩
    | succ n =>
      rw [dropBytes?] at h
      split at h
      · next hwidth =>
        obtain ⟨u, rfl, hn⟩ := ih h
        exact ⟨c :: u, rfl, by rw [bytes_cons]; omega⟩
      · cases h

/-- The valid positions of a string are the widths of its front parts. -/
theorem isValid_iff :
    String.Pos.Raw.IsValid (String.ofList t) ⟨n⟩ ↔ ∃ u v, t = u ++ v ∧ n = bytes u := by
  rw [String.Pos.Raw.isValid_ofList]
  constructor
  · rintro ⟨i, hi⟩
    exact ⟨t.take i, t.drop i, (List.take_append_drop i t).symm, hi⟩
  · rintro ⟨u, v, rfl, rfl⟩
    exact ⟨u.length, by rw [List.take_left]; rfl⟩

/-- A text can be cut at the valid positions of the string it is. -/
theorem isSome_takeBytes?_iff :
    (takeBytes? n t).isSome ↔ String.Pos.Raw.IsValid (String.ofList t) ⟨n⟩ := by
  rw [isValid_iff]
  constructor
  · intro h
    obtain ⟨u, hu⟩ := Option.isSome_iff_exists.mp h
    obtain ⟨v, ht, hn⟩ := eq_append_of_takeBytes? hu
    exact ⟨u, v, ht, hn⟩
  · rintro ⟨u, v, rfl, rfl⟩
    rw [takeBytes?_append]
    rfl

theorem isSome_dropBytes?_iff :
    (dropBytes? n t).isSome ↔ String.Pos.Raw.IsValid (String.ofList t) ⟨n⟩ := by
  rw [isValid_iff]
  constructor
  · intro h
    obtain ⟨v, hv⟩ := Option.isSome_iff_exists.mp h
    obtain ⟨u, ht, hn⟩ := eq_append_of_dropBytes? hv
    exact ⟨u, v, ht, hn⟩
  · rintro ⟨u, v, rfl, rfl⟩
    rw [dropBytes?_append]
    rfl

/-- Of two front parts of a text, the narrower one is a front part of the wider one. -/
theorem prefix_of_bytes_le (hu : u <+: t) (hv : v <+: t) (h : bytes u ≤ bytes v) : u <+: v := by
  rcases List.prefix_or_prefix_of_prefix hu hv with huv | ⟨rest, rfl⟩
  · exact huv
  · cases rest with
    | nil => simp
    | cons c rest =>
      have hpos := c.utf8Size_pos
      simp only [bytes_append, bytes_cons] at h
      omega

/-- A text can be cut between two offsets that are in order and valid in the string it is. -/
theorem isSome_slice?_iff :
    (slice? start stop t).isSome ↔ start ≤ stop ∧
      String.Pos.Raw.IsValid (String.ofList t) ⟨start⟩ ∧
        String.Pos.Raw.IsValid (String.ofList t) ⟨stop⟩ := by
  rw [isValid_iff, isValid_iff]
  constructor
  · intro h
    obtain ⟨piece, hpiece⟩ := Option.isSome_iff_exists.mp h
    obtain ⟨front, hfront, hdrop⟩ := Option.bind_eq_some_iff.mp hpiece
    obtain ⟨back, rfl, rfl⟩ := eq_append_of_takeBytes? hfront
    obtain ⟨u, rfl, rfl⟩ := eq_append_of_dropBytes? hdrop
    exact ⟨by simp, ⟨u, piece ++ back, by simp, rfl⟩, ⟨u ++ piece, back, rfl, rfl⟩⟩
  · rintro ⟨hle, ⟨u, rest, hu, rfl⟩, ⟨front, back, rfl, rfl⟩⟩
    obtain ⟨piece, rfl⟩ := prefix_of_bytes_le ⟨rest, hu.symm⟩ ⟨back, rfl⟩ hle
    rw [slice?_append]
    rfl

/-- The byte offset of the first character of a kind. -/
def firstOffset? (p : Char → Bool) : Text → Option Nat
  | [] => none
  | c :: t => if p c then some 0 else (firstOffset? p t).map (c.utf8Size + ·)

/-- The byte offset of the last place where a word stands in a text. -/
def lastOffset? (word : Text) : Text → Option Nat
  | [] => none
  | c :: t =>
    ((lastOffset? word t).map (c.utf8Size + ·)).or
      (if word.isPrefixOf (c :: t) then some 0 else none)

/-- A text can be cut behind the run of a kind at its start. -/
theorem takeBytes?_takeWhile (p : Char → Bool) (t : Text) :
    takeBytes? (bytes (t.takeWhile p)) t = some (t.takeWhile p) := by
  have htake := takeBytes?_append (t.takeWhile p) (t.dropWhile p)
  rwa [List.takeWhile_append_dropWhile] at htake

theorem dropBytes?_takeWhile (p : Char → Bool) (t : Text) :
    dropBytes? (bytes (t.takeWhile p)) t = some (t.dropWhile p) := by
  have hdrop := dropBytes?_append (t.takeWhile p) (t.dropWhile p)
  rwa [List.takeWhile_append_dropWhile] at hdrop

/-- Behind the character that ends a run. -/
theorem dropBytes?_past {p : Char → Bool} (h : t.dropWhile p = c :: v) :
    dropBytes? (bytes (t.takeWhile p) + c.utf8Size) t = some v := by
  have hsplit := List.takeWhile_append_dropWhile (p := p) (l := t)
  have hdrop := dropBytes?_append (t.takeWhile p ++ [c]) v
  rwa [bytes_concat, List.append_assoc, List.singleton_append, ← h, hsplit] at hdrop

theorem firstOffset?_eq_none {p : Char → Bool} (h : t.dropWhile (!p ·) = []) :
    firstOffset? p t = none := by
  induction t with
  | nil => rfl
  | cons c t ih =>
    by_cases hc : p c = true
    · simp [hc] at h
    · rw [firstOffset?, if_neg hc, ih (by simpa [hc] using h)]
      rfl

theorem firstOffset?_eq_some {p : Char → Bool} (h : t.dropWhile (!p ·) ≠ []) :
    firstOffset? p t = some (bytes (t.takeWhile (!p ·))) := by
  induction t with
  | nil => exact absurd rfl h
  | cons c t ih =>
    by_cases hc : p c = true
    · simp [firstOffset?, hc]
    · rw [firstOffset?, if_neg hc, ih (by simpa [hc] using h)]
      simp [hc]

/-- The last place of a word is in front of the word and what follows it. -/
theorem lastOffset?_cases (word t : Text) :
    (lastOffset? word t = none ∧ afterLast word t = none) ∨
      ∃ front after, t = front ++ word ++ after ∧ lastOffset? word t = some (bytes front) ∧
        afterLast word t = some after := by
  induction t with
  | nil => exact .inl ⟨rfl, rfl⟩
  | cons c t ih =>
    rw [lastOffset?, afterLast, ← List.isSome_isPrefixOf?_eq_isPrefixOf]
    rcases ih with ⟨hoffset, hafter⟩ | ⟨front, after, rfl, hoffset, hafter⟩
    · rw [hoffset, hafter]
      cases hprefix : word.isPrefixOf? (c :: t) with
      | none => exact .inl ⟨rfl, rfl⟩
      | some after =>
        exact .inr ⟨[], after, (List.append_eq_of_isPrefixOf?_eq_some hprefix).symm, rfl, rfl⟩
    · rw [hoffset, hafter]
      exact .inr ⟨c :: front, after, rfl, by rw [bytes_cons]; rfl, rfl⟩

end Haml.Text
