import Haml.Proofs.Header.Passed
import Haml.Proofs.Position.Bytes
import Haml.Proofs.Position.Index

/-! Cutting the inside of a group at its commas. The reader that cuts counts brackets below zero
where it has to, and tells an escaped character in a string by its state; the reader that looked for
the end of the group counts upwards only and steps over escaped characters. On what stands inside a
group the two are at the same place in front of every character. -/

namespace Haml

/-- A place in a text as the reader that cuts at commas knows it. -/
structure Spot where
  depth : Int
  quote : Quote
  deriving DecidableEq, Repr

namespace Spot

/-- Outside all brackets and strings. -/
def free : Spot := ⟨0, .outside⟩

def step (spot : Spot) (c : Char) : Spot where
  depth :=
    if spot.quote ≠ .outside then spot.depth
    else if Brackets.all.opens c then spot.depth + 1
    else if Brackets.all.closes c then spot.depth - 1
    else spot.depth
  quote := spot.quote.next c

/-- The place behind a text. -/
def after (spot : Spot) (t : Text) : Spot := t.foldl step spot

variable {spot : Spot} {c : Char} {t u : Text} {depth d : Nat} {quote q : Quote}

theorem after_append (spot : Spot) (u t : Text) :
    spot.after (u ++ t) = (spot.after u).after t := List.foldl_append

theorem step_of_open (h : ¬(quote = .outside ∧ Brackets.all.closes c = true ∧ depth = 0)) :
    step ⟨depth, quote⟩ c = ⟨Brackets.all.depthAfter quote depth c, quote.next c⟩ := by
  rw [step, Brackets.depthAfter]
  split
  · rfl
  · split
    · rfl
    · split
      · have hdepth : depth ≠ 0 := by
          rintro rfl
          simp_all
        simp only [mk.injEq, and_true]
        omega
      · rfl

/-- A text that closes no bracket but its own leaves both readers at one place. -/
theorem after_of_after? (h : Brackets.all.after? depth quote t = some (d, q)) :
    after ⟨depth, quote⟩ t = ⟨d, q⟩ := by
  induction t generalizing depth quote with
  | nil =>
    obtain ⟨rfl, rfl⟩ : depth = d ∧ quote = q := by simpa [Brackets.after?] using h
    rfl
  | cons c t ih =>
    rw [Brackets.after?] at h
    split at h
    · cases h
    · next hc =>
      rw [after, List.foldl_cons, step_of_open hc]
      exact ih h

theorem depth_nonneg (h : Brackets.all.Closed t) (hfront : u <+: t) :
    0 ≤ (free.after u).depth := by
  obtain ⟨rest, rfl⟩ := hfront
  rw [Brackets.Closed, Brackets.after?_append] at h
  obtain ⟨⟨d, q⟩, hu, -⟩ := Option.bind_eq_some_iff.mp h
  have hafter : free.after u = ⟨d, q⟩ := after_of_after? hu
  rw [hafter]
  exact Int.natCast_nonneg d

/-- Where a comma ends a piece. -/
def Cuts (spot : Spot) (c : Char) : Prop := spot.quote = .outside ∧ c = ',' ∧ spot.depth = 0

instance (spot : Spot) (c : Char) : Decidable (spot.Cuts c) :=
  inferInstanceAs (Decidable (_ ∧ _ ∧ _))

theorem Cuts.eq (h : spot.Cuts c) : spot = free ∧ c = ',' := by
  obtain ⟨depth, quote⟩ := spot
  obtain ⟨rfl, rfl, rfl⟩ := h
  exact ⟨rfl, rfl⟩

end Spot

theorem splitCommas_cut (t : Text) : splitCommas 0 .outside (',' :: t) =
    [] :: splitCommas 0 .outside t := by
  rw [splitCommas, if_pos ⟨rfl, rfl, rfl⟩]

theorem splitCommas_step {spot : Spot} {c : Char} (h : ¬spot.Cuts c) (t : Text) :
    splitCommas spot.depth spot.quote (c :: t) =
      prepend [c] (splitCommas (spot.step c).depth (spot.step c).quote t) := by
  rw [Spot.Cuts] at h
  rw [splitCommas, if_neg h]
  dsimp only
  split
  · next hpieces =>
    change splitCommas (spot.step c).depth (spot.step c).quote t = _ at hpieces
    rw [hpieces]
    rfl
  · next hpieces =>
    change splitCommas (spot.step c).depth (spot.step c).quote t = _ at hpieces
    rw [hpieces]
    rfl

theorem prepend_nil {pieces : List Text} (h : pieces ≠ []) : prepend [] pieces = pieces := by
  cases pieces with
  | nil => exact absurd rfl h
  | cons piece more => rfl

theorem Text.join_prepend (t : Text) (pieces : List Text) :
    Text.join [','] (prepend t pieces) = t ++ Text.join [','] pieces := by
  match pieces with
  | [] => simp [prepend, Text.join]
  | [piece] => simp [prepend, Text.join]
  | piece :: next :: more => simp [prepend, Text.join, List.intercalate_cons_cons]

/-- The pieces of a text with their commas are the text. -/
theorem join_splitCommas (spot : Spot) (t : Text) :
    Text.join [','] (splitCommas spot.depth spot.quote t) = t := by
  induction t generalizing spot with
  | nil => rfl
  | cons c t ih =>
    by_cases hcut : spot.Cuts c
    · obtain ⟨rfl, rfl⟩ := hcut.eq
      obtain ⟨piece, more, hpieces⟩ :=
        List.exists_cons_of_ne_nil (splitCommas_ne_nil 0 .outside t)
      have hrest := ih Spot.free
      change Text.join [','] (splitCommas 0 .outside (',' :: t)) = ',' :: t
      change Text.join [','] (splitCommas 0 .outside t) = t at hrest
      rw [splitCommas_cut, hpieces, Text.join, List.intercalate_cons_cons]
      rw [hpieces, Text.join] at hrest
      rw [hrest]
      rfl
    · rw [splitCommas_step hcut, Text.join_prepend, ih]
      rfl

/-- Every comma of the text is inside its brackets or strings. -/
def Sheltered (t : Text) : Prop := ∀ front rest, t = front ++ ',' :: rest →
  (Spot.free.after front).quote = .outside → 0 < (Spot.free.after front).depth

theorem sheltered_nil : Sheltered [] := by
  intro front rest h
  simp at h

theorem Sheltered.concat {t : Text} {c : Char} (ht : Sheltered t)
    (hc : c = ',' → (Spot.free.after t).quote = .outside → 0 < (Spot.free.after t).depth) :
    Sheltered (t ++ [c]) := by
  intro front rest hsplit
  rcases List.eq_nil_or_concat' rest with rfl | ⟨rest, last, rfl⟩
  · obtain ⟨rfl, hcomma⟩ := List.append_inj' hsplit rfl
    exact hc (List.cons.inj hcomma).1
  · have hsplit' : t ++ [c] = (front ++ ',' :: rest) ++ [last] := by
      rw [hsplit, List.append_assoc, List.cons_append]
    exact ht front rest (List.append_inj' hsplit' rfl).1

/-- A text that its own brackets and strings leave where it began, its commas sheltered. -/
structure IsPiece (t : Text) : Prop where
  ends : Spot.free.after t = Spot.free
  sheltered : Sheltered t

/-- Behind the beginning of a piece, the cuts in text that closes all its brackets and strings give
pieces. -/
theorem isPiece_of_mem {piece t u : Text} {d : Nat} {q : Quote}
    (hplace : Spot.free.after u = ⟨d, q⟩) (hu : Sheltered u)
    (ht : Brackets.all.after? d q t = some (0, .outside))
    (h : piece ∈ prepend u (splitCommas d q t)) : IsPiece piece := by
  induction t generalizing u d q with
  | nil =>
    obtain ⟨rfl, rfl⟩ : d = 0 ∧ q = .outside := by simpa [Brackets.after?] using ht
    obtain rfl : piece = u := by simpa [splitCommas, prepend] using h
    exact ⟨hplace, hu⟩
  | cons c t ih =>
    rw [Brackets.after?] at ht
    split at ht
    · cases ht
    · next hclose =>
      have hdepth := Spot.step_of_open hclose
      by_cases hcut : Spot.Cuts ⟨d, q⟩ c
      · obtain ⟨hfree, rfl⟩ := hcut.eq
        obtain ⟨rfl, rfl⟩ : d = 0 ∧ q = .outside := by simpa [Spot.free] using hfree
        rw [Int.natCast_zero, splitCommas_cut, prepend, List.append_nil, List.mem_cons] at h
        rcases h with rfl | hmore
        · exact ⟨hplace, hu⟩
        · rw [← prepend_nil (splitCommas_ne_nil 0 .outside t)] at hmore
          exact ih (d := 0) rfl sheltered_nil ht hmore
      · have hsplit := splitCommas_step hcut t
        rw [hdepth] at hsplit
        rw [hsplit, prepend_prepend] at h
        refine ih ?_ (hu.concat ?_) ht h
        · rw [Spot.after_append, hplace]
          exact hdepth
        · rintro rfl hquote
          rw [hplace] at hquote ⊢
          by_contra hzero
          exact hcut ⟨hquote, rfl, by simp only at hzero ⊢; omega⟩

/-- Cuts along byte offsets: `start` is the offset behind the last cut, `index` that of the
character that comes next. -/
def cutAt? (text : Text) (start index : Nat) (spot : Spot) : Text → Option (List Text)
  | [] => (Text.dropBytes? start text).map ([·])
  | c :: rest =>
    if spot.Cuts c then
      (Text.slice? start index text).bind fun piece =>
        (cutAt? text (index + c.utf8Size) (index + c.utf8Size) spot rest).map (piece :: ·)
    else cutAt? text start (index + c.utf8Size) (spot.step c) rest

/-- The pieces of a text, cut at the offsets of its commas. -/
def cut? (text : Text) : Option (List Text) := cutAt? text 0 0 .free text

theorem cutAt?_eq (front piece rest : Text) (spot : Spot) :
    cutAt? (front ++ piece ++ rest) (Text.bytes front) (Text.bytes (front ++ piece)) spot rest =
      some (prepend piece (splitCommas spot.depth spot.quote rest)) := by
  induction rest generalizing front piece spot with
  | nil =>
    rw [cutAt?, List.append_nil, Text.dropBytes?_append, splitCommas, prepend, List.append_nil]
    rfl
  | cons c rest ih =>
    rw [cutAt?]
    split
    · next hcut =>
      have hrest := ih (front ++ piece ++ [c]) [] spot
      obtain ⟨rfl, rfl⟩ := hcut.eq
      rw [List.append_nil] at hrest
      rw [Text.slice?_append, Option.bind_some, ← Text.bytes_concat, List.append_cons, hrest]
      change some (piece :: prepend [] (splitCommas 0 .outside rest)) = _
      rw [prepend_nil (splitCommas_ne_nil 0 .outside rest)]
      change _ = some (prepend piece (splitCommas 0 .outside (',' :: rest)))
      rw [splitCommas_cut, prepend, List.append_nil]
    · next hcut =>
      have hrest := ih front (piece ++ [c]) (spot.step c)
      rw [← List.append_assoc] at hrest
      rw [← Text.bytes_concat, List.append_cons, hrest, splitCommas_step hcut, prepend_prepend]

theorem cut?_eq (text : Text) : cut? text = some (splitCommas 0 .outside text) := by
  have h := cutAt?_eq [] [] text .free
  rw [prepend_nil (splitCommas_ne_nil _ _ text)] at h
  exact h

/-- For every opening bracket whose group ends, with the index its end is found at: the text between
the two brackets, taken by index, is the group's inside; the reader that cuts at commas never counts
below zero on it; and the pieces it cuts by offset are the inside when joined, each one closed in
itself with its commas sheltered. -/
theorem cut_inside {chars : Text} {start stop : Nat} {opener : Char}
    (hopener : chars[start]? = some opener) (hopens : Brackets.all.opens opener = true)
    (hstop : Brackets.groupEnd? chars start = some (some stop)) :
    ∃ inside, Text.between? (start + 1) stop chars = some inside ∧
      Brackets.all.body 0 .outside (chars.drop (start + 1)) =
        some (inside, chars.drop (stop + 1)) ∧
      (∀ front, front <+: inside → 0 ≤ (Spot.free.after front).depth) ∧
      cut? inside = some (splitCommas 0 .outside inside) ∧
      Text.join [','] (splitCommas 0 .outside inside) = inside ∧
      ∀ piece ∈ splitCommas 0 .outside inside, IsPiece piece := by
  rw [Brackets.groupEnd?_eq hopener hopens] at hstop
  have hlength := Brackets.lt_of_getElem?_eq_some hopener
  obtain ⟨inside, hbetween, hbody⟩ := Brackets.body_of_endFrom (Option.some.inj hstop) hlength
  have hclosed := Brackets.closed_of_body hbody
  refine ⟨inside, hbetween, hbody, ?_, cut?_eq inside, ?_, ?_⟩
  · intro front hfront
    exact Spot.depth_nonneg hclosed hfront
  · exact join_splitCommas .free inside
  · intro piece hpiece
    rw [← prepend_nil (splitCommas_ne_nil 0 .outside inside)] at hpiece
    exact isPiece_of_mem (d := 0) rfl sheltered_nil hclosed hpiece

/-- An object and a call with two arguments, the second a string with a bracket and a mark in it. -/
theorem cut_inside_reference :
    Brackets.groupEnd? "p[@user, f(1, \"]\\\"\")]" 1 = some (some 20) ∧
    ∃ inside, Text.between? 2 20 "p[@user, f(1, \"]\\\"\")]" = some inside ∧
      Brackets.all.body 0 .outside "@user, f(1, \"]\\\"\")]" = some (inside, []) ∧
      (∀ front, front <+: inside → 0 ≤ (Spot.free.after front).depth) ∧
      cut? inside = some (splitCommas 0 .outside inside) ∧
      Text.join [','] (splitCommas 0 .outside inside) = inside ∧
      ∀ piece ∈ splitCommas 0 .outside inside, IsPiece piece := by
  have hopener : "p[@user, f(1, \"]\\\"\")]".toList[1]? = some '[' := by decide
  have hstop : Brackets.groupEnd? "p[@user, f(1, \"]\\\"\")]" 1 = some (some 20) :=
    (Brackets.groupEnd?_eq hopener (by decide)).trans (by decide)
  exact ⟨hstop, cut_inside hopener (by decide) hstop⟩

end Haml
