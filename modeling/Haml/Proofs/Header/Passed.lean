import Haml.Header.Hash
import Haml.Proofs.Text.Closed
import Haml.Proofs.Text.Strings

/-! Texts inside a group that both of its readers pass over: the one that looks for the end of the
group, and the one that cuts what is inside at commas. Strings are such texts, and so is code whose
brackets and strings close and whose commas stand inside them. -/

namespace Haml

/-- A text put in front of the first of some pieces. -/
def prepend (t : Text) : List Text → List Text
  | [] => [t]
  | piece :: more => (t ++ piece) :: more

theorem prepend_prepend (u v : Text) (pieces : List Text) :
    prepend u (prepend v pieces) = prepend (u ++ v) pieces := by
  cases pieces with
  | nil => rfl
  | cons piece more => simp [prepend]

/-- Outside all brackets of a group, a text takes both readers from one place to another. -/
structure Passed (quote after : Quote) (t : Text) : Prop where
  body : ∀ rest, Brackets.all.body 0 quote (t ++ rest) =
    (Brackets.all.body 0 after rest).map fun (inner, rest) => (t ++ inner, rest)
  split : ∀ rest, splitCommas 0 quote (t ++ rest) = prepend t (splitCommas 0 after rest)

theorem splitCommas_ne_nil (depth : Int) (quote : Quote) (t : Text) :
    splitCommas depth quote t ≠ [] := by
  cases t with
  | nil => simp [splitCommas]
  | cons c t =>
    rw [splitCommas]
    split
    · simp
    · dsimp only
      split <;> simp

namespace Passed

variable {quote middle after : Quote} {t u v : Text}

theorem nil (quote : Quote) : Passed quote quote [] where
  body rest := by simp
  split rest := by
    obtain ⟨piece, more, h⟩ := List.exists_cons_of_ne_nil (splitCommas_ne_nil 0 quote rest)
    rw [List.nil_append, h]
    rfl

theorem append (hu : Passed quote middle u) (hv : Passed middle after v) :
    Passed quote after (u ++ v) where
  body rest := by
    rw [List.append_assoc, hu.body, hv.body, Option.map_map]
    congr 1
    funext p
    simp
  split rest := by rw [List.append_assoc, hu.split, hv.split, prepend_prepend]

theorem flatMap {α : Type} {f : α → Text} {l : List α} (h : ∀ a ∈ l, Passed quote quote (f a)) :
    Passed quote quote (l.flatMap f) := by
  induction l with
  | nil => exact nil quote
  | cons a l ih =>
    obtain ⟨ha, hl⟩ := List.forall_mem_cons.mp h
    rw [List.flatMap_cons]
    exact ha.append (ih hl)

theorem splitCommas_cons {depth : Nat} {c : Char}
    (hcomma : ¬(quote = .outside ∧ c = ',' ∧ depth = 0))
    (hclose : ¬(quote = .outside ∧ Brackets.all.closes c = true ∧ depth = 0)) (rest : Text) :
    splitCommas depth quote (c :: rest) =
      prepend [c] (splitCommas (Brackets.all.depthAfter quote depth c) (quote.next c) rest) := by
  have hdepth : (if quote ≠ .outside then (depth : Int)
      else if Brackets.all.opens c then (depth : Int) + 1
      else if Brackets.all.closes c then (depth : Int) - 1
      else depth) = (Brackets.all.depthAfter quote depth c : Int) := by
    rw [Brackets.depthAfter]
    by_cases hquote : quote = .outside
    · by_cases hopens : Brackets.all.opens c = true
      · simp [hquote, hopens]
      · by_cases hcloses : Brackets.all.closes c = true
        · have hpos : 0 < depth := by
            by_contra hzero
            exact hclose ⟨hquote, hcloses, by omega⟩
          simp only [hquote, hopens, hcloses]
          simp
          omega
        · simp [hquote, hopens, hcloses]
    · simp [hquote]
  have hcomma' : ¬(quote = .outside ∧ c = ',' ∧ (depth : Int) = 0) := by
    rintro ⟨hquote, hc, hzero⟩
    exact hcomma ⟨hquote, hc, by omega⟩
  rw [splitCommas, if_neg hcomma']
  dsimp only
  rw [hdepth]
  cases splitCommas (Brackets.all.depthAfter quote depth c) (quote.next c) rest with
  | nil => rfl
  | cons piece more => rfl

theorem single {c : Char} (hnext : quote.next c = after) (h : quote = .outside →
    Brackets.all.opens c = false ∧ Brackets.all.closes c = false ∧ c ≠ ',') :
    Passed quote after [c] := by
  subst hnext
  have hclose : ¬(quote = .outside ∧ Brackets.all.closes c = true ∧ 0 = 0) := by
    rintro ⟨hquote, hc, -⟩
    rw [(h hquote).2.1] at hc
    cases hc
  have hcomma : ¬(quote = .outside ∧ c = ',' ∧ 0 = 0) := by
    rintro ⟨hquote, hc, -⟩
    exact (h hquote).2.2 hc
  have hdepth : Brackets.all.depthAfter quote 0 c = 0 := by
    rw [Brackets.depthAfter]
    by_cases hquote : quote = .outside
    · simp [hquote, h hquote]
    · simp [hquote]
  constructor
  · intro rest
    rw [List.singleton_append, Brackets.body, if_neg hclose, hdepth]
    rfl
  · intro rest
    rw [List.singleton_append]
    have hsplit := splitCommas_cons hcomma hclose rest
    rw [hdepth] at hsplit
    exact hsplit

/-- A character that is nothing special outside strings. -/
def isPlain (c : Char) : Bool :=
  !Quote.isMark c && !Brackets.all.opens c && !Brackets.all.closes c && c != ','

theorem plain (h : t.all isPlain = true) : Passed .outside .outside t := by
  induction t with
  | nil => exact nil .outside
  | cons c t ih =>
    obtain ⟨hplain, hrest⟩ : isPlain c = true ∧ t.all isPlain = true := by simpa using h
    obtain ⟨⟨⟨hmark, hopen⟩, hclose⟩, hcomma⟩ : ((Quote.isMark c = false ∧
        Brackets.all.opens c = false) ∧ Brackets.all.closes c = false) ∧ c ≠ ',' := by
      simpa [isPlain] using hplain
    have hnext : Quote.outside.next c = .outside := by simp [Quote.next, hmark]
    exact (single hnext fun _ => ⟨hopen, hclose, hcomma⟩).append (ih hrest)

/-- The reader that cuts at commas passes over a text that has no comma where it would cut. -/
theorem splitCommas_append {depth d : Nat}
    (h : Brackets.all.after? depth quote t = some (d, after))
    (hcomma : ∀ before rest, t = before ++ ',' :: rest →
      Brackets.all.after? depth quote before ≠ some (0, .outside)) (rest : Text) :
    splitCommas depth quote (t ++ rest) = prepend t (splitCommas d after rest) := by
  induction t generalizing depth quote with
  | nil =>
    obtain ⟨rfl, rfl⟩ : depth = d ∧ quote = after := by simpa [Brackets.after?] using h
    obtain ⟨piece, more, hpieces⟩ :=
      List.exists_cons_of_ne_nil (splitCommas_ne_nil depth quote rest)
    rw [List.nil_append, hpieces]
    rfl
  | cons c t ih =>
    rw [Brackets.after?] at h
    split at h
    · cases h
    · next hclose =>
      have hfirst : ¬(quote = .outside ∧ c = ',' ∧ depth = 0) := by
        rintro ⟨rfl, rfl, rfl⟩
        exact hcomma [] t rfl rfl
      have hrest := ih h (by
        intro before rest ht
        have hbefore := hcomma (c :: before) rest (by rw [ht]; rfl)
        rwa [Brackets.after?, if_neg hclose] at hbefore)
      rw [List.cons_append, splitCommas_cons hfirst hclose, hrest, prepend_prepend]
      rfl

end Passed

/-- Code that can stand between the commas of a group: trimmed, with brackets and strings that
close, and without a comma outside them. -/
structure IsCode (code : Text) : Prop where
  ne_nil : code ≠ []
  trimmed : Text.trim code = code
  closed : Brackets.all.Closed code
  comma : ∀ before rest, code = before ++ ',' :: rest → ¬Brackets.all.Closed before

namespace IsCode

theorem comma_iff {code : Text} :
    (∀ before rest, code = before ++ ',' :: rest → ¬Brackets.all.Closed before) ↔
      ∀ i ∈ List.range code.length, code[i]? = some ',' → ¬Brackets.all.Closed (code.take i) := by
  constructor
  · intro h i hi hcomma
    have hlt : i < code.length := List.mem_range.mp hi
    obtain hget : code[i] = ',' := by simpa [hlt] using hcomma
    apply h (code.take i) (code.drop (i + 1))
    rw [← hget, List.getElem_cons_drop, List.take_append_drop]
  · rintro h before rest rfl
    have hbefore := h before.length (by simp) (by simp)
    rwa [List.take_left] at hbefore

theorem iff {code : Text} : IsCode code ↔ code ≠ [] ∧ Text.trim code = code ∧
    Brackets.all.Closed code ∧
    ∀ i ∈ List.range code.length, code[i]? = some ',' → ¬Brackets.all.Closed (code.take i) :=
  ⟨fun ⟨hne, htrim, hclosed, hcomma⟩ => ⟨hne, htrim, hclosed, comma_iff.mp hcomma⟩,
    fun ⟨hne, htrim, hclosed, hcomma⟩ => ⟨hne, htrim, hclosed, comma_iff.mpr hcomma⟩⟩

instance (code : Text) : Decidable (IsCode code) := decidable_of_iff' _ iff

end IsCode

theorem IsCode.passed {code : Text} (h : IsCode code) : Passed .outside .outside code :=
  ⟨Brackets.body_append h.closed, Passed.splitCommas_append h.closed h.comma⟩

namespace Quote

/-- The body of a string in single quotes: a backslash before each backslash and each quote. -/
def escape (t : Text) : Text := t.flatMap fun c => if c = '\\' ∨ c = '\'' then ['\\', c] else [c]

def quoted (t : Text) : Text := '\'' :: (escape t ++ ['\''])

variable {c : Char} {t : Text}

theorem escape_cons_special (h : c = '\\' ∨ c = '\'') :
    escape (c :: t) = '\\' :: c :: escape t := by
  rw [escape, List.flatMap_cons, if_pos h]
  rfl

theorem escape_cons_plain (h : ¬(c = '\\' ∨ c = '\'')) : escape (c :: t) = c :: escape t := by
  rw [escape, List.flatMap_cons, if_neg h]
  rfl

theorem unescape_escape (t : Text) : unescape '\'' (escape t) = t := by
  induction t with
  | nil => rfl
  | cons c t ih =>
    by_cases h : c = '\\' ∨ c = '\''
    · rw [escape_cons_special h]
      rcases h with rfl | rfl
      · rw [unescape, ih]
      · rw [unescape, if_pos rfl, ih]
        decide
    · rw [escape_cons_plain h, unescape, ih]
      · rintro rest rfl
        simp at h
      · rintro d rest rfl
        simp at h

theorem isBody_escape (t : Text) : IsBody '\'' (escape t) := by
  induction t with
  | nil => rfl
  | cons c t ih =>
    rw [IsBody] at ih ⊢
    by_cases h : c = '\\' ∨ c = '\''
    · rw [escape_cons_special h]
      exact ih
    · have hnext : (inside '\'').next c = inside '\'' := by
        rw [next, if_neg fun hc => h (.inl hc), if_neg fun hc => h (.inr hc)]
      rw [escape_cons_plain h, after?, hnext]
      exact ih

theorem read_quoted (t rest : Text) : read (quoted t ++ rest) = some ('\'', escape t, rest) :=
  (isBody_escape t).read (by decide) rest

/-- Within a string nothing is special but its end. -/
theorem passed_of_after? {quote after : Quote} (hquote : quote ≠ outside)
    (h : quote.after? t = some after) : Passed quote after t := by
  induction t generalizing quote with
  | nil =>
    obtain rfl : quote = after := Option.some.inj h
    exact Passed.nil quote
  | cons c t ih =>
    rw [after?] at h
    split at h
    · cases h
    · next hnext =>
      have hc : Passed quote (quote.next c) [c] := Passed.single rfl fun hout => absurd hout hquote
      exact hc.append (ih hnext h)

theorem passed_string {mark : Char} (hmark : isMark mark = true) (h : IsBody mark t) :
    Passed .outside .outside (string mark t) := by
  have hopen : Passed .outside (inside mark) [mark] := by
    refine Passed.single (by rw [next, if_pos hmark]) fun _ => ?_
    obtain rfl | rfl := isMark_iff.mp hmark
    all_goals decide
  have hinside : inside mark ≠ outside := fun heq => by cases heq
  have hclose : Passed (inside mark) .outside [mark] :=
    Passed.single (by rw [next, if_neg (ne_slash_of_isMark hmark), if_pos rfl])
      fun heq => absurd heq hinside
  have hinner : Passed (inside mark) (inside mark) t := passed_of_after? hinside h
  exact hopen.append (hinner.append hclose)

theorem passed_quoted (t : Text) : Passed .outside .outside (quoted t) :=
  passed_string (by decide) (isBody_escape t)

end Quote

end Haml
