import Haml.Proofs.Line.Indent

/-! Indentations that are measured one after the other. The first one that repeats a single
character is the unit for all that follow, and one that is refused leaves nothing behind. -/

namespace Haml

/-- One character, repeated. -/
def Text.Uniform (t : Text) : Prop := t ≠ [] ∧ ∀ c ∈ t, ∀ d ∈ t, c = d

variable {u v : IndentUnit} {t : Text}

theorem IndentUnit.mem_indent_one {c : Char} : c ∈ u.indent 1 ↔ c = u.mark := by
  rw [indent_eq, Nat.one_mul, List.mem_replicate]
  exact and_iff_right (Nat.ne_of_gt u.width_pos)

theorem IndentUnit.uniform_indent_one (u : IndentUnit) : (u.indent 1).Uniform := by
  refine ⟨List.ne_nil_of_mem (mem_indent_one.mpr rfl), fun c hc d hd => ?_⟩
  rw [mem_indent_one.mp hc, mem_indent_one.mp hd]

theorem IndentUnit.eq_of_indent_one (h : u.indent 1 = v.indent 1) : u = v := by
  have hmark : u.mark = v.mark := mem_indent_one.mp (h ▸ mem_indent_one.mpr rfl)
  have hwidth : u.width = v.width := by
    have hlength := congrArg List.length h
    simpa only [indent_eq, Nat.one_mul, List.length_replicate] using hlength
  obtain ⟨mark, width, hpos⟩ := u
  obtain ⟨mark', width', hpos'⟩ := v
  obtain rfl : mark = mark' := hmark
  obtain rfl : width = width' := hwidth
  rfl

theorem Text.Uniform.exists_unit (h : t.Uniform) : ∃ u : IndentUnit, t = u.indent 1 := by
  obtain ⟨hne, heq⟩ := h
  obtain ⟨mark, rest, rfl⟩ := List.exists_cons_of_ne_nil hne
  refine ⟨⟨mark, rest.length + 1, Nat.succ_pos _⟩, ?_⟩
  rw [IndentUnit.indent_eq, Nat.one_mul, List.eq_replicate_iff]
  exact ⟨rfl, fun c hc => heq c hc mark List.mem_cons_self⟩

namespace Indentation

variable {known : Indentation}

/-- What is known of the unit once indentations were measured, refused ones among them. -/
def after (known : Indentation) (indents : List Text) : Indentation :=
  indents.foldl (fun known t => (known.depth t).2) known

/-- An indentation that mixes characters, or uses another one than the unit. -/
def Mixed (known : Indentation) (t : Text) : Prop :=
  (∃ c ∈ t, ∃ d ∈ t, c ≠ d) ∨ ∃ u ∈ known, ∃ c ∈ t, c ≠ u.mark

/-- Neither mixed nor empty, an indentation is the first unit or a number of copies of its mark. -/
theorem uniform_of_not_mixed (h : ¬known.Mixed t) (hne : t ≠ []) :
    t.Uniform ∧ ∀ u ∈ known, t = List.replicate t.length u.mark := by
  simp only [Mixed, not_or, not_exists, not_and, Classical.not_not] at h
  refine ⟨⟨hne, h.1⟩, fun u hu => ?_⟩
  exact List.eq_replicate_iff.mpr ⟨rfl, h.2 u hu⟩

/-- All that measuring an indentation can do. -/
inductive Measured (known : Indentation) (t : Text) : Except LexFault Nat × Indentation → Prop
  | flush (hnil : t = []) : Measured known t (.ok 0, known)
  | mixed (hmixed : known.Mixed t) : Measured known t (.error .mixedIndentation, known)
  | first {u : IndentUnit} (hknown : known = none) (hindent : t = u.indent 1) :
      Measured known t (.ok 1, some u)
  | copies {u : IndentUnit} {depth : Nat} (hknown : known = some u)
      (hindent : t = u.indent (depth + 1)) : Measured known t (.ok (depth + 1), known)
  | uneven {u : IndentUnit} (hknown : known = some u) (hmixed : ¬known.Mixed t)
      (hwidth : ¬u.width ∣ t.length) :
      Measured known t (.error (.inconsistentIndentation u.width t.length), known)

theorem depth_of_mixed (h : known.Mixed t) : known.depth t = (.error .mixedIndentation, known) := by
  cases t with
  | nil => simp [Mixed] at h
  | cons mark rest =>
    rw [Indentation.depth.eq_def]
    dsimp only
    split
    · rfl
    · next hall =>
      have hall : ∀ c ∈ mark :: rest, c = mark := by simpa using hall
      -- All characters are one, so that it is another one than the unit's.
      rcases h with ⟨c, hc, d, hd, hne⟩ | ⟨u, rfl, c, hc, hne⟩
      · exact absurd ((hall c hc).trans (hall d hd).symm) hne
      · dsimp only
        rw [if_pos fun heq => hne ((hall c hc).trans heq.symm)]

theorem depth_of_uneven (h : ¬Mixed (some u) t) (hwidth : ¬u.width ∣ t.length) :
    Indentation.depth (some u) t =
      (.error (.inconsistentIndentation u.width t.length), some u) := by
  cases t with
  | nil => exact absurd (Nat.dvd_zero u.width) hwidth
  | cons mark rest =>
    obtain ⟨-, hunit⟩ := uniform_of_not_mixed h (List.cons_ne_nil mark rest)
    have hall : ∀ c ∈ mark :: rest, c = u.mark := (List.eq_replicate_iff.mp (hunit u rfl)).2
    obtain ⟨rfl, hrest⟩ := List.forall_mem_cons.mp hall
    have hany : ¬rest.any (· != u.mark) = true := by simpa using hrest
    have hmod : (rest.length + 1) % u.width ≠ 0 := fun hmod => hwidth (Nat.dvd_of_mod_eq_zero hmod)
    rw [Indentation.depth, if_neg hany]
    dsimp only
    rw [if_neg (not_not_intro rfl), if_pos hmod]
    rfl

theorem measured (known : Indentation) (t : Text) : Measured known t (known.depth t) := by
  by_cases hnil : t = []
  · rw [hnil]
    exact .flush rfl
  by_cases hmixed : known.Mixed t
  · rw [depth_of_mixed hmixed]
    exact .mixed hmixed
  obtain ⟨huniform, hunit⟩ := uniform_of_not_mixed hmixed hnil
  cases known with
  | none =>
    obtain ⟨u, rfl⟩ := huniform.exists_unit
    rw [depth_indent_one]
    exact .first rfl rfl
  | some u =>
    by_cases hwidth : u.width ∣ t.length
    · obtain ⟨depth, hdepth⟩ := hwidth
      have hindent : t = u.indent depth := by
        rw [IndentUnit.indent_eq, Nat.mul_comm, ← hdepth]
        exact hunit u rfl
      cases depth with
      | zero => exact absurd hindent hnil
      | succ depth =>
        rw [hindent, depth_indent]
        exact .copies rfl rfl
    · rw [depth_of_uneven hmixed hwidth]
      exact .uneven rfl hmixed hwidth

/-- Only the first unit is new. -/
theorem Measured.kept {read : Except LexFault Nat × Indentation} (h : Measured known t read)
    (hnew : known ≠ none ∨ ¬t.Uniform) : read.2 = known := by
  cases h with
  | first hknown hindent =>
    rcases hnew with hnew | hnew
    · exact absurd hknown hnew
    · exact absurd (hindent ▸ IndentUnit.uniform_indent_one _) hnew
  | _ => rfl

theorem after_cons_kept (hnew : known ≠ none ∨ ¬t.Uniform) (indents : List Text) :
    after known (t :: indents) = after known indents := by
  rw [after, List.foldl_cons, (measured known t).kept hnew]
  rfl

theorem after_some (u : IndentUnit) (indents : List Text) : after (some u) indents = some u := by
  induction indents with
  | nil => rfl
  | cons t rest ih => rw [after_cons_kept (.inl (Option.some_ne_none u)), ih]

theorem after_append (known : Indentation) (indents more : List Text) :
    after known (indents ++ more) = after (after known indents) more := List.foldl_append

/-- What fixes the unit: the first text that is one repeated character. -/
theorem after_none_eq_some_iff {indents : List Text} : after none indents = some u ↔
    ∃ before rest, indents = before ++ u.indent 1 :: rest ∧ ∀ t ∈ before, ¬t.Uniform := by
  induction indents with
  | nil => simp [after]
  | cons t indents ih =>
    by_cases ht : t.Uniform
    · obtain ⟨v, rfl⟩ := ht.exists_unit
      have hafter : after none (v.indent 1 :: indents) = some v := by
        rw [after, List.foldl_cons, depth_indent_one]
        exact after_some v indents
      rw [hafter]
      constructor
      · intro huv
        obtain rfl := Option.some.inj huv
        exact ⟨[], indents, rfl, nofun⟩
      · rintro ⟨before, rest, heq, hbefore⟩
        cases before with
        | nil => rw [IndentUnit.eq_of_indent_one (List.cons.inj heq).1]
        | cons first before =>
          obtain ⟨rfl, -⟩ := List.cons.inj heq
          exact absurd ht (hbefore _ List.mem_cons_self)
    · rw [after_cons_kept (.inr ht), ih]
      constructor
      · rintro ⟨before, rest, rfl, hbefore⟩
        exact ⟨t :: before, rest, rfl, List.forall_mem_cons.mpr ⟨ht, hbefore⟩⟩
      · rintro ⟨before, rest, heq, hbefore⟩
        cases before with
        | nil => exact absurd ((List.cons.inj heq).1 ▸ u.uniform_indent_one) ht
        | cons first before =>
          obtain ⟨rfl, rfl⟩ := List.cons.inj heq
          exact ⟨before, rest, rfl, (List.forall_mem_cons.mp hbefore).2⟩

section Results

variable {read : Except LexFault Nat × Indentation} {next : Indentation} {depth : Nat}
  {fault : LexFault}

theorem Measured.of_ok (h : Measured known t (.ok depth, next)) : (depth = 0 ↔ t = []) ∧
    (t ≠ [] → ∃ u, next = some u ∧ (known = none ∨ known = some u) ∧ t = u.indent depth) := by
  have hfilled {u : IndentUnit} {n : Nat} (hindent : t = u.indent (n + 1)) : t ≠ [] := by
    rw [hindent, IndentUnit.indent_eq, Ne, List.replicate_eq_nil_iff]
    exact Nat.mul_ne_zero n.succ_ne_zero (Nat.ne_of_gt u.width_pos)
  cases h with
  | flush hnil => exact ⟨iff_of_true rfl hnil, fun hne => absurd hnil hne⟩
  | first hknown hindent =>
    exact ⟨iff_of_false (by decide) (hfilled hindent), fun _ => ⟨_, rfl, .inl hknown, hindent⟩⟩
  | copies hknown hindent =>
    exact ⟨iff_of_false (Nat.succ_ne_zero _) (hfilled hindent),
      fun _ => ⟨_, hknown, .inr hknown, hindent⟩⟩

theorem Measured.of_error (h : Measured known t (.error fault, next)) : next = known ∧
    (fault = .mixedIndentation ∧ known.Mixed t ∨ ∃ u ∈ known, ¬known.Mixed t ∧
      ¬u.width ∣ t.length ∧ fault = .inconsistentIndentation u.width t.length) := by
  cases h with
  | mixed hmixed => exact ⟨rfl, .inl ⟨rfl, hmixed⟩⟩
  | uneven hknown hmixed hwidth => exact ⟨rfl, .inr ⟨_, hknown, hmixed, hwidth, rfl⟩⟩

theorem depth_eq_mixed_iff :
    (known.depth t).1 = .error .mixedIndentation ↔ known.Mixed t := by
  refine ⟨fun h => ?_, fun h => by rw [depth_of_mixed h]⟩
  have hread : Measured known t (.error .mixedIndentation, (known.depth t).2) :=
    h ▸ measured known t
  rcases hread.of_error.2 with ⟨-, hmixed⟩ | ⟨u, -, -, -, hfault⟩
  · exact hmixed
  · cases hfault

theorem depth_eq_uneven_iff (hfault : fault ≠ .mixedIndentation) :
    (known.depth t).1 = .error fault ↔ ∃ u ∈ known, ¬known.Mixed t ∧ ¬u.width ∣ t.length ∧
      fault = .inconsistentIndentation u.width t.length := by
  constructor
  · intro h
    have hread : Measured known t (.error fault, (known.depth t).2) := h ▸ measured known t
    rcases hread.of_error.2 with ⟨hmixed, -⟩ | hexists
    · exact absurd hmixed hfault
    · exact hexists
  · rintro ⟨u, rfl, hmixed, hwidth, rfl⟩
    rw [depth_of_uneven hmixed hwidth]

end Results

/-- Whatever was measured before, an indentation is measured by the first of them that repeats one
character. It is refused as mixed if it mixes characters or uses another one than the unit, as
inconsistent if it is no number of copies all the same, and changes nothing then. -/
theorem depth_after (indents : List Text) (t : Text) :
    let known := after none indents
    (∀ u, known = some u ↔
      ∃ before rest, indents = before ++ u.indent 1 :: rest ∧ ∀ s ∈ before, ¬s.Uniform) ∧
    (∀ u ∈ known, 0 < u.width ∧ ∀ more, after none (indents ++ more) = some u) ∧
    (∀ depth next, known.depth t = (.ok depth, next) → (depth = 0 ↔ t = []) ∧
      (t ≠ [] → ∃ u, next = some u ∧ (known = none ∨ known = some u) ∧ t = u.indent depth)) ∧
    (∀ fault next, known.depth t = (.error fault, next) → next = known) ∧
    ((known.depth t).1 = .error .mixedIndentation ↔ known.Mixed t) ∧
    ∀ fault ≠ .mixedIndentation, (known.depth t).1 = .error fault ↔
      ∃ u ∈ known, ¬known.Mixed t ∧ ¬u.width ∣ t.length ∧
        fault = .inconsistentIndentation u.width t.length := by
  intro known
  refine ⟨fun u => after_none_eq_some_iff, ?_, ?_, ?_, depth_eq_mixed_iff,
    fun fault hfault => depth_eq_uneven_iff hfault⟩
  · intro u hu
    refine ⟨u.width_pos, fun more => ?_⟩
    have hknown : after none indents = some u := hu
    rw [after_append, hknown, after_some]
  · intro depth next h
    have hread : Measured known t (.ok depth, next) := h ▸ measured known t
    exact hread.of_ok
  · intro fault next h
    have hread : Measured known t (.error fault, next) := h ▸ measured known t
    exact hread.of_error.1

/-- A tab in front of the unit, a line without indentation, and widths that do not fit leave two
spaces as the unit. -/
theorem depth_after_refused :
    let indents : List Text := [" \t", "", "  ", "\t", "   "]
    let known := after none indents
    known.depth "    " = (.ok 2, some ⟨' ', 2, by decide⟩) ∧
      (∃ u, some ⟨' ', 2, by decide⟩ = some u ∧ (known = none ∨ known = some u) ∧
        "    ".toList = u.indent 2) ∧
      known.depth "\t" = (.error .mixedIndentation, known) ∧ known.Mixed "\t" := by
  intro indents known
  have hdepth : known.depth "    " = (.ok 2, some ⟨' ', 2, by decide⟩) := by decide
  have htab : known.depth "\t" = (.error .mixedIndentation, known) := by decide
  obtain ⟨-, -, hok, -⟩ := depth_after indents "    "
  obtain ⟨-, -, -, -, hmixed, -⟩ := depth_after indents "\t"
  exact ⟨hdepth, (hok 2 _ hdepth).2 (by decide), htab, hmixed.mp (congrArg Prod.fst htab)⟩

end Indentation

end Haml
