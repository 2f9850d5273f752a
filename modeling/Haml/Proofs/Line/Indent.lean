import Haml.Indentation
import Haml.Line.Physical
import Mathlib.Data.List.Flatten

/-! Indentation in units. A depth is measured of that many copies of the unit and of nothing else. -/

namespace Haml

/-- The indentation of a depth: as many copies of the unit. -/
def IndentUnit.indent (u : IndentUnit) (depth : Nat) : Text :=
  (List.replicate depth (List.replicate u.width u.mark)).flatten

variable {u : IndentUnit} {t : Text} {mark : Char}

theorem IndentUnit.indent_eq (u : IndentUnit) (depth : Nat) :
    u.indent depth = List.replicate (depth * u.width) u.mark := List.flatten_replicate_replicate

theorem eq_replicate_of_all (h : ¬t.any (· != mark) = true) : t = List.replicate t.length mark := by
  rw [List.eq_replicate_iff]
  have hall : ∀ c ∈ t, c = mark := by simpa using h
  exact ⟨rfl, hall⟩

namespace Indentation

variable {known after : Indentation} {depth : Nat}

/-- What is measured: no indentation, or copies of the unit that is known from then on. -/
theorem depth_eq_ok (h : known.depth t = (.ok depth, after)) :
    (t = [] ∧ depth = 0 ∧ after = known) ∨
      ∃ u, after = some u ∧ (known = none ∨ known = some u) ∧ t = u.indent depth ∧ u.mark ∈ t := by
  cases t with
  | nil =>
    obtain ⟨hdepth, rfl⟩ := Prod.mk.inj h
    exact .inl ⟨rfl, (Except.ok.inj hdepth).symm, rfl⟩
  | cons mark rest =>
    rw [Indentation.depth.eq_def] at h
    dsimp only at h
    split at h
    · cases h
    · next hall =>
      have hrest : mark :: rest = List.replicate (rest.length + 1) mark := by
        rw [List.replicate_succ, ← eq_replicate_of_all hall]
      cases known with
      -- The first indentation is one level, whatever its width.
      | none =>
        obtain ⟨hdepth, rfl⟩ := Prod.mk.inj h
        obtain rfl := Except.ok.inj hdepth
        refine .inr ⟨_, rfl, .inl rfl, ?_, List.mem_cons_self⟩
        rw [IndentUnit.indent_eq, Nat.one_mul]
        exact hrest
      | some u =>
        dsimp only at h
        split at h
        · cases h
        · next hmark =>
          obtain rfl : u.mark = mark := by simpa using hmark
          split at h
          · cases h
          · next hwidth =>
            have hmod : (rest.length + 1) % u.width = 0 := by simpa using hwidth
            obtain ⟨hdepth, rfl⟩ := Prod.mk.inj h
            obtain rfl := Except.ok.inj hdepth
            refine .inr ⟨u, rfl, .inr rfl, ?_, List.mem_cons_self⟩
            rw [IndentUnit.indent_eq, Nat.div_mul_cancel (Nat.dvd_of_mod_eq_zero hmod)]
            exact hrest

theorem depth_indent (u : IndentUnit) (depth : Nat) :
    Indentation.depth (some u) (u.indent depth) = (.ok depth, some u) := by
  cases depth with
  | zero => rfl
  | succ depth =>
    have hpos : (depth + 1) * u.width ≠ 0 :=
      Nat.mul_ne_zero depth.succ_ne_zero (Nat.ne_of_gt u.width_pos)
    obtain ⟨n, hn⟩ : ∃ n, (depth + 1) * u.width = n + 1 := Nat.exists_eq_succ_of_ne_zero hpos
    have hmod : ¬(n + 1) % u.width ≠ 0 := by
      rw [← hn, Nat.mul_mod_left]
      exact not_not_intro rfl
    have hdiv : (n + 1) / u.width = depth + 1 := by
      rw [← hn, Nat.mul_div_cancel _ u.width_pos]
    rw [IndentUnit.indent_eq, hn, List.replicate_succ, Indentation.depth, if_neg (by simp)]
    simp only [List.length_replicate]
    rw [if_neg (not_not_intro rfl), if_neg hmod, hdiv]

/-- The first indentation fixes the unit. -/
theorem depth_indent_one (u : IndentUnit) :
    Indentation.depth none (u.indent 1) = (.ok 1, some u) := by
  obtain ⟨mark, width, hwidth⟩ := u
  cases width with
  | zero => exact absurd hwidth (Nat.lt_irrefl 0)
  | succ n =>
    rw [IndentUnit.indent_eq, Nat.one_mul, List.replicate_succ, Indentation.depth,
      if_neg (by simp)]
    simp only [List.length_replicate]

end Indentation

end Haml
