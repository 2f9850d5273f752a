import Mathlib.Data.List.DropRight
import Haml.Text.Basic

/-! Trimmed texts. Trimming takes white space from both ends and nothing else, so a text is trimmed
exactly if neither of its ends is white space. -/

namespace Haml.Text

variable {t u : Text}

theorem trimStart_eq_self_iff : trimStart t = t ↔ ∀ c ∈ t.head?, Unicode.isBlank c = false := by
  cases t with
  | nil => simp [trimStart]
  | cons c rest =>
    constructor
    · intro h d hd
      obtain rfl : c = d := by simpa using hd
      by_contra hc
      have hlength := length_trimStart_le rest
      have hrest : trimStart rest = c :: rest := by
        rwa [trimStart, List.dropWhile_cons_of_pos (by simpa using hc)] at h
      rw [hrest, List.length_cons] at hlength
      omega
    · intro h
      have hc : Unicode.isBlank c = false := h c rfl
      rw [trimStart, List.dropWhile_cons_of_neg (by simp [hc])]

theorem trimEnd_eq_self_iff : trimEnd t = t ↔ ∀ c ∈ t.getLast?, Unicode.isBlank c = false := by
  have h : trimEnd t = t ↔ trimStart t.reverse = t.reverse := by
    rw [trimEnd, ← List.reverse_inj, List.reverse_reverse]
    rfl
  rw [h, trimStart_eq_self_iff, List.head?_reverse]

theorem isPrefix_trimEnd (t : Text) : trimEnd t <+: t := List.rdropWhile_prefix Unicode.isBlank t

theorem trim_eq_self_iff : trim t = t ↔
    (∀ c ∈ t.head?, Unicode.isBlank c = false) ∧ ∀ c ∈ t.getLast?, Unicode.isBlank c = false := by
  constructor
  · intro h
    -- Neither step can take anything, since both together take nothing.
    have hstart : trimStart t = t := by
      apply (List.dropWhile_suffix Unicode.isBlank).eq_of_length_le
      calc t.length = (trim t).length := by rw [h]
        _ ≤ (trimStart t).length := (isPrefix_trimEnd _).length_le
    have hend : trimEnd t = t := by rwa [trim, hstart] at h
    exact ⟨trimStart_eq_self_iff.mp hstart, trimEnd_eq_self_iff.mp hend⟩
  · rintro ⟨hstart, hend⟩
    rw [trim, trimStart_eq_self_iff.mpr hstart, trimEnd_eq_self_iff.mpr hend]

theorem trimEnd_of_trim (h : trim t = t) : trimEnd t = t :=
  trimEnd_eq_self_iff.mpr (trim_eq_self_iff.mp h).2

theorem trim_trim (t : Text) : trim (trim t) = trim t := by
  have hend : trimEnd (trim t) = trim t := List.rdropWhile_idempotent Unicode.isBlank (trimStart t)
  have hstart : trimStart (trim t) = trim t := by
    rw [trimStart_eq_self_iff]
    intro c hc
    have hidem : trimStart (trimStart t) = trimStart t :=
      List.dropWhile_idempotent Unicode.isBlank t
    obtain ⟨after, hafter⟩ := isPrefix_trimEnd (trimStart t)
    apply trimStart_eq_self_iff.mp hidem c
    rw [← hafter, List.head?_append]
    exact Option.mem_def.mpr (by rw [show (trimEnd (trimStart t)).head? = some c from hc]; rfl)
  rw [trim, hstart, hend]

theorem exists_eq_trim (t : Text) : ∃ before after, t = before ++ trim t ++ after ∧
    (∀ c ∈ before, Unicode.isBlank c = true) ∧ ∀ c ∈ after, Unicode.isBlank c = true := by
  refine ⟨t.takeWhile Unicode.isBlank, (trimStart t).rtakeWhile Unicode.isBlank, ?_, ?_, ?_⟩
  · have hstart : t.takeWhile Unicode.isBlank ++ trimStart t = t := List.takeWhile_append_dropWhile
    have hend : trim t ++ (trimStart t).rtakeWhile Unicode.isBlank = trimStart t :=
      List.rdropWhile_append_rtakeWhile
    rw [List.append_assoc, hend, hstart]
  · intro c hc
    exact List.mem_takeWhile_imp hc
  · intro c hc
    exact List.mem_rtakeWhile_imp hc

/-- White space in front of anything else is all that is taken from the start. -/
theorem trimStart_eq_cons_iff {c : Char} : trimStart t = c :: u ↔
    ∃ before, t = before ++ c :: u ∧ (∀ d ∈ before, Unicode.isBlank d = true) ∧
      Unicode.isBlank c = false := by
  constructor
  · intro h
    have hhead := List.head?_dropWhile_not Unicode.isBlank t
    rw [show t.dropWhile Unicode.isBlank = c :: u from h] at hhead
    refine ⟨t.takeWhile Unicode.isBlank, ?_, fun d hd => List.mem_takeWhile_imp hd,
      by simpa using hhead⟩
    rw [← h]
    exact List.takeWhile_append_dropWhile.symm
  · rintro ⟨before, rfl, hbefore, hc⟩
    rw [trimStart, List.dropWhile_append_of_pos hbefore,
      List.dropWhile_cons_of_neg (by simp [hc])]

theorem trim_blank_cons {c : Char} (hc : Unicode.isBlank c = true) (t : Text) :
    trim (c :: t) = trim t := by
  rw [trim, trim, trimStart, List.dropWhile_cons_of_pos hc]
  rfl

theorem trim_eq_self_of_forall (h : ∀ c ∈ t, Unicode.isBlank c = false) : trim t = t :=
  trim_eq_self_iff.mpr
    ⟨fun c hc => h c (List.mem_of_mem_head? hc), fun c hc => h c (List.mem_of_getLast? hc)⟩

/-- Trimming leaves a text alone that begins with no white space and ends in a trimmed one. -/
theorem trim_append (hstart : trimStart (t ++ u) = t ++ u) (hne : u ≠ []) (hu : trim u = u) :
    trim (t ++ u) = t ++ u := by
  obtain ⟨-, hend⟩ := trim_eq_self_iff.mp hu
  refine trim_eq_self_iff.mpr ⟨trimStart_eq_self_iff.mp hstart, ?_⟩
  rwa [List.getLast?_append_of_ne_nil t hne]

end Haml.Text
