import Haml.Proofs.Segment.RoundTrip
import Haml.Proofs.Outcome
import Haml.Proofs.Text.Solid

/-! Literals of scanned text. A text on one line has literals on one line, none of them empty, so
that text without code in it is solid. -/

namespace Haml.Segment

variable {line : Nat} {segments more : List Segment} {t u : Text}

theorem literal_mem_ofLiteral (h : literal t ∈ ofLiteral u) : t = u ∧ u ≠ [] := by
  unfold ofLiteral at h
  split at h
  · cases h
  · next hne =>
    obtain rfl := literal.inj (List.mem_singleton.mp h)
    exact ⟨rfl, fun hnil => hne (List.isEmpty_iff.mpr hnil)⟩

/-- The literals of a text that has no line feed have none, and none of them is empty. -/
theorem scanAfter_literals {read text : Text} (h : scanAfter line read text = .ok segments)
    (hread : '\n' ∉ read) (htext : '\n' ∉ text) :
    ∀ t, literal t ∈ segments → t ≠ [] ∧ '\n' ∉ t := by
  have hhalved (n k : Nat) {read : Text} (hread : '\n' ∉ read) :
      '\n' ∉ List.replicate n '\\' ++ read.drop k := by
    refine List.not_mem_append (fun hmem => ?_) fun hmem => hread (List.mem_of_mem_drop hmem)
    exact absurd (List.eq_of_mem_replicate hmem) (by decide)
  fun_induction scanAfter line read text generalizing segments with
  | case1 read =>
    obtain rfl := Except.ok.inj h
    intro t ht
    obtain ⟨rfl, hne⟩ := literal_mem_ofLiteral ht
    exact ⟨hne, fun hmem => hread (List.mem_reverse.mp hmem)⟩
  | case2 =>
    rename_i read rest slashes halved hodd ih
    have hrest : '\n' ∉ rest := by simp_all
    refine ih h ?_ hrest
    refine List.not_mem_cons_of_ne_of_not_mem (by decide) ?_
    exact List.not_mem_cons_of_ne_of_not_mem (by decide) (hhalved _ _ hread)
  | case3 => cases h
  | case4 =>
    rename_i read rest slashes halved heven code after hbody ih
    obtain ⟨close, -, rfl⟩ := Brackets.eq_append_of_body hbody
    have hafter : '\n' ∉ after := by simp_all
    obtain ⟨more, hmore, rfl⟩ := Outcome.exists_of_map_eq_ok h
    intro t ht
    rcases List.mem_append.mp ht with ht | ht
    · obtain ⟨rfl, hne⟩ := literal_mem_ofLiteral ht
      exact ⟨hne, fun hmem => hhalved _ _ hread (List.mem_reverse.mp hmem)⟩
    · rcases List.mem_cons.mp ht with ht | ht
      · cases ht
      · exact ih hmore List.not_mem_nil hafter t ht
  | case5 read c rest hopen ih =>
    have hc : '\n' ≠ c ∧ '\n' ∉ rest := by simpa using htext
    exact ih h (List.not_mem_cons_of_ne_of_not_mem hc.1 hread) hc.2

/-- Text that is all literal is there after scanning. -/
theorem scanAfter_ne_nil {read text : Text} (h : scanAfter line read text = .ok segments)
    (hliteral : literalText? segments = some t) (hne : read ≠ [] ∨ text ≠ []) : t ≠ [] := by
  fun_induction scanAfter line read text generalizing segments t with
  | case1 read =>
    obtain rfl := Except.ok.inj h
    have hread : read ≠ [] := hne.resolve_right fun h => h rfl
    have hreverse : ¬read.reverse.isEmpty = true := by simpa using hread
    rw [ofLiteral, if_neg hreverse] at hliteral
    obtain rfl := Option.some.inj hliteral
    simpa using hread
  | case2 =>
    rename_i ih
    exact ih h hliteral (.inl (List.cons_ne_nil _ _))
  | case3 => cases h
  | case4 =>
    obtain ⟨more, hmore, rfl⟩ := Outcome.exists_of_map_eq_ok h
    unfold ofLiteral at hliteral
    split at hliteral <;> cases hliteral
  | case5 read c rest hopen ih => exact ih h hliteral (.inl (List.cons_ne_nil _ _))

/-- Text without code is scanned as it is. -/
theorem scan_of_not_infix (line : Nat) (h : ¬['#', '{'] <:+: t) :
    scan line t = .ok (ofLiteral t) := by
  have hopen : opensIn t = false := by rwa [← Bool.not_eq_true, opensIn_iff_infix]
  exact scanAfter_of_not_opensIn hopen

theorem literalText?_ofLiteral (t : Text) : literalText? (ofLiteral t) = some t := by
  cases t with
  | nil => rfl
  | cons c t => exact congrArg some (List.append_nil _)

theorem literalText?_append (h : literalText? (segments ++ more) = some t) :
    ∃ a b, literalText? segments = some a ∧ literalText? more = some b ∧ t = a ++ b := by
  induction segments generalizing t with
  | nil => exact ⟨[], t, rfl, h, rfl⟩
  | cons segment segments ih =>
    cases segment with
    | expression code => cases h
    | literal text =>
      obtain ⟨rest, hrest, rfl⟩ := Option.map_eq_some_iff.mp h
      obtain ⟨a, b, ha, hb, rfl⟩ := ih hrest
      refine ⟨text ++ a, b, ?_, hb, (List.append_assoc text a b).symm⟩
      rw [literalText?, ha]
      rfl

theorem literalText?_append_of_eq_some {u : Text} (hfirst : literalText? segments = some t)
    (hmore : literalText? more = some u) : literalText? (segments ++ more) = some (t ++ u) := by
  induction segments generalizing t with
  | nil =>
    obtain rfl := Option.some.inj hfirst
    exact hmore
  | cons segment segments ih =>
    cases segment with
    | expression code => cases hfirst
    | literal text =>
      obtain ⟨rest, hrest, rfl⟩ := Option.map_eq_some_iff.mp hfirst
      rw [List.cons_append, literalText?, ih hrest, List.append_assoc]
      rfl

theorem isLiteral_of_literalText? (h : literalText? segments = some t) :
    ∀ s ∈ segments, s.isLiteral = true := by
  induction segments generalizing t with
  | nil => exact nofun
  | cons segment segments ih =>
    cases segment with
    | expression code => cases h
    | literal text =>
      obtain ⟨rest, hrest, -⟩ := Option.map_eq_some_iff.mp h
      exact List.forall_mem_cons.mpr ⟨rfl, ih hrest⟩

theorem literalText?_attach (segment : Segment) (segments : List Segment) :
    literalText? (attach segment segments) = literalText? (segment :: segments) := by
  unfold attach
  split
  · next text first rest =>
    simp only [literalText?, Option.map_map]
    congr 1
    funext t
    exact List.append_assoc text first t
  · rfl

theorem literalText?_merge (segments : List Segment) :
    literalText? (merge segments) = literalText? segments := by
  induction segments with
  | nil => rfl
  | cons segment rest ih =>
    change literalText? (attach segment (merge rest)) = _
    rw [literalText?_attach]
    cases segment with
    | literal text => rw [literalText?, literalText?, ih]
    | expression code => rfl

theorem not_mem_of_literalText? (h : literalText? segments = some t)
    (hsegments : ∀ u, literal u ∈ segments → '\n' ∉ u) : '\n' ∉ t := by
  induction segments generalizing t with
  | nil =>
    obtain rfl := Option.some.inj h
    exact List.not_mem_nil
  | cons segment segments ih =>
    cases segment with
    | expression code => cases h
    | literal text =>
      obtain ⟨rest, hrest, rfl⟩ := Option.map_eq_some_iff.mp h
      refine List.not_mem_append (hsegments text List.mem_cons_self) (ih hrest fun u hu => ?_)
      exact hsegments u (List.mem_cons_of_mem _ hu)

end Haml.Segment
