import Mathlib.Data.List.Chain
import Haml.Proofs.Outcome
import Haml.Proofs.Text.Closed
import Haml.Segment

/-! Scanning and printing of segments. A printed literal has one more backslash than twice as many
before each opening pair, and twice as many at its end where code follows; scanning halves them
again. The scanner counts the backslashes on what it has read so far, so the proofs say what a
printed literal leaves there. -/

namespace Haml.Segment

/-- What scanning makes: no literal is empty or stands beside another, and code is trimmed and
closed. -/
structure Canonical (segments : List Segment) : Prop where
  filled : literal [] ∉ segments
  apart : segments.IsChain fun a b => ¬(a.isLiteral = true ∧ b.isLiteral = true)
  code : ∀ code, expression code ∈ segments →
    Text.trim code = code ∧ Brackets.braces.Closed code

/-- Literal text as it is written behind `slashes` backslashes that belong to it. A run of
backslashes before an opening pair is doubled with one more, a run at the end is doubled where code
follows, and any other run is kept. -/
def escape (followed : Bool) : Nat → Text → Text
  | slashes, [] => List.replicate (if followed then 2 * slashes else slashes) '\\'
  | slashes, '\\' :: rest => escape followed (slashes + 1) rest
  | slashes, '#' :: '{' :: rest =>
    List.replicate (2 * slashes + 1) '\\' ++ '#' :: '{' :: escape followed 0 rest
  | slashes, c :: rest => List.replicate slashes '\\' ++ c :: escape followed 0 rest

def print : List Segment → Text
  | [] => []
  | literal text :: rest => escape (rest.head?.any (!·.isLiteral)) 0 text ++ print rest
  | expression code :: rest => '#' :: '{' :: (code ++ '}' :: print rest)

theorem opensIn_iff_infix {t : Text} : opensIn t = true ↔ ['#', '{'] <:+: t := by
  induction t with
  | nil => simp [opensIn]
  | cons c rest ih =>
    rw [List.infix_cons_iff, ← ih]
    by_cases h : ['#', '{'] <+: c :: rest
    · obtain ⟨tail, htail⟩ := h
      obtain ⟨rfl, rfl⟩ : '#' = c ∧ '{' :: tail = rest := by simpa using htail
      simp [opensIn]
    · rw [opensIn]
      · simp [h]
      · rintro tail rfl rfl
        exact h ⟨tail, rfl⟩

variable {line m n : Nat} {read : Text}

section Scan

theorem scanAfter_nil : scanAfter line read [] = .ok (ofLiteral read.reverse) := by rw [scanAfter]

theorem scanAfter_cons {c : Char} {rest : Text} (h : c = '#' → rest.head? ≠ some '{') :
    scanAfter line read (c :: rest) = scanAfter line (c :: read) rest := by
  rw [scanAfter]
  rintro tail rfl rfl
  exact h rfl rfl

/-- Text without an opening pair is read as it stands. -/
theorem scanAfter_append {t rest : Text} (h : ¬['#', '{'] <:+: t) (hrest : rest.head? ≠ some '{') :
    scanAfter line read (t ++ rest) = scanAfter line (t.reverse ++ read) rest := by
  induction t generalizing read with
  | nil => rfl
  | cons c t ih =>
    have ht : ¬['#', '{'] <:+: t := fun hpair => h (hpair.trans (List.suffix_cons c t).isInfix)
    have hnext : c = '#' → (t ++ rest).head? ≠ some '{' := by
      rintro rfl hhead
      cases t with
      | nil => exact hrest hhead
      | cons d t =>
        obtain rfl : d = '{' := by simpa using hhead
        exact h ⟨[], t, rfl⟩
    rw [List.cons_append, scanAfter_cons hnext, ih ht, List.reverse_cons, List.append_assoc]
    rfl

theorem scanAfter_slashes (rest : Text) : scanAfter line read (List.replicate n '\\' ++ rest) =
    scanAfter line (List.replicate n '\\' ++ read) rest := by
  induction n generalizing read with
  | zero => rfl
  | succ n ih =>
    have hread : List.replicate n '\\' ++ '\\' :: read = List.replicate (n + 1) '\\' ++ read := by
      rw [List.replicate_succ', List.append_assoc]
      rfl
    rw [← hread, List.replicate_succ, List.cons_append,
      scanAfter_cons (fun h => absurd h (by decide)), ih]

theorem slashes_append (hread : read.head? ≠ some '\\') :
    ((List.replicate n '\\' ++ read).takeWhile (· == '\\')).length = n := by
  rw [List.takeWhile_append_of_pos (by simp)]
  cases read with
  | nil => simp
  | cons c read =>
    have hc : c ≠ '\\' := fun h => hread (by rw [h]; rfl)
    simp [hc]

theorem scanAfter_escaped (hread : read.head? ≠ some '\\') (rest : Text) :
    scanAfter line (List.replicate (2 * n + 1) '\\' ++ read) ('#' :: '{' :: rest) =
      scanAfter line ('{' :: '#' :: (List.replicate n '\\' ++ read)) rest := by
  have hhalf : (2 * n + 1) / 2 = n := by omega
  rw [scanAfter]
  rw [slashes_append hread, if_pos (by omega), hhalf,
    List.drop_left' (by rw [List.length_replicate])]

theorem scanAfter_code (line n : Nat) (hread : read.head? ≠ some '\\') {code : Text}
    (hcode : Brackets.braces.Closed code) (rest : Text) :
    scanAfter line (List.replicate (2 * n) '\\' ++ read) ('#' :: '{' :: (code ++ '}' :: rest)) =
      (scanAfter line [] rest).map fun segments =>
        ofLiteral (List.replicate n '\\' ++ read).reverse ++ expression code.trim :: segments := by
  have hhalf : 2 * n / 2 = n := by omega
  have hbody : Brackets.braces.body 0 .outside (code ++ '}' :: rest) = some (code, rest) :=
    hcode.body rfl rest
  have hslashes := slashes_append (n := 2 * n) hread
  rw [scanAfter_expression (by rw [hslashes]; omega) hbody, hslashes, hhalf,
    List.drop_left' (by rw [List.length_replicate])]

end Scan

theorem head?_replicate_append (hn : 0 < n) (c : Char) (rest : Text) :
    (List.replicate n c ++ rest).head? = some c := by
  cases n with
  | zero => omega
  | succ n => rfl

theorem head?_escape_of_pos (followed : Bool) (hn : 0 < n) (text rest : Text) :
    (escape followed n text ++ rest).head? = some '\\' := by
  fun_induction escape followed n text with
  | case1 n => exact head?_replicate_append (by split <;> omega) _ _
  | case2 n text ih => exact ih (by omega)
  | case3 n text ih =>
    rw [List.append_assoc]
    exact head?_replicate_append (by omega) _ _
  | case4 n c text _ _ ih =>
    rw [List.append_assoc]
    exact head?_replicate_append hn _ _

theorem head?_of_escape (followed : Bool) {text rest : Text} (hrest : rest.head? ≠ some '{')
    (h : (escape followed 0 text ++ rest).head? = some '{') : text.head? = some '{' := by
  rw [escape.eq_def] at h
  split at h
  · exact absurd (by simpa using h) hrest
  · rw [head?_escape_of_pos followed (by omega)] at h
    cases h
  · cases h
  · exact h

/-- A printed literal leaves the literal on the scanner, with the backslashes at its end doubled
where code follows. -/
theorem scanAfter_escape (followed : Bool) (n : Nat) (text : Text) {read rest : Text}
    (hread : read.head? ≠ some '\\') (hrest : rest.head? ≠ some '{') :
    ∃ core m, List.replicate n '\\' ++ text = core ++ List.replicate m '\\' ∧
      (core.reverse ++ read).head? ≠ some '\\' ∧
      scanAfter line read (escape followed n text ++ rest) = scanAfter line
        (List.replicate (if followed then 2 * m else m) '\\' ++ (core.reverse ++ read)) rest := by
  fun_induction escape followed n text generalizing read with
  | case1 n => exact ⟨[], n, by simp, by simpa using hread, scanAfter_slashes rest⟩
  | case2 n text ih =>
    obtain ⟨core, m, htext, hcore, hscan⟩ := ih hread
    refine ⟨core, m, ?_, hcore, hscan⟩
    rw [← htext, List.replicate_succ', List.append_assoc]
    rfl
  | case3 n text ih =>
    have hopen : ('{' :: '#' :: (List.replicate n '\\' ++ read)).head? ≠ some '\\' := nofun
    obtain ⟨core, m, htext, hcore, hscan⟩ := ih hopen
    refine ⟨List.replicate n '\\' ++ '#' :: '{' :: core, m, ?_, ?_, ?_⟩
    · simp [← htext]
    · simpa using hcore
    · rw [List.append_assoc, scanAfter_slashes, List.cons_append, List.cons_append,
        scanAfter_escaped hread, hscan]
      simp
  | case4 n c text hslash hopen ih =>
    have hplain : (c :: (List.replicate n '\\' ++ read)).head? ≠ some '\\' := by
      simpa using hslash
    obtain ⟨core, m, htext, hcore, hscan⟩ := ih hplain
    refine ⟨List.replicate n '\\' ++ c :: core, m, ?_, ?_, ?_⟩
    · simp [← htext]
    · simpa using hcore
    · have hnext : c = '#' → (escape followed 0 text ++ rest).head? ≠ some '{' := by
        intro hc hhead
        obtain ⟨tail, rfl⟩ := List.head?_eq_some_iff.mp (head?_of_escape followed hrest hhead)
        exact hopen tail hc rfl
      rw [List.append_assoc, scanAfter_slashes, List.cons_append, scanAfter_cons hnext, hscan]
      simp

section Canonical

variable {segment : Segment} {segments : List Segment}

theorem Canonical.of_cons (h : Canonical (segment :: segments)) : Canonical segments where
  filled hmem := h.filled (List.mem_cons_of_mem _ hmem)
  apart := h.apart.tail
  code c hmem := h.code c (List.mem_cons_of_mem _ hmem)

theorem canonical_ofLiteral (text : Text) : Canonical (ofLiteral text) := by
  cases text with
  | nil => exact ⟨nofun, .nil, nofun⟩
  | cons c rest => exact ⟨by simp [ofLiteral], .singleton _, by simp [ofLiteral]⟩

theorem Canonical.code_cons (h : Canonical segments) (text : Text) {code : Text}
    (htrim : Text.trim code = code) (hclosed : Brackets.braces.Closed code) :
    Canonical (ofLiteral text ++ expression code :: segments) := by
  have hcode : Canonical (expression code :: segments) := by
    refine ⟨by simpa using h.filled, ?_, ?_⟩
    · exact List.isChain_cons.mpr ⟨by simp [isLiteral], h.apart⟩
    · intro c hc
      rcases List.mem_cons.mp hc with heq | hmem
      · exact Segment.expression.inj heq ▸ ⟨htrim, hclosed⟩
      · exact h.code c hmem
  cases text with
  | nil => exact hcode
  | cons c rest =>
    refine ⟨by simpa [ofLiteral] using h.filled, ?_, ?_⟩
    · exact List.isChain_cons.mpr ⟨by simp [isLiteral], hcode.apart⟩
    · intro d hd
      exact hcode.code d (by simpa [ofLiteral] using hd)

/-- Code that is scanned is trimmed and closed, and literals are only begun behind it. -/
theorem canonical_of_scanAfter {t : Text} (h : scanAfter line read t = .ok segments) :
    Canonical segments := by
  fun_induction scanAfter line read t generalizing segments with
  | case1 read =>
    obtain rfl := Except.ok.inj h
    exact canonical_ofLiteral _
  | case2 =>
    rename_i ih
    exact ih h
  | case3 => cases h
  | case4 =>
    rename_i code after hbody ih
    obtain ⟨more, hmore, rfl⟩ := Outcome.exists_of_map_eq_ok h
    have hclosed := (Brackets.closed_of_body hbody).trim Brackets.braces_of_isBlank
    exact (ih hmore).code_cons _ (Text.trim_trim code) hclosed
  | case5 read c rest hopen ih => exact ih h

theorem scan_print (line : Nat) : ∀ segments, Canonical segments →
    scan line (print segments) = .ok segments
  | [], _ => scanAfter_nil
  | expression code :: rest, h => by
    obtain ⟨htrim, hclosed⟩ := h.code code List.mem_cons_self
    have hread : ([] : Text).head? ≠ some '\\' := nofun
    have hscan := scanAfter_code line 0 hread hclosed (print rest)
    have hrest : scanAfter line [] (print rest) = .ok rest := scan_print line rest h.of_cons
    rw [hrest, htrim] at hscan
    rw [scan, print]
    exact hscan
  | [literal text], h => by
    have hfilled : text ≠ [] := fun htext => h.filled (htext ▸ List.mem_cons_self)
    have hread : ([] : Text).head? ≠ some '\\' := nofun
    have hrest : ([] : Text).head? ≠ some '{' := nofun
    obtain ⟨core, m, htext, -, hscan⟩ := scanAfter_escape false 0 text hread hrest
    rw [scan, print, print, List.head?_nil, Option.any_none, hscan, scanAfter_nil]
    obtain rfl : text = core ++ List.replicate m '\\' := by simpa using htext
    simp [ofLiteral, hfilled]
  | literal text :: expression code :: rest, h => by
    have hfilled : text ≠ [] := fun htext => h.filled (htext ▸ List.mem_cons_self)
    obtain ⟨htrim, hclosed⟩ := h.code code (by simp)
    have hrest : scanAfter line [] (print rest) = .ok rest :=
      scan_print line rest h.of_cons.of_cons
    have hread : ([] : Text).head? ≠ some '\\' := nofun
    have hcode : (print (expression code :: rest)).head? ≠ some '{' := by simp [print]
    obtain ⟨core, m, htext, hcore, hscan⟩ := scanAfter_escape true 0 text hread hcode
    rw [scan, print, List.head?_cons, Option.any_some, isLiteral, Bool.not_false, hscan, print,
      if_pos rfl, scanAfter_code line m hcore hclosed, hrest, htrim]
    obtain rfl : text = core ++ List.replicate m '\\' := by simpa using htext
    simp [ofLiteral, hfilled, Except.map]
  | literal text :: literal more :: rest, h => by
    have hapart := (List.isChain_cons_cons.mp h.apart).1
    exact absurd ⟨rfl, rfl⟩ hapart

theorem scanAfter_of_not_opensIn {t : Text} (h : opensIn t = false) :
    scanAfter line read t = .ok (ofLiteral (read.reverse ++ t)) := by
  have hopen : ¬['#', '{'] <:+: t := by simp [← opensIn_iff_infix, h]
  have hend : ([] : Text).head? ≠ some '{' := nofun
  have hscan : scanAfter line read (t ++ []) = scanAfter line (t.reverse ++ read) [] :=
    scanAfter_append hopen hend
  rw [List.append_nil, scanAfter_nil] at hscan
  simpa using hscan

end Canonical

/-- Scanning and printing are inverse to each other: on canonical lists, which are those that
scanning makes. Text without an opening pair is scanned to itself. -/
theorem scan_print_inverse (line : Nat) :
    (∀ segments, Canonical segments → scan line (print segments) = .ok segments) ∧
    (∀ text segments, scan line text = .ok segments →
      Canonical segments ∧ scan line (print segments) = .ok segments) ∧
    ∀ text, ¬['#', '{'] <:+: text →
      scan line text = .ok (if text = [] then [] else [literal text]) := by
  refine ⟨scan_print line, ?_, ?_⟩
  · intro text segments h
    have hcanonical : Canonical segments := canonical_of_scanAfter h
    exact ⟨hcanonical, scan_print line segments hcanonical⟩
  · intro text h
    have hopens : opensIn text = false := by
      rw [← Bool.not_eq_true, opensIn_iff_infix]
      exact h
    rw [scan, scanAfter_of_not_opensIn hopens]
    simp [ofLiteral, List.isEmpty_iff]

theorem scan_print_inverse_slashes :
    Canonical [literal "a\\", expression "x", literal "\\#\x7by\x7d"] ∧
    print [literal "a\\", expression "x", literal "\\#\x7by\x7d"] =
      "a\\\\#\x7bx\x7d\\\\\\#\x7by\x7d".toList ∧
    scan 1 "a\\\\#\x7bx\x7d\\\\\\#\x7by\x7d" =
      .ok [literal "a\\", expression "x", literal "\\#\x7by\x7d"] ∧
    Canonical [literal "a\\", expression "x", literal "\\#\x7by\x7d"] ∧
    ¬['#', '{'] <:+: "a#b".toList ∧ scan 1 "a#b" = .ok [literal "a#b"] := by
  have hcanonical : Canonical [literal "a\\", expression "x", literal "\\#\x7by\x7d"] := by
    refine ⟨by decide, by simp [isLiteral], ?_⟩
    intro code hcode
    obtain rfl : code = "x".toList := by simpa using hcode
    exact ⟨by decide, by decide⟩
  have hprint : print [literal "a\\", expression "x", literal "\\#\x7by\x7d"] =
      "a\\\\#\x7bx\x7d\\\\\\#\x7by\x7d".toList := by decide
  obtain ⟨hscan, hresult, hplain⟩ := scan_print_inverse 1
  have hread := hscan _ hcanonical
  rw [hprint] at hread
  have hpair : ¬['#', '{'] <:+: "a#b".toList := by decide
  exact ⟨hcanonical, hprint, hread, (hresult _ _ hread).1, hpair, hplain _ hpair⟩

end Haml.Segment
