import Haml.Proofs.Outline.Solid
import Haml.Proofs.Render.Literal

/-! The plain filter gives its lines back. The lines below it are its block whatever they start
with, the indentation of the first one is taken off all of them, and with no code in them they are
one literal. -/

namespace Haml

/-- Lines without code, the blank ones empty and the last one not blank. The first one with content
is not indented. -/
structure Filter.Body (lines : List Text) : Prop where
  oneLine : ∀ t ∈ lines, Text.OneLine t
  literal : ∀ t ∈ lines, ¬['#', '{'] <:+: t
  blank : ∀ t ∈ lines, Text.isBlank t = true → t = []
  first : ∀ t ∈ lines.find? (!Text.isBlank ·), ∀ c ∈ t.head?, PhysicalLine.isIndentMark c = false
  last : ∃ t ∈ lines.getLast?, Text.isBlank t = false

/-- A line as it stands in a block: behind two spaces, or anything blank if it is empty. -/
inductive Filter.Indented : Text → Text → Prop
  | blank {written : Text} (hblank : Text.isBlank written = true) (hfeed : '\n' ∉ written) :
      Indented [] written
  | filled {t : Text} (hne : t ≠ []) : Indented t (' ' :: ' ' :: t)

/-- The ends of related lists are related. -/
theorem exists_getLast?_of_forall₂ {α β : Type} {R : α → β → Prop} {as : List α} {bs : List β}
    (h : List.Forall₂ R as bs) : ∀ b ∈ bs.getLast?, ∃ a ∈ as.getLast?, R a b := by
  intro b hb
  rw [← List.head?_reverse] at hb
  obtain ⟨before, hbefore⟩ := List.head?_eq_some_iff.mp hb
  have hreverse := List.forall₂_reverse_iff.mpr h
  rw [hbefore] at hreverse
  obtain ⟨a, rest, hab, -, hrest⟩ := List.forall₂_cons_right_iff.mp hreverse
  refine ⟨a, ?_, hab⟩
  rw [← List.head?_reverse, hrest]
  rfl

namespace Filter

variable {t u written : Text} {lines texts : List Text}

/-- A carriage return at the end of a line with content would be in the line itself. -/
theorem Indented.of_read (h : Indented t written) (ht : Text.OneLine t)
    (hu : written = u ∨ written = u ++ ['\r']) : Indented t u := by
  cases h with
  | blank hblank hfeed =>
    have hstart : u <+: written := by
      rcases hu with rfl | rfl
      · exact List.prefix_rfl
      · exact List.prefix_append u ['\r']
    refine .blank (List.all_eq_true.mpr fun c hc => ?_) fun hmem => hfeed (hstart.subset hmem)
    exact List.all_eq_true.mp hblank c (hstart.subset hc)
  | filled hne =>
    rcases hu with rfl | hreturn
    · exact .filled hne
    · have hlast := congrArg List.getLast? hreturn
      rw [List.getLast?_concat, ← List.singleton_append, ← List.singleton_append (l := t),
        ← List.append_assoc, List.getLast?_append_of_ne_nil _ hne] at hlast
      exact absurd rfl (ht '\r' (List.mem_of_getLast? hlast)).2

theorem forall_indented_of_read (hlines : ∀ t ∈ lines, Text.OneLine t) {all : List Text}
    (h : List.Forall₂ Indented lines all)
    (hall : List.Forall₂ (fun t u => t = u ∨ t = u ++ ['\r']) all texts) :
    List.Forall₂ Indented lines texts := by
  induction h generalizing texts with
  | nil =>
    cases hall
    exact .nil
  | cons hfirst _ ih =>
    obtain ⟨ht, hmore⟩ := List.forall_mem_cons.mp hlines
    cases hall with
    | cons hu hall => exact .cons (hfirst.of_read ht hu) (ih hmore hall)

theorem Indented.not_mem (h : Indented t written) (ht : Text.OneLine t) : '\n' ∉ written := by
  cases h with
  | blank _ hfeed => exact hfeed
  | filled =>
    refine List.not_mem_cons_of_ne_of_not_mem (by decide) ?_
    exact List.not_mem_cons_of_ne_of_not_mem (by decide) fun hmem => (ht '\n' hmem).1 rfl

theorem forall_not_mem (hlines : ∀ t ∈ lines, Text.OneLine t)
    (h : List.Forall₂ Indented lines texts) : ∀ written ∈ texts, '\n' ∉ written := by
  induction h with
  | nil => exact nofun
  | cons hfirst _ ih =>
    obtain ⟨ht, hmore⟩ := List.forall_mem_cons.mp hlines
    exact List.forall_mem_cons.mpr ⟨hfirst.not_mem ht, ih hmore⟩

theorem Body.join_ne_nil (hlines : Body lines) : Text.join ['\n'] lines ≠ [] := by
  obtain ⟨t, ht, hfilled⟩ := hlines.last
  have hmem : t ∈ lines := List.mem_of_getLast? ht
  cases lines with
  | nil => cases hmem
  | cons first rest =>
    rw [Text.join_cons]
    intro hnil
    obtain ⟨rfl, hrest⟩ := List.append_eq_nil_iff.mp hnil
    rcases List.mem_cons.mp hmem with rfl | hmem
    · cases hfilled
    · cases List.flatMap_eq_nil_iff.mp hrest t hmem

theorem ne_nil_of_mem_getLast? (hlines : Body lines) (h : List.Forall₂ Indented lines texts) :
    ∀ {written}, written ∈ texts.getLast? → written ≠ [] := by
  intro written hwritten
  obtain ⟨t, ht, hindented⟩ := exists_getLast?_of_forall₂ h written hwritten
  obtain ⟨u, hu, hfilled⟩ := hlines.last
  obtain rfl := Option.mem_unique ht hu
  cases hindented with
  | blank => cases hfilled
  | filled => exact List.cons_ne_nil _ _

end Filter

namespace PhysicalLine

/-- Lines as they stand in a block. -/
def Block (lines : List Text) (block : List PhysicalLine) : Prop :=
  List.Forall₂ (fun t raw => Filter.Indented t raw.text) lines block

variable {t : Text} {raw : PhysicalLine} {lines : List Text} {block : List PhysicalLine}

theorem block_numbered (n : Nat) {texts : List Text}
    (h : List.Forall₂ Filter.Indented lines texts) : Block lines (numbered n texts) := by
  induction h generalizing n with
  | nil => exact .nil
  | cons hfirst _ ih => exact .cons hfirst (ih (n + 1))

theorem isBlank_of_indented (hblank : Text.isBlank t = true → t = [])
    (h : Filter.Indented t raw.text) : raw.isBlank = t.isEmpty := by
  obtain ⟨number, written⟩ := raw
  cases h with
  | blank h => exact h
  | filled hne =>
    have hfilled : Text.isBlank t = false := Bool.eq_false_iff.mpr fun h => hne (hblank h)
    rw [List.isEmpty_eq_false_iff.mpr hne]
    exact hfilled

theorem Block.isBelow (h : Block lines block) : ∀ raw ∈ block, raw.isBelow [] = true := by
  induction h with
  | nil => exact nofun
  | @cons t raw _ _ hfirst _ ih =>
    refine List.forall_mem_cons.mpr ⟨?_, ih⟩
    obtain ⟨number, written⟩ := raw
    cases hfirst with
    | blank hblank => exact Bool.or_eq_true_iff.mpr (.inl hblank)
    | filled => exact Bool.or_eq_true_iff.mpr (.inr rfl)

theorem Block.dropBlankEnd (h : Block lines block)
    (hblank : ∀ t ∈ lines, Text.isBlank t = true → t = [])
    (hlast : ∃ t ∈ lines.getLast?, Text.isBlank t = false) :
    PhysicalLine.dropBlankEnd block = block := by
  refine List.rdropWhile_eq_self_iff.mpr fun hne => ?_
  obtain ⟨t, ht, hraw⟩ := exists_getLast?_of_forall₂ h _ (List.getLast?_eq_some_getLast hne)
  obtain ⟨u, hu, hfilled⟩ := hlast
  obtain rfl := Option.mem_unique ht hu
  rw [isBlank_of_indented (hblank t (List.mem_of_getLast? ht)) hraw, List.isEmpty_iff]
  rintro rfl
  cases hfilled

theorem Block.base (h : Block lines block) (hblank : ∀ t ∈ lines, Text.isBlank t = true → t = [])
    (hfirst : ∀ t ∈ lines.find? (!Text.isBlank ·), ∀ c ∈ t.head?, isIndentMark c = false)
    (hfilled : ∃ t ∈ lines, Text.isBlank t = false) : PhysicalLine.base block = [' ', ' '] := by
  induction h with
  | nil =>
    obtain ⟨t, ht, -⟩ := hfilled
    cases ht
  | @cons t raw lines block hraw _ ih =>
    obtain ⟨ht, hmore⟩ := List.forall_mem_cons.mp hblank
    have hempty := isBlank_of_indented ht hraw
    obtain ⟨number, written⟩ := raw
    cases hraw with
    -- Blank lines in front have no say in the indentation.
    | blank =>
      have hbase : PhysicalLine.base (⟨number, written⟩ :: block) = PhysicalLine.base block := by
        rw [PhysicalLine.base, List.find?_cons_of_neg (by simpa using hempty)]
        rfl
      rw [hbase]
      refine ih hmore ?_ ?_
      · exact hfirst
      · obtain ⟨t, ht, hfilled⟩ := hfilled
        rcases List.mem_cons.mp ht with rfl | ht
        · cases hfilled
        · exact ⟨t, ht, hfilled⟩
    | filled hne =>
      have hnot : Text.isBlank t = false := Bool.eq_false_iff.mpr fun h => hne (ht h)
      rw [List.isEmpty_eq_false_iff.mpr hne] at hempty
      rw [PhysicalLine.base, List.find?_cons_of_pos (by simpa using hempty)]
      rw [List.find?_cons_of_pos (by simpa using hnot)] at hfirst
      have hmarks : t.takeWhile isIndentMark = [] := by
        cases t with
        | nil => rfl
        | cons c t => exact List.takeWhile_cons_of_neg (by simpa using hfirst _ rfl c rfl)
      change ' ' :: ' ' :: t.takeWhile isIndentMark = _
      rw [hmarks]

end PhysicalLine

namespace Item

variable {base : Text} {raw : PhysicalLine} {rest : List PhysicalLine} {first more : List Segment}

theorem filterSegments_cons (hblank : raw.isBlank = true → first = [])
    (hscan : raw.isBlank = false → Segment.scan raw.number (raw.unindent base) = .ok first)
    (hmore : filterSegments base rest = .ok more) : filterSegments base (raw :: rest) =
      .ok (first ++ if rest.isEmpty then more else .literal ['\n'] :: more) := by
  rw [filterSegments]
  cases hraw : raw.isBlank with
  | true =>
    rw [hblank hraw, hmore]
    rfl
  | false =>
    rw [hscan hraw, hmore]
    rfl

/-- The segments of a block without code are the lines of it. -/
theorem literalText?_filterSegments {lines : List Text} {block : List PhysicalLine}
    (h : PhysicalLine.Block lines block) (hblank : ∀ t ∈ lines, Text.isBlank t = true → t = [])
    (hliteral : ∀ t ∈ lines, ¬['#', '{'] <:+: t) :
    ∃ segments, filterSegments [' ', ' '] block = .ok segments ∧
      Segment.literalText? segments = some (Text.join ['\n'] lines) := by
  induction h with
  | nil => exact ⟨[], rfl, rfl⟩
  | @cons t raw lines block hraw hblock ih =>
    obtain ⟨ht, hmore⟩ := List.forall_mem_cons.mp hblank
    obtain ⟨hopen, hliteral⟩ := List.forall_mem_cons.mp hliteral
    obtain ⟨more, hmore, hmoreText⟩ := ih hmore hliteral
    have hempty := PhysicalLine.isBlank_of_indented ht hraw
    have hcons : filterSegments [' ', ' '] (raw :: block) = .ok (Segment.ofLiteral t ++
        if block.isEmpty then more else .literal ['\n'] :: more) := by
      refine filterSegments_cons (fun h => ?_) (fun h => ?_) hmore
      · obtain rfl : t = [] := List.isEmpty_iff.mp (hempty ▸ h)
        rfl
      · obtain ⟨number, written⟩ := raw
        cases hraw with
        | blank => cases hempty.symm.trans h
        | filled => exact Segment.scan_of_not_infix number hopen
    refine ⟨_, hcons, ?_⟩
    have htext := Segment.literalText?_ofLiteral t
    cases hblock with
    | nil =>
      obtain rfl := Except.ok.inj hmore
      exact Segment.literalText?_append_of_eq_some htext rfl
    | cons _ _ =>
      rw [Text.join, List.intercalate_cons_cons, List.append_assoc]
      refine Segment.literalText?_append_of_eq_some htext ?_
      exact congrArg (Option.map (['\n'] ++ ·)) hmoreText

/-- A block without code below a plain filter is its lines. -/
theorem readFilter_plain {lines : List Text} (hlines : Filter.Body lines) (number : Nat)
    {block : List PhysicalLine} (h : PhysicalLine.Block lines block) :
    ∃ segments, Item.read ⟨number, number, [], ":plain"⟩ block =
        .ok (some (.filter "plain" segments), []) ∧
      Segment.literalText? segments = some (Text.join ['\n'] lines) := by
  have hwhole := h.dropBlankEnd hlines.blank hlines.last
  have hfilled : ∃ t ∈ lines, Text.isBlank t = false := by
    obtain ⟨t, ht, hfilled⟩ := hlines.last
    exact ⟨t, List.mem_of_getLast? ht, hfilled⟩
  have hbase := h.base hlines.blank hlines.first hfilled
  obtain ⟨segments, hsegments, htext⟩ := literalText?_filterSegments h hlines.blank hlines.literal
  refine ⟨Segment.merge segments, ?_, (Segment.literalText?_merge segments).trans htext⟩
  have htake : block.takeWhile (PhysicalLine.isBelow []) = block :=
    List.takeWhile_eq_self_iff.mpr h.isBelow
  have hdrop : block.dropWhile (PhysicalLine.isBelow []) = [] :=
    List.dropWhile_eq_nil_iff.mpr h.isBelow
  have hname : Text.trim "plain" = "plain".toList := rfl
  have hvalid : ¬("plain".toList.isEmpty || !"plain".toList.all isNameChar) = true := by decide
  change readFilter ⟨number, number, [], ":plain"⟩ "plain" block = _
  rw [readFilter]
  dsimp only
  rw [hname, if_neg hvalid, htake, hdrop, hwhole, hbase, hsegments]

end Item

/-- A plain filter with a block without code is a document of that filter. -/
theorem Outline.read_plain {lines written : List Text} (hlines : Filter.Body lines)
    (hwritten : List.Forall₂ Filter.Indented lines written) {ending : Text}
    (hending : ending = [] ∨ ending = ['\n']) :
    ∃ segments, read (":plain" ++ written.flatMap ('\n' :: ·) ++ ending) =
        .ok [⟨0, 1, .filter "plain" segments⟩] ∧
      Segment.literalText? segments = some (Text.join ['\n'] lines) := by
  have hfree : ∀ t ∈ ":plain".toList :: written, '\n' ∉ t :=
    List.forall_mem_cons.mpr ⟨by decide, Filter.forall_not_mem hlines.oneLine hwritten⟩
  have hlast : ∀ t ∈ (":plain".toList :: written).getLast?, t ≠ [] := by
    intro t ht
    cases written with
    | nil =>
      obtain rfl := Option.some.inj ht
      decide
    | cons first more =>
      rw [List.getLast?_cons_cons] at ht
      exact Filter.ne_nil_of_mem_getLast? hlines hwritten ht
  obtain ⟨first, texts, hfirst, hall, htexts⟩ :=
    List.forall₂_cons_left_iff.mp (Text.forall₂_lines hfree hlast hending)
  have hblock := PhysicalLine.block_numbered 2
    (Filter.forall_indented_of_read hlines.oneLine hwritten hall)
  obtain ⟨segments, hread, htext⟩ := Item.readFilter_plain hlines 1 hblock
  refine ⟨segments, ?_, htext⟩
  obtain rfl : ":plain".toList = first := by
    refine hfirst.resolve_right fun hreturn => ?_
    have hends := congrArg List.getLast? hreturn
    rw [List.getLast?_concat] at hends
    revert hends
    decide
  rw [read, PhysicalLine.ofSource, htexts]
  exact readFrom_alone rfl rfl rfl hread

/-- The plain filter gives the lines of its block. -/
theorem Program.render_plain {lines written : List Text} (hlines : Filter.Body lines)
    (hwritten : List.Forall₂ Filter.Indented lines written) {ending : Text}
    (hending : ending = [] ∨ ending = ['\n']) (o : Options) {r : Registry}
    (hplain : r.get? "plain" = some Filter.plain) :
    ∃ p, compile (":plain" ++ written.flatMap ('\n' :: ·) ++ ending) o r = .ok p ∧
      ∀ {σ : Type} (filters : Registry) (ev : Evaluator σ) (state : σ),
        p.render filters ev state = (.ok (Text.join ['\n'] lines ++ ['\n']), state) ∧
          p.calls filters ev state = [] := by
  obtain ⟨segments, hread, htext⟩ := Outline.read_plain hlines hwritten hending
  have hsolid : (Text.join ['\n'] lines).Solid :=
    Outline.solid_of_read hread (.mk 1 (.filter "plain" segments) []) List.mem_cons_self _ htext
      hlines.join_ne_nil
  have hitem : Compile.filter o r 1 "plain" segments =
      .ok [.act (.literal (Text.join ['\n'] lines) .line)] := by
    rw [Compile.filter_of_literal hplain htext rfl,
      if_neg fun hnil => hsolid.ne_nil (List.isEmpty_iff.mp hnil)]
  refine ⟨_, compile_alone hread hitem, ?_⟩
  intro σ filters ev state
  exact render_literal rfl hsolid filters ev state

/-- A block of lines that would mean something elsewhere, the first one blank. -/
theorem Program.render_plain_markers : ∃ p,
    compile ":plain\n \t\n  %a= b |\n\n      - c \\\n  [d\\#e |"
      { autoclose := ⟨["br"]⟩, preserve := ⟨["pre"]⟩ } .builtin = .ok p ∧
    ∀ {σ : Type} (filters : Registry) (ev : Evaluator σ) (state : σ),
      p.render filters ev state = (.ok "\n%a= b |\n\n    - c \\\n[d\\#e |\n", state) ∧
        p.calls filters ev state = [] := by
  have hlines : Filter.Body ["", "%a= b |", "", "    - c \\", "[d\\#e |"] := by
    refine ⟨by decide, by decide +kernel, by decide, fun t ht c hc => ?_, ⟨_, rfl, by decide⟩⟩
    obtain rfl : "%a= b |".toList = t := Option.some.inj ht
    obtain rfl : '%' = c := Option.some.inj hc
    rfl
  have hwritten : List.Forall₂ Filter.Indented ["", "%a= b |", "", "    - c \\", "[d\\#e |"]
      [" \t", "  %a= b |", "", "      - c \\", "  [d\\#e |"] :=
    .cons (.blank (by decide) (by decide)) <| .cons (.filled (by decide)) <|
      .cons (.blank (by decide) (by decide)) <| .cons (.filled (by decide)) <|
        .cons (.filled (by decide)) .nil
  exact render_plain hlines hwritten (.inl rfl) _ rfl

end Haml
