import Haml.Proofs.Compile.Forest
import Haml.Proofs.Layout.Seam
import Haml.Proofs.Line.Joined
import Haml.Proofs.Line.Source
import Haml.Proofs.Render.Static
import Haml.Proofs.Segment.RoundTrip
import Haml.Proofs.Text.Trim

/-! Text that comes out as it is. A document whose one item is written as one literal is a page of
that text. Any line can be made such a document: a backslash in front takes away what its first
characters mean, and the escapes of scanned text what opens code in it. -/

namespace Haml

namespace Layout

theorem padLines_nil (t : Text) : padLines [] t = t := by
  obtain ⟨first, rest, ht, hpad⟩ := exists_padLines [] t
  have hlines (line : Text) : (if line.isEmpty then [] else [] ++ line) = line := by
    cases line <;> rfl
  rw [hpad, ht]
  simp only [hlines]

/-- The page of one text. -/
theorem finish_write_line {t : Text} (h : t.Solid) :
    (write {} t .line).finish = t ++ ['\n'] := by
  have hout : (write {} t .line).out.text = t := by
    change (Buffer.append {} (padLines [] t)).text = t
    rw [Buffer.text_append, padLines_nil]
    rfl
  rw [finish_of_regions rfl, hout, endLine_of_solid h]

end Layout

namespace Program

/-- A program of one text gives the text, and asks for nothing. -/
theorem render_literal {p : Program} {t : Text} (hops : p.ops = [.act (.literal t .line)])
    (ht : t.Solid) {σ : Type} (filters : Registry) (ev : Evaluator σ) (state : σ) :
    p.render filters ev state = (.ok (t ++ ['\n']), state) ∧ p.calls filters ev state = [] := by
  have hactions : p.ops = [Action.literal t .line].map .act := hops
  have hstatic : ∀ a ∈ [Action.literal t .line], a.isStatic = true :=
    List.forall_mem_singleton.mpr rfl
  have hpage : (Layout.play p.options {} [.literal t .line]).finish = t ++ ['\n'] :=
    Layout.finish_write_line ht
  constructor
  · rw [render_static hactions hstatic, hpage]
  · rw [calls, render_static hactions hstatic]

theorem compile_alone {source : Text} {o : Options} {r : Registry} {line : Nat} {item : Item}
    {ops : List Op} (hread : Outline.read source = .ok [⟨0, line, item⟩])
    (hitem : Compile.item o r line true (.ok []) item = .ok ops) :
    compile source o r = .ok ⟨ops, o⟩ := by
  have hnodes : Compile.nodes o r [.mk line item []] = .ok ops := by
    rw [Compile.nodes, Compile.nodes, Compile.node, Compile.nodes, List.isEmpty_nil, hitem]
    exact congrArg Except.ok (List.append_nil ops)
  rw [compile, Document.read, hread]
  change (Compile.nodes o r [.mk line item []]).map _ = _
  rw [hnodes]
  rfl

end Program

/-- A line without indentation whose item takes all lines behind it is a document of that item. -/
theorem Outline.readFrom_alone {raw : PhysicalLine} {raws : List PhysicalLine} {item : Item}
    (hfilled : raw.isBlank = false) (hindent : raw.indent = [])
    (hcontinued : Line.isContinued raw.content = false)
    (hread : Item.read ⟨raw.number, raw.number, [], raw.content⟩ raws = .ok (some item, [])) :
    readFrom none [] (raw :: raws) = .ok [⟨0, raw.number, item⟩] := by
  have hline := Line.next?_cons hfilled hcontinued raws
  rw [hindent] at hline
  have hmeasured : Indentation.depth none [] = (.ok 0, none) := rfl
  have hentered : Path.enter 0 [] = .ok [] := rfl
  rw [readFrom_item hline hmeasured hentered hread, readFrom_done rfl]
  rfl

namespace Segment

variable {n : Nat} {t : Text}

/-- A line ends as it did before it was escaped. -/
theorem getLast?_escape (n : Nat) (t : Text) :
    (escape false n t).getLast? = (List.replicate n '\\' ++ t).getLast? := by
  fun_induction escape false n t with
  | case1 n => simp
  | case2 n t ih =>
    rw [ih, List.replicate_succ', List.append_assoc]
    rfl
  | case3 n t ih =>
    have hlast : (escape false 0 t).getLast? = t.getLast? := ih
    simp [List.getLast?_append, List.getLast?_cons, hlast]
  | case4 n c t hslash hopen ih =>
    have hlast : (escape false 0 t).getLast? = t.getLast? := ih
    simp [List.getLast?_append, List.getLast?_cons, hlast]

/-- Escaping puts in backslashes and nothing else. -/
theorem mem_of_mem_escape {c : Char} (h : c ∈ escape false n t) : c = '\\' ∨ c ∈ t := by
  fun_induction escape false n t with
  | case1 n => exact .inl (List.eq_of_mem_replicate h)
  | case2 n t ih => exact (ih h).imp_right (List.mem_cons_of_mem _)
  | case3 n t ih =>
    rcases List.mem_append.mp h with h | h
    · exact .inl (List.eq_of_mem_replicate h)
    · rcases List.mem_cons.mp h with rfl | h
      · exact .inr List.mem_cons_self
      · rcases List.mem_cons.mp h with rfl | h
        · exact .inr (List.mem_cons_of_mem _ List.mem_cons_self)
        · exact (ih h).imp_right fun h => List.mem_cons_of_mem _ (List.mem_cons_of_mem _ h)
  | case4 n d t hslash hopen ih =>
    rcases List.mem_append.mp h with h | h
    · exact .inl (List.eq_of_mem_replicate h)
    · rcases List.mem_cons.mp h with rfl | h
      · exact .inr List.mem_cons_self
      · exact (ih h).imp_right (List.mem_cons_of_mem _)

/-- No opening pair stands in front of an escaped line. -/
theorem not_prefix_escape (t : Text) : ¬['#', '{'] <+: escape false 0 t := by
  rintro ⟨rest, h⟩
  rw [escape.eq_def] at h
  split at h
  · cases h
  · next t =>
    have hhead := head?_escape_of_pos false Nat.one_pos t []
    rw [List.append_nil, ← h] at hhead
    cases hhead
  · cases h
  · next c t _ hopen =>
    obtain ⟨rfl, htail⟩ := List.cons.inj h
    have hhead : (escape false 0 t ++ []).head? = some '{' := by
      rw [List.append_nil, ← htail]
      rfl
    have hnil : ([] : Text).head? ≠ some '{' := nofun
    obtain ⟨after, rfl⟩ := List.head?_eq_some_iff.mp (head?_of_escape false hnil hhead)
    exact hopen after rfl rfl

theorem scan_escape (line : Nat) (hne : t ≠ []) :
    scan line (escape false 0 t) = .ok [literal t] := by
  have hcanonical := canonical_ofLiteral t
  have hliteral : ofLiteral t = [literal t] := if_neg fun h => hne (List.isEmpty_iff.mp h)
  have hprint : print [literal t] = escape false 0 t := by
    rw [print, print, List.append_nil]
    rfl
  rw [hliteral] at hcanonical
  rw [← hprint, scan_print line _ hcanonical]

end Segment

namespace Marker

/-- A backslash in front makes a line plain text, unless it stands before an opening pair. -/
theorem classify_backslash {t : Text} (h : ¬['#', '{'] <+: t) :
    classify ('\\' :: t) = (plain, t) := by
  rw [classify]
  rintro rest rfl
  exact h ⟨rest, rfl⟩

end Marker

namespace Outline

/-- A line that is forced to be text is a document of that text. -/
theorem read_forced {s : Text} (hne : s ≠ []) (hline : '\n' ∉ s) (hend : Text.trimEnd s = s)
    (hmark : s.getLast? ≠ some '|') :
    read ('\\' :: Segment.escape false 0 s) = .ok [⟨0, 1, .text [.literal s] .configured⟩] := by
  have hlast : ('\\' :: Segment.escape false 0 s).getLast? = s.getLast? := by
    rw [List.getLast?_cons, Segment.getLast?_escape, List.replicate_zero, List.nil_append,
      List.getLast?_eq_some_getLast hne]
    rfl
  have hfree : '\n' ∉ '\\' :: Segment.escape false 0 s := by
    refine List.not_mem_cons_of_ne_of_not_mem (by decide) fun hmem => ?_
    rcases Segment.mem_of_mem_escape hmem with heq | hmem
    · exact absurd heq (by decide)
    · exact hline hmem
  have htrim : Text.trimEnd ('\\' :: Segment.escape false 0 s) =
      '\\' :: Segment.escape false 0 s := by
    rw [Text.trimEnd_eq_self_iff, hlast]
    exact Text.trimEnd_eq_self_iff.mp hend
  have hsource : PhysicalLine.ofSource ('\\' :: Segment.escape false 0 s) =
      [⟨1, '\\' :: Segment.escape false 0 s⟩] := by
    rw [PhysicalLine.ofSource, Text.lines_of_not_mem hfree (List.cons_ne_nil _ _)]
    rfl
  have hcontent : PhysicalLine.content ⟨1, '\\' :: Segment.escape false 0 s⟩ =
      '\\' :: Segment.escape false 0 s := htrim
  have hitem : Item.read ⟨1, 1, [], '\\' :: Segment.escape false 0 s⟩ [] =
      .ok (some (.text [.literal s] .configured), []) := by
    rw [Item.read]
    dsimp only
    rw [Marker.classify_backslash (Segment.not_prefix_escape s)]
    dsimp only
    rw [Item.ofText, Segment.scan_escape 1 hne]
    rfl
  rw [read, hsource]
  refine readFrom_alone rfl rfl ?_ ?_
  · rw [hcontent]
    exact Line.isContinued_of_getLast? htrim (hlast ▸ hmark)
  · rw [hcontent]
    exact hitem

end Outline

/-- Any text of one line can be forced. -/
theorem Program.render_forced {s : Text} (hne : s ≠ []) (hline : '\n' ∉ s)
    (hend : Text.trimEnd s = s) (hmark : s.getLast? ≠ some '|') (o : Options) (r : Registry) :
    ∃ p, compile ('\\' :: Segment.escape false 0 s) o r = .ok p ∧
      ∀ {σ : Type} (filters : Registry) (ev : Evaluator σ) (state : σ),
        p.render filters ev state = (.ok (s ++ ['\n']), state) ∧ p.calls filters ev state = [] := by
  refine ⟨_, compile_alone (Outline.read_forced hne hline hend hmark) rfl, ?_⟩
  intro σ filters ev state
  exact render_literal rfl (Text.solid_of_not_mem hne hline) filters ev state

/-- A text with opening pairs in front and behind a backslash, and a backslash at its end. -/
theorem Program.render_forced_slashes : ∃ p,
    compile "\\\\#\x7ba\x7d \\\\\\#\x7bb\x7d|\\"
      { autoclose := ⟨["br"]⟩, preserve := ⟨["pre"]⟩ } .builtin = .ok p ∧
    ∀ {σ : Type} (filters : Registry) (ev : Evaluator σ) (state : σ),
      p.render filters ev state = (.ok "#\x7ba\x7d \\#\x7bb\x7d|\\\n", state) ∧
        p.calls filters ev state = [] := by
  have hescape : Segment.escape false 0 "#\x7ba\x7d \\#\x7bb\x7d|\\" =
      "\\#\x7ba\x7d \\\\\\#\x7bb\x7d|\\".toList := by decide
  have hforced := @render_forced "#\x7ba\x7d \\#\x7bb\x7d|\\" (by decide) (by decide) (by decide)
    (by decide) { autoclose := ⟨["br"]⟩, preserve := ⟨["pre"]⟩ } .builtin
  rw [hescape] at hforced
  exact hforced

end Haml
