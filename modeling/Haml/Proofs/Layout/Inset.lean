import Haml.Proofs.Layout.Break
import Haml.Proofs.Layout.Seam
import Haml.Proofs.Render.Balance
import Haml.Proofs.Text.Words

/-! Writing one level further in. A page that is written behind an opening tag is the page that is
written without it, every line of it moved to the right: only line breaks are followed by
indentation, and text that has none in it is the same at all depths. -/

namespace Haml

namespace Text

variable {t u : Text}

/-- The text with every line but the first moved to the right. -/
def moveRight (t : Text) : Text := substitute '\n' ['\n', ' ', ' '] t

theorem moveRight_append (t u : Text) : moveRight (t ++ u) = moveRight t ++ moveRight u :=
  List.flatMap_append

theorem moveRight_break (t : Text) :
    moveRight ('\n' :: t) = '\n' :: ' ' :: ' ' :: moveRight t := rfl

theorem moveRight_ne_nil (h : t ≠ []) : moveRight t ≠ [] := by
  obtain ⟨c, t, rfl⟩ := List.exists_cons_of_ne_nil h
  by_cases hc : c = '\n' <;> simp [moveRight, substitute, hc]

theorem moveRight_of_not_mem (h : '\n' ∉ t) : moveRight t = t := by
  have hself : ∀ c ∈ t, (if c = '\n' then ['\n', ' ', ' '] else [c]) = [c] := by
    intro c hc
    exact if_neg fun (heq : c = '\n') => h (heq ▸ hc)
  rw [moveRight, substitute, List.flatMap_congr hself]
  exact List.flatMap_singleton' t

/-- A text with a line feed at its end, by its lines: what it is, and what it is moved to the
right. -/
theorem exists_moved (t : Text) : ∃ lines : List Text, (∀ line ∈ lines, '\n' ∉ line) ∧
    t ++ ['\n'] = lines.flatMap (fun line => line ++ ['\n']) ∧
    [' ', ' '] ++ moveRight t ++ ['\n'] =
      lines.flatMap fun line => [' ', ' '] ++ line ++ ['\n'] := by
  have hlines : ∀ (first : Text) (rest : List Text), '\n' ∉ first → (∀ line ∈ rest, '\n' ∉ line) →
      (first ++ rest.flatMap fun line => '\n' :: line) ++ ['\n'] =
        (first :: rest).flatMap (fun line => line ++ ['\n']) ∧
      [' ', ' '] ++ moveRight (first ++ rest.flatMap fun line => '\n' :: line) ++ ['\n'] =
        (first :: rest).flatMap fun line => [' ', ' '] ++ line ++ ['\n'] := by
    intro first rest hfirst hrest
    induction rest generalizing first with
    | nil => simp [moveRight_of_not_mem hfirst]
    | cons next rest ih =>
      obtain ⟨hnext, hrest⟩ := List.forall_mem_cons.mp hrest
      obtain ⟨hplain, hmoved⟩ := ih next hnext hrest
      constructor
      · rw [List.flatMap_cons, List.flatMap_cons, ← hplain]
        simp
      · rw [List.flatMap_cons, List.flatMap_cons, ← hmoved]
        simp [moveRight_append, moveRight_break, moveRight_of_not_mem hfirst]
  have hjoin : Text.join ['\n'] (t.splitOn '\n') = t := List.intercalate_splitOn '\n'
  have hpieces : ∀ line ∈ t.splitOn '\n', '\n' ∉ line := by
    intro line hline hmem
    have hfalse := not_of_mem_splitOnP hline '\n' hmem
    simp at hfalse
  cases hsplit : t.splitOn '\n' with
  | nil => exact absurd hsplit (List.splitOnP_ne_nil _ t)
  | cons first rest =>
    rw [hsplit] at hjoin hpieces
    rw [Text.join_cons] at hjoin
    obtain ⟨hfirst, hrest⟩ := List.forall_mem_cons.mp hpieces
    exact ⟨first :: rest, hpieces, hjoin ▸ hlines first rest hfirst hrest⟩

end Text

open Text (moveRight)

/-- The name in the tag that an action writes, if it writes one. -/
def Action.tag : Action → Text
  | openTag name _ _ _ => name
  | closeTag name _ => name
  | selfClose name _ _ _ _ => name
  | _ => []

namespace Layout

/-- Padding is for the lines behind a line break. -/
theorem padLines_of_not_mem (padding : Text) {t : Text} (h : '\n' ∉ t) :
    padLines padding t = t := by
  obtain ⟨first, rest, rfl, hpad⟩ := exists_padLines padding t
  cases rest with
  | nil => exact hpad
  | cons next rest => simp at h

/-- Pages that have been started, the second behind a text and one level deeper, where all lines of
the first are moved to the right. -/
structure Inset (before : Text) (l m : Layout) : Prop where
  out : m.out.text = before ++ moveRight l.out.text
  regions : m.regions = l.regions
  depth : m.depth = l.depth + 1
  suppressBreak : m.suppressBreak = l.suppressBreak
  started : l.out.text ≠ []

variable {before : Text} {l m : Layout} {t : Text}

theorem onlyIf_false (l : Layout) (change : Layout → Layout) : l.onlyIf false change = l := rfl

theorem depth_onlyIf_closeRegion (l : Layout) (condition : Bool) :
    (l.onlyIf condition closeRegion).depth = l.depth := by
  cases condition with
  | false => rfl
  | true =>
    change l.closeRegion.depth = l.depth
    unfold closeRegion
    cases l.regions with
    | nil => rfl
    | cons region rest => cases rest <;> rfl

theorem not_mem_mark {name attributes suffix : Text} (hname : '\n' ∉ name)
    (hattributes : '\n' ∉ attributes) (hsuffix : '\n' ∉ suffix) :
    '\n' ∉ '<' :: name ++ attributes ++ suffix := by
  simp [hname, hattributes, hsuffix]

namespace Inset

/-- Texts that differ by indentation outside of all regions, and not at all inside of one. -/
theorem append_moved (h : Inset before l m) {u : Text} (hout : l.regions = [] → u = moveRight t)
    (hregion : l.regions ≠ [] → u = t) : Inset before (l.append t) (m.append u) := by
  constructor
  · rw [out_append, out_append, h.out, h.regions]
    split
    · next hnil => rw [hout hnil, Text.moveRight_append, List.append_assoc]
    · rw [List.append_nil, List.append_nil]
  · unfold Layout.append
    rw [h.regions]
    cases hcons : l.regions with
    | nil => rfl
    | cons region rest => rw [hregion (hcons ▸ List.cons_ne_nil region rest)]
  · unfold Layout.append
    rw [h.regions]
    cases l.regions <;> exact h.depth
  · rw [suppressBreak_append, suppressBreak_append, h.suppressBreak]
  · rw [out_append]
    exact List.append_ne_nil_of_left_ne_nil h.started _

section Chain

variable (h : Inset before l m)

include h

theorem append (ht : '\n' ∉ t) : Inset before (l.append t) (m.append t) :=
  h.append_moved (fun _ => (Text.moveRight_of_not_mem ht).symm) fun _ => rfl

/-- The indentation behind a line break is where the pages differ. -/
theorem newLine :
    Inset before (l.append ('\n' :: l.padding)) (m.append ('\n' :: m.padding)) := by
  refine h.append_moved (fun hnil => ?_) fun hne => ?_
  · have hspaces : '\n' ∉ List.replicate (2 * l.depth) ' ' := fun hmem =>
      absurd (List.eq_of_mem_replicate hmem) (by decide)
    unfold padding
    rw [h.regions, hnil, h.depth, List.isEmpty_nil, if_pos rfl, if_pos rfl, Text.moveRight_break,
      Text.moveRight_of_not_mem hspaces]
    rfl
  · have hfilled : l.regions.isEmpty = false := List.isEmpty_eq_false_iff.mpr hne
    unfold padding
    rw [h.regions, hfilled]
    rfl

theorem isEmpty_current : m.current.isEmpty = l.current.isEmpty := by
  unfold current
  rw [h.regions]
  cases l.regions with
  | nil =>
    have hl := h.started
    have hm : before ++ moveRight l.out.text ≠ [] :=
      List.append_ne_nil_of_right_ne_nil before (Text.moveRight_ne_nil hl)
    change m.out.isEmpty = l.out.isEmpty
    rw [Buffer.isEmpty_eq, Buffer.isEmpty_eq, h.out, List.isEmpty_eq_false_iff.mpr hl,
      List.isEmpty_eq_false_iff.mpr hm]
  | cons region rest => rfl

theorem indent : Inset before l.indent m.indent :=
  ⟨h.out, h.regions, congrArg (· + 1) h.depth, h.suppressBreak, h.started⟩

theorem dedent (hdepth : 0 < l.depth) : Inset before l.dedent m.dedent := by
  refine ⟨h.out, h.regions, ?_, h.suppressBreak, h.started⟩
  change m.depth - 1 = l.depth - 1 + 1
  have := h.depth
  omega

theorem suppress : Inset before l.suppress m.suppress :=
  ⟨h.out, h.regions, h.depth, rfl, h.started⟩

theorem openRegion : Inset before l.openRegion m.openRegion :=
  ⟨h.out, congrArg (({} : Buffer) :: ·) h.regions, h.depth, h.suppressBreak, h.started⟩

/-- What a region leaves has no line break in it. -/
theorem closeRegion : Inset before l.closeRegion m.closeRegion := by
  unfold Layout.closeRegion
  rw [h.regions]
  cases l.regions with
  | nil => exact h
  | cons region rest =>
    have hrest : Inset before { l with regions := rest } { m with regions := rest } :=
      ⟨h.out, rfl, h.depth, h.suppressBreak, h.started⟩
    exact hrest.append (Entity.not_mem_encodeBreaks _)

theorem breakLine : Inset before l.breakLine m.breakLine := by
  unfold Layout.breakLine
  rw [h.suppressBreak, h.isEmpty_current]
  split
  · exact ⟨h.out, h.regions, h.depth, rfl, h.started⟩
  · split
    · exact h
    · exact h.newLine

theorem writeLines (ht : '\n' ∉ t) : Inset before (l.writeLines t) (m.writeLines t) := by
  unfold Layout.writeLines
  rw [padLines_of_not_mem _ ht, padLines_of_not_mem _ ht]
  exact h.append ht

theorem write (ht : '\n' ∉ t) {flow : Flow} (hdepth : flow = .closing → 0 < l.depth) :
    Inset before (l.write t flow) (m.write t flow) := by
  cases flow with
  | inline => exact h.append ht
  | line => exact h.breakLine.writeLines ht
  | opening => exact (h.breakLine.writeLines ht).indent
  | closing => exact (h.dedent (hdepth rfl)).breakLine.writeLines ht

theorem onlyIf (condition : Bool) {change : Layout → Layout}
    (hchange : ∀ {l m}, Inset before l m → Inset before (change l) (change m)) :
    Inset before (l.onlyIf condition change) (m.onlyIf condition change) := by
  cases condition with
  | false => exact h
  | true => exact hchange h

/-- What an opening tag leaves behind its mark. -/
theorem insideTag (flags : TagFlags) : Inset before
    ((l.onlyIf flags.preserve Layout.openRegion).onlyIf (!flags.inline)
      (if flags.nukeInner then Layout.suppress else Layout.indent))
    ((m.onlyIf flags.preserve Layout.openRegion).onlyIf (!flags.inline)
      (if flags.nukeInner then Layout.suppress else Layout.indent)) := by
  refine (h.onlyIf flags.preserve openRegion).onlyIf (!flags.inline) fun h => ?_
  cases flags.nukeInner with
  | false => exact h.indent
  | true => exact h.suppress

theorem openTag {name attributes : Text} (hname : '\n' ∉ name) (hattributes : '\n' ∉ attributes)
    (flags : TagFlags) :
    Inset before (l.openTag name attributes flags) (m.openTag name attributes flags) :=
  ((h.onlyIf flags.nukeOuter suppress).breakLine.append
    (not_mem_mark hname hattributes (by decide))).insideTag flags

theorem closeTag {name : Text} (hname : '\n' ∉ name) {flags : TagFlags}
    (hdepth : flags.inline = false → flags.nukeInner = false → 0 < l.depth) :
    Inset before (l.closeTag name flags) (m.closeTag name flags) := by
  have hmark : '\n' ∉ '<' :: '/' :: name ++ ['>'] := by simp [hname]
  refine Inset.onlyIf (Inset.append ?_ hmark) flags.nukeOuter suppress
  have hclosed := h.onlyIf flags.preserve closeRegion
  cases hinline : flags.inline with
  | true => exact hclosed
  | false =>
    cases hnuke : flags.nukeInner with
    | true => exact hclosed.suppress.breakLine
    | false =>
      refine (hclosed.dedent ?_).breakLine
      rw [depth_onlyIf_closeRegion]
      exact hdepth hinline hnuke

theorem selfCloseTag {name attributes : Text} (hname : '\n' ∉ name)
    (hattributes : '\n' ∉ attributes) (nukeOuter : Bool) (format : Format) :
    Inset before (l.selfCloseTag name attributes nukeOuter format)
      (m.selfCloseTag name attributes nukeOuter format) := by
  have hsuffix : '\n' ∉ format.selfCloseSuffix := by cases format <;> decide
  exact ((h.onlyIf nukeOuter suppress).breakLine.append
    (not_mem_mark hname hattributes hsuffix)).onlyIf nukeOuter suppress

theorem place {a : Action} (htag : '\n' ∉ a.tag) (ht : '\n' ∉ t) (hfits : a.Fits l)
    (format : Format) : Inset before (a.place format t l) (a.place format t m) := by
  have hwrite {flow : Flow} (hclosing : flow = .closing → a.shape = .closing .part) :
      Inset before (l.write t flow) (m.write t flow) :=
    h.write ht fun hflow => hfits .part (hclosing hflow)
  have hline : Inset before (l.write t .line) (m.write t .line) := h.breakLine.writeLines ht
  cases a with
  | literal _ flow => exact hwrite fun hflow => hflow ▸ rfl
  | expr _ _ _ flow _ => exact hwrite fun hflow => hflow ▸ rfl
  | openTag name _ flags _ => exact h.openTag htag ht flags
  | closeTag name flags => exact h.closeTag htag (hfits _ rfl).2
  | selfClose name _ nukeOuter _ _ => exact h.selfCloseTag htag ht nukeOuter format
  | filter _ _ _ =>
    rw [Action.place, Action.place]
    split
    · exact h
    · exact hline
  | doctype _ => exact hline

end Chain

end Inset

/-- No closing end among the actions is reached where there is nothing to close. -/
def AllFit (o : Options) : Layout → List Action → Prop
  | _, [] => True
  | l, a :: rest => a.Fits l ∧ AllFit o (a.place o.format (a.text o) l) rest

theorem Inset.play {o : Options} (h : Inset before l m) {actions : List Action}
    (htexts : ∀ a ∈ actions, '\n' ∉ a.tag ∧ '\n' ∉ a.text o) (hfits : AllFit o l actions) :
    Inset before (l.play o actions) (m.play o actions) := by
  induction actions generalizing l m with
  | nil => exact h
  | cons a actions ih =>
    obtain ⟨ha, hactions⟩ := List.forall_mem_cons.mp htexts
    exact ih (h.place ha.1 ha.2 hfits.1 o.format) hactions hfits.2

/-- The first line, on an empty page and below an opening tag. -/
theorem inset_start {y : Buffer} (hne : t ≠ []) (ht : '\n' ∉ t) :
    Inset y.text (append {} t) (append ⟨y, [], 1, false⟩ t) where
  out := by
    rw [out_append, out_append, if_pos rfl, Text.moveRight_append, Text.moveRight_of_not_mem ht]
    rfl
  regions := rfl
  depth := rfl
  suppressBreak := rfl
  started := by
    rw [out_append, if_pos rfl]
    exact List.append_ne_nil_of_right_ne_nil _ hne

theorem inset_place {o : Options} {a : Action} (hstarts : a.StartsLine)
    (hnukes : a.nukesBefore = false) (htag : '\n' ∉ a.tag) (htext : '\n' ∉ a.text o) {y : Buffer}
    (hm : m.breakLine = ⟨y, [], 1, false⟩) :
    Inset y.text (a.place o.format (a.text o) {}) (a.place o.format (a.text o) m) := by
  have hwrite {t : Text} (hne : t ≠ []) (ht : '\n' ∉ t) :
      Inset y.text (breakLine {} |>.writeLines t) (m.breakLine.writeLines t) := by
    rw [hm, writeLines, writeLines, padLines_of_not_mem _ ht, padLines_of_not_mem _ ht]
    exact inset_start hne ht
  cases a with
  | literal text flow =>
    cases flow with
    | line => exact hwrite hstarts htext
    | opening => exact (hwrite hstarts htext).indent
    | _ => cases hstarts
  | openTag name attributes flags line =>
    have hkept : flags.nukeOuter = false := hnukes
    have hmark := @inset_start _ y (List.cons_ne_nil _ _)
      (not_mem_mark htag htext (by decide : '\n' ∉ ['>']))
    rw [Action.place, Action.place, openTag, openTag, hkept, onlyIf_false, onlyIf_false, hm]
    exact hmark.insideTag flags
  | selfClose name attributes nukeOuter nukeInner line =>
    obtain rfl : nukeOuter = false := hnukes
    have hsuffix : '\n' ∉ o.format.selfCloseSuffix := by cases o.format <;> decide
    have hmark := @inset_start _ y (List.cons_ne_nil _ _) (not_mem_mark htag htext hsuffix)
    rw [Action.place, Action.place, selfCloseTag, selfCloseTag]
    simp only [onlyIf_false, hm]
    exact hmark
  | doctype text => exact hwrite hstarts htext
  | _ => cases hstarts

theorem breakLine_started {out : Buffer} (h : out.text ≠ []) (depth : Nat) :
    breakLine ⟨out, [], depth, false⟩ =
      ⟨out.append ('\n' :: List.replicate (2 * depth) ' '), [], depth, false⟩ := by
  have hfilled : out.isEmpty = false := by
    rw [Buffer.isEmpty_eq, List.isEmpty_eq_false_iff]
    exact h
  simp [breakLine, current, hfilled, append, padding]

/-- The closing tag of an element whose content is on lines of its own. -/
theorem finish_closeTag (h : Inset before l m) (hregions : l.regions = []) (hdepth : l.depth = 0)
    (hflag : l.suppressBreak = false) (name : Text) :
    (m.closeTag name ⟨false, false, false, false⟩).finish =
      before ++ moveRight l.out.text ++ ['\n'] ++ ('<' :: '/' :: name ++ ['>', '\n']) := by
  obtain ⟨out, regions, depth, suppressBreak⟩ := m
  obtain rfl : regions = [] := h.regions.trans hregions
  obtain rfl : depth = 1 := h.depth.trans (congrArg (· + 1) hdepth)
  obtain rfl : suppressBreak = false := h.suppressBreak.trans hflag
  have hout : out.text = before ++ moveRight l.out.text := h.out
  have hne : out.text ≠ [] :=
    hout ▸ List.append_ne_nil_of_right_ne_nil before (Text.moveRight_ne_nil h.started)
  have hclose : closeTag ⟨out, [], 1, false⟩ name ⟨false, false, false, false⟩ =
      (breakLine ⟨out, [], 0, false⟩).append ('<' :: '/' :: name ++ ['>']) := rfl
  have hend : Text.Solid ('<' :: '/' :: name ++ ['>']) := Text.solid_concat _ (by decide)
  rw [hclose, breakLine_started hne, finish_of_regions rfl, out_append, if_pos rfl,
    endLine_of_solid (Text.solid_append _ hend), Buffer.text_append, hout]
  simp

/-- Whole lines inside of an element: each of them two spaces further to the right. -/
theorem finish_play_inside {o : Options} {actions : List Action} (hlines : Action.Lines o actions)
    (hdepth : (play o {} actions).depth = 0) (hregions : (play o {} actions).regions = [])
    (hfirst : ∀ a ∈ actions.head?, a.nukesBefore = false)
    (hlast : ∀ a ∈ actions.getLast?, a.nukesAfter = false)
    (htexts : ∀ a ∈ actions, '\n' ∉ a.tag ∧ '\n' ∉ a.text o) (hfits : AllFit o {} actions) :
    ∃ lines : List Text, (∀ line ∈ lines, '\n' ∉ line) ∧
      (play o {} actions).finish = lines.flatMap (fun line => line ++ ['\n']) ∧
      ∀ name attributes,
        (((openTag {} name attributes ⟨false, false, false, false⟩).play o actions).closeTag name
          ⟨false, false, false, false⟩).finish =
        '<' :: name ++ attributes ++ ['>', '\n'] ++
          lines.flatMap (fun line => [' ', ' '] ++ line ++ ['\n']) ++
          ('<' :: '/' :: name ++ ['>', '\n']) := by
  obtain ⟨lines, hunbroken, hplain, hmoved⟩ := Text.exists_moved (play o {} actions).out.text
  refine ⟨lines, hunbroken, ?_, fun name attributes => ?_⟩
  · rw [finish_of_regions hregions, endLine_of_solid (solid_out_play hlines {} hregions), hplain]
  · obtain ⟨a, ha, hstarts⟩ := hlines.first
    obtain ⟨b, hb, -, hflag⟩ := hlines.last
    obtain ⟨rest, rfl⟩ : ∃ rest, actions = a :: rest :=
      ⟨actions.tail, (List.cons_head?_tail ha).symm⟩
    obtain ⟨⟨htag, htext⟩, hrest⟩ := List.forall_mem_cons.mp htexts
    -- What is on the page when the first line begins.
    have hmark : Text.Solid ('<' :: name ++ attributes ++ ['>']) := Text.solid_concat _ (by decide)
    have hstarted : (({} : Buffer).append ('<' :: name ++ attributes ++ ['>'])).text ≠ [] := by
      rw [Buffer.text_append]
      exact hmark.ne_nil
    have hopen := breakLine_started hstarted 1
    have hinset := (inset_place hstarts (hfirst a ha) htag htext
      (m := openTag {} name attributes ⟨false, false, false, false⟩) hopen).play hrest hfits.2
    have hclose := finish_closeTag hinset hregions hdepth ((hflag {}).trans (hlast b hb)) name
    refine hclose.trans ?_
    rw [← hmoved]
    simp [Buffer.text, Buffer.append, List.reverseAux_eq, play]

end Layout

end Haml
