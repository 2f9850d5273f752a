import Haml.Proofs.Layout.Behind
import Haml.Proofs.Text.Solid
import Haml.Proofs.Text.Words

/-! Pages one behind the other. Actions that begin and end with whole lines leave a page on which
others go on: with a line break in between, unless a tag on one side of the seam takes it away. -/

namespace Haml

open Text (Solid)

namespace Action

/-- Does an action take away the white space before it? -/
def nukesBefore : Action → Bool
  | openTag _ _ flags _ => flags.nukeOuter
  | selfClose _ _ nukeOuter _ _ => nukeOuter
  | _ => false

/-- Does an action take away the white space behind it? -/
def nukesAfter : Action → Bool
  | closeTag _ flags => flags.nukeOuter
  | selfClose _ _ nukeOuter _ _ => nukeOuter
  | _ => false

/-- Does an action put a text of its own on a new line? -/
def StartsLine : Action → Prop
  | literal text .line => text ≠ []
  | literal text .opening => text ≠ []
  | openTag _ _ _ _ => True
  | selfClose _ _ _ _ _ => True
  | doctype text => text ≠ []
  | _ => False

/-- Does an action put a text on the page that does not end in a line feed? -/
def EndsLine : Action → Prop
  | literal text _ => text.Solid
  | closeTag _ _ => True
  | selfClose _ _ _ _ _ => True
  | doctype text => text.Solid
  | _ => False

end Action

namespace Layout

theorem current_onlyIf_suppress (l : Layout) (condition : Bool) :
    (l.onlyIf condition suppress).current = l.current := by
  cases condition <;> rfl

/-- A text by its lines, and what padding makes of them. -/
theorem exists_padLines (padding t : Text) : ∃ (first : Text) (rest : List Text),
    t = first ++ rest.flatMap (fun line => '\n' :: line) ∧ padLines padding t =
      first ++ rest.flatMap fun line => '\n' :: if line.isEmpty then [] else padding ++ line := by
  have hjoin : Text.join ['\n'] (t.splitOn '\n') = t := List.intercalate_splitOn '\n'
  unfold padLines
  cases hsplit : t.splitOn '\n' with
  | nil =>
    rw [hsplit] at hjoin
    exact ⟨[], [], hjoin.symm, rfl⟩
  | cons first rest =>
    rw [hsplit, Text.join_cons] at hjoin
    exact ⟨first, rest, hjoin.symm, rfl⟩

theorem padLines_ne_nil (padding : Text) {t : Text} (h : t ≠ []) : padLines padding t ≠ [] := by
  obtain ⟨first, rest, rfl, hpad⟩ := exists_padLines padding t
  rw [hpad]
  cases rest with
  | nil => exact h
  | cons next rest => simp

/-- Padding does not change how a text ends, where it ends in something else than a line feed. -/
theorem solid_padLines (padding : Text) {t : Text} (h : Solid t) : Solid (padLines padding t) := by
  obtain ⟨first, rest, rfl, hpad⟩ := exists_padLines padding t
  rw [hpad]
  rcases List.eq_nil_or_concat' rest with rfl | ⟨init, last, rfl⟩
  · exact h
  · -- The last line is what the text ends with, and so is not empty.
    rw [List.flatMap_append, List.flatMap_singleton, ← List.append_assoc] at h ⊢
    have hlast : last ≠ [] := by
      rintro rfl
      exact h.getLast?_ne (by simp)
    have hsolid : Solid last := by
      obtain ⟨c, hc, hne⟩ := h
      refine ⟨c, ?_, hne⟩
      rwa [List.append_cons, List.getLast?_append_of_ne_nil _ hlast] at hc
    rw [List.isEmpty_eq_false_iff.mpr hlast]
    exact Text.solid_append _ (Text.solid_append ('\n' :: padding) hsolid)

theorem solid_current_writeLines (l : Layout) {t : Text} (h : Solid t) :
    Solid (l.writeLines t).current.text := by
  rw [writeLines, current_append]
  exact Text.solid_append _ (solid_padLines l.padding h)

/-- The text that an action leaves where output goes to, if it ends a line. -/
theorem solid_current_place (o : Options) (l : Layout) {a : Action} (ha : a.EndsLine) :
    Solid (a.place o.format (a.text o) l).current.text := by
  cases a with
  | literal text flow =>
    cases flow with
    | inline =>
      change Solid (l.append text).current.text
      rw [current_append]
      exact Text.solid_append _ ha
    | line => exact solid_current_writeLines _ ha
    | opening => exact solid_current_writeLines l.breakLine ha
    | closing => exact solid_current_writeLines _ ha
  | closeTag name flags =>
    unfold Action.place closeTag
    rw [current_onlyIf_suppress, current_append]
    exact Text.solid_append _ (Text.solid_concat ('<' :: '/' :: name) (by decide))
  | selfClose name attributes nukeOuter nukeInner line =>
    have hsuffix : Solid o.format.selfCloseSuffix := by
      cases o.format <;> exact ⟨'>', rfl, by decide⟩
    unfold Action.place selfCloseTag
    rw [current_onlyIf_suppress, current_append]
    exact Text.solid_append _ (Text.solid_append _ hsuffix)
  | doctype text => exact solid_current_writeLines _ ha
  | _ => cases ha

/-- A line that is begun behind a text. -/
theorem behind_start {before : Text} {x y : Buffer} (h : y.text = before ++ x.text) (depth : Nat)
    {t : Text} (ht : t ≠ []) :
    Behind before (append ⟨x, [], depth, false⟩ t) (append ⟨y, [], depth, false⟩ t) where
  out := by
    rw [out_append, out_append, h, List.append_assoc]
  regions := rfl
  depth := rfl
  suppressBreak := rfl
  started := by
    rw [out_append, if_pos rfl]
    exact List.append_ne_nil_of_right_ne_nil _ ht

/-- The break before an action that starts a line is all that it makes of what is on the page. -/
theorem behind_place {o : Options} {a : Action} (ha : a.StartsLine) {before : Text} {l m : Layout}
    {x y : Buffer} {depth : Nat}
    (hl : (l.onlyIf a.nukesBefore suppress).breakLine = ⟨x, [], depth, false⟩)
    (hm : (m.onlyIf a.nukesBefore suppress).breakLine = ⟨y, [], depth, false⟩)
    (h : y.text = before ++ x.text) :
    Behind before (a.place o.format (a.text o) l) (a.place o.format (a.text o) m) := by
  have hwrite {t : Text} (ht : t ≠ []) (hl : l.breakLine = ⟨x, [], depth, false⟩)
      (hm : m.breakLine = ⟨y, [], depth, false⟩) :
      Behind before (l.breakLine.writeLines t) (m.breakLine.writeLines t) := by
    rw [hl, hm]
    exact behind_start h depth (padLines_ne_nil _ ht)
  cases a with
  | literal text flow =>
    cases flow with
    | line => exact hwrite ha hl hm
    | opening => exact (hwrite ha hl hm).indent
    | _ => cases ha
  | openTag name attributes flags line =>
    change (l.onlyIf flags.nukeOuter suppress).breakLine = _ at hl
    change (m.onlyIf flags.nukeOuter suppress).breakLine = _ at hm
    rw [Action.place, Action.place, openTag, openTag, hl, hm]
    exact (behind_start h depth (List.cons_ne_nil _ _)).insideTag flags
  | selfClose name attributes nukeOuter nukeInner line =>
    change (l.onlyIf nukeOuter suppress).breakLine = _ at hl
    change (m.onlyIf nukeOuter suppress).breakLine = _ at hm
    rw [Action.place, Action.place, selfCloseTag, selfCloseTag, hl, hm]
    exact (behind_start h depth (List.cons_ne_nil _ _)).onlyIf nukeOuter Behind.suppress
  | doctype text => exact hwrite ha hl hm
  | _ => cases ha

theorem play_append (o : Options) (l : Layout) (u v : List Action) :
    l.play o (u ++ v) = (l.play o u).play o v := List.foldl_append

theorem finish_of_regions {l : Layout} (h : l.regions = []) : l.finish = endLine l.out.text := by
  rw [finish, closed, h]

theorem endLine_of_solid {t : Text} (h : Solid t) : endLine t = t ++ ['\n'] := by
  have hne := List.isEmpty_eq_false_iff.mpr h.ne_nil
  have hlast := h.getLast?_ne
  unfold endLine
  rw [hne, if_neg]
  simpa using hlast

theorem endLine_append (before : Text) {t : Text} (h : t ≠ []) :
    endLine (before ++ t) = before ++ endLine t := by
  have hne := List.append_ne_nil_of_right_ne_nil before h
  unfold endLine
  rw [List.getLast?_append_of_ne_nil before h, List.isEmpty_eq_false_iff.mpr h,
    List.isEmpty_eq_false_iff.mpr hne]
  split
  · rfl
  · exact List.append_assoc before t _

end Layout

/-- What whole lines are: they start with one, end with one, and behind them a line break is left
out only where the last action says so. -/
structure Action.Lines (o : Options) (actions : List Action) : Prop where
  first : ∃ a ∈ actions.head?, a.StartsLine
  last : ∃ a ∈ actions.getLast?, a.EndsLine ∧
    ∀ l, (Layout.play o l actions).suppressBreak = a.nukesAfter

theorem Action.Lines.append {o : Options} {u v : List Action} (hu : Lines o u) (hv : Lines o v) :
    Lines o (u ++ v) := by
  obtain ⟨a, ha, hstarts⟩ := hu.first
  obtain ⟨b, hb, hends, hflag⟩ := hv.last
  refine ⟨⟨a, ?_, hstarts⟩, b, ?_, hends, fun l => ?_⟩
  · rw [List.head?_append, Option.mem_def.mp ha]
    rfl
  · rw [List.getLast?_append, Option.mem_def.mp hb]
    rfl
  · rw [Layout.play_append]
    exact hflag _

namespace Op

def nukesBefore : Op → Bool
  | act a => a.nukesBefore
  | _ => false

def nukesAfter : Op → Bool
  | act a => a.nukesAfter
  | _ => false

/-- What stands between the output of operations and that of others: a line break, unless the last
one before it or the first one behind it takes the white space away. -/
def seam (before after : List Op) : Text :=
  if before.getLast?.any nukesAfter || after.head?.any nukesBefore then [] else ['\n']

end Op

namespace Layout

variable {o : Options} {u v : List Action}

theorem solid_out_play (hu : Action.Lines o u) (l : Layout) (hregions : (l.play o u).regions = []) :
    Solid (l.play o u).out.text := by
  obtain ⟨a, ha, hends, -⟩ := hu.last
  obtain ⟨init, rfl⟩ : ∃ init, u = init ++ [a] :=
    ⟨u.dropLast, (List.dropLast_append_getLast? a ha).symm⟩
  have hsolid : Solid ((l.play o (init ++ [a])).current).text := by
    rw [play_append]
    exact solid_current_place o (l.play o init) hends
  have hcurrent : (l.play o (init ++ [a])).current = (l.play o (init ++ [a])).out := by
    rw [current, hregions]
    rfl
  exact hcurrent ▸ hsolid

/-- The break before an action on a page that whole lines have left. -/
theorem breakLine_seam {l : Layout} (hregions : l.regions = []) (hdepth : l.depth = 0)
    (hstarted : l.out.text ≠ []) (condition : Bool) :
    (l.onlyIf condition suppress).breakLine =
      ⟨l.out.append (if l.suppressBreak || condition then [] else ['\n']), [], 0, false⟩ := by
  obtain ⟨out, regions, depth, suppressBreak⟩ := l
  obtain rfl : regions = [] := hregions
  obtain rfl : depth = 0 := hdepth
  have hfilled : out.isEmpty = false := by
    rw [Buffer.isEmpty_eq, List.isEmpty_eq_false_iff]
    exact hstarted
  cases condition <;> cases suppressBreak <;>
    simp [onlyIf, suppress, breakLine, current, hfilled, append, padding, Buffer.append]

/-- Whole lines behind whole lines: the first page without its last line feed, the seam, and the
second page. -/
theorem finish_play_append (hu : Action.Lines o u) (hv : Action.Lines o v)
    (hdepth : (play o {} u).depth = 0) (hregions : (play o {} u).regions = [])
    (hregions' : (play o {} v).regions = []) :
    ∃ t, (play o {} u).finish = t ++ ['\n'] ∧
      (play o {} (u ++ v)).finish =
        t ++ Op.seam (u.map .act) (v.map .act) ++ (play o {} v).finish := by
  have hsolid := solid_out_play hu {} hregions
  obtain ⟨a, ha, -, hflag⟩ := hu.last
  obtain ⟨b, hb, hstarts⟩ := hv.first
  obtain ⟨rest, rfl⟩ : ∃ rest, v = b :: rest := ⟨v.tail, (List.cons_head?_tail hb).symm⟩
  have hseam : Op.seam (u.map .act) ((b :: rest).map .act) =
      if (play o {} u).suppressBreak || b.nukesBefore then [] else ['\n'] := by
    rw [hflag, Op.seam, List.getLast?_map, Option.mem_def.mp ha]
    rfl
  have hempty : (({} : Layout).onlyIf b.nukesBefore suppress).breakLine = ⟨{}, [], 0, false⟩ := by
    cases b.nukesBefore <;> rfl
  have hbreak := breakLine_seam hregions hdepth hsolid.ne_nil b.nukesBefore
  rw [← hseam] at hbreak
  have hbehind : Behind ((play o {} u).out.text ++ Op.seam (u.map .act) ((b :: rest).map .act))
      (play o {} (b :: rest)) (play o (play o {} u) (b :: rest)) := by
    refine Behind.play (behind_place hstarts hempty hbreak ?_) o rest
    rw [Buffer.text_append]
    simp [Buffer.text]
  refine ⟨(play o {} u).out.text, ?_, ?_⟩
  · rw [finish_of_regions hregions, endLine_of_solid hsolid]
  · rw [play_append, finish_of_regions (hbehind.regions.trans hregions'), hbehind.out,
      endLine_append _ hbehind.started, finish_of_regions hregions']

end Layout

end Haml
