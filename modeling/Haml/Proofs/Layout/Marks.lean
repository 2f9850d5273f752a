import Haml.Proofs.Layout.Seam
import Haml.Proofs.Text.Markup

/-! The markup on a page. Line breaks and indentation are no part of it, and regions are closed
without a change to it; so the markup of the finished page follows from that of the texts written,
whatever else is in them. -/

namespace Haml

open Text

/-- The markup in every buffer, from the innermost region to what is around all regions. -/
def Layout.marks (l : Layout) : List Text := (l.regions ++ [l.out]).map (markup ·.text)

namespace Layout

theorem marks_of_regions_nil {l : Layout} (h : l.regions = []) :
    l.marks = [markup l.out.text] := by
  rw [marks, h]
  rfl

theorem marks_of_regions_cons {l : Layout} {region : Buffer} {rest : List Buffer}
    (h : l.regions = region :: rest) :
    l.marks = markup region.text :: ({ l with regions := rest } : Layout).marks := by
  rw [marks, h]
  rfl

theorem marks_append (l : Layout) (t : Text) :
    (l.append t).marks = l.marks.modifyHead (· ++ markup t) := by
  unfold append
  cases h : l.regions with
  | nil =>
    rw [marks_of_regions_nil h, List.modifyHead_cons, ← markup_append, ← Buffer.text_append]
    rfl
  | cons region rest =>
    rw [marks_of_regions_cons h, List.modifyHead_cons, ← markup_append, ← Buffer.text_append]
    rfl

theorem marks_append_of_nil (l : Layout) {t : Text} (h : markup t = []) :
    (l.append t).marks = l.marks := by
  rw [marks_append, h]
  cases l.marks <;> simp

theorem markup_padding (l : Layout) : markup l.padding = [] := by
  unfold padding
  split
  · exact List.filter_replicate_of_neg (by decide)
  · rfl

@[simp] theorem marks_breakLine (l : Layout) : l.breakLine.marks = l.marks := by
  unfold breakLine
  split
  · rfl
  · split
    · rfl
    · exact l.marks_append_of_nil ((markup_cons_of_not (by decide) _).trans l.markup_padding)

theorem markup_padLines {padding : Text} (h : markup padding = []) (t : Text) :
    markup (padLines padding t) = markup t := by
  obtain ⟨first, rest, rfl, hpad⟩ := exists_padLines padding t
  rw [hpad, markup_append, markup_append, markup_flatMap, markup_flatMap]
  congr 2
  funext line
  rw [markup_cons_of_not (by decide), markup_cons_of_not (by decide)]
  cases line with
  | nil => rfl
  | cons c line =>
    rw [List.isEmpty_cons, if_neg Bool.false_ne_true, markup_append, h, List.nil_append]

@[simp] theorem marks_writeLines (l : Layout) (t : Text) :
    (l.writeLines t).marks = l.marks.modifyHead (· ++ markup t) := by
  rw [writeLines, marks_append, markup_padLines l.markup_padding]

@[simp] theorem marks_indent (l : Layout) : l.indent.marks = l.marks := rfl

@[simp] theorem marks_dedent (l : Layout) : l.dedent.marks = l.marks := rfl

@[simp] theorem marks_suppress (l : Layout) : l.suppress.marks = l.marks := rfl

@[simp] theorem marks_write (l : Layout) (t : Text) (flow : Flow) :
    (l.write t flow).marks = l.marks.modifyHead (· ++ markup t) := by
  cases flow with
  | inline => exact l.marks_append t
  | line | opening | closing => simp [write]

@[simp] theorem marks_openRegion (l : Layout) : l.openRegion.marks = [] :: l.marks := rfl

/-- What becomes of the markup when a region closes: it goes behind that around the region. -/
def joinMarks : List Text → List Text
  | inner :: outer :: rest => (outer ++ inner) :: rest
  | marks => marks

@[simp] theorem marks_closeRegion (l : Layout) : l.closeRegion.marks = joinMarks l.marks := by
  unfold closeRegion
  cases h : l.regions with
  | nil =>
    rw [marks_of_regions_nil h]
    rfl
  | cons region rest =>
    rw [marks_of_regions_cons h]
    dsimp only
    rw [marks_append, Entity.markup_preserve]
    cases hrest : rest <;> rfl

@[simp] theorem marks_onlyIf (l : Layout) (condition : Bool) (change : Layout → Layout) :
    (l.onlyIf condition change).marks = if condition then (change l).marks else l.marks := by
  cases condition <;> rfl

theorem marks_openTag (l : Layout) (name t : Text) (flags : TagFlags) :
    (l.openTag name t flags).marks = (l.append ('<' :: name ++ t ++ ['>'])
      |>.onlyIf flags.preserve openRegion).marks := by
  have hbreak : (l.onlyIf flags.nukeOuter suppress).breakLine.marks = l.marks := by simp
  have hinner (l : Layout) : ((if flags.nukeInner then suppress else indent) l).marks = l.marks := by
    cases flags.nukeInner <;> rfl
  unfold openTag
  dsimp only
  rw [marks_onlyIf, hinner, ite_self, marks_onlyIf, marks_onlyIf, marks_openRegion,
    marks_openRegion, marks_append, marks_append, hbreak]

theorem marks_closeTag (l : Layout) (name : Text) (flags : TagFlags) :
    (l.closeTag name flags).marks =
      ((l.onlyIf flags.preserve closeRegion).append ('<' :: '/' :: name ++ ['>'])).marks := by
  have hinner (l : Layout) :
      (if flags.nukeInner then l.suppress else l.dedent).breakLine.marks = l.marks := by
    cases flags.nukeInner <;> simp
  unfold closeTag
  dsimp only
  rw [marks_onlyIf, marks_suppress, ite_self, marks_append, marks_append, marks_onlyIf, hinner,
    ite_self]

theorem marks_selfCloseTag (l : Layout) (name t : Text) (nukeOuter : Bool) (format : Format) :
    (l.selfCloseTag name t nukeOuter format).marks =
      (l.append ('<' :: name ++ t ++ format.selfCloseSuffix)).marks := by
  have hbreak : (l.onlyIf nukeOuter suppress).breakLine.marks = l.marks := by simp
  unfold selfCloseTag
  dsimp only
  rw [marks_onlyIf, marks_suppress, ite_self, marks_append, marks_append, hbreak]

variable {l m : Layout} {t u : Text}

theorem marks_append_congr (hmarks : l.marks = m.marks) (htext : markup t = markup u) :
    (l.append t).marks = (m.append u).marks := by
  rw [marks_append, marks_append, hmarks, htext]

theorem markup_tag_congr (htext : markup t = markup u) (name last : Text) :
    markup ('<' :: name ++ t ++ last) = markup ('<' :: name ++ u ++ last) := by
  rw [markup_append, markup_append, markup_append, markup_append, htext]

/-- Texts with the same markup can be put in the place of each other. -/
theorem marks_place_congr (hmarks : l.marks = m.marks) (htext : markup t = markup u)
    (format : Format) (a : Action) : (a.place format t l).marks = (a.place format u m).marks := by
  have hwrite (flow : Flow) : (l.write t flow).marks = (m.write u flow).marks := by
    rw [marks_write, marks_write, hmarks, htext]
  cases a with
  | literal _ flow => exact hwrite flow
  | expr _ _ _ flow _ => exact hwrite flow
  | openTag name _ flags _ =>
    have htag := marks_append_congr hmarks (markup_tag_congr htext name ['>'])
    unfold Action.place
    rw [marks_openTag, marks_openTag, marks_onlyIf, marks_onlyIf, marks_openRegion,
      marks_openRegion, htag]
  | closeTag name flags =>
    have hclosed : (l.onlyIf flags.preserve closeRegion).marks =
        (m.onlyIf flags.preserve closeRegion).marks := by
      rw [marks_onlyIf, marks_onlyIf, marks_closeRegion, marks_closeRegion, hmarks]
    unfold Action.place
    rw [marks_closeTag, marks_closeTag]
    exact marks_append_congr hclosed rfl
  | selfClose name _ nukeOuter _ _ =>
    unfold Action.place
    rw [marks_selfCloseTag, marks_selfCloseTag]
    exact marks_append_congr hmarks (markup_tag_congr htext name format.selfCloseSuffix)
  | filter _ _ _ =>
    -- An empty text is left out, which makes no difference to the markup.
    have hleft (l : Layout) (t : Text) :
        (if t.isEmpty then l else l.write t .line).marks = (l.write t .line).marks := by
      cases t with
      | nil =>
        have hnil := l.marks_append_of_nil markup_nil
        rw [marks_append] at hnil
        exact ((marks_write l [] .line).trans hnil).symm
      | cons c t => rfl
    exact (hleft l t).trans ((hwrite .line).trans (hleft m u).symm)
  | doctype _ => exact hwrite .line

theorem markup_closed (l : Layout) : markup l.closed = l.marks.reverse.flatten := by
  have hfold (rest : List Buffer) (inner : Text) :
      markup (rest.foldl (fun inner outer => outer.text ++ Entity.preserve inner) inner) =
        (rest.map (markup ·.text)).reverse.flatten ++ markup inner := by
    induction rest generalizing inner with
    | nil => rfl
    | cons outer rest ih =>
      rw [List.foldl_cons, ih, markup_append, Entity.markup_preserve]
      simp
  unfold closed marks
  cases l.regions with
  | nil => simp
  | cons region rest =>
    rw [markup_append, Entity.markup_preserve, hfold]
    simp

/-- The finished page has all the markup on it, from the outside in. -/
theorem markup_finish (l : Layout) : markup l.finish = l.marks.reverse.flatten := by
  rw [finish, endLine]
  split
  · exact l.markup_closed
  · rw [markup_append, l.markup_closed]
    exact List.append_nil _

end Layout

end Haml
