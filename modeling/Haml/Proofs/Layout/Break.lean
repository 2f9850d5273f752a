import Haml.Proofs.Render.Static

/-! Which line breaks are left out. The next one is where a tag has asked for it, and a line break
that is asked for in between takes the request away. -/

namespace Haml

namespace Layout

theorem suppressBreak_append (l : Layout) (t : Text) :
    (l.append t).suppressBreak = l.suppressBreak := by
  cases h : l.regions <;> simp [append, h]

theorem suppressBreak_breakLine (l : Layout) : l.breakLine.suppressBreak = false := by
  unfold breakLine
  cases h : l.suppressBreak with
  | true => rfl
  | false =>
    rw [if_neg Bool.false_ne_true]
    split
    · exact h
    · rw [suppressBreak_append, h]

theorem suppressBreak_onlyIf (l : Layout) (condition : Bool) :
    (l.onlyIf condition suppress).suppressBreak = (condition || l.suppressBreak) := by
  cases condition <;> rfl

theorem suppressBreak_writeLines (l : Layout) (t : Text) :
    (l.writeLines t).suppressBreak = l.suppressBreak := suppressBreak_append l _

theorem suppressBreak_write_line (l : Layout) (t : Text) :
    (l.write t .line).suppressBreak = false :=
  (suppressBreak_writeLines _ t).trans (suppressBreak_breakLine l)

theorem suppressBreak_write_closing (l : Layout) (t : Text) :
    (l.write t .closing).suppressBreak = false :=
  suppressBreak_write_line l.dedent t

/-- Inside an inline element the next line break is not left out. -/
theorem suppressBreak_openTag (l : Layout) (name attributes : Text) {flags : TagFlags}
    (hinline : flags.inline = true) : (l.openTag name attributes flags).suppressBreak = false := by
  unfold openTag
  rw [hinline]
  cases flags.preserve
  · exact (suppressBreak_append _ _).trans (suppressBreak_breakLine _)
  · exact (suppressBreak_append _ _).trans (suppressBreak_breakLine _)

theorem suppressBreak_closeRegion (l : Layout) :
    l.closeRegion.suppressBreak = l.suppressBreak := by
  unfold closeRegion
  cases l.regions with
  | nil => rfl
  | cons region rest => exact suppressBreak_append _ _

theorem suppressBreak_closeTag (l : Layout) (name : Text) (flags : TagFlags)
    (h : flags.inline = true → l.suppressBreak = false) :
    (l.closeTag name flags).suppressBreak = flags.nukeOuter := by
  unfold closeTag
  rw [suppressBreak_onlyIf, suppressBreak_append]
  cases hinline : flags.inline with
  | true =>
    change (flags.nukeOuter || (l.onlyIf flags.preserve closeRegion).suppressBreak) = _
    have hl := h hinline
    cases flags.preserve with
    | false => exact (congrArg _ hl).trans (Bool.or_false _)
    | true => exact (congrArg _ ((suppressBreak_closeRegion l).trans hl)).trans (Bool.or_false _)
  | false => exact (congrArg _ (suppressBreak_breakLine _)).trans (Bool.or_false _)

theorem suppressBreak_selfCloseTag (l : Layout) (name attributes : Text) (nukeOuter : Bool)
    (format : Format) :
    (l.selfCloseTag name attributes nukeOuter format).suppressBreak = nukeOuter := by
  unfold selfCloseTag
  rw [suppressBreak_onlyIf, suppressBreak_append, suppressBreak_breakLine, Bool.or_false]

theorem suppressBreak_play_inline (o : Options) (l : Layout) (texts : List Text) :
    (l.play o (texts.map (.literal · .inline))).suppressBreak = l.suppressBreak := by
  induction texts generalizing l with
  | nil => rfl
  | cons t texts ih => exact (ih (l.append t)).trans (suppressBreak_append l t)

end Layout

end Haml
