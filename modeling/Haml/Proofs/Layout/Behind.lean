import Haml.Proofs.Layout.Extends
import Haml.Proofs.Render.Static

/-! Writing behind a text. A page with a text in front grows as it does without one, once there is
something on it: only at the very start of a page is a line break left out for want of a text. -/

namespace Haml

namespace Layout

/-- Pages that have been started and differ in nothing but the text in front of the second one. -/
structure Behind (before : Text) (l m : Layout) : Prop where
  out : m.out.text = before ++ l.out.text
  regions : m.regions = l.regions
  depth : m.depth = l.depth
  suppressBreak : m.suppressBreak = l.suppressBreak
  started : l.out.text ≠ []

variable {before : Text} {l m : Layout}

theorem out_append (l : Layout) (t : Text) :
    (l.append t).out.text = l.out.text ++ if l.regions = [] then t else [] := by
  cases h : l.regions with
  | nil => simp [append, h]
  | cons region rest => simp [append, h]

theorem current_append (l : Layout) (t : Text) :
    (l.append t).current.text = l.current.text ++ t := by
  cases h : l.regions with
  | nil => simp [append, current, h]
  | cons region rest => simp [append, current, h]

namespace Behind

section Chain

variable (h : Behind before l m)

include h

theorem append (t : Text) : Behind before (l.append t) (m.append t) where
  out := by
    rw [out_append, out_append, h.out, h.regions, List.append_assoc]
  regions := by
    unfold Layout.append
    rw [h.regions]
    cases l.regions <;> rfl
  depth := by
    unfold Layout.append
    rw [h.regions]
    cases l.regions <;> exact h.depth
  suppressBreak := by
    unfold Layout.append
    rw [h.regions]
    cases l.regions <;> exact h.suppressBreak
  started := by
    rw [out_append]
    exact List.append_ne_nil_of_left_ne_nil h.started _

theorem padding : m.padding = l.padding := by
  unfold Layout.padding
  rw [h.regions, h.depth]

theorem isEmpty_current : m.current.isEmpty = l.current.isEmpty := by
  unfold current
  rw [h.regions]
  cases l.regions with
  | nil =>
    have hl := h.started
    have hm : before ++ l.out.text ≠ [] := List.append_ne_nil_of_right_ne_nil before hl
    change m.out.isEmpty = l.out.isEmpty
    rw [Buffer.isEmpty_eq, Buffer.isEmpty_eq, h.out, List.isEmpty_eq_false_iff.mpr hl,
      List.isEmpty_eq_false_iff.mpr hm]
  | cons region rest => rfl

theorem indent : Behind before l.indent m.indent :=
  ⟨h.out, h.regions, congrArg (· + 1) h.depth, h.suppressBreak, h.started⟩

theorem dedent : Behind before l.dedent m.dedent :=
  ⟨h.out, h.regions, congrArg (· - 1) h.depth, h.suppressBreak, h.started⟩

theorem suppress : Behind before l.suppress m.suppress :=
  ⟨h.out, h.regions, h.depth, rfl, h.started⟩

theorem openRegion : Behind before l.openRegion m.openRegion :=
  ⟨h.out, congrArg (({} : Buffer) :: ·) h.regions, h.depth, h.suppressBreak, h.started⟩

theorem closeRegion : Behind before l.closeRegion m.closeRegion := by
  unfold Layout.closeRegion
  rw [h.regions]
  cases l.regions with
  | nil => exact h
  | cons region rest =>
    have hrest : Behind before { l with regions := rest } { m with regions := rest } :=
      ⟨h.out, rfl, h.depth, h.suppressBreak, h.started⟩
    exact hrest.append (Entity.preserve region.text)

theorem breakLine : Behind before l.breakLine m.breakLine := by
  unfold Layout.breakLine
  rw [h.suppressBreak, h.isEmpty_current, h.padding]
  split
  · exact ⟨h.out, h.regions, h.depth, rfl, h.started⟩
  · split
    · exact h
    · exact h.append _

theorem writeLines (t : Text) : Behind before (l.writeLines t) (m.writeLines t) := by
  unfold Layout.writeLines
  rw [h.padding]
  exact h.append _

theorem write (t : Text) (flow : Flow) : Behind before (l.write t flow) (m.write t flow) := by
  cases flow with
  | inline => exact h.append t
  | line => exact h.breakLine.writeLines t
  | opening => exact (h.breakLine.writeLines t).indent
  | closing => exact h.dedent.breakLine.writeLines t

theorem onlyIf (condition : Bool) {change : Layout → Layout}
    (hchange : ∀ {l m}, Behind before l m → Behind before (change l) (change m)) :
    Behind before (l.onlyIf condition change) (m.onlyIf condition change) := by
  cases condition with
  | false => exact h
  | true => exact hchange h

/-- What an opening tag leaves behind its mark. -/
theorem insideTag (flags : TagFlags) : Behind before
    ((l.onlyIf flags.preserve Layout.openRegion).onlyIf (!flags.inline)
      (if flags.nukeInner then Layout.suppress else Layout.indent))
    ((m.onlyIf flags.preserve Layout.openRegion).onlyIf (!flags.inline)
      (if flags.nukeInner then Layout.suppress else Layout.indent)) := by
  refine (h.onlyIf flags.preserve openRegion).onlyIf (!flags.inline) fun h => ?_
  cases flags.nukeInner with
  | false => exact h.indent
  | true => exact h.suppress

theorem openTag (name attributes : Text) (flags : TagFlags) :
    Behind before (l.openTag name attributes flags) (m.openTag name attributes flags) :=
  (((h.onlyIf flags.nukeOuter suppress).breakLine).append _).insideTag flags

theorem closeTag (name : Text) (flags : TagFlags) :
    Behind before (l.closeTag name flags) (m.closeTag name flags) := by
  refine Behind.onlyIf (Behind.append ?_ _) flags.nukeOuter suppress
  refine (h.onlyIf flags.preserve closeRegion).onlyIf (!flags.inline) fun h => ?_
  cases flags.nukeInner with
  | false => exact h.dedent.breakLine
  | true => exact h.suppress.breakLine

theorem selfCloseTag (name attributes : Text) (nukeOuter : Bool) (format : Format) :
    Behind before (l.selfCloseTag name attributes nukeOuter format)
      (m.selfCloseTag name attributes nukeOuter format) :=
  (((h.onlyIf nukeOuter suppress).breakLine).append _).onlyIf nukeOuter suppress

theorem place (format : Format) (text : Text) (a : Action) :
    Behind before (a.place format text l) (a.place format text m) := by
  cases a with
  | literal _ flow => exact h.write text flow
  | expr _ _ _ flow _ => exact h.write text flow
  | openTag name _ flags _ => exact h.openTag name text flags
  | closeTag name flags => exact h.closeTag name flags
  | selfClose name _ nukeOuter _ _ => exact h.selfCloseTag name text nukeOuter format
  | filter _ _ _ =>
    rw [Action.place, Action.place]
    split
    · exact h
    · exact h.write text .line
  | doctype _ => exact h.write text .line

theorem play (o : Options) (actions : List Action) :
    Behind before (l.play o actions) (m.play o actions) := by
  induction actions generalizing l m with
  | nil => exact h
  | cons a actions ih => exact ih (h.place o.format (a.text o) a)

end Chain

end Behind

end Layout

end Haml
