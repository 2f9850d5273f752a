import Haml.Proofs.Layout.Break
import Haml.Proofs.Layout.Extends

/-! Pages seen from inside a region. What is written there goes to the innermost region, without
indentation, so that nothing depends on what is around the regions that are the same: neither on
other buffers nor on the depth. -/

namespace Haml

/-- Lists whose first `n` entries are the same. -/
inductive SameFirst {α : Type} : Nat → List α → List α → Prop
  | zero {us vs : List α} : SameFirst 0 us vs
  | succ {n : Nat} {us vs : List α} (x : α) (h : SameFirst n us vs) :
      SameFirst (n + 1) (x :: us) (x :: vs)

/-- How many regions an opening end opens. -/
def Shape.regions : Shape → Nat
  | element flags => flags.preserve.toNat
  | _ => 0

namespace Layout

/-- Pages whose `n` innermost regions are the same, and that agree on the next line break. -/
structure Inside (n : Nat) (l m : Layout) : Prop where
  regions : SameFirst n l.regions m.regions
  suppressBreak : l.suppressBreak = m.suppressBreak

namespace Inside

variable {n : Nat} {l m : Layout}

section Any

variable (h : Inside n l m)

include h

theorem indent : Inside n l.indent m.indent := ⟨h.regions, h.suppressBreak⟩

theorem dedent : Inside n l.dedent m.dedent := ⟨h.regions, h.suppressBreak⟩

theorem suppress : Inside n l.suppress m.suppress := ⟨h.regions, rfl⟩

theorem openRegion : Inside (n + 1) l.openRegion m.openRegion :=
  ⟨.succ ({} : Buffer) h.regions, h.suppressBreak⟩

theorem onlyIf (condition : Bool) {change : Layout → Layout}
    (hchange : ∀ {l m}, Inside n l m → Inside n (change l) (change m)) :
    Inside n (l.onlyIf condition change) (m.onlyIf condition change) := by
  cases condition with
  | false => exact h
  | true => exact hchange h

theorem openRegionIf (condition : Bool) : Inside (n + condition.toNat)
    (l.onlyIf condition Layout.openRegion) (m.onlyIf condition Layout.openRegion) := by
  cases condition with
  | false => exact h
  | true => exact h.openRegion

end Any

section Some

variable (h : Inside (n + 1) l m)

include h

theorem append (t : Text) : Inside (n + 1) (l.append t) (m.append t) := by
  obtain ⟨out, regions, depth, suppressBreak⟩ := l
  obtain ⟨out', regions', depth', suppressBreak'⟩ := m
  obtain ⟨hregions, hsuppress⟩ := h
  cases hregions with
  | succ region hrest => exact ⟨.succ (region.append t) hrest, hsuppress⟩

theorem current : l.current = m.current := by
  obtain ⟨out, regions, depth, suppressBreak⟩ := l
  obtain ⟨out', regions', depth', suppressBreak'⟩ := m
  obtain ⟨hregions, -⟩ := h
  cases hregions with
  | succ region hrest => rfl

/-- Lines are not indented in a region. -/
theorem padding : l.padding = m.padding := by
  obtain ⟨out, regions, depth, suppressBreak⟩ := l
  obtain ⟨out', regions', depth', suppressBreak'⟩ := m
  obtain ⟨hregions, -⟩ := h
  cases hregions with
  | succ region hrest => rfl

theorem breakLine : Inside (n + 1) l.breakLine m.breakLine := by
  unfold Layout.breakLine
  rw [h.suppressBreak, h.current, h.padding]
  split
  · exact ⟨h.regions, rfl⟩
  · split
    · exact h
    · exact h.append _

theorem writeLines (t : Text) : Inside (n + 1) (l.writeLines t) (m.writeLines t) := by
  unfold Layout.writeLines
  rw [h.padding]
  exact h.append _

theorem write (t : Text) (flow : Flow) : Inside (n + 1) (l.write t flow) (m.write t flow) := by
  cases flow with
  | inline => exact h.append t
  | line => exact h.breakLine.writeLines t
  | opening => exact (h.breakLine.writeLines t).indent
  | closing => exact h.dedent.breakLine.writeLines t

theorem openTag (name attributes : Text) (flags : TagFlags) :
    Inside (n + flags.preserve.toNat + 1) (l.openTag name attributes flags)
      (m.openTag name attributes flags) := by
  have hmark := (h.onlyIf flags.nukeOuter suppress).breakLine.append
    ('<' :: name ++ attributes ++ ['>'])
  have hinside := hmark.openRegionIf flags.preserve
  rw [Nat.add_right_comm] at hinside
  refine hinside.onlyIf (!flags.inline) fun h => ?_
  cases flags.nukeInner with
  | false => exact h.indent
  | true => exact h.suppress

theorem selfCloseTag (name attributes : Text) (nukeOuter : Bool) (format : Format) :
    Inside (n + 1) (l.selfCloseTag name attributes nukeOuter format)
      (m.selfCloseTag name attributes nukeOuter format) :=
  (((h.onlyIf nukeOuter suppress).breakLine).append _).onlyIf nukeOuter suppress

theorem writeValue (output : Option BlockOutput) (value : Option Value) :
    Inside (n + 1) (Renderer.writeValue l output value) (Renderer.writeValue m output value) := by
  unfold Renderer.writeValue
  split
  · exact h.write _ .line
  · exact h

end Some

theorem closeRegion (h : Inside (n + 2) l m) : Inside (n + 1) l.closeRegion m.closeRegion := by
  obtain ⟨out, regions, depth, suppressBreak⟩ := l
  obtain ⟨out', regions', depth', suppressBreak'⟩ := m
  obtain ⟨hregions, hsuppress⟩ := h
  cases hregions with
  | @succ _ rest rest' region hrest =>
    have hclosed : Inside (n + 1) ⟨out, rest, depth, suppressBreak⟩
        ⟨out', rest', depth', suppressBreak'⟩ := ⟨hrest, hsuppress⟩
    exact hclosed.append (Entity.preserve region.text)

theorem closeRegionIf {condition : Bool} (h : Inside (n + condition.toNat + 1) l m) :
    Inside (n + 1) (l.onlyIf condition Layout.closeRegion)
      (m.onlyIf condition Layout.closeRegion) := by
  cases condition with
  | false => exact h
  | true => exact h.closeRegion

theorem closeTag {flags : TagFlags} (h : Inside (n + flags.preserve.toNat + 1) l m)
    (name : Text) : Inside (n + 1) (l.closeTag name flags) (m.closeTag name flags) := by
  refine Inside.onlyIf (Inside.append ?_ _) flags.nukeOuter suppress
  refine h.closeRegionIf.onlyIf (!flags.inline) fun h => ?_
  cases flags.nukeInner with
  | false => exact h.dedent.breakLine
  | true => exact h.suppress.breakLine

end Inside

end Layout

end Haml
