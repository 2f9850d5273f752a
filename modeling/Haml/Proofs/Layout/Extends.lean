import Haml.Proofs.Program.Brackets
import Haml.Proofs.Render.Action

/-! What the output of a nested run of operations does to the page: it adds text where output goes
to, and leaves the depth and all other buffers as they were. -/

namespace Haml.Layout

/-- The buffers around the one that output goes to, from the inside out. -/
def outer (l : Layout) : List Buffer := (l.regions ++ [l.out]).tail

theorem outer_nil {l : Layout} (h : l.regions = []) : l.outer = [] := by
  rw [outer, h]
  rfl

theorem outer_cons {l : Layout} {region : Buffer} {rest : List Buffer}
    (h : l.regions = region :: rest) : l.outer = rest ++ [l.out] := by
  rw [outer, h]
  rfl

theorem length_outer (l : Layout) : l.outer.length = l.regions.length := by
  simp [outer]

/-- A later page: text was added where output goes to, and all else is the same but for a line break
that is or is not left out. -/
structure Extends (l m : Layout) : Prop where
  depth : m.depth = l.depth
  outer : m.outer = l.outer
  current : l.current.text <+: m.current.text

theorem Extends.refl (l : Layout) : Extends l l := ⟨rfl, rfl, List.prefix_rfl⟩

theorem Extends.trans {l m n : Layout} (h : Extends l m) (h' : Extends m n) : Extends l n :=
  ⟨h'.depth.trans h.depth, h'.outer.trans h.outer, h.current.trans h'.current⟩

theorem Extends.regions {l m : Layout} (h : Extends l m) :
    m.regions.length = l.regions.length := by
  rw [← length_outer, ← length_outer, h.outer]

theorem extends_append (l : Layout) (text : Text) : Extends l (l.append text) := by
  cases h : l.regions with
  | nil =>
    refine ⟨by simp [append, h], by simp [outer, append, h], text, ?_⟩
    simp [current, append, h]
  | cons region rest =>
    refine ⟨by simp [append, h], by simp [outer, append, h], text, ?_⟩
    simp [current, append, h]

section Chain

variable {l m : Layout} (h : Extends l m)

include h

theorem Extends.append (text : Text) : Extends l (m.append text) := h.trans (extends_append m text)

theorem Extends.suppress : Extends l m.suppress := h.trans ⟨rfl, rfl, List.prefix_rfl⟩

theorem Extends.breakLine : Extends l m.breakLine := by
  refine h.trans ?_
  unfold Layout.breakLine
  split
  · exact ⟨rfl, rfl, List.prefix_rfl⟩
  · split
    · exact .refl m
    · exact extends_append m _

theorem Extends.writeLines (text : Text) : Extends l (m.writeLines text) := h.append _

theorem Extends.suppressIf (condition : Bool) : Extends l (m.onlyIf condition Layout.suppress) := by
  cases condition with
  | false => exact h
  | true => exact h.suppress

end Chain

theorem extends_line (l : Layout) (text : Text) : Extends l (l.write text .line) :=
  (Extends.refl l).breakLine.writeLines text

theorem extends_selfCloseTag (l : Layout) (name attributes : Text) (nukeOuter : Bool)
    (format : Format) : Extends l (l.selfCloseTag name attributes nukeOuter format) :=
  (((Extends.refl l).suppressIf nukeOuter).breakLine.append _).suppressIf nukeOuter

theorem extends_writeValue (l : Layout) (output : Option BlockOutput) (value : Option Value) :
    Extends l (Renderer.writeValue l output value) := by
  unfold Renderer.writeValue
  split
  · exact extends_line l _
  · exact .refl l

/-! An end of a bracket changes the regions and the depth before or after it writes its mark. -/

/-- What an opening end leaves open: a region for a preserved element, and one level of depth for
content that stands on lines of its own. -/
def inside : Shape → Layout → Layout
  | .element flags, l =>
    (l.onlyIf flags.preserve openRegion).onlyIf (!flags.inline && !flags.nukeInner) indent
  | .block, l => l
  | .part, l => l.indent

/-- What a closing end takes back. -/
def outside : Shape → Layout → Layout
  | .element flags, l =>
    (l.onlyIf flags.preserve closeRegion).onlyIf (!flags.inline && !flags.nukeInner) dedent
  | .block, l => l
  | .part, l => l.dedent

theorem closeRegion_dedent (l : Layout) : l.dedent.closeRegion = l.closeRegion.dedent := by
  cases h : l.regions with
  | nil => simp [closeRegion, dedent, h]
  | cons region rest => cases rest <;> simp [closeRegion, dedent, append, h]

theorem closeRegionIf_dedentIf (l : Layout) (preserved indented : Bool) :
    (l.onlyIf indented dedent).onlyIf preserved closeRegion =
      (l.onlyIf preserved closeRegion).onlyIf indented dedent := by
  cases preserved with
  | false => rfl
  | true =>
    cases indented with
    | false => rfl
    | true => exact closeRegion_dedent l

theorem Extends.dedent {l m : Layout} (h : Extends l.indent m) : Extends l m.dedent where
  depth := by
    have hdepth : m.depth = l.depth + 1 := h.depth
    rw [Layout.dedent, hdepth, Nat.add_sub_cancel]
  outer := h.outer
  current := h.current

theorem Extends.closeRegion {l m : Layout} (h : Extends l.openRegion m) :
    Extends l m.closeRegion := by
  -- The buffer that was current is now the next one out, and so takes the text of the region.
  have houter : m.outer = l.current :: l.outer := by
    rw [h.outer]
    cases hl : l.regions <;> simp [Layout.outer, openRegion, Layout.current, hl]
  have hdepth : m.depth = l.depth := h.depth
  cases hm : m.regions with
  | nil =>
    rw [outer_nil hm] at houter
    cases houter
  | cons region rest =>
    rw [outer_cons hm] at houter
    cases rest with
    | nil =>
      obtain ⟨hout, hrest⟩ := List.cons.inj houter
      refine ⟨by simp [Layout.closeRegion, hm, Layout.append, hdepth], ?_, ?_⟩
      · rw [← hrest]
        simp [Layout.closeRegion, hm, Layout.append, Layout.outer]
      · rw [← hout]
        simp [Layout.closeRegion, hm, Layout.append, Layout.current]
    | cons next rest =>
      obtain ⟨hnext, hrest⟩ := List.cons.inj houter
      refine ⟨by simp [Layout.closeRegion, hm, Layout.append, hdepth], ?_, ?_⟩
      · rw [← hrest]
        simp [Layout.closeRegion, hm, Layout.append, Layout.outer]
      · rw [← hnext]
        simp [Layout.closeRegion, hm, Layout.append, Layout.current]

theorem Extends.dedentIf {l m : Layout} {indented : Bool}
    (h : Extends (l.onlyIf indented indent) m) : Extends l (m.onlyIf indented Layout.dedent) := by
  cases indented with
  | false => exact h
  | true => exact h.dedent

theorem Extends.closeRegionIf {l m : Layout} {preserved : Bool}
    (h : Extends (l.onlyIf preserved openRegion) m) :
    Extends l (m.onlyIf preserved Layout.closeRegion) := by
  cases preserved with
  | false => exact h
  | true => exact h.closeRegion

/-- Closing undoes opening, whatever was added in between. -/
theorem Extends.outside {b : Shape} {l m : Layout} (h : Extends (l.inside b) m) :
    Extends l (m.outside b) := by
  cases b with
  | block => exact h
  | part => exact h.dedent
  | element flags =>
    rw [Layout.outside, ← closeRegionIf_dedentIf]
    exact h.dedentIf.closeRegionIf

end Haml.Layout
