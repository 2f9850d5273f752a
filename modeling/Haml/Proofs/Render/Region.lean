import Haml.Proofs.Layout.Inside
import Haml.Proofs.Program.Place
import Haml.Proofs.Render.Balance
import Haml.Proofs.Text.Solid

/-! Preserved elements. What is rendered inside of one is the same wherever the element stands: the
content sees the innermost region only, and goes to the page as one text without line breaks when
the element closes. -/

namespace Haml

open Layout (Inside)

namespace Action

variable {n : Nat} {a : Action} {b : Shape} {l m : Layout}

theorem inside_plain (format : Format) (text : Text) (ha : a.shape = .plain)
    (h : Inside (n + 1) l m) : Inside (n + 1) (a.place format text l) (a.place format text m) := by
  cases a with
  | literal _ flow => exact h.write text flow
  | expr _ _ _ flow _ => exact h.write text flow
  | openTag _ _ _ _ => cases ha
  | closeTag _ _ => cases ha
  | selfClose name _ nukeOuter _ _ => exact h.selfCloseTag name text nukeOuter format
  | filter _ _ _ =>
    rw [place, place]
    split
    · exact h
    · exact h.write text .line
  | doctype _ => exact h.write text .line

theorem inside_opening (format : Format) (text : Text) (ha : a.shape = .opening b)
    (h : Inside (n + 1) l m) :
    Inside (n + b.regions + 1) (a.place format text l) (a.place format text m) := by
  cases a with
  | literal _ flow =>
    obtain ⟨-, rfl⟩ := Flow.eq_of_opening ha
    exact h.write text flow
  | expr _ _ _ flow _ =>
    obtain ⟨-, rfl⟩ := Flow.eq_of_opening ha
    exact h.write text flow
  | openTag name _ flags _ =>
    obtain rfl : Shape.element flags = b := Role.opening.inj ha
    exact h.openTag name text flags
  | _ => cases ha

theorem inside_closing (format : Format) (text : Text) (ha : a.shape = .closing b)
    (h : Inside (n + b.regions + 1) l m) :
    Inside (n + 1) (a.place format text l) (a.place format text m) := by
  cases a with
  | literal _ flow =>
    obtain ⟨-, rfl⟩ := Flow.eq_of_closing ha
    exact Inside.write h text flow
  | expr _ _ _ flow _ =>
    obtain ⟨-, rfl⟩ := Flow.eq_of_closing ha
    exact Inside.write h text flow
  | closeTag name flags =>
    obtain rfl : Shape.element flags = b := Role.closing.inj ha
    exact Inside.closeTag h name
  | _ => cases ha

end Action

variable {σ : Type}

/-- A change of scene that sees regions only: where it goes through on a page, it goes through on
each page with the same innermost regions, and leaves these the same. -/
def Rendering.Local (m : Rendering σ Unit) : Prop :=
  ∀ n page page' halted state scene, Inside (n + 1) page page' →
    m ⟨page, halted, state⟩ = (.ok (), scene) →
    ∃ after, Inside (n + 1) scene.layout after ∧
      m ⟨page', halted, state⟩ = (.ok (), { scene with layout := after })

/-- A run that leaves no failure set aside had its body go through every time, on either page. -/
theorem BlockRun.drive_local {m : Rendering σ Unit} (hlocal : Rendering.Local m)
    (hkept : ∀ scene scene', m scene = (.ok (), scene') → scene'.halted = scene.halted)
    (run : BlockRun σ) {n : Nat} {l l' : Layout} (halted : Option RenderError)
    (h : Inside (n + 1) l l') (hnone : (run.drive m l halted).2.halted = none) :
    ∃ after, Inside (n + 1) (run.drive m l halted).2.layout after ∧
      run.drive m l' halted =
        ((run.drive m l halted).1, { (run.drive m l halted).2 with layout := after }) := by
  induction run generalizing l l' halted with
  | done result state => exact ⟨l', h, rfl⟩
  | body state resume ih =>
    rw [drive] at hnone ⊢
    rcases hbody : m ⟨l, halted, state⟩ with ⟨e | ⟨⟩, scene⟩
    · rw [hbody] at hnone
      have hstart := BlockRun.drive_related (R := fun _ _ => True) (fun _ => trivial)
        (fun _ _ => trivial) (fun scene scene' h => ⟨trivial, hkept scene scene' h⟩)
        (resume false scene.state) scene.layout (some e) hnone
      cases hstart.1
    · rw [hbody] at hnone
      obtain ⟨after, hafter, hbody'⟩ := hlocal n l l' halted state scene h hbody
      rw [drive, hbody']
      exact ih true scene.state scene.halted hafter hnone

namespace Renderer

variable {r : Renderer σ}

theorem local_nil : Rendering.Local (r.steps []) := by
  intro n l m halted state scene h hrun
  rw [steps_nil_apply] at hrun
  obtain rfl := congrArg Prod.snd hrun
  exact ⟨m, h, r.steps_nil_apply _⟩

/-- An action supplies the same text on all pages, so only where it goes is to be compared. -/
theorem exists_supplied {a : Action} {page : Layout} {halted : Option RenderError}
    {state : σ} {scene : Scene σ}
    (hrun : r.steps [.act a] ⟨page, halted, state⟩ = (.ok (), scene)) :
    ∃ text, scene.layout = a.place r.options.format text page ∧
      ∀ page', r.steps [.act a] ⟨page', halted, state⟩ =
        (.ok (), { scene with layout := a.place r.options.format text page' }) := by
  rw [steps_singleton_apply, step, actStep_apply] at hrun
  rcases hsupply : r.supply a state with ⟨e | text, state'⟩
  · rw [hsupply] at hrun
    cases hrun
  · rw [hsupply] at hrun
    obtain rfl := congrArg Prod.snd hrun
    refine ⟨text, rfl, fun page' => ?_⟩
    rw [steps_singleton_apply, step, actStep_apply, hsupply]

theorem local_plain {a : Action} (ha : a.shape = .plain) : Rendering.Local (r.steps [.act a]) := by
  intro n page page' halted state scene h hrun
  obtain ⟨text, hlayout, hrun'⟩ := exists_supplied hrun
  exact ⟨_, hlayout ▸ a.inside_plain _ text ha h, hrun' page'⟩

theorem steps_append_of_ok {u v : List Step} {scene middle : Scene σ}
    (hu : r.steps u scene = (.ok (), middle)) : r.steps (u ++ v) scene = r.steps v middle := by
  rw [steps_append_apply, hu]

theorem local_append {u v : List Step} (hu : Rendering.Local (r.steps u))
    (hv : Rendering.Local (r.steps v)) : Rendering.Local (r.steps (u ++ v)) := by
  intro n page page' halted state scene h hrun
  obtain ⟨middle, hfirst, hrest⟩ := exists_of_steps_append hrun
  obtain ⟨after, hafter, hfirst'⟩ := hu n page page' halted state middle h hfirst
  obtain ⟨last, hlast, hrest'⟩ := hv n middle.layout after middle.halted middle.state scene hafter
    hrest
  exact ⟨last, hlast, (steps_append_of_ok hfirst').trans hrest'⟩

theorem local_block {body : List Step} (hbody : Rendering.Local (r.steps body))
    (statement : BlockStatement) : Rendering.Local (r.steps [.block statement body]) := by
  intro n page page' halted state scene h hrun
  have hdrive := BlockRun.drive_local hbody (steps_halted body)
    (r.evaluator.runBlock statement state) halted h
  rw [steps_singleton_apply, step, block] at hrun ⊢
  dsimp only at hrun ⊢
  rcases hdriven : (r.evaluator.runBlock statement state).drive (r.steps body) page halted with
    ⟨result, after, halted', state'⟩
  rw [hdriven] at hrun hdrive
  cases halted' with
  | some e => cases hrun
  | none =>
    cases result with
    | error e => cases hrun
    | ok value =>
      obtain ⟨last, hlast, hdriven'⟩ := hdrive rfl
      obtain rfl := congrArg Prod.snd hrun
      rw [hdriven']
      exact ⟨_, hlast.writeValue statement.output value, rfl⟩

/-- The step case of brackets: a region that is opened in between is one more that is the same. -/
theorem local_pair {body : List Step} (hbody : Rendering.Local (r.steps body)) {first last : Action}
    {b : Shape} (hfirst : first.shape = .opening b) (hlast : last.shape = .closing b) :
    Rendering.Local (r.steps (.act first :: body ++ [.act last])) := by
  intro n page page' halted state scene h hrun
  obtain ⟨middle, hinner, hclose⟩ := exists_of_steps_append hrun
  rw [← List.singleton_append] at hinner
  obtain ⟨opened, hopen, hrest⟩ := exists_of_steps_append hinner
  obtain ⟨text, hlayout, hopen'⟩ := exists_supplied hopen
  have hopened := first.inside_opening r.options.format text hfirst h
  rw [← hlayout] at hopened
  obtain ⟨after, hafter, hrest'⟩ := hbody _ _ _ opened.halted opened.state middle hopened hrest
  obtain ⟨mark, hlayout, hclose'⟩ := exists_supplied hclose
  have hclosed := last.inside_closing r.options.format mark hlast hafter
  rw [← hlayout] at hclosed
  refine ⟨_, hclosed, ?_⟩
  rw [← List.singleton_append, List.append_assoc, steps_append_of_ok (hopen' page'),
    steps_append_of_ok hrest', hclose' after]

theorem exists_local {ops : List Op} (h : Nested Op.shape ops) :
    ∃ steps, Step.ofOps ops = .ok steps ∧
      ∀ (σ : Type) (r : Renderer σ), Rendering.Local (r.steps steps) :=
  Step.exists_of_nested
    (P := fun steps => ∀ (σ : Type) (r : Renderer σ), Rendering.Local (r.steps steps))
    (fun _ _ => local_nil) (fun _ ha _ _ => local_plain ha)
    (fun _ _ _ _ hfirst hlast hbody σ r => local_pair (hbody σ r) hfirst hlast)
    (fun statement _ hbody σ r => local_block (hbody σ r) statement)
    (fun _ _ hu hv σ r => local_append (hu σ r) (hv σ r)) h

end Renderer

namespace Layout

/-- The page behind the mark of an opening tag. -/
def mark (l : Layout) (name attributes : Text) (nukeOuter : Bool) : Layout :=
  (l.onlyIf nukeOuter suppress).breakLine.append ('<' :: name ++ attributes ++ ['>'])

theorem append_append (l : Layout) (s t : Text) : (l.append s).append t = l.append (s ++ t) := by
  have hbuffer (b : Buffer) : (b.append s).append t = b.append (s ++ t) :=
    Buffer.eq_of_text_eq (by simp)
  cases h : l.regions with
  | nil => simp [append, h, hbuffer]
  | cons region rest => simp [append, h, hbuffer]

theorem append_with_suppressBreak (l : Layout) (suppressBreak : Bool) (t : Text) :
    { l with suppressBreak }.append t = { l.append t with suppressBreak } := by
  cases h : l.regions <;> simp [append, h]

section Preserved

variable {flags : TagFlags} (hpreserve : flags.preserve = true) (hnuke : flags.nukeInner = true)

include hpreserve hnuke

/-- The page inside of a preserved element. -/
theorem openTag_preserved (l : Layout) (name attributes : Text) :
    l.openTag name attributes flags = { (l.mark name attributes flags.nukeOuter).openRegion with
      suppressBreak := !flags.inline } := by
  have hflag : (l.mark name attributes flags.nukeOuter).suppressBreak = false :=
    (suppressBreak_append _ _).trans (suppressBreak_breakLine _)
  change ((l.mark name attributes flags.nukeOuter).onlyIf flags.preserve openRegion).onlyIf
    (!flags.inline) (if flags.nukeInner then suppress else indent) = _
  rw [hpreserve, hnuke]
  cases flags.inline with
  | false => rfl
  | true =>
    change (l.mark name attributes flags.nukeOuter).openRegion =
      { (l.mark name attributes flags.nukeOuter).openRegion with suppressBreak := false }
    rw [← hflag]
    rfl

/-- Closing a preserved element writes its region and its mark, without a line break in between. -/
theorem closeTag_preserved (l : Layout) (region : Buffer) (suppressBreak : Bool) (name : Text) :
    closeTag { l with regions := region :: l.regions, suppressBreak } name flags =
      { l.append (Entity.preserve region.text ++ ('<' :: '/' :: name ++ ['>'])) with
        suppressBreak := flags.nukeOuter || (flags.inline && suppressBreak) } := by
  have hclose : closeRegion { l with regions := region :: l.regions, suppressBreak } =
      { l.append (Entity.preserve region.text) with suppressBreak } :=
    append_with_suppressBreak l suppressBreak _
  unfold closeTag
  rw [hpreserve, hnuke, ← append_append]
  simp only [onlyIf, if_true, hclose]
  cases flags.inline <;> cases flags.nukeOuter <;>
    simp [breakLine, suppress, append_with_suppressBreak]

end Preserved

/-- What a nested run inside of a region leaves: a region with more in it, and nothing else. -/
theorem Extends.exists_region {l m : Layout} (h : Extends l.openRegion m) : ∃ region suppressBreak,
    m = { l with regions := region :: l.regions, suppressBreak } := by
  have hdepth : m.depth = l.depth := h.depth
  have houter : m.outer = l.regions ++ [l.out] := h.outer
  cases hregions : m.regions with
  | nil =>
    rw [outer_nil hregions] at houter
    exact absurd houter.symm (List.append_ne_nil_of_right_ne_nil _ (List.cons_ne_nil _ _))
  | cons region rest =>
    rw [outer_cons hregions] at houter
    obtain ⟨hrest, hout⟩ := List.append_inj' houter rfl
    refine ⟨region, m.suppressBreak, ?_⟩
    rw [← hdepth, ← hrest, ← hregions, ← List.head_eq_of_cons_eq hout]

end Layout

/-- What nested steps render in a new region is one region, whatever the page around it is. -/
theorem Renderer.exists_content {r : Renderer σ} {steps : List Step}
    (hlocal : Rendering.Local (r.steps steps)) (hbalanced : Balanced r steps) {page : Layout}
    {atStart : Bool} {halted : Option RenderError} {state : σ} {scene : Scene σ}
    (hrun : r.steps steps ⟨{ page.openRegion with suppressBreak := atStart }, halted, state⟩ =
      (.ok (), scene)) : ∃ region suppressBreak, ∀ l : Layout,
      r.steps steps ⟨{ l.openRegion with suppressBreak := atStart }, halted, state⟩ =
        (.ok (), { scene with layout :=
          { l with regions := region :: l.regions, suppressBreak } }) := by
  have hextends {l : Layout} {after : Scene σ}
      (h : r.steps steps ⟨{ l.openRegion with suppressBreak := atStart }, halted, state⟩ =
        (.ok (), after)) : l.openRegion.Extends after.layout :=
    have hl := hbalanced.extended _ after h
    ⟨hl.depth, hl.outer, hl.current⟩
  obtain ⟨region, suppressBreak, hlayout⟩ := (hextends hrun).exists_region
  refine ⟨region, suppressBreak, fun l => ?_⟩
  have hstart : Inside 1 { page.openRegion with suppressBreak := atStart }
      { l.openRegion with suppressBreak := atStart } := ⟨.succ _ .zero, rfl⟩
  obtain ⟨after, hafter, hrun'⟩ := hlocal 0 _ _ halted state scene hstart hrun
  obtain ⟨region', suppressBreak', rfl⟩ := (hextends hrun').exists_region
  rw [hlayout] at hafter
  obtain ⟨hregions, rfl⟩ := hafter
  cases hregions with
  | succ region hrest => exact hrun'

/-- The content of a preserved element is the same wherever the element stands. If the element goes
through on some page then it does so on all pages, at any depth and inside of any regions, and there
it is one text behind the break before it: the mark of the opening tag, the content, which has no
line break in it, and the closing tag. -/
theorem Program.preserved_content {body : List Op} (hbody : Nested Op.shape body) (name : Text)
    (a : Attributes) {flags : TagFlags} (line : Nat) (hpreserve : flags.preserve = true)
    (hnuke : flags.nukeInner = true) : ∃ steps,
    Step.ofOps (.act (.openTag name a flags line) :: body ++ [.act (.closeTag name flags)]) =
      .ok steps ∧
    ∀ {σ : Type} (r : Renderer σ) (page : Layout) (halted : Option RenderError) (state : σ)
      (scene : Scene σ), r.steps steps ⟨page, halted, state⟩ = (.ok (), scene) →
      ∃ attributes content suppressBreak, '\n' ∉ content ∧ ∀ l : Layout,
        r.steps steps ⟨l, halted, state⟩ = (.ok (), { scene with layout :=
          { (l.onlyIf flags.nukeOuter Layout.suppress).breakLine.append
              ('<' :: name ++ attributes ++ '>' :: content ++ '<' :: '/' :: name ++ ['>']) with
            suppressBreak } }) := by
  obtain ⟨inner, hinner, hlocal⟩ := Renderer.exists_local hbody
  obtain ⟨inner', hinner', hbalanced⟩ := Renderer.exists_balanced hbody
  obtain rfl : inner = inner' := Except.ok.inj (hinner.symm.trans hinner')
  obtain rfl := Step.ofOps_eq_ok_iff.mp hinner
  refine ⟨[.act (.openTag name a flags line)] ++ (inner ++ [.act (.closeTag name flags)]), ?_, ?_⟩
  · rw [Step.ofOps_eq_ok_iff, Step.allToOps_append, Step.allToOps_append, Step.allToOps_singleton,
      Step.allToOps_singleton]
    rfl
  · intro σ r page halted state scene hrun
    obtain ⟨⟨opened, halted', state'⟩, hopen, hrest⟩ := Renderer.exists_of_steps_append hrun
    obtain ⟨⟨middle, halted'', state''⟩, hcontent, hclose⟩ := Renderer.exists_of_steps_append hrest
    obtain ⟨attributes, hopened, hopen⟩ := Renderer.exists_supplied hopen
    obtain ⟨_, -, hclose⟩ := Renderer.exists_supplied hclose
    obtain rfl := hopened.trans (Layout.openTag_preserved hpreserve hnuke page name attributes)
    obtain ⟨region, atEnd, hcontent⟩ :=
      Renderer.exists_content (hlocal σ r) (hbalanced σ r) hcontent
    refine ⟨attributes, Entity.preserve region.text, flags.nukeOuter || (flags.inline && atEnd),
      Entity.not_mem_encodeBreaks _, fun l => ?_⟩
    have hplace : Action.place r.options.format attributes l (.openTag name a flags line) = _ :=
      Layout.openTag_preserved hpreserve hnuke l name attributes
    rw [Renderer.steps_append_of_ok (hopen l), hplace, Renderer.steps_append_of_ok (hcontent _),
      hclose, Action.place, Layout.closeTag_preserved hpreserve hnuke, Layout.mark,
      Layout.append_append]
    simp only [List.append_assoc, List.cons_append, List.nil_append]

section Example

/-- A block that runs twice inside, with tags on lines of their own. -/
theorem Program.preserved_content_twice :
    let flags : TagFlags := ⟨true, true, false, true⟩
    let lines : TagFlags := ⟨false, false, false, false⟩
    let ops : List Op := [.enter ⟨"twice", false, none, 2⟩, .act (.openTag "b" {} lines 3),
      .act (.literal "c" .line), .act (.closeTag "b" lines), .exit]
    let steps : List Step := [.act (.openTag "pre" {} flags 1),
      .block ⟨"twice", false, none, 2⟩ [.act (.openTag "b" {} lines 3), .act (.literal "c" .line),
        .act (.closeTag "b" lines)], .act (.closeTag "pre" flags)]
    let ev : Evaluator Unit := ⟨fun _ s => (.ok .nil, s),
      fun _ s => .body s fun _ s => .body s fun _ s => .done (.ok none) s⟩
    let r : Renderer Unit := ⟨ev, .builtin, { autoclose := ⟨[]⟩, preserve := ⟨[]⟩ }⟩
    Step.ofOps (.act (.openTag "pre" {} flags 1) :: ops ++ [.act (.closeTag "pre" flags)]) =
        .ok steps ∧
      (r.steps steps ⟨{}, none, ()⟩).2.layout.out.text = "<pre><b>&#x000A;c&#x000A;</b>&#x000A;" ++
        "<b>&#x000A;c&#x000A;</b></pre>" ∧
      ∃ attributes content suppressBreak, '\n' ∉ content ∧ ∀ l : Layout, ∃ scene,
        r.steps steps ⟨l, none, ()⟩ = (.ok (), scene) ∧ scene.layout =
          { (l.onlyIf flags.nukeOuter Layout.suppress).breakLine.append
              ('<' :: "pre" ++ attributes ++ '>' :: content ++ '<' :: '/' :: "pre" ++ ['>']) with
            suppressBreak } := by
  intro flags lines ops steps ev r
  have htag : Nested Op.shape [.act (.openTag "b" {} lines 3), .act (.literal "c" .line),
      .act (.closeTag "b" lines)] := @Nested.pair _ _ _ _ _ _ [_] rfl (.plain rfl) rfl
  have hops : Nested Op.shape ops := @Nested.pair _ _ _ _ _ _ [_, _, _] rfl htag rfl
  obtain ⟨steps', hsteps', hpreserved⟩ :=
    preserved_content hops "pre" {} 1 (rfl : flags.preserve = true) rfl
  have hsteps : Step.ofOps (.act (.openTag "pre" {} flags 1) :: ops ++
      [.act (.closeTag "pre" flags)]) = .ok steps := rfl
  obtain rfl : steps = steps' := Except.ok.inj (hsteps.symm.trans hsteps')
  have hgoes : (r.steps steps ⟨{}, none, ()⟩).1.toBool = true := by decide +kernel
  refine ⟨hsteps, by decide +kernel, ?_⟩
  rcases hrun : r.steps steps ⟨{}, none, ()⟩ with ⟨e | ⟨⟩, scene⟩
  · rw [hrun] at hgoes
    cases hgoes
  · obtain ⟨attributes, content, suppressBreak, hcontent, hrun'⟩ := hpreserved r {} none () _ hrun
    exact ⟨attributes, content, suppressBreak, hcontent, fun l => ⟨_, hrun' l, rfl⟩⟩

end Example

end Haml
