import Haml.Proofs.Program.Place
import Haml.Proofs.Render.Corresponding
import Haml.Proofs.Render.Failure

/-! Exchanging steps at a place. Steps that agree can be exchanged wherever they stand: rendering
goes through with the one where it does with the other, and leaves the same page. It also fails with
the same failure, but for blocks around the place that run their body again after it failed: there
steps start with a failure set aside, which one of the two may report and the other not. -/

namespace Haml

variable {σ τ ι : Type}

/-- Both go through to corresponding scenes or both fail, and with `same` they fail alike. -/
inductive Agree (same : Prop) (G : σ → τ → Prop) :
    Except RenderError Unit × Scene σ → Except RenderError Unit × Scene τ → Prop
  | through {scene : Scene σ} {scene' : Scene τ} (h : scene.Corresponds G scene') :
      Agree same G (.ok (), scene) (.ok (), scene')
  | failed {e e' : RenderError} {scene : Scene σ} {scene' : Scene τ}
      (h : same → e = e' ∧ scene.Corresponds G scene') :
      Agree same G (.error e, scene) (.error e', scene')

/-- Changes of scene that agree where nothing is set aside. -/
def Rendering.Agrees (same : Prop) (F : ι → σ → τ → Prop) (m : Rendering σ Unit)
    (n : Rendering τ Unit) : Prop :=
  ∀ i scene scene', scene.Corresponds (F i) scene' → scene.halted = none →
    Agree same (F i) (m scene) (n scene')

variable {same : Prop} {F : ι → σ → τ → Prop} {m : Rendering σ Unit} {n : Rendering τ Unit}

theorem Agree.alike {G : σ → τ → Prop} {e e' : RenderError} {scene : Scene σ} {scene' : Scene τ}
    (h : Agree same G (.error e, scene) (.error e', scene')) (hsame : same) :
    e = e' ∧ scene.Corresponds G scene' := by
  cases h with
  | failed h => exact h hsame

theorem Rendering.Corresponds.agrees (h : Rendering.Corresponds F m n) :
    Rendering.Agrees same F m n := by
  intro i scene scene' hscene hnone
  obtain ⟨hresult, hend⟩ := h i scene scene' hscene
  rcases Outcome.error_or_ok hresult with
    ⟨e, after, after', hm, hn⟩ | ⟨⟨⟩, after, after', hm, hn⟩ <;> rw [hm, hn] at hend ⊢
  · exact .failed fun _ => ⟨rfl, hend⟩
  · exact .through hend

/-- Bodies that agree bring corresponding runs to one end, or else leave a failure set aside in
both. The latter takes a run that goes on after a failure. -/
theorem BlockRun.Corresponds.drive_agrees (hbody : Rendering.Agrees same F m n)
    (hm : ∀ scene scene', m scene = (.ok (), scene') → scene'.halted = scene.halted)
    (hn : ∀ scene scene', n scene = (.ok (), scene') → scene'.halted = scene.halted)
    {i : ι} {run : BlockRun σ} {run' : BlockRun τ} (h : run.Corresponds F i run')
    (hstop : same → run.StopsAtFailure) (l : Layout) :
    ((run.drive m l none).1 = (run'.drive n l none).1 ∧
      (run.drive m l none).2.Corresponds (F i) (run'.drive n l none).2) ∨
    (¬ same ∧ (run.drive m l none).2.halted ≠ none ∧ (run'.drive n l none).2.halted ≠ none) := by
  induction h generalizing l with
  | done h => exact .inl ⟨rfl, rfl, rfl, h⟩
  | @body j s t resume resume' h hresume ih =>
    have hagree := hbody j ⟨l, none, s⟩ ⟨l, none, t⟩ ⟨rfl, rfl, h⟩ rfl
    rw [BlockRun.drive, BlockRun.drive]
    rcases hms : m ⟨l, none, s⟩ with ⟨e | ⟨⟩, scene⟩ <;>
      rcases hnt : n ⟨l, none, t⟩ with ⟨e' | ⟨⟩, scene'⟩ <;> rw [hms, hnt] at hagree
    · by_cases hsame : same
      · -- The left run stops here, and with it the one that corresponds to it.
        obtain ⟨rfl, hscene⟩ := hagree.alike hsame
        obtain ⟨result, s', hdone⟩ := (hstop hsame).1 scene.state
        have hrest := hresume false scene.state scene'.state hscene.state
        rw [hdone] at hrest
        obtain ⟨t', hstate, hdone'⟩ :
            ∃ t', F i s' t' ∧ resume' false scene'.state = .done result t' := by
          generalize resume' false scene'.state = rest at hrest
          cases hrest with
          | done hstate => exact ⟨_, hstate, rfl⟩
        refine .inl ?_
        simp only [hdone, hdone']
        exact ⟨rfl, hscene.layout, rfl, hstate⟩
      · refine .inr ⟨hsame, ?_, ?_⟩
        · rw [halted_drive hm]
          simp
        · rw [halted_drive hn]
          simp
    · cases hagree
    · cases hagree
    · obtain ⟨hscene⟩ := hagree
      have hnone : scene.halted = none := hm _ _ hms
      have hnone' : scene'.halted = none := hn _ _ hnt
      dsimp only
      rw [hnone, hnone', hscene.layout]
      exact ih true _ _ hscene.state (fun hsame => (hstop hsame).2 _) scene'.layout

namespace Renderer

variable {r : Renderer σ} {r' : Renderer τ} {u u' v v' : List Step}

theorem agrees_append (hu : Rendering.Agrees same F (r.steps u) (r'.steps u'))
    (hv : Rendering.Agrees same F (r.steps v) (r'.steps v')) :
    Rendering.Agrees same F (r.steps (u ++ v)) (r'.steps (u' ++ v')) := by
  intro i scene scene' hscene hnone
  have hagree := hu i scene scene' hscene hnone
  rw [steps_append_apply, steps_append_apply]
  rcases hr : r.steps u scene with ⟨e | ⟨⟩, middle⟩ <;>
    rcases hr' : r'.steps u' scene' with ⟨e' | ⟨⟩, middle'⟩ <;> rw [hr, hr'] at hagree
  · exact .failed hagree.alike
  · cases hagree
  · cases hagree
  · obtain ⟨hmiddle⟩ := hagree
    have hkept : middle.halted = scene.halted := steps_halted u scene middle hr
    exact hv i middle middle' hmiddle (hkept.trans hnone)

theorem Corresponds.agrees_block (h : r.Corresponds F r') {statement : BlockStatement}
    (hstop : same → ∀ s, (r.evaluator.runBlock statement s).StopsAtFailure)
    (hbody : Rendering.Agrees same F (r.steps u) (r'.steps u')) :
    Rendering.Agrees same F (r.steps [.block statement u]) (r'.steps [.block statement u']) := by
  intro i scene scene' hscene hnone
  have hdrive := (h.runBlock statement hscene.state).drive_agrees hbody (steps_halted u)
    (steps_halted u') (fun hsame => hstop hsame scene.state) scene.layout
  rw [steps_singleton_apply, steps_singleton_apply, Renderer.step, Renderer.step, Renderer.block,
    Renderer.block, ← hscene.halted, ← hscene.layout, hnone]
  rcases hrun : (r.evaluator.runBlock statement scene.state).drive (r.steps u) scene.layout
    none with ⟨result, l, halted, s⟩
  rcases hrun' : (r'.evaluator.runBlock statement scene'.state).drive (r'.steps u') scene.layout
    none with ⟨result', l', halted', t⟩
  rw [hrun, hrun'] at hdrive
  rcases hdrive with ⟨hresult, hend⟩ | ⟨hdiffer, hsome, hsome'⟩
  · obtain rfl : result = result' := hresult
    obtain ⟨rfl, rfl, hstate⟩ : l = l' ∧ halted = halted' ∧ F i s t :=
      ⟨hend.layout, hend.halted, hend.state⟩
    cases halted with
    | some e => exact .failed fun _ => ⟨rfl, rfl, rfl, hstate⟩
    | none =>
      cases result with
      | error e => exact .failed fun _ => ⟨rfl, rfl, rfl, hstate⟩
      | ok value => exact .through ⟨rfl, rfl, hstate⟩
  · obtain ⟨e, rfl⟩ := Option.ne_none_iff_exists'.mp hsome
    obtain ⟨e', rfl⟩ := Option.ne_none_iff_exists'.mp hsome'
    exact .failed fun hsame => absurd hsame hdiffer

/-- Steps that agree do so at every place. -/
theorem Corresponds.agrees_fill (h : r.Corresponds F r') (place : Step.Place)
    (hstop : same → ∀ statement ∈ place.statements, ∀ s,
      (r.evaluator.runBlock statement s).StopsAtFailure)
    (hu : Rendering.Agrees same F (r.steps u) (r'.steps u')) :
    Rendering.Agrees same F (r.steps (place.fill u)) (r'.steps (place.fill u')) := by
  have hcommon (steps : List Step) : Rendering.Agrees same F (r.steps steps) (r'.steps steps) :=
    (h.steps steps).agrees
  induction place with
  | here before after =>
    exact agrees_append (agrees_append (hcommon before) hu) (hcommon after)
  | inside before statement inner after ih =>
    have hinner := ih fun hsame s hs => hstop hsame s (List.mem_cons_of_mem statement hs)
    have hblock := h.agrees_block (fun hsame => hstop hsame statement List.mem_cons_self) hinner
    have htail := agrees_append hblock (hcommon after)
    exact agrees_append (hcommon before) htail

end Renderer

end Haml
