import Mathlib.Data.List.Basic

/-! Words with brackets. Each letter opens a bracket, closes one, or does neither, and a word is
nested if its brackets pair up without crossing, both ends of a pair bearing the same label. -/

namespace Haml

/-- What a letter does in a word with brackets labelled by `β`. -/
inductive Role (β : Type)
  | opening (label : β)
  | closing (label : β)
  | plain
  deriving DecidableEq, Repr

namespace Role

variable {β γ : Type}

/-- A role under other labels. A bracket that has none is a bracket no more. -/
def relabel (f : β → Option γ) : Role β → Role γ
  | opening b => (f b).elim plain opening
  | closing b => (f b).elim plain closing
  | plain => plain

/-- A role in a word that is read backwards. -/
def flip : Role β → Role β
  | opening b => closing b
  | closing b => opening b
  | plain => plain

theorem flip_flip (role : Role β) : role.flip.flip = role := by cases role <;> rfl

/-- By how much a bracket changes the number of those that are open. -/
def rise : Role β → Int
  | opening _ => 1
  | closing _ => -1
  | plain => 0

end Role

variable {α β γ : Type}

/-- The bracket language of an alphabet. -/
inductive Nested (role : α → Role β) : List α → Prop
  | nil : Nested role []
  | plain {x : α} (hx : role x = .plain) : Nested role [x]
  | pair {x y : α} {b : β} {body : List α} (hx : role x = .opening b) (hbody : Nested role body)
      (hy : role y = .closing b) : Nested role (x :: body ++ [y])
  | append {u v : List α} (hu : Nested role u) (hv : Nested role v) : Nested role (u ++ v)

namespace Nested

variable {role : α → Role β}

theorem of_plain {w : List α} (h : ∀ x ∈ w, role x = .plain) : Nested role w := by
  induction w with
  | nil => exact nil
  | cons x w ih =>
    have hx := h x (List.mem_cons_self ..)
    exact append (plain hx) (ih fun y hy => h y (List.mem_cons_of_mem _ hy))

/-- Changing labels, or dropping some with their brackets, leaves a nested word nested. -/
theorem relabel {w : List α} (h : Nested role w) (f : β → Option γ) :
    Nested (fun x => (role x).relabel f) w := by
  induction h with
  | nil => exact nil
  | plain hx => exact plain (congrArg (Role.relabel f) hx)
  | @pair x y b body hx _ hy ih =>
    have hx' : (role x).relabel f = (f b).elim .plain .opening := congrArg (Role.relabel f) hx
    have hy' : (role y).relabel f = (f b).elim .plain .closing := congrArg (Role.relabel f) hy
    cases hb : f b with
    | none =>
      -- The two ends lose their label together, so what stays is a word without this pair.
      rw [hb] at hx' hy'
      have px : Nested (fun x => (role x).relabel f) [x] := plain hx'
      exact (px.append ih).append (plain hy')
    | some c =>
      rw [hb] at hx' hy'
      exact pair hx' ih hy'
  | append _ _ ihu ihv => exact append ihu ihv

/-- Every bracket that opens is closed further on by one with its label, around a nested word. -/
theorem exists_closing {w : List α} (h : Nested role w) {before after : List α} {x : α} {b : β}
    (hw : w = before ++ x :: after) (hx : role x = .opening b) :
    ∃ body y rest, after = body ++ y :: rest ∧ role y = .closing b ∧ Nested role body := by
  induction h generalizing before after with
  | nil => simp at hw
  | @plain y hy =>
    obtain rfl : x = y := List.mem_singleton.mp (hw ▸ List.mem_append_cons_self)
    rw [hx] at hy
    cases hy
  | @pair first last c body hfirst hbody hlast ih =>
    cases before with
    | nil =>
      obtain ⟨rfl, rfl⟩ := List.cons.inj hw
      obtain rfl : c = b := Role.opening.inj (hfirst.symm.trans hx)
      exact ⟨body, last, [], rfl, hlast, hbody⟩
    | cons z before =>
      -- The letter is inside the pair: it cannot be the last one, which closes.
      have hbody' : body ++ [last] = before ++ x :: after := (List.cons.inj hw).2
      rcases List.eq_nil_or_concat after with rfl | ⟨after, z, rfl⟩
      · obtain rfl : last = x := by simpa using congrArg List.getLast? hbody'
        rw [hx] at hlast
        cases hlast
      · rw [List.concat_eq_append, ← List.cons_append, ← List.append_assoc] at hbody'
        obtain ⟨h, -⟩ := List.append_inj' hbody' rfl
        obtain ⟨inner, y, rest, rfl, hy, hinner⟩ := ih h
        exact ⟨inner, y, rest ++ [z], by simp, hy, hinner⟩
  | @append u v _ _ ihu ihv =>
    rcases List.append_eq_append_iff.mp hw with ⟨c, rfl, hv⟩ | ⟨c, rfl, hc⟩
    · exact ihv hv
    · cases c with
      | nil =>
        have hv : v = [] ++ x :: after := hc.symm
        exact ihv hv
      | cons z c =>
        obtain ⟨rfl, rfl⟩ := List.cons.inj hc
        obtain ⟨body, y, rest, rfl, hy, hbody⟩ := ihu rfl
        exact ⟨body, y, rest ++ v, by simp, hy, hbody⟩

theorem reverse {w : List α} (h : Nested role w) : Nested (fun x => (role x).flip) w.reverse := by
  induction h with
  | nil => exact nil
  | plain hx => exact plain (congrArg Role.flip hx)
  | @pair x y b body hx _ hy ih =>
    have hx' : (role x).flip = .closing b := congrArg Role.flip hx
    have hy' : (role y).flip = .opening b := congrArg Role.flip hy
    have hword : (x :: body ++ [y]).reverse = y :: body.reverse ++ [x] := by simp
    rw [hword]
    exact pair hy' ih hx'
  | append _ _ ihu ihv =>
    rw [List.reverse_append]
    exact append ihv ihu

/-- Every bracket that closes was opened in front by one with its label. -/
theorem exists_opening {w : List α} (h : Nested role w) {before after : List α} {y : α} {b : β}
    (hw : w = before ++ y :: after) (hy : role y = .closing b) :
    ∃ rest x body, before = rest ++ x :: body ∧ role x = .opening b ∧ Nested role body := by
  have hreverse : w.reverse = after.reverse ++ y :: before.reverse := by simp [hw]
  obtain ⟨body, x, rest, hbefore, hx, hbody⟩ :=
    h.reverse.exists_closing hreverse (congrArg Role.flip hy)
  refine ⟨rest.reverse, x, body.reverse, ?_, ?_, ?_⟩
  · simpa using congrArg List.reverse hbefore
  · rw [← Role.flip_flip (role x), hx]
    rfl
  · simpa only [Role.flip_flip] using hbody.reverse

end Nested

/-- How many more brackets a word opens than it closes. -/
def height (role : α → Role β) : List α → Int
  | [] => 0
  | x :: w => (role x).rise + height role w

section Height

variable {role : α → Role β}

theorem height_nil : height role [] = 0 := rfl

theorem height_cons (x : α) (w : List α) :
    height role (x :: w) = (role x).rise + height role w := rfl

theorem height_append (u v : List α) : height role (u ++ v) = height role u + height role v := by
  induction u with
  | nil => exact (Int.zero_add (height role v)).symm
  | cons x u ih => rw [List.cons_append, height_cons, height_cons, ih, Int.add_assoc]

namespace Nested

theorem height_eq {w : List α} (h : Nested role w) : height role w = 0 := by
  induction h with
  | nil => rfl
  | plain hx => simp [height_cons, height_nil, hx, Role.rise]
  | pair hx _ hy ih => simp [height_cons, height_append, height_nil, hx, hy, ih, Role.rise]
  | append _ _ ihu ihv => rw [height_append, ihu, ihv, Int.add_zero]

/-- A nested word never closes more brackets than it has opened. -/
theorem height_nonneg {w u : List α} (h : Nested role w) (hu : u <+: w) : 0 ≤ height role u := by
  induction h generalizing u with
  | nil =>
    obtain rfl := List.prefix_nil.mp hu
    exact Int.le_refl 0
  | @plain x hx =>
    obtain rfl | ⟨t, rfl, ht⟩ := List.prefix_cons_iff.mp hu
    · exact Int.le_refl 0
    · simp [List.prefix_nil.mp ht, height_cons, height_nil, hx, Role.rise]
  | @pair x y b body hx hbody hy ih =>
    obtain rfl | ⟨t, rfl, ht⟩ := List.prefix_cons_iff.mp hu
    · exact Int.le_refl 0
    obtain rfl | ht := List.prefix_concat_iff.mp ht
    · exact Int.le_of_eq (pair hx hbody hy).height_eq.symm
    · have hrise : (role x).rise = 1 := by rw [hx]; rfl
      have hinside := ih ht
      rw [height_cons, hrise]
      omega
  | @append v w hv _ ihv ihw =>
    obtain ⟨rest, hrest⟩ := hu
    obtain ⟨t, rfl, -⟩ | ⟨t, rfl, rfl⟩ := List.append_eq_append_iff.mp hrest
    · exact ihv (List.prefix_append u t)
    · rw [height_append, hv.height_eq, Int.zero_add]
      exact ihw (List.prefix_append t rest)

/-- A bracket that closes behind a nested word was opened in front of it. -/
theorem not_prefix_closing {w body : List α} {y : α} {b : β} (h : Nested role w)
    (hbody : Nested role body) (hy : role y = .closing b) : ¬body ++ [y] <+: w := by
  intro hprefix
  have hnonneg := h.height_nonneg hprefix
  simp [height_append, height_cons, height_nil, hbody.height_eq, hy, Role.rise] at hnonneg

end Nested

end Height

end Haml
