import Haml.Proofs.Compile.Forest
import Haml.Proofs.Program.Brackets

/-! Compiled programs are nested. An item that is written out at once has no brackets, and any other
puts one pair around the operations of its children. -/

namespace Haml.Compile

variable {o : Options} {line : Nat}

theorem segments_plain {escape : Escape} {flow : Flow} (hflow : ∀ b, flow.role b = .plain)
    (written : List Segment) : ∀ op ∈ segments o escape line flow written, op.role = .plain := by
  fun_induction segments o escape line flow written with
  | case1 => exact List.forall_mem_nil _
  | case2 flow text rest ih =>
    refine List.forall_mem_cons.mpr ⟨hflow .part, ih fun b => rfl⟩
  | case3 flow code rest hs ih => exact ih hflow
  | case4 flow code rest hs ih =>
    refine List.forall_mem_cons.mpr ⟨hflow .evaluatedPart, ih fun b => rfl⟩

theorem script_plain {flow : Flow} (hflow : ∀ b, flow.role b = .plain) (s : Script) :
    (script o line flow s).role = .plain := by
  unfold script
  split
  · rfl
  · exact hflow .evaluatedPart

theorem content_plain (c : Content) : ∀ op ∈ content o line c, op.role = .plain := by
  cases c with
  | none => exact nofun
  | text written => exact segments_plain (fun _ => rfl) written
  | script s =>
    intro op hop
    rw [content, List.mem_singleton] at hop
    exact hop ▸ script_plain (fun _ => rfl) s

variable {body : Except CompileError (List Op)} {ops : List Op}

theorem block_nested {statement : BlockStatement} (hbody : ∀ b, body = .ok b → Nested Op.role b)
    (h : block o statement body = .ok ops) : Nested Op.role ops := by
  rcases block_eq_ok h with ⟨-, rfl⟩ | ⟨-, b, hb, rfl⟩
  · exact .nil
  · exact .pair rfl (hbody b hb) rfl

theorem element_nested {e : Element} {childless : Bool}
    (hbody : ∀ b, body = .ok b → Nested Op.role b)
    (h : element o line e childless body = .ok ops) : Nested Op.role ops := by
  rcases element_eq_ok h with ⟨-, rfl⟩ | ⟨-, b, hb, rfl⟩
  · exact .plain rfl
  · have hcontent : Nested Op.role (content o line e.content) :=
      .of_plain (content_plain e.content)
    exact .pair rfl (hcontent.append (hbody b hb)) rfl

theorem comment_nested {condition text : Option Text} {childless : Bool}
    (hbody : ∀ b, body = .ok b → Nested Op.role b)
    (h : comment condition text childless body = .ok ops) : Nested Op.role ops := by
  rcases comment_eq_ok h with ⟨written, rfl⟩ | ⟨b, hb, rfl⟩
  · exact .plain rfl
  · exact .pair rfl (hbody b hb) rfl

theorem filter_nested {r : Registry} {name : Text} {written : List Segment}
    (h : filter o r line name written = .ok ops) : Nested Op.role ops := by
  rcases filter_eq_ok h with rfl | ⟨output, rfl⟩ | ⟨segments, rfl, -⟩
  · exact .nil
  · exact .plain rfl
  · exact .plain rfl

theorem doctype_nested {args : Text} (h : doctype o line args = .ok ops) :
    Nested Op.role ops := by
  rcases doctype_eq_ok h with rfl | ⟨text, rfl⟩
  · exact .nil
  · exact .plain rfl

/-- The operations of an item are nested if those of its children are. -/
theorem item_nested {r : Registry} {childless : Bool} (i : Item)
    (hbody : ∀ b, body = .ok b → Nested Op.role b)
    (h : item o r line childless body i = .ok ops) : Nested Op.role ops := by
  cases i with
  | element e => exact element_nested hbody h
  | text written escape =>
    exact Except.ok.inj h ▸ .of_plain (segments_plain (fun _ => rfl) written)
  | script s =>
    rw [item] at h
    split at h
    · exact Except.ok.inj h ▸ .plain (script_plain (fun _ => rfl) s)
    · exact block_nested hbody h
  | silent code => exact block_nested hbody h
  | comment condition text => exact comment_nested hbody h
  | filter name written => exact filter_nested h
  | doctype args => exact doctype_nested h

theorem invariant_nested {r : Registry} : Invariant (fun _ => True) o r (Nested Op.role) where
  nil := .nil
  append _ _ hu hv := hu.append hv
  item _ _ _ i _ _ hbody hi := item_nested i hbody hi

theorem program_nested {r : Registry} {source : Text} {p : Program}
    (h : Program.compile source o r = .ok p) : Nested Op.role p.ops :=
  program_invariant_all invariant_nested h

end Haml.Compile
