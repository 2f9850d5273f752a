import Haml.Proofs.Compile.Suppressed

/-! Escaping in compiled documents. Where nothing is asked for raw and escaping is configured, every
value that the program writes is escaped; filters that have no code in their text are not left to
rendering. -/

namespace Haml

def Content.Escaped : Content → Prop
  | script s => s.escape ≠ .raw
  | text _ => True
  | none => True

/-- Is no output asked for raw, and no code run in the text of a filter? -/
def Item.Escaped : Item → Prop
  | element e => e.content.Escaped
  | text _ escape => escape ≠ .raw
  | script s => s.escape ≠ .raw
  | filter _ segments => ∀ s ∈ segments, s.isLiteral = true
  | silent _ => True
  | comment _ _ => True
  | doctype _ => True

instance : (c : Content) → Decidable c.Escaped
  | .script s => inferInstanceAs (Decidable (s.escape ≠ .raw))
  | .text _ | .none => .isTrue trivial

instance : (i : Item) → Decidable i.Escaped
  | .element e => inferInstanceAs (Decidable e.content.Escaped)
  | .text _ escape => inferInstanceAs (Decidable (escape ≠ .raw))
  | .script s => inferInstanceAs (Decidable (s.escape ≠ .raw))
  | .filter _ segments => inferInstanceAs (Decidable (∀ s ∈ segments, s.isLiteral = true))
  | .silent _ | .comment _ _ | .doctype _ => .isTrue trivial

/-- Is an operation's output escaped, if it has any? Filters write theirs as it is. -/
def Op.Escaped : Op → Prop
  | act (.expr _ escape _ _ _) => escape = true
  | act (.filter _ _ _) => False
  | act _ => True
  | enter statement => ∀ output ∈ statement.output, output.escape = true
  | exit => True

theorem Escape.resolve_of_ne_raw {e : Escape} (h : e ≠ .raw) : e.resolve true = true := by
  cases e with
  | configured => rfl
  | force => rfl
  | raw => exact absurd rfl h

namespace Compile

variable {o : Options} {r : Registry} {line : Nat} {childless : Bool}
  {body : Except CompileError (List Op)} {ops : List Op}

/-- Literal text of a filter is given to it at once. -/
theorem filter_escaped {name : Text} {written : List Segment}
    (hliteral : ∀ s ∈ written, s.isLiteral = true) (h : filter o r line name written = .ok ops) :
    ∀ op ∈ ops, op.Escaped := by
  rcases filter_eq_ok h with rfl | ⟨output, rfl⟩ | ⟨segments, rfl, hnone, hsegments⟩
  · exact List.forall_mem_nil _
  · exact List.forall_mem_singleton.mpr trivial
  · refine absurd hnone (Segment.literalText?_ne_none fun s hs => ?_)
    rw [hsegments] at hs
    split at hs
    · exact hliteral s (List.mem_of_mem_filter hs)
    · exact hliteral s hs

variable (hescape : o.escapeHtml = true)

include hescape

theorem segments_escaped {escape : Escape} (h : escape ≠ .raw) (flow : Flow)
    (written : List Segment) : ∀ op ∈ segments o escape line flow written, op.Escaped :=
  forall_segments (fun _ _ => trivial) (fun _ _ _ => hescape ▸ Escape.resolve_of_ne_raw h) flow
    written

theorem script_escaped {s : Script} (h : s.escape ≠ .raw) (flow : Flow) :
    (script o line flow s).Escaped := by
  unfold script
  split
  · trivial
  · exact hescape ▸ Escape.resolve_of_ne_raw h

theorem content_escaped {c : Content} (h : c.Escaped) :
    ∀ op ∈ content o line c, op.Escaped := by
  cases c with
  | none => exact List.forall_mem_nil _
  | text written => exact segments_escaped hescape (by decide) .inline written
  | script s => exact List.forall_mem_singleton.mpr (script_escaped hescape h .inline)

theorem element_escaped {e : Element} (he : e.content.Escaped)
    (hbody : ∀ b, body = .ok b → ∀ op ∈ b, op.Escaped)
    (h : element o line e childless body = .ok ops) : ∀ op ∈ ops, op.Escaped := by
  rcases element_eq_ok h with ⟨-, rfl⟩ | ⟨-, b, hb, rfl⟩
  · exact List.forall_mem_singleton.mpr trivial
  · have hinside : ∀ op ∈ content o line e.content ++ b, op.Escaped :=
      List.forall_mem_append.mpr ⟨content_escaped hescape he, hbody b hb⟩
    exact List.forall_mem_append.mpr
      ⟨List.forall_mem_cons.mpr ⟨trivial, hinside⟩, List.forall_mem_singleton.mpr trivial⟩

/-- The operations of an escaped item are escaped if those of its children are. -/
theorem invariant_escaped : Invariant Item.Escaped o r fun ops => ∀ op ∈ ops, op.Escaped where
  nil := List.forall_mem_nil _
  append _ _ hu hv := List.forall_mem_append.mpr ⟨hu, hv⟩
  item line childless body i ops hi hbody h := by
    cases i with
    | element e => exact element_escaped hescape hi hbody h
    | text written escape => exact Except.ok.inj h ▸ segments_escaped hescape hi .line written
    | script s =>
      rw [item] at h
      split at h
      · exact Except.ok.inj h ▸ List.forall_mem_singleton.mpr (script_escaped hescape hi .line)
      · refine forall_block hbody (fun output houtput => ?_) trivial h
        obtain rfl := Option.some.inj houtput
        exact hescape ▸ Escape.resolve_of_ne_raw hi
    | silent code => exact forall_block hbody (fun _ houtput => by cases houtput) trivial h
    | comment condition text => exact forall_comment hbody (fun _ _ => trivial) h
    | filter name written => exact filter_escaped hi h
    | doctype args => exact forall_doctype (fun _ => trivial) h

end Compile

end Haml
