import Haml.Proofs.Compile.Nesting
import Haml.Proofs.Outline.Codes
import Haml.Proofs.Program.Listing
import Haml.Proofs.Program.Place

/-! Listings of compiled documents. Names and code stand on one line of a document, so that only the
attributes of a tag can keep its operation from being listed on one. -/

namespace Haml

namespace Item

/-- No line feed in the name of an element or of a filter. -/
def Named : Item → Prop
  | element e => '\n' ∉ e.tag
  | filter name _ => '\n' ∉ name
  | _ => True

/-- No line feed in the names and the code of an item. -/
structure Legible (i : Item) : Prop where
  named : i.Named
  code : i.AllCode fun _ code => '\n' ∉ code

variable {item : Item}

theorem named_of_read {line : Line} {raws left : List PhysicalLine}
    (h : Item.read line raws = .ok (some item, left)) (hline : '\n' ∉ line.text)
    (hraws : PhysicalLine.Unbroken raws) : item.Named := by
  obtain ⟨payload, hsub, hcases⟩ := read_cases h
  have hpayload : '\n' ∉ payload := fun hmem => hline (hsub hmem)
  rcases hcases with ⟨_, header, hlines, h⟩ | ⟨_, h⟩ | ⟨_, _, h⟩ | h | h | ⟨args, rfl⟩ | h
  · obtain ⟨htag, -⟩ := Header.unbroken_of_readLines hlines hpayload hraws
    obtain ⟨e, rfl, heq, -⟩ := ofHeader_eq_ok h
    exact show '\n' ∉ e.tag from heq ▸ htag
  · unfold ofText at h
    split at h
    · cases h
    · exact Except.ok.inj h ▸ trivial
  · obtain ⟨s, rfl⟩ := ofScript_eq_ok h
    trivial
  · obtain ⟨code, rfl⟩ := ofSilent_eq_ok h
    trivial
  · obtain ⟨condition, text, rfl, -⟩ := ofComment_eq_ok h
    trivial
  · trivial
  · unfold readFilter at h
    dsimp only at h
    split at h
    · cases h
    · split at h
      · cases h
      · obtain ⟨hitem, -⟩ := Prod.mk.inj (Except.ok.inj h)
        obtain rfl := Option.some.inj hitem
        exact fun hmem => hpayload (Text.mem_of_mem_trim hmem)

end Item

theorem Outline.legible_of_read {source : Text} {entries : List Entry}
    (h : read source = .ok entries) : ∀ e ∈ entries, e.item.Legible := by
  intro e he
  obtain ⟨line, behind, left, hread, hline, hbehind⟩ := exists_read h e he
  exact ⟨Item.named_of_read hread hline hbehind,
    (allCode_of_read h e he).mono fun _ _ hcode => hcode.unbroken⟩

/-- No line feed in a doctype. -/
def Op.Announced : Op → Prop
  | act (.doctype text) => '\n' ∉ text
  | _ => True

/-- A legible operation, and one on a line if it is a doctype in ordinary quotes. -/
structure Op.Listed (o : Options) (op : Op) : Prop where
  legible : op.Legible
  announced : o.attrWrapper ≠ '\n' → op.Announced

namespace Compile

variable {o : Options} {r : Registry} {line : Nat} {childless : Bool}
  {body : Except CompileError (List Op)} {ops : List Op}

theorem segments_listed {escape : Escape} {flow : Flow} {written : List Segment}
    (h : Segment.AllCode (fun _ code => '\n' ∉ code) written) :
    ∀ op ∈ segments o escape line flow written, op.Listed o := by
  fun_induction segments o escape line flow written with
  | case1 => exact List.forall_mem_nil _
  | case2 flow text rest ih =>
    have hrest := ih fun c hc => h c (List.mem_cons_of_mem _ hc)
    exact List.forall_mem_cons.mpr ⟨⟨trivial, fun _ => trivial⟩, hrest⟩
  | case3 flow code rest hs ih => exact ih fun c hc => h c (List.mem_cons_of_mem _ hc)
  | case4 flow code rest hs ih =>
    have hcode : '\n' ∉ code := h code List.mem_cons_self
    have hrest := ih fun c hc => h c (List.mem_cons_of_mem _ hc)
    exact List.forall_mem_cons.mpr ⟨⟨hcode, fun _ => trivial⟩, hrest⟩

theorem script_listed {flow : Flow} {s : Script} (h : '\n' ∉ s.code) :
    (script o line flow s).Listed o := by
  unfold script
  split
  · exact ⟨trivial, fun _ => trivial⟩
  · exact ⟨h, fun _ => trivial⟩

theorem element_listed {e : Element} (hitem : (Item.element e).Legible)
    (hbody : ∀ b, body = .ok b → ∀ op ∈ b, op.Listed o)
    (h : element o line e childless body = .ok ops) : ∀ op ∈ ops, op.Listed o := by
  obtain ⟨htag, hcode⟩ := hitem
  have hcontent : ∀ op ∈ content o line e.content, op.Listed o := by
    have hwritten := hcode.content
    generalize e.content = c at hwritten
    cases c with
    | none => exact List.forall_mem_nil _
    | text written => exact segments_listed hwritten
    | script s => exact List.forall_mem_singleton.mpr (script_listed hwritten)
  rcases element_eq_ok h with ⟨-, rfl⟩ | ⟨-, b, hb, rfl⟩
  · exact List.forall_mem_singleton.mpr ⟨htag, fun _ => trivial⟩
  · have hinside := List.forall_mem_append.mpr ⟨hcontent, hbody b hb⟩
    exact List.forall_mem_append.mpr ⟨List.forall_mem_cons.mpr ⟨⟨htag, fun _ => trivial⟩, hinside⟩,
      List.forall_mem_singleton.mpr ⟨htag, fun _ => trivial⟩⟩

/-- The operations of a legible item are so listed if those of its children are. -/
theorem invariant_listed : Invariant Item.Legible o r fun ops => ∀ op ∈ ops, op.Listed o where
  nil := List.forall_mem_nil _
  append _ _ hu hv := List.forall_mem_append.mpr ⟨hu, hv⟩
  item line childless body i ops hitem hbody h := by
    have hblock {statement : BlockStatement} (h : block o statement body = .ok ops)
        (hcode : '\n' ∉ statement.code) : ∀ op ∈ ops, op.Listed o :=
      forall_block hbody ⟨hcode, fun _ => trivial⟩ ⟨trivial, fun _ => trivial⟩ h
    cases i with
    | element e => exact element_listed hitem hbody h
    | text written escape => exact Except.ok.inj h ▸ segments_listed hitem.code
    | script s =>
      rw [item] at h
      split at h
      · exact Except.ok.inj h ▸ List.forall_mem_singleton.mpr (script_listed hitem.code)
      · exact hblock h hitem.code
    | silent code => exact hblock h hitem.code
    | comment condition text =>
      exact forall_comment hbody (fun _ _ => ⟨trivial, fun _ => trivial⟩) h
    | filter name written =>
      rcases filter_eq_ok h with rfl | ⟨output, rfl⟩ | ⟨segments, rfl, -⟩
      · exact List.forall_mem_nil _
      · exact List.forall_mem_singleton.mpr ⟨trivial, fun _ => trivial⟩
      · exact List.forall_mem_singleton.mpr ⟨hitem.named, fun _ => trivial⟩
    | doctype args =>
      rcases doctype_eq_ok h with rfl | ⟨text, rfl⟩
      · exact List.forall_mem_nil _
      · have hannounced (hquote : o.attrWrapper ≠ '\n') : '\n' ∉ text :=
          doctype_unbroken hquote h _ (List.mem_singleton_self _)
        exact List.forall_mem_singleton.mpr ⟨trivial, hannounced⟩

end Compile

namespace Program

/-- A listing has a piece for each operation, in order, behind its number and two spaces for each
block around it. An operation is on one line but for a tag with a line feed in an attribute that is
known beforehand, and a doctype in line feeds for quotes. -/
theorem listing_of_compile {source : Text} {o : Options} {r : Registry} {p : Program}
    (h : compile source o r = .ok p) : ∃ steps,
      p.ops = Step.allToOps steps ∧
      (Step.allPlaced 0 steps).map Prod.snd = p.ops ∧
      p.listing = (Listing.pieces 0 (Step.allPlaced 0 steps)).flatten ∧
      (∀ op ∈ p.ops, '\n' ∉ op.describe ↔ op.Plain) ∧
      (p.listing.count '\n' = p.ops.length ↔ ∀ op ∈ p.ops, op.Plain) ∧
      (o.attrWrapper ≠ '\n' → ∀ text, .act (.doctype text) ∈ p.ops → '\n' ∉ text) := by
  obtain ⟨steps, hsteps⟩ := Step.exists_ofOps_of_nested (Compile.program_nested h).shape
  have hops := Step.ofOps_eq_ok_iff.mp hsteps
  obtain ⟨-, entries, hread, -⟩ := compile_eq_ok h
  have hlisted : ∀ op ∈ p.ops, op.Listed o :=
    Compile.program_invariant Compile.invariant_listed hread (Outline.legible_of_read hread) h
  have hplain (op : Op) (hop : op ∈ p.ops) : '\n' ∉ op.describe ↔ op.Plain :=
    Op.not_mem_describe_iff (hlisted op hop).legible
  have hcount : p.listing.count '\n' = p.ops.length ↔ ∀ op ∈ p.ops, op.Plain := by
    rw [listing, Listing.count_lines_iff]
    exact forall₂_congr hplain
  have hplaced : (Step.allPlaced 0 steps).map Prod.snd = p.ops := by
    rw [Step.allPlaced_ops, hops]
  exact ⟨steps, hops, hplaced, listing_of_allToOps hops, hplain, hcount,
    fun hquote text hop => (hlisted _ hop).announced hquote⟩

/-- An element in a block. -/
theorem listing_of_compile_block : ∃ p, compile "- a do\n  %p= b" {} Registry.builtin = .ok p ∧
    (∃ steps, p.listing = (Listing.pieces 0 (Step.allPlaced 0 steps)).flatten) ∧
      ∀ op ∈ p.ops, '\n' ∉ op.describe ↔ op.Plain := by
  have hcompile : (compile "- a do\n  %p= b" {} Registry.builtin).isOk = true := by decide +kernel
  obtain ⟨p, hp⟩ := Outcome.exists_of_isOk hcompile
  obtain ⟨steps, -, -, hlisting, hplain, -⟩ := listing_of_compile hp
  exact ⟨p, hp, ⟨steps, hlisting⟩, hplain⟩

/-- A value with a line feed in it. -/
theorem listing_broken : ¬∀ (source : Text) (o : Options) (r : Registry) (p : Program),
    compile source o r = .ok p → p.listing.count '\n' = p.ops.length := by
  intro h
  have hany : ((compile "%p\x7b:a => \"x\\ny\"\x7d b" {} Registry.builtin).toOption.map fun p =>
      p.ops.any fun op => op.describe.contains '\n') = some true := by decide +kernel
  cases hcompile : compile "%p\x7b:a => \"x\\ny\"\x7d b" {} Registry.builtin with
  | error e =>
    rw [hcompile] at hany
    cases hany
  | ok p =>
    rw [hcompile] at hany
    obtain ⟨op, hop, hfeed⟩ := List.any_eq_true.mp (Option.some.inj hany)
    have hfree := (Listing.count_lines_iff 0 0 p.ops).mp (h _ _ _ p hcompile)
    exact hfree op hop (List.contains_iff_mem.mp hfeed)

end Program

end Haml
