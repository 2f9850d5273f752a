import Haml.Proofs.Header.Codes
import Haml.Proofs.Outline.Order

/-! The code of a document: that of its headers, scripts and statements, and that between braces in
its text. No code has white space around it, and where some is asked for there is some. -/

namespace Haml

open CodePlace (Holds)

section AllCode

variable (P : CodePlace → Text → Prop)

def Content.AllCode : Content → Prop
  | none => True
  | text segments => Segment.AllCode P segments
  | script s => P .inline s.code

structure Element.AllCode (e : Element) : Prop where
  attributes : ∀ a ∈ e.attributes, a.AllCode P
  reference : ∀ r ∈ e.reference, r.AllCode P
  content : e.content.AllCode P

def Item.AllCode : Item → Prop
  | element e => e.AllCode P
  | text segments _ => Segment.AllCode P segments
  | script s => P .script s.code
  | silent code => P .silent code
  | comment _ _ => True
  | filter _ segments => Segment.AllCode P segments
  | doctype _ => True

end AllCode

theorem Item.AllCode.mono {P Q : CodePlace → Text → Prop}
    (h : ∀ place code, P place code → Q place code) {item : Item} (hitem : item.AllCode P) :
    item.AllCode Q := by
  cases item with
  | element e =>
    have hcontent : e.content.AllCode Q := by
      have hcontent := hitem.content
      cases hwritten : e.content with
      | none => trivial
      | text segments =>
        rw [hwritten] at hcontent
        exact fun code hcode => h _ _ (hcontent code hcode)
      | script s =>
        rw [hwritten] at hcontent
        exact h _ _ hcontent
    exact ⟨fun a ha => (hitem.attributes a ha).mono h, fun r hr => (hitem.reference r hr).mono h,
      hcontent⟩
  | text segments escape => exact fun code hcode => h _ _ (hitem code hcode)
  | script s => exact h _ _ hitem
  | silent code => exact h _ _ hitem
  | comment condition text => trivial
  | filter name segments => exact fun code hcode => h _ _ (hitem code hcode)
  | doctype args => trivial

variable {line : Nat} {segments : List Segment}

namespace Segment

theorem expression_mem_attach {segment : Segment} {code : Text} :
    expression code ∈ attach segment segments ↔ expression code ∈ segment :: segments := by
  unfold attach
  split <;> simp

theorem expression_mem_merge {code : Text} :
    expression code ∈ merge segments ↔ expression code ∈ segments := by
  induction segments with
  | nil => rfl
  | cons segment segments ih =>
    have hmerge : merge (segment :: segments) = attach segment (merge segments) := rfl
    rw [hmerge, expression_mem_attach, List.mem_cons, List.mem_cons, ih]

end Segment

namespace Item

variable {item : Item}

theorem allCode_of_filterSegments {base : Text} {block : List PhysicalLine}
    (h : filterSegments base block = .ok segments) (hblock : PhysicalLine.Unbroken block) :
    Segment.AllCode Holds segments := by
  induction block generalizing segments with
  | nil =>
    obtain rfl := Except.ok.inj h
    nofun
  | cons raw rest ih =>
    obtain ⟨hraw, hrest⟩ := List.forall_mem_cons.mp hblock
    have hunindent : '\n' ∉ raw.unindent base := fun hmem =>
      hraw (PhysicalLine.mem_of_mem_unindent hmem)
    obtain ⟨first, more, hcode, hmore, rfl⟩ : ∃ first more, Segment.AllCode Holds first ∧
        filterSegments base rest = .ok more ∧
        segments = first ++ if rest.isEmpty then more else .literal ['\n'] :: more := by
      rw [filterSegments] at h
      cases hblank : raw.isBlank with
      | true =>
        rw [hblank] at h
        obtain ⟨more, hmore, h⟩ := Outcome.exists_of_bind_eq_ok h
        exact ⟨[], more, nofun, hmore, (Except.ok.inj h).symm⟩
      | false =>
        rw [hblank] at h
        obtain ⟨first, hfirst, h⟩ := Outcome.exists_of_bind_eq_ok h
        obtain ⟨more, hmore, h⟩ := Outcome.exists_of_bind_eq_ok h
        exact ⟨first, more, Segment.allCode_of_scan hfirst hunindent, hmore,
          (Except.ok.inj h).symm⟩
    intro code hmem
    have hcases : .expression code ∈ first ∨ .expression code ∈ more := by
      rcases List.mem_append.mp hmem with hmem | hmem
      · exact .inl hmem
      · split at hmem
        · exact .inr hmem
        · exact .inr (by simpa using hmem)
    exact hcases.elim (hcode code) (ih hmore hrest code)

theorem allCode_of_header {header : Header} (h : ofHeader line header = .ok item)
    (hattributes : ∀ a ∈ header.attributes, a.AllCode Holds)
    (hreference : ∀ r ∈ header.reference, r.AllCode Holds)
    (hscript : ∀ s, header.tail = .script s → CodePlace.inline.Holds s.code)
    (htext : ∀ written, header.tail = .text written → '\n' ∉ written) : item.AllCode Holds := by
  rw [ofHeader] at h
  cases htail : header.tail with
  | none =>
    rw [htail] at h
    obtain rfl := Except.ok.inj h
    exact ⟨hattributes, hreference, trivial⟩
  | script output =>
    rw [htail] at h
    obtain rfl := Except.ok.inj h
    exact ⟨hattributes, hreference, hscript output htail⟩
  | text written =>
    rw [htail] at h
    dsimp only at h
    split at h
    · cases h
    · next segments hscan =>
      obtain rfl := Except.ok.inj h
      exact ⟨hattributes, hreference, Segment.allCode_of_scan hscan (htext written htail)⟩

theorem allCode_of_read {line : Line} {raws left : List PhysicalLine}
    (h : Item.read line raws = .ok (some item, left)) (hline : '\n' ∉ line.text)
    (hraws : PhysicalLine.Unbroken raws) : item.AllCode Holds := by
  obtain ⟨payload, hsub, hcases⟩ := read_cases h
  have hpayload : '\n' ∉ payload := fun hmem => hline (hsub hmem)
  rcases hcases with ⟨_, header, hlines, h⟩ | ⟨_, h⟩ | ⟨_, _, h⟩ | h | h | ⟨args, rfl⟩ | h
  · obtain ⟨-, htext⟩ := Header.unbroken_of_readLines hlines hpayload hraws
    obtain ⟨written, hwritten, hread⟩ := Header.exists_unbroken_of_readLines hlines hpayload hraws
    obtain ⟨hattributes, hreference⟩ := Header.allCode_of_groups hread hwritten
    exact allCode_of_header h hattributes hreference
      (fun s hs => Header.holds_of_read hread hwritten hs) htext
  · unfold ofText at h
    split at h
    · cases h
    · next segments hscan =>
      exact Except.ok.inj h ▸ Segment.allCode_of_scan hscan hpayload
  · unfold ofScript at h
    dsimp only at h
    split at h
    · cases h
    · next hempty =>
      obtain rfl := Except.ok.inj h
      exact Holds.of_trim hpayload (by simpa using hempty)
  · unfold ofSilent at h
    dsimp only at h
    split at h
    · cases h
    · next hempty =>
      obtain rfl := Except.ok.inj h
      exact Holds.of_trim hpayload (by simpa using hempty)
  · obtain ⟨condition, text, rfl, -⟩ := ofComment_eq_ok h
    trivial
  · trivial
  · unfold readFilter at h
    dsimp only at h
    split at h
    · cases h
    · split at h
      · cases h
      · next segments hsegments =>
        obtain ⟨hitem, -⟩ := Prod.mk.inj (Except.ok.inj h)
        obtain rfl := Option.some.inj hitem
        have hblock := allCode_of_filterSegments hsegments fun raw hraw =>
          hraws raw ((List.takeWhile_prefix _).subset (PhysicalLine.mem_of_mem_dropBlankEnd hraw))
        exact fun code hcode => hblock code (Segment.expression_mem_merge.mp hcode)

end Item

theorem Outline.allCode_of_read {source : Text} {entries : List Entry}
    (h : Outline.read source = .ok entries) : ∀ e ∈ entries, e.item.AllCode Holds := by
  intro e he
  obtain ⟨line, behind, left, hread, hline, hbehind⟩ := exists_read h e he
  exact Item.allCode_of_read hread hline hbehind

namespace Document

open Segment (Cut)

/-- All code of a document is trimmed, and none is empty but between the braces of an interpolation
and in the second part of a reference, where nothing is written. -/
theorem code_of_read {source : Text} {forest : List Node} (h : read source = .ok forest) :
    (∀ p ∈ Node.walkAll 0 forest, p.2.item.AllCode CodePlace.Admits) ∧
    (∀ (line : Nat) (t : Text) (segments : List Segment), Segment.scan line t = .ok segments →
      ∃ pieces last, Cut t pieces last ∧
        (.expression [] ∈ segments ↔ ∃ p ∈ pieces, Text.trim p.inside = [])) ∧
    ∀ (line : Nat) (body : Text) (r : Reference), Reference.read line body = .ok r →
      (r.qualifier = some (.code []) ↔
        ∃ first second, splitCommas 0 .outside body = [first, second] ∧
          Text.trim second = []) := by
  obtain ⟨entries, hentries, rfl⟩ := Outcome.exists_of_map_eq_ok h
  refine ⟨fun p hp => ?_, ?_, fun _ _ _ => Reference.qualifier_eq_nil_iff⟩
  · have hentry := Node.entry_mem_of_mem_walkAll (Outline.isOutline_of_read hentries) hp
    exact (Outline.allCode_of_read hentries _ hentry).mono fun _ _ hcode => hcode.toAdmits
  · intro line t segments hscan
    obtain ⟨pieces, last, hcut, hcodes⟩ := Segment.exists_cut_of_scan hscan
    exact ⟨pieces, last, hcut, hcodes []⟩

/-- Code in all places. -/
def fullSource : Text :=
  "%p\x7b:a => b, :c => \"#\x7bd\x7d\"\x7d[g, h]= i\n%q\x7bf(1) => 2\x7d\n- j\n= k\n#\x7bl\x7d"

theorem code_of_read_full : ∃ forest, read fullSource = .ok forest ∧
    ∀ p ∈ Node.walkAll 0 forest, p.2.item.AllCode CodePlace.Admits := by
  have hread : (read fullSource).isOk = true := by decide +kernel
  obtain ⟨forest, hread⟩ := Outcome.exists_of_isOk hread
  exact ⟨forest, hread, (code_of_read hread).1⟩

/-- Braces with nothing between them. -/
theorem read_code_empty : ¬∀ (source : Text) (forest : List Node), read source = .ok forest →
    ∀ p ∈ Node.walkAll 0 forest,
      p.2.item.AllCode fun _ code => code ≠ [] ∧ Text.trim code = code := by
  intro h
  let item : Item := .text [.literal "a ", .expression []] .configured
  have houtline : Outline.read "a #\x7b\x7d" = .ok [⟨0, 1, item⟩] := by decide +kernel
  have hread : read "a #\x7b\x7d" = .ok [.mk 1 item []] := by
    rw [read, houtline]
    rfl
  have hall := h _ _ hread (0, .mk 1 item []) (by simp [Node.walkAll, Node.walk])
  have hcode : .expression [] ∈ [Segment.literal "a ", .expression []] := by simp
  exact (hall [] hcode).1 rfl

end Document

end Haml
