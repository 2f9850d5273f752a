import Haml.Proofs.Outline.Unbroken

/-! Elements with a slash. A header with a slash has nothing behind it and its element takes no
children, so that such an element is empty wherever it stands in a document. -/

namespace Haml

variable {line : Nat}

namespace Header

theorem eq_none_of_readTail {flagged selfClosing : Bool} {text : Text} {tail : Tail}
    (h : readTail flagged selfClosing text = .ok tail) (hclosed : selfClosing = true) :
    tail = .none := by
  unfold readTail at h
  split at h
  · cases h
  · obtain ⟨tail', -, h⟩ := Outcome.exists_of_bind_eq_ok h
    split at h
    · cases h
    · next hnone =>
      obtain rfl := Except.ok.inj h
      simpa [hclosed] using hnone

/-- A header with a slash has nothing behind it. -/
theorem tail_of_selfClosing {implicitDiv : Bool} {text : Text} {header : Header}
    (h : read implicitDiv line text = .ok header) (hclosed : header.selfClosing = true) :
    header.tail = .none := by
  obtain ⟨⟨tag, afterTag⟩, -, h⟩ := Outcome.exists_of_bind_eq_ok h
  obtain ⟨⟨shorthands, afterShorthands⟩, -, h⟩ := Outcome.exists_of_bind_eq_ok h
  obtain ⟨⟨groups, afterGroups⟩, -, h⟩ := Outcome.exists_of_bind_eq_ok h
  obtain ⟨tail, htail, h⟩ := Outcome.exists_of_bind_eq_ok h
  obtain rfl := Except.ok.inj h
  exact eq_none_of_readTail (atLine_eq_ok htail) hclosed

theorem exists_of_readLines_eq_ok {implicitDiv : Bool} {text : Text} {raws left : List PhysicalLine}
    {header : Header} (h : readLines implicitDiv line text raws = .ok (header, left)) :
    ∃ written, read implicitDiv line written = .ok header := by
  fun_induction readLines implicitDiv line text raws with
  | case1 text raws header' hread =>
    obtain ⟨rfl, rfl⟩ := Prod.mk.inj (Except.ok.inj h)
    exact ⟨text, hread⟩
  | case2 => cases h
  | case3 => cases h
  | case4 text raw raws hread ih => exact ih h

end Header

namespace Item

/-- An element with a slash has nothing on its line. -/
def Shut : Item → Prop
  | element e => e.selfClosing = true → e.content = .none
  | _ => True

theorem ofHeader_shut {header : Header} {item : Item} (h : ofHeader line header = .ok item)
    (hheader : header.selfClosing = true → header.tail = .none) : item.Shut := by
  rw [ofHeader] at h
  cases htail : header.tail with
  | none =>
    rw [htail] at h
    obtain rfl := Except.ok.inj h
    exact fun _ => rfl
  | script output =>
    rw [htail] at h
    obtain rfl := Except.ok.inj h
    intro hclosed
    cases htail.symm.trans (hheader hclosed)
  | text written =>
    rw [htail] at h
    dsimp only at h
    split at h
    · cases h
    · obtain rfl := Except.ok.inj h
      intro hclosed
      cases htail.symm.trans (hheader hclosed)

theorem read_shut {line : Line} {raws left : List PhysicalLine} {item : Item}
    (h : Item.read line raws = .ok (some item, left)) : item.Shut := by
  obtain ⟨payload, -, hcases⟩ := read_cases h
  rcases hcases with ⟨_, header, hlines, h⟩ | ⟨_, h⟩ | ⟨_, _, h⟩ | h | h | ⟨args, rfl⟩ | h
  · obtain ⟨written, hread⟩ := Header.exists_of_readLines_eq_ok hlines
    exact ofHeader_shut h (Header.tail_of_selfClosing hread)
  · unfold ofText at h
    split at h
    · cases h
    · exact Except.ok.inj h ▸ trivial
  · obtain ⟨s, rfl⟩ := ofScript_eq_ok h
    trivial
  · obtain ⟨code, rfl⟩ := ofSilent_eq_ok h
    trivial
  · obtain ⟨condition, text, rfl, -⟩ := ofComment_eq_ok h
    trivial
  · trivial
  · unfold readFilter at h
    dsimp only at h
    split at h
    · cases h
    · split at h
      · cases h
      · obtain ⟨hitem, -⟩ := Prod.mk.inj (Except.ok.inj h)
        exact Option.some.inj hitem ▸ trivial

end Item

theorem Node.Lawful.isEmpty {n : Node} (h : n.Lawful) (hrefusal : n.item.refusal ≠ none) :
    n.children.isEmpty = true := by
  by_contra hne
  exact hrefusal (h fun hnil => hne (List.isEmpty_iff.mpr hnil))

/-- Every node of a document takes the children that it has, and has nothing behind a slash. -/
theorem Document.lawful_of_read {source : Text} {entries : List Entry}
    (h : Outline.read source = .ok entries) :
    ∀ p ∈ Node.walkAll 0 (Entry.forest entries), p.2.Lawful ∧ p.2.item.Shut := by
  have houtline := Outline.isOutline_of_read h
  refine fun p hp => ⟨(Node.walkAll_forest houtline).2 p hp, ?_⟩
  have hmem := Node.entry_mem_of_mem_walkAll houtline hp
  obtain ⟨line, behind, left, hread, -⟩ := Outline.exists_read h _ hmem
  exact Item.read_shut hread

end Haml
