import Haml.Proofs.Outline.Solid

/-! What is read of lines and written out as it stands: tag names, text, comments. None of it has a
line feed in it, but for the lines of a filter. -/

namespace Haml

theorem Shorthand.suffix_of_readAll {text rest : Text} {shorthands : List Shorthand}
    (h : readAll text = .ok (shorthands, rest)) : rest <:+ text := by
  fun_induction readAll text generalizing shorthands with
  | case1 =>
    obtain ⟨-, rfl⟩ := Prod.mk.inj (Except.ok.inj h)
    exact List.suffix_rfl
  | case2 => cases h
  | case3 =>
    rename_i ih
    obtain ⟨⟨more, rest'⟩, hmore, heq⟩ := Outcome.exists_of_map_eq_ok h
    obtain ⟨-, rfl⟩ := Prod.mk.inj heq
    exact (ih hmore).trans ((List.dropWhile_suffix _).trans (List.suffix_cons _ _))
  | case4 =>
    obtain ⟨-, rfl⟩ := Prod.mk.inj (Except.ok.inj h)
    exact List.suffix_rfl

theorem Groups.suffix_of_readAll {line : Nat} {groups after : Groups} {text rest : Text}
    (h : readAll line groups text = .ok (after, rest)) : rest <:+ text := by
  fun_induction readAll line groups text with
  | case1 =>
    obtain ⟨-, rfl⟩ := Prod.mk.inj (Except.ok.inj h)
    exact List.suffix_rfl
  | case2 => cases h
  | case3 => cases h
  | case4 =>
    rename_i hbody _ _ _ ih
    obtain ⟨close, -, rfl⟩ := Brackets.eq_append_of_body hbody
    exact (ih h).trans ((List.suffix_cons close _).trans
      ((List.suffix_append _ _).trans (List.suffix_cons _ _)))
  | case5 =>
    obtain ⟨-, rfl⟩ := Prod.mk.inj (Except.ok.inj h)
    exact List.suffix_rfl

namespace Header

theorem atLine_eq_ok {α : Type} {line : Nat} {m : Except SyntaxFault α} {a : α}
    (h : atLine line m = .ok a) : m = .ok a := by
  cases m with
  | error fault => cases h
  | ok b => exact congrArg Except.ok (Except.ok.inj h)

theorem suffix_readSlash (text : Text) : (readSlash text).2 <:+ text := by
  unfold readSlash
  split
  · exact List.suffix_cons _ _
  · exact List.suffix_rfl

theorem ne_text_of_ofCode {code written : Text} {escape : Escape} {preserve : Bool} :
    Tail.ofCode code escape preserve ≠ .ok (.text written) := by
  unfold Tail.ofCode
  dsimp only
  split <;> nofun

theorem subset_of_tail {text written : Text} (h : Tail.read text = .ok (.text written)) :
    written ⊆ text := by
  unfold Tail.read at h
  split at h
  case h_1 => cases h
  case h_6 =>
    split at h
    · have hcontent := Except.ok.inj h
      split at hcontent
      · cases hcontent
      · obtain rfl := Tail.text.inj hcontent
        exact fun c hc => List.mem_cons_of_mem _ (Text.mem_of_mem_trim hc)
    · cases h
  all_goals exact absurd h ne_text_of_ofCode

theorem tail_of_readTail {flagged selfClosing : Bool} {text : Text} {tail : Tail}
    (h : readTail flagged selfClosing text = .ok tail) : Tail.read text = .ok tail := by
  unfold readTail at h
  split at h
  · cases h
  · obtain ⟨tail', htail, h⟩ := Outcome.exists_of_bind_eq_ok h
    split at h
    · cases h
    · exact Except.ok.inj h ▸ htail

theorem tag_of_readTag {implicitDiv : Bool} {text tag rest : Text}
    (h : readTag implicitDiv text = .ok (tag, rest)) :
    (tag = "div".toList ∨ tag ⊆ text) ∧ rest <:+ text := by
  unfold readTag at h
  split at h
  · obtain ⟨rfl, rfl⟩ := Prod.mk.inj (Except.ok.inj h)
    exact ⟨.inl rfl, List.suffix_rfl⟩
  · split at h
    · cases h
    · obtain ⟨rfl, rfl⟩ := Prod.mk.inj (Except.ok.inj h)
      exact ⟨.inr (List.takeWhile_prefix _).subset, List.dropWhile_suffix _⟩

section Read

variable {implicitDiv : Bool} {line : Nat} {text : Text} {header : Header}

/-- The tag is written in the header, unless it is left out, and the tail is read of its end. -/
theorem exists_tail_of_read (h : read implicitDiv line text = .ok header) :
    (header.tag = "div".toList ∨ header.tag ⊆ text) ∧
      ∃ rest, rest <:+ text ∧ Tail.read rest = .ok header.tail := by
  obtain ⟨⟨tag, afterTag⟩, htag, h⟩ := Outcome.exists_of_bind_eq_ok h
  obtain ⟨⟨shorthands, afterShorthands⟩, hshorthands, h⟩ := Outcome.exists_of_bind_eq_ok h
  obtain ⟨⟨groups, afterGroups⟩, hgroups, h⟩ := Outcome.exists_of_bind_eq_ok h
  obtain ⟨tail, htail, h⟩ := Outcome.exists_of_bind_eq_ok h
  obtain rfl := Except.ok.inj h
  obtain ⟨htag, hafterTag⟩ := tag_of_readTag (atLine_eq_ok htag)
  have hafter := (Groups.suffix_of_readAll hgroups).trans
    ((Shorthand.suffix_of_readAll (atLine_eq_ok hshorthands)).trans hafterTag)
  have hslash := suffix_readSlash (afterGroups.dropWhile isFlag)
  exact ⟨htag, _, hslash.trans ((List.dropWhile_suffix isFlag).trans hafter),
    tail_of_readTail (atLine_eq_ok htail)⟩

theorem subset_of_read (h : read implicitDiv line text = .ok header) :
    (header.tag = "div".toList ∨ header.tag ⊆ text) ∧
      ∀ written, header.tail = .text written → written ⊆ text := by
  obtain ⟨htag, rest, hrest, htail⟩ := exists_tail_of_read h
  refine ⟨htag, fun written hwritten => ?_⟩
  rw [hwritten] at htail
  exact List.Subset.trans (subset_of_tail htail) hrest.subset

variable {raws left : List PhysicalLine}

/-- Lines that are added to a header are put behind a space. -/
theorem exists_unbroken_of_readLines
    (h : readLines implicitDiv line text raws = .ok (header, left)) (htext : '\n' ∉ text)
    (hraws : PhysicalLine.Unbroken raws) :
    ∃ written, '\n' ∉ written ∧ read implicitDiv line written = .ok header := by
  fun_induction readLines implicitDiv line text raws with
  | case1 text raws header' hread =>
    obtain ⟨rfl, rfl⟩ := Prod.mk.inj (Except.ok.inj h)
    exact ⟨text, htext, hread⟩
  | case2 => cases h
  | case3 => cases h
  | case4 text raw raws hread ih =>
    obtain ⟨hraw, hrest⟩ := List.forall_mem_cons.mp hraws
    refine ih h (List.not_mem_append htext ?_) hrest
    exact List.not_mem_cons_of_ne_of_not_mem (by decide) fun hmem =>
      hraw (Text.mem_of_mem_trim hmem)

theorem unbroken_of_readLines
    (h : readLines implicitDiv line text raws = .ok (header, left)) (htext : '\n' ∉ text)
    (hraws : PhysicalLine.Unbroken raws) : '\n' ∉ header.tag ∧
      ∀ written, header.tail = .text written → '\n' ∉ written := by
  obtain ⟨whole, hwhole, hread⟩ := exists_unbroken_of_readLines h htext hraws
  obtain ⟨htag, htail⟩ := subset_of_read hread
  refine ⟨?_, fun written hwritten hmem => hwhole (htail written hwritten hmem)⟩
  rcases htag with htag | htag
  · rw [htag]
    decide
  · exact fun hmem => hwhole (htag hmem)

end Read

end Header

namespace Item

def isFilter : Item → Bool
  | filter _ _ => true
  | _ => false

/-- No line feed in what is written out as it stands. Filters have several lines. -/
def Unbroken : Item → Prop
  | element e => '\n' ∉ e.tag ∧
      ∀ segments, e.content = .text segments → ∀ t, .literal t ∈ segments → '\n' ∉ t
  | text segments _ => ∀ t, .literal t ∈ segments → '\n' ∉ t
  | comment condition written => (∀ t ∈ condition, '\n' ∉ t) ∧ ∀ t ∈ written, '\n' ∉ t
  | filter _ _ => False
  | _ => True

theorem read_unbroken {line : Line} {raws left : List PhysicalLine} {item : Item}
    (h : Item.read line raws = .ok (some item, left)) (hline : '\n' ∉ line.text)
    (hraws : PhysicalLine.Unbroken raws) (hfilter : item.isFilter = false) : item.Unbroken := by
  obtain ⟨payload, hsub, hcases⟩ := read_cases h
  have hpayload : '\n' ∉ payload := fun hmem => hline (hsub hmem)
  rcases hcases with ⟨_, header, hlines, h⟩ | ⟨_, h⟩ | ⟨_, _, h⟩ | h | h | ⟨args, rfl⟩ | h
  · obtain ⟨htag, htail⟩ := Header.unbroken_of_readLines hlines hpayload hraws
    obtain ⟨e, rfl, heq, hcontent⟩ := ofHeader_eq_ok h
    refine ⟨heq ▸ htag, fun segments hsegments t ht => ?_⟩
    obtain ⟨written, hwritten, hscan⟩ := hcontent segments hsegments
    exact (Segment.scanAfter_literals hscan List.not_mem_nil (htail written hwritten) t ht).2
  · unfold ofText at h
    split at h
    · cases h
    · next segments hscan =>
      obtain rfl := Except.ok.inj h
      exact fun t ht => (Segment.scanAfter_literals hscan List.not_mem_nil hpayload t ht).2
  · obtain ⟨s, rfl⟩ := ofScript_eq_ok h
    trivial
  · obtain ⟨code, rfl⟩ := ofSilent_eq_ok h
    trivial
  · obtain ⟨condition, text, rfl, hcondition, htext⟩ := ofComment_eq_ok h
    exact ⟨fun t ht hmem => hpayload (hcondition t ht hmem),
      fun t ht hmem => hpayload (htext t ht hmem)⟩
  · trivial
  · unfold readFilter at h
    dsimp only at h
    split at h
    · cases h
    · split at h
      · cases h
      · obtain ⟨hitem, -⟩ := Prod.mk.inj (Except.ok.inj h)
        obtain rfl := Option.some.inj hitem
        cases hfilter

end Item

/-- Without filters all items of an outline are unbroken. -/
theorem Outline.unbroken_of_read {source : Text} {entries : List Entry}
    (h : read source = .ok entries) (hfilter : ∀ e ∈ entries, e.item.isFilter = false) :
    ∀ e ∈ entries, e.item.Unbroken := by
  intro e he
  obtain ⟨line, behind, left, hread, hline, hbehind⟩ := exists_read h e he
  exact Item.read_unbroken hread hline hbehind (hfilter e he)

end Haml
