import Haml.Proofs.Outline.Codes

/-! Where the attributes of a document come from. Each of them is a name alone, a word, a quoted
text or a whole hash. A quoted text is interpolated where a pair that opens code stands in it,
whether code opens there or not. Where none does, all of it is one literal, and the pair stands
there. -/

namespace Haml

namespace Segment

variable {line : Nat} {read t u : Text} {segments : List Segment}

theorem opensIn_append (h : opensIn t = true) : opensIn (t ++ u) = true := by
  rw [Segment.opensIn_iff_infix] at h ⊢
  exact h.trans (List.prefix_append t u).isInfix

theorem opensIn_cons (h : opensIn t = true) (c : Char) : opensIn (c :: t) = true := by
  rw [Segment.opensIn_iff_infix] at h ⊢
  exact h.trans (List.suffix_cons c t).isInfix

/-- A pair that opens code is there in front of a text or behind its first character. -/
theorem opensIn_cons_iff {c : Char} :
    opensIn (c :: t) = true ↔ (c = '#' ∧ ∃ rest, t = '{' :: rest) ∨ opensIn t = true := by
  rw [Segment.opensIn_iff_infix, Segment.opensIn_iff_infix, List.infix_cons_iff]
  refine or_congr_left ⟨?_, ?_⟩
  · rintro ⟨rest, hrest⟩
    obtain ⟨rfl, rfl⟩ := List.cons.inj hrest
    exact ⟨rfl, rest, rfl⟩
  · rintro ⟨rfl, rest, rfl⟩
    exact ⟨rest, rfl⟩

theorem opensIn_of_cons {c : Char} (hc : c ≠ '#') (h : opensIn (c :: t) = true) :
    opensIn t = true := (opensIn_cons_iff.mp h).resolve_left fun hpair => hc hpair.1

/-- Undoing escapes takes no pair apart. -/
theorem opensIn_unescape {mark : Char} (hmark : Quote.isMark mark = true)
    (h : opensIn t = true) : opensIn (Quote.unescape mark t) = true := by
  have hhash : mark ≠ '#' := by
    rintro rfl
    cases hmark
  fun_induction Quote.unescape mark t with
  | case1 => cases h
  | case2 rest ih =>
    exact opensIn_cons (ih (opensIn_of_cons (by decide) (opensIn_of_cons (by decide) h))) _
  | case3 rest hslash ih =>
    exact opensIn_cons (ih (opensIn_of_cons hhash (opensIn_of_cons (by decide) h))) _
  | case4 c rest hslash hc hfeed ih =>
    obtain ⟨rfl, -⟩ : c = 'n' ∧ mark = '"' := by simpa using hfeed
    exact opensIn_cons (ih (opensIn_of_cons (by decide) (opensIn_of_cons (by decide) h))) _
  | case5 c rest hslash hc hfeed htab ih =>
    obtain ⟨rfl, -⟩ : c = 't' ∧ mark = '"' := by simpa using htab
    exact opensIn_cons (ih (opensIn_of_cons (by decide) (opensIn_of_cons (by decide) h))) _
  | case6 c rest hslash hc hfeed htab ih =>
    exact opensIn_cons (ih (opensIn_of_cons (by decide) h)) _
  | case7 c rest hpair hplain ih =>
    rcases opensIn_cons_iff.mp h with ⟨rfl, tail, rfl⟩ | hrest
    · have hbrace : Quote.unescape mark ('{' :: tail) = '{' :: Quote.unescape mark tail :=
        Quote.unescape_append (t := ['{']) (by decide) tail
      rw [hbrace]
      rfl
    · exact opensIn_cons (ih hrest) c

/-- Scanned text without code is one literal, in which every pair that opens code stands. -/
theorem literal_of_scanAfter (h : scanAfter line read t = .ok segments)
    (hliteral : segments.all isLiteral = true) : ∃ text, segments = ofLiteral text ∧
      (opensIn read.reverse = true ∨ opensIn t = true → opensIn text = true) := by
  fun_induction scanAfter line read t generalizing segments with
  | case1 read =>
    exact ⟨read.reverse, (Except.ok.inj h).symm, fun h => h.resolve_right (by decide)⟩
  | case2 =>
    rename_i read rest slashes halved hodd ih
    obtain ⟨text, rfl, htext⟩ := ih h hliteral
    refine ⟨text, rfl, fun _ => htext (.inl ?_)⟩
    rw [Segment.opensIn_iff_infix]
    exact ⟨halved.reverse, [], by simp⟩
  | case3 => cases h
  | case4 =>
    obtain ⟨more, -, rfl⟩ := Outcome.exists_of_map_eq_ok h
    simp [isLiteral] at hliteral
  | case5 read c rest hopen ih =>
    obtain ⟨text, rfl, htext⟩ := ih h hliteral
    refine ⟨text, rfl, fun hopens => htext ?_⟩
    rcases hopens with hread | hrest
    · rw [List.reverse_cons]
      exact .inl (opensIn_append hread)
    · rcases opensIn_cons_iff.mp hrest with ⟨rfl, tail, rfl⟩ | hrest
      · exact absurd rfl (hopen tail rfl)
      · exact .inr hrest

end Segment

namespace AttributeSource

variable {line : Nat} {name t : Text} {source : AttributeSource}

/-- What the reader of a header makes sources of. -/
inductive Made (line : Nat) : AttributeSource → Prop
  | flag (name : Text) : Made line (.fixed name (.bool true))
  | word (name word : Text) : Made line (.ofWord name word)
  | quoted {name body : Text} {mark : Char} {source : AttributeSource}
      (hmark : Quote.isMark mark = true) (h : ofQuoted line name mark body = .ok source) :
      Made line source
  | hash (code : Text) : Made line (.hash code)

/-- In an interpolated source without code, all is one literal, and a pair that opens code is in
it. -/
theorem Made.literal {segments : List Segment} (h : Made line (.interpolated name segments))
    (hliteral : segments.all Segment.isLiteral = true) :
    ∃ text, segments = [.literal text] ∧ Segment.opensIn text = true := by
  generalize hsource : interpolated name segments = source at h
  cases h with
  | flag name => cases hsource
  | word name word =>
    unfold ofWord at hsource
    split at hsource <;> cases hsource
  | hash code => cases hsource
  | @quoted name body mark source hmark h =>
    subst hsource
    rw [ofQuoted] at h
    split at h
    · next hopens =>
      split at h
      · cases h
      · next scanned hscan =>
        obtain ⟨-, rfl⟩ := interpolated.inj (Except.ok.inj h)
        have hscanned : scanned.all Segment.isLiteral = true := by
          rw [List.all_map] at hliteral
          rw [← hliteral]
          refine List.all_congr rfl fun segment => ?_
          cases segment <;> rfl
        obtain ⟨text, rfl, htext⟩ := Segment.literal_of_scanAfter hscan hscanned
        have hpair := htext (.inr hopens)
        have hne : text ≠ [] := by
          rintro rfl
          cases hpair
        refine ⟨Quote.unescape mark text, ?_, Segment.opensIn_unescape hmark hpair⟩
        rw [Segment.ofLiteral, if_neg (by simpa using hne)]
        rfl
    · cases Except.ok.inj h

theorem made_ofValue {value : Text} (h : ofValue line name value = .ok source) :
    source.Made line := by
  rw [ofValue] at h
  split at h
  · cases h
  · split at h
    · next hopens =>
      split at h
      · next mark body hread =>
        exact .quoted (Quote.isMark_of_read hopens hread) h
      · exact Except.ok.inj h ▸ .word name value
    · exact Except.ok.inj h ▸ .word name value

end AttributeSource

open AttributeSource (Made)

variable {line : Nat} {t : Text} {sources : List AttributeSource}

theorem Hash.made_of_forall₂ {entries : List Text}
    (h : List.Forall₂ (Reads line) entries sources) : ∀ a ∈ sources, a.Made line := by
  induction h with
  | nil => exact List.forall_mem_nil _
  | cons hfirst _ ih =>
    obtain ⟨key, value, -, -, hvalue⟩ := hfirst
    exact List.forall_mem_cons.mpr ⟨AttributeSource.made_ofValue hvalue, ih⟩

theorem Hash.made_of_read (h : read line t = .ok sources) : ∀ a ∈ sources, a.Made line := by
  rcases read_eq_ok_iff.mp h with h | ⟨-, rfl⟩
  · exact made_of_forall₂ (ofEntries_eq_some_iff.mp h)
  · exact fun a ha => List.mem_singleton.mp ha ▸ .hash _

namespace AttributeList

variable {name rest : Text} {source : AttributeSource}

theorem made_of_readValue (h : readValue line name t = .ok (source, rest)) : source.Made line := by
  rw [readValue] at h
  split at h
  · cases h
  · split at h
    · next hopens =>
      split at h
      · cases h
      · next mark body after hread =>
        obtain ⟨quoted, hquoted, heq⟩ := Outcome.exists_of_map_eq_ok h
        obtain ⟨rfl, -⟩ := Prod.mk.inj heq
        exact .quoted (Quote.isMark_of_read hopens hread) hquoted
    · obtain ⟨rfl, -⟩ := Prod.mk.inj (Except.ok.inj h)
      exact .word name _

theorem made_of_readAttribute {first : Char}
    (h : readAttribute line first t = .ok (source, rest)) : source.Made line := by
  rw [readAttribute] at h
  split at h
  · dsimp only at h
    split at h
    · exact made_of_readValue h
    · obtain ⟨rfl, -⟩ := Prod.mk.inj (Except.ok.inj h)
      exact .flag _
  · cases h

theorem made_of_read (h : read line t = .ok sources) : ∀ a ∈ sources, a.Made line := by
  fun_induction read line t generalizing sources with
  | case1 =>
    obtain rfl := Except.ok.inj h
    exact List.forall_mem_nil _
  | case2 => cases h
  | case3 t first rest htrim source left hread hlength ih =>
    obtain ⟨more, hmore, rfl⟩ := Outcome.exists_of_map_eq_ok h
    exact List.forall_mem_cons.mpr ⟨made_of_readAttribute hread, ih hmore⟩

end AttributeList

namespace Groups

variable {groups after : Groups} {rest : Text}

theorem made_of_add {opener : Char} (h : add line groups opener t = .ok after)
    (hgroups : ∀ a ∈ groups.attributes, a.Made line) : ∀ a ∈ after.attributes, a.Made line := by
  rw [add] at h
  split at h
  · split at h
    · cases h
    · obtain ⟨r, -, rfl⟩ := Outcome.exists_of_map_eq_ok h
      exact hgroups
  · split at h
    · cases h
    · split at h
      · split at h
        · cases h
        · obtain ⟨sources, hsources, rfl⟩ := Outcome.exists_of_map_eq_ok h
          exact List.forall_mem_append.mpr ⟨hgroups, Hash.made_of_read hsources⟩
      · split at h
        · cases h
        · obtain ⟨sources, hsources, rfl⟩ := Outcome.exists_of_map_eq_ok h
          exact List.forall_mem_append.mpr ⟨hgroups, AttributeList.made_of_read hsources⟩

theorem made_of_readAll (h : readAll line groups t = .ok (after, rest))
    (hgroups : ∀ a ∈ groups.attributes, a.Made line) : ∀ a ∈ after.attributes, a.Made line := by
  fun_induction readAll line groups t with
  | case1 =>
    obtain ⟨rfl, -⟩ := Prod.mk.inj (Except.ok.inj h)
    exact hgroups
  | case2 => cases h
  | case3 => cases h
  | case4 =>
    rename_i hadd _ ih
    exact ih h (made_of_add hadd hgroups)
  | case5 =>
    obtain ⟨rfl, -⟩ := Prod.mk.inj (Except.ok.inj h)
    exact hgroups

end Groups

namespace Header

variable {header : Header} {implicitDiv : Bool}

theorem made_of_read (h : read implicitDiv line t = .ok header) :
    ∀ a ∈ header.attributes, a.Made line := by
  obtain ⟨lead, behind, groups, rest, rfl, -, hgroups, hattributes, -, -⟩ := exists_of_read h
  exact hattributes ▸ Groups.made_of_readAll hgroups (List.forall_mem_nil _)

theorem made_of_readLines {raws left : List PhysicalLine}
    (h : readLines implicitDiv line t raws = .ok (header, left)) :
    ∀ a ∈ header.attributes, a.Made line := by
  fun_induction readLines implicitDiv line t raws with
  | case1 t raws header' hread =>
    obtain ⟨rfl, rfl⟩ := Prod.mk.inj (Except.ok.inj h)
    exact made_of_read hread
  | case2 => cases h
  | case3 => cases h
  | case4 t raw raws hread ih => exact ih h

end Header

namespace Item

variable {e : Element}

theorem attributes_of_ofHeader {header : Header} (h : ofHeader line header = .ok (.element e)) :
    e.attributes = header.attributes := by
  rw [ofHeader] at h
  cases htail : header.tail with
  | none =>
    rw [htail] at h
    obtain rfl := Item.element.inj (Except.ok.inj h)
    rfl
  | script output =>
    rw [htail] at h
    obtain rfl := Item.element.inj (Except.ok.inj h)
    rfl
  | text written =>
    rw [htail] at h
    dsimp only at h
    split at h
    · cases h
    · obtain rfl := Item.element.inj (Except.ok.inj h)
      rfl

/-- The attributes of an element are those of the header it was read of. -/
theorem made_of_read {l : Line} {raws left : List PhysicalLine}
    (h : Item.read l raws = .ok (some (.element e), left)) :
    ∀ a ∈ e.attributes, a.Made l.number := by
  obtain ⟨payload, -, hcases⟩ := read_cases h
  rcases hcases with ⟨_, header, hlines, h⟩ | ⟨_, h⟩ | ⟨_, _, h⟩ | h | h | ⟨args, h⟩ | h
  · exact attributes_of_ofHeader h ▸ Header.made_of_readLines hlines
  -- No other line declares an element.
  · unfold ofText at h
    split at h <;> cases h
  · unfold ofScript at h
    dsimp only at h
    split at h <;> cases h
  · unfold ofSilent at h
    dsimp only at h
    split at h <;> cases h
  · obtain ⟨condition, text, h, -⟩ := ofComment_eq_ok h
    cases h
  · cases h
  · unfold readFilter at h
    dsimp only at h
    split at h
    · cases h
    · split at h <;> cases h

end Item

theorem Document.made_of_read {source : Text} {forest : List Node} (h : read source = .ok forest)
    {p : Nat × Node} (hp : p ∈ Node.walkAll 0 forest) {e : Element}
    (he : p.2.item = .element e) : ∀ a ∈ e.attributes, ∃ line, a.Made line := by
  obtain ⟨entries, hentries, rfl⟩ := Outcome.exists_of_map_eq_ok h
  have hentry := Node.entry_mem_of_mem_walkAll (Outline.isOutline_of_read hentries) hp
  obtain ⟨line, behind, left, hread, -⟩ := Outline.exists_read hentries _ hentry
  have hitem : (Node.entry p).item = .element e := he
  rw [hitem] at hread
  exact fun a ha => ⟨line.number, Item.made_of_read hread a ha⟩

end Haml
