import Haml.Proofs.Header.Groups
import Haml.Proofs.Header.Keyed
import Haml.Proofs.Segment.Codes

/-! The code of a header. Every reader that makes code of a text trims it, and all but two see to it
that something is left: the braces of an interpolation may hold nothing, and so may the second part
of a reference. All code is on one line, since headers are. -/

namespace Haml

/-- The places of a document where code stands. -/
inductive CodePlace
  | script
  | silent
  | inline
  | dynamic
  | hash
  | object
  | qualifier
  | interpolation
  deriving DecidableEq, Repr

section AllCode

variable (P : CodePlace → Text → Prop)

/-- All code in segments has the property. -/
def Segment.AllCode (segments : List Segment) : Prop :=
  ∀ code, expression code ∈ segments → P .interpolation code

def AttributeSource.AllCode : AttributeSource → Prop
  | fixed _ _ => True
  | interpolated _ segments => Segment.AllCode P segments
  | dynamic _ code => P .dynamic code
  | hash code => P .hash code

structure Reference.AllCode (r : Reference) : Prop where
  object : P .object r.code
  qualifier : ∀ code, r.qualifier = some (.code code) → P .qualifier code

end AllCode

section Mono

variable {P Q : CodePlace → Text → Prop} (h : ∀ place code, P place code → Q place code)

include h

theorem AttributeSource.AllCode.mono {a : AttributeSource} (ha : a.AllCode P) : a.AllCode Q := by
  cases a with
  | fixed name value => trivial
  | interpolated name segments => exact fun code hcode => h _ _ (ha code hcode)
  | dynamic name code => exact h _ _ ha
  | hash code => exact h _ _ ha

theorem Reference.AllCode.mono {r : Reference} (hr : r.AllCode P) : r.AllCode Q :=
  ⟨h _ _ hr.object, fun code hcode => h _ _ (hr.qualifier code hcode)⟩

end Mono

namespace CodePlace

/-- Trimmed code, and some in most places. -/
structure Admits (place : CodePlace) (code : Text) : Prop where
  trimmed : Text.trim code = code
  filled : code = [] → place = .interpolation ∨ place = .qualifier

/-- Code as it is read of a line. -/
structure Holds (place : CodePlace) (code : Text) : Prop extends Admits place code where
  unbroken : '\n' ∉ code

variable {place : CodePlace} {code t : Text}

theorem Holds.of_trim (ht : '\n' ∉ t) (hne : Text.trim t ≠ []) : place.Holds (Text.trim t) where
  trimmed := Text.trim_trim t
  filled hnil := absurd hnil hne
  unbroken hmem := ht (Text.mem_of_mem_trim hmem)

end CodePlace

open CodePlace (Holds)

variable {line : Nat} {t name : Text} {segments : List Segment}

theorem Segment.allCode_of_scan (h : scan line t = .ok segments) (ht : '\n' ∉ t) :
    AllCode Holds segments := by
  obtain ⟨pieces, last, hcut, hcodes⟩ := exists_cut_of_scan h
  intro code hcode
  obtain ⟨p, hp, rfl⟩ := (hcodes code).mp hcode
  have hinside : '\n' ∉ p.inside := fun hmem => ht (hcut.subset hp hmem)
  exact ⟨⟨Text.trim_trim _, fun _ => .inl rfl⟩, fun hmem => hinside (Text.mem_of_mem_trim hmem)⟩

theorem Quote.subset_of_read {mark : Char} {body rest : Text}
    (h : read t = some (mark, body, rest)) : body ⊆ t ∧ rest ⊆ t := by
  cases t with
  | nil => cases h
  | cons c t =>
    obtain ⟨⟨inner, after⟩, hbody, heq⟩ := Option.map_eq_some_iff.mp h
    obtain ⟨rfl, rfl, rfl⟩ : c = mark ∧ inner = body ∧ after = rest := by simpa using heq
    obtain ⟨close, rfl⟩ := eq_append_of_body hbody
    exact ⟨fun d hd => by simp [hd], fun d hd => by simp [hd]⟩

namespace AttributeSource

variable {source : AttributeSource}

theorem allCode_ofQuoted {mark : Char} {body : Text} (h : ofQuoted line name mark body = .ok source)
    (hbody : '\n' ∉ body) : source.AllCode Holds := by
  rw [ofQuoted] at h
  split at h
  · split at h
    · cases h
    · next segments hscan =>
      obtain rfl := Except.ok.inj h
      intro code hcode
      obtain ⟨segment, hsegment, heq⟩ := List.mem_map.mp hcode
      cases segment with
      | literal text => cases heq
      | expression inside =>
        obtain rfl := Segment.expression.inj heq
        exact Segment.allCode_of_scan hscan hbody inside hsegment
  · obtain rfl := Except.ok.inj h
    trivial

theorem allCode_ofWord {word : Text} (h : CodePlace.dynamic.Holds word) :
    (ofWord name word).AllCode Holds := by
  unfold ofWord
  split
  · trivial
  · exact h

theorem allCode_ofValue {value : Text} (h : ofValue line name value = .ok source)
    (htrim : Text.trim value = value) (hvalue : '\n' ∉ value) : source.AllCode Holds := by
  rw [ofValue] at h
  split at h
  · cases h
  · next hempty =>
    have hne : value ≠ [] := by simpa using hempty
    have hword : CodePlace.dynamic.Holds value := by
      have hread : CodePlace.dynamic.Holds (Text.trim value) := .of_trim hvalue (htrim.symm ▸ hne)
      rwa [htrim] at hread
    split at h
    · split at h
      · next mark body hread =>
        obtain ⟨hbody, -⟩ := Quote.subset_of_read hread
        exact allCode_ofQuoted h fun hmem => hvalue (hbody hmem)
      · exact Except.ok.inj h ▸ allCode_ofWord hword
    · exact Except.ok.inj h ▸ allCode_ofWord hword

end AttributeSource

theorem subset_of_mem_splitCommas {depth : Int} {quote : Quote} {piece : Text}
    (h : piece ∈ splitCommas depth quote t) : piece ⊆ t := by
  induction t generalizing depth quote piece with
  | nil =>
    obtain rfl : piece = [] := by simpa [splitCommas] using h
    exact List.nil_subset _
  | cons c t ih =>
    rw [splitCommas] at h
    split at h
    · rcases List.mem_cons.mp h with rfl | h
      · exact List.nil_subset _
      · exact List.Subset.trans (ih h) (List.subset_cons_self c t)
    · dsimp only at h
      split at h
      · obtain rfl := List.mem_singleton.mp h
        simp
      · next first more hsplit =>
        rcases List.mem_cons.mp h with rfl | h
        · exact List.cons_subset_cons c (ih (hsplit ▸ List.mem_cons_self))
        · have hpiece := ih (hsplit ▸ List.mem_cons_of_mem first h)
          exact List.Subset.trans hpiece (List.subset_cons_self c t)

namespace Hash

theorem Keyed.value_subset {key : Key} {entry value : Text} (h : Keyed key entry value) :
    Text.trim value = value ∧ value ⊆ entry := by
  cases h with
  | symbol _ | quotedSymbol _ | arrow _ | colon _ | bare _ =>
    exact ⟨Text.trim_trim _, fun c hc => by simp [Text.mem_of_mem_trim hc]⟩

theorem allCode_of_reads {entry : Text} {source : AttributeSource}
    (h : Reads line entry source) (hentry : '\n' ∉ entry) : source.AllCode Holds := by
  obtain ⟨key, value, -, hkeyed, hvalue⟩ := h
  obtain ⟨htrim, hsub⟩ := hkeyed.value_subset
  exact AttributeSource.allCode_ofValue hvalue htrim fun hmem => hentry (hsub hmem)

theorem allCode_of_forall₂ {entries : List Text} {sources : List AttributeSource}
    (h : List.Forall₂ (Reads line) entries sources) (hentries : ∀ entry ∈ entries, '\n' ∉ entry) :
    ∀ a ∈ sources, a.AllCode Holds := by
  induction h with
  | nil => nofun
  | cons hfirst _ ih =>
    obtain ⟨hentry, hrest⟩ := List.forall_mem_cons.mp hentries
    exact List.forall_mem_cons.mpr ⟨allCode_of_reads hfirst hentry, ih hrest⟩

theorem holds_code {body : Text} (hbody : '\n' ∉ body) :
    CodePlace.hash.Holds ('{' :: body ++ ['}']) := by
  refine ⟨⟨Text.trim_eq_self_iff.mpr ⟨?_, ?_⟩, nofun⟩, by simpa using hbody⟩
  · rintro c ⟨⟩
    decide
  · intro c hc
    rw [List.getLast?_concat] at hc
    obtain rfl := Option.some.inj hc
    decide

theorem allCode_of_read {body : Text} {sources : List AttributeSource}
    (h : read line body = .ok sources) (hbody : '\n' ∉ body) :
    ∀ a ∈ sources, a.AllCode Holds := by
  rcases read_eq_ok_iff.mp h with h | ⟨-, rfl⟩
  · have hentries : ∀ entry ∈ present (splitCommas 0 .outside body), '\n' ∉ entry := by
      intro entry hentry hmem
      obtain ⟨piece, hpiece, rfl⟩ := List.mem_map.mp (List.mem_filter.mp hentry).1
      exact hbody (subset_of_mem_splitCommas hpiece (Text.mem_of_mem_trim hmem))
    exact allCode_of_forall₂ (ofEntries_eq_some_iff.mp h) hentries
  · exact fun a ha => List.mem_singleton.mp ha ▸ holds_code hbody

end Hash

namespace AttributeList

variable {source : AttributeSource} {rest : Text}

theorem allCode_of_readValue (h : readValue line name t = .ok (source, rest)) (ht : '\n' ∉ t)
    (hstart : Text.trimStart t = t) : source.AllCode Holds ∧ rest ⊆ t := by
  rw [readValue] at h
  split at h
  · cases h
  next hempty =>
  split at h
  · split at h
    · cases h
    · next mark body after hread =>
      obtain ⟨hbody, hafter⟩ := Quote.subset_of_read hread
      obtain ⟨quoted, hquoted, heq⟩ := Outcome.exists_of_map_eq_ok h
      obtain ⟨rfl, rfl⟩ := Prod.mk.inj heq
      exact ⟨AttributeSource.allCode_ofQuoted hquoted fun hmem => ht (hbody hmem), hafter⟩
  · obtain ⟨rfl, rfl⟩ := Prod.mk.inj (Except.ok.inj h)
    refine ⟨AttributeSource.allCode_ofWord ?_, (List.dropWhile_suffix _).subset⟩
    have hblank : ∀ c ∈ t.takeWhile (!Unicode.isBlank ·), Unicode.isBlank c = false := by
      intro c hc
      simpa using List.mem_takeWhile_imp hc
    have hne : t.takeWhile (!Unicode.isBlank ·) ≠ [] := by
      obtain ⟨c, t, rfl⟩ := List.exists_cons_of_ne_nil (by simpa using hempty)
      have hc := Text.trimStart_eq_self_iff.mp hstart c rfl
      simp [hc]
    refine ⟨⟨Text.trim_eq_self_of_forall hblank, fun hnil => absurd hnil hne⟩, ?_⟩
    exact fun hmem => ht ((List.takeWhile_prefix _).subset hmem)

theorem allCode_of_readAttribute {first : Char}
    (h : readAttribute line first t = .ok (source, rest)) (ht : '\n' ∉ t) :
    source.AllCode Holds ∧ rest ⊆ t := by
  rw [readAttribute] at h
  split at h
  · dsimp only at h
    have hdrop : t.dropWhile isListName ⊆ t := (List.dropWhile_suffix _).subset
    split at h
    · next value hvalue =>
      have hsub : Text.trimStart value ⊆ t := by
        intro c hc
        have hmem : c ∈ Text.trimStart (t.dropWhile isListName) := by
          rw [hvalue]
          exact List.mem_cons_of_mem _ ((List.dropWhile_suffix _).subset hc)
        exact hdrop ((List.dropWhile_suffix _).subset hmem)
      have hidem : Text.trimStart (Text.trimStart value) = Text.trimStart value :=
        List.dropWhile_idempotent Unicode.isBlank value
      obtain ⟨hsource, hrest⟩ := allCode_of_readValue h (fun hmem => ht (hsub hmem)) hidem
      exact ⟨hsource, List.Subset.trans hrest hsub⟩
    · obtain ⟨rfl, rfl⟩ := Prod.mk.inj (Except.ok.inj h)
      exact ⟨trivial, hdrop⟩
  · cases h

theorem allCode_of_read {sources : List AttributeSource} (h : read line t = .ok sources)
    (ht : '\n' ∉ t) : ∀ a ∈ sources, a.AllCode Holds := by
  fun_induction read line t generalizing sources with
  | case1 =>
    obtain rfl := Except.ok.inj h
    nofun
  | case2 => cases h
  | case3 t first rest htrim source left hread hlength ih =>
    obtain ⟨more, hmore, rfl⟩ := Outcome.exists_of_map_eq_ok h
    have hrest : '\n' ∉ rest := by
      intro hmem
      have hmem' : '\n' ∈ Text.trimStart t := htrim ▸ List.mem_cons_of_mem first hmem
      exact ht ((List.dropWhile_suffix _).subset hmem')
    obtain ⟨hsource, hleft⟩ := allCode_of_readAttribute hread hrest
    exact List.forall_mem_cons.mpr ⟨hsource, ih hmore fun hmem => hrest (hleft hmem)⟩

end AttributeList

namespace Reference

variable {body : Text} {r : Reference}

/-- The parts of a reference, the first of which has code in it. -/
theorem cases_of_read (h : read line body = .ok r) : r.code ≠ [] ∧
    ((∃ first, splitCommas 0 .outside body = [first] ∧ r = ⟨Text.trim first, none⟩) ∨
      ∃ first second, splitCommas 0 .outside body = [first, second] ∧
        r = ⟨Text.trim first, some (readQualifier (Text.trim second))⟩) := by
  rw [read] at h
  split at h
  · cases h
  · next code hcode hsplit =>
    obtain rfl := Except.ok.inj h
    obtain ⟨first, hfirst, rfl⟩ := List.map_eq_singleton_iff.mp hsplit
    exact ⟨fun hnil => hcode hnil, .inl ⟨first, hfirst, rfl⟩⟩
  · cases h
  · next code qualifier hcode hsplit =>
    split at h
    · cases h
    · obtain rfl := Except.ok.inj h
      obtain ⟨first, rest, hfirst, rfl, hrest⟩ := List.map_eq_cons_iff.mp hsplit
      obtain ⟨second, rfl, rfl⟩ := List.map_eq_singleton_iff.mp hrest
      exact ⟨fun hnil => hcode hnil, .inr ⟨first, second, hfirst, rfl⟩⟩
  · cases h

theorem eq_of_ofQuoted {code : Text} (h : readQualifier.ofQuoted t = .code code) : t = code := by
  rw [readQualifier.ofQuoted] at h
  split at h
  · cases h
  · exact Qualifier.code.inj h

theorem eq_of_readQualifier {code : Text} (h : readQualifier t = .code code) : t = code := by
  rw [readQualifier.eq_def] at h
  split at h
  · split at h
    · cases h
    · exact eq_of_ofQuoted h
  · exact eq_of_ofQuoted h

/-- The second part of a reference has no code in it where nothing is written there. -/
theorem qualifier_eq_nil_iff (h : read line body = .ok r) : r.qualifier = some (.code []) ↔
    ∃ first second, splitCommas 0 .outside body = [first, second] ∧ Text.trim second = [] := by
  constructor
  · intro hqualifier
    rcases (cases_of_read h).2 with ⟨first, -, rfl⟩ | ⟨first, second, hsplit, rfl⟩
    · cases hqualifier
    · exact ⟨first, second, hsplit, eq_of_readQualifier (Option.some.inj hqualifier)⟩
  · rintro ⟨first, second, hsplit, hsecond⟩
    rcases (cases_of_read h).2 with ⟨first', hsplit', -⟩ | ⟨first', second', hsplit', rfl⟩
    · rw [hsplit] at hsplit'
      cases hsplit'
    · rw [hsplit] at hsplit'
      obtain ⟨-, hlast⟩ := List.cons.inj hsplit'
      obtain rfl := (List.cons.inj hlast).1
      rw [hsecond]
      rfl

theorem allCode_of_read (h : read line body = .ok r) (hbody : '\n' ∉ body) : r.AllCode Holds := by
  obtain ⟨hne, hcases⟩ := cases_of_read h
  have hpiece : ∀ piece ∈ splitCommas 0 .outside body, '\n' ∉ piece := fun piece hp hmem =>
    hbody (subset_of_mem_splitCommas hp hmem)
  rcases hcases with ⟨first, hsplit, rfl⟩ | ⟨first, second, hsplit, rfl⟩
  · have hfirst : '\n' ∉ first := hpiece first (by simp [hsplit])
    exact ⟨.of_trim hfirst hne, nofun⟩
  · have hfirst : '\n' ∉ first := hpiece first (by simp [hsplit])
    have hsecond : '\n' ∉ second := hpiece second (by simp [hsplit])
    refine ⟨.of_trim hfirst hne, fun code hcode => ?_⟩
    obtain rfl := eq_of_readQualifier (Option.some.inj hcode)
    exact ⟨⟨Text.trim_trim second, fun _ => .inr rfl⟩, fun hmem =>
      hsecond (Text.mem_of_mem_trim hmem)⟩

end Reference

namespace Groups

/-- All code of groups is code as it is read of a line. -/
structure AllCode (groups : Groups) : Prop where
  attributes : ∀ a ∈ groups.attributes, a.AllCode Holds
  reference : ∀ r ∈ groups.reference, r.AllCode Holds

variable {groups after : Groups} {written : List BracketGroup}

theorem AllCode.append {sources : List AttributeSource} (hgroups : groups.AllCode)
    (hsources : ∀ a ∈ sources, a.AllCode Holds) :
    ∀ a ∈ groups.attributes ++ sources, a.AllCode Holds :=
  List.forall_mem_append.mpr ⟨hgroups.attributes, hsources⟩

theorem allCode_of_add {opener : Char} (h : add line groups opener t = .ok after)
    (hgroups : groups.AllCode) (ht : '\n' ∉ t) : after.AllCode := by
  rw [add] at h
  split at h
  · split at h
    · cases h
    · obtain ⟨r, hr, rfl⟩ := Outcome.exists_of_map_eq_ok h
      refine ⟨hgroups.attributes, fun r' hr' => ?_⟩
      obtain rfl := Option.some.inj hr'
      exact Reference.allCode_of_read hr ht
  · split at h
    · cases h
    · split at h
      · split at h
        · cases h
        · obtain ⟨sources, hsources, rfl⟩ := Outcome.exists_of_map_eq_ok h
          exact ⟨hgroups.append (Hash.allCode_of_read hsources ht), hgroups.reference⟩
      · split at h
        · cases h
        · obtain ⟨sources, hsources, rfl⟩ := Outcome.exists_of_map_eq_ok h
          exact ⟨hgroups.append (AttributeList.allCode_of_read hsources ht), hgroups.reference⟩

theorem allCode_of_addAll (h : addAll line groups written = .ok after) (hgroups : groups.AllCode)
    (hwritten : ∀ g ∈ written, '\n' ∉ g.inside) : after.AllCode := by
  induction written generalizing groups with
  | nil =>
    obtain rfl : groups = after := Except.ok.inj h
    exact hgroups
  | cons g written ih =>
    obtain ⟨hg, hwritten⟩ := List.forall_mem_cons.mp hwritten
    rw [addAll, List.foldlM_cons] at h
    obtain ⟨added, hadd, h⟩ := Outcome.exists_of_bind_eq_ok h
    exact ih h (allCode_of_add hadd hgroups hg) hwritten

end Groups

namespace Header

variable {header : Header} {implicitDiv : Bool}

theorem holds_of_ofCode {escape : Escape} {preserve : Bool} {s : Script}
    (h : Tail.ofCode t escape preserve = .ok (.script s)) (ht : '\n' ∉ t) :
    CodePlace.inline.Holds s.code := by
  rw [Tail.ofCode] at h
  split at h
  · cases h
  · next hempty =>
    obtain rfl := Tail.script.inj (Except.ok.inj h)
    exact .of_trim ht (by simpa using hempty)

theorem holds_of_tail {s : Script} (h : Tail.read t = .ok (.script s)) (ht : '\n' ∉ t) :
    CodePlace.inline.Holds s.code := by
  unfold Tail.read at h
  split at h
  case h_1 => cases h
  case h_6 =>
    split at h
    · have hcontent := Except.ok.inj h
      split at hcontent <;> cases hcontent
    · cases h
  all_goals exact holds_of_ofCode h (by simp_all)

theorem allCode_of_groups (h : read implicitDiv line t = .ok header) (ht : '\n' ∉ t) :
    (∀ a ∈ header.attributes, a.AllCode Holds) ∧ ∀ r ∈ header.reference, r.AllCode Holds := by
  obtain ⟨lead, behind, groups, rest, rfl, -, hgroups, hattributes, hreference, -⟩ :=
    exists_of_read h
  obtain ⟨written, rfl, -, -, hall⟩ := Groups.readAll_eq_ok_iff.mp hgroups
  have hinside : ∀ g ∈ written, '\n' ∉ g.inside := by
    intro g hg hmem
    have hwritten : '\n' ∈ written.flatMap BracketGroup.text :=
      List.mem_flatMap.mpr ⟨g, hg, by simp [BracketGroup.text, hmem]⟩
    exact ht (List.mem_append_right lead (List.mem_append_left rest hwritten))
  have hstart : Groups.AllCode {} :=
    ⟨List.forall_mem_nil _, fun r hr => absurd hr (Option.not_mem_none r)⟩
  have hcode := Groups.allCode_of_addAll hall hstart hinside
  exact ⟨hattributes ▸ hcode.attributes, hreference ▸ hcode.reference⟩

theorem holds_of_read {s : Script} (h : read implicitDiv line t = .ok header) (ht : '\n' ∉ t)
    (hs : header.tail = .script s) : CodePlace.inline.Holds s.code := by
  obtain ⟨-, rest, hrest, htail⟩ := exists_tail_of_read h
  exact holds_of_tail (hs ▸ htail) fun hmem => ht (hrest.subset hmem)

end Header

end Haml
