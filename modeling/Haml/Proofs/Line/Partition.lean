import Haml.Proofs.Line.Marked
import Haml.Proofs.Line.Source
import Haml.Proofs.Text.Words

/-! Scanning as a partition. The physical lines with content fall into groups: a maximal run of
consecutive lines with the continuation marker is one, and so is any other line on its own. Each
group becomes a logical line, unless the last one has the marker, which asks for a further line. -/

namespace Haml

/-- The first physical line of a logical one, and those that are joined to it. -/
abbrev Group := PhysicalLine × List PhysicalLine

namespace Group

def raws (g : Group) : List PhysicalLine := g.1 :: g.2

def line (g : Group) : Line := Line.ofJoined g.1 g.2

/-- All lines of a group have the marker, or there is one line, which does not have it. -/
def Uniform (g : Group) : Prop :=
  (∀ raw ∈ g.raws, raw.isMarked = true) ∨ g.1.isMarked = false ∧ g.2 = []

end Group

namespace PhysicalLine

def groups : List PhysicalLine → List Group
  | [] => []
  | raw :: rest =>
    if raw.isBlank then groups rest
    else if raw.isMarked then (raw, rest.takeWhile isMarked) :: groups (rest.dropWhile isMarked)
    else (raw, []) :: groups rest
  termination_by raws => raws.length
  decreasing_by
    · simp
    · exact Nat.lt_succ_of_le (List.dropWhile_suffix isMarked).length_le
    · simp

variable {raw : PhysicalLine} {raws rest : List PhysicalLine} {g : Group}
  {groups₁ groups₂ : List Group}

theorem isBlank_of_isMarked (h : raw.isMarked = true) : raw.isBlank = false := by
  by_contra hblank
  rw [isMarked_of_isBlank (by simpa using hblank)] at h
  cases h

theorem isMarked_head?_dropWhile (raws : List PhysicalLine) :
    ∀ raw ∈ (raws.dropWhile isMarked).head?, raw.isMarked = false := by
  intro raw hraw
  have h := List.head?_dropWhile_not isMarked raws
  rw [Option.mem_def.mp hraw] at h
  simpa using h

theorem uniform_of_mem_groups (h : g ∈ groups raws) : g.Uniform := by
  fun_induction groups raws with
  | case1 => cases h
  | case2 raw rest hblank ih => exact ih h
  | case3 raw rest hfilled hmarked ih =>
    rcases List.mem_cons.mp h with rfl | h
    · refine .inl (List.forall_mem_cons.mpr ⟨hmarked, fun other hother => ?_⟩)
      exact List.mem_takeWhile_imp hother
    · exact ih h
  | case4 raw rest hfilled hmarked ih =>
    rcases List.mem_cons.mp h with rfl | h
    · exact .inr ⟨by simpa using hmarked, rfl⟩
    · exact ih h

/-- The groups hold the lines with content, in order. -/
theorem flatMap_groups (raws : List PhysicalLine) :
    (groups raws).flatMap Group.raws = raws.filter (!·.isBlank) := by
  fun_induction groups raws with
  | case1 => rfl
  | case2 raw rest hblank ih => rw [ih, List.filter_cons_of_neg (by simp [hblank])]
  | case3 raw rest hfilled hmarked ih =>
    have hrun : (rest.takeWhile isMarked).filter (!·.isBlank) = rest.takeWhile isMarked := by
      refine List.filter_eq_self.mpr fun other hother => ?_
      rw [isBlank_of_isMarked (List.mem_takeWhile_imp hother)]
      rfl
    have hrest : rest.filter (!·.isBlank) =
        rest.takeWhile isMarked ++ (rest.dropWhile isMarked).filter (!·.isBlank) := by
      conv_lhs => rw [← List.takeWhile_append_dropWhile (p := isMarked) (l := rest)]
      rw [List.filter_append, hrun]
    rw [List.flatMap_cons, ih, List.filter_cons_of_pos (by simp [hfilled]), hrest]
    rfl
  | case4 raw rest hfilled hmarked ih =>
    rw [List.flatMap_cons, ih, List.filter_cons_of_pos (by simp [hfilled])]
    rfl

/-- A group stands in the lines as it is, with those of the groups behind it after it. It is maximal
if it is marked: no marked line is next to it. -/
theorem exists_of_groups_eq (h : groups raws = groups₁ ++ g :: groups₂) :
    ∃ before after, raws = before ++ (g.raws ++ after) ∧ groups after = groups₂ ∧
      (g.1.isMarked = true → (∀ raw ∈ before.getLast?, raw.isMarked = false) ∧
        ∀ raw ∈ after.head?, raw.isMarked = false) := by
  fun_induction groups raws generalizing groups₁ with
  | case1 => simp at h
  | case2 raw rest hblank ih =>
    obtain ⟨before, after, rfl, hafter, hmaximal⟩ := ih h
    refine ⟨raw :: before, after, rfl, hafter, fun hg => ?_⟩
    obtain ⟨hbefore, hnext⟩ := hmaximal hg
    refine ⟨?_, hnext⟩
    cases before with
    | nil => simpa using isMarked_of_isBlank hblank
    | cons other before => simpa using hbefore
  | case3 raw rest hfilled hmarked ih =>
    cases groups₁ with
    | nil =>
      obtain ⟨rfl, hgroups⟩ := List.cons.inj h
      refine ⟨[], rest.dropWhile isMarked, ?_, hgroups, fun _ => ⟨nofun, ?_⟩⟩
      · simp [Group.raws, List.takeWhile_append_dropWhile]
      · exact isMarked_head?_dropWhile rest
    | cons g' groups₁ =>
      obtain ⟨rfl, hgroups⟩ := List.cons.inj h
      obtain ⟨before, after, hdrop, hafter, hmaximal⟩ := ih hgroups
      refine ⟨raw :: (rest.takeWhile isMarked ++ before), after, ?_, hafter, fun hg => ?_⟩
      · rw [List.cons_append, List.append_assoc, ← hdrop, List.takeWhile_append_dropWhile]
      · obtain ⟨hbefore, hnext⟩ := hmaximal hg
        refine ⟨?_, hnext⟩
        cases before with
        -- A marked line right behind the run would belong to it.
        | nil =>
          have hhead := isMarked_head?_dropWhile rest g.1 (by rw [hdrop]; rfl)
          rw [hg] at hhead
          cases hhead
        | cons other before =>
          have hne : other :: before ≠ [] := List.cons_ne_nil other before
          rw [← List.cons_append, List.getLast?_append_of_ne_nil _ hne]
          exact hbefore
  | case4 raw rest hfilled hmarked ih =>
    have hunmarked : raw.isMarked = false := by simpa using hmarked
    cases groups₁ with
    | nil =>
      obtain ⟨rfl, hgroups⟩ := List.cons.inj h
      refine ⟨[], rest, rfl, hgroups, fun hg => ?_⟩
      rw [hunmarked] at hg
      cases hg
    | cons g' groups₁ =>
      obtain ⟨rfl, hgroups⟩ := List.cons.inj h
      obtain ⟨before, after, rfl, hafter, hmaximal⟩ := ih hgroups
      refine ⟨raw :: before, after, rfl, hafter, fun hg => ?_⟩
      obtain ⟨hbefore, hnext⟩ := hmaximal hg
      refine ⟨?_, hnext⟩
      cases before with
      | nil => simpa using hunmarked
      | cons other before => simpa using hbefore

theorem groups_eq_nil_iff : groups raws = [] ↔ ∀ raw ∈ raws, raw.isBlank = true := by
  constructor
  · intro h
    have hflat := flatMap_groups raws
    rw [h, List.flatMap_nil] at hflat
    simpa using hflat.symm
  · intro h
    induction raws with
    | nil => rw [groups]
    | cons raw rest ih =>
      obtain ⟨hraw, hrest⟩ := List.forall_mem_cons.mp h
      rw [groups, if_pos hraw, ih hrest]

/-- The last line with content is in the last group, and has the marker if that group has it. -/
theorem last_isMarked_iff (raws : List PhysicalLine) :
    (∃ raw ∈ (raws.filter (!·.isBlank)).getLast?, raw.isMarked = true) ↔
      ∃ before g, groups raws = before ++ [g] ∧ g.1.isMarked = true := by
  rw [← flatMap_groups]
  rcases List.eq_nil_or_concat (groups raws) with hnil | ⟨before, g, hgroups⟩
  · rw [hnil]
    simp
  · have hne : g.raws ≠ [] := List.cons_ne_nil g.1 g.2
    have hlast : ((groups raws).flatMap Group.raws).getLast? = g.raws.getLast? := by
      rw [hgroups, List.concat_eq_append, List.flatMap_append, List.flatMap_singleton,
        List.getLast?_append_of_ne_nil _ hne]
    have hunique : (∃ before g, groups raws = before ++ [g] ∧ g.1.isMarked = true) ↔
        g.1.isMarked = true := by
      rw [hgroups, List.concat_eq_append]
      constructor
      · rintro ⟨before', g', heq, hmarked⟩
        obtain ⟨-, hsingle⟩ := List.append_inj' heq rfl
        exact List.singleton_inj.mp hsingle ▸ hmarked
      · exact fun hmarked => ⟨before, g, rfl, hmarked⟩
    rw [hlast, hunique]
    have hg : g ∈ groups raws := by simp [hgroups]
    rcases uniform_of_mem_groups hg with hmarked | ⟨hunmarked, halone⟩
    · refine ⟨fun _ => hmarked g.1 List.mem_cons_self, fun _ => ?_⟩
      have hmem := List.getLast_mem hne
      exact ⟨g.raws.getLast hne, List.getLast?_eq_some_getLast hne, hmarked _ hmem⟩
    · rw [Group.raws, halone]
      simp

end PhysicalLine

namespace Line

open PhysicalLine (Spaced isMarked groups)

variable {raw : PhysicalLine} {raws rest : List PhysicalLine} {g : Group} {line : Line}
  {e : LexError}

theorem all_done (h : next? raws = none) : all raws = .ok [] := by
  rw [all]
  split <;> simp_all

theorem all_unread (h : next? raws = some (.error e, rest)) : all raws = .error e := by
  rw [all]
  split <;> simp_all

theorem all_step (h : next? raws = some (.ok line, rest)) :
    all raws = (all rest).map (line :: ·) := by
  rw [all]
  split <;> simp_all

theorem all_blank (h : raw.isBlank = true) (rest : List PhysicalLine) :
    all (raw :: rest) = all rest := by
  have hnext : next? (raw :: rest) = next? rest := by rw [next?, if_pos h]
  rcases hrest : next? rest with _ | ⟨e | line, left⟩
  · rw [all_done hrest, all_done (hnext.trans hrest)]
  · rw [all_unread hrest, all_unread (hnext.trans hrest)]
  · rw [all_step hrest, all_step (hnext.trans hrest)]

/-- A continued line takes the marked lines that follow, if content is left behind them. -/
theorem joinContinued_spaced (hspaced : Spaced raws) (line : Line) :
    if (raws.dropWhile isMarked).all PhysicalLine.isBlank then
      (joinContinued line raws).1 = .error ⟨.unterminatedMultiline, line.number⟩
    else joinContinued line raws =
      (.ok ((raws.takeWhile isMarked).foldl join line), raws.dropWhile isMarked) := by
  induction raws generalizing line with
  | nil => rfl
  | cons raw rest ih =>
    obtain ⟨hraw, hrest⟩ := List.forall_mem_cons.mp hspaced
    rw [joinContinued, PhysicalLine.isContinued_trim hraw]
    by_cases hmarked : raw.isMarked = true
    · have hfilled : ¬(raw :: rest).all PhysicalLine.isBlank = true := by
        simp [PhysicalLine.isBlank_of_isMarked hmarked]
      rw [if_neg hfilled, if_pos hmarked, List.dropWhile_cons_of_pos hmarked,
        List.takeWhile_cons_of_pos hmarked]
      exact ih hrest _
    · rw [List.dropWhile_cons_of_neg hmarked, List.takeWhile_cons_of_neg hmarked]
      split <;> rfl

theorem all_marked (hspaced : Spaced rest) (hmarked : raw.isMarked = true) :
    all (raw :: rest) = if (rest.dropWhile isMarked).all PhysicalLine.isBlank then
        .error ⟨.unterminatedMultiline, raw.number⟩
      else
        (all (rest.dropWhile isMarked)).map (Group.line (raw, rest.takeWhile isMarked) :: ·) := by
  have hfilled : ¬raw.isBlank = true := by simp [PhysicalLine.isBlank_of_isMarked hmarked]
  have hcontinued : isContinued raw.content = true :=
    (PhysicalLine.isContinued_content raw).trans hmarked
  have hnext : next? (raw :: rest) = some (joinContinued
      ⟨raw.number, raw.number, raw.indent, stripMarker raw.content⟩ rest) := by
    rw [next?, if_neg hfilled, if_pos hcontinued]
  have hjoin := joinContinued_spaced hspaced
    ⟨raw.number, raw.number, raw.indent, stripMarker raw.content⟩
  split at hjoin
  · next hblanks =>
    rw [if_pos hblanks]
    exact all_unread (hnext.trans (congrArg some (Prod.ext hjoin rfl)))
  · next hblanks =>
    rw [if_neg hblanks, all_step (hnext.trans (congrArg some hjoin)), Group.line, ofJoined,
      if_pos hcontinued]

theorem all_unmarked (hfilled : raw.isBlank = false) (hmarked : raw.isMarked = false)
    (rest : List PhysicalLine) :
    all (raw :: rest) = (all rest).map (Group.line (raw, []) :: ·) := by
  have hcontinued : isContinued raw.content = false :=
    (PhysicalLine.isContinued_content raw).trans hmarked
  rw [all_step (next?_cons hfilled hcontinued rest), Group.line, ofJoined,
    if_neg (by simp [hcontinued])]

/-- What scanning gives for groups: their lines, or a fault in the last one because it is marked. -/
def Scanned (gs : List Group) (result : Except LexError (List Line)) : Prop :=
  (∃ before g, gs = before ++ [g] ∧ g.1.isMarked = true ∧
    result = .error ⟨.unterminatedMultiline, g.1.number⟩) ∨
  (∀ before g, gs = before ++ [g] → g.1.isMarked = false) ∧ result = .ok (gs.map Group.line)

/-- One more group in front makes no fault, unless it is the last one and is marked. -/
theorem Scanned.cons {gs : List Group} {result : Except LexError (List Line)}
    (h : Scanned gs result) (hg : gs = [] → g.1.isMarked = false) :
    Scanned (g :: gs) (result.map (g.line :: ·)) := by
  rcases h with ⟨before, last, rfl, hlast, rfl⟩ | ⟨hunmarked, rfl⟩
  · exact .inl ⟨g :: before, last, rfl, hlast, rfl⟩
  · refine .inr ⟨fun before last heq => ?_, rfl⟩
    cases before with
    | nil =>
      obtain ⟨rfl, hnil⟩ := List.cons.inj heq
      exact hg hnil
    | cons first before => exact hunmarked before last (List.cons.inj heq).2

theorem scanned_all (hspaced : Spaced raws) : Scanned (groups raws) (all raws) := by
  fun_induction groups raws with
  | case1 => exact .inr ⟨by simp, all_done rfl⟩
  | case2 raw rest hblank ih =>
    rw [all_blank hblank]
    exact ih (hspaced.suffix (List.suffix_cons raw rest))
  | case3 raw rest hfilled hmarked ih =>
    have hrest : Spaced rest := hspaced.suffix (List.suffix_cons raw rest)
    rw [all_marked hrest hmarked]
    split
    · next hblanks =>
      have hnil : groups (rest.dropWhile isMarked) = [] :=
        PhysicalLine.groups_eq_nil_iff.mpr (List.all_eq_true.mp hblanks)
      exact .inl ⟨[], (raw, rest.takeWhile isMarked), by rw [hnil]; rfl, hmarked, rfl⟩
    · next hblanks =>
      refine (ih (hrest.suffix (List.dropWhile_suffix _))).cons fun hnil => ?_
      exact absurd (List.all_eq_true.mpr (PhysicalLine.groups_eq_nil_iff.mp hnil)) hblanks
  | case4 raw rest hfilled hmarked ih =>
    have hunmarked : raw.isMarked = false := by simpa using hmarked
    rw [all_unmarked (by simpa using hfilled) hunmarked]
    exact (ih (hspaced.suffix (List.suffix_cons raw rest))).cons fun _ => hunmarked

/-- The physical lines from the first to the last one of a logical line. -/
def span (line : Line) (raws : List PhysicalLine) : List PhysicalLine :=
  raws.filter fun raw => line.number ≤ raw.number ∧ raw.number ≤ line.last

end Line

namespace PhysicalLine

/-- Lines that are numbered one by one from a number on. -/
def Consecutive (n : Nat) (raws : List PhysicalLine) : Prop :=
  raws.map number = List.range' n raws.length

variable {n : Nat} {raw : PhysicalLine} {raws before after : List PhysicalLine}

theorem consecutive_ofSource (source : Text) : Consecutive 1 (ofSource source) := by
  rw [Consecutive, ofSource, map_number_numbered, length_numbered]

theorem Consecutive.append (h : Consecutive n (before ++ after)) :
    Consecutive n before ∧ Consecutive (n + before.length) after := by
  rw [Consecutive, List.map_append, List.length_append, ← List.range'_append_1] at h
  exact List.append_inj h (by simp)

theorem Consecutive.cons (h : Consecutive n (raw :: raws)) :
    raw.number = n ∧ Consecutive (n + 1) raws := by
  rw [Consecutive, List.map_cons, List.length_cons, List.range'_succ] at h
  exact List.cons.inj h

theorem Consecutive.bounds (h : Consecutive n raws) (hraw : raw ∈ raws) :
    n ≤ raw.number ∧ raw.number < n + raws.length := by
  have hnumber : raw.number ∈ raws.map number := List.mem_map_of_mem hraw
  rw [h] at hnumber
  exact List.mem_range'_1.mp hnumber

end PhysicalLine

open PhysicalLine (Spaced Consecutive)

section Joined

variable {line : Line} {joined : List PhysicalLine}

theorem Line.last_foldl_join (h : Consecutive (line.last + 1) joined) :
    (joined.foldl join line).last = line.last + joined.length := by
  induction joined generalizing line with
  | nil => rfl
  | cons raw rest ih =>
    obtain ⟨hnumber, hrest⟩ := h.cons
    have hlast : (line.join raw).last = line.last + 1 := hnumber
    rw [List.foldl_cons, ih (hlast ▸ hrest), hlast, List.length_cons]
    omega

theorem Line.text_foldl_join (hspaced : Spaced joined)
    (hmarked : ∀ raw ∈ joined, raw.isMarked = true) (line : Line) :
    (joined.foldl join line).text =
      line.text ++ joined.flatMap fun raw => ' ' :: raw.piece := by
  induction joined generalizing line with
  | nil => rw [List.flatMap_nil, List.append_nil, List.foldl_nil]
  | cons raw rest ih =>
    obtain ⟨hraw, hrest⟩ := List.forall_mem_cons.mp hspaced
    obtain ⟨hfirst, hothers⟩ := List.forall_mem_cons.mp hmarked
    have htext : (line.join raw).text = line.text ++ ' ' :: raw.piece := by
      rw [← PhysicalLine.stripMarker_trim hraw hfirst]
      rfl
    rw [List.foldl_cons, ih hrest hothers, htext, List.flatMap_cons, List.append_assoc]

end Joined

namespace Group

variable {n : Nat} {g : Group}

theorem continued_iff (g : Group) : Line.isContinued g.1.content = g.1.isMarked :=
  PhysicalLine.isContinued_content g.1

theorem line_bounds (huniform : g.Uniform) (h : Consecutive n g.raws) :
    g.line.number = n ∧ g.line.last = n + g.2.length := by
  obtain ⟨hfirst, hjoined⟩ := h.cons
  refine ⟨(Line.number_ofJoined g.1 g.2).trans hfirst, ?_⟩
  rw [line, Line.ofJoined]
  split
  · rw [Line.last_foldl_join (hfirst ▸ hjoined)]
    exact congrArg (· + g.2.length) hfirst
  · next hcontinued =>
    rw [g.continued_iff] at hcontinued
    rcases huniform with hmarked | ⟨-, halone⟩
    · exact absurd (hmarked g.1 List.mem_cons_self) hcontinued
    · rw [halone]
      exact hfirst

theorem line_text (huniform : g.Uniform) (hspaced : Spaced g.raws) :
    g.line.text = Text.join [' '] (g.raws.map PhysicalLine.piece) := by
  obtain ⟨hfirst, hjoined⟩ := List.forall_mem_cons.mp hspaced
  rw [raws, List.map_cons, Text.join_cons, List.flatMap_map, line, Line.ofJoined, g.continued_iff]
  rcases huniform with hmarked | ⟨hunmarked, halone⟩
  · obtain ⟨hmark, hmarks⟩ := List.forall_mem_cons.mp hmarked
    rw [if_pos hmark, Line.text_foldl_join hjoined hmarks, PhysicalLine.content_eq_trim hfirst,
      PhysicalLine.stripMarker_trim hfirst hmark]
    rfl
  · rw [if_neg (by simp [hunmarked]), halone, List.flatMap_nil, List.append_nil,
      PhysicalLine.content_eq_trim hfirst, PhysicalLine.piece, if_neg (by simp [hunmarked])]

theorem span_line {before after : List PhysicalLine} (huniform : g.Uniform)
    (h : Consecutive n (before ++ (g.raws ++ after))) :
    g.line.span (before ++ (g.raws ++ after)) = g.raws := by
  obtain ⟨hbefore, hrest⟩ := h.append
  obtain ⟨hgroup, hafter⟩ := hrest.append
  obtain ⟨hnumber, hlast⟩ := line_bounds huniform hgroup
  have hlength : g.raws.length = g.2.length + 1 := rfl
  have hout : ∀ raw ∈ before, ¬(g.line.number ≤ raw.number ∧ raw.number ≤ g.line.last) := by
    intro raw hraw
    have hbounds := hbefore.bounds hraw
    omega
  have hin : ∀ raw ∈ g.raws, g.line.number ≤ raw.number ∧ raw.number ≤ g.line.last := by
    intro raw hraw
    have hbounds := hgroup.bounds hraw
    omega
  have hbehind : ∀ raw ∈ after, ¬(g.line.number ≤ raw.number ∧ raw.number ≤ g.line.last) := by
    intro raw hraw
    have hbounds := hafter.bounds hraw
    omega
  rw [Line.span, List.filter_append, List.filter_append,
    List.filter_eq_nil_iff.mpr (by simpa using hout), List.filter_eq_self.mpr (by simpa using hin),
    List.filter_eq_nil_iff.mpr (by simpa using hbehind), List.nil_append, List.append_nil]

end Group

namespace Line

open PhysicalLine (groups ofSource)

variable {raws : List PhysicalLine} {lines : List Line} {n : Nat}

/-- What a scanned line says of the lines of its group. -/
structure Spans (raws : List PhysicalLine) (g : Group) : Prop where
  numbers : g.raws.map PhysicalLine.number =
    List.range' g.line.number (g.line.last + 1 - g.line.number)
  bounds : g.line.number ≤ g.line.last
  span : g.line.span raws = g.raws
  text : g.line.text = Text.join [' '] (g.raws.map PhysicalLine.piece)
  next : g.1.isMarked = true → ∀ raw ∈ raws, raw.number = g.line.last + 1 → raw.isMarked = false

theorem spans_of_mem_groups (hspaced : Spaced raws) (h : Consecutive n raws) {g : Group}
    (hg : g ∈ groups raws) : Spans raws g := by
  have huniform := PhysicalLine.uniform_of_mem_groups hg
  obtain ⟨groups₁, groups₂, hgroups⟩ := List.append_of_mem hg
  obtain ⟨before, after, rfl, -, hmaximal⟩ := PhysicalLine.exists_of_groups_eq hgroups
  obtain ⟨hbefore, hrest⟩ := h.append
  obtain ⟨hgroup, hafter⟩ := hrest.append
  obtain ⟨hnumber, hlast⟩ := Group.line_bounds huniform hgroup
  have hlength : g.raws.length = g.2.length + 1 := rfl
  have hcount : g.raws.length = g.line.last + 1 - g.line.number := by omega
  refine ⟨?_, by omega, Group.span_line huniform h, Group.line_text huniform ?_, ?_⟩
  · rw [← hcount, hnumber]
    exact hgroup
  · exact fun raw hraw => hspaced raw (by simp [hraw])
  · intro hmarked raw hraw hnext
    -- The number is past those of the group, and it is the first one there.
    rcases List.mem_append.mp hraw with hraw | hraw
    · have hbounds := hbefore.bounds hraw
      omega
    rcases List.mem_append.mp hraw with hraw | hraw
    · have hbounds := hgroup.bounds hraw
      omega
    cases after with
    | nil => cases hraw
    | cons first after =>
      rcases List.mem_cons.mp hraw with rfl | hraw
      · exact (hmaximal hmarked).2 raw rfl
      · have hbounds := hafter.cons.2.bounds hraw
        omega

theorem spans_groups (hspaced : Spaced raws) (h : Consecutive n raws) :
    ((groups raws).map Group.line).flatMap
        (fun line => List.range' line.number (line.last + 1 - line.number)) =
      (raws.filter (!·.isBlank)).map PhysicalLine.number := by
  rw [← PhysicalLine.flatMap_groups, List.map_flatMap, List.flatMap_map]
  refine List.flatMap_congr fun g hg => ?_
  exact (spans_of_mem_groups hspaced h hg).numbers.symm

/-- Lines whose spans list increasing numbers follow one another. -/
theorem pairwise_of_spans {numbers : List Nat} (hbounds : ∀ line ∈ lines, line.number ≤ line.last)
    (hspans : lines.flatMap
      (fun line => List.range' line.number (line.last + 1 - line.number)) = numbers)
    (hnumbers : numbers.Pairwise (· < ·)) :
    lines.Pairwise fun line next => line.last < next.number := by
  rw [← hspans, List.pairwise_flatMap] at hnumbers
  refine hnumbers.2.imp_of_mem fun {line next} hline hnext h => ?_
  have hlast := hbounds line hline
  have hfirst := hbounds next hnext
  exact h line.last (List.mem_range'_1.mpr (by omega)) next.number
    (List.mem_range'_1.mpr (by omega))

theorem exists_run_of_error {e : LexError} (hspaced : Spaced raws) (h : all raws = .error e) :
    ∃ before first run after, raws = before ++ (first :: run ++ after) ∧
      (∀ raw ∈ before.getLast?, raw.isMarked = false) ∧
      (∀ raw ∈ first :: run, raw.isMarked = true) ∧ (∀ raw ∈ after, raw.isBlank = true) ∧
      e = ⟨.unterminatedMultiline, first.number⟩ := by
  rcases scanned_all hspaced with ⟨groups₁, g, hgroups, hmarked, hall⟩ | ⟨-, hall⟩
  · obtain ⟨before, after, hsplit, hafter, hmaximal⟩ := PhysicalLine.exists_of_groups_eq hgroups
    have hg : g ∈ groups raws := by simp [hgroups]
    have hrun : ∀ raw ∈ g.raws, raw.isMarked = true := by
      rcases PhysicalLine.uniform_of_mem_groups hg with hrun | ⟨hunmarked, -⟩
      · exact hrun
      · rw [hunmarked] at hmarked
        cases hmarked
    exact ⟨before, g.1, g.2, after, hsplit, (hmaximal hmarked).1, hrun,
      PhysicalLine.groups_eq_nil_iff.mp hafter, Except.error.inj (h.symm.trans hall)⟩
  · cases h.symm.trans hall

theorem exists_error_iff (hspaced : Spaced raws) : (∃ e, all raws = .error e) ↔
    ∃ raw ∈ (raws.filter (!·.isBlank)).getLast?, raw.isMarked = true := by
  rw [PhysicalLine.last_isMarked_iff]
  rcases scanned_all hspaced with ⟨before, g, hgroups, hmarked, hall⟩ | ⟨hlast, hall⟩
  · exact ⟨fun _ => ⟨before, g, hgroups, hmarked⟩, fun _ => ⟨_, hall⟩⟩
  · constructor
    · rintro ⟨e, he⟩
      cases he.symm.trans hall
    · rintro ⟨before, g, hgroups, hmarked⟩
      rw [hlast before g hgroups] at hmarked
      cases hmarked

theorem eq_groups_of_ok (hspaced : Spaced raws) (h : all raws = .ok lines) :
    lines = (groups raws).map Group.line := by
  rcases scanned_all hspaced with ⟨before, g, -, -, hall⟩ | ⟨-, hall⟩
  · cases h.symm.trans hall
  · exact Except.ok.inj (h.symm.trans hall)

theorem scan_partition {source : Text} (hsource : source.PlainlySpaced) :
    ((∃ e, scan source = .error e) ↔
      ∃ raw ∈ ((ofSource source).filter (!·.isBlank)).getLast?, raw.isMarked = true) ∧
    (∀ e, scan source = .error e → ∃ before first run after,
      ofSource source = before ++ (first :: run ++ after) ∧
        (∀ raw ∈ before.getLast?, raw.isMarked = false) ∧
        (∀ raw ∈ first :: run, raw.isMarked = true) ∧ (∀ raw ∈ after, raw.isBlank = true) ∧
        e = ⟨.unterminatedMultiline, first.number⟩) ∧
    ∀ lines, scan source = .ok lines →
      lines.Pairwise (fun line next => line.last < next.number) ∧
      lines.flatMap (fun line => List.range' line.number (line.last + 1 - line.number)) =
        ((ofSource source).filter (!·.isBlank)).map PhysicalLine.number ∧
      ∀ line ∈ lines, line.number ≤ line.last ∧
        (line.number < line.last → ∀ raw ∈ line.span (ofSource source), raw.isMarked = true) ∧
        ((∀ raw ∈ line.span (ofSource source), raw.isMarked = true) →
          ∀ raw ∈ ofSource source, raw.number = line.last + 1 → raw.isMarked = false) ∧
        line.text =
          Text.join [' '] ((line.span (ofSource source)).map PhysicalLine.piece) := by
  have hspaced := PhysicalLine.spaced_ofSource hsource
  refine ⟨exists_error_iff hspaced, fun e => exists_run_of_error hspaced, fun lines h => ?_⟩
  obtain rfl := eq_groups_of_ok hspaced h
  have hconsecutive := PhysicalLine.consecutive_ofSource source
  have hspans := spans_groups hspaced hconsecutive
  have hgroup : ∀ line ∈ (groups (ofSource source)).map Group.line,
      ∃ g ∈ groups (ofSource source), Spans (ofSource source) g ∧ g.line = line := by
    intro line hline
    obtain ⟨g, hg, hline⟩ := List.mem_map.mp hline
    exact ⟨g, hg, spans_of_mem_groups hspaced hconsecutive hg, hline⟩
  refine ⟨pairwise_of_spans ?_ hspans ?_, hspans, ?_⟩
  · intro line hline
    obtain ⟨g, -, hg, rfl⟩ := hgroup line hline
    exact hg.bounds
  · refine List.Pairwise.sublist (List.filter_sublist.map _) ?_
    rw [hconsecutive]
    exact List.pairwise_lt_range' 1
  · intro line hline
    obtain ⟨g, hmem, hg, rfl⟩ := hgroup line hline
    rw [hg.span]
    refine ⟨hg.bounds, fun hlonger => ?_, fun hmarked => ?_, hg.text⟩
    · rcases PhysicalLine.uniform_of_mem_groups hmem with hmarked | ⟨-, halone⟩
      · exact hmarked
      · have hlength := congrArg List.length hg.numbers
        simp [Group.raws, halone] at hlength
        omega
    · exact hg.next (hmarked g.1 List.mem_cons_self)

/-- One source that can be scanned, with runs beside each other and lines that only look marked, and
one that ends in a run. -/
theorem scan_partition_runs :
    let source : Text := "a |\n  b\t|\n\n- c do |d|\n| e ||\nf |\ng\n\n"
    let unfinished : Text := "a\nb |\n c |\n\n"
    source.PlainlySpaced ∧
    (∃ lines, scan source = .ok lines ∧
      lines.map (fun line => (line.number, line.last)) = [(1, 2), (4, 4), (5, 5), (6, 6), (7, 7)] ∧
      lines.Pairwise (fun line next => line.last < next.number) ∧
      ∀ line ∈ lines, line.text =
        Text.join [' '] ((line.span (ofSource source)).map PhysicalLine.piece)) ∧
    unfinished.PlainlySpaced ∧
    ∃ e, scan unfinished = .error e ∧ ∃ before first run after,
      ofSource unfinished = before ++ (first :: run ++ after) ∧
        (∀ raw ∈ before.getLast?, raw.isMarked = false) ∧
        (∀ raw ∈ first :: run, raw.isMarked = true) ∧ (∀ raw ∈ after, raw.isBlank = true) ∧
        e = ⟨.unterminatedMultiline, first.number⟩ := by
  intro source unfinished
  have hsource : source.PlainlySpaced := by decide +kernel
  have hunfinished : unfinished.PlainlySpaced := by decide +kernel
  obtain ⟨-, -, hlines⟩ := scan_partition hsource
  obtain ⟨hfails, herror, -⟩ := scan_partition hunfinished
  refine ⟨hsource, Outcome.exists_viewed (by decide +kernel) fun lines h => ?_, hunfinished, ?_⟩
  · obtain ⟨hpairwise, -, htexts⟩ := hlines lines h
    exact ⟨hpairwise, fun line hline => (htexts line hline).2.2.2⟩
  · obtain ⟨e, he⟩ := hfails.mpr ⟨⟨3, " c |"⟩, by decide +kernel, by decide +kernel⟩
    exact ⟨e, he, herror e he⟩

end Line

end Haml
