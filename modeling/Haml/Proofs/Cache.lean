import Haml.Cache
import Haml.Proofs.Outcome
import Mathlib.Data.Finset.Card
import Mathlib.Data.Finset.Image
import Mathlib.Data.List.Nodup

/-! Caches beside compiling afresh. After any requests a cache answers what compiling gives, if the
options in question have different fingerprints. A program is answered again until the cache is
cleared, and a cache holds as many programs as there were different requests that compiled since. -/

namespace Haml.Cache

inductive Request
  | compile (source : Text) (o : Options)
  | clear
  deriving DecidableEq

def Request.options? : Request → Option Options
  | compile _ o => some o
  | clear => none

def serve (c : Cache) : Request → Cache
  | .compile source o => (c.getOrCompile source o).2
  | .clear => c.clear

def after (c : Cache) (requests : List Request) : Cache := requests.foldl serve c

def answer (c : Cache) (before : List Request) (source : Text) (o : Options) :
    Except CompileError StoredProgram := ((c.after before).getOrCompile source o).1

def addCompiled (r : Registry) (pairs : Finset (Text × Options)) : Request → Finset (Text × Options)
  | .compile source o =>
    if (Program.compile source o r).isOk then insert (source, o) pairs else pairs
  | .clear => ∅

/-- The sources with their options that were compiled since the cache was last cleared. -/
def compiled (r : Registry) (requests : List Request) : Finset (Text × Options) :=
  requests.foldl (addCompiled r) ∅

variable {c : Cache} {source : Text} {o : Options} {stored : StoredProgram}
  {entry : (Text × UInt64) × StoredProgram} {pairs : Finset (Text × Options)}

/-- A program is found, or is not found and does not compile, or is compiled and stored. -/
theorem getOrCompile_cases (c : Cache) (source : Text) (o : Options) :
    (∃ stored, c.programs.lookup (key source o) = some stored ∧
      c.getOrCompile source o = (.ok stored, c)) ∨
    c.programs.lookup (key source o) = none ∧
      ((∃ e, Program.compile source o c.filters = .error e ∧
        c.getOrCompile source o = (.error e, c)) ∨
      ∃ program, Program.compile source o c.filters = .ok program ∧
        c.getOrCompile source o = (.ok ⟨c.next, program⟩, c.store source o program)) := by
  unfold getOrCompile
  cases hlookup : c.programs.lookup (key source o) with
  | some stored => exact .inl ⟨stored, rfl, rfl⟩
  | none =>
    refine .inr ⟨rfl, ?_⟩
    cases Program.compile source o c.filters with
    | error e => exact .inl ⟨e, rfl, rfl⟩
    | ok program => exact .inr ⟨program, rfl, rfl⟩

/-- A request clears the cache, or leaves it as it is, or adds a program that was not in it. -/
theorem serve_cases (c : Cache) (request : Request) :
    request = .clear ∧ c.serve request = c.clear ∨
      request ≠ .clear ∧ (c.serve request = c ∨
        ∃ source o program, c.programs.lookup (key source o) = none ∧
          c.serve request = c.store source o program) := by
  cases request with
  | clear => exact .inl ⟨rfl, rfl⟩
  | compile source o =>
    refine .inr ⟨nofun, ?_⟩
    rw [serve]
    rcases getOrCompile_cases c source o with ⟨stored, -, hget⟩ |
      ⟨hlookup, ⟨e, -, hget⟩ | ⟨program, -, hget⟩⟩
    · exact .inl (congrArg Prod.snd hget)
    · exact .inl (congrArg Prod.snd hget)
    · exact .inr ⟨source, o, program, hlookup, congrArg Prod.snd hget⟩

/-- What a cache that was asked for the given pairs holds. -/
structure Holds (c : Cache) (pairs : Finset (Text × Options)) : Prop where
  keys : (c.programs.map Prod.fst).Nodup
  serials : (c.programs.map fun entry => entry.2.serial).Nodup
  fresh : ∀ entry ∈ c.programs, entry.2.serial < c.next
  sound : ∀ entry ∈ c.programs, ∃ p ∈ pairs, entry.1 = key p.1 p.2 ∧
    Program.compile p.1 p.2 c.filters = .ok entry.2.program
  complete : ∀ p ∈ pairs, key p.1 p.2 ∈ c.programs.map Prod.fst

theorem holds_start (r : Registry) : Holds (start r) ∅ := ⟨.nil, .nil, nofun, nofun, nofun⟩

theorem holds_clear (c : Cache) : Holds c.clear ∅ := ⟨.nil, .nil, nofun, nofun, nofun⟩

theorem not_mem_keys (hlookup : c.programs.lookup (key source o) = none) :
    key source o ∉ c.programs.map Prod.fst := by
  intro hmem
  obtain ⟨entry, hentry, hkey⟩ := List.mem_map.mp hmem
  have hne := List.lookup_eq_none_iff.mp hlookup entry hentry
  simp [hkey] at hne

theorem Holds.store (h : Holds c pairs) (hlookup : c.programs.lookup (key source o) = none)
    {program : Program} (hcompile : Program.compile source o c.filters = .ok program) :
    Holds (c.store source o program) (insert (source, o) pairs) where
  keys := List.nodup_cons.mpr ⟨not_mem_keys hlookup, h.keys⟩
  serials := by
    refine List.nodup_cons.mpr ⟨fun hmem => ?_, h.serials⟩
    obtain ⟨entry, hentry, hserial⟩ := List.mem_map.mp hmem
    exact absurd (h.fresh entry hentry) (by simp [hserial])
  fresh := List.forall_mem_cons.mpr ⟨Nat.lt_succ_self _, fun entry hentry =>
    Nat.lt_succ_of_lt (h.fresh entry hentry)⟩
  sound := by
    refine List.forall_mem_cons.mpr ⟨⟨(source, o), Finset.mem_insert_self _ _, rfl, hcompile⟩, ?_⟩
    intro entry hentry
    obtain ⟨p, hp, hsound⟩ := h.sound entry hentry
    exact ⟨p, Finset.mem_insert_of_mem hp, hsound⟩
  complete := by
    intro p hp
    rcases Finset.mem_insert.mp hp with rfl | hp
    · exact List.mem_cons_self
    · exact List.mem_cons_of_mem _ (h.complete p hp)

theorem Holds.insert (h : Holds c pairs)
    (hlookup : c.programs.lookup (key source o) = some stored) :
    Holds c (insert (source, o) pairs) where
  keys := h.keys
  serials := h.serials
  fresh := h.fresh
  sound entry hentry := by
    obtain ⟨p, hp, hsound⟩ := h.sound entry hentry
    exact ⟨p, Finset.mem_insert_of_mem hp, hsound⟩
  complete p hp := by
    rcases Finset.mem_insert.mp hp with rfl | hp
    · have hentry := (lookup_eq_some_iff_mem h.keys).mp hlookup
      exact List.mem_map_of_mem hentry
    · exact h.complete p hp

theorem Holds.serve (h : Holds c pairs) (request : Request) :
    Holds (c.serve request) (addCompiled c.filters pairs request) := by
  cases request with
  | clear => exact holds_clear c
  | compile source o =>
    rw [Cache.serve, addCompiled]
    rcases getOrCompile_cases c source o with ⟨stored, hlookup, hget⟩ |
      ⟨hlookup, ⟨e, hcompile, hget⟩ | ⟨program, hcompile, hget⟩⟩
    · rw [hget]
      split
      · exact h.insert hlookup
      · exact h
    · rw [hget, hcompile]
      exact h
    · rw [hget, hcompile]
      exact h.store hlookup hcompile

theorem filters_serve (c : Cache) (request : Request) : (c.serve request).filters = c.filters := by
  rcases serve_cases c request with ⟨-, h⟩ | ⟨-, h | ⟨source, o, program, -, h⟩⟩
  · rw [h, clear]
  · rw [h]
  · rw [h, store]

theorem holds_after (r : Registry) (requests : List Request) :
    ((start r).after requests).filters = r ∧
      Holds ((start r).after requests) (compiled r requests) := by
  induction requests using List.reverseRecOn with
  | nil => exact ⟨rfl, holds_start r⟩
  | append_singleton requests request ih =>
    obtain ⟨hfilters, hholds⟩ := ih
    have hafter : (start r).after (requests ++ [request]) =
        ((start r).after requests).serve request := List.foldl_concat _ _ _ _
    have hcompiled : compiled r (requests ++ [request]) =
        addCompiled r (compiled r requests) request := List.foldl_concat _ _ _ _
    have hserve := hholds.serve request
    rw [hfilters] at hserve
    rw [hafter, hcompiled, filters_serve]
    exact ⟨hfilters, hserve⟩

theorem mem_options_of_compiled {r : Registry} {requests : List Request} {p : Text × Options}
    (h : p ∈ compiled r requests) : p.2 ∈ requests.filterMap Request.options? := by
  induction requests using List.reverseRecOn with
  | nil => exact absurd h (Finset.notMem_empty p)
  | append_singleton requests request ih =>
    have hcompiled : compiled r (requests ++ [request]) =
        addCompiled r (compiled r requests) request := List.foldl_concat _ _ _ _
    rw [hcompiled] at h
    rw [List.filterMap_append, List.mem_append]
    cases request with
    | clear => exact absurd h (Finset.notMem_empty p)
    | compile source o =>
      rw [addCompiled] at h
      split at h
      · rcases Finset.mem_insert.mp h with rfl | h
        · exact .inr (by simp [Request.options?])
        · exact .inl (ih h)
      · exact .inl (ih h)

theorem Holds.size_eq (h : Holds c pairs)
    (hdistinct : ∀ p ∈ pairs, ∀ q ∈ pairs, p.2.fingerprint = q.2.fingerprint → p.2 = q.2) :
    c.size = pairs.card := by
  have hkeys : (c.programs.map Prod.fst).toFinset = pairs.image fun p => key p.1 p.2 := by
    ext k
    rw [List.mem_toFinset, Finset.mem_image]
    constructor
    · intro hk
      obtain ⟨entry, hentry, rfl⟩ := List.mem_map.mp hk
      obtain ⟨p, hp, hkey, -⟩ := h.sound entry hentry
      exact ⟨p, hp, hkey.symm⟩
    · rintro ⟨p, hp, rfl⟩
      exact h.complete p hp
  have hinjective : Set.InjOn (fun p : Text × Options => key p.1 p.2) pairs := by
    intro p hp q hq heq
    obtain ⟨hsource, hfingerprint⟩ := Prod.mk.inj heq
    exact Prod.ext hsource (hdistinct p hp q hq hfingerprint)
  calc c.size = (c.programs.map Prod.fst).length := (List.length_map _).symm
    _ = (c.programs.map Prod.fst).toFinset.card := (List.toFinset_card_of_nodup h.keys).symm
    _ = pairs.card := by rw [hkeys, Finset.card_image_of_injOn hinjective]

section After

variable {request : Request} {between : List Request}

/-- What is in a cache after a request was there before it, or is new. -/
theorem mem_serve (hentry : entry ∈ (c.serve request).programs) :
    entry ∈ c.programs ∧ request ≠ .clear ∨ c.next ≤ entry.2.serial := by
  rcases serve_cases c request with ⟨-, h⟩ | ⟨hrequest, h | ⟨source, o, program, -, h⟩⟩
  · rw [h] at hentry
    cases hentry
  · rw [h] at hentry
    exact .inl ⟨hentry, hrequest⟩
  · rw [h] at hentry
    rcases List.mem_cons.mp hentry with rfl | hentry
    · exact .inr le_rfl
    · exact .inl ⟨hentry, hrequest⟩

theorem next_le_serve (c : Cache) (request : Request) : c.next ≤ (c.serve request).next := by
  rcases serve_cases c request with ⟨-, h⟩ | ⟨-, h | ⟨source, o, program, -, h⟩⟩
  · rw [h, clear]
  · rw [h]
  · rw [h]
    exact Nat.le_succ _

theorem next_le_after (c : Cache) (between : List Request) : c.next ≤ (c.after between).next := by
  induction between generalizing c with
  | nil => exact le_rfl
  | cons request between ih => exact (next_le_serve c request).trans (ih _)

theorem mem_after (h : entry ∈ (c.after between).programs) :
    entry ∈ c.programs ∧ .clear ∉ between ∨ c.next ≤ entry.2.serial := by
  induction between generalizing c with
  | nil => exact .inl ⟨h, List.not_mem_nil⟩
  | cons request between ih =>
    rcases ih h with ⟨hserve, hbetween⟩ | hnew
    · refine (mem_serve hserve).imp (fun ⟨hmem, hrequest⟩ => ⟨hmem, ?_⟩) id
      exact List.not_mem_cons_of_ne_of_not_mem (Ne.symm hrequest) hbetween
    · exact .inr ((next_le_serve c request).trans hnew)

theorem lookup_serve {k : Text × UInt64} (hk : c.programs.lookup k = some stored)
    (hrequest : request ≠ .clear) : (c.serve request).programs.lookup k = some stored := by
  rcases serve_cases c request with ⟨hclear, -⟩ | ⟨-, h | ⟨source, o, program, hlookup, h⟩⟩
  · exact absurd hclear hrequest
  · rw [h, hk]
  · have hne : k ≠ key source o := by
      rintro rfl
      cases hlookup.symm.trans hk
    rw [h, store, List.lookup_cons, beq_false_of_ne hne]
    exact hk

theorem lookup_after {k : Text × UInt64} (h : c.programs.lookup k = some stored)
    (hbetween : .clear ∉ between) : (c.after between).programs.lookup k = some stored := by
  induction between generalizing c with
  | nil => exact h
  | cons request between ih =>
    obtain ⟨hrequest, hrest⟩ := List.ne_and_not_mem_of_not_mem_cons hbetween
    exact ih (lookup_serve h (Ne.symm hrequest)) hrest

theorem lookup_of_getOrCompile (h : (c.getOrCompile source o).1 = .ok stored) :
    (c.serve (.compile source o)).programs.lookup (key source o) = some stored := by
  rw [serve]
  rcases getOrCompile_cases c source o with ⟨found, hlookup, hget⟩ |
    ⟨-, ⟨e, -, hget⟩ | ⟨program, -, hget⟩⟩
  · rw [hget] at h ⊢
    exact Except.ok.inj h ▸ hlookup
  · rw [hget] at h
    cases h
  · rw [hget] at h ⊢
    rw [store, List.lookup_cons_self, Except.ok.inj h]

end After

section Transparency

variable {r : Registry} {requests before between rest : List Request} {source' : Text}
  {o' : Options} {first second : StoredProgram}

/-- The options of the requests differ in their fingerprints where they differ. -/
def Distinct (requests : List Request) : Prop :=
  ∀ o ∈ requests.filterMap Request.options?, ∀ o' ∈ requests.filterMap Request.options?,
    o.fingerprint = o'.fingerprint → o = o'

instance : DecidablePred Distinct := fun _ => List.decidableBAll _ _

theorem mem_options (h : .compile source o ∈ requests) :
    o ∈ requests.filterMap Request.options? := List.mem_filterMap.mpr ⟨_, h, rfl⟩

theorem answer_eq_compile (hdistinct : Distinct requests)
    (h : requests = before ++ .compile source o :: rest) :
    ((start r).answer before source o).map StoredProgram.program = Program.compile source o r := by
  obtain ⟨hfilters, hholds⟩ := holds_after r before
  rw [answer]
  rcases getOrCompile_cases ((start r).after before) source o with ⟨stored, hlookup, hget⟩ |
    ⟨-, ⟨e, hcompile, hget⟩ | ⟨program, hcompile, hget⟩⟩
  · have hentry := (lookup_eq_some_iff_mem hholds.keys).mp hlookup
    obtain ⟨⟨source', o'⟩, hp, hkey, hcompile⟩ := hholds.sound _ hentry
    obtain ⟨rfl, hfingerprint⟩ := Prod.mk.inj hkey
    have hbefore : o' ∈ requests.filterMap Request.options? := by
      rw [h, List.filterMap_append]
      exact List.mem_append_left _ (mem_options_of_compiled hp)
    have hnow : .compile source o ∈ requests := by simp [h]
    obtain rfl := hdistinct o (mem_options hnow) o' hbefore hfingerprint
    rw [hget, ← hfilters, hcompile]
    rfl
  · rw [hget, ← hfilters, hcompile]
    rfl
  · rw [hget, ← hfilters, hcompile]
    rfl

theorem serve_of_error {e : CompileError} (h : (c.getOrCompile source o).1 = .error e) :
    c.serve (.compile source o) = c := by
  rw [serve]
  rcases getOrCompile_cases c source o with ⟨stored, -, hget⟩ |
    ⟨-, ⟨e, -, hget⟩ | ⟨program, -, hget⟩⟩
  · rw [hget]
  · rw [hget]
  · rw [hget] at h
    cases h

theorem lookup_or_new (h : (c.getOrCompile source o).1 = .ok stored) :
    c.programs.lookup (key source o) = some stored ∨
      c.programs.lookup (key source o) = none ∧ stored.serial = c.next := by
  rcases getOrCompile_cases c source o with ⟨found, hlookup, hget⟩ |
    ⟨hlookup, ⟨e, -, hget⟩ | ⟨program, -, hget⟩⟩
  · rw [hget] at h
    exact .inl (Except.ok.inj h ▸ hlookup)
  · rw [hget] at h
    cases h
  · rw [hget] at h
    exact .inr ⟨hlookup, (congrArg StoredProgram.serial (Except.ok.inj h)).symm⟩

/-- The cache goes on from an answered request: the program is answered again as long as it is kept,
and whatever is compiled later is another one. -/
theorem serial_eq_iff (hholds : Holds c pairs) (hmem : (key source o, first) ∈ c.programs)
    (hdistinct : o'.fingerprint = o.fingerprint → o' = o)
    (hsecond : ((c.after between).getOrCompile source' o').1 = .ok second) :
    second.serial = first.serial ↔ source' = source ∧ o' = o ∧ .clear ∉ between := by
  have hlookup := (lookup_eq_some_iff_mem hholds.keys).mpr hmem
  have hfresh : first.serial < c.next := hholds.fresh _ hmem
  have hlater := next_le_after c between
  rcases lookup_or_new hsecond with hfound | ⟨hmissing, hserial⟩
  · constructor
    · intro hserial
      obtain ⟨newer, older, hprograms, -⟩ := List.lookup_eq_some_iff.mp hfound
      have hentry : (key source' o', second) ∈ (c.after between).programs := by simp [hprograms]
      -- An entry with the serial of the first answer has been there since, as all others are newer.
      rcases mem_after hentry with ⟨hthere, hbetween⟩ | hnew
      · have hsame := List.inj_on_of_nodup_map hholds.serials hthere hmem hserial
        obtain ⟨hkey, -⟩ := Prod.mk.inj hsame
        obtain ⟨hsource, hfingerprint⟩ := Prod.mk.inj hkey
        exact ⟨hsource, hdistinct hfingerprint, hbetween⟩
      · exact absurd hserial (hfresh.trans_le hnew).ne'
    · rintro ⟨rfl, rfl, hbetween⟩
      have hkept := lookup_after hlookup hbetween
      rw [hfound] at hkept
      rw [Option.some.inj hkept]
  · constructor
    · intro heq
      omega
    · rintro ⟨rfl, rfl, hbetween⟩
      have hkept := lookup_after hlookup hbetween
      cases hmissing.symm.trans hkept

end Transparency

theorem transparent (r : Registry) (requests : List Request) (hdistinct : Distinct requests) :
    (∀ before source o rest, requests = before ++ .compile source o :: rest →
      ((start r).answer before source o).map StoredProgram.program = Program.compile source o r ∧
      ∀ e, (start r).answer before source o = .error e →
        (start r).after (before ++ [.compile source o]) = (start r).after before) ∧
    (∀ before source o between source' o' rest first second,
      requests = before ++ .compile source o :: (between ++ .compile source' o' :: rest) →
      (start r).answer before source o = .ok first →
      (start r).answer (before ++ .compile source o :: between) source' o' = .ok second →
      (second.serial = first.serial ↔ source' = source ∧ o' = o ∧ .clear ∉ between)) ∧
    ((start r).after requests).size = (compiled r requests).card := by
  refine ⟨?_, ?_, ?_⟩
  · intro before source o rest hrequests
    refine ⟨answer_eq_compile hdistinct hrequests, fun e he => ?_⟩
    rw [after, List.foldl_concat]
    exact serve_of_error he
  · intro before source o between source' o' rest first second hrequests hfirst hsecond
    obtain ⟨-, hholds⟩ := holds_after r (before ++ [.compile source o])
    rw [after, List.foldl_concat] at hholds
    have hmem := (lookup_eq_some_iff_mem hholds.keys).mp (lookup_of_getOrCompile hfirst)
    have hearlier : .compile source o ∈ requests := by simp [hrequests]
    have hlater : .compile source' o' ∈ requests := by simp [hrequests]
    rw [answer, after, List.foldl_append, List.foldl_cons] at hsecond
    exact serial_eq_iff hholds hmem
      (hdistinct o' (mem_options hlater) o (mem_options hearlier)) hsecond
  · obtain ⟨-, hholds⟩ := holds_after r requests
    refine hholds.size_eq fun p hp q hq => hdistinct p.2 ?_ q.2 ?_
    · exact mem_options_of_compiled hp
    · exact mem_options_of_compiled hq

def briefOptions : Options := { autoclose := ⟨["br"]⟩, preserve := ⟨["pre"]⟩ }

def sampleRequests : List Request :=
  [.compile "%br" briefOptions, .compile "%br" { briefOptions with format := .html5 },
    .compile "!!! Bogus" briefOptions, .compile "%br" briefOptions, .clear,
    .compile "%br" briefOptions]

theorem transparent_sample : Distinct sampleRequests ∧
    (∃ first second third,
      (start .builtin).answer [] "%br" briefOptions = .ok first ∧
      (start .builtin).answer (sampleRequests.take 3) "%br" briefOptions = .ok second ∧
      (start .builtin).answer (sampleRequests.take 5) "%br" briefOptions = .ok third ∧
      second.serial = first.serial ∧ third.serial ≠ first.serial) ∧
    ((start .builtin).after (sampleRequests.take 4)).size = 2 ∧
    ((start .builtin).after sampleRequests).size = (compiled .builtin sampleRequests).card := by
  have hdistinct : Distinct sampleRequests := by decide +kernel
  obtain ⟨-, hserial, hsize⟩ := transparent .builtin sampleRequests hdistinct
  have hok : ∀ before ∈ [[], sampleRequests.take 3, sampleRequests.take 5],
      ((start .builtin).answer before "%br" briefOptions).isOk := by decide +kernel
  obtain ⟨first, hfirst⟩ := Outcome.exists_of_isOk (hok [] (by simp))
  obtain ⟨second, hsecond⟩ := Outcome.exists_of_isOk (hok (sampleRequests.take 3) (by simp))
  obtain ⟨third, hthird⟩ := Outcome.exists_of_isOk (hok (sampleRequests.take 5) (by simp))
  have hagain := hserial [] "%br" briefOptions ((sampleRequests.take 3).drop 1) "%br" briefOptions
    (sampleRequests.drop 4) first second rfl hfirst hsecond
  have hcleared := hserial [] "%br" briefOptions ((sampleRequests.take 5).drop 1) "%br" briefOptions
    [] first third rfl hfirst hthird
  refine ⟨hdistinct, ⟨first, second, third, hfirst, hsecond, hthird, ?_, ?_⟩, ?_, hsize⟩
  · exact hagain.mpr ⟨rfl, rfl, by decide +kernel⟩
  · intro heq
    obtain ⟨-, -, hclear⟩ := hcleared.mp heq
    exact hclear (by decide +kernel)
  · decide +kernel

end Haml.Cache
