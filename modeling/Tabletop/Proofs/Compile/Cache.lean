import Tabletop.Compile.Cache
import Tabletop.Proofs.Graph.Text
import Tabletop.Proofs.Keyed

/-! The cache of compiled graphs against compiling anew. The two agree for sets of globals that
their salts tell apart, and for no others. -/

namespace Tabletop

namespace ProcedureCache

/-- A call on the cache. -/
inductive Call where
  | get (globals : List String) (g : Graph)
  | prune (held : Nat → Bool)
  | clear

namespace Call

def perform (hasher : Hasher) : Call → ProcedureCache → ProcedureCache
  | get globals g, c => (c.getOrCompile hasher globals g).2
  | prune held, c => c.prune held
  | clear, c => c.clear

/-- What the call hashes. -/
def hashed? : Call → Option (List UInt8)
  | get globals g => some (g.hashed globals)
  | _ => none

/-- The globals of the call are one of the sets. -/
def Within (sets : Set (List String)) : Call → Prop
  | get globals _ => globals ∈ sets
  | _ => True

end Call

/-- A new cache after some calls. -/
def after (hasher : Hasher) (calls : List Call) : ProcedureCache :=
  calls.foldl (fun c call => call.perform hasher c) {}

/-- After the calls the cache answers what compiling answers, be it a procedure or an error. -/
def Faithful (hasher : Hasher) (calls : List Call) (globals : List String) (g : Graph) : Prop :=
  ((after hasher calls).getOrCompile hasher globals g).1.map (·.procedure) =
    g.compile hasher globals

/-- No two of the texts that the calls hash have one hash. -/
def Separates (hasher : Hasher) (calls : List Call) : Prop :=
  ∀ s ∈ calls.filterMap Call.hashed?, ∀ t ∈ calls.filterMap Call.hashed?,
    hasher s = hasher t → s = t

variable {hasher : Hasher} {calls : List Call} {globals globals' : List String} {g : Graph}

theorem separates_of_injective (h : Function.Injective hasher) : Separates hasher calls :=
  fun _ _ _ _ heq => h heq

/-! ### What the cache holds -/

/-- A call counts as a hit, and the cache stays as it is, or as a miss; what is compiled gets the
number of the miss. -/
theorem getOrCompile_eq (hasher : Hasher) (globals : List String) (g : Graph) (c : ProcedureCache) :
    (∃ p, c.entries.lookup (hasher (g.hashed globals)) = some p ∧
      c.getOrCompile hasher globals g = (.ok p, { c with hits := c.hits + 1 })) ∨
    c.entries.lookup (hasher (g.hashed globals)) = none ∧
      ((∃ e, g.compile hasher globals = .error e ∧
        c.getOrCompile hasher globals g = (.error e, { c with misses := c.misses + 1 })) ∨
      ∃ p : Compiled, p.number = c.misses + 1 ∧ g.compile hasher globals = .ok p.procedure ∧
        c.getOrCompile hasher globals g = (.ok p, { c with
          misses := c.misses + 1
          entries := (hasher (g.hashed globals), p) :: c.entries })) := by
  simp only [getOrCompile]
  split
  · next p hp => exact .inl ⟨p, hp, rfl⟩
  · next hp =>
    refine .inr ⟨hp, ?_⟩
    split
    · next e he => exact .inl ⟨e, he, rfl⟩
    · next procedure hok => exact .inr ⟨⟨_, procedure⟩, rfl, hok, rfl⟩

/-- An answer is from the cache, or compiled now and then kept where it is no error. -/
theorem getOrCompile_cases (hasher : Hasher) (globals : List String) (g : Graph)
    (c : ProcedureCache) :
    (∃ p, (hasher (g.hashed globals), p) ∈ c.entries ∧
      (c.getOrCompile hasher globals g).1 = .ok p ∧
      (c.getOrCompile hasher globals g).2.entries = c.entries) ∨
    (∃ e, g.compile hasher globals = .error e ∧ (c.getOrCompile hasher globals g).1 = .error e ∧
      (c.getOrCompile hasher globals g).2.entries = c.entries) ∨
    (∃ p : Compiled, g.compile hasher globals = .ok p.procedure ∧
      (c.getOrCompile hasher globals g).1 = .ok p ∧
      (c.getOrCompile hasher globals g).2.entries =
        (hasher (g.hashed globals), p) :: c.entries) := by
  obtain ⟨p, hp, h⟩ | ⟨-, ⟨e, he, h⟩ | ⟨p, -, hp, h⟩⟩ := getOrCompile_eq hasher globals g c
  · exact .inl ⟨p, Keyed.mem_of_lookup hp, by rw [h], by rw [h]⟩
  · exact .inr (.inl ⟨e, he, by rw [h], by rw [h]⟩)
  · exact .inr (.inr ⟨p, hp, by rw [h], by rw [h]⟩)

/-- Every entry is what one of the calls compiled, under the hash of what it compiled it from. -/
def Backed (hasher : Hasher) (calls : List Call) (c : ProcedureCache) : Prop :=
  ∀ e ∈ c.entries, ∃ globals g, .get globals g ∈ calls ∧ e.1 = hasher (g.hashed globals) ∧
    g.compile hasher globals = .ok e.2.procedure

namespace Backed

variable {c : ProcedureCache}

theorem mono (h : Backed hasher calls c) (call : Call) : Backed hasher (calls ++ [call]) c :=
  fun e he =>
    let ⟨globals, g, hg, hc⟩ := h e he
    ⟨globals, g, List.mem_append_left _ hg, hc⟩

theorem perform (h : Backed hasher calls c) (call : Call) :
    Backed hasher (calls ++ [call]) (call.perform hasher c) := by
  cases call with
  | get globals g =>
    intro e he
    rw [Call.perform] at he
    obtain ⟨p, -, -, hentries⟩ | ⟨e, -, -, hentries⟩ | ⟨p, hp, -, hentries⟩ :=
      getOrCompile_cases hasher globals g c
    · exact h.mono _ e (hentries ▸ he)
    · exact h.mono _ _ (hentries ▸ he)
    · rw [hentries] at he
      rcases List.mem_cons.mp he with rfl | he
      · exact ⟨globals, g, List.mem_append_right _ (.head _), rfl, hp⟩
      · exact h.mono _ e he
  | prune held => exact fun e he => h.mono _ e (List.mem_filter.mp he).1
  | clear => exact nofun

theorem after (hasher : Hasher) (calls : List Call) :
    Backed hasher calls (ProcedureCache.after hasher calls) := by
  induction calls using List.reverseRecOn with
  | nil => exact nofun
  | append_singleton calls call ih =>
    rw [ProcedureCache.after, List.foldl_append]
    exact ih.perform call

end Backed

/-! ### Its answers -/

/-- An entry found for a graph was compiled from it, with globals of one salt. -/
theorem faithful_of_salt (hhash : Separates hasher (calls ++ [.get globals g]))
    (hsalt : ∀ globals' g', .get globals' g' ∈ calls → salt globals' = salt globals →
      globals' = globals) : Faithful hasher calls globals g := by
  obtain ⟨p, hp, hanswer, -⟩ | ⟨e, he, hanswer, -⟩ | ⟨p, hp, hanswer, -⟩ :=
    getOrCompile_cases hasher globals g (after hasher calls)
  · obtain ⟨globals', g', hcall, hkey, hcompile⟩ := Backed.after hasher calls _ hp
    have htext {globals : List String} {g : Graph} {calls : List Call}
        (h : .get globals g ∈ calls) : g.hashed globals ∈ calls.filterMap Call.hashed? :=
      List.mem_filterMap.mpr ⟨_, h, rfl⟩
    obtain ⟨rfl, hs⟩ := Graph.hashed_inj (hhash _ (htext (List.mem_append_right _ (.head _))) _
      (htext (List.mem_append_left _ hcall)) hkey)
    obtain rfl := hsalt _ _ hcall hs.symm
    rw [Faithful, hanswer, hcompile]
    rfl
  · rw [Faithful, hanswer, he]
    rfl
  · rw [Faithful, hanswer, hp]
    rfl

/-- A script that sets one variable. -/
def naming (id : String) : Graph := ⟨[⟨"hat", "event_immediately", [], [],
  some ⟨"set", "data_setvariableto", [("VARIABLE", .string id)], [], none⟩⟩]⟩

theorem resolve_nil (globals : List String) (id : String) : Compile.resolve globals id [] =
    .ok (if globals.contains id then .shared id else .slot 0,
      if globals.contains id then [] else [id]) := by
  rw [Compile.resolve]
  split <;> rfl

theorem compile_naming {id : String} (hid : id ≠ "") (hasher : Hasher) (globals : List String) :
    (naming id).compile hasher globals = .ok ⟨[⟨⟨"hat", .immediately⟩, [.setVariable
      (if globals.contains id then .shared id else .slot 0) (.literal (.text ""))]⟩],
      if globals.contains id then [] else [id], hasher ((naming id).hashed globals)⟩ := by
  set v : Variable := if globals.contains id then .shared id else .slot 0 with hv
  set locals := if globals.contains id then [] else [id] with hlocals
  have hvariable : Rule.variableOf ⟨"set", "data_setvariableto", [("VARIABLE", .string id)]⟩ =
      .variable id .give := if_neg hid
  have hstatement : Compile.statementOf globals
      ⟨"set", "data_setvariableto", [("VARIABLE", .string id)]⟩ [] [] =
        .ok (.setVariable v (.literal (.text "")), locals) := by
    show Compile.follow globals [] (Recipe.bind (Rule.variableOf _) _) [] = _
    rw [hvariable]
    show (Compile.resolve globals id >>= fun _ => _) [] = _
    show Except.bind (Compile.resolve globals id []) _ = _
    rw [resolve_nil]
    rfl
  have hbody : (Compile.meaning globals ⟨"set", "data_setvariableto", [("VARIABLE", .string id)],
      [], none⟩).body [] = .ok ([.setVariable v (.literal (.text ""))], locals) := by
    show Except.bind (Compile.statementOf globals _ [] []) _ = _
    rw [hstatement]
    rfl
  have hscript : Compile.topLevel globals ⟨"hat", "event_immediately", [], [],
      some ⟨"set", "data_setvariableto", [("VARIABLE", .string id)], [], none⟩⟩ [] =
      .ok (some ⟨⟨"hat", .immediately⟩, [.setVariable v (.literal (.text ""))]⟩, locals) := by
    show Except.bind ((Compile.meaning globals _).body []) _ = _
    rw [hbody]
    rfl
  show Except.bind (Except.bind (Compile.topLevel globals _ []) _) _ = _
  rw [hscript]
  rfl

/-- Sets of one salt that differ in an id: of the script that sets its variable, the cache has only
what it compiled for the one set. -/
theorem not_faithful_of_salt {id : String} (hid : id ≠ "") (hsalt : salt globals = salt globals')
    (hmem : ¬(id ∈ globals ↔ id ∈ globals')) :
    ¬Faithful hasher [.get globals (naming id)] globals' (naming id) := by
  have hhashed := (naming id).hashed_of_salt hsalt
  have hanswer : ((after hasher [.get globals (naming id)]).getOrCompile hasher globals'
      (naming id)).1.map (·.procedure) = (naming id).compile hasher globals := by
    simp [after, Call.perform, getOrCompile, compile_naming hid, hhashed, Except.map]
  intro h
  rw [Faithful, hanswer, compile_naming hid, compile_naming hid] at h
  have hlocals := congrArg Procedure.locals (Except.ok.inj h)
  simp only [List.contains_iff_mem] at hlocals
  split_ifs at hlocals with hin hin' hin'
  · exact hmem (iff_of_true hin hin')
  · exact hmem (iff_of_false hin hin')

/-- The cache answers what compiling answers, as long as it is asked with sets of globals whose
salts differ, and no two of the texts that it hashes have one hash. Of two sets with one salt it
answers for the one what it compiled for the other. -/
theorem faithful_iff {sets : Set (List String)} (hsets : ∀ globals ∈ sets, Names.Sorted globals) :
    (∀ globals ∈ sets, ∀ globals' ∈ sets, salt globals = salt globals' → globals = globals') ↔
      ∀ calls : List Call, (∀ call ∈ calls, call.Within sets) → ∀ globals ∈ sets, ∀ g,
        Separates hasher (calls ++ [.get globals g]) → Faithful hasher calls globals g := by
  constructor
  · intro hsalts calls hcalls globals hglobals g hhash
    exact faithful_of_salt hhash fun globals' g' hcall heq =>
      hsalts _ (hcalls _ hcall) _ hglobals heq
  · intro hfaithful globals hglobals globals' hglobals' hsalt
    by_contra hne
    obtain ⟨id, hid, hmem⟩ := exists_mem_of_salt_eq (hsets _ hglobals) (hsets _ hglobals') hne hsalt
    refine not_faithful_of_salt hid hsalt (by tauto) (hfaithful [.get globals (naming id)]
      (List.forall_mem_singleton.mpr hglobals) _ hglobals' _ ?_)
    -- both calls hash one text
    have hhashed := (naming id).hashed_of_salt hsalt
    rintro s hs t ht -
    simp only [List.singleton_append, List.filterMap_cons, Call.hashed?, List.filterMap_nil,
      ← hhashed, List.mem_cons, List.not_mem_nil, or_false, or_self] at hs ht
    rw [hs, ht]

/-- Two sets without zero characters: after what is not held any more is dropped, the first graph is
compiled anew. -/
theorem faithful_pruned : Names.Sorted ["a"] ∧ Names.Sorted ["a", "b"] ∧
    Faithful id [.get ["a"] (naming "a"), .get ["a", "b"] (naming "a"), .prune (· == 2)] ["a"]
      (naming "a") := by
  have ha : Names.Sorted ["a"] := by decide
  have hab : Names.Sorted ["a", "b"] := by decide
  have hsets : ∀ globals ∈ ({["a"], ["a", "b"]} : Set (List String)), Names.Sorted globals := by
    rintro _ (rfl | rfl)
    · exact ha
    · exact hab
  refine ⟨ha, hab, (@faithful_iff id _ hsets).mp ?_ _ ?_ _ (.inl rfl) _
    (separates_of_injective Function.injective_id)⟩
  · have hplain : ∀ globals ∈ ({["a"], ["a", "b"]} : Set (List String)), ∀ id ∈ globals,
        '\x00' ∉ id.toList := by
      rintro _ (rfl | rfl) <;> simp
    exact fun _ h _ h' => salt_inj (hplain _ h) (hplain _ h')
  · simp [Call.Within]

/-- An id with a zero character in it hashes as two ids do: the variable `a` is of the script for
the one set and shared for the other, and the cache has the script of the first. -/
theorem unfaithful_zero : ¬∀ hasher : Hasher, Function.Injective hasher →
    ∀ calls : List Call, (∀ call ∈ calls, call.Within {globals | Names.Sorted globals}) →
      ∀ globals, Names.Sorted globals → ∀ g, Faithful hasher calls globals g := by
  intro h
  have hbytes : utf8 "a\x00b" = utf8 "a" ++ 0 :: utf8 "b" := by
    rw [utf8_eq, utf8_eq, utf8_eq]
    decide
  have hsalt : salt ["a\x00b"] = salt ["a", "b"] := by simp [salt, hbytes]
  refine not_faithful_of_salt (by decide : "a" ≠ "") hsalt (by decide)
    (h id Function.injective_id [.get ["a\x00b"] (naming "a")] ?_ ["a", "b"] (by decide) _)
  exact List.forall_mem_singleton.mpr (by decide : Names.Sorted ["a\x00b"])

end ProcedureCache

end Tabletop
