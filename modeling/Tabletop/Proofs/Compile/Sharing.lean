import Mathlib.Data.List.Count
import Mathlib.Data.List.Induction
import Tabletop.Proofs.Compile.Cache

/-! The cache of compiled graphs, and those outside it who hold what they got from it. Whatever is
held keeps its entry, so all who asked under one hash share one compiled graph, also when entries
that nobody holds are dropped in between. -/

namespace Tabletop

/-- What someone outside the cache holds, with the hash under which it was obtained. -/
structure Held where
  hash : Hash
  compiled : Compiled

/-- A cache and what is held outside of it. -/
structure SharedCache where
  cache : ProcedureCache := {}
  held : List Held := []

namespace SharedCache

/-- A call of the cache by its users, who keep what they get until they drop it. -/
inductive Use where
  | get (globals : List String) (g : Graph)
  | drop (place : Nat)
  | prune

def Use.isGet : Use → Bool
  | get .. => true
  | _ => false

/-- How often a compiled graph is referred to: by entries, and from outside. -/
def strongCount (s : SharedCache) (number : Nat) : Nat :=
  s.cache.entries.countP (·.2.number == number) + s.held.countP (·.compiled.number == number)

/-- Whether someone outside holds a compiled graph. -/
def holds (s : SharedCache) (number : Nat) : Bool := s.held.any (·.compiled.number == number)

/-- Carries a call out. Pruning keeps what is referred to more than once. -/
def perform (hasher : Hasher) (s : SharedCache) : Use → SharedCache
  | .get globals g =>
    match s.cache.getOrCompile hasher globals g with
    | (.ok p, cache) => ⟨cache, s.held ++ [⟨hasher (g.hashed globals), p⟩]⟩
    | (.error _, cache) => { s with cache }
  | .drop place => { s with held := s.held.eraseIdx place }
  | .prune => { s with cache := s.cache.prune fun n => 1 < s.strongCount n }

/-- A new cache after some calls. -/
def after (hasher : Hasher) (uses : List Use) : SharedCache := uses.foldl (perform hasher) {}

variable {hasher : Hasher} {s : SharedCache}

/-- A cache in use: one entry for each hash and for each compiled graph, and an entry for all that is
held. -/
structure Sound (s : SharedCache) : Prop where
  keys : (s.cache.entries.map (·.1)).Nodup
  numbers : (s.cache.entries.map (·.2.number)).Nodup
  numbered : ∀ e ∈ s.cache.entries, e.2.number ≤ s.cache.misses
  kept : ∀ a ∈ s.held, (a.hash, a.compiled) ∈ s.cache.entries

theorem sound_empty : Sound {} := ⟨.nil, .nil, nofun, nofun⟩

namespace Sound

/-- An entry is one reference, so any other one is from outside. -/
theorem strongCount_eq (h : Sound s) {e : Hash × Compiled} (he : e ∈ s.cache.entries) :
    s.strongCount e.2.number = 1 + s.held.countP (·.compiled.number == e.2.number) := by
  have hcount := List.count_eq_one_of_mem h.numbers (List.mem_map_of_mem he)
  rw [List.count, List.countP_map] at hcount
  rw [strongCount, ← hcount]
  rfl

/-- What is referred to more than once is held. -/
theorem shared_iff (h : Sound s) {e : Hash × Compiled} (he : e ∈ s.cache.entries) :
    decide (1 < s.strongCount e.2.number) = s.holds e.2.number := by
  rw [h.strongCount_eq he, holds, Bool.eq_iff_iff, decide_eq_true_eq, List.any_eq_true,
    ← List.countP_pos_iff]
  omega

theorem prune_entries (h : Sound s) : (s.cache.prune fun n => 1 < s.strongCount n).entries =
    s.cache.entries.filter fun e => s.holds e.2.number :=
  List.filter_congr fun _ he => h.shared_iff he

/-- Pruning returns how many entries nobody holds. -/
theorem pruned_eq (h : Sound s) : s.cache.pruned (fun n => 1 < s.strongCount n) =
    s.cache.entries.countP fun e => !s.holds e.2.number := by
  have hsplit := List.length_eq_countP_add_countP (fun e => s.holds e.2.number)
    (l := s.cache.entries)
  rw [ProcedureCache.pruned, h.prune_entries, ← List.countP_eq_length_filter, hsplit,
    Nat.add_sub_cancel_left]
  exact List.countP_congr fun e _ => by simp

/-- Two who hold under one hash hold what its only entry has, and conversely. -/
theorem hash_eq_iff (h : Sound s) {a b : Held} (ha : a ∈ s.held) (hb : b ∈ s.held) :
    a.hash = b.hash ↔ a.compiled.number = b.compiled.number := by
  constructor <;> intro hab
  · exact congrArg (·.2.number) (List.inj_on_of_nodup_map h.keys (h.kept a ha) (h.kept b hb) hab)
  · exact congrArg (·.1) (List.inj_on_of_nodup_map h.numbers (h.kept a ha) (h.kept b hb) hab)

theorem compiled_eq (h : Sound s) {a b : Held} (ha : a ∈ s.held) (hb : b ∈ s.held)
    (hab : a.hash = b.hash) : a.compiled = b.compiled :=
  congrArg (·.2) (List.inj_on_of_nodup_map h.keys (h.kept a ha) (h.kept b hb) hab)

theorem hit (h : Sound s) {hash : Hash} {p : Compiled} (hp : s.cache.entries.lookup hash = some p) :
    Sound ⟨{ s.cache with hits := s.cache.hits + 1 }, s.held ++ [⟨hash, p⟩]⟩ := by
  refine ⟨h.keys, h.numbers, h.numbered, fun a ha => ?_⟩
  rcases List.mem_append.mp ha with ha | ha
  · exact h.kept a ha
  · obtain rfl := List.mem_singleton.mp ha
    exact Keyed.mem_of_lookup hp

/-- A new compiled graph has a number that none had before. -/
theorem miss (h : Sound s) {hash : Hash} {p : Compiled} (hnew : s.cache.entries.lookup hash = none)
    (hp : p.number = s.cache.misses + 1) :
    Sound ⟨{ s.cache with misses := s.cache.misses + 1, entries := (hash, p) :: s.cache.entries },
      s.held ++ [⟨hash, p⟩]⟩ := by
  refine ⟨List.nodup_cons.mpr ⟨?_, h.keys⟩, List.nodup_cons.mpr ⟨?_, h.numbers⟩, ?_, fun a ha => ?_⟩
  · intro hmem
    obtain ⟨e, he, rfl⟩ := List.mem_map.mp hmem
    simpa using List.lookup_eq_none_iff.mp hnew e he
  · intro hmem
    obtain ⟨e, he, heq⟩ := List.mem_map.mp hmem
    have hle := h.numbered e he
    simp only at heq
    omega
  · refine List.forall_mem_cons.mpr ⟨Nat.le_of_eq hp, fun e he => ?_⟩
    exact Nat.le_succ_of_le (h.numbered e he)
  · rcases List.mem_append.mp ha with ha | ha
    · exact List.mem_cons_of_mem _ (h.kept a ha)
    · obtain rfl := List.mem_singleton.mp ha
      exact List.mem_cons_self

theorem perform (h : Sound s) (use : Use) : Sound (s.perform hasher use) := by
  cases use with
  | get globals g =>
    rw [SharedCache.perform]
    obtain ⟨p, hp, heq⟩ | ⟨hnew, ⟨e, -, heq⟩ | ⟨p, hp, -, heq⟩⟩ :=
      ProcedureCache.getOrCompile_eq hasher globals g s.cache <;> rw [heq]
    · exact h.hit hp
    · exact ⟨h.keys, h.numbers, fun e he => Nat.le_succ_of_le (h.numbered e he), h.kept⟩
    · exact h.miss hnew hp
  | drop place =>
    exact ⟨h.keys, h.numbers, h.numbered, fun a ha => h.kept a (List.mem_of_mem_eraseIdx ha)⟩
  | prune =>
    have hsub : (s.perform hasher .prune).cache.entries.Sublist s.cache.entries :=
      List.filter_sublist
    refine ⟨h.keys.sublist (hsub.map _), h.numbers.sublist (hsub.map _),
      fun e he => h.numbered e (hsub.mem he), fun a ha => ?_⟩
    rw [SharedCache.perform, h.prune_entries]
    exact List.mem_filter.mpr ⟨h.kept a ha, List.any_eq_true.mpr ⟨a, ha, beq_self_eq_true _⟩⟩

theorem after (hasher : Hasher) (uses : List Use) : Sound (SharedCache.after hasher uses) := by
  induction uses using List.reverseRecOn with
  | nil => exact sound_empty
  | append_singleton uses use ih =>
    rw [SharedCache.after, List.foldl_append]
    exact ih.perform use

end Sound

/-! ### What is counted -/

/-- A call is a hit where the cache has an entry under its hash, and else a miss. -/
theorem counts_get (hasher : Hasher) (s : SharedCache) (globals : List String) (g : Graph) :
    (s.perform hasher (.get globals g)).cache.hits =
        s.cache.hits + (s.cache.contains (hasher (g.hashed globals))).toNat ∧
      (s.perform hasher (.get globals g)).cache.misses =
        s.cache.misses + (!s.cache.contains (hasher (g.hashed globals))).toNat := by
  rw [perform, ProcedureCache.contains]
  obtain ⟨p, hp, heq⟩ | ⟨hnew, ⟨e, -, heq⟩ | ⟨p, -, -, heq⟩⟩ :=
    ProcedureCache.getOrCompile_eq hasher globals g s.cache
  · rw [heq, hp]
    exact ⟨rfl, rfl⟩
  · rw [heq, hnew]
    exact ⟨rfl, rfl⟩
  · rw [heq, hnew]
    exact ⟨rfl, rfl⟩

theorem counts_perform (hasher : Hasher) (s : SharedCache) (use : Use) :
    (s.perform hasher use).cache.hits + (s.perform hasher use).cache.misses =
      s.cache.hits + s.cache.misses + use.isGet.toNat := by
  cases use with
  | get globals g =>
    obtain ⟨hhits, hmisses⟩ := counts_get hasher s globals g
    rw [hhits, hmisses]
    cases s.cache.contains (hasher (g.hashed globals)) <;>
      simp only [Use.isGet, Bool.not_true, Bool.not_false, Bool.toNat_true, Bool.toNat_false] <;>
      omega
  | drop place => rfl
  | prune => rfl

theorem counts_after (hasher : Hasher) (uses : List Use) :
    (after hasher uses).cache.hits + (after hasher uses).cache.misses =
      uses.countP Use.isGet := by
  induction uses using List.reverseRecOn with
  | nil => rfl
  | append_singleton uses use ih =>
    rw [after, List.foldl_append, List.countP_append, List.countP_singleton, ← ih]
    refine (counts_perform hasher (after hasher uses) use).trans ?_
    cases use.isGet <;> rfl

/-! ### Runs of calls -/

/-- After any calls, all who hold under one hash hold one compiled graph, and under different hashes
different ones. Pruning keeps the entries that someone holds, and returns how many others there
were. Each call of the cache was a hit or a miss, as the next will be by whether there is an entry
under its hash, and where it fails to compile the entries stay. -/
theorem sharing_exact (hasher : Hasher) (uses : List Use) :
    let s := after hasher uses
    (∀ a ∈ s.held, ∀ b ∈ s.held, (a.hash = b.hash ↔ a.compiled.number = b.compiled.number) ∧
      (a.hash = b.hash → a.compiled = b.compiled)) ∧
    (s.perform hasher .prune).cache.entries =
      s.cache.entries.filter (fun e => s.holds e.2.number) ∧
    s.cache.pruned (fun n => 1 < s.strongCount n) =
      s.cache.entries.countP (fun e => !s.holds e.2.number) ∧
    s.cache.hits + s.cache.misses = uses.countP Use.isGet ∧
    ∀ globals g,
      (s.perform hasher (.get globals g)).cache.hits =
        s.cache.hits + (s.cache.contains (hasher (g.hashed globals))).toNat ∧
      (s.perform hasher (.get globals g)).cache.misses =
        s.cache.misses + (!s.cache.contains (hasher (g.hashed globals))).toNat ∧
      ∀ e, (s.cache.getOrCompile hasher globals g).1 = .error e →
        (s.perform hasher (.get globals g)).cache.entries = s.cache.entries := by
  have h := Sound.after hasher uses
  refine ⟨fun a ha b hb => ⟨h.hash_eq_iff ha hb, h.compiled_eq ha hb⟩, h.prune_entries, h.pruned_eq,
    counts_after hasher uses, fun globals g => ?_⟩
  obtain ⟨hhits, hmisses⟩ := counts_get hasher (after hasher uses) globals g
  refine ⟨hhits, hmisses, fun e he => ?_⟩
  rw [perform]
  obtain ⟨p, -, heq⟩ | ⟨-, ⟨e, -, heq⟩ | ⟨p, -, -, heq⟩⟩ :=
    ProcedureCache.getOrCompile_eq hasher globals g (after hasher uses).cache
  · rw [heq] at he
    cases he
  · rw [heq]
  · rw [heq] at he
    cases he

/-- The empty graph twice, and dropped twice: the two are one, and its entry goes with them. -/
example : let uses : List Use := [.get [] ⟨[]⟩, .get [] ⟨[]⟩]
    ((after (fun _ => []) uses).held.map (·.compiled.number) = [1, 1] ∧
      (after (fun _ => []) (uses ++ [.prune])).cache.entries.length = 1 ∧
      (after (fun _ => []) (uses ++ [.drop 0, .drop 0, .prune])).cache.entries.length = 0) := by
  decide

end SharedCache

end Tabletop
