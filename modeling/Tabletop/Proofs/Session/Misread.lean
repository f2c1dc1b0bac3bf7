import Tabletop.Proofs.Graph.Reading
import Tabletop.Proofs.Session.Records

/-! What sessions make of a stored graph whose `nodes` cannot be read. It counts as malformed only
where its `blocks` cannot be read either: without `blocks` it is taken for a graph with nothing in
it. -/

namespace Tabletop

namespace Session

open Digest (sha256)

variable {s : Session} {o : SceneObject} {raw : Json} {version : Nat}
  {members : List (String × Document)}

theorem readRecord_of_encloses {d : Document} (h : BehaviorRecord.Encloses raw version d) :
    readRecord raw = match StoredGraph.decode d with
      | none => .error .malformed
      | some g => g.toGraph.map (version, ·) := by
  rw [readRecord, BehaviorRecord.ofJson, BehaviorRecord.decode_of_encloses h]
  cases StoredGraph.decode d with
  | none => rfl
  | some g => cases hg : g.toGraph <;> simp [hg, bind, Except.bind, pure, Except.pure, Except.map]

/-- A graph without blocks compiles, from the cache or anew. -/
theorem getOrCompile_empty (c : ProcedureCache) (globals : List String) :
    ∃ p, (c.getOrCompile sha256 globals ⟨[]⟩).1 = .ok p := by
  obtain ⟨p, -, h, -⟩ | ⟨e, he, -⟩ | ⟨p, -, h, -⟩ :=
    ProcedureCache.getOrCompile_cases sha256 globals ⟨[]⟩ c
  · exact ⟨p, h⟩
  · nomatch he
  · exact ⟨p, h⟩

theorem takeUp_failed_of_error (h : IsNews s o raw) {e : GraphError}
    (hread : readRecord raw = .error e) : (s.takeUp o).1 = .failed := by
  obtain ⟨-, -, htake⟩ | ⟨_, _, hok, -⟩ := takeUp_of_news h
  · rw [htake]
  · rw [hread] at hok
    nomatch hok

theorem install_empty (o : SceneObject) (version : Nat) (s : Session) :
    ∃ n, (s.install o ⟨[]⟩ version none).1 = .ok n := by
  obtain ⟨p, hp⟩ := getOrCompile_empty s.cache s.globals
  obtain ⟨_, ⟨e, he, -⟩ | ⟨_, n, _, -, hinstall, -⟩⟩ := install_eq o ⟨[]⟩ version s
  · rw [hp] at he
    nomatch he
  · exact ⟨n, by rw [hinstall]⟩

theorem takeUp_installed_of_empty (h : IsNews s o raw)
    (hread : readRecord raw = .ok (version, ⟨[]⟩)) : (s.takeUp o).1 = .installed := by
  obtain ⟨_, herror, -⟩ | ⟨_, _, hok, hinstall⟩ := takeUp_of_news h
  · rw [hread] at herror
    nomatch herror
  · rw [hread] at hok
    cases hok
    obtain ⟨e, -, he, -⟩ | ⟨-, -, htake⟩ := hinstall
    · obtain ⟨n, hn⟩ := install_empty o version (stamped o raw s)
      rw [hn] at he
      nomatch he
    · rw [htake]

/-- A stored graph is read as just the records of its `nodes`, or is refused, iff these can be read
or its `blocks` cannot. With neither, what is read has lost all that stands under `nodes`: a session
to which a record of such a graph is news reports a failure only where the `blocks` are malformed
too, and where there are none, it reports as installed what is read as a graph with nothing in it.
-/
theorem takeUp_of_nodes (members : List (String × Document)) :
    ((∀ g, StoredGraph.decode (.object members) = some g →
        ∃ f : FlatGraph, g = .flat f ∧ f.WrittenIn members) ↔
      (∃ f : FlatGraph, f.WrittenIn members) ∨ ∀ g : Graph, ¬g.WrittenIn members) ∧
    ∀ (s : Session) (o : SceneObject) (raw : Json) (version : Nat), IsNews s o raw →
      BehaviorRecord.Encloses raw version (.object members) →
      (∀ f : FlatGraph, ¬f.WrittenIn members) →
        ((∀ g : Graph, ¬g.WrittenIn members) →
          readRecord raw = .error .malformed ∧ (s.takeUp o).1 = .failed) ∧
        (∀ g : Graph, g.WrittenIn members → readRecord raw = .ok (version, g)) ∧
        ("blocks" ∉ Keyed.keys members →
          readRecord raw = .ok (version, ⟨[]⟩) ∧ (s.takeUp o).1 = .installed) := by
  refine ⟨⟨fun h => ?_, fun h g hg => ?_⟩, fun s o raw version hnews hraw hflat => ?_⟩
  · by_contra hno
    simp only [not_or, not_forall, not_not, not_exists] at hno
    obtain ⟨hflat, g, hg⟩ := hno
    obtain ⟨f, hf, -⟩ := h _ (StoredGraph.decode_eq_nested.mpr ⟨hflat, hg⟩)
    cases hf
  · cases g with
    | flat f => exact ⟨f, rfl, StoredGraph.decode_eq_flat.mp hg⟩
    | nested g =>
      obtain ⟨hflat, hnested⟩ := StoredGraph.decode_eq_nested.mp hg
      obtain ⟨f, hf⟩ | hnone := h
      · exact absurd hf (hflat f)
      · exact absurd hnested (hnone g)
  · have hread := readRecord_of_encloses hraw
    have hnested (g : Graph) (hg : g.WrittenIn members) : readRecord raw = .ok (version, g) := by
      rw [hread, StoredGraph.decode_eq_nested.mpr ⟨hflat, hg⟩]
      rfl
    refine ⟨fun hnone => ?_, hnested, fun hblocks => ?_⟩
    · have hmalformed : readRecord raw = .error .malformed := by
        rw [hread]
        cases hg : StoredGraph.decode (.object members) with
        | none => rfl
        | some g =>
          cases g with
          | flat f => exact absurd (StoredGraph.decode_eq_flat.mp hg) (hflat f)
          | nested g => exact absurd (StoredGraph.decode_eq_nested.mp hg).2 (hnone g)
      exact ⟨hmalformed, takeUp_failed_of_error hnews hmalformed⟩
    · have hempty := hnested ⟨[]⟩ (.inl ⟨hblocks, rfl⟩)
      exact ⟨hempty, takeUp_installed_of_empty hnews hempty⟩

/-- A graph whose one record lacks its type. -/
def halfHat : List (String × Json) := [("nodes", .array [.object [("id", .string "hat")]])]

/-- A record of it. -/
def halfRecord : Json :=
  .object [("graph", .object halfHat), ("lastModified", .number (.integer 1))]

theorem misread_halfHat : "nodes" ∈ Keyed.keys halfHat ∧
    StoredGraph.decode (.ofJson (.object halfHat)) = some (.nested ⟨[]⟩) ∧
    (emptyTable.change [cup 1 halfRecord]).1.installed = ["cup"] ∧
    (emptyTable.change [cup 1 halfRecord]).1.failed = [] :=
  ⟨by decide, rfl, rfl, rfl⟩

theorem takeUp_of_nodes_halfHat :
    (∀ f : FlatGraph, ¬f.WrittenIn (Document.ofMembers halfHat)) ∧
      readRecord halfRecord = .ok (1, ⟨[]⟩) ∧
      (emptyTable.takeUp (cup 1 halfRecord)).1 = .installed := by
  have hflat (f : FlatGraph) : ¬f.WrittenIn (Document.ofMembers halfHat) := fun hf => by
    have hnone : FlatGraph.decode (.object (Document.ofMembers halfHat)) = none := rfl
    rw [FlatGraph.decode_eq_some.mpr hf] at hnone
    nomatch hnone
  have hnews : IsNews emptyTable (cup 1 halfRecord) halfRecord := ⟨rfl, nofun⟩
  exact ⟨hflat, ((takeUp_of_nodes (Document.ofMembers halfHat)).2 emptyTable _ halfRecord 1 hnews
    ⟨_, rfl, rfl, rfl⟩ hflat).2.2 (by decide)⟩

end Session

end Tabletop
