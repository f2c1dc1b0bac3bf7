import Tabletop.Proofs.Compile.Cache
import Tabletop.Proofs.Session.Leaving
import Tabletop.Proofs.Snapshot

/-! What taking up an object does: to the object, for each way in which its record may stand to what
was processed before, and to the other objects, which it leaves alone. -/

namespace Tabletop

namespace Session

open Digest (sha256)

variable {s s' s'' : Session} {known : Graph → Prop}

/-- A record that cannot be decoded, made into a graph, or compiled. -/
def Fails (globals : List String) (raw : Json) : Prop :=
  (∃ e, readRecord raw = .error e) ∨
    ∃ version g e, readRecord raw = .ok (version, g) ∧ g.compile sha256 globals = .error e

/-- A record of a version whose graph has the hash of one that compiles: its own, or another one that
is known. -/
def Compiles (known : Graph → Prop) (globals : List String) (raw : Json) (version : Nat) : Prop :=
  ∃ g g' p, readRecord raw = .ok (version, g) ∧ known g' ∧ g'.compile sha256 globals = .ok p ∧
    sha256 (g'.hashed globals) = sha256 (g.hashed globals)

/-- Every entry of the cache was compiled from a graph that is known. -/
def CacheFrom (known : Graph → Prop) (globals : List String) (c : ProcedureCache) : Prop :=
  ∀ e ∈ c.entries, ∃ g, known g ∧ e.1 = sha256 (g.hashed globals) ∧
    g.compile sha256 globals = .ok e.2.procedure

/-! ### One object -/

/-- An object has the stamp that it had, and no other version than it had. -/
structure LosesAtMostVersion (id : String) (s s' : Session) : Prop where
  version : ∀ v, s'.registry.version? id = some v → s.registry.version? id = some v
  handled : s'.handled.lookup id = s.handled.lookup id

theorem LosesAtMostVersion.refl (id : String) (s : Session) : LosesAtMostVersion id s s := ⟨fun _ h => h, rfl⟩

theorem LosesAtMostVersion.trans {id : String} (h : LosesAtMostVersion id s s') (h' : LosesAtMostVersion id s' s'') : LosesAtMostVersion id s s'' :=
  ⟨fun v hv => h.version v (h'.version v hv), h'.handled.trans h.handled⟩

theorem LosesAtMostVersion.version_none {id : String} (h : LosesAtMostVersion id s s')
    (hs : s.registry.version? id = none) : s'.registry.version? id = none := by
  refine Option.eq_none_iff_forall_ne_some.mpr fun v hv => ?_
  rw [h.version v hv] at hs
  nomatch hs

/-- What does not depend on the object that is looked at. -/
structure Carries (known : Graph → Prop) (s s' : Session) : Prop where
  sound : s.registry.Sound → s'.registry.Sound
  differ : s'.differ = s.differ
  config : s'.config = s.config
  globals : s'.globals = s.globals
  cache : CacheFrom known s.globals s.cache → CacheFrom known s'.globals s'.cache

theorem Carries.refl (known : Graph → Prop) (s : Session) : Carries known s s :=
  ⟨id, rfl, rfl, rfl, id⟩

theorem Carries.trans (h : Carries known s s') (h' : Carries known s' s'') :
    Carries known s s'' where
  sound := h'.sound ∘ h.sound
  differ := h'.differ.trans h.differ
  config := h'.config.trans h.config
  globals := h'.globals.trans h.globals
  cache := h'.cache ∘ h.cache

theorem Leaves.carries (h : Leaves s s') (known : Graph → Prop) : Carries known s s' where
  sound hs := (h.registry hs).1
  differ := h.differ
  config := h.config
  globals := h.globals
  cache hc e he := h.globals ▸ hc e (h.cache e he)

theorem Leaves.losesAtMost (h : Leaves s s') (hs : s.registry.Sound) (id : String) : LosesAtMostVersion id s s' :=
  ⟨fun _ hv => (h.registry hs).2.version? hs.keys hv, by rw [h.handled]⟩

/-- A record that an object has to be processed. -/
structure IsNews (s : Session) (o : SceneObject) (raw : Json) : Prop where
  stored : o.stored? s.config.behaviorKey = some raw
  newer : ∀ stamp, s.handled.lookup o.id = some stamp →
    (RecordStamp.ofJson raw).supersedes stamp = true

/-- What became of an object that was taken up. -/
inductive TookUp (known : Graph → Prop) (o : SceneObject) (s s' : Session) : Uptake → Prop where
  | absent : o.stored? s.config.behaviorKey = none → s'.handled.lookup o.id = none →
    (∀ v, s'.registry.version? o.id = some v →
      s.registry.version? o.id = some v ∧ s.handled.lookup o.id = none) →
    TookUp known o s s' .unchanged
  | seen {raw : Json} {stamp : RecordStamp} : o.stored? s.config.behaviorKey = some raw →
    s.handled.lookup o.id = some stamp → (RecordStamp.ofJson raw).supersedes stamp = false →
    LosesAtMostVersion o.id s s' → TookUp known o s s' .unchanged
  | failed {raw : Json} : IsNews s o raw →
    s'.handled.lookup o.id = some (RecordStamp.ofJson raw) → Fails s.globals raw →
    s'.registry.version? o.id = none → TookUp known o s s' .failed
  | installed {raw : Json} {version : Nat} : IsNews s o raw →
    s'.handled.lookup o.id = some (RecordStamp.ofJson raw) →
    Compiles known s.globals raw version →
    (∀ v, s'.registry.version? o.id = some v → v = version) → TookUp known o s s' .installed

/-- An installation is a call of the registry, next to which the cache may grow, and a write. -/
theorem install_eq (o : SceneObject) (g : Graph) (version : Nat) (s : Session) :
    ∃ fresh, let q := s.cache.getOrCompile sha256 s.globals g
      let s₁ := (dispatch (Registry.reinstall o.id version none fresh q.1) { s with cache := q.2 }).2
      (∃ e, q.1 = .error e ∧ s.install o g version none = (.error e, s₁)) ∨
        ∃ k n s₂, q.1 = .ok k ∧ s.install o g version none = (.ok n, s₂) ∧ Leaves s₁ s₂ := by
  refine ⟨s.isFreshClone o, ?_⟩
  simp only [install]
  generalize s.cache.getOrCompile sha256 s.globals g = q
  obtain ⟨compiled, cache⟩ := q
  cases compiled with
  | error e => exact .inl ⟨e, rfl, rfl⟩
  | ok k =>
    refine .inr ⟨k, _, _, rfl, rfl, ?_⟩
    split
    · exact .write _ _ _
    · exact .refl _

/-- An installation without a survivor. -/
theorem install_cases (hs : s.registry.Sound) (hc : CacheFrom known s.globals s.cache)
    (o : SceneObject) {g : Graph} (hg : known g) (version : Nat) :
    Carries known s (s.install o g version none).2 ∧
    (s.install o g version none).2.handled = s.handled ∧
    (∀ id v, (s.install o g version none).2.registry.version? id = some v →
      (id ≠ o.id ∧ s.registry.version? id = some v) ∨
        id = o.id ∧ v = version ∧ ∃ n, (s.install o g version none).1 = .ok n) ∧
    ((∃ e, (s.install o g version none).1 = .error e ∧ g.compile sha256 s.globals = .error e) ∨
      ∃ n g' p, (s.install o g version none).1 = .ok n ∧ known g' ∧
        g'.compile sha256 s.globals = .ok p ∧
        sha256 (g'.hashed s.globals) = sha256 (g.hashed s.globals)) := by
  obtain ⟨fresh, h⟩ := install_eq o g version s
  have hcache := ProcedureCache.getOrCompile_cases sha256 s.globals g s.cache
  set q := s.cache.getOrCompile sha256 s.globals g
  set s₁ := (dispatch (Registry.reinstall o.id version none fresh q.1) { s with cache := q.2 }).2
  obtain ⟨hr, hh, hd, hconfig, hglobals, hcached⟩ :=
    dispatch_fields (Registry.reinstall o.id version none fresh q.1) { s with cache := q.2 }
  have hfrom : CacheFrom known s.globals q.2 := by
    obtain ⟨p, -, -, he⟩ | ⟨e, -, -, he⟩ | ⟨p, hp, -, he⟩ := hcache
    · exact fun e hmem => hc e (he ▸ hmem)
    · exact fun e hmem => hc e (he ▸ hmem)
    · intro e hmem
      rw [he] at hmem
      rcases List.mem_cons.mp hmem with rfl | hmem
      · exact ⟨g, hg, rfl, hp⟩
      · exact hc e hmem
  have hcarries : Carries known s s₁ := by
    refine ⟨fun hs => ?_, hd, hconfig, hglobals, fun _ => ?_⟩
    · rw [hr]
      exact (Registry.reinstall_honest hs o.id version none fresh q.1).sound hs
    · rw [hglobals, hcached]
      exact hfrom
  have hversion (id : String) (v : Nat) (hv : s₁.registry.version? id = some v) :
      (id ≠ o.id ∧ s.registry.version? id = some v) ∨
        id = o.id ∧ v = version ∧ ∃ k, q.1 = .ok k :=
    Registry.version?_reinstall hs.toTidy (hr ▸ hv)
  obtain ⟨e, he, hinstall⟩ | ⟨k, n, s₂, hk, hinstall, hleaves⟩ := h
  · rw [hinstall]
    refine ⟨hcarries, hh, fun id v hv => ?_, .inl ⟨e, rfl, ?_⟩⟩
    · obtain hv | ⟨-, -, k, hk⟩ := hversion id v hv
      · exact .inl hv
      · rw [he] at hk
        nomatch hk
    · obtain ⟨p, -, hp, -⟩ | ⟨e', hcompile, he', -⟩ | ⟨p, -, hp, -⟩ := hcache
      · rw [he] at hp
        nomatch hp
      · rw [he] at he'
        cases he'
        exact hcompile
      · rw [he] at hp
        nomatch hp
  · rw [hinstall]
    refine ⟨hcarries.trans (hleaves.carries known), hleaves.handled.trans hh, fun id v hv => ?_,
      .inr ?_⟩
    · have hv₁ := (hleaves.losesAtMost (hcarries.sound hs) id).version v hv
      exact (hversion id v hv₁).imp_right fun ⟨ho, hv, _⟩ => ⟨ho, hv, n, rfl⟩
    · obtain ⟨p, hp, -, -⟩ | ⟨e, -, he, -⟩ | ⟨p, hp, -, -⟩ := hcache
      · obtain ⟨g', hg', hhash, hcompile⟩ := hc _ hp
        exact ⟨n, g', _, rfl, hg', hcompile, hhash.symm⟩
      · rw [hk] at he
        nomatch he
      · exact ⟨n, g, _, rfl, hg, hp, rfl⟩

/-! ### Taking up an object -/

/-- A session that keeps the stamp of a record. -/
def stamped (o : SceneObject) (raw : Json) (s : Session) : Session :=
  { s with handled := Keyed.put o.id (RecordStamp.ofJson raw) s.handled }

theorem lookup_stamped (o : SceneObject) (raw : Json) (s : Session) :
    (stamped o raw s).handled.lookup o.id = some (RecordStamp.ofJson raw) := by
  rw [stamped, Keyed.lookup_put, if_pos rfl]

theorem LosesAtMostVersion.stamped {o : SceneObject} {id : String} (h : id ≠ o.id) (raw : Json) (s : Session) :
    LosesAtMostVersion id s (stamped o raw s) :=
  ⟨fun _ h => h, by rw [Session.stamped, Keyed.lookup_put, if_neg h]⟩

theorem Carries.stamped (known : Graph → Prop) (o : SceneObject) (raw : Json) (s : Session) :
    Carries known s (stamped o raw s) := ⟨id, rfl, rfl, rfl, id⟩

theorem takeUp_of_news {o : SceneObject} {raw : Json} (h : IsNews s o raw) :
    (∃ e, readRecord raw = .error e ∧
      s.takeUp o = (.failed, (stamped o raw s).uninstall o.id)) ∨
    ∃ version g, readRecord raw = .ok (version, g) ∧
      ((∃ e scene, ((stamped o raw s).install o g version none).1 = .error e ∧
        s.takeUp o = (.failed, { ((stamped o raw s).install o g version none).2 with scene })) ∨
      ∃ n, ((stamped o raw s).install o g version none).1 = .ok n ∧
        s.takeUp o = (.installed, ((stamped o raw s).install o g version none).2)) := by
  simp only [takeUp, h.stored]
  rw [if_neg (by
    split
    · next last hlast => simp [h.newer last hlast]
    · exact Bool.false_ne_true)]
  rw [← stamped]
  cases hread : readRecord raw with
  | error e => exact .inl ⟨e, rfl, rfl⟩
  | ok record =>
    obtain ⟨version, g⟩ := record
    refine .inr ⟨version, g, rfl, ?_⟩
    simp only
    cases hq : (stamped o raw s).install o g version none with
    | mk result s₁ =>
      cases result with
      | error e => exact .inl ⟨e, _, rfl, rfl⟩
      | ok n => exact .inr ⟨n, rfl, rfl⟩

theorem uninstall_leaves (id : String) (s : Session) : Leaves s (s.uninstall id) :=
  .call (c := .stop id none) rfl s

theorem version?_uninstall (id : String) (s : Session) :
    (s.uninstall id).registry.version? id = none := by
  rw [uninstall, (dispatch_fields _ _).1]
  exact Registry.version?_stop id s.registry

/-- An object whose record is absent loses its scripts, if a record was ever processed for it. -/
theorem takeUp_of_absent (hs : s.registry.Sound) {o : SceneObject}
    (h : o.stored? s.config.behaviorKey = none) :
    Carries known s (s.takeUp o).2 ∧ (∀ id, id ≠ o.id → LosesAtMostVersion id s (s.takeUp o).2) ∧
      TookUp known o s (s.takeUp o).2 (s.takeUp o).1 := by
  by_cases hhas : Keyed.has o.id s.handled = true
  · set erased : Session := { s with handled := Keyed.erase o.id s.handled }
    have htake : s.takeUp o = (.unchanged, erased.uninstall o.id) := by
      simp only [takeUp, h, hhas, ↓reduceIte, erased]
    have hstop := uninstall_leaves o.id erased
    have hcarries : Carries known s erased := ⟨id, rfl, rfl, rfl, id⟩
    have hothers (id : String) (hid : id ≠ o.id) : LosesAtMostVersion id s erased :=
      ⟨fun _ h => h, by rw [Keyed.lookup_erase, if_neg hid]⟩
    rw [htake]
    refine ⟨hcarries.trans (hstop.carries known),
      fun id hid => (hothers id hid).trans (hstop.losesAtMost hs id), .absent h ?_ ?_⟩
    · rw [hstop.handled, Keyed.lookup_erase, if_pos rfl]
    · intro v hv
      rw [version?_uninstall] at hv
      cases hv
  · have htake : s.takeUp o = (.unchanged, s) := by
      simp only [takeUp, h, hhas, Bool.false_eq_true, ↓reduceIte]
    have hnone : s.handled.lookup o.id = none := by
      rwa [Keyed.lookup_eq_none, ← Keyed.has_iff]
    rw [htake]
    exact ⟨.refl known s, fun id _ => .refl id s, .absent h hnone fun v hv => ⟨hv, hnone⟩⟩

/-- A record whose stamp does not supersede the last one is passed over. -/
theorem seen_or_news {o : SceneObject} {raw : Json}
    (h : o.stored? s.config.behaviorKey = some raw) :
    (∃ stamp, s.handled.lookup o.id = some stamp ∧
      (RecordStamp.ofJson raw).supersedes stamp = false ∧ s.takeUp o = (.unchanged, s)) ∨
    IsNews s o raw := by
  by_cases hseen : ∃ stamp, s.handled.lookup o.id = some stamp ∧
      (RecordStamp.ofJson raw).supersedes stamp = false
  · obtain ⟨stamp, hstamp, hold⟩ := hseen
    refine .inl ⟨stamp, hstamp, hold, ?_⟩
    simp only [takeUp, h, hstamp, hold, Bool.not_false, ↓reduceIte]
  · refine .inr ⟨h, fun stamp hstamp => ?_⟩
    by_contra hold
    exact hseen ⟨stamp, hstamp, Bool.eq_false_iff.mpr hold⟩

/-- What taking up an object does to it, and that it leaves the others alone. -/
theorem takeUp_cases (hs : s.registry.Sound) (hc : CacheFrom known s.globals s.cache)
    (o : SceneObject) (hknown : ∀ raw version g, o.stored? s.config.behaviorKey = some raw →
      readRecord raw = .ok (version, g) → known g) :
    Carries known s (s.takeUp o).2 ∧ (∀ id, id ≠ o.id → LosesAtMostVersion id s (s.takeUp o).2) ∧
      TookUp known o s (s.takeUp o).2 (s.takeUp o).1 := by
  cases hraw : o.stored? s.config.behaviorKey with
  | none => exact takeUp_of_absent hs hraw
  | some raw =>
    obtain ⟨stamp, hstamp, hold, htake⟩ | hnews := seen_or_news hraw
    · rw [htake]
      exact ⟨.refl known s, fun id _ => .refl id s, .seen hraw hstamp hold (.refl _ s)⟩
    have hmarked := Carries.stamped known o raw s
    have hothers (id : String) (hid : id ≠ o.id) := LosesAtMostVersion.stamped hid raw s
    obtain ⟨e, hread, htake⟩ | ⟨version, g, hread, h⟩ := takeUp_of_news hnews
    · have hstop := uninstall_leaves o.id (stamped o raw s)
      rw [htake]
      refine ⟨hmarked.trans (hstop.carries known),
        fun id hid => (hothers id hid).trans (hstop.losesAtMost hs id),
        .failed hnews ?_ (.inl ⟨e, hread⟩) (version?_uninstall _ _)⟩
      rw [hstop.handled, lookup_stamped]
    · obtain ⟨hcarries, hhandled, hversion, hresult⟩ :=
        install_cases (s := stamped o raw s) hs hc o (hknown raw version g hraw hread) version
      set q := (stamped o raw s).install o g version none
      have hinstalled (id : String) (hid : id ≠ o.id) : LosesAtMostVersion id s q.2 := by
        refine (hothers id hid).trans ⟨fun v hv => ?_, by rw [hhandled]⟩
        obtain ⟨-, hv⟩ | ⟨h, -⟩ := hversion id v hv
        · exact hv
        · exact absurd h hid
      obtain ⟨e, scene, he, htake⟩ | ⟨n, hn, htake⟩ := h
      · have hnotify : Leaves q.2 { q.2 with scene } := .of_eq rfl rfl rfl rfl rfl rfl
        have hcompile : g.compile sha256 s.globals = .error e := by
          obtain ⟨e', he', hcompile⟩ | ⟨n, -, -, hn, -⟩ := hresult
          · rw [he] at he'
            cases he'
            exact hcompile
          · rw [he] at hn
            nomatch hn
        rw [htake]
        refine ⟨(hmarked.trans hcarries).trans (hnotify.carries known),
          fun id hid => (hinstalled id hid).trans ⟨fun _ h => h, rfl⟩,
          .failed hnews ?_ (.inr ⟨version, g, e, hread, hcompile⟩) ?_⟩
        · rw [hnotify.handled, hhandled, lookup_stamped]
        · refine Option.eq_none_iff_forall_ne_some.mpr fun v hv => ?_
          obtain ⟨h, -⟩ | ⟨-, -, n, hn⟩ := hversion o.id v hv
          · exact h rfl
          · rw [he] at hn
            nomatch hn
      · obtain ⟨e, he, -⟩ | ⟨-, g', p, -, hg', hp, hhash⟩ := hresult
        · rw [hn] at he
          nomatch he
        rw [htake]
        refine ⟨hmarked.trans hcarries, hinstalled,
          .installed hnews ?_ ⟨g, g', p, hread, hg', hp, hhash⟩ fun v hv => ?_⟩
        · rw [hhandled, lookup_stamped]
        · obtain ⟨h, -⟩ | ⟨-, hv, -⟩ := hversion o.id v hv
          · exact absurd rfl h
          · exact hv

end Session

end Tabletop
