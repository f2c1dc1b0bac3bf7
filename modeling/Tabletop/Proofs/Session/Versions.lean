import Tabletop.Proofs.Session.Misread

/-! The versions of the records that are processed for one object, as long as it keeps having a
record. Only the stamp of the last one is remembered, so versions go up between records that are
stamped by a version, and start anew after one that is stamped by its payload. -/

namespace Tabletop

namespace Session

variable {s s' s₀ : Session} {o : SceneObject} {raw : Json} {id : String}
  {before now : List SceneObject}

/-! ### Stamps -/

/-- No stamp but that of one object changes, and nothing of what snapshots are compared with. -/
structure Spares (id : String) (s s' : Session) : Prop where
  others : ∀ j, j ≠ id → s'.handled.lookup j = s.handled.lookup j
  differ : s'.differ = s.differ
  config : s'.config = s.config

theorem install_spares (o : SceneObject) (g : Graph) (version : Nat) (s : Session) :
    (s.install o g version none).2.handled = s.handled ∧
      (s.install o g version none).2.differ = s.differ ∧
      (s.install o g version none).2.config = s.config := by
  obtain ⟨fresh, h⟩ := install_eq o g version s
  set q := s.cache.getOrCompile Digest.sha256 s.globals g
  obtain ⟨-, hhandled, hdiffer, hconfig, -⟩ :=
    dispatch_fields (Registry.reinstall o.id version none fresh q.1) { s with cache := q.2 }
  obtain ⟨e, -, h⟩ | ⟨_, _, s₂, -, h, hleaves⟩ := h
  · rw [h]
    exact ⟨hhandled, hdiffer, hconfig⟩
  · rw [h]
    exact ⟨hleaves.handled.trans hhandled, hleaves.differ.trans hdiffer,
      hleaves.config.trans hconfig⟩

theorem takeUp_news (h : IsNews s o raw) :
    (s.takeUp o).2.handled = (stamped o raw s).handled ∧
      (s.takeUp o).2.differ = s.differ ∧ (s.takeUp o).2.config = s.config ∧
      ((s.takeUp o).1 = .failed ∨
        (s.takeUp o).1 = .installed ∧ ∃ version g, readRecord raw = .ok (version, g)) := by
  obtain ⟨e, -, htake⟩ | ⟨version, g, hread, hresult⟩ := takeUp_of_news h
  · have hstop := uninstall_leaves o.id (stamped o raw s)
    rw [htake]
    exact ⟨hstop.handled, hstop.differ, hstop.config, .inl rfl⟩
  · obtain ⟨hhandled, hdiffer, hconfig⟩ := install_spares o g version (stamped o raw s)
    obtain ⟨e, scene, -, htake⟩ | ⟨n, -, htake⟩ := hresult
    · rw [htake]
      exact ⟨hhandled, hdiffer, hconfig, .inl rfl⟩
    · rw [htake]
      exact ⟨hhandled, hdiffer, hconfig, .inr ⟨rfl, version, g, hread⟩⟩

theorem takeUp_spares (o : SceneObject) (s : Session) : Spares o.id s (s.takeUp o).2 := by
  cases hraw : o.stored? s.config.behaviorKey with
  | none =>
    simp only [takeUp, hraw]
    split
    · have hstop := uninstall_leaves o.id { s with handled := Keyed.erase o.id s.handled }
      refine ⟨fun j hj => ?_, hstop.differ, hstop.config⟩
      rw [hstop.handled, Keyed.lookup_erase, if_neg hj]
    · exact ⟨fun _ _ => rfl, rfl, rfl⟩
  | some raw =>
    obtain ⟨_, -, -, htake⟩ | hnews := seen_or_news hraw
    · rw [htake]
      exact ⟨fun _ _ => rfl, rfl, rfl⟩
    · obtain ⟨hhandled, hdiffer, hconfig, -⟩ := takeUp_news hnews
      refine ⟨fun j hj => ?_, hdiffer, hconfig⟩
      rw [hhandled, stamped, Keyed.lookup_put, if_neg hj]

theorem forgetAll_spares (ids : List String) (s : Session) :
    let s' := ids.foldl (fun s id => s.forget id) s
    s'.differ = s.differ ∧ s'.config = s.config ∧
      ∀ id ∉ ids, s'.handled.lookup id = s.handled.lookup id := by
  induction ids generalizing s with
  | nil => exact ⟨rfl, rfl, fun _ _ => rfl⟩
  | cons j rest ih =>
    have hstop := uninstall_leaves j s
    obtain ⟨hdiffer, hconfig, hothers⟩ := ih (s.forget j)
    refine ⟨hdiffer.trans hstop.differ, hconfig.trans hstop.config, fun id hid => ?_⟩
    rw [List.mem_cons, not_or] at hid
    rw [List.foldl_cons, hothers id hid.2, forget, Keyed.lookup_erase, if_neg hid.1]

/-- An object was taken up, after and before others, from a session that had its stamp as it was. -/
def TakenUp (o : SceneObject) (s s' : Session) (installed failed : List String) : Prop :=
  ∃ t : Session, t.handled.lookup o.id = s.handled.lookup o.id ∧ t.config = s.config ∧
    s'.handled.lookup o.id = (t.takeUp o).2.handled.lookup o.id ∧
    (o.id ∈ installed ↔ (t.takeUp o).1 = .installed) ∧ (o.id ∈ failed ↔ (t.takeUp o).1 = .failed)

theorem takeUpAll_spares {objects : List SceneObject} (hids : (objects.map (·.id)).Nodup)
    (s : Session) :
    let r := s.takeUpAll objects
    r.2.differ = s.differ ∧ r.2.config = s.config ∧
      (∀ id ∉ objects.map (·.id), r.2.handled.lookup id = s.handled.lookup id ∧
        id ∉ r.1.1 ∧ id ∉ r.1.2) ∧
      ∀ o ∈ objects, TakenUp o s r.2 r.1.1 r.1.2 := by
  induction objects generalizing s with
  | nil => exact ⟨rfl, rfl, fun _ _ => ⟨rfl, List.not_mem_nil, List.not_mem_nil⟩, nofun⟩
  | cons o rest ih =>
    obtain ⟨hnew, hrest⟩ := List.nodup_cons.mp hids
    have hspares := takeUp_spares o s
    obtain ⟨hdiffer, hconfig, hothers, htaken⟩ := ih hrest (s.takeUp o).2
    have hmem {p : Prop} [Decidable p] {id : String} (hid : id ≠ o.id) (l : List String) :
        id ∈ (if p then [o.id] else []) ++ l ↔ id ∈ l := by
      rw [List.mem_append, or_iff_right]
      split <;> simp [hid]
    have hhead {p : Prop} [Decidable p] {l : List String} (hl : o.id ∉ l) :
        o.id ∈ (if p then [o.id] else []) ++ l ↔ p := by
      rw [List.mem_append, or_iff_left hl]
      split <;> simp [*]
    simp only [takeUpAll_cons]
    refine ⟨hdiffer.trans hspares.differ, hconfig.trans hspares.config, fun id hid => ?_,
      fun q hq => ?_⟩
    · rw [List.map_cons, List.mem_cons, not_or] at hid
      obtain ⟨hlookup, hout⟩ := hothers id hid.2
      rw [hmem hid.1, hmem hid.1]
      exact ⟨hlookup.trans (hspares.others id hid.1), hout⟩
    · rcases List.mem_cons.mp hq with rfl | hq
      · obtain ⟨hlookup, hinstalled, hfailed⟩ := hothers q.id hnew
        exact ⟨s, rfl, rfl, hlookup, hhead hinstalled, hhead hfailed⟩
      · have hne : q.id ≠ o.id := fun h => hnew (List.mem_map.mpr ⟨q, hq, h⟩)
        obtain ⟨t, hstamp, hconfig, hlookup, hinstalled, hfailed⟩ := htaken q hq
        refine ⟨t, hstamp.trans (hspares.others q.id hne), hconfig.trans hspares.config, hlookup,
          ?_, ?_⟩
        · rw [hmem hne, hinstalled]
        · rw [hmem hne, hfailed]

/-- An object whose `lastModified` moved is taken up with a snapshot, and one whose did not is left
alone. -/
theorem change_spares (hd : s.differ.previous = Differ.byId before) (now : List SceneObject) :
    let r := s.change now
    r.2.differ.previous = Differ.byId now ∧ r.2.config = s.config ∧
      ∀ o, lastObject now o.id = some o →
        ((∀ q, lastObject before o.id = some q → q.lastModified ≠ o.lastModified) →
          TakenUp o s r.2 r.1.installed r.1.failed) ∧
        ∀ q, lastObject before o.id = some q → q.lastModified = o.lastModified →
          r.2.handled.lookup o.id = s.handled.lookup o.id ∧
            o.id ∉ r.1.installed ∧ o.id ∉ r.1.failed := by
  obtain ⟨hinstalled, hfailed, hleaves⟩ := change_takeUpAll now s
  set d := s.differ.update now
  obtain ⟨hdiffer, hconfig, hkept⟩ := forgetAll_spares d.1.deleted { s with differ := d.2 }
  have hids : (d.1.touched.map (·.id)).Nodup := Differ.nodup_touched hd
  obtain ⟨hdiffer', hconfig', hothers, htaken⟩ := takeUpAll_spares hids
    (d.1.deleted.foldl (fun (s : Session) id => s.forget id) { s with differ := d.2 })
  simp only [hinstalled, hfailed, hleaves.differ, hleaves.handled]
  refine ⟨by rw [hdiffer', hdiffer]; rfl, hleaves.config.trans (hconfig'.trans hconfig),
    fun o ho => ?_⟩
  have hstays : o.id ∉ d.1.deleted := fun h => by
    rw [((Differ.mem_deleted hd).mp h).2] at ho
    nomatch ho
  refine ⟨fun hnew => ?_, fun q hq hsame => ?_⟩
  · obtain ⟨t, hstamp, hconfig₁, h⟩ := htaken o ((Differ.mem_touched hd).mpr ⟨ho, hnew⟩)
    refine ⟨t, hstamp.trans (hkept o.id hstays), hconfig₁.trans hconfig, ?_⟩
    rw [hleaves.handled]
    exact h
  · obtain ⟨hlookup, hout⟩ := hothers o.id fun h => by
      obtain ⟨o', ho', hid⟩ := List.mem_map.mp h
      obtain ⟨hnow, hnew⟩ := (Differ.mem_touched hd).mp ho'
      rw [hid] at hnow hnew
      cases hnow.symm.trans ho
      exact hnew q hq hsame
    exact ⟨hlookup.trans (hkept o.id hstays), hout⟩

/-! ### The records of one object -/

/-- What a report adds to the records that were processed for an object, which now has this one. -/
def noted (report : ChangeReport) (id : String) (raw : Json) : List Processed :=
  if id ∈ report.installed then [⟨raw, false⟩]
  else if id ∈ report.failed then [⟨raw, true⟩]
  else []

/-- What may happen to a session while each snapshot has some record for an object, with the last
snapshot and all records that were processed for the object, the last one first. In between anything
may happen that leaves the stamps, the last snapshot and the configuration alone, as turns and other
events do (`Leaves`). -/
inductive Diary (id : String) : List SceneObject → List Processed → Session → Prop where
  | start {before : List SceneObject} {s : Session} : s.handled.lookup id = none →
    s.differ.previous = Differ.byId before → Diary id before [] s
  | change {before : List SceneObject} {ps : List Processed} {s : Session}
    (now : List SceneObject) (raw : Json) : Diary id before ps s →
    recordIn s.config.behaviorKey now id = some raw →
    Diary id now (noted (s.change now).1 id raw ++ ps) (s.change now).2
  | meanwhile {before : List SceneObject} {ps : List Processed} {s s' : Session} :
    Diary id before ps s → s'.handled = s.handled → s'.differ = s.differ → s'.config = s.config →
    Diary id before ps s'

variable {ps : List Processed}

/-- A record that is not passed over gets its stamp remembered, which superseded the last one. -/
theorem change_noted (hd : s.differ.previous = Differ.byId before)
    (h : recordIn s.config.behaviorKey now id = some raw) :
    noted (s.change now).1 id raw = [] ∧
        (s.change now).2.handled.lookup id = s.handled.lookup id ∨
      ∃ failed, noted (s.change now).1 id raw = [⟨raw, failed⟩] ∧
        (s.change now).2.handled.lookup id = some (RecordStamp.ofJson raw) ∧
        (∀ stamp, s.handled.lookup id = some stamp →
          (RecordStamp.ofJson raw).supersedes stamp = true) ∧
        (failed = false → ∃ version g, readRecord raw = .ok (version, g)) := by
  obtain ⟨o, ho, hraw⟩ := Option.bind_eq_some_iff.mp h
  obtain rfl := id_of_lastObject ho
  obtain ⟨-, -, hspares⟩ := change_spares hd now
  obtain ⟨hmoved, hsame⟩ := hspares o ho
  by_cases hnew : ∀ q, lastObject before o.id = some q → q.lastModified ≠ o.lastModified
  · obtain ⟨t, hstamp, hconfig, hlookup, hinstalled, hfailed⟩ := hmoved hnew
    rw [hlookup, ← hstamp]
    obtain ⟨_, -, -, htake⟩ | hnews := seen_or_news (s := t) (hconfig ▸ hraw)
    · simp [noted, hinstalled, hfailed, htake]
    · obtain ⟨hhandled, -, -, houtcome⟩ := takeUp_news hnews
      rw [hhandled, lookup_stamped]
      obtain htake | ⟨htake, hread⟩ := houtcome
      · exact .inr ⟨true, by simp [noted, hinstalled, hfailed, htake], rfl, hnews.newer, nofun⟩
      · exact .inr ⟨false, by simp [noted, hinstalled, htake], rfl, hnews.newer, fun _ => hread⟩
  · simp only [not_forall, not_not] at hnew
    obtain ⟨q, hq, hmodified⟩ := hnew
    obtain ⟨hlookup, hinstalled, hfailed⟩ := hsame q hq hmodified
    exact .inl ⟨by simp [noted, hinstalled, hfailed], hlookup⟩

/-- The last stamp is that of the last record that was processed, each record supersedes the one
before it, and those that are installed can be read. -/
structure Diary.Sound (id : String) (before : List SceneObject) (ps : List Processed)
    (s : Session) : Prop where
  differ : s.differ.previous = Differ.byId before
  stamp : s.handled.lookup id = ps.head?.map (RecordStamp.ofJson ·.raw)
  chain : ps.IsChain fun p q =>
    (RecordStamp.ofJson p.raw).supersedes (RecordStamp.ofJson q.raw) = true
  read : ∀ p ∈ ps, p.failed = false → ∃ version g, readRecord p.raw = .ok (version, g)

theorem Diary.sound (h : Diary id before ps s) : Diary.Sound id before ps s := by
  induction h with
  | start hnone hd => exact ⟨hd, hnone, .nil, nofun⟩
  | @change before ps s now raw _ hrecord ih =>
    have hd := (change_spares ih.differ now).1
    obtain ⟨hnone, hlookup⟩ | ⟨failed, hone, hlookup, hnewer, hread⟩ :=
      change_noted ih.differ hrecord
    · rw [hnone]
      exact ⟨hd, hlookup.trans ih.stamp, ih.chain, ih.read⟩
    · rw [hone]
      refine ⟨hd, hlookup, List.isChain_cons.mpr ⟨fun q hq => hnewer _ ?_, ih.chain⟩,
        fun p hp => ?_⟩
      · rw [ih.stamp, show ps.head? = some q from hq, Option.map_some]
      · rcases List.mem_cons.mp hp with rfl | hp
        · exact hread
        · exact ih.read p hp
  | meanwhile _ hh hd _ ih => exact ⟨hd ▸ ih.differ, hh ▸ ih.stamp, ih.chain, ih.read⟩

/-- The last of two records has the higher version, if both are stamped by one. -/
def Later (p q : Processed) : Prop := ∀ m n, RecordStamp.ofJson p.raw = .version m →
  RecordStamp.ofJson q.raw = .version n → n < m

theorem pairwise_later
    (h : ps.IsChain fun p q =>
      (RecordStamp.ofJson p.raw).supersedes (RecordStamp.ofJson q.raw) = true)
    (hversions : ∀ p ∈ ps, ∃ n, RecordStamp.ofJson p.raw = .version n) : ps.Pairwise Later := by
  induction ps with
  | nil => exact .nil
  | cons p rest ih =>
    obtain ⟨hhead, hrest⟩ := List.isChain_cons.mp h
    have ih := ih hrest fun q hq => hversions q (List.mem_cons_of_mem _ hq)
    refine List.pairwise_cons.mpr ⟨fun r hr m n hm hn => ?_, ih⟩
    cases rest with
    | nil => nomatch hr
    | cons q rest =>
      obtain ⟨k, hk⟩ := hversions q (by simp)
      have hkm : k < m := by simpa [hm, hk, RecordStamp.supersedes] using hhead q rfl
      rcases List.mem_cons.mp hr with rfl | hr
      · cases hk.symm.trans hn
        exact hkm
      · exact ((List.pairwise_cons.mp ih).1 r hr k n hk hn).trans hkm

/-- A record of a graph with nothing in it is installed, if it is looked at and is news. -/
theorem noted_of_empty (hd : s.differ.previous = Differ.byId before)
    (ho : lastObject now id = some o)
    (hmoved : ∀ q, lastObject before id = some q → q.lastModified ≠ o.lastModified)
    (hraw : o.stored? s.config.behaviorKey = some raw)
    (hnewer : ∀ stamp, s.handled.lookup id = some stamp →
      (RecordStamp.ofJson raw).supersedes stamp = true)
    {version : Nat} (hread : readRecord raw = .ok (version, ⟨[]⟩)) :
    noted (s.change now).1 id raw = [⟨raw, false⟩] := by
  obtain rfl := id_of_lastObject ho
  obtain ⟨-, -, hspares⟩ := change_spares hd now
  obtain ⟨t, hseen, hconfig, -, hinstalled, -⟩ := (hspares o ho).1 hmoved
  have hnews : IsNews t o raw := ⟨hconfig ▸ hraw, fun stamp hlast => hnewer stamp (hseen ▸ hlast)⟩
  rw [noted, if_pos (hinstalled.mpr (takeUp_installed_of_empty hnews hread))]

/-- The record of a graph with nothing in it. -/
def blank (version : Nat) : Json := .object
  [("graph", .object [("nodes", .array [])]), ("lastModified", .number (.integer version))]

/-- What is no record. -/
def scrap : Json := .array [.string "junk"]

/-- After a record that is stamped by its payload any version is installed. -/
theorem exists_installed (hd : s.differ.previous = Differ.byId before) {hash : Hash}
    (hstamp : s.handled.lookup id = some (.payload hash)) (n : Nat) :
    ∃ now, recordIn s.config.behaviorKey now id = some (blank n) ∧
      noted (s.change now).1 id (blank n) = [⟨blank n, false⟩] := by
  let o : SceneObject := {
    id
    lastModified := ((lastObject before id).elim 0 (·.lastModified)) + 1
    metadata := [(s.config.behaviorKey, blank n)] }
  have ho : lastObject [o] id = some o := by simp [lastObject, o]
  have hraw : o.stored? s.config.behaviorKey = some (blank n) := by simp [SceneObject.stored?, o]
  refine ⟨[o], by rw [recordIn, ho]; exact hraw, noted_of_empty hd ho (fun q hq => ?_) hraw ?_ rfl⟩
  · simp [o, hq]
  · intro stamp hlast
    cases hstamp.symm.trans hlast
    rfl

theorem decode_of_readRecord {version : Nat} {g : Graph} (h : readRecord raw = .ok (version, g)) :
    ∃ r, BehaviorRecord.decode (.ofJson raw) = some r ∧ r.version = version := by
  rw [readRecord, BehaviorRecord.ofJson] at h
  cases hr : BehaviorRecord.decode (.ofJson raw) with
  | none =>
    rw [hr] at h
    cases h
  | some r =>
    refine ⟨r, rfl, ?_⟩
    cases hg : r.graph.toGraph with
    | error e => simp [hr, hg, bind, Except.bind] at h
    | ok g' =>
      simp only [hr, hg, bind, Except.bind, pure, Except.pure, Except.ok.injEq, Prod.mk.injEq] at h
      exact h.1

/-- As long as records are stamped by their versions, these go up from each record that is processed
to the next, and each record that is installed has the version of its stamp. After one that is
stamped by its payload, whatever was processed before it, a record of any version is installed. -/
theorem Diary.versions_increase (h : Diary id before ps s) :
    (∀ stretch, stretch <:+: ps → (∀ p ∈ stretch, ∃ n, RecordStamp.ofJson p.raw = .version n) →
      stretch.Pairwise Later) ∧
    (∀ p ∈ ps, p.failed = false → ∃ version g, readRecord p.raw = .ok (version, g) ∧
      ∀ n, RecordStamp.ofJson p.raw = .version n → version = n) ∧
    ∀ p earlier hash, ps = p :: earlier → RecordStamp.ofJson p.raw = .payload hash →
      ∀ n, ∃ now raw g, recordIn s.config.behaviorKey now id = some raw ∧
        RecordStamp.ofJson raw = .version n ∧ readRecord raw = .ok (n, g) ∧
        Diary id now (⟨raw, false⟩ :: ps) (s.change now).2 := by
  have hsound := h.sound
  refine ⟨fun stretch hpart => pairwise_later <| hsound.chain.infix hpart, fun p hp hok => ?_,
    fun p earlier hash hps hpayload n => ?_⟩
  · obtain ⟨version, g, hread⟩ := hsound.read p hp hok
    refine ⟨version, g, hread, fun n hstamp => ?_⟩
    obtain ⟨r, hr, rfl⟩ := decode_of_readRecord hread
    exact BehaviorRecord.version_of_stamp hstamp hr
  · have hstamp : s.handled.lookup id = some (.payload hash) := by
      rw [hsound.stamp, hps, List.head?_cons, Option.map_some, hpayload]
    obtain ⟨now, hrecord, hnoted⟩ := exists_installed hsound.differ hstamp n
    refine ⟨now, blank n, ⟨[]⟩, hrecord, rfl, rfl, ?_⟩
    have hchange := h.change now (blank n) hrecord
    rwa [hnoted] at hchange

/-- After a record of version 5 comes one of nothing. -/
theorem exists_diary_scrap : ∃ s, s.config = emptyTable.config ∧
    Diary "cup" [cup 2 scrap] [⟨scrap, true⟩, ⟨blank 5, false⟩] s := by
  have hstart : Diary "cup" [] [] emptyTable := .start rfl rfl
  have hfirst : Diary "cup" [cup 1 (blank 5)] [⟨blank 5, false⟩] _ :=
    hstart.change [cup 1 (blank 5)] (blank 5) rfl
  have hsecond : Diary "cup" [cup 2 scrap] [⟨scrap, true⟩, ⟨blank 5, false⟩] _ :=
    hfirst.change [cup 2 scrap] scrap rfl
  refine ⟨_, ?_, hsecond⟩
  rfl

/-- Then version 3 is installed. -/
theorem backwards_cup : ∃ s, Diary "cup" [cup 3 (blank 3)]
    [⟨blank 3, false⟩, ⟨scrap, true⟩, ⟨blank 5, false⟩] s ∧
    readRecord (blank 3) = .ok (3, ⟨[]⟩) ∧ readRecord (blank 5) = .ok (5, ⟨[]⟩) := by
  obtain ⟨s, hconfig, h⟩ := exists_diary_scrap
  have hread : readRecord (blank 3) = .ok (3, ⟨[]⟩) := rfl
  have hnoted : noted (s.change [cup 3 (blank 3)]).1 "cup" (blank 3) = [⟨blank 3, false⟩] := by
    refine noted_of_empty h.sound.differ (o := cup 3 (blank 3)) rfl (fun q hq => ?_)
      (by rw [hconfig]; rfl) (fun stamp hlast => ?_) hread
    · cases hq
      decide
    · cases h.sound.stamp.symm.trans hlast
      rfl
  have hthird := h.change [cup 3 (blank 3)] (blank 3) (by rw [hconfig]; rfl)
  rw [hnoted] at hthird
  exact ⟨_, hthird, hread, rfl⟩

theorem versions_increase_cup : ∃ s, Diary "cup" [cup 2 scrap] [⟨scrap, true⟩, ⟨blank 5, false⟩] s ∧
    ∃ now raw g s', readRecord raw = .ok (4, g) ∧
      Diary "cup" now [⟨raw, false⟩, ⟨scrap, true⟩, ⟨blank 5, false⟩] s' := by
  obtain ⟨s, -, h⟩ := exists_diary_scrap
  obtain ⟨now, raw, g, -, -, hread, hthird⟩ :=
    h.versions_increase.2.2 ⟨scrap, true⟩ [⟨blank 5, false⟩] _ rfl rfl 4
  exact ⟨s, h, now, raw, g, _, hread, hthird⟩

end Session

end Tabletop
