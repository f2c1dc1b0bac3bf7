import Tabletop.Proofs.Session.Uptake

/-! What a snapshot does: objects that are gone are forgotten, those that are new or changed are
taken up, and all others are left as they are, up to what scripts stop meanwhile. -/

namespace Tabletop

namespace Session

variable {s s₀ s' s'' : Session} {known : Graph → Prop} {o : SceneObject} {u : Uptake}

/-! ### Taking up objects one after another -/

theorem TookUp.after (h : TookUp known o s s' u) (hf : LosesAtMostVersion o.id s' s'') :
    TookUp known o s s'' u := by
  cases h with
  | absent hraw hhandled hversion =>
    exact .absent hraw (hf.handled.trans hhandled) fun v hv => hversion v (hf.version v hv)
  | seen hraw hstamp hold h => exact .seen hraw hstamp hold (h.trans hf)
  | failed hnews hhandled hfails hversion =>
    exact .failed hnews (hf.handled.trans hhandled) hfails (hf.version_none hversion)
  | installed hnews hhandled hcompiles hversion =>
    exact .installed hnews (hf.handled.trans hhandled) hcompiles fun v hv =>
      hversion v (hf.version v hv)

theorem TookUp.before (h : TookUp known o s s' u) (hf : LosesAtMostVersion o.id s₀ s)
    (hconfig : s.config = s₀.config) (hglobals : s.globals = s₀.globals) :
    TookUp known o s₀ s' u := by
  have hnews {raw : Json} (h : IsNews s o raw) : IsNews s₀ o raw :=
    ⟨hconfig ▸ h.stored, fun stamp hstamp => h.newer stamp (hf.handled.trans hstamp)⟩
  cases h with
  | absent hraw hhandled hversion =>
    refine .absent (hconfig ▸ hraw) hhandled fun v hv => ?_
    obtain ⟨hv, hnone⟩ := hversion v hv
    exact ⟨hf.version v hv, hf.handled.symm.trans hnone⟩
  | seen hraw hstamp hold h =>
    exact .seen (hconfig ▸ hraw) (hf.handled.symm.trans hstamp) hold (hf.trans h)
  | failed h hhandled hfails hversion =>
    exact .failed (hnews h) hhandled (hglobals ▸ hfails) hversion
  | installed h hhandled hcompiles hversion =>
    exact .installed (hnews h) hhandled (hglobals ▸ hcompiles) hversion

/-- The first object is taken up before the rest, and stands before them among those installed or
those failed if it is one of these. -/
theorem takeUpAll_cons (o : SceneObject) (rest : List SceneObject) (s : Session) :
    let u := s.takeUp o
    let r := u.2.takeUpAll rest
    s.takeUpAll (o :: rest) =
      (((if u.1 = .installed then [o.id] else []) ++ r.1.1,
        (if u.1 = .failed then [o.id] else []) ++ r.1.2), r.2) := by
  obtain ⟨f, hall, hf⟩ : ∃ f : (List String × List String) × Session → SceneObject →
      (List String × List String) × Session,
      (∀ objects s, takeUpAll objects s = objects.foldl f (([], []), s)) ∧
      ∀ p o, f p o = ((p.1.1 ++ (if (p.2.takeUp o).1 = .installed then [o.id] else []),
        p.1.2 ++ if (p.2.takeUp o).1 = .failed then [o.id] else []), (p.2.takeUp o).2) := by
    refine ⟨_, fun _ _ => rfl, fun p o => ?_⟩
    rcases h : p.2.takeUp o with ⟨_ | _ | _, s₁⟩ <;> simp [h]
  -- What was taken up before only stands before what is added.
  have hfold (objects : List SceneObject) (p : (List String × List String) × Session) :
      objects.foldl f p = ((p.1.1 ++ (p.2.takeUpAll objects).1.1,
        p.1.2 ++ (p.2.takeUpAll objects).1.2), (p.2.takeUpAll objects).2) := by
    rw [hall]
    induction objects generalizing p with
    | nil => simp
    | cons o rest ih =>
      rw [List.foldl_cons, List.foldl_cons, ih (f p o), ih (f (([], []), p.2) o)]
      simp only [hf, List.nil_append, List.append_assoc]
  intro u r
  rw [hall, List.foldl_cons, hfold rest (f (([], []), s) o)]
  simp only [hf, List.nil_append, u, r]

/-- What taking up objects does, where no id repeats. -/
theorem takeUpAll_cases (known : Graph → Prop) {objects : List SceneObject}
    (hids : (objects.map (·.id)).Nodup) (hs : s.registry.Sound) (hc : CacheFrom known s.globals s.cache)
    (hknown : ∀ o ∈ objects, ∀ raw version g, o.stored? s.config.behaviorKey = some raw →
      readRecord raw = .ok (version, g) → known g) :
    Carries known s (s.takeUpAll objects).2 ∧
      (∀ id ∉ objects.map (·.id), LosesAtMostVersion id s (s.takeUpAll objects).2 ∧
        id ∉ (s.takeUpAll objects).1.2) ∧
      ∀ o ∈ objects, ∃ u, TookUp known o s (s.takeUpAll objects).2 u ∧
        (o.id ∈ (s.takeUpAll objects).1.2 ↔ u = .failed) := by
  induction objects generalizing s with
  | nil => exact ⟨.refl known s, fun id _ => ⟨.refl id s, List.not_mem_nil⟩, nofun⟩
  | cons o rest ih =>
    obtain ⟨hnew, hrest⟩ := List.nodup_cons.mp hids
    obtain ⟨hcarries, hothers, htook⟩ :=
      takeUp_cases hs hc o (hknown o (List.mem_cons_self ..))
    obtain ⟨hcarries', hothers', htook'⟩ := ih hrest (hcarries.sound hs) (hcarries.cache hc)
      fun q hq => hcarries.config ▸ hknown q (List.mem_cons_of_mem _ hq)
    rw [takeUpAll_cons]
    have hmem (id : String) (hid : id ≠ o.id) :
        id ∈ (if (s.takeUp o).1 = .failed then [o.id] else []) ++
            ((s.takeUp o).2.takeUpAll rest).1.2 ↔
          id ∈ ((s.takeUp o).2.takeUpAll rest).1.2 := by
      rw [List.mem_append, or_iff_right]
      split <;> simp [hid]
    refine ⟨hcarries.trans hcarries', fun id hid => ?_, fun q hq => ?_⟩
    · rw [List.map_cons, List.mem_cons, not_or] at hid
      obtain ⟨hloses, hout⟩ := hothers' id hid.2
      rw [hmem id hid.1]
      exact ⟨(hothers id hid.1).trans hloses, hout⟩
    · rcases List.mem_cons.mp hq with rfl | hq
      · obtain ⟨hloses, hout⟩ := hothers' q.id hnew
        refine ⟨(s.takeUp q).1, htook.after hloses, ?_⟩
        rw [List.mem_append, or_iff_left hout]
        split <;> simp [*]
      · have hne : q.id ≠ o.id := fun h => hnew (List.mem_map.mpr ⟨q, hq, h⟩)
        obtain ⟨u, hu, hiff⟩ := htook' q hq
        rw [hmem q.id hne]
        exact ⟨u, hu.before (hothers q.id hne) hcarries.config hcarries.globals, hiff⟩

/-! ### Forgetting objects -/

theorem forget_cases (known : Graph → Prop) (hs : s.registry.Sound) (id : String) :
    Carries known s (s.forget id) ∧ (∀ j, j ≠ id → LosesAtMostVersion j s (s.forget id)) ∧
      (s.forget id).registry.version? id = none ∧ (s.forget id).handled.lookup id = none := by
  have hstop := uninstall_leaves id s
  have hcarries : Carries known (s.uninstall id) (s.forget id) :=
    ⟨fun h => h, rfl, rfl, rfl, fun h => h⟩
  refine ⟨(hstop.carries known).trans hcarries, fun j hj => ?_, version?_uninstall id s, ?_⟩
  · exact ⟨(hstop.losesAtMost hs j).version, by rw [forget, Keyed.lookup_erase, if_neg hj]⟩
  · rw [forget, Keyed.lookup_erase, if_pos rfl]

theorem forgetAll_cases (known : Graph → Prop) (hs : s.registry.Sound) (ids : List String) :
    let s' := ids.foldl (fun s id => s.forget id) s
    Carries known s s' ∧ (∀ id ∉ ids, LosesAtMostVersion id s s') ∧
      ∀ id ∈ ids, s'.registry.version? id = none ∧ s'.handled.lookup id = none := by
  induction ids generalizing s with
  | nil => exact ⟨.refl known s, fun id _ => .refl id s, nofun⟩
  | cons j rest ih =>
    obtain ⟨hcarries, hothers, hversion, hhandled⟩ := forget_cases known hs j
    obtain ⟨hcarries', hothers', hgone⟩ := ih (hcarries.sound hs)
    refine ⟨hcarries.trans hcarries', fun id hid => ?_, fun id hid => ?_⟩
    · rw [List.mem_cons, not_or] at hid
      exact (hothers id hid.1).trans (hothers' id hid.2)
    · by_cases hrest : id ∈ rest
      · exact hgone id hrest
      · obtain rfl : id = j := (List.mem_cons.mp hid).resolve_right hrest
        have hloses := hothers' id hrest
        exact ⟨hloses.version_none hversion, hloses.handled.trans hhandled⟩

/-! ### Snapshots -/

/-- What a snapshot `now` after a snapshot `before` does. -/
structure Changed (known : Graph → Prop) (before now : List SceneObject) (s s' : Session)
    (failed : List String) : Prop where
  sound : s'.registry.Sound
  differ : s'.differ.previous = Differ.byId now
  config : s'.config = s.config
  globals : s'.globals = s.globals
  cache : CacheFrom known s'.globals s'.cache
  gone : ∀ id, lastObject before id ≠ none → lastObject now id = none →
    s'.registry.version? id = none ∧ s'.handled.lookup id = none
  took : ∀ o, lastObject now o.id = some o →
    (∀ q, lastObject before o.id = some q → q.lastModified ≠ o.lastModified) →
    ∃ u, TookUp known o s s' u ∧ (o.id ∈ failed ↔ u = .failed)
  rests : ∀ id, (lastObject now id = none → lastObject before id = none) →
    (∀ o, lastObject now id = some o →
      ∃ q, lastObject before id = some q ∧ q.lastModified = o.lastModified) →
    LosesAtMostVersion id s s' ∧ id ∉ failed

theorem Changed.after {before now : List SceneObject} {failed : List String}
    (h : Changed known before now s s' failed) (hl : Leaves s' s'') :
    Changed known before now s s'' failed where
  sound := (hl.registry h.sound).1
  differ := hl.differ ▸ h.differ
  config := hl.config.trans h.config
  globals := hl.globals.trans h.globals
  cache := (hl.carries known).cache h.cache
  gone id hbefore hnow := by
    obtain ⟨hversion, hhandled⟩ := h.gone id hbefore hnow
    have hloses := hl.losesAtMost h.sound id
    exact ⟨hloses.version_none hversion, hloses.handled.trans hhandled⟩
  took o ho hnew := by
    obtain ⟨u, hu, hfailed⟩ := h.took o ho hnew
    exact ⟨u, hu.after (hl.losesAtMost h.sound o.id), hfailed⟩
  rests id hgone hold := by
    obtain ⟨hloses, hout⟩ := h.rests id hgone hold
    exact ⟨hloses.trans (hl.losesAtMost h.sound id), hout⟩

/-- The objects that are gone are forgotten, and then those that are new or changed are taken up. -/
theorem changed_of_diff {before now : List SceneObject} (hs : s.registry.Sound)
    (hc : CacheFrom known s.globals s.cache) (hd : s.differ.previous = Differ.byId before)
    (hknown : ∀ o, lastObject now o.id = some o → ∀ raw version g,
      o.stored? s.config.behaviorKey = some raw → readRecord raw = .ok (version, g) → known g) :
    let diff := (s.differ.update now).1
    let r := (diff.deleted.foldl (fun (s : Session) id => s.forget id)
      { s with differ := (s.differ.update now).2 }).takeUpAll diff.touched
    Changed known before now s r.2 r.1.2 := by
  intro diff r
  let s₁ : Session := { s with differ := (s.differ.update now).2 }
  let s₂ := diff.deleted.foldl (fun (s : Session) id => s.forget id) s₁
  have hstart (id : String) : LosesAtMostVersion id s s₁ := ⟨fun _ h => h, rfl⟩
  obtain ⟨hcarries, hkept, hgone⟩ := forgetAll_cases known (s := s₁) hs diff.deleted
  have hdeleted {id : String} : id ∈ diff.deleted ↔
      lastObject before id ≠ none ∧ lastObject now id = none := Differ.mem_deleted hd
  have htouched {o : SceneObject} : o ∈ diff.touched ↔ lastObject now o.id = some o ∧
      ∀ q, lastObject before o.id = some q → q.lastModified ≠ o.lastModified :=
    Differ.mem_touched hd
  obtain ⟨hcarries', hothers, htook⟩ := takeUpAll_cases known (s := s₂)
    (Differ.nodup_touched hd) (hcarries.sound hs) (hcarries.cache hc)
    fun o ho raw version g hraw =>
      hknown o (htouched.mp ho).1 raw version g (hcarries.config ▸ hraw)
  have hall : Carries known s₁ r.2 := hcarries.trans hcarries'
  have hids {id : String} (hid : id ∈ diff.touched.map (·.id)) :
      ∃ o, lastObject now id = some o ∧
        ∀ q, lastObject before id = some q → q.lastModified ≠ o.lastModified := by
    obtain ⟨o, ho, rfl⟩ := List.mem_map.mp hid
    exact ⟨o, htouched.mp ho⟩
  refine ⟨hall.sound hs, ?_, hall.config, hall.globals, hall.cache hc,
    fun id hbefore hnow => ?_, fun o ho hnew => ?_, fun id hstays hold => ?_⟩
  · rw [hall.differ]
    exact Differ.previous_update now s.differ
  · obtain ⟨hversion, hhandled⟩ := hgone id (hdeleted.mpr ⟨hbefore, hnow⟩)
    obtain ⟨hloses, -⟩ := hothers id fun hid => by
      obtain ⟨o, ho, -⟩ := hids hid
      rw [hnow] at ho
      nomatch ho
    exact ⟨hloses.version_none hversion, hloses.handled.trans hhandled⟩
  · obtain ⟨u, hu, hfailed⟩ := htook o (htouched.mpr ⟨ho, hnew⟩)
    have hkept : LosesAtMostVersion o.id s₁ s₂ := hkept o.id fun hid => by
      rw [(hdeleted.mp hid).2] at ho
      nomatch ho
    have hu : TookUp known o s₁ r.2 u := hu.before hkept hcarries.config hcarries.globals
    exact ⟨u, hu.before (hstart o.id) rfl rfl, hfailed⟩
  · have hkept : LosesAtMostVersion id s₁ s₂ := hkept id fun hid =>
      (hdeleted.mp hid).1 (hstays (hdeleted.mp hid).2)
    obtain ⟨hloses, hout⟩ := hothers id fun hid => by
      obtain ⟨o, ho, hnew⟩ := hids hid
      obtain ⟨q, hq, hsame⟩ := hold o ho
      exact hnew q hq hsame
    exact ⟨((hstart id).trans hkept).trans hloses, hout⟩

/-- A snapshot comes down to forgetting what is gone and taking up what is new or changed; what is
done then leaves the stores as they are. -/
theorem change_takeUpAll (now : List SceneObject) (s : Session) :
    let d := s.differ.update now
    let r := (d.1.deleted.foldl (fun (s : Session) id => s.forget id)
      { s with differ := d.2 }).takeUpAll d.1.touched
    (s.change now).1.installed = r.1.1 ∧ (s.change now).1.failed = r.1.2 ∧
      Leaves r.2 (s.change now).2 := by
  intro d r
  have hprune (keep : Bool) (s₁ : Session) : Leaves s₁ (if keep = true then s₁ else s₁.prune) := by
    split
    · exact .refl _
    · exact .prune _
  have hoverlaps (overlaps : Space.Overlaps Float) (s₁ : Session) : Leaves s₁ { s₁ with overlaps } :=
    .of_eq rfl rfl rfl rfl rfl rfl
  simp only [change]
  split
  · next hempty =>
    obtain ⟨⟨hcreated, hupdated⟩, hdeleted⟩ : (((s.differ.update now).1.created = [] ∧
        (s.differ.update now).1.updated = []) ∧ (s.differ.update now).1.deleted = []) := by
      simpa [SnapshotDiff.isEmpty] using hempty
    have hr : r = (([], []), { s with differ := d.2 }) := by
      simp [r, d, SnapshotDiff.touched, hcreated, hupdated, hdeleted, takeUpAll]
    rw [hr]
    exact ⟨rfl, rfl, .refl _⟩
  · exact ⟨rfl, rfl, (((hprune _ _).trans (.dispatchProperties _ _)).trans (hoverlaps _ _)).trans
      (.dispatchOverlaps _ _)⟩

theorem changed_of_change {before : List SceneObject} (now : List SceneObject)
    (hs : s.registry.Sound)
    (hc : CacheFrom known s.globals s.cache) (hd : s.differ.previous = Differ.byId before)
    (hknown : ∀ o, lastObject now o.id = some o → ∀ raw version g,
      o.stored? s.config.behaviorKey = some raw → readRecord raw = .ok (version, g) → known g) :
    Changed known before now s (s.change now).2 (s.change now).1.failed := by
  obtain ⟨-, hfailed, hleaves⟩ := change_takeUpAll now s
  rw [hfailed]
  exact (changed_of_diff hs hc hd hknown).after hleaves

end Session

end Tabletop
