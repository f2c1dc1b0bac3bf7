import Tabletop.Proofs.Session.Changes

/-! Over any run of a session, the last snapshot, the stamps of processed records and what is
installed agree with the last record that was processed for each object, whatever scripts stop in
between. -/

namespace Tabletop

theorem RecordStamp.not_supersedes_self (stamp : RecordStamp) :
    stamp.supersedes stamp = false := by
  cases stamp <;> simp [supersedes]

namespace Session

variable {s s' : Session} {known : Graph → Prop}

/-! ### Runs -/

/-- The record that an object has in a snapshot. -/
def recordIn (key : String) (snapshot : List SceneObject) (id : String) : Option Json :=
  (lastObject snapshot id).bind (·.stored? key)

/-- A record that was processed, and whether that failed. -/
structure Processed where
  raw : Json
  failed : Bool

/-- The record that was processed last for an object, after another snapshot. It is forgotten with
the record of the object, and replaced by one that supersedes it. -/
def processed (key : String) (now : List SceneObject) (failed : List String)
    (last : String → Option Processed) (id : String) : Option Processed :=
  (recordIn key now id).map fun raw => match last id with
    | none => ⟨raw, failed.contains id⟩
    | some p =>
      if (RecordStamp.ofJson raw).supersedes (RecordStamp.ofJson p.raw) then
        ⟨raw, failed.contains id⟩
      else p

/-- The graph of some record in a snapshot. -/
def Stored (key : String) (snapshots : List (List SceneObject)) (g : Graph) : Prop :=
  ∃ snapshot ∈ snapshots, ∃ o ∈ snapshot, ∃ raw version,
    o.stored? key = some raw ∧ readRecord raw = .ok (version, g)

/-- A change of other things than those that snapshots are taken up in, such as the clock. -/
structure KeepsUptakeState (s s' : Session) : Prop where
  registry : s'.registry = s.registry
  handled : s'.handled = s.handled
  differ : s'.differ = s.differ
  config : s'.config = s.config
  globals : s'.globals = s.globals
  cache : s'.cache = s.cache

/-- An object whose `lastModified` did not move is the same in both snapshots. -/
def Steady (before now : List SceneObject) : Prop :=
  ∀ id q o, lastObject before id = some q → lastObject now id = some o →
    q.lastModified = o.lastModified → q = o

/-- What may happen to a session that takes in snapshots, the last one first, with what was processed
last for each object. -/
inductive Run : List (List SceneObject) → (String → Option Processed) → Session → Prop where
  | fresh {s : Session} : Fresh s → s.handled = [] → s.differ = {} → s.cache.entries = [] →
    Run [] (fun _ => none) s
  | change {snapshots : List (List SceneObject)} {last : String → Option Processed} {s : Session}
    (now : List SceneObject) : Run snapshots last s → Steady (snapshots.headD []) now →
    Run (now :: snapshots) (processed s.config.behaviorKey now (s.change now).1.failed last)
      (s.change now).2
  | told {snapshots : List (List SceneObject)} {last : String → Option Processed} {s : Session}
    (e : SceneEvent) : Run snapshots last s → (∀ now, e ≠ .objects now) →
    Run snapshots last (s.apply e)
  | turn {snapshots : List (List SceneObject)} {last : String → Option Processed} {s s' : Session} :
    Run snapshots last s → s.step? = some s' → Run snapshots last s'
  | elsewhere {snapshots : List (List SceneObject)} {last : String → Option Processed} {s s' : Session} :
    Run snapshots last s → KeepsUptakeState s s' → Run snapshots last s'

variable {snapshots : List (List SceneObject)} {last : String → Option Processed} {id key : String}
  {now : List SceneObject} {failed : List String} {raw : Json} {p : Processed}

theorem processed_of_absent (h : recordIn key now id = none) :
    processed key now failed last id = none := by
  rw [processed, h, Option.map_none]

theorem processed_of_seen (h : recordIn key now id = some raw) (hp : last id = some p)
    (hold : (RecordStamp.ofJson raw).supersedes (RecordStamp.ofJson p.raw) = false) :
    processed key now failed last id = some p := by
  simp [processed, h, hp, hold]

theorem processed_of_news (h : recordIn key now id = some raw)
    (hnew : ∀ p, last id = some p →
      (RecordStamp.ofJson raw).supersedes (RecordStamp.ofJson p.raw) = true) :
    processed key now failed last id = some ⟨raw, failed.contains id⟩ := by
  cases hp : last id with
  | none => simp [processed, h, hp]
  | some p => simp [processed, h, hp, hnew p hp]

/-- A record that stands in the last snapshot does not supersede the last one that was processed. -/
theorem processed_settled (h : recordIn key now id = some raw) :
    ∃ p, processed key now failed last id = some p ∧
      (RecordStamp.ofJson raw).supersedes (RecordStamp.ofJson p.raw) = false := by
  by_cases hseen : ∃ p, last id = some p ∧
      (RecordStamp.ofJson raw).supersedes (RecordStamp.ofJson p.raw) = false
  · obtain ⟨p, hp, hold⟩ := hseen
    exact ⟨p, processed_of_seen h hp hold, hold⟩
  · refine ⟨_, processed_of_news h fun p hp => ?_, RecordStamp.not_supersedes_self _⟩
    by_contra hold
    exact hseen ⟨p, hp, Bool.eq_false_iff.mpr hold⟩

/-! ### The runs of the event loop -/

theorem Run.passage (h : Run snapshots last s) (hs : Passage s s') : Run snapshots last s' := by
  induction hs with
  | refl => exact h
  | tail _ hp ih =>
    cases hp with
    | turn hs => exact ih.turn hs
    | idle => exact ih.elsewhere ⟨rfl, rfl, rfl, rfl, rfl, rfl⟩

/-- Each snapshot among some events is steady after the one before it. -/
def AllSteady : List SceneObject → List SceneEvent → Prop
  | _, [] => True
  | before, .objects now :: rest => Steady before now ∧ AllSteady now rest
  | before, _ :: rest => AllSteady before rest

/-- Taking in events is such a run. -/
theorem Run.of_run (events : List SceneEvent) (h : Run snapshots last s)
    (hsteady : AllSteady (snapshots.headD []) events) :
    ∃ snapshots' last', Run snapshots' last' (s.run events) := by
  induction events generalizing snapshots last s with
  | nil => exact ⟨_, _, h.passage (passage_waitUntil ..)⟩
  | cons e rest ih =>
    have hreceived : Run snapshots last s.receive := h.passage (passage_waitUntil ..)
    cases e with
    | objects now => exact ih (hreceived.change now hsteady.1) hsteady.2
    | _ => exact ih (hreceived.told _ nofun) hsteady

/-! ### What holds of them -/

/-- What a session has of an object is what the last record processed for it gave. -/
structure Agrees (known : Graph → Prop) (s : Session) (id : String) (p : Option Processed) :
    Prop where
  handled : s.handled.lookup id = p.map (RecordStamp.ofJson ·.raw)
  version : ∀ v, s.registry.version? id = some v → ∃ q g, p = some q ∧ q.failed = false ∧
    readRecord q.raw = .ok (v, g)
  failed : ∀ q, p = some q → q.failed = true → Fails s.globals q.raw
  compiled : ∀ q, p = some q → q.failed = false → ∃ v, Compiles known s.globals q.raw v

theorem Agrees.mono {known' : Graph → Prop} {p : Option Processed} (h : Agrees known s id p)
    (hknown : ∀ g, known g → known' g) : Agrees known' s id p where
  handled := h.handled
  version := h.version
  failed := h.failed
  compiled q hq hfailed := by
    obtain ⟨v, g, g', p, hread, hg', hp, hhash⟩ := h.compiled q hq hfailed
    exact ⟨v, g, g', p, hread, hknown g' hg', hp, hhash⟩

theorem Agrees.losesAtMost {p : Option Processed} (h : Agrees known s id p) (hf : LosesAtMostVersion id s s')
    (hglobals : s'.globals = s.globals) : Agrees known s' id p where
  handled := hf.handled.trans h.handled
  version v hv := h.version v (hf.version v hv)
  failed q hq hfailed := hglobals ▸ h.failed q hq hfailed
  compiled q hq hfailed := hglobals ▸ h.compiled q hq hfailed

/-- An object without a record. -/
theorem agrees_none (hhandled : s.handled.lookup id = none)
    (hversion : ∀ v, s.registry.version? id ≠ some v) : Agrees known s id none :=
  ⟨hhandled, fun v hv => absurd hv (hversion v), nofun, nofun⟩

/-- A snapshot keeps up with what is processed in it. An object that is not looked at has the record
that it had. -/
theorem Changed.agrees {before : List SceneObject}
    (hc : Changed known before now s s' failed) (h : Agrees known s id (last id))
    (habsent : recordIn s.config.behaviorKey before id = none → last id = none)
    (hsettled : ∀ raw, recordIn s.config.behaviorKey before id = some raw → ∃ p, last id = some p ∧
      (RecordStamp.ofJson raw).supersedes (RecordStamp.ofJson p.raw) = false)
    (hsame : ∀ q o, lastObject before id = some q → lastObject now id = some o →
      q.lastModified = o.lastModified → q = o) :
    Agrees known s' id (processed s.config.behaviorKey now failed last id) := by
  set key := s.config.behaviorKey with hkey
  have hnone (hp : last id = none) (hf : LosesAtMostVersion id s s') : Agrees known s' id none :=
    hp ▸ h.losesAtMost hf hc.globals
  cases hnow : lastObject now id with
  | none =>
    have hrecord : recordIn key now id = none := by rw [recordIn, hnow, Option.bind_none]
    rw [processed_of_absent hrecord]
    by_cases hbefore : lastObject before id = none
    · refine hnone (habsent ?_) (hc.rests id (fun _ => hbefore) ?_).1
      · rw [recordIn, hbefore, Option.bind_none]
      · rw [hnow]
        exact nofun
    · obtain ⟨hversion, hhandled⟩ := hc.gone id hbefore hnow
      exact agrees_none hhandled fun v hv => by
        rw [hversion] at hv
        nomatch hv
  | some o =>
    obtain rfl := id_of_lastObject hnow
    have hrecord : recordIn key now o.id = o.stored? key := by rw [recordIn, hnow, Option.bind_some]
    by_cases hold : ∃ q, lastObject before o.id = some q ∧ q.lastModified = o.lastModified
    · obtain ⟨q, hq, hmodified⟩ := hold
      obtain rfl := hsame q o hq hnow hmodified
      obtain ⟨hloses, -⟩ := hc.rests q.id (fun h => by rw [hnow] at h; nomatch h)
        fun o ho => ⟨q, hq, by rw [Option.some.inj (hnow.symm.trans ho)]⟩
      have hbefore : recordIn key before q.id = q.stored? key := by
        rw [recordIn, hq, Option.bind_some]
      cases hraw : q.stored? key with
      | none =>
        rw [processed_of_absent (hrecord.trans hraw)]
        exact hnone (habsent (hbefore.trans hraw)) hloses
      | some raw =>
        obtain ⟨p, hp, hsettled⟩ := hsettled raw (hbefore.trans hraw)
        rw [processed_of_seen (hrecord.trans hraw) hp hsettled, ← hp]
        exact h.losesAtMost hloses hc.globals
    · obtain ⟨u, hu, hfailed⟩ := hc.took o hnow fun q hq hmodified => hold ⟨q, hq, hmodified⟩
      have hnews {raw : Json} (hnews : IsNews s o raw) :
          processed key now failed last o.id = some ⟨raw, failed.contains o.id⟩ := by
        refine processed_of_news (hrecord.trans hnews.stored) fun p hp => hnews.newer _ ?_
        rw [h.handled, hp, Option.map_some]
      cases hu with
      | absent hraw hhandled hversion =>
        rw [processed_of_absent (hrecord.trans hraw)]
        refine agrees_none hhandled fun v hv => ?_
        -- Without a stamp no record was processed, so nothing was installed before.
        obtain ⟨hv, hunstamped⟩ := hversion v hv
        obtain ⟨p, g, hp, -⟩ := h.version v hv
        rw [h.handled, hp] at hunstamped
        nomatch hunstamped
      | seen hraw hstamp hold hloses =>
        obtain ⟨p, hp, rfl⟩ := Option.map_eq_some_iff.mp (h.handled.symm.trans hstamp)
        rw [processed_of_seen (hrecord.trans hraw) hp hold, ← hp]
        exact h.losesAtMost hloses hc.globals
      | @failed raw hn hhandled hfails hversion =>
        have hmem : failed.contains o.id = true := by simpa using hfailed.mpr rfl
        rw [hnews hn, hmem]
        refine ⟨hhandled, fun v hv => ?_, ?_, ?_⟩
        · rw [hversion] at hv
          nomatch hv
        · rintro _ ⟨⟩ -
          rw [hc.globals]
          exact hfails
        · rintro _ ⟨⟩ h
          nomatch h
      | @installed raw version hn hhandled hcompiles hversion =>
        have hmem : failed.contains o.id = false := by simpa using hfailed
        rw [hnews hn, hmem]
        refine ⟨hhandled, fun v hv => ?_, ?_, ?_⟩
        · obtain rfl := hversion v hv
          obtain ⟨g, g', p, hread, -⟩ := hcompiles
          exact ⟨_, g, rfl, rfl, hread⟩
        · rintro _ ⟨⟩ h
          nomatch h
        · rintro _ ⟨⟩ -
          rw [hc.globals]
          exact ⟨version, hcompiles⟩

/-- The stores of a session agree with the last snapshot and with what was processed. -/
structure Books (snapshots : List (List SceneObject)) (last : String → Option Processed)
    (s : Session) : Prop where
  sound : s.registry.Sound
  differ : s.differ.previous = Differ.byId (snapshots.headD [])
  cache : CacheFrom (Stored s.config.behaviorKey snapshots) s.globals s.cache
  absent : ∀ id, recordIn s.config.behaviorKey (snapshots.headD []) id = none → last id = none
  settled : ∀ id raw, recordIn s.config.behaviorKey (snapshots.headD []) id = some raw →
    ∃ p, last id = some p ∧
      (RecordStamp.ofJson raw).supersedes (RecordStamp.ofJson p.raw) = false
  agrees : ∀ id, Agrees (Stored s.config.behaviorKey snapshots) s id (last id)

theorem Books.leaves (h : Books snapshots last s) (hl : Leaves s s') : Books snapshots last s' where
  sound := (hl.registry h.sound).1
  differ := hl.differ ▸ h.differ
  cache := (hl.carries _).cache (hl.config ▸ h.cache)
  absent := hl.config ▸ h.absent
  settled := hl.config ▸ h.settled
  agrees id := (hl.config ▸ h.agrees id).losesAtMost (hl.losesAtMost h.sound id) hl.globals

theorem Books.change (h : Books snapshots last s) (now : List SceneObject)
    (hsame : Steady (snapshots.headD []) now) :
    Books (now :: snapshots) (processed s.config.behaviorKey now (s.change now).1.failed last)
      (s.change now).2 := by
  set key := s.config.behaviorKey with hkey
  set before := snapshots.headD [] with hbefore
  have hmono (g : Graph) (hg : Stored key snapshots g) : Stored key (now :: snapshots) g := by
    obtain ⟨snapshot, hmem, ho⟩ := hg
    exact ⟨snapshot, List.mem_cons_of_mem _ hmem, ho⟩
  have hcache : CacheFrom (Stored key (now :: snapshots)) s.globals s.cache := fun e he => by
    obtain ⟨g, hg, hhash, hcompile⟩ := h.cache e he
    exact ⟨g, hmono g hg, hhash, hcompile⟩
  have hc := changed_of_change now h.sound hcache h.differ
    fun o ho raw version g hraw hread =>
      ⟨now, List.mem_cons_self .., o, mem_of_lastObject ho, raw, version, hraw, hread⟩
  refine ⟨hc.sound, hc.differ, ?_, fun id hid => ?_, fun id raw hraw => ?_, fun id => ?_⟩
  · rw [hc.config]
    exact hc.cache
  · rw [hc.config] at hid
    exact processed_of_absent hid
  · rw [hc.config] at hraw
    exact processed_settled hraw
  · rw [hc.config, ← hkey]
    exact hc.agrees ((h.agrees id).mono hmono) (h.absent id) (h.settled id) (hsame id)

theorem books_of_fresh (h : Fresh s) (hh : s.handled = []) (hd : s.differ = {})
    (hc : s.cache.entries = []) : Books [] (fun _ => none) s where
  sound := h.registry ▸ Registry.sound_empty
  differ := by rw [hd]; rfl
  cache e he := by
    rw [hc] at he
    nomatch he
  absent _ _ := rfl
  settled id raw hraw := nomatch hraw
  agrees id := by
    refine agrees_none (by rw [hh]; rfl) fun v hv => ?_
    rw [h.registry] at hv
    nomatch hv

theorem leaves_apply {e : SceneEvent} (he : ∀ now, e ≠ .objects now) (s : Session) :
    Leaves s (s.apply e) := by
  cases e with
  | objects now => exact absurd rfl (he now)
  | selection ids => exact .select ids s
  | broadcast name targets => exact .call (c := .broadcast name targets) rfl s
  | signal name targets payload => exact .call (c := .signal name targets payload) rfl s

theorem Run.books (h : Run snapshots last s) : Books snapshots last s := by
  induction h with
  | fresh h hh hd hc => exact books_of_fresh h hh hd hc
  | change now _ hsame ih => exact ih.change now hsame
  | told e _ he ih => exact ih.leaves (leaves_apply he _)
  | turn _ hs ih => exact ih.leaves (.step hs)
  | elsewhere _ ha ih =>
    exact ih.leaves (.of_eq ha.registry ha.handled ha.differ ha.config ha.globals ha.cache)

/-- What is installed has a stamp, what has a stamp is in the last snapshot, and what an object has
installed is of the last record that was processed for it, if that did not fail. -/
theorem Run.matches_records (h : Run snapshots last s) (id : String) :
    (s.registry.installed? id ≠ none → s.handled.lookup id ≠ none) ∧
    (s.handled.lookup id ≠ none → lastObject (snapshots.headD []) id ≠ none) ∧
    (recordIn s.config.behaviorKey (snapshots.headD []) id = none →
      s.registry.installed? id = none) ∧
    (∀ p, last id = some p → p.failed = true →
      Fails s.globals p.raw ∧ s.registry.installed? id = none) ∧
    (∀ p, last id = some p → p.failed = false →
      ∃ version, Compiles (Stored s.config.behaviorKey snapshots) s.globals p.raw version) ∧
    ∀ i, s.registry.installed? id = some i →
      ∃ p g, last id = some p ∧ readRecord p.raw = .ok (i.version, g) := by
  have hb := h.books
  obtain ⟨hhandled, hversion, hfailed, hcompiled⟩ := hb.agrees id
  have hinstalled (i : Installed) (hi : s.registry.installed? id = some i) :
      ∃ p g, last id = some p ∧ p.failed = false ∧ readRecord p.raw = .ok (i.version, g) :=
    hversion i.version (by rw [Registry.version?, hi, Option.map_some])
  refine ⟨fun hi => ?_, fun hh hnow => ?_, fun hnone => ?_, fun p hp hf => ⟨hfailed p hp hf, ?_⟩,
    hcompiled, fun i hi => ?_⟩
  · obtain ⟨i, hi⟩ := Option.ne_none_iff_exists'.mp hi
    obtain ⟨p, g, hp, -⟩ := hinstalled i hi
    rw [hhandled, hp]
    exact Option.some_ne_none _
  · rw [hhandled, hb.absent id (by rw [recordIn, hnow, Option.bind_none])] at hh
    exact hh rfl
  · refine Option.eq_none_iff_forall_ne_some.mpr fun i hi => ?_
    obtain ⟨p, g, hp, -⟩ := hinstalled i hi
    rw [hb.absent id hnone] at hp
    cases hp
  · refine Option.eq_none_iff_forall_ne_some.mpr fun i hi => ?_
    obtain ⟨q, g, hq, hf', -⟩ := hinstalled i hi
    rw [Option.some.inj (hq.symm.trans hp), hf] at hf'
    cases hf'
  · obtain ⟨p, g, hp, -, hread⟩ := hinstalled i hi
    exact ⟨p, g, hp, hread⟩

/-- An object that is off the layers on which things collide, with a record. -/
def cup (lastModified : Nat) (record : Json) : SceneObject :=
  { id := "cup", layer := "MAP", lastModified, metadata := [("piecescript/behavior", record)] }

/-- The record of a script that hears "go". -/
def greeting : Json := BehaviorRecord.toJson
  ⟨1, .nested ⟨[⟨"one", "event_whenbroadcastreceived", [("BROADCAST_OPTION", .string "go")], [],
    none⟩]⟩⟩

/-- A later record, which lacks its graph. -/
def torn : Json := .object [("lastModified", .number (.integer 2))]

def emptyTable : Session := { config := {}, scene := {} }

/-- The script of a record is installed, and goes when a torn record takes its place. -/
theorem matches_records_cup : ∃ last s last' s', Run [[cup 1 greeting]] last s ∧
    s.registry.version? "cup" = some 1 ∧ s.handled.lookup "cup" ≠ none ∧
    Run [[cup 2 torn], [cup 1 greeting]] last' s' ∧
    last' "cup" = some ⟨torn, true⟩ ∧ s'.registry.installed? "cup" = none := by
  have hfirst := (Run.fresh (s := emptyTable) ⟨rfl, rfl, rfl, rfl⟩ rfl rfl rfl).change
    [cup 1 greeting] fun _ _ _ hq => by cases hq
  have hsecond := hfirst.change [cup 2 torn] fun id q o hq ho hsame => by
    obtain rfl := List.mem_singleton.mp (mem_of_lastObject hq)
    obtain rfl := List.mem_singleton.mp (mem_of_lastObject ho)
    exact absurd hsame (by decide : (1 : Nat) ≠ 2)
  have hversion : (emptyTable.change [cup 1 greeting]).2.registry.version? "cup" = some 1 := rfl
  have hinstalled : (emptyTable.change [cup 1 greeting]).2.registry.installed? "cup" ≠ none := by
    intro h
    rw [Registry.version?, h] at hversion
    cases hversion
  exact ⟨_, _, _, _, hfirst, hversion, (hfirst.matches_records "cup").1 hinstalled, hsecond, rfl,
    ((hsecond.matches_records "cup").2.2.2.1 ⟨torn, true⟩ rfl rfl).2⟩

end Session

end Tabletop
