import Tabletop.Proofs.Registry.Dispatch
import Tabletop.Proofs.Session.Leaving

/-! The runs of an object over a new installation that one hat is excepted from. The live run under
this hat goes on if the new graph does not start the hat itself; it does not matter whether the
graph has the hat or compiles at all. A hat that the graph starts gets a new run in the place of the
one that was to go on. All other runs of the object are cancelled. -/

namespace Tabletop

namespace Registry

variable {r : Registry} {object : String} {except : Option String} {a : RunRecord}

/-! ### Starting -/

/-- Of the runs from before, a start takes the one under its own hat off the record. -/
theorem Sound.mem_start_old (hr : r.Sound) (ha : a.run < r.runs) (object hat : String)
    (other : Option String) : a ∈ (r.start object hat other).registry.records ↔
      a ∈ r.records ∧ ¬(a.object = object ∧ a.hat = hat) := by
  cases hh : r.handler? object hat with
  | none =>
    have hstart : r.start object hat other = { registry := { r with runs := r.runs + 1 } } := by
      simp [start, hh]
    rw [hstart]
    refine ⟨fun hmem => ⟨hmem, ?_⟩, And.left⟩
    rintro ⟨rfl, rfl⟩
    exact not_mem_records_of_handler? hr.toTidy hh hmem
  | some h =>
    obtain ⟨i, hi, hfind⟩ := handler?_eq hh
    have hstart : (r.start object hat other).registry = { r with
        runs := r.runs + 1
        installed := Keyed.modify object
          (fun i => { i with handlers := setLive hat (some r.runs) i.handlers }) r.installed } := by
      simp [start, hh, hi]
    have hnew : a ≠ ⟨object, hat, r.runs⟩ := fun h => Nat.ne_of_lt ha (congrArg RunRecord.run h)
    rw [hstart, hr.mem_records_start hi hfind, or_iff_left hnew]
    refine and_congr_right fun hmem => not_congr ⟨fun hl => ?_, ?_⟩
    · obtain ⟨ho, hk⟩ := hr.record_eq hi (List.mem_of_find?_eq_some hfind) hmem hl
      exact ⟨ho, hk.trans (hat_of_find? hfind)⟩
    · rintro ⟨ho, hk⟩
      have hlive := (hr.mem_records hi ho).mp hmem
      rw [hk] at hlive
      exact ((hr.first _ (hr.installed?.mp hi)).find? hfind).mp hlive

theorem Sound.mem_startAll_old (hr : r.Sound) (ha : a.run < r.runs) (hits : List (String × String))
    (other : Option String) : a ∈ (r.startAll hits other).registry.records ↔
      a ∈ r.records ∧ (a.object, a.hat) ∉ hits := by
  induction hits generalizing r with
  | nil => simp [startAll]
  | cons hit rest ih =>
    have hstart := start_honest hr hit.1 hit.2 other
    rw [startAll_cons]
    refine (ih (hstart.sound hr) (Nat.lt_of_lt_of_le ha hstart.timely.le)).trans ?_
    rw [hr.mem_start_old ha, List.mem_cons, not_or, and_assoc, Prod.ext_iff]

/-! ### Taking out and putting back -/

theorem tidy_detach (hr : r.Tidy) (object : String) (except : Option String) :
    (r.detach object except).2.registry.Tidy := by
  obtain ⟨i, -, h⟩ | ⟨-, h⟩ := detach_eq object except r
  · rw [h]
    exact hr.erase object
  · rw [h]
    exact hr

/-- Of the runs of an object that is taken out and put back, those under the excepted hat stay on
record. -/
theorem Sound.mem_restored (hr : r.Sound) (ha : a ∈ r.records) {r' : Registry}
    (h : Restored object (r.detach object except).1 (r.detach object except).2.registry r') :
    a ∈ r'.records ↔ (a.object = object → except = some a.hat) := by
  rw [h.records]
  obtain ⟨i, hi, hd⟩ | ⟨hi, hd⟩ := detach_eq object except r
  · rw [hd, mem_records_erase]
    by_cases ho : a.object = object
    · simp only [ho, ne_eq, not_true_eq_false, false_and, false_or, true_and, forall_const]
      constructor
      · rintro ⟨s, hs, hk, -⟩
        obtain ⟨g, hg, rfl⟩ := Option.map_eq_some_iff.mp hs
        have hexcept := List.find?_some hg
        exact (beq_iff_eq.mp hexcept).trans (congrArg some hk)
      · rintro rfl
        -- A live run is under the first handler of its hat, and that one survives.
        have hkept : ∀ g ∈ i.handlers.eraseP (some a.hat == some ·.hat), g.live ≠ some a.run := by
          intro g hg hl
          have hhat := (hr.record_eq hi (List.mem_of_mem_eraseP hg) ha hl).2
          have hsame :
              (fun h : InstalledHandler => some a.hat == some h.hat) = (·.hat == a.hat) := by
            funext h
            simp [Bool.beq_eq_decide_eq, eq_comm]
          rw [hsame] at hg
          cases ((hr.first _ (hr.installed?.mp hi)).eraseP hg hhat.symm).symm.trans hl
        obtain ⟨g, hg, hk, hl⟩ := (hr.mem_survivor hi ho).mp ⟨ha, hkept⟩
        exact ⟨_, Option.map_eq_some_iff.mpr ⟨g, hg, rfl⟩, hk, hl⟩
    · simp [ho, ha]
  · have ho : a.object ≠ object := fun ho => not_mem_records (ho ▸ hi) ha
    rw [hd]
    simp [ho, ha]

/-- The hats that a graph starts when it is installed. -/
def startedHats (freshClone : Bool) (p : Procedure) : List String :=
  p.immediateHats ++ if freshClone then p.cloneHats else []

/-- The runs of an object that stay on record over a new installation. -/
theorem Sound.mem_reinstall_old (hr : r.Sound) (ha : a ∈ r.records) (object : String)
    (version : Nat) (except : Option String) (freshClone : Bool)
    (compiled : Except CompileError Compiled) :
    a ∈ (r.reinstall object version except freshClone compiled).registry.records ↔
      (a.object = object → except = some a.hat ∧
        ∀ k, compiled = .ok k → a.hat ∉ startedHats freshClone k.procedure) := by
  have hempty := installed?_detach object except r
  have htidy := tidy_detach hr.toTidy object except
  cases compiled with
  | error e =>
    refine (hr.mem_restored ha (restored_keep htidy hempty version _)).trans ?_
    simp
  | ok k =>
    have hrestored := restored_install htidy hempty version k (r.detach object except).1
    have hhonest : Honest r ((r.detach object except).2.andThen fun q =>
        { registry := q.install object version k (r.detach object except).1 }) :=
      detach_honest hr fun q hq ho => restored_install hq ho version k _
    have hsound : (r.installing object version except k).Sound := hhonest.sound hr
    have hold : a.run < (r.installing object version except k).runs :=
      Nat.lt_of_lt_of_le (hr.counted a ha) hhonest.timely.le
    refine (hsound.mem_startAll_old hold
      ((startedHats freshClone k.procedure).map fun hat => (object, hat)) none).trans ?_
    rw [show a ∈ (r.installing object version except k).records ↔ _ from
      hr.mem_restored ha hrestored]
    by_cases ho : a.object = object
    · simp [ho]
    · simp [ho, Ne.symm ho]

end Registry

namespace Session

open Digest (sha256)

variable {s : Session} {started : List RunRecord}

/-! ### Installing in a session -/

/-- An installation is a call of the registry, next to which the cache may grow and a write may be
queued. -/
theorem sameRuns_install (o : SceneObject) (g : Graph) (version : Nat) (except : Option String)
    (s : Session) : let q := s.cache.getOrCompile sha256 s.globals g
      SameRuns (dispatch (Registry.reinstall o.id version except (s.isFreshClone o) q.1)
        { s with cache := q.2 }).2 (s.install o g version except).2 := by
  simp only [install]
  generalize s.cache.getOrCompile sha256 s.globals g = q
  obtain ⟨compiled, cache⟩ := q
  cases compiled with
  | error e => exact (AsBefore.refl _).sameRuns
  | ok k =>
    simp only
    split
    · exact (asBefore_write _ _ _).sameRuns
    · exact (AsBefore.refl _).sameRuns

/-- Whether installing a graph starts a hat of it. -/
def Starts (s : Session) (o : SceneObject) (g : Graph) (hat : String) : Prop :=
  ∃ k, (s.cache.getOrCompile sha256 s.globals g).1 = .ok k ∧
    hat ∈ Registry.startedHats (s.isFreshClone o) k.procedure

/-- An installation takes no execution away; it may cancel some. -/
theorem mem_unfinished_install {o : SceneObject} {g : Graph} {version : Nat}
    {except : Option String} {e : Nat × RunRecord} (he : e ∈ s.unfinished) :
    e ∈ (s.install o g version except).2.unfinished := by
  rw [(sameRuns_install o g version except s).unfinished]
  obtain ⟨launched, ready, cancellations, hdispatch, -⟩ := dispatch_eq
    (Registry.reinstall o.id version except (s.isFreshClone o)
      (s.cache.getOrCompile sha256 s.globals g).1)
    { s with cache := (s.cache.getOrCompile sha256 s.globals g).2 }
  rw [hdispatch, unfinished, List.filterMap_append]
  exact List.mem_append_left _ he

/-- Of the runs that are live before an installation, those that are live after it. -/
theorem History.mem_active_install (h : History s started) (o : SceneObject) (g : Graph)
    (version : Nat) (except : Option String) : let s' := (s.install o g version except).2
    (∀ a, a ∈ s'.active ↔ a ∈ s'.registry.records) ∧
    ∀ a ∈ s.active, (a ∈ s'.registry.records ↔
      (a.object = o.id → except = some a.hat ∧ ¬s.Starts o g a.hat)) := by
  have hinstall := sameRuns_install o g version except s
  have hcached : SameRuns s { s with cache := (s.cache.getOrCompile sha256 s.globals g).2 } :=
    ⟨rfl, rfl, rfl, Nat.le_refl _⟩
  have hcalled := (History.other hcached h).call (.reinstall o.id version except (s.isFreshClone o)
    (s.cache.getOrCompile sha256 s.globals g).1)
  refine ⟨(History.other hinstall hcalled).accounted.exact, fun a ha => ?_⟩
  have hrecord : a ∈ s.registry.records := (h.accounted.exact a).mp ha
  rw [hinstall.registry, (dispatch_fields _ _).1]
  refine (h.accounted.sound.mem_reinstall_old hrecord ..).trans ?_
  simp only [Starts, not_exists, not_and]

/-- A run that is live under the excepted hat is still live after the installation, and not
cancelled, exactly if the graph does not start this hat. Any other live run of the object is
cancelled, and those of other objects go on. -/
theorem History.install_survivor (h : History s started) (o : SceneObject) (g : Graph)
    (version : Nat) (hat : String) : let s' := (s.install o g version (some hat)).2
    ∀ a ∈ s.active,
      ((a.object = o.id → a.hat = hat ∧ ¬s.Starts o g hat) →
        a ∈ s'.active ∧ a ∈ s'.registry.records) ∧
      (a.object = o.id → (a.hat ≠ hat ∨ s.Starts o g hat) →
        s'.cancellations.has a.run ∧ a ∉ s'.registry.records) := by
  intro s' a ha
  obtain ⟨hexact, hrecords⟩ := h.mem_active_install o g version (some hat)
  have hstays : a ∈ s'.registry.records ↔ (a.object = o.id → a.hat = hat ∧ ¬s.Starts o g hat) := by
    refine (hrecords a ha).trans (imp_congr_right fun _ => ?_)
    rw [Option.some.injEq, eq_comm]
    exact and_congr_right fun hhat => by rw [hhat]
  refine ⟨fun hgoes => ?_, fun ho hends => ?_⟩
  · have hrecord := hstays.mpr hgoes
    exact ⟨(hexact a).mpr hrecord, hrecord⟩
  · have hrecord : a ∉ s'.registry.records := fun hmem => by
      obtain ⟨hhat, hnot⟩ := hstays.mp hmem ho
      exact hends.elim (· hhat) hnot
    refine ⟨?_, hrecord⟩
    -- The execution is still there, and it is not active.
    obtain ⟨⟨t, ht⟩, -⟩ := mem_active.mp ha
    cases hc : s'.cancellations.has a.run with
    | true => rfl
    | false =>
      exact absurd ((hexact a).mp (mem_active.mpr ⟨⟨t, mem_unfinished_install ht⟩, hc⟩)) hrecord

/-- A session in which both scripts of the relay run: one of them since it was installed, and the
other since the message was sent. -/
def relayed : Session :=
  [.reinstall "die" 1 none false (.ok relay), .broadcast "go" none].foldl
    (fun s (c : Registry.Call) => (s.dispatch c.perform).2) { config := {}, scene := {} }

theorem history_relayed : History relayed [⟨"die", "starts", 0⟩, ⟨"die", "hears", 1⟩] :=
  .call (.broadcast "go" none)
    (.call (.reinstall "die" 1 none false (.ok relay)) (.fresh rfl rfl rfl))

/-- A script under a hat that starts it at once, which sets a variable. -/
def opening (hat : String) : Graph := ⟨[⟨hat, "event_immediately", [], [],
  some ⟨"set", "data_setvariableto", [("VARIABLE", .string "a")], [], none⟩⟩]⟩

/-- A graph with another script to start at once replaces the one script of the relay, and the other
one goes on. -/
theorem install_survivor_relayed :
    History relayed [⟨"die", "starts", 0⟩, ⟨"die", "hears", 1⟩] ∧
      relayed.active = [⟨"die", "starts", 0⟩, ⟨"die", "hears", 1⟩] ∧
      let s' := (relayed.install { id := "die" } (opening "opens") 2 (some "hears")).2
      ⟨"die", "hears", 1⟩ ∈ s'.active ∧ s'.cancellations.has 0 := by
  have hactive : relayed.active = [⟨"die", "starts", 0⟩, ⟨"die", "hears", 1⟩] := by decide
  have hnot : ¬relayed.Starts { id := "die" } (opening "opens") "hears" := by
    rintro ⟨k, hk, hhat⟩
    cases hk
    revert hhat
    decide
  have h := history_relayed.install_survivor { id := "die" } (opening "opens") 2 "hears"
  refine ⟨history_relayed, hactive, ?_, ?_⟩
  · exact ((h ⟨"die", "hears", 1⟩ (by simp [hactive])).1 fun _ => ⟨rfl, hnot⟩).1
  · exact ((h ⟨"die", "starts", 0⟩ (by simp [hactive])).2 rfl (.inl (by decide))).1

/-- A graph that starts the excepted hat itself cancels the run that was to go on. -/
theorem superseded_survivor :
    ¬∀ s started, History s started → ∀ (o : SceneObject) (g : Graph) (version : Nat),
      ∀ a ∈ s.active, a.object = o.id → a ∈ (s.install o g version (some a.hat)).2.active := by
  intro hall
  have hactive : (⟨"die", "starts", 0⟩ : RunRecord) ∈ relayed.active := by decide
  obtain ⟨hexact, hrecords⟩ :=
    history_relayed.mem_active_install { id := "die" } (opening "starts") 2 (some "starts")
  have hsurvives := hall _ _ history_relayed { id := "die" } (opening "starts") 2 _ hactive rfl
  obtain ⟨-, hnot⟩ := (hrecords _ hactive).mp ((hexact _).mp hsurvives) rfl
  exact hnot ⟨_, rfl, by decide⟩

end Session

end Tabletop
