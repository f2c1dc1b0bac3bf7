import Tabletop.Proofs.Registry.Records

/-! Every operation of the registry is honest: starting, stopping, installing anew with or without a
survivor, and each kind of dispatch. The end of a run takes off its own record and no other. -/

namespace Tabletop

namespace Registry

/-- All live runs, each with the object and the hat that it is of. -/
def records (r : Registry) : List RunRecord :=
  r.installed.flatMap fun e => e.2.handlers.filterMap fun h => h.live.map (⟨e.1, h.hat, ·⟩)

theorem mem_records {r : Registry} {a : RunRecord} :
    a ∈ r.records ↔ ∃ i, (a.object, i) ∈ r.installed ∧ LiveIn i.handlers a.hat a.run := by
  simp only [records, List.mem_flatMap, List.mem_filterMap, Option.map_eq_some_iff, LiveIn,
    Prod.exists]
  constructor
  · rintro ⟨o, i, hi, h, hh, run, hl, rfl⟩
    exact ⟨i, hi, h, hh, rfl, hl⟩
  · rintro ⟨i, hi, h, hh, hk, hl⟩
    exact ⟨a.object, i, hi, h, hh, a.run, hl, by rw [hk]⟩

/-- No object is installed twice, and only the first handler of a hat can be live. -/
structure Tidy (r : Registry) : Prop where
  keys : (Keyed.keys r.installed).Nodup
  first : ∀ e ∈ r.installed, FirstLive e.2.handlers

theorem nodup_live {hs : List InstalledHandler} (hf : FirstLive hs) (object : String) :
    (hs.filterMap fun h => h.live.map (⟨object, h.hat, ·⟩ : Nat → RunRecord)).Nodup := by
  refine List.Pairwise.filterMap _ (fun a b hab x hx y hy hxy => ?_) hf
  obtain ⟨n, hn, rfl⟩ := Option.map_eq_some_iff.mp hx
  obtain ⟨m, hm, rfl⟩ := Option.map_eq_some_iff.mp hy
  rw [hab (congrArg RunRecord.hat hxy)] at hm
  cases hm

/-- No run is on record twice. -/
theorem Tidy.nodup_records {r : Registry} (hr : r.Tidy) : r.records.Nodup := by
  refine List.nodup_flatMap.mpr ⟨fun e he => nodup_live (hr.first e he) e.1, ?_⟩
  refine (List.pairwise_map.mp hr.keys).imp fun hne a ha hb => ?_
  obtain ⟨h, -, hl⟩ := List.mem_filterMap.mp ha
  obtain ⟨g, -, hg⟩ := List.mem_filterMap.mp hb
  obtain ⟨n, -, rfl⟩ := Option.map_eq_some_iff.mp hl
  obtain ⟨m, -, hm⟩ := Option.map_eq_some_iff.mp hg
  exact hne (congrArg RunRecord.object hm).symm

/-- A tidy registry whose runs have numbers of their own, all of them given by it. -/
structure Sound (r : Registry) : Prop extends Tidy r where
  distinct : Order.Distinct r.records
  counted : ∀ a ∈ r.records, a.run < r.runs

/-- What an operation did to a registry, and whether its orders tell of it. -/
structure Honest (r : Registry) (d : Dispatched) : Prop where
  tidy : d.registry.Tidy
  timely : Order.Timely r.runs d.orders d.registry.runs
  records : ∀ a, a ∈ d.registry.records ↔ a ∈ d.orders.foldl Order.apply r.records
  /-- What is live was started last. -/
  latest : ∀ a ∈ d.registry.records, ∀ b ∈ d.orders.filterMap Order.launched?,
    b.object = a.object → b.hat = a.hat → b.run ≤ a.run

namespace Honest

variable {r : Registry} {d : Dispatched}

theorem sound (hr : r.Sound) (h : Honest r d) : d.registry.Sound := by
  obtain ⟨hd, hb⟩ := h.timely.distinct hr.distinct hr.counted
  refine ⟨h.tidy, fun a ha b hb => ?_, fun a ha => ?_⟩
  · exact hd a ((h.records a).mp ha) b ((h.records b).mp hb)
  · exact hb a ((h.records a).mp ha)

theorem refl (hr : r.Tidy) : Honest r { registry := r } :=
  ⟨hr, .done _, fun _ => Iff.rfl, by simp⟩

theorem andThen {op : Registry → Dispatched} (h : Honest r d)
    (h' : Honest d.registry (op d.registry)) : Honest r (d.andThen op) where
  tidy := h'.tidy
  timely := h.timely.append h'.timely
  records a := by
    show a ∈ (op d.registry).registry.records ↔ a ∈ (d.orders ++ (op d.registry).orders).foldl _ _
    rw [List.foldl_append, h'.records, Order.mem_foldl_congr h.records]
  latest a ha b hb := by
    have hb : b ∈ (d.orders ++ (op d.registry).orders).filterMap Order.launched? := hb
    rw [List.filterMap_append, List.mem_append] at hb
    intro ho hk
    rcases hb with hb | hb
    · rcases Order.mem_or_launched ((h'.records a).mp ha) with ha | ha
      · exact h.latest a ha b hb ho hk
      · have := (h.timely.fresh b hb).2
        have := (h'.timely.fresh a ha).1
        omega
    · exact h'.latest a ha b hb ho hk

end Honest

/-! ### Looking up -/

theorem Tidy.installed? {r : Registry} (hr : r.Tidy) {object : String} {i : Installed} :
    r.installed? object = some i ↔ (object, i) ∈ r.installed :=
  Keyed.lookup_eq_some hr.keys

/-- What is on record of an object is what is live among its handlers. -/
theorem Tidy.mem_records {r : Registry} (hr : r.Tidy) {object : String} {i : Installed}
    (hi : r.installed? object = some i) {a : RunRecord} (ha : a.object = object) :
    a ∈ r.records ↔ LiveIn i.handlers a.hat a.run := by
  subst ha
  rw [Registry.mem_records]
  constructor
  · rintro ⟨j, hj, h⟩
    rwa [Keyed.eq_of_mem hr.keys (hr.installed?.mp hi) hj]
  · exact fun h => ⟨i, hr.installed?.mp hi, h⟩

theorem not_mem_records {r : Registry} {a : RunRecord} (h : r.installed? a.object = none) :
    a ∉ r.records := by
  rw [mem_records]
  rintro ⟨i, hi, -⟩
  exact Keyed.lookup_eq_none.mp h (Keyed.mem_keys.mpr ⟨i, hi⟩)

/-- A run that is live under a handler of an object is of this object and of this hat. -/
theorem Sound.record_eq {r : Registry} (hr : r.Sound) {object : String} {i : Installed}
    (hi : r.installed? object = some i) {h : InstalledHandler} (hh : h ∈ i.handlers)
    {a : RunRecord} (ha : a ∈ r.records) (hl : h.live = some a.run) :
    a.object = object ∧ a.hat = h.hat := by
  have hm : (⟨object, h.hat, a.run⟩ : RunRecord) ∈ r.records :=
    (hr.toTidy.mem_records hi rfl).mpr ⟨h, hh, rfl, hl⟩
  rw [hr.distinct a ha _ hm rfl]
  exact ⟨rfl, rfl⟩

/-! ### Cancelling -/

theorem mem_foldl_cancelAll {hs : List InstalledHandler} {runs : List RunRecord} {a : RunRecord} :
    a ∈ (cancelAll hs).foldl Order.apply runs ↔ a ∈ runs ∧ ∀ h ∈ hs, h.live ≠ some a.run := by
  induction hs generalizing runs with
  | nil => simp [cancelAll]
  | cons h rest ih =>
    cases hl : h.live with
    | none =>
      have : cancelAll (h :: rest) = cancelAll rest := by simp [cancelAll, hl]
      rw [this, ih]
      simp [hl]
    | some run =>
      have : cancelAll (h :: rest) = .cancel run :: cancelAll rest := by simp [cancelAll, hl]
      rw [this, List.foldl_cons, ih]
      simp only [Order.apply, List.mem_filter, bne_iff_ne, List.forall_mem_cons, hl, ne_eq,
        Option.some.injEq]
      constructor
      · rintro ⟨⟨ha, hne⟩, h⟩; exact ⟨ha, fun e => hne e.symm, h⟩
      · rintro ⟨ha, hne, h⟩; exact ⟨⟨ha, fun e => hne e.symm⟩, h⟩

theorem timely_cancelAll {hs : List InstalledHandler} {n : Nat}
    (h : ∀ g ∈ hs, ∀ run, g.live = some run → run < n) : Order.Timely n (cancelAll hs) n := by
  induction hs with
  | nil => exact .done n
  | cons g rest ih =>
    have hr := ih fun x hx => h x (by simp [hx])
    cases hl : g.live with
    | none => simpa [cancelAll, hl] using hr
    | some run => simpa [cancelAll, hl] using hr.cancel (h g (by simp) run hl)

@[simp] theorem launched_cancelAll (hs : List InstalledHandler) :
    (cancelAll hs).filterMap Order.launched? = [] := by
  simp only [List.filterMap_eq_nil_iff, cancelAll, List.mem_filterMap, Option.map_eq_some_iff]
  rintro _ ⟨h, -, run, -, rfl⟩
  rfl

theorem Sound.live_lt {r : Registry} (hr : r.Sound) {object : String} {i : Installed}
    (hi : r.installed? object = some i) {h : InstalledHandler} (hh : h ∈ i.handlers) {run : Nat}
    (hl : h.live = some run) : run < r.runs :=
  hr.counted ⟨object, h.hat, run⟩ ((hr.toTidy.mem_records hi rfl).mpr ⟨h, hh, rfl, hl⟩)

/-! ### Changing what is installed -/

section Change

variable {r : Registry} {object : String}

theorem mem_records_erase {a : RunRecord} :
    a ∈ records { r with installed := Keyed.erase object r.installed } ↔
      a.object ≠ object ∧ a ∈ r.records := by
  simp only [mem_records, Keyed.mem_erase]
  constructor
  · rintro ⟨i, ⟨hi, ho⟩, h⟩; exact ⟨ho, i, hi, h⟩
  · rintro ⟨ho, i, hi, h⟩; exact ⟨i, ⟨hi, ho⟩, h⟩

theorem Tidy.erase (hr : r.Tidy) (object : String) :
    Tidy { r with installed := Keyed.erase object r.installed } where
  keys := Keyed.nodup_keys_erase object hr.keys
  first e he := hr.first e (Keyed.mem_erase.mp he).1

theorem mem_records_modify (hr : r.Tidy) {i : Installed} (hi : r.installed? object = some i)
    {f : Installed → Installed} {a : RunRecord} :
    a ∈ records { r with installed := Keyed.modify object f r.installed } ↔
      (a.object ≠ object ∧ a ∈ r.records) ∨
        (a.object = object ∧ LiveIn (f i).handlers a.hat a.run) := by
  simp only [mem_records, Keyed.mem_modify]
  constructor
  · rintro ⟨j, ⟨ho, hj⟩ | ⟨ho, b, hb, rfl⟩, h⟩
    · exact .inl ⟨ho, j, hj, h⟩
    · rw [Keyed.eq_of_mem hr.keys hb (hr.installed?.mp hi)] at h
      exact .inr ⟨ho, h⟩
  · rintro (⟨ho, j, hj, h⟩ | ⟨ho, h⟩)
    · exact ⟨j, .inl ⟨ho, hj⟩, h⟩
    · exact ⟨f i, .inr ⟨ho, i, hr.installed?.mp hi, rfl⟩, h⟩

theorem Tidy.modify (hr : r.Tidy) {i : Installed} (hi : r.installed? object = some i)
    {f : Installed → Installed} (hf : FirstLive (f i).handlers) :
    Tidy { r with installed := Keyed.modify object f r.installed } where
  keys := by rw [Keyed.keys_modify]; exact hr.keys
  first := by
    rintro ⟨o, j⟩ he
    rcases Keyed.mem_modify.mp he with ⟨-, hj⟩ | ⟨-, b, hb, rfl⟩
    · exact hr.first _ hj
    · rwa [Keyed.eq_of_mem hr.keys hb (hr.installed?.mp hi)]

theorem mem_records_put (hr : r.Tidy) {i : Installed} {a : RunRecord} :
    a ∈ records (r.put object i) ↔ (a.object ≠ object ∧ a ∈ r.records) ∨
      (a.object = object ∧ LiveIn i.handlers a.hat a.run) := by
  simp only [mem_records, put, Keyed.mem_put hr.keys]
  constructor
  · rintro ⟨j, ⟨ho, hj⟩ | ⟨ho, rfl⟩, h⟩
    · exact .inl ⟨ho, j, hj, h⟩
    · exact .inr ⟨ho, h⟩
  · rintro (⟨ho, j, hj, h⟩ | ⟨ho, h⟩)
    · exact ⟨j, .inl ⟨ho, hj⟩, h⟩
    · exact ⟨i, .inr ⟨ho, rfl⟩, h⟩

theorem Tidy.put (hr : r.Tidy) {i : Installed} (hi : FirstLive i.handlers) :
    Tidy (r.put object i) where
  keys := Keyed.nodup_keys_put object i hr.keys
  first := by
    rintro ⟨o, j⟩ he
    rcases (Keyed.mem_put hr.keys).mp he with ⟨-, hj⟩ | ⟨-, rfl⟩
    · exact hr.first _ hj
    · exact hi

end Change

/-! ### Starting -/

section Start

variable {r : Registry}

theorem handler?_eq {object hat : String} {h : InstalledHandler}
    (hh : r.handler? object hat = some h) :
    ∃ i, r.installed? object = some i ∧ i.handlers.find? (·.hat == hat) = some h := by
  simpa [handler?, Option.bind_eq_some_iff] using hh

/-- A start either launches one run in the place of the one before, or finds no handler. -/
theorem start_cases (object hat : String) (other : Option String) (r : Registry) :
    (∃ i h, r.installed? object = some i ∧ i.handlers.find? (·.hat == hat) = some h ∧
      r.start object hat other =
        { registry := { r with
            runs := r.runs + 1
            installed := Keyed.modify object
              (fun i => { i with handlers := setLive hat (some r.runs) i.handlers }) r.installed }
          orders := cancelAll [h] ++
            [.launch ⟨object, hat, other, h.handler.body, i.table, r.runs⟩]
          count := 1 }) ∨
      r.start object hat other = { registry := { r with runs := r.runs + 1 } } := by
  cases hh : r.handler? object hat with
  | none => right; simp [start, hh]
  | some h =>
    obtain ⟨i, hi, hf⟩ := handler?_eq hh
    left
    exact ⟨i, h, hi, hf, by simp [start, hh, hi]⟩

/-- After a start the new run is on record, in the place of the one that was live before. -/
theorem Sound.mem_records_start (hr : r.Sound) {object hat : String} {i : Installed}
    {h : InstalledHandler} (hi : r.installed? object = some i)
    (hh : i.handlers.find? (·.hat == hat) = some h) {a : RunRecord} :
    a ∈ records { r with
        runs := r.runs + 1
        installed := Keyed.modify object
          (fun i => { i with handlers := setLive hat (some r.runs) i.handlers }) r.installed } ↔
      (a ∈ r.records ∧ h.live ≠ some a.run) ∨ a = ⟨object, hat, r.runs⟩ := by
  have hmem : h ∈ i.handlers := List.mem_of_find?_eq_some hh
  have hhat : h.hat = hat := hat_of_find? hh
  have hf : FirstLive i.handlers := hr.first _ (hr.installed?.mp hi)
  refine (mem_records_modify (r := { r with runs := r.runs + 1 })
    ⟨hr.keys, hr.first⟩ hi).trans ?_
  have counted : a ∈ records { r with runs := r.runs + 1 } ↔ a ∈ r.records := Iff.rfl
  have hex : ∃ g ∈ i.handlers, g.hat = hat := ⟨h, hmem, hhat⟩
  rw [counted, hf.liveIn_setLive]
  by_cases ho : a.object = object
  · rw [hr.mem_records hi ho]
    by_cases hk : a.hat = hat
    · have old : LiveIn i.handlers hat a.run ↔ h.live = some a.run := hf.find? hh
      have new : a = ⟨object, hat, r.runs⟩ ↔ r.runs = a.run := by
        rw [← ho, ← hk]; cases a; simp [eq_comm]
      simp [ho, hk, old, new, hex]
    · have keep : LiveIn i.handlers a.hat a.run → h.live ≠ some a.run := fun hl hlive =>
        hk ((hr.record_eq hi hmem ((hr.mem_records hi ho).mpr hl) hlive).2.trans hhat)
      have hne : a ≠ ⟨object, hat, r.runs⟩ := fun e => hk (congrArg RunRecord.hat e)
      simpa [ho, hk, hne] using keep
  · have hne : a ≠ ⟨object, hat, r.runs⟩ := fun e => ho (congrArg RunRecord.object e)
    simpa [ho, hne] using fun ha hl => ho (hr.record_eq hi hmem ha hl).1

theorem start_honest (hr : r.Sound) (object hat : String) (other : Option String) :
    Honest r (r.start object hat other) := by
  obtain ⟨i, h, hi, hh, hs⟩ | hs := start_cases object hat other r
  · rw [hs]
    have hmem : h ∈ i.handlers := List.mem_of_find?_eq_some hh
    have hf : FirstLive i.handlers := hr.first _ (hr.installed?.mp hi)
    refine ⟨?_, ?_, fun a => ?_, fun a ha b hb ho hk => ?_⟩
    · exact Tidy.modify (r := { r with runs := r.runs + 1 }) ⟨hr.keys, hr.first⟩ hi
        (hf.setLive hat _)
    · refine (timely_cancelAll ?_).append (.launch (Nat.le_refl _) (.done _))
      simp only [List.mem_singleton, forall_eq]
      exact fun run hl => hr.live_lt hi hmem hl
    · rw [hr.mem_records_start hi hh, List.foldl_append, List.foldl_cons, List.foldl_nil,
        Order.apply, List.mem_append, mem_foldl_cancelAll]
      simp [Launch.record]
    · rw [List.filterMap_append, launched_cancelAll] at hb
      obtain rfl : b = ⟨object, hat, r.runs⟩ := by simpa [Order.launched?, Launch.record] using hb
      rcases (hr.mem_records_start hi hh).mp ha with ⟨ha, hl⟩ | rfl
      · -- the run that was live before is not on record any more
        have hlive := (hr.mem_records hi ho.symm).mp ha
        rw [← show hat = a.hat from hk] at hlive
        exact absurd ((hf.find? hh).mp hlive) hl
      · exact Nat.le_refl _
  · rw [hs]
    exact ⟨⟨hr.keys, hr.first⟩, .skip (Nat.le_succ _) (.done _), fun _ => Iff.rfl, by simp⟩

theorem startAll_honest (hr : r.Sound) (hits : List (String × String)) (other : Option String) :
    Honest r (r.startAll hits other) := by
  suffices ∀ d : Dispatched, Honest r d →
      Honest r (hits.foldl (fun d hit => d.andThen (start hit.1 hit.2 other)) d) from
    this _ (.refl hr.toTidy)
  induction hits with
  | nil => exact fun d hd => hd
  | cons hit rest ih => exact fun d hd => ih _ (hd.andThen (start_honest (hd.sound hr) _ _ _))

theorem dispatch_honest (hr : r.Sound) (wants : String → Trigger → Bool) (other : Option String) :
    Honest r (r.dispatch wants other) :=
  startAll_honest hr _ other

theorem collision_honest (hr : r.Sound) (a b : String) (phase : CollisionPhase) :
    Honest r (r.collision a b phase) :=
  have first := dispatch_honest hr _ (some b)
  first.andThen (dispatch_honest (first.sound hr) _ (some a))

end Start

/-! ### Stopping -/

section Stop

variable {r : Registry}

theorem FirstLive.filter {hs : List InstalledHandler} (hf : FirstLive hs)
    (p : InstalledHandler → Bool) : FirstLive (hs.filter p) :=
  hf.sublist List.filter_sublist

theorem liveIn_filter {hs : List InstalledHandler} {except : Option String} {hat : String}
    {run : Nat} : LiveIn (hs.filter fun h => except == some h.hat) hat run ↔
      except = some hat ∧ LiveIn hs hat run := by
  simp only [LiveIn, List.mem_filter, beq_iff_eq]
  constructor
  · rintro ⟨h, ⟨hh, he⟩, rfl, hl⟩; exact ⟨he, h, hh, rfl, hl⟩
  · rintro ⟨he, h, hh, rfl, hl⟩; exact ⟨h, ⟨hh, he⟩, rfl, hl⟩

/-- An operation that drops some handlers of an object, cancels their runs and starts nothing. -/
theorem honest_of_dropped (hr : r.Sound) {object : String} {i : Installed}
    (hi : r.installed? object = some i) (others : List InstalledHandler)
    (hothers : ∀ h ∈ others, h ∈ i.handlers) {d : Dispatched}
    (horders : d.orders = cancelAll others) (htidy : d.registry.Tidy) (hruns : d.registry.runs = r.runs)
    (hrecords : ∀ a, a ∈ d.registry.records ↔ a ∈ r.records ∧ ∀ h ∈ others, h.live ≠ some a.run) :
    Honest r d where
  tidy := htidy
  timely := by
    rw [horders, hruns]
    exact timely_cancelAll fun h hh run hl => hr.live_lt hi (hothers h hh) hl
  records a := by rw [hrecords, horders, mem_foldl_cancelAll]
  latest a _ b hb := by rw [horders, launched_cancelAll] at hb; cases hb

theorem stop_honest (hr : r.Sound) (object : String) (except : Option String) :
    Honest r (r.stop object except) := by
  cases hi : r.installed? object with
  | none => simpa [stop, hi] using Honest.refl hr.toTidy
  | some i =>
    have hf : FirstLive i.handlers := hr.first _ (hr.installed?.mp hi)
    refine honest_of_dropped hr hi (i.handlers.filter fun h => except != some h.hat)
      (fun h hh => (List.mem_filter.mp hh).1) (by simp [stop, hi]) ?_ (by simp [stop, hi])
      fun a => ?_
    · simp only [stop, hi]
      split
      · exact hr.erase object
      · exact hr.modify hi (hf.filter _)
    · have now : a ∈ (r.stop object except).registry.records ↔
          (a.object ≠ object ∧ a ∈ r.records) ∨
            (a.object = object ∧ except = some a.hat ∧ LiveIn i.handlers a.hat a.run) := by
        rw [← liveIn_filter]
        simp only [stop, hi]
        split
        · next he =>
          rw [mem_records_erase, List.isEmpty_iff.mp he]
          simp [LiveIn]
        · exact mem_records_modify hr.toTidy hi
      rw [now]
      by_cases ho : a.object = object
      · rw [hr.mem_records hi ho]
        simp only [ho, ne_eq, not_true_eq_false, false_and, true_and, false_or]
        constructor
        · rintro ⟨rfl, hl⟩
          refine ⟨hl, fun h hh hlive => ?_⟩
          obtain ⟨hh, hne⟩ := List.mem_filter.mp hh
          exact (bne_iff_ne.mp hne)
            (congrArg some (hr.record_eq hi hh ((hr.mem_records hi ho).mpr hl) hlive).2)
        · rintro ⟨⟨h, hh, hk, hl⟩, hdrop⟩
          refine ⟨Classical.byContradiction fun hne => hdrop h ?_ hl, h, hh, hk, hl⟩
          exact List.mem_filter.mpr ⟨hh, by simpa [hk] using hne⟩
      · have hkeep (ha : a ∈ r.records) (h : InstalledHandler)
            (hh : h ∈ i.handlers.filter fun h => except != some h.hat) : h.live ≠ some a.run :=
          fun hl => ho (hr.record_eq hi (List.mem_filter.mp hh).1 ha hl).1
        simpa [ho] using fun ha h hh hne =>
          hkeep ha h (List.mem_filter.mpr ⟨hh, by simpa using hne⟩)

theorem mem_records_iff_live {r : Registry} {a : RunRecord} (ha : a ∈ r.records) :
    ∃ h ∈ r.installed.flatMap (·.2.handlers), h.live = some a.run := by
  obtain ⟨i, hi, h, hh, -, hl⟩ := mem_records.mp ha
  exact ⟨h, List.mem_flatMap.mpr ⟨_, hi, hh⟩, hl⟩

theorem stopAll_honest (hr : r.Sound) : Honest r r.stopAll where
  tidy := ⟨by simp [stopAll, Keyed.keys], by simp [stopAll]⟩
  timely := by
    refine timely_cancelAll fun h hh run hl => ?_
    obtain ⟨e, he, hh⟩ := List.mem_flatMap.mp hh
    exact hr.live_lt (hr.installed?.mpr he) hh hl
  records a := by
    rw [show r.stopAll.orders = cancelAll _ from rfl, mem_foldl_cancelAll]
    simp only [show r.stopAll.registry.records = [] from rfl, List.not_mem_nil, false_iff, not_and]
    intro ha hdrop
    obtain ⟨h, hh, hl⟩ := mem_records_iff_live ha
    exact hdrop h hh hl
  latest a ha := by cases ha

end Stop

/-! ### Installing anew -/

section Reinstall

variable {r : Registry} {object : String} {except : Option String}

/-- A registry into which what survives of an object was put back, and nothing else that is live. -/
structure Restored (object : String) (survivor : Option Survivor) (q q' : Registry) : Prop where
  tidy : q'.Tidy
  runs : q'.runs = q.runs
  records : ∀ a, a ∈ q'.records ↔ a ∈ q.records ∨
    (a.object = object ∧ ∃ s ∈ survivor, s.handler.hat = a.hat ∧ s.handler.live = some a.run)

theorem FirstLive.eraseP {hs : List InstalledHandler} (hf : FirstLive hs) {hat : String}
    {g : InstalledHandler} (hg : g ∈ hs.eraseP (·.hat == hat)) (hk : g.hat = hat) :
    g.live = none := by
  induction hs with
  | nil => simp at hg
  | cons h rest ih =>
    obtain ⟨hh, hr⟩ := List.pairwise_cons.mp hf
    by_cases hkh : h.hat = hat
    · rw [List.eraseP_cons_of_pos (by simpa using hkh)] at hg
      exact hh g hg (hkh.trans hk.symm)
    · rw [List.eraseP_cons_of_neg (by simpa using hkh)] at hg
      rcases List.mem_cons.mp hg with rfl | hg
      · exact absurd hk hkh
      · exact ih hr hg

/-- Of the runs of an object, the one that is not cancelled is that of the survivor. -/
theorem Sound.mem_survivor (hr : r.Sound) {i : Installed} (hi : r.installed? object = some i)
    {a : RunRecord} (ho : a.object = object) :
    (a ∈ r.records ∧ ∀ g ∈ i.handlers.eraseP (except == some ·.hat), g.live ≠ some a.run) ↔
      ∃ h, i.handlers.find? (except == some ·.hat) = some h ∧ h.hat = a.hat ∧
        h.live = some a.run := by
  have hf : FirstLive i.handlers := hr.first _ (hr.installed?.mp hi)
  rw [hr.mem_records hi ho]
  cases except with
  | none =>
    have : i.handlers.eraseP (none == some ·.hat) = i.handlers :=
      List.eraseP_of_forall_not (by simp)
    simp only [this, List.find?_eq_some_iff_append, LiveIn, beq_iff_eq, reduceCtorEq, false_and,
      exists_false, iff_false, not_and]
    rintro ⟨h, hh, -, hl⟩ hdrop
    exact hdrop h hh hl
  | some hat =>
    have hp : (fun h : InstalledHandler => (some hat == some h.hat)) = (·.hat == hat) := by
      funext h; simp [Bool.beq_eq_decide_eq, eq_comm]
    rw [hp]
    constructor
    · rintro ⟨⟨g, hg, hk, hl⟩, hdrop⟩
      by_cases hkg : g.hat = hat
      · cases hh : i.handlers.find? (·.hat == hat) with
        | none => exact absurd hkg (by simpa using List.find?_eq_none.mp hh g hg)
        | some h =>
          refine ⟨h, rfl, (hat_of_find? hh).trans (hkg.symm.trans hk), ?_⟩
          exact (hf.find? hh).mp ⟨g, hg, hkg, hl⟩
      · exact absurd hl (hdrop g ((List.mem_eraseP_of_neg (by simpa using hkg)).mpr hg))
    · rintro ⟨h, hh, hk, hl⟩
      have hlive : LiveIn i.handlers a.hat a.run := ⟨h, List.mem_of_find?_eq_some hh, hk, hl⟩
      refine ⟨hlive, fun g hg hgl => ?_⟩
      have hgk := (hr.record_eq hi (List.mem_of_mem_eraseP hg)
        ((hr.mem_records hi ho).mpr hlive) hgl).2
      rw [hf.eraseP hg (hgk.symm.trans (hk.symm.trans (hat_of_find? hh)))] at hgl
      cases hgl

/-- Taking an object out and putting back what survives of it is honest. -/
theorem detach_honest (hr : r.Sound) {f : Registry → Registry}
    (hf : ∀ q : Registry, q.Tidy → q.installed? object = none →
      Restored object (r.detach object except).1 q (f q)) :
    Honest r ((r.detach object except).2.andThen fun q => { registry := f q }) := by
  cases hi : r.installed? object with
  | none =>
    have hd : r.detach object except = (none, { registry := r }) := by simp [detach, hi]
    have h := hf r hr.toTidy hi
    rw [hd] at h ⊢
    refine ⟨h.tidy, ?_, fun a => ?_, by simp [Dispatched.andThen]⟩
    · exact .skip (Nat.le_of_eq h.runs.symm) (.done _)
    · refine (h.records a).trans ?_
      simp [Dispatched.andThen]
  | some i =>
    have hd : r.detach object except =
        ((i.handlers.find? (except == some ·.hat)).map (⟨·, i.layout, i.table⟩),
          { registry := { r with installed := Keyed.erase object r.installed }
            orders := cancelAll (i.handlers.eraseP (except == some ·.hat)) }) := by
      simp [detach, hi]
    have habsent : Registry.installed? { r with installed := Keyed.erase object r.installed }
        object = none :=
      Keyed.lookup_eq_none.mpr fun h => by
        obtain ⟨j, hj⟩ := Keyed.mem_keys.mp h
        exact (Keyed.mem_erase.mp hj).2 rfl
    have h := hf _ (hr.toTidy.erase object) habsent
    rw [hd] at h ⊢
    refine honest_of_dropped hr hi (i.handlers.eraseP (except == some ·.hat))
      (fun g hg => List.mem_of_mem_eraseP hg) (by simp [Dispatched.andThen]) h.tidy h.runs
      fun a => ?_
    refine (h.records a).trans ?_
    rw [mem_records_erase]
    by_cases ho : a.object = object
    · rw [hr.mem_survivor hi ho]
      simp [ho]
    · have hkeep (ha : a ∈ r.records) (g : InstalledHandler)
          (hg : g ∈ i.handlers.eraseP (except == some ·.hat)) : g.live ≠ some a.run :=
        fun hl => ho (hr.record_eq hi (List.mem_of_mem_eraseP hg) ha hl).1
      simpa [ho] using hkeep

/-- Handlers of which none is live. -/
theorem not_liveIn {hs : List InstalledHandler} (hs' : ∀ h ∈ hs, h.live = none) (hat : String)
    (run : Nat) : ¬LiveIn hs hat run := by
  rintro ⟨h, hh, -, hl⟩
  rw [hs' h hh] at hl; cases hl

theorem firstLive_of_idle {hs : List InstalledHandler} (hs' : ∀ h ∈ hs, h.live = none) :
    FirstLive hs :=
  List.pairwise_of_forall_mem_list fun _ _ h hh _ => hs' h hh

theorem merge_live (p : Procedure) (survivor : Option Survivor) :
    FirstLive (merge p survivor) ∧ ∀ hat run, LiveIn (merge p survivor) hat run ↔
      ∃ s ∈ survivor, s.handler.hat = hat ∧ s.handler.live = some run := by
  set fresh : List InstalledHandler := p.handlers.map fun h => ⟨h, none⟩ with hfresh
  have hidle : ∀ h ∈ fresh, h.live = none := by simp [hfresh]
  have hfirst : FirstLive fresh := firstLive_of_idle hidle
  cases survivor with
  | none => exact ⟨hfirst, fun hat run => by simpa [merge] using not_liveIn hidle hat run⟩
  | some s =>
    by_cases hany : fresh.any (·.hat == s.handler.hat)
    · have hmerge : merge p (some s) = setLive s.handler.hat s.handler.live fresh := by
        simp only [merge, ← hfresh, hany, if_true]
      have hex : ∃ h ∈ fresh, h.hat = s.handler.hat := by simpa using List.any_eq_true.mp hany
      refine ⟨hmerge ▸ hfirst.setLive _ _, fun hat run => ?_⟩
      rw [hmerge, hfirst.liveIn_setLive]
      simp [not_liveIn hidle hat run, hex, eq_comm]
    · have hmerge : merge p (some s) = fresh ++ [s.handler] := by
        simp only [merge, ← hfresh, hany, if_false, Bool.false_eq_true]
      have hnew : ∀ h ∈ fresh, h.hat ≠ s.handler.hat := by simpa using hany
      rw [hmerge]
      refine ⟨List.pairwise_append.mpr ⟨hfirst, by simp, fun g hg h hh he => ?_⟩, fun hat run => ?_⟩
      · obtain rfl := List.mem_singleton.mp hh
        exact absurd he (hnew g hg)
      · have := not_liveIn hidle hat run
        simp only [LiveIn, List.mem_append, List.mem_singleton, or_and_right, exists_or,
          exists_eq_left] at this ⊢
        simp [this]

theorem restored_put {survivor : Option Survivor} {i : Installed} {q q' : Registry} (hq : q.Tidy)
    (hobject : q.installed? object = none) (hf : FirstLive i.handlers)
    (hlive : ∀ hat run, LiveIn i.handlers hat run ↔
      ∃ s ∈ survivor, s.handler.hat = hat ∧ s.handler.live = some run)
    (hput : q'.installed = (q.put object i).installed) (hruns : q'.runs = q.runs) :
    Restored object survivor q q' := by
  have hrecords (a : RunRecord) : a ∈ q'.records ↔ a ∈ (q.put object i).records := by
    rw [Registry.records, Registry.records, hput]
  refine ⟨⟨by rw [hput]; exact (hq.put hf).keys, by rw [hput]; exact (hq.put hf).first⟩, hruns,
    fun a => ?_⟩
  rw [hrecords, mem_records_put hq, hlive]
  by_cases ho : a.object = object
  · have := not_mem_records (r := q) (a := a) (ho ▸ hobject)
    simp [ho, this]
  · simp [ho]

theorem restored_install {q : Registry} (hq : q.Tidy) (hobject : q.installed? object = none)
    (version : Nat) (c : Compiled) (survivor : Option Survivor) :
    Restored object survivor q (q.install object version c survivor) :=
  restored_put hq hobject (merge_live _ survivor).1 (merge_live _ survivor).2 rfl rfl

theorem restored_keep {q : Registry} (hq : q.Tidy) (hobject : q.installed? object = none)
    (version : Nat) (survivor : Option Survivor) :
    Restored object survivor q (q.keep object version survivor) := by
  cases survivor with
  | none => exact ⟨hq, rfl, by simp [keep]⟩
  | some s =>
    refine restored_put hq hobject (i := ⟨version, none, s.layout, s.table, [s.handler]⟩) ?_ ?_
      rfl rfl
    · exact List.pairwise_singleton _ _
    · simp [LiveIn]

theorem reinstall_honest (hr : r.Sound) (object : String) (version : Nat) (except : Option String)
    (freshClone : Bool) (compiled : Except CompileError Compiled) :
    Honest r (r.reinstall object version except freshClone compiled) := by
  cases compiled with
  | error e => exact detach_honest hr fun q hq ho => restored_keep hq ho version _
  | ok c =>
    have h := detach_honest hr fun q hq ho =>
      restored_install hq ho version c (r.detach object except).1
    exact h.andThen (startAll_honest (h.sound hr) _ _)

end Reinstall

/-! ### The end of a run -/

section Finish

variable {r : Registry} {object hat : String} {run : Nat}

/-- The record of a run is in the first handler of its hat. -/
theorem Tidy.record_mem (hr : r.Tidy) {h : InstalledHandler}
    (hh : r.handler? object hat = some h) :
    (⟨object, hat, run⟩ : RunRecord) ∈ r.records ↔ h.live = some run := by
  obtain ⟨i, hi, hf⟩ := handler?_eq hh
  rw [hr.mem_records hi rfl]
  exact (hr.first _ (hr.installed?.mp hi)).find? hf

theorem not_mem_records_of_handler? (hr : r.Tidy) (hh : r.handler? object hat = none) :
    (⟨object, hat, run⟩ : RunRecord) ∉ r.records := by
  cases hi : r.installed? object with
  | none => exact not_mem_records hi
  | some i =>
    rw [hr.mem_records hi rfl]
    rintro ⟨h, hm, hk, -⟩
    have hn : i.handlers.find? (·.hat == hat) = none := by simpa [handler?, hi] using hh
    exact List.find?_eq_none.mp hn h hm (by simpa using hk)

/-- A run ends on record, or the registry stays as it is. -/
theorem finish_cases (hr : r.Tidy) (object hat : String) (run : Nat) :
    (∃ i h, r.installed? object = some i ∧ i.handlers.find? (·.hat == hat) = some h ∧
      h.live = some run ∧ r.finish object hat run =
        { r with
          installed := Keyed.modify object
            (fun i => { i with handlers := setLive hat none i.handlers }) r.installed }) ∨
      (⟨object, hat, run⟩ ∉ r.records ∧ r.finish object hat run = r) := by
  cases hh : r.handler? object hat with
  | none => exact .inr ⟨not_mem_records_of_handler? hr hh, by simp [finish, hh]⟩
  | some h =>
    by_cases hl : h.live = some run
    · obtain ⟨i, hi, hf⟩ := handler?_eq hh
      exact .inl ⟨i, h, hi, hf, hl, by simp [finish, hh, hl]⟩
    · exact .inr ⟨fun hm => hl ((hr.record_mem hh).mp hm), by simp [finish, hh, hl]⟩

/-- The end of a run takes this run off the record and no other. -/
theorem mem_records_finish (hr : r.Tidy) {a : RunRecord} :
    a ∈ (r.finish object hat run).records ↔ a ∈ r.records ∧ a ≠ ⟨object, hat, run⟩ := by
  obtain ⟨i, h, hi, hh, hl, hfin⟩ | ⟨hm, hfin⟩ := finish_cases hr object hat run
  · have hf : FirstLive i.handlers := hr.first _ (hr.installed?.mp hi)
    rw [hfin, mem_records_modify hr hi, hf.liveIn_setLive]
    by_cases ho : a.object = object
    · rw [hr.mem_records hi ho]
      by_cases hk : a.hat = hat
      · have old : LiveIn i.handlers hat a.run ↔ run = a.run := by
          rw [hf.find? hh, hl, Option.some.injEq]
        have this : a = ⟨object, hat, run⟩ ↔ run = a.run := by
          rw [← ho, ← hk]; cases a; simp [eq_comm]
        simp [ho, hk, old, this]
      · have hne : a ≠ ⟨object, hat, run⟩ := fun e => hk (congrArg RunRecord.hat e)
        simp [ho, hk, hne]
    · have hne : a ≠ ⟨object, hat, run⟩ := fun e => ho (congrArg RunRecord.object e)
      simp [ho, hne]
  · rw [hfin]
    exact ⟨fun ha => ⟨ha, fun e => hm (e ▸ ha)⟩, And.left⟩

theorem Tidy.finish (hr : r.Tidy) (object hat : String) (run : Nat) :
    (r.finish object hat run).Tidy := by
  obtain ⟨i, h, hi, -, -, hfin⟩ | ⟨-, hfin⟩ := finish_cases hr object hat run
  · rw [hfin]
    exact hr.modify hi ((hr.first _ (hr.installed?.mp hi)).setLive hat none)
  · rwa [hfin]

theorem finish_runs : (r.finish object hat run).runs = r.runs := by
  simp only [finish]
  split
  · split <;> rfl
  · rfl

theorem Sound.finish (hr : r.Sound) (object hat : String) (run : Nat) :
    (r.finish object hat run).Sound where
  toTidy := hr.toTidy.finish object hat run
  distinct a ha b hb := hr.distinct a ((mem_records_finish hr.toTidy).mp ha).1 b
    ((mem_records_finish hr.toTidy).mp hb).1
  counted a ha := by
    rw [finish_runs]
    exact hr.counted a ((mem_records_finish hr.toTidy).mp ha).1

end Finish

end Registry

end Tabletop
