import Tabletop.Proofs.Compile.Slots
import Tabletop.Proofs.Registry.Kept
import Tabletop.Proofs.Registry.LiveRuns

/-! Slots against the variables they were compiled for. What is installed on an object names slots
of the object's layout, and every table keeps the layout it was made for, as long as each handler
that outlives its graph finds its variables where they were. -/

namespace Tabletop

namespace Registry

/-- The slots that a body names stand in a layout for the variables that they were compiled for. -/
def Aligned (p : Procedure) (layout : List String) (body : List Stmt) : Prop :=
  ∀ n, .slot n ∈ Stmt.varsIn body → ∃ id, p.locals[n]? = some id ∧ layout[n]? = some id

/-- What the handler of a hat was compiled in: the last of the graphs with this hat that were
installed on the object, in calls of which the latest comes first. -/
def origin (object hat : String) : List Call → Option Procedure
  | [] => none
  | .reinstall o _ _ _ (.ok c) :: earlier =>
    if o = object ∧ hat ∈ c.procedure.descriptors.map (·.hat) then some c.procedure
    else origin object hat earlier
  | _ :: earlier => origin object hat earlier

/-- A run that was started, and what its handler was compiled in. -/
structure Started where
  launch : Launch
  source : Option Procedure

end Registry

/-- The run that an order starts, after some calls. -/
def Order.started? (calls : List Registry.Call) : Order → Option Registry.Started
  | cancel _ => none
  | launch l => some ⟨l, Registry.origin l.object l.hat calls⟩

namespace Registry

/-- What is installed was compiled from some graph. -/
def Call.Compiled : Call → Prop
  | reinstall _ _ _ _ (.ok c) => ∃ hasher globals g, Graph.compile hasher globals g = .ok c.procedure
  | _ => True

/-- A handler that survives, and that the new graph has no hat for, finds the variables that it
names in the slots they had. -/
def Call.Fits (r : Registry) : Call → Prop
  | reinstall object _ except _ (.ok c) => ∀ s ∈ (r.detach object except).1,
    s.handler.hat ∉ c.procedure.descriptors.map (·.hat) →
      ∀ n, .slot n ∈ Stmt.varsIn s.handler.handler.body →
        c.procedure.locals[n]? = s.layout[n]?
  | _ => True

/-- The registries that calls and ends of runs lead to, the calls being such as `admits` says, with
all runs that were started on the way. -/
inductive Reached (admits : Registry → Call → Prop) : List Call → Registry → List Started → Prop where
  | empty : Reached admits [] {} []
  | call {calls : List Call} {r : Registry} {started : List Started} (c : Call) : admits r c →
    Reached admits calls r started → Reached admits (c :: calls) (c.perform r).registry
      (started ++ (c.perform r).orders.filterMap (Order.started? (c :: calls)))
  | finish {calls : List Call} {r : Registry} {started : List Started} (object hat : String)
    (run : Nat) : Reached admits calls r started →
    Reached admits calls (r.finish object hat run) started

/-- Every handler is aligned with the layout of its object. -/
def AllAligned (calls : List Call) (r : Registry) : Prop :=
  ∀ e ∈ r.installed, ∀ h ∈ e.2.handlers, ∃ p, origin e.1 h.hat calls = some p ∧
    h.handler ∈ p.handlers ∧ Aligned p e.2.layout h.handler.body

/-! ### Calls -/

section Install

variable {r : Registry} {object : String}

/-- What is left of a registry when a compiled graph was put in, before anything starts. -/
def installing (object : String) (version : Nat) (except : Option String) (c : Compiled)
    (r : Registry) : Registry :=
  (r.detach object except).2.registry.install object version c (r.detach object except).1

/-- A call starts handlers in a registry where nothing is new, or where one graph was installed. -/
theorem Call.perform_cases (hr : r.Tidy) (c : Call) :
    (Plain r (c.perform r) ∧ c.Fits r ∧
      ∀ object hat calls, origin object hat (c :: calls) = origin object hat calls) ∨
    ∃ object version except freshClone k,
      c = .reinstall object version except freshClone (.ok k) ∧
      let d := startHats object
        (k.procedure.immediateHats ++ if freshClone then k.procedure.cloneHats else [])
        (r.installing object version except k)
      (c.perform r).registry = d.registry ∧ ∀ calls,
        (c.perform r).orders.filterMap (Order.started? calls) =
          d.orders.filterMap (Order.started? calls) := by
  cases c with
  | reinstall object version except freshClone compiled =>
    cases compiled with
    | error e =>
      exact .inl ⟨plain_reinstall_error object version except freshClone e r, trivial,
        fun _ _ _ => rfl⟩
    | ok k =>
      refine .inr ⟨object, version, except, freshClone, k, rfl, rfl, fun calls => ?_⟩
      have hnone : (r.detach object except).2.orders.filterMap (Order.started? calls) = [] := by
        refine List.filterMap_eq_nil_iff.mpr fun o ho => ?_
        obtain ⟨i, -, h⟩ | ⟨-, h⟩ := detach_eq object except r
        · rw [h] at ho
          obtain ⟨g, -, hg⟩ := List.mem_filterMap.mp ho
          obtain ⟨run, -, rfl⟩ := Option.map_eq_some_iff.mp hg
          rfl
        · rw [h] at ho
          nomatch ho
      show ((r.detach object except).2.orders ++ [] ++ _).filterMap _ = _
      rw [List.append_nil, List.filterMap_append, hnone, List.nil_append]
      rfl
  | stop object except => exact .inl ⟨plain_stop hr object except, trivial, fun _ _ _ => rfl⟩
  | stopAll => exact .inl ⟨plain_stopAll r, trivial, fun _ _ _ => rfl⟩
  | broadcast name targets => exact .inl ⟨plain_dispatch .., trivial, fun _ _ _ => rfl⟩
  | propertyChanged object p v => exact .inl ⟨plain_dispatch .., trivial, fun _ _ _ => rfl⟩
  | selectionChanged object selected => exact .inl ⟨plain_dispatch .., trivial, fun _ _ _ => rfl⟩
  | collision a b phase =>
    exact .inl ⟨(plain_dispatch ..).andThen (plain_dispatch ..), trivial, fun _ _ _ => rfl⟩
  | signal name targets payload => exact .inl ⟨plain_dispatch .., trivial, fun _ _ _ => rfl⟩

/-! ### Installing a graph -/

theorem tables_installing (version : Nat) (except : Option String) (c : Compiled) :
    (r.installing object version except c).tables = r.tables + 1 :=
  congrArg (· + 1) (plain_detach object except r).kept.tables

/-- What a new installation puts in: the layout is the graph's, and the table is a new one or that
of a survivor with the same layout. -/
theorem mem_installing {version : Nat} {except : Option String} {c : Compiled}
    {e : String × Installed} (he : e ∈ (r.installing object version except c).installed) :
    e ∈ (r.detach object except).2.registry.installed ∨
      (e.1 = object ∧ e.2.layout = c.procedure.locals ∧
        e.2.handlers = merge c.procedure (r.detach object except).1 ∧
        (e.2.table = r.tables ∨ ∃ s, (r.detach object except).1 = some s ∧
          s.layout = c.procedure.locals ∧ e.2.table = s.table)) := by
  refine (Keyed.mem_of_mem_put he).imp id ?_
  rintro rfl
  refine ⟨rfl, rfl, rfl, ?_⟩
  dsimp only
  split
  · next s hs =>
    obtain ⟨hs, hlayout⟩ := Option.filter_eq_some_iff.mp hs
    exact .inr ⟨s, hs, beq_iff_eq.mp hlayout, rfl⟩
  · exact .inl (plain_detach object except r).kept.tables

theorem exists_mem_installing (version : Nat) (except : Option String) (c : Compiled) :
    ∃ i, (object, i) ∈ (r.installing object version except c).installed ∧
      i.layout = c.procedure.locals ∧ i.handlers = merge c.procedure (r.detach object except).1 :=
  ⟨_, Keyed.mem_of_lookup ((Keyed.lookup_put object object _ _).trans (if_pos rfl)), rfl, rfl⟩

/-- The registry and the runs that were started, against what each table was made for. -/
structure Placed (calls : List Call) (r : Registry) (started : List Started)
    (layouts : Nat → List String) : Prop where
  tables : ∀ e ∈ r.installed, e.2.table < r.tables ∧ layouts e.2.table = e.2.layout
  aligned : AllAligned calls r
  started : ∀ s ∈ started, s.launch.table < r.tables ∧
    ∃ p, s.source = some p ∧ Aligned p (layouts s.launch.table) s.launch.body

variable {calls : List Call} {started : List Started} {layouts : Nat → List String}

theorem AllAligned.kept {r' : Registry} (h : AllAligned calls r) (hk : Kept r r') :
    AllAligned calls r' := by
  intro e' he' h' hh'
  obtain ⟨i, hi, hl, -, hs⟩ := hk.installed e' he'
  obtain ⟨g, hg, heq⟩ := hs h' hh'
  have := h _ hi g hg
  rwa [InstalledHandler.hat, heq, hl] at this

theorem AllAligned.congr {calls' : List Call} (h : AllAligned calls r)
    (ho : ∀ object hat, origin object hat calls' = origin object hat calls) :
    AllAligned calls' r := by
  intro e he g hg
  rw [ho]
  exact h e he g hg

theorem Placed.plain {d : Dispatched} (h : Placed calls r started layouts) (hd : Plain r d) :
    Placed calls d.registry (started ++ d.orders.filterMap (Order.started? calls)) layouts where
  tables e he := by
    obtain ⟨i, hi, hl, ht, -⟩ := hd.kept.installed e he
    rw [← ht, ← hl, hd.kept.tables]
    exact h.tables _ hi
  aligned := h.aligned.kept hd.kept
  started s hs := by
    rw [hd.kept.tables]
    rcases List.mem_append.mp hs with hs | hs
    · exact h.started s hs
    · obtain ⟨o, ho, hs⟩ := List.mem_filterMap.mp hs
      cases o with
      | cancel run => nomatch hs
      | launch l =>
        cases hs
        obtain ⟨i, hi, ht, g, hg, hhat, hbody⟩ := hd.serves l ho
        obtain ⟨hlt, hlayout⟩ := h.tables _ hi
        obtain ⟨p, hp, -, ha⟩ := h.aligned _ hi g hg
        refine ⟨ht ▸ hlt, p, hhat ▸ hp, ?_⟩
        rw [ht, hlayout, hbody]
        exact ha

/-- What a call of an installation leaves of the origins. -/
theorem origin_reinstall (object : String) (version : Nat) (except : Option String)
    (freshClone : Bool) (c : Compiled) (o hat : String) :
    origin o hat (.reinstall object version except freshClone (.ok c) :: calls) =
      if object = o ∧ hat ∈ c.procedure.descriptors.map (·.hat) then some c.procedure
      else origin o hat calls := rfl

theorem Placed.install (h : Placed calls r started layouts) {version : Nat}
    {except : Option String} {freshClone : Bool} {c : Compiled}
    (hc : Call.Compiled (.reinstall object version except freshClone (.ok c)))
    (hfits : Call.Fits r (.reinstall object version except freshClone (.ok c))) :
    Placed (.reinstall object version except freshClone (.ok c) :: calls)
      (r.installing object version except c) started
      (Function.update layouts r.tables c.procedure.locals) := by
  obtain ⟨hasher, globals, g, hg⟩ := hc
  have hd := (plain_detach object except r).kept
  have hold {t : Nat} (ht : t < r.tables) :
      Function.update layouts r.tables c.procedure.locals t = layouts t :=
    Function.update_of_ne (Nat.ne_of_lt ht) _ _
  refine ⟨fun e he => ?_, fun e he h' hh' => ?_, fun s hs => ?_⟩
  · rw [tables_installing]
    rcases mem_installing he with he | ⟨-, hlayout, -, ht | ⟨s, hs, hsame, ht⟩⟩
    · obtain ⟨i, hi, hl, ht, -⟩ := hd.installed e he
      obtain ⟨hlt, hlayout⟩ := h.tables _ hi
      rw [← ht, ← hl, hold hlt]
      exact ⟨Nat.lt_succ_of_lt hlt, hlayout⟩
    · rw [ht, Function.update_self, hlayout]
      exact ⟨Nat.lt_succ_self _, rfl⟩
    · obtain ⟨i, hi, hl, hti, -⟩ := survivor_mem hs
      obtain ⟨hlt, hlay⟩ := h.tables _ hi
      rw [ht, ← hti, hold hlt, hlayout, ← hsame, ← hl]
      exact ⟨Nat.lt_succ_of_lt hlt, hlay⟩
  · rcases mem_installing he with hm | ⟨ho, hlayout, hhandlers, -⟩
    · -- the other objects are as they were
      rw [origin_reinstall, if_neg fun hc => ne_of_mem_detach hm hc.1.symm]
      exact (h.aligned.kept hd) e hm h' hh'
    · rw [origin_reinstall, ho, hlayout]
      rcases mem_merge (hhandlers ▸ hh') with hnew | ⟨s, hs, hnone, rfl⟩
      · have hhat : h'.hat ∈ c.procedure.descriptors.map (·.hat) :=
          List.mem_map_of_mem (List.mem_map_of_mem hnew)
        refine ⟨c.procedure, if_pos ⟨rfl, hhat⟩, hnew, fun n hn => ?_⟩
        have hlt := Graph.slot_lt_of_compile hg hnew hn
        exact ⟨_, List.getElem?_eq_getElem hlt, List.getElem?_eq_getElem hlt⟩
      · -- the survivor keeps its origin, and its variables are where they were
        obtain ⟨i, hi, hl, -, hmem⟩ := survivor_mem hs
        obtain ⟨p, hp, hin, ha⟩ := h.aligned _ hi _ hmem
        refine ⟨p, (if_neg fun hc => hnone hc.2).trans hp, hin, fun n hn => ?_⟩
        obtain ⟨id, hid, hlay⟩ := ha n hn
        exact ⟨id, hid, by rw [hfits s hs hnone n hn, ← hl, hlay]⟩
  · obtain ⟨hlt, p, hp, ha⟩ := h.started s hs
    rw [tables_installing, hold hlt]
    exact ⟨Nat.lt_succ_of_lt hlt, p, hp, ha⟩

/-! ### Histories -/

theorem Reached.sound {admits : Registry → Call → Prop} (h : Reached admits calls r started) :
    r.Sound := by
  induction h with
  | empty => exact sound_empty
  | call c _ _ ih => exact (c.honest ih).sound ih
  | finish object hat run _ ih => exact ih.finish object hat run

theorem Placed.call (h : Placed calls r started layouts) (hr : r.Tidy) {c : Call}
    (hc : c.Compiled) (hfits : c.Fits r) :
    ∃ layouts, Placed (c :: calls) (c.perform r).registry
      (started ++ (c.perform r).orders.filterMap (Order.started? (c :: calls))) layouts := by
  obtain ⟨hplain, -, ho⟩ | ⟨object, version, except, freshClone, k, rfl, hreg, horders⟩ :=
    c.perform_cases hr
  · have h' : Placed (c :: calls) r started layouts :=
      ⟨h.tables, h.aligned.congr fun o hat => ho o hat calls, h.started⟩
    exact ⟨layouts, h'.plain hplain⟩
  · rw [hreg, horders]
    exact ⟨_, (h.install hc hfits).plain (plain_startAll _ _ _).1⟩

theorem Reached.placed (h : Reached (fun r c => c.Compiled ∧ c.Fits r) calls r started) :
    ∃ layouts, Placed calls r started layouts := by
  induction h with
  | empty => exact ⟨fun _ => [], nofun, nofun, nofun⟩
  | call c hc hr ih =>
    obtain ⟨layouts, h⟩ := ih
    exact h.call hr.sound.toTidy hc.1 hc.2
  | finish object hat run _ ih =>
    obtain ⟨layouts, h⟩ := ih
    have := h.plain (d := { registry := _ }) ⟨kept_finish object hat run _, nofun⟩
    rw [List.filterMap_nil, List.append_nil] at this
    exact ⟨layouts, this⟩

/-- A survivor whose variables are not where they were is out of line with the new layout. -/
theorem AllAligned.fits (h : AllAligned calls r) (hr : r.Tidy) {c : Call}
    (h' : AllAligned (c :: calls) (c.perform r).registry) : c.Fits r := by
  obtain ⟨-, hfits, -⟩ | ⟨object, version, except, freshClone, k, rfl, hreg, -⟩ :=
    c.perform_cases hr
  · exact hfits
  · intro s hs hnone n hn
    obtain ⟨i, hi, hlayout, hhandlers⟩ := exists_mem_installing (r := r) version except k
    rw [hs] at hhandlers
    obtain ⟨j, hj, hl, -, hkept⟩ := (plain_startAll _ none _).2.installed _ hi
    obtain ⟨g, hg, heq⟩ := hkept _ (hhandlers ▸ survivor_mem_merge hnone)
    have hhat : g.hat = s.handler.hat := by rw [InstalledHandler.hat, InstalledHandler.hat, heq]
    obtain ⟨p', hp', -, ha'⟩ := h' _ (hreg ▸ hj) g hg
    rw [origin_reinstall, hhat, if_neg fun hc => hnone hc.2] at hp'
    obtain ⟨i', hi', hl', -, hmem⟩ := survivor_mem hs
    obtain ⟨p, hp, -, ha⟩ := h _ hi' _ hmem
    obtain rfl : p = p' := Option.some.inj (hp.symm.trans hp')
    obtain ⟨id, hid, hlay⟩ := ha n hn
    obtain ⟨id', hid', hlay'⟩ := ha' n (heq ▸ hn)
    obtain rfl : id = id' := Option.some.inj (hid.symm.trans hid')
    rw [← hlayout, ← hl', hlay, ← hlay', hl]

/-- As long as every call fits, what is installed names its own variables: each slot in a body is in
the layout of the object, for the variable it was compiled for. A call that does not fit puts a
handler in for which this fails. And every table has one layout for good, with which all that runs
on the table ever reads or assigns agrees. -/
theorem Reached.slots_aligned (h : Reached (fun r c => c.Compiled ∧ c.Fits r) calls r started) :
    AllAligned calls r ∧
      (∀ c : Call, c.Compiled →
        (AllAligned (c :: calls) (c.perform r).registry ↔ c.Fits r)) ∧
      ∃ layouts : Nat → List String, (∀ e ∈ r.installed, layouts e.2.table = e.2.layout) ∧
        ∀ s ∈ started, ∃ p, s.source = some p ∧ ∀ me iterations m q next n,
          Machine.Reaches me (.start s.launch.body iterations) m → m.step me = .ask q next →
            q.variable? = some (.slot n) →
              ∃ id, p.locals[n]? = some id ∧ (layouts s.launch.table)[n]? = some id := by
  obtain ⟨layouts, hp⟩ := h.placed
  refine ⟨hp.aligned, fun c hc => ⟨fun h' => hp.aligned.fits h.sound.toTidy h', fun hfits => ?_⟩,
    layouts, fun e he => (hp.tables e he).2, fun s hs => ?_⟩
  · obtain ⟨_, hp'⟩ := hp.call h.sound.toTidy hc hfits
    exact hp'.aligned
  · obtain ⟨-, p, hsource, ha⟩ := hp.started s hs
    exact ⟨p, hsource, fun me iterations m q next n hm hstep hv =>
      ha n (Machine.mem_vars_of_asks hm hstep hv)⟩

end Install

/-- A script under a hat for the message `go`, which sets a variable. -/
def setting (hat name : String) : Graph := ⟨[⟨hat, "event_whenbroadcastreceived",
  [("BROADCAST_OPTION", .string "go")], [],
  some ⟨"set", "data_setvariableto", [("VARIABLE", .string name)], [], none⟩⟩]⟩

/-- What the script compiles to. -/
def settingProcedure (hat name : String) : Procedure :=
  ⟨[⟨⟨hat, .broadcast "go"⟩, [.setVariable (.slot 0) (.literal (.text ""))]⟩], [name], []⟩

/-- Puts the script on an object, on which the handler of the hat `except` goes on. -/
def setter (except : Option String) (hat name : String) : Call :=
  .reinstall "die" 0 except false (.ok ⟨0, settingProcedure hat name⟩)

theorem compiled_setter {except : Option String} {hat name : String}
    (h : Graph.compile (fun _ => []) [] (setting hat name) = .ok (settingProcedure hat name)) :
    (setter except hat name).Compiled :=
  ⟨_, _, _, h⟩

/-- A script that outlives its graph goes on with the new one: both set the variable `a`, and after
the message both have a run on the one table of the object. -/
theorem slots_aligned_shared :
    ∃ calls r started, Reached (fun r c => c.Compiled ∧ c.Fits r) calls r started ∧
      started.map (fun s => (s.launch.hat, s.launch.table)) = [("shows", 0), ("hears", 0)] ∧
      AllAligned calls r := by
  have hfirst : Reached (fun r c => c.Compiled ∧ c.Fits r) _ _ _ :=
    .call (setter none "hears" "a") ⟨compiled_setter rfl, by rintro s ⟨⟩⟩ .empty
  have hsecond : Reached (fun r c => c.Compiled ∧ c.Fits r) _ _ _ :=
    .call (setter (some "hears") "shows" "a") ⟨compiled_setter rfl, by rintro s ⟨⟩ - n -; rfl⟩ hfirst
  have h : Reached (fun r c => c.Compiled ∧ c.Fits r) _ _ _ :=
    .call (.broadcast "go" none) ⟨trivial, trivial⟩ hsecond
  exact ⟨_, _, _, h, by decide, h.slots_aligned.1⟩

/-- A script that outlives its graph while the layout changes runs on a table where its slot is that
of another variable. -/
theorem unaligned_survivor :
    ¬∀ calls r started, Reached (fun _ c => c.Compiled) calls r started → AllAligned calls r := by
  intro hall
  have hfirst : Reached (fun _ c => c.Compiled) _ _ _ :=
    .call (setter none "hears" "a") (compiled_setter rfl) .empty
  have hsecond : Reached (fun _ c => c.Compiled) _ _ _ :=
    .call (setter (some "hears") "shows" "b") (compiled_setter rfl) hfirst
  have hfits := (hall _ _ _ hfirst).fits hfirst.sound.toTidy (hall _ _ _ hsecond)
  have : (settingProcedure "shows" "b").locals[0]? = (settingProcedure "hears" "a").locals[0]? :=
    hfits _ rfl (by decide) 0 (by decide)
  exact absurd this (by decide)

end Registry

end Tabletop
