import Tabletop.Proofs.Compile.Scripts
import Tabletop.Proofs.Graph.Inflate
import Tabletop.Proofs.Registry.Thinned

/-! Events against the handlers that they are for. What is to be started is collected as hats, and
every hat is looked up again; so an event starts each handler that it is for, once and in order,
exactly if each of them is the first of its hat. Ids that are nowhere twice see to that, and flat
graphs have no others. -/

namespace Tabletop

namespace Registry

/-! ### What an event is to start -/

/-- A handler that is to be started, with its object and the object's table. -/
structure Hit where
  object : String
  table : Nat
  handler : InstalledHandler

/-- The handlers of one object that a test accepts. -/
def hitsOf (wants : Trigger → Bool) (object : String) (table : Nat)
    (handlers : List InstalledHandler) : List Hit :=
  (handlers.filter fun h => wants h.trigger).map fun h => ⟨object, table, h⟩

/-- The handlers that a test accepts, object after object. -/
def hits (wants : String → Trigger → Bool) (installed : List (String × Installed)) : List Hit :=
  installed.flatMap fun e => hitsOf (wants e.1) e.1 e.2.table e.2.handlers

/-- The orders that start handlers, each in the place of its own live run, with numbers from `n`
on. -/
def startOrders (other : Option String) : Nat → List Hit → List Order
  | _, [] => []
  | n, hit :: rest => cancelAll [hit.handler] ++
      .launch ⟨hit.object, hit.handler.hat, other, hit.handler.handler.body, hit.table, n⟩ ::
        startOrders other (n + 1) rest

/-- The handlers of an object once those that a test accepts are live, with numbers from `n` on. -/
def begun (wants : Trigger → Bool) : Nat → List InstalledHandler → List InstalledHandler
  | _, [] => []
  | n, h :: rest =>
    if wants h.trigger then { h with live := some n } :: begun wants (n + 1) rest
    else h :: begun wants n rest

def begunAll (wants : String → Trigger → Bool) :
    Nat → List (String × Installed) → List (String × Installed)
  | _, [] => []
  | n, e :: rest => (e.1, { e.2 with handlers := begun (wants e.1) n e.2.handlers }) ::
      begunAll wants (n + (hitsOf (wants e.1) e.1 e.2.table e.2.handlers).length) rest

/-- What it is to start each handler that a test accepts, once and in order. -/
def startEach (wants : String → Trigger → Bool) (other : Option String) (r : Registry) :
    Dispatched where
  registry := { r with
    runs := r.runs + (hits wants r.installed).length
    installed := begunAll wants r.runs r.installed }
  orders := startOrders other r.runs (hits wants r.installed)
  count := (hits wants r.installed).length

/-- Every handler that a test accepts is the first of its hat on its object. -/
def Addressed (wants : String → Trigger → Bool) (r : Registry) : Prop :=
  ∀ e ∈ r.installed, e.2.handlers.Pairwise fun g h => wants e.1 h.trigger → g.hat ≠ h.hat

/-! ### Starting one after another -/

theorem startOrders_append (other : Option String) (n : Nat) (hs hs' : List Hit) :
    startOrders other n (hs ++ hs') =
      startOrders other n hs ++ startOrders other (n + hs.length) hs' := by
  induction hs generalizing n with
  | nil => rfl
  | cons hit rest ih =>
    simp only [List.cons_append, startOrders, ih, List.length_cons, List.append_assoc]
    rw [Nat.add_right_comm, Nat.add_assoc]

theorem foldl_start (other : Option String) (hats : List (String × String)) (d : Dispatched) :
    hats.foldl (fun d hit => d.andThen (start hit.1 hit.2 other)) d =
      d.andThen fun r => r.startAll hats other := by
  induction hats generalizing d with
  | nil => simp [startAll, Dispatched.andThen]
  | cons hit rest ih =>
    have hone (r : Registry) : r.startAll (hit :: rest) other =
        (r.start hit.1 hit.2 other).andThen fun r => r.startAll rest other := by
      refine (ih (Dispatched.andThen { registry := r } (start hit.1 hit.2 other))).trans ?_
      simp [Dispatched.andThen]
    rw [List.foldl_cons, ih]
    simp [Dispatched.andThen, hone, Nat.add_assoc]

theorem startAll_cons (other : Option String) (hit : String × String)
    (rest : List (String × String)) (r : Registry) : r.startAll (hit :: rest) other =
      (r.start hit.1 hit.2 other).andThen fun r => r.startAll rest other := by
  refine (foldl_start other rest _).trans ?_
  simp [Dispatched.andThen]

theorem startAll_append (other : Option String) (hats hats' : List (String × String))
    (r : Registry) : r.startAll (hats ++ hats') other =
      (r.startAll hats other).andThen fun r => r.startAll hats' other := by
  rw [startAll, List.foldl_append, foldl_start]
  rfl

theorem setLive_zipper {pre post : List InstalledHandler} {h : InstalledHandler}
    (live : Option Nat) (hpre : ∀ g ∈ pre, g.hat ≠ h.hat) :
    setLive h.hat live (pre ++ h :: post) = pre ++ { h with live } :: post := by
  induction pre with
  | nil => simp [setLive]
  | cons g rest ih =>
    obtain ⟨hg, hrest⟩ := List.forall_mem_cons.mp hpre
    simp [setLive, hg, ih hrest]

/-- A start of the first handler of its hat. -/
theorem start_zipper {r : Registry} {before after : List (String × Installed)} {object : String}
    {i : Installed} {pre post : List InstalledHandler} {h : InstalledHandler}
    (hi : r.installed = before ++ (object, { i with handlers := pre ++ h :: post }) :: after)
    (hkeys : (Keyed.keys r.installed).Nodup) (hpre : ∀ g ∈ pre, g.hat ≠ h.hat)
    (other : Option String) :
    r.start object h.hat other =
      { registry := { r with
          runs := r.runs + 1
          installed := before ++ (object, { i with
            handlers := pre ++ { h with live := some r.runs } :: post }) :: after }
        orders := cancelAll [h] ++
          [.launch ⟨object, h.hat, other, h.handler.body, i.table, r.runs⟩]
        count := 1 } := by
  rw [hi] at hkeys
  have hlookup : r.installed? object = some { i with handlers := pre ++ h :: post } := by
    rw [installed?, hi, Keyed.lookup_zipper hkeys]
  have hfind : (pre ++ h :: post).find? (·.hat == h.hat) = some h := by
    rw [List.find?_append, List.find?_eq_none.mpr (by simpa using hpre)]
    simp
  simp [start, handler?, hlookup, hfind, hi, Keyed.modify_zipper _ hkeys, setLive_zipper _ hpre]

/-- Starting the accepted handlers of one object, where some came before them. -/
theorem startAll_hitsOf {wants : Trigger → Bool} (other : Option String)
    {before after : List (String × Installed)} {object : String} {i : Installed}
    {todo : List InstalledHandler} (hfirst : todo.Pairwise fun g h => wants h.trigger → g.hat ≠ h.hat)
    {pre : List InstalledHandler} (hpre : ∀ g ∈ pre, ∀ h ∈ todo, wants h.trigger → g.hat ≠ h.hat)
    {r : Registry}
    (hi : r.installed = before ++ (object, { i with handlers := pre ++ todo }) :: after)
    (hkeys : (Keyed.keys r.installed).Nodup) :
    r.startAll ((hitsOf wants object i.table todo).map fun hit => (object, hit.handler.hat)) other =
      { registry := { r with
          runs := r.runs + (hitsOf wants object i.table todo).length
          installed := before ++ (object, { i with
            handlers := pre ++ begun wants r.runs todo }) :: after }
        orders := startOrders other r.runs (hitsOf wants object i.table todo)
        count := (hitsOf wants object i.table todo).length } := by
  induction todo generalizing pre r with
  | nil =>
    obtain ⟨installed, runs, tables⟩ := r
    cases hi
    simp [hitsOf, startAll, begun, startOrders]
  | cons h rest ih =>
    obtain ⟨hh, hrest⟩ := List.pairwise_cons.mp hfirst
    have hnext (g : InstalledHandler) (hg : g.hat = h.hat) :
        ∀ g' ∈ pre ++ [g], ∀ k ∈ rest, wants k.trigger → g'.hat ≠ k.hat := by
      intro g' hg' k hk
      rcases List.mem_append.mp hg' with hg' | hg'
      · exact hpre g' hg' k (List.mem_cons_of_mem _ hk)
      · rw [List.mem_singleton.mp hg', hg]
        exact hh k hk
    by_cases hw : wants h.trigger
    · -- the handler is started, and stands live before the rest
      have hstart := start_zipper hi hkeys (fun g hg => hpre g hg h (List.mem_cons_self ..) hw) other
      set now : Registry := { r with
        runs := r.runs + 1
        installed := before ++ (object, { i with
          handlers := pre ++ { h with live := some r.runs } :: rest }) :: after } with hnow
      have hnowKeys : (Keyed.keys now.installed).Nodup := by
        rw [hi] at hkeys
        simpa [Keyed.keys, hnow] using hkeys
      have := ih hrest (hnext { h with live := some r.runs } rfl) (r := now)
        (by rw [hnow, List.append_assoc, List.singleton_append]) hnowKeys
      have hhits : hitsOf wants object i.table (h :: rest) =
          ⟨object, i.table, h⟩ :: hitsOf wants object i.table rest := by simp [hitsOf, hw]
      rw [hhits, List.map_cons, startAll_cons, hstart]
      simp only [Dispatched.andThen, this]
      simp [startOrders, begun, hw, hnow, Nat.add_assoc, Nat.add_comm 1]
    · -- the handler is passed over
      have := ih hrest (hnext h rfl) (by rw [hi, List.append_assoc, List.singleton_append]) hkeys
      simpa [hitsOf, hw, begun] using this

/-- Starting the accepted handlers of all objects, where some came before them. -/
theorem startAll_hits {wants : String → Trigger → Bool} (other : Option String)
    {todo before : List (String × Installed)} {r : Registry}
    (hfirst : ∀ e ∈ todo, e.2.handlers.Pairwise fun g h => wants e.1 h.trigger → g.hat ≠ h.hat)
    (hi : r.installed = before ++ todo) (hkeys : (Keyed.keys r.installed).Nodup) :
    r.startAll ((hits wants todo).map fun hit => (hit.object, hit.handler.hat)) other =
      { registry := { r with
          runs := r.runs + (hits wants todo).length
          installed := before ++ begunAll wants r.runs todo }
        orders := startOrders other r.runs (hits wants todo)
        count := (hits wants todo).length } := by
  induction todo generalizing before r with
  | nil =>
    obtain ⟨installed, runs, tables⟩ := r
    cases hi
    simp [hits, startAll, begunAll, startOrders]
  | cons e rest ih =>
    obtain ⟨object, i⟩ := e
    obtain ⟨he, hrest⟩ := List.forall_mem_cons.mp hfirst
    have hnone : ∀ g ∈ ([] : List InstalledHandler), ∀ h ∈ i.handlers,
        wants object h.trigger → g.hat ≠ h.hat := nofun
    have hobject := startAll_hitsOf other he hnone (i := i) hi hkeys
    rw [List.nil_append] at hobject
    set now : Registry := { r with
      runs := r.runs + (hitsOf (wants object) object i.table i.handlers).length
      installed := before ++ (object, { i with
        handlers := begun (wants object) r.runs i.handlers }) :: rest } with hnow
    have hnowKeys : (Keyed.keys now.installed).Nodup := by
      rw [hi] at hkeys
      simpa [Keyed.keys, hnow] using hkeys
    have hafter := ih hrest (r := now)
      (by rw [hnow, ← List.singleton_append, ← List.append_assoc]) hnowKeys
    have hhits : hits wants ((object, i) :: rest) =
        hitsOf (wants object) object i.table i.handlers ++ hits wants rest := rfl
    have hmap : ((hitsOf (wants object) object i.table i.handlers).map fun hit =>
        (hit.object, hit.handler.hat)) = (hitsOf (wants object) object i.table i.handlers).map
          fun hit => (object, hit.handler.hat) := by
      simp [hitsOf]
    rw [hhits, List.map_append, startAll_append, hmap, hobject]
    simp only [Dispatched.andThen, hafter]
    simp [begunAll, startOrders_append, hnow, Nat.add_assoc]

/-- A test is answered by starting what it accepts, once and in order, where all of it is the first
of its hat. -/
theorem dispatch_of_addressed {wants : String → Trigger → Bool} {r : Registry}
    (hkeys : (Keyed.keys r.installed).Nodup) (h : r.Addressed wants) (other : Option String) :
    r.dispatch wants other = r.startEach wants other := by
  have hcollect : r.collect wants =
      (hits wants r.installed).map fun hit => (hit.object, hit.handler.hat) := by
    simp [collect, hits, hitsOf, List.map_flatMap, Function.comp_def]
  rw [dispatch, hcollect]
  exact startAll_hits other h (List.nil_append _).symm hkeys

/-! ### Hats that are not the first -/

theorem live_begun {wants : Trigger → Bool} {handlers : List InstalledHandler}
    {h : InstalledHandler} (hh : h ∈ handlers) (hw : wants h.trigger) (n : Nat) :
    ∃ g ∈ begun wants n handlers, g.hat = h.hat ∧ g.live ≠ none := by
  induction handlers generalizing n with
  | nil => nomatch hh
  | cons k rest ih =>
    rcases List.mem_cons.mp hh with rfl | hh
    · exact ⟨{ h with live := some n }, by simp [begun, hw], rfl, by simp⟩
    · simp only [begun]
      split
      · obtain ⟨g, hg, h⟩ := ih hh (n + 1)
        exact ⟨g, List.mem_cons_of_mem _ hg, h⟩
      · obtain ⟨g, hg, h⟩ := ih hh n
        exact ⟨g, List.mem_cons_of_mem _ hg, h⟩

/-- Only the first handler of a hat is ever live, so those that all start are the first. -/
theorem pairwise_of_begun {wants : Trigger → Bool} {handlers : List InstalledHandler} {n : Nat}
    (h : FirstLive (begun wants n handlers)) :
    handlers.Pairwise fun g h => wants h.trigger → g.hat ≠ h.hat := by
  induction handlers generalizing n with
  | nil => exact .nil
  | cons g rest ih =>
    have hsplit (k : InstalledHandler) (m : Nat) (hhat : k.hat = g.hat)
        (hk : FirstLive (k :: begun wants m rest)) :
        (g :: rest).Pairwise fun g h => wants h.trigger → g.hat ≠ h.hat := by
      obtain ⟨hk, hrest⟩ := List.pairwise_cons.mp hk
      refine List.pairwise_cons.mpr ⟨fun h hh hw heq => ?_, ih hrest⟩
      obtain ⟨g', hg', hhat', hlive⟩ := live_begun hh hw m
      exact hlive (hk g' hg' (by rw [hhat, hhat', heq]))
    simp only [begun] at h
    split at h
    · exact hsplit { g with live := some n } (n + 1) rfl h
    · exact hsplit g n rfl h

theorem mem_begunAll (wants : String → Trigger → Bool) {installed : List (String × Installed)}
    {e : String × Installed} (he : e ∈ installed) (n : Nat) :
    ∃ m, (e.1, { e.2 with handlers := begun (wants e.1) m e.2.handlers }) ∈
      begunAll wants n installed := by
  induction installed generalizing n with
  | nil => nomatch he
  | cons d rest ih =>
    rcases List.mem_cons.mp he with rfl | he
    · exact ⟨n, List.mem_cons_self ..⟩
    · obtain ⟨m, hm⟩ := ih he (n + (hitsOf (wants d.1) d.1 d.2.table d.2.handlers).length)
      exact ⟨m, List.mem_cons_of_mem _ hm⟩

/-- Each handler that a test accepts is started, once and in order, exactly if each of them is the
first of its hat. -/
theorem dispatch_eq_startEach_iff {r : Registry} (hr : r.Sound) (wants : String → Trigger → Bool)
    (other : Option String) :
    r.dispatch wants other = r.startEach wants other ↔ r.Addressed wants := by
  refine ⟨fun h e he => ?_, fun h => dispatch_of_addressed hr.keys h other⟩
  obtain ⟨m, hm⟩ := mem_begunAll wants he r.runs
  have htidy := (dispatch_honest hr wants other).tidy
  rw [h] at htidy
  exact pairwise_of_begun (htidy.first _ hm)

/-! ### Events -/

/-- What scripts are told of; of a collision, one side. -/
inductive Event where
  | broadcast (name : String) (targets : Option (List String))
  | propertyChanged (object : String) (p : TrackedProperty) (v : Value)
  | selectionChanged (object : String) (selected : Bool)
  | collided (object other : String) (phase : CollisionPhase)
  | signal (name : String) (targets : Option (List String)) (payload : List (String × Value))

namespace Event

def perform : Event → Registry → Dispatched
  | broadcast name targets => Registry.broadcast name targets
  | propertyChanged object p v => Registry.propertyChanged object p v
  | selectionChanged object selected => Registry.selectionChanged object selected
  | collided object other phase => Registry.collided object other phase
  | signal name targets payload => Registry.signal name targets payload

/-- The counterpart of an event. -/
def other : Event → Option String
  | collided _ other _ => some other
  | _ => none

/-- Whether an event is for the scripts of an object with a trigger. -/
def Meets : Event → String → Trigger → Prop
  | broadcast name targets, object, .broadcast wanted =>
    wanted = name ∧ ∀ ids, targets = some ids → object ∈ ids
  | propertyChanged id p v, object, .propertyChanged property criterion =>
    object = id ∧ property = p ∧ criterion.accepts v
  | selectionChanged id selected, object, .selectionChanged wanted =>
    object = id ∧ wanted = selected
  | collided id _ phase, object, .collision wanted => object = id ∧ wanted = phase
  | signal name targets payload, object, .signal wanted criteria =>
    wanted = name ∧ (∀ ids, targets = some ids → object ∈ ids) ∧
      ∀ c ∈ criteria, c.2.accepts ((payload.lookup c.1).getD .nothing)
  | _, _, _ => False

theorem isTarget_iff {targets : Option (List String)} {object : String} :
    isTarget targets object ↔ ∀ ids, targets = some ids → object ∈ ids := by
  cases targets <;> simp [isTarget]

/-- An event is a dispatch to what it is for. -/
theorem perform_eq (ev : Event) {wants : String → Trigger → Bool}
    (hw : ∀ object t, wants object t ↔ ev.Meets object t) :
    ev.perform = dispatch wants ev.other := by
  cases ev <;>
  · refine congrArg (dispatch · _) (funext fun object => funext fun t => ?_)
    rw [Bool.eq_iff_iff, hw, Bool.and_eq_true]
    cases t <;> simp [Meets, isTarget_iff, and_comm, and_left_comm]

end Event

/-! ### The order of installation -/

/-- How many calls ago an object was last installed, of calls of which the latest comes first. -/
def age (object : String) : List Call → Nat
  | [] => 0
  | .reinstall o _ _ _ _ :: earlier => if o = object then 0 else age object earlier + 1
  | _ :: earlier => age object earlier + 1

end Registry

/-- A procedure that some admitted graph, in either form, compiles to. -/
def Procedure.Of (admitted : StoredGraph → Prop) (p : Procedure) : Prop :=
  ∃ hasher globals stored g, admitted stored ∧ StoredGraph.toGraph stored = .ok g ∧
    g.compile hasher globals = .ok p

/-- The handlers that an object was given with its graph. -/
def Installed.declared (i : Installed) : List Handler :=
  match i.compiled with
  | some k => k.procedure.handlers
  | none => []

/-- What is installed on an object was compiled from an admitted graph, and its handlers stand as
their hats do in the graph; one more, that outlived another graph, comes last. -/
structure Installed.Declares (admitted : StoredGraph → Prop) (i : Installed) : Prop where
  compiled : ∀ k, i.compiled = some k → k.procedure.Of admitted
  handlers : ∃ outlived : Option Handler,
    (∀ h ∈ outlived, h.descriptor.hat ∉ i.declared.map (·.descriptor.hat)) ∧
      (i.handlers.map (·.handler)).Sublist (i.declared ++ outlived.toList)

namespace Registry

/-- What is installed was compiled from admitted graphs. -/
def Call.From (admitted : StoredGraph → Prop) : Call → Prop
  | reinstall _ _ _ _ (.ok k) => k.procedure.Of admitted
  | _ => True

/-- Objects stand in the order in which they were last installed, and what is on each as its graph
has it. -/
structure Ordered (admitted : StoredGraph → Prop) (calls : List Call) (r : Registry) : Prop where
  ids : r.ids.Pairwise fun a b => age b calls < age a calls
  declares : ∀ e ∈ r.installed, e.2.Declares admitted

section Ordered

variable {admitted : StoredGraph → Prop} {calls : List Call} {r r' : Registry}
  {started : List Started}

theorem Ordered.thinned (h : Ordered admitted calls r) (ht : Thinned r r') :
    Ordered admitted calls r' := by
  refine ⟨h.ids.sublist ht.keys, fun e he => ?_⟩
  obtain ⟨i, hi, -, hc, hs⟩ := ht.installed e he
  obtain ⟨hcompiled, outlived, hnew, hhandlers⟩ := h.declares _ hi
  have hdeclared : i.declared = e.2.declared := by rw [Installed.declared, Installed.declared, hc]
  exact ⟨hc ▸ hcompiled, outlived, hdeclared ▸ hnew, hdeclared ▸ hs.trans hhandlers⟩

theorem Ordered.later (h : Ordered admitted calls r) {c : Call}
    (hc : ∀ object ∈ r.ids, age object (c :: calls) = age object calls + 1) :
    Ordered admitted (c :: calls) r := by
  refine ⟨h.ids.imp_of_mem fun ha hb hab => ?_, h.declares⟩
  rw [hc _ ha, hc _ hb]
  exact Nat.succ_lt_succ hab

theorem Ordered.reinstall (h : Ordered admitted calls r) (object : String) (version : Nat)
    (except : Option String) (freshClone : Bool) {compiled : Except CompileError Compiled}
    (hc : Call.From admitted (.reinstall object version except freshClone compiled)) :
    Ordered admitted (.reinstall object version except freshClone compiled :: calls)
      (r.reinstall object version except freshClone compiled).registry := by
  have hleft {o : String} (ho : o ∈ (r.detach object except).2.registry.ids) : object ≠ o := by
    obtain ⟨i, hi⟩ := Keyed.mem_keys.mp ho
    exact (ne_of_mem_detach hi).symm
  have hdetached : Ordered admitted (.reinstall object version except freshClone compiled :: calls)
      (r.detach object except).2.registry :=
    (h.thinned (thinned_detach object except r)).later fun o ho => if_neg (hleft ho)
  obtain ⟨e, -, -, hr⟩ | ⟨i, ht, -, hi⟩ :=
    reinstall_cases object version except freshClone compiled r
  · rw [hr]
    exact hdetached
  · refine Ordered.thinned ⟨?_, fun e he => ?_⟩ ht
    · rw [Registry.ids, keys_put_of_detach]
      refine List.pairwise_append.mpr ⟨hdetached.ids, List.pairwise_singleton _ _, fun a ha b hb => ?_⟩
      rw [List.mem_singleton.mp hb, age, if_pos rfl, age, if_neg (hleft ha)]
      exact Nat.succ_pos _
    · rcases Keyed.mem_of_mem_put he with he | rfl
      · exact hdetached.declares e he
      · obtain ⟨e, s, -, -, hnone, hhandlers⟩ | ⟨k, rfl, hk, hhandlers⟩ := hi
        · exact ⟨fun k hk => by simp [hnone] at hk, some s.handler.handler,
            by simp [Installed.declared, hnone], by simp [Installed.declared, hnone, hhandlers]⟩
        · have hdeclared : i.declared = k.procedure.handlers := by rw [Installed.declared, hk]
          refine ⟨fun k' hk' => ?_, ?_⟩
          · cases hk.symm.trans hk'
            exact hc
          · obtain hmerge | ⟨s, -, hnew, hmerge⟩ :=
              merge_cases k.procedure (r.detach object except).1
            · exact ⟨none, nofun, by simp [hdeclared, hhandlers, hmerge]⟩
            · refine ⟨some s.handler.handler, ?_, by simp [hdeclared, hhandlers, hmerge]⟩
              rintro _ ⟨⟩
              rw [hdeclared]
              simpa [Procedure.descriptors, InstalledHandler.hat] using hnew

theorem Ordered.call (h : Ordered admitted calls r) (hr : r.Tidy) {c : Call}
    (hc : c.From admitted) : Ordered admitted (c :: calls) (c.perform r).registry := by
  cases c with
  | reinstall object version except freshClone compiled => exact h.reinstall _ _ _ _ hc
  | _ => exact (h.later fun _ _ => rfl).thinned (Call.thinned rfl hr)

theorem Reached.ordered (h : Reached (fun _ c => c.From admitted) calls r started) :
    Ordered admitted calls r := by
  induction h with
  | empty => exact ⟨.nil, nofun⟩
  | call c hc hr ih => exact ih.call hr.sound.toTidy hc
  | finish object hat run _ ih => exact ih.thinned (thinned_finish object hat run _)

/-- Where no procedure has two handlers of one hat, no object has. -/
theorem Ordered.addressed (h : Ordered admitted calls r)
    (hd : ∀ p : Procedure, p.Of admitted → (p.handlers.map (·.descriptor.hat)).Nodup)
    (wants : String → Trigger → Bool) : r.Addressed wants := by
  intro e he
  obtain ⟨hcompiled, outlived, hnew, hhandlers⟩ := h.declares e he
  have hdeclared : (e.2.declared.map (·.descriptor.hat)).Nodup := by
    rw [Installed.declared]
    split
    · next k hk => exact hd _ (hcompiled k hk)
    · exact .nil
  have hall : ((e.2.declared ++ outlived.toList).map (·.descriptor.hat)).Nodup := by
    cases outlived with
    | none => simpa using hdeclared
    | some o =>
      rw [List.map_append]
      exact hdeclared.append (List.nodup_singleton _) (by simpa using hnew o rfl)
  have hhats : (e.2.handlers.map (·.hat)).Nodup := by
    have := (hhandlers.map (·.descriptor.hat)).nodup hall
    rwa [List.map_map] at this
  refine (List.pairwise_map.mp hhats).imp ?_
  intro g h hne _
  exact hne

end Ordered

end Registry

/-! ### Hats of stored graphs -/

/-- The scripts of a graph in the nested form have hats of their own. A graph in the flat form has no
id twice. -/
def StoredGraph.DistinctHats : StoredGraph → Prop
  | flat _ => True
  | nested g => (g.scripts.map (·.1.id)).Nodup

theorem Graph.hats_sublist (blocks : List Block) :
    ((blocks.filterMap Block.script?).map (·.1.id)).Sublist (blocks.map (·.id)) := by
  induction blocks with
  | nil => exact .slnil
  | cons b rest ih =>
    rw [List.filterMap_cons]
    split
    · exact .cons _ ih
    · next s hs =>
      obtain rfl : s.1 = b := by
        simp only [Block.script?] at hs
        split at hs
        · split at hs
          · obtain ⟨first, -, rfl⟩ := Option.map_eq_some_iff.mp hs
            rfl
          · cases hs
        · cases hs
      exact .cons_cons _ ih

theorem FlatGraph.nodup_tops {f : FlatGraph} {g : Graph} (h : f.toGraph = .ok g) :
    (g.blocks.map (·.id)).Nodup := by
  obtain ⟨hf, hspans⟩ := toGraph_eq_ok.mp h
  have hids : g.blocks.map (·.id) = f.tops.map (·.id) := by
    generalize f.tops = tops, g.blocks = blocks at hspans
    induction hspans with
    | nil => rfl
    | @cons n b _ _ hb _ ih =>
      obtain ⟨id, kind, fields, inputs, next⟩ := b
      rw [List.map_cons, List.map_cons, ih, hb.1]
  rw [hids]
  exact hf.ids.sublist (List.filter_sublist.map _)

theorem StoredGraph.nodup_hats {stored : StoredGraph} {g : Graph} (hd : stored.DistinctHats)
    (h : stored.toGraph = .ok g) : (g.scripts.map (·.1.id)).Nodup := by
  cases stored with
  | flat f => exact (FlatGraph.nodup_tops h).sublist (Graph.hats_sublist g.blocks)
  | nested n =>
    cases h
    exact hd

namespace Registry

variable {admitted : StoredGraph → Prop} {calls : List Call} {r : Registry}
  {started : List Started}

/-- An event starts each handler that it is for, once and in order, with the body and the table that
the handler has, and counts them: exactly if each of them is the first of its hat on its object, and
so always where the scripts of every nested graph have hats of their own. Objects stand in the order
in which they were last installed, and the handlers of each in the order of the hats of its graph. -/
theorem Reached.dispatch_exact (h : Reached (fun _ c => c.From admitted) calls r started)
    (ev : Event) {wants : String → Trigger → Bool}
    (hw : ∀ object t, wants object t ↔ ev.Meets object t) :
    (ev.perform r = r.startEach wants ev.other ↔ r.Addressed wants) ∧
    ((∀ stored, admitted stored → stored.DistinctHats) →
      ev.perform r = r.startEach wants ev.other) ∧
    (r.ids.Pairwise fun a b => age b calls < age a calls) ∧
    ∀ e ∈ r.installed, e.2.Declares admitted ∧ ∀ k, e.2.compiled = some k →
      ∃ stored g, admitted stored ∧ StoredGraph.toGraph stored = .ok g ∧
        k.procedure.handlers.map (·.descriptor.hat) = g.scripts.map (·.1.id) := by
  have hordered := h.ordered
  have hexact : ev.perform r = r.startEach wants ev.other ↔ r.Addressed wants := by
    rw [ev.perform_eq hw]
    exact dispatch_eq_startEach_iff h.sound wants ev.other
  refine ⟨hexact, fun hd => hexact.mpr (hordered.addressed ?_ wants), hordered.ids, fun e he => ?_⟩
  · rintro p ⟨hasher, globals, stored, g, hs, hg, hp⟩
    rw [Graph.hats_of_compile hp]
    exact StoredGraph.nodup_hats (hd stored hs) hg
  · refine ⟨hordered.declares e he, fun k hk => ?_⟩
    obtain ⟨hasher, globals, stored, g, hs, hg, hp⟩ := (hordered.declares e he).compiled k hk
    exact ⟨stored, g, hs, hg, Graph.hats_of_compile hp⟩

/-- Two scripts for the message `go`, which set the text of their object. -/
def twoHats (first second : String) : Graph :=
  let script (hat content : String) : Block := ⟨hat, "event_whenbroadcastreceived",
    [("BROADCAST_OPTION", .string "go")], [], some ⟨"set " ++ content, "looks_settext", [],
      [("TEXT", ⟨"text " ++ content, "text", [("TEXT", .string content)], [], none⟩)], none⟩⟩
  ⟨[script first "first", script second "second"]⟩

def twoHatsProcedure (first second : String) : Procedure :=
  let handler (hat content : String) : Handler :=
    ⟨⟨hat, .broadcast "go"⟩, [.effect (.setText (.literal (.text content)))]⟩
  ⟨[handler first "first", handler second "second"], [], []⟩

theorem of_twoHats {first second : String} (stored : StoredGraph)
    (hg : stored.toGraph = .ok (twoHats first second)) (hs : admitted stored) :
    (twoHatsProcedure first second).Of admitted :=
  ⟨fun _ => [], [], stored, _, hs, hg, rfl⟩

def hearsGo (_ : String) : Trigger → Bool
  | .broadcast name => name == "go"
  | _ => false

theorem hearsGo_iff (object : String) (t : Trigger) :
    hearsGo object t ↔ Event.Meets (.broadcast "go" none) object t := by
  cases t <;> simp [hearsGo, Event.Meets]

/-- Two objects with the same two hats, in either form: the message starts all four scripts. -/
theorem dispatch_exact_twoHats : ∃ calls r started,
    Reached (fun _ c => c.From StoredGraph.DistinctHats) calls r started ∧
      (r.broadcast "go" none).count = 4 ∧
      (r.broadcast "go" none).orders.filterMap Order.launched? =
        [⟨"die", "h", 0⟩, ⟨"die", "k", 1⟩, ⟨"cup", "h", 2⟩, ⟨"cup", "k", 3⟩] := by
  have hdie : Reached (fun _ c => c.From StoredGraph.DistinctHats) _ _ _ :=
    .call (.reinstall "die" 0 none false (.ok ⟨0, twoHatsProcedure "h" "k"⟩))
      (of_twoHats (.nested _) rfl (by unfold StoredGraph.DistinctHats; decide)) .empty
  have hcup : Reached (fun _ c => c.From StoredGraph.DistinctHats) _ _ _ :=
    .call (.reinstall "cup" 0 none false (.ok ⟨0, twoHatsProcedure "h" "k"⟩))
      (of_twoHats (.flat (.ofGraph (twoHats "h" "k"))) rfl trivial) hdie
  have hexact := (hcup.dispatch_exact (.broadcast "go" none) hearsGo_iff).2.1 fun _ hs => hs
  refine ⟨_, _, _, hcup, ?_⟩
  rw [show Registry.broadcast "go" none _ = _ from hexact]
  decide

/-- Two scripts under one hat in the nested form: the message starts the first of them twice, and the
second not at all. -/
theorem inexact_twoHats : ¬∀ calls r started,
    Reached (fun _ c => c.From fun _ => True) calls r started →
      ∀ ev : Event, ∀ wants : String → Trigger → Bool,
        (∀ object t, wants object t ↔ ev.Meets object t) →
          ev.perform r = r.startEach wants ev.other := by
  intro hall
  have h : Reached (fun _ c => c.From fun _ => True) _ _ _ :=
    .call (.reinstall "die" 0 none false (.ok ⟨0, twoHatsProcedure "h" "h"⟩))
      (of_twoHats (.nested _) rfl trivial) .empty
  have hexact := hall _ _ _ h (.broadcast "go" none) hearsGo hearsGo_iff
  have haddressed := (dispatch_eq_startEach_iff h.sound hearsGo none).mp hexact
  have hpair := haddressed _ (List.mem_cons_self ..)
  exact List.rel_of_pairwise_cons hpair (List.mem_cons_self ..) rfl rfl

end Registry

end Tabletop
