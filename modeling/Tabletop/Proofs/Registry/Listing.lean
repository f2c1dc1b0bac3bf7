import Tabletop.Proofs.Compile.Scripts
import Tabletop.Proofs.Registry.Layouts

/-! The objects that a registry lists, against those that have a handler. An object is listed as
long as there is an entry for it. Every operation but one leaves an entry only where it leaves a
handler: installing a graph without scripts leaves an entry with none, unless a handler survives. -/

namespace Tabletop

/-- A graph compiles to handlers exactly if it has a script, that is a hat with a successor. -/
theorem Graph.handlers_eq_nil_iff {hasher : Hasher} {globals : List String} {g : Graph}
    {p : Procedure} (hp : g.compile hasher globals = .ok p) : p.handlers = [] ↔ g.scripts = [] := by
  rw [← List.map_eq_nil_iff (f := (·.descriptor.hat)), hats_of_compile hp, List.map_eq_nil_iff]

namespace Registry

variable {r : Registry} {object o : String}

/-! ### Entries -/

/-- The handlers in the entry of an object, if there is one. -/
def handlers? (r : Registry) (object : String) : Option (List Handler) :=
  (r.installed? object).map fun i => i.handlers.map (·.handler)

/-- An object is listed exactly if it has a handler. -/
def Lists (r : Registry) (object : String) : Prop := object ∈ r.ids ↔ r.descriptors object ≠ []

theorem mem_ids_iff : object ∈ r.ids ↔ r.handlers? object ≠ none := by
  rw [ids, handlers?, Ne, Option.map_eq_none_iff, installed?, Keyed.lookup_eq_none, not_not]

theorem descriptors_ne_nil_iff :
    r.descriptors object ≠ [] ↔ ∃ handlers, r.handlers? object = some handlers ∧ handlers ≠ [] := by
  cases hi : r.installed? object <;> simp [descriptors, handlers?, hi]

theorem mem_ids_of_descriptors (h : r.descriptors object ≠ []) : object ∈ r.ids := by
  obtain ⟨handlers, hhandlers, -⟩ := descriptors_ne_nil_iff.mp h
  rw [mem_ids_iff, hhandlers]
  exact Option.some_ne_none handlers

theorem lists_iff : r.Lists object ↔ r.handlers? object ≠ some [] := by
  rw [Lists, mem_ids_iff, descriptors_ne_nil_iff]
  cases r.handlers? object <;> simp

/-! ### Runs come and go -/

theorem handlers?_setLive (object o hat : String) (live : Option Nat) (r : Registry) {r' : Registry}
    (h : r'.installed = Keyed.modify object
      (fun i => { i with handlers := setLive hat live i.handlers }) r.installed) :
    r'.handlers? o = r.handlers? o := by
  rw [handlers?, handlers?, installed?, installed?, h, Keyed.lookup_modify]
  split
  · next ho =>
    rw [ho, Option.map_map]
    exact congrArg (Option.map · _) (funext fun i => map_handler_setLive hat live i.handlers)
  · rfl

theorem handlers?_start (object hat : String) (other : Option String) (r : Registry) (o : String) :
    (r.start object hat other).registry.handlers? o = r.handlers? o := by
  obtain ⟨i, h, -, -, hs⟩ | hs := start_cases object hat other r
  · rw [hs]
    exact handlers?_setLive object o hat (some r.runs) r rfl
  · rw [hs]
    rfl

theorem handlers?_startAll (hits : List (String × String)) (other : Option String) (r : Registry)
    (o : String) : (r.startAll hits other).registry.handlers? o = r.handlers? o := by
  suffices ∀ d : Dispatched, (hits.foldl (fun d hit => d.andThen (start hit.1 hit.2 other)) d
      ).registry.handlers? o = d.registry.handlers? o from this { registry := r }
  induction hits with
  | nil => exact fun _ => rfl
  | cons hit rest ih => exact fun d => (ih _).trans (handlers?_start hit.1 hit.2 other d.registry o)

theorem handlers?_finish (object hat : String) (run : Nat) (r : Registry) (o : String) :
    (r.finish object hat run).handlers? o = r.handlers? o := by
  simp only [finish]
  split
  · split
    · exact handlers?_setLive object o hat none r rfl
    · rfl
  · rfl

/-! ### Stopping -/

theorem handlers?_stop_of_ne (ho : o ≠ object) (except : Option String) :
    (r.stop object except).registry.handlers? o = r.handlers? o := by
  simp only [stop]
  split
  · rfl
  · split
    · simp [handlers?, installed?, Keyed.lookup_erase, ho]
    · simp [handlers?, installed?, Keyed.lookup_modify, ho]

/-- What is left of an object that was stopped has a handler. -/
theorem lists_stop (object : String) (except : Option String) (r : Registry) :
    (r.stop object except).registry.Lists object := by
  rw [lists_iff]
  cases hi : r.installed? object with
  | none => simp [stop, hi, handlers?]
  | some i =>
    simp only [stop, hi]
    split
    · simp [handlers?, installed?, Keyed.lookup_erase]
    · next hkept =>
      rw [List.isEmpty_iff] at hkept
      have hi' : r.installed.lookup object = some i := hi
      simpa [handlers?, installed?, Keyed.lookup_modify, hi'] using hkept

theorem lists_stopAll (r : Registry) (object : String) : r.stopAll.registry.Lists object :=
  lists_iff.mpr nofun

/-! ### Installing -/

theorem handlers?_detach_of_ne (ho : o ≠ object) (except : Option String) (r : Registry) :
    (r.detach object except).2.registry.handlers? o = r.handlers? o := by
  obtain ⟨i, -, h⟩ | ⟨-, h⟩ := detach_eq object except r
  · rw [h]
    simp [handlers?, installed?, Keyed.lookup_erase, ho]
  · rw [h]

theorem handlers?_detach (object : String) (except : Option String) (r : Registry) :
    (r.detach object except).2.registry.handlers? object = none := by
  rw [handlers?, installed?_detach, Option.map_none]

theorem handlers?_put (object : String) (i : Installed) (r : Registry) (o : String) :
    (r.put object i).handlers? o =
      if o = object then some (i.handlers.map (·.handler)) else r.handlers? o := by
  rw [handlers?, installed?, put, Keyed.lookup_put]
  split <;> rfl

theorem handlers?_keep_of_ne (ho : o ≠ object) (version : Nat) (survivor : Option Survivor)
    (r : Registry) : (r.keep object version survivor).handlers? o = r.handlers? o := by
  cases survivor with
  | none => rfl
  | some s => exact (handlers?_put ..).trans (if_neg ho)

theorem handlers?_keep (h : r.handlers? object = none) (version : Nat)
    (survivor : Option Survivor) : (r.keep object version survivor).handlers? object =
      survivor.map fun s => [s.handler.handler] := by
  cases survivor with
  | none => exact h
  | some s => exact (handlers?_put ..).trans (if_pos rfl)

theorem merge_eq_nil_iff (p : Procedure) (survivor : Option Survivor) :
    merge p survivor = [] ↔ p.handlers = [] ∧ survivor = none := by
  cases survivor with
  | none => simp [merge]
  | some s =>
    simp only [merge, reduceCtorEq, and_false, iff_false]
    split
    · next hany =>
      -- A graph with a handler of the survivor's hat has a handler.
      obtain ⟨h, hh, -⟩ := List.any_eq_true.mp hany
      intro hnil
      have hmap := congrArg (List.map (·.handler)) hnil
      rw [map_handler_setLive, List.map_nil, List.map_eq_nil_iff] at hmap
      simp [hmap] at hh
    · simp

/-- Whether a call puts a handler in wherever it puts an entry in. -/
def Call.Fills (object : String) (r : Registry) : Call → Prop
  | reinstall o _ except _ (.ok k) =>
    o = object → k.procedure.handlers ≠ [] ∨ (r.detach o except).1 ≠ none
  | _ => True

/-- Whether a call decides anew what is installed on an object. -/
def Call.settles (object : String) : Call → Bool
  | reinstall o _ _ _ _ => o == object
  | stop o _ => o == object
  | stopAll => true
  | _ => false

theorem handlers?_reinstall_of_ne (ho : o ≠ object) (version : Nat) (except : Option String)
    (freshClone : Bool) (compiled : Except CompileError Compiled) (r : Registry) :
    (r.reinstall object version except freshClone compiled).registry.handlers? o =
      r.handlers? o := by
  refine Eq.trans ?_ (handlers?_detach_of_ne ho except r)
  cases compiled with
  | error e => exact handlers?_keep_of_ne ho version (r.detach object except).1 _
  | ok k =>
    refine (handlers?_startAll _ none (r.installing object version except k) o).trans ?_
    exact (handlers?_put ..).trans (if_neg ho)

/-- A new installation leaves its object listed without a handler if it puts none in. -/
theorem lists_reinstall (object : String) (version : Nat) (except : Option String)
    (freshClone : Bool) (compiled : Except CompileError Compiled) (r : Registry) :
    (r.reinstall object version except freshClone compiled).registry.Lists object ↔
      Call.Fills object r (.reinstall object version except freshClone compiled) := by
  rw [lists_iff]
  cases compiled with
  | error e =>
    have hhandlers :
        (r.reinstall object version except freshClone (.error e)).registry.handlers? object =
          (r.detach object except).1.map fun s => [s.handler.handler] :=
      handlers?_keep (handlers?_detach object except r) version _
    refine iff_of_true ?_ trivial
    rw [hhandlers]
    cases (r.detach object except).1 <;> simp
  | ok k =>
    have hhandlers :
        (r.reinstall object version except freshClone (.ok k)).registry.handlers? object =
          some ((merge k.procedure (r.detach object except).1).map (·.handler)) :=
      (handlers?_startAll _ none (r.installing object version except k) object).trans
        ((handlers?_put ..).trans (if_pos rfl))
    rw [hhandlers, Ne, Option.some.injEq, List.map_eq_nil_iff, merge_eq_nil_iff, not_and_or]
    exact ⟨fun h _ => h, fun h => h rfl⟩

/-! ### Histories -/

theorem handlers?_perform {c : Call} (hc : c.settles object = false) (r : Registry) :
    (c.perform r).registry.handlers? object = r.handlers? object := by
  cases c with
  | reinstall o version except freshClone compiled =>
    exact handlers?_reinstall_of_ne (beq_eq_false_iff_ne.mp hc).symm version except freshClone
      compiled r
  | stop o except => exact handlers?_stop_of_ne (beq_eq_false_iff_ne.mp hc).symm except
  | stopAll => nomatch hc
  | collision a b phase => exact (handlers?_startAll ..).trans (handlers?_startAll ..)
  | _ => exact handlers?_startAll ..

theorem lists_perform (c : Call) (object : String) (r : Registry) :
    (c.perform r).registry.Lists object ↔
      if c.settles object then c.Fills object r else r.Lists object := by
  split
  · next hc =>
    cases c with
    | reinstall o version except freshClone compiled =>
      obtain rfl := beq_iff_eq.mp hc
      exact lists_reinstall o version except freshClone compiled r
    | stop o except =>
      obtain rfl := beq_iff_eq.mp hc
      exact iff_of_true (lists_stop o except r) trivial
    | stopAll => exact iff_of_true (lists_stopAll r object) trivial
    | _ => nomatch hc
  · next hc => rw [lists_iff, lists_iff, handlers?_perform (Bool.eq_false_iff.mpr hc)]

theorem lists_finish (object hat : String) (run : Nat) (r : Registry) (o : String) :
    (r.finish object hat run).Lists o ↔ r.Lists o := by
  rw [lists_iff, lists_iff, handlers?_finish]

variable {admits : Registry → Call → Prop} {calls : List Call} {started : List Started}

/-- No object is listed twice, and none that has a handler is left out. Whether an object is listed
only as long as it has a handler is up to the last call that decided what is installed on it: that
is so unless the call installed a graph without scripts, and nothing survived. So the listing is
exact if no call did. -/
theorem Reached.ids_exact (h : Reached admits calls r started) :
    r.ids.Nodup ∧ (∀ object, r.descriptors object ≠ [] → object ∈ r.ids) ∧
      (∀ (c : Call) object, (c.perform r).registry.Lists object ↔
        if c.settles object then c.Fills object r else r.Lists object) ∧
      ((∀ r (c : Call), admits r c → ∀ object, c.Fills object r) →
        ∀ object, object ∈ r.ids ↔ r.descriptors object ≠ []) ∧
      ∀ hasher globals g p, Graph.compile hasher globals g = .ok p →
        (p.handlers = [] ↔ g.scripts = []) := by
  refine ⟨h.sound.keys, fun _ => mem_ids_of_descriptors, fun c object => lists_perform c object r,
    fun hfills object => ?_, fun _ _ _ _ => Graph.handlers_eq_nil_iff⟩
  show r.Lists object
  induction h with
  | empty => exact lists_iff.mpr nofun
  | call c hc _ ih =>
    refine (lists_perform c object _).mpr ?_
    split
    · exact hfills _ c hc object
    · exact ih
  | finish o hat run _ ih => exact (lists_finish o hat run _ object).mpr ih

/-- A hat without a script. -/
def lone : Graph := ⟨[⟨"hat", "event_immediately", [], [], none⟩]⟩

/-- What it compiles to. -/
def loneProcedure : Procedure := ⟨[], [], []⟩

/-- Puts the hat on an object, on which the handler of the hat `except` goes on. -/
def bare (except : Option String) : Call := .reinstall "die" 1 except false (.ok ⟨1, loneProcedure⟩)

/-- Where a handler survives the lone hat may come: the object is still listed with a handler. -/
theorem ids_exact_survivor :
    ∃ calls r started, Reached (fun r c => ∀ object, c.Fills object r) calls r started ∧
      bare (some "hears") ∈ calls ∧ r.ids = ["die"] ∧
      ∀ object, object ∈ r.ids ↔ r.descriptors object ≠ [] := by
  have hfirst : Reached (fun r c => ∀ object, c.Fills object r) _ _ _ :=
    .call (setter none "hears" "a") (fun _ _ => .inl (by decide)) .empty
  have h : Reached (fun r c => ∀ object, c.Fills object r) _ _ _ :=
    .call (bare (some "hears")) (fun _ _ => .inr (by decide)) hfirst
  exact ⟨_, _, _, h, List.mem_cons_self .., by decide, h.ids_exact.2.2.2.1 fun _ _ hc => hc⟩

/-- The lone hat alone leaves its object listed without a handler. -/
theorem listed_without_handler :
    ¬∀ calls r started, Reached (fun _ c => c.Compiled) calls r started →
      ∀ object, object ∈ r.ids ↔ r.descriptors object ≠ [] := by
  intro hall
  have h : Reached (fun _ c => c.Compiled) _ _ _ :=
    .call (bare none) ⟨fun _ => [], [], lone, rfl⟩ .empty
  exact (hall _ _ _ h "die").mp (by decide) rfl

end Registry

end Tabletop
