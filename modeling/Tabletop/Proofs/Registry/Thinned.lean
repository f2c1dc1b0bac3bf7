import Tabletop.Proofs.Registry.Layouts

/-! What operations keep of the order in which things are installed. All but a new installation leave
objects and handlers where they stand, or take some out; a new installation takes its object out and
puts it in at the end, with the handlers of the graph in the order of their hats. -/

namespace Tabletop

namespace Registry

/-- What is installed in `r'` is what is in `r`, in the same order, less what was taken out. -/
structure Thinned (r r' : Registry) : Prop where
  keys : (Keyed.keys r'.installed).Sublist (Keyed.keys r.installed)
  installed : ∀ e' ∈ r'.installed, ∃ i, (e'.1, i) ∈ r.installed ∧ i.version = e'.2.version ∧
    i.compiled = e'.2.compiled ∧
    (e'.2.handlers.map (·.handler)).Sublist (i.handlers.map (·.handler))

variable {r r' r'' : Registry}

theorem Thinned.refl (r : Registry) : Thinned r r :=
  ⟨.refl _, fun e he => ⟨e.2, he, rfl, rfl, .refl _⟩⟩

theorem Thinned.trans (h : Thinned r r') (h' : Thinned r' r'') : Thinned r r'' := by
  refine ⟨h'.keys.trans h.keys, fun e he => ?_⟩
  obtain ⟨i', hi', hv', hc', hs'⟩ := h'.installed e he
  obtain ⟨i, hi, hv, hc, hs⟩ := h.installed _ hi'
  exact ⟨i, hi, hv.trans hv', hc.trans hc', hs'.trans hs⟩

theorem thinned_of_eq (h : r'.installed = r.installed) : Thinned r r' := by
  obtain ⟨hkeys, hinstalled⟩ := Thinned.refl r
  exact ⟨h ▸ hkeys, h ▸ hinstalled⟩

/-- Changing what is installed on an object moves nothing. -/
theorem thinned_modify (object : String) (f : Installed → Installed)
    (hi : r'.installed = Keyed.modify object f r.installed)
    (hf : ∀ i, (object, i) ∈ r.installed → i.version = (f i).version ∧ i.compiled = (f i).compiled ∧
      ((f i).handlers.map (·.handler)).Sublist (i.handlers.map (·.handler))) : Thinned r r' := by
  refine ⟨by rw [hi, Keyed.keys_modify], ?_⟩
  rintro ⟨o, j⟩ he
  rcases Keyed.mem_modify.mp (hi ▸ he) with ⟨-, hj⟩ | ⟨rfl, i, hi, rfl⟩
  · exact ⟨j, hj, rfl, rfl, .refl _⟩
  · exact ⟨i, hi, hf i hi⟩

theorem thinned_setLive {object : String} (hat : String) (live : Option Nat)
    (hi : r'.installed = Keyed.modify object
      (fun i => { i with handlers := setLive hat live i.handlers }) r.installed) : Thinned r r' :=
  thinned_modify object _ hi fun i _ => ⟨rfl, rfl, by rw [map_handler_setLive]⟩

theorem thinned_erase (object : String) (r : Registry) :
    Thinned r { r with installed := Keyed.erase object r.installed } :=
  ⟨List.filter_sublist.map _, fun e he => (Thinned.refl r).installed e (Keyed.mem_erase.mp he).1⟩

/-! ### Starts and ends of runs -/

theorem thinned_start (object hat : String) (other : Option String) (r : Registry) :
    Thinned r (r.start object hat other).registry := by
  obtain ⟨i, h, -, -, hs⟩ | hs := start_cases object hat other r
  · rw [hs]
    exact thinned_setLive hat (some r.runs) rfl
  · rw [hs]
    exact thinned_of_eq rfl

theorem thinned_startAll (hits : List (String × String)) (other : Option String) (r : Registry) :
    Thinned r (r.startAll hits other).registry := by
  suffices ∀ d : Dispatched, Thinned r d.registry →
      Thinned r (hits.foldl (fun d hit => d.andThen (start hit.1 hit.2 other)) d).registry from
    this _ (.refl r)
  induction hits with
  | nil => exact fun d h => h
  | cons hit rest ih => exact fun d h => ih _ (h.trans (thinned_start hit.1 hit.2 other d.registry))

theorem thinned_finish (object hat : String) (run : Nat) (r : Registry) :
    Thinned r (r.finish object hat run) := by
  simp only [finish]
  split
  · split
    · exact thinned_setLive hat none rfl
    · exact .refl r
  · exact .refl r

/-! ### Stopping and taking out -/

theorem thinned_stop (hr : r.Tidy) (object : String) (except : Option String) :
    Thinned r (r.stop object except).registry := by
  simp only [stop]
  split
  · exact .refl r
  · next i hi =>
    split
    · exact thinned_erase object r
    · refine thinned_modify object
        (fun j => { j with handlers := i.handlers.filter fun h => except == some h.hat })
        rfl fun j hj => ⟨rfl, rfl, ?_⟩
      obtain rfl := Keyed.eq_of_mem hr.keys hj (hr.installed?.mp hi)
      exact List.filter_sublist.map _

theorem thinned_stopAll (r : Registry) : Thinned r r.stopAll.registry :=
  ⟨List.nil_sublist _, nofun⟩

theorem thinned_detach (object : String) (except : Option String) (r : Registry) :
    Thinned r (r.detach object except).2.registry := by
  obtain ⟨i, -, h⟩ | ⟨-, h⟩ := detach_eq object except r
  · rw [h]
    exact thinned_erase object r
  · rw [h]
    exact .refl r

theorem Call.thinned {c : Call} (hc : c.installs = false) (hr : r.Tidy) :
    Thinned r (c.perform r).registry := by
  cases c with
  | reinstall object version except freshClone compiled => nomatch hc
  | stop object except => exact thinned_stop hr object except
  | stopAll => exact thinned_stopAll r
  | collision a b phase => exact (thinned_startAll _ _ _).trans (thinned_startAll _ _ _)
  | _ => exact thinned_startAll _ _ _

/-! ### Installing anew -/

theorem keys_put_of_detach (object : String) (except : Option String) (i : Installed) :
    Keyed.keys ((r.detach object except).2.registry.put object i).installed =
      Keyed.keys (r.detach object except).2.registry.installed ++ [object] := by
  refine (Keyed.keys_put object i _).trans (if_neg fun hmem => ?_)
  obtain ⟨j, hj⟩ := Keyed.mem_keys.mp hmem
  exact ne_of_mem_detach hj rfl

/-- What becomes of an object on a new installation: nothing is left of it where compiling failed and
no handler survives; else it stands last, with what survives or with the handlers of its graph. -/
theorem reinstall_cases (object : String) (version : Nat) (except : Option String)
    (freshClone : Bool) (compiled : Except CompileError Compiled) (r : Registry) :
    (∃ e, compiled = .error e ∧ (r.detach object except).1 = none ∧
      (r.reinstall object version except freshClone compiled).registry =
        (r.detach object except).2.registry) ∨
    ∃ i, Thinned ((r.detach object except).2.registry.put object i)
        (r.reinstall object version except freshClone compiled).registry ∧ i.version = version ∧
      ((∃ e s, compiled = .error e ∧ (r.detach object except).1 = some s ∧ i.compiled = none ∧
          i.handlers = [s.handler]) ∨
        ∃ k, compiled = .ok k ∧ i.compiled = some k ∧
          i.handlers = merge k.procedure (r.detach object except).1) := by
  cases compiled with
  | error e =>
    cases hs : (r.detach object except).1 with
    | none => exact .inl ⟨e, rfl, rfl, by simp [reinstall, Dispatched.andThen, keep, hs]⟩
    | some s =>
      refine .inr ⟨⟨version, none, s.layout, s.table, [s.handler]⟩, thinned_of_eq ?_, rfl,
        .inl ⟨e, s, rfl, rfl, rfl, rfl⟩⟩
      simp [reinstall, Dispatched.andThen, keep, hs]
  | ok k =>
    obtain ⟨i, hput, hversion, hcompiled, hhandlers⟩ :
        ∃ i, Thinned ((r.detach object except).2.registry.put object i)
          (r.installing object version except k) ∧ i.version = version ∧ i.compiled = some k ∧
          i.handlers = merge k.procedure (r.detach object except).1 :=
      ⟨_, thinned_of_eq rfl, rfl, rfl, rfl⟩
    exact .inr ⟨i, hput.trans (thinned_startAll _ none _), hversion,
      .inr ⟨k, rfl, hcompiled, hhandlers⟩⟩

/-- The handlers of a new installation: those of the graph, and one that survives under a hat that
the graph has not. -/
theorem merge_cases (p : Procedure) (survivor : Option Survivor) :
    (merge p survivor).map (·.handler) = p.handlers ∨
      ∃ s, survivor = some s ∧ s.handler.hat ∉ p.descriptors.map (·.hat) ∧
        (merge p survivor).map (·.handler) = p.handlers ++ [s.handler.handler] := by
  cases survivor with
  | none => exact .inl (by simp [merge, Function.comp_def])
  | some s =>
    simp only [merge]
    split
    · exact .inl (by simp [map_handler_setLive, Function.comp_def])
    · next hnew =>
      refine .inr ⟨s, rfl, ?_, by simp [Function.comp_def]⟩
      simpa [Procedure.descriptors, InstalledHandler.hat] using hnew

/-! ### Versions -/

theorem Thinned.version? (h : Thinned r r') (hr : (Keyed.keys r.installed).Nodup) {object : String}
    {v : Nat} (hv : r'.version? object = some v) : r.version? object = some v := by
  obtain ⟨i', hi', rfl⟩ := Option.map_eq_some_iff.mp hv
  obtain ⟨i, hi, hversion, -⟩ := h.installed _ (Keyed.mem_of_lookup hi')
  rw [Registry.version?, installed?, Keyed.lookup_of_mem hr hi, Option.map_some, hversion]

theorem version?_stop (object : String) (r : Registry) :
    (r.stop object none).registry.version? object = none := by
  cases hi : r.installed? object with
  | none =>
    rw [show r.stop object none = { registry := r } by simp [stop, hi], version?, hi, Option.map_none]
  | some i =>
    have hstop : (r.stop object none).registry.installed = Keyed.erase object r.installed := by
      simp [stop, hi]
    rw [version?, installed?, hstop, Keyed.lookup_erase, if_pos rfl, Option.map_none]

/-- A new installation without a survivor: the object has the new version, if the graph compiled, and
no other object gets one. -/
theorem version?_reinstall (hr : r.Tidy) {object : String} {version : Nat} {freshClone : Bool}
    {compiled : Except CompileError Compiled} {o : String} {v : Nat}
    (hv : (r.reinstall object version none freshClone compiled).registry.version? o = some v) :
    (o ≠ object ∧ r.version? o = some v) ∨ (o = object ∧ v = version ∧ ∃ k, compiled = .ok k) := by
  have hdetached : (r.detach object none).1 = none := by
    obtain ⟨i, -, h⟩ | ⟨-, h⟩ := detach_eq object none r <;> simp [h]
  have hkeys : (Keyed.keys (r.detach object none).2.registry.installed).Nodup :=
    hr.keys.sublist (thinned_detach object none r).keys
  have hold {v : Nat} (h : (r.detach object none).2.registry.version? o = some v) :
      o ≠ object ∧ r.version? o = some v := by
    refine ⟨?_, (thinned_detach object none r).version? hr.keys h⟩
    obtain ⟨i, hi, -⟩ := Option.map_eq_some_iff.mp h
    exact ne_of_mem_detach (Keyed.mem_of_lookup hi)
  obtain ⟨e, -, -, hreg⟩ | ⟨i, ht, rfl, hi⟩ :=
    reinstall_cases object version none freshClone compiled r
  · exact .inl (hold (hreg ▸ hv))
  · have hput := ht.version? (Keyed.nodup_keys_put object i hkeys) hv
    by_cases ho : o = object
    · obtain ⟨e, s, -, hs, -⟩ | ⟨k, hk, -⟩ := hi
      · rw [hdetached] at hs
        nomatch hs
      · subst ho
        refine .inr ⟨rfl, ?_, k, hk⟩
        simpa [version?, installed?, put, Keyed.lookup_put, eq_comm] using hput
    · refine .inl (hold ?_)
      simpa [version?, installed?, put, Keyed.lookup_put, ho] using hput

end Registry

end Tabletop
