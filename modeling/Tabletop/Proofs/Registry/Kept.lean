import Tabletop.Proofs.Registry.Honest

/-! What operations keep of what is installed. A start and the end of a run change nothing but which
runs are live; stopping, and a graph that does not compile, only take handlers out. What an
operation launches was installed before it. -/

namespace Tabletop

namespace Registry

/-- All that is installed in `r'` is in `r`, up to what is live. -/
structure Kept (r r' : Registry) : Prop where
  tables : r'.tables = r.tables
  installed : ∀ e' ∈ r'.installed, ∃ i, (e'.1, i) ∈ r.installed ∧ i.layout = e'.2.layout ∧
    i.table = e'.2.table ∧ ∀ h' ∈ e'.2.handlers, ∃ h ∈ i.handlers, h.handler = h'.handler

/-- A run of a handler that is installed. -/
def Serves (r : Registry) (l : Launch) : Prop :=
  ∃ i, (l.object, i) ∈ r.installed ∧ l.table = i.table ∧
    ∃ h ∈ i.handlers, h.hat = l.hat ∧ l.body = h.handler.body

/-- An operation that installs nothing new, and that launches what is installed. -/
structure Plain (r : Registry) (d : Dispatched) : Prop where
  kept : Kept r d.registry
  serves : ∀ l, .launch l ∈ d.orders → Serves r l

section Kept

variable {r r' r'' : Registry}

theorem Kept.refl (r : Registry) : Kept r r :=
  ⟨rfl, fun e he => ⟨e.2, he, rfl, rfl, fun h hh => ⟨h, hh, rfl⟩⟩⟩

theorem Kept.trans (h : Kept r r') (h' : Kept r' r'') : Kept r r'' := by
  refine ⟨h'.tables.trans h.tables, fun e he => ?_⟩
  obtain ⟨i', hi', hl', ht', hs'⟩ := h'.installed e he
  obtain ⟨i, hi, hl, ht, hs⟩ := h.installed _ hi'
  refine ⟨i, hi, hl.trans hl', ht.trans ht', fun g hg => ?_⟩
  obtain ⟨g', hg', heq'⟩ := hs' g hg
  obtain ⟨g₀, hg₀, heq⟩ := hs g' hg'
  exact ⟨g₀, hg₀, heq.trans heq'⟩

theorem Kept.serves (h : Kept r r') {l : Launch} (hl : Serves r' l) : Serves r l := by
  obtain ⟨i', hi', ht', g', hg', hhat, hbody⟩ := hl
  obtain ⟨i, hi, -, ht, hs⟩ := h.installed _ hi'
  obtain ⟨g, hg, heq⟩ := hs g' hg'
  refine ⟨i, hi, ht'.trans ht.symm, g, hg, ?_, ?_⟩
  · rw [← hhat, InstalledHandler.hat, InstalledHandler.hat, heq]
  · rw [hbody, heq]

theorem Plain.refl (r : Registry) : Plain r { registry := r } :=
  ⟨.refl r, by simp⟩

theorem Plain.andThen {d : Dispatched} {op : Registry → Dispatched} (h : Plain r d)
    (h' : Plain d.registry (op d.registry)) : Plain r (d.andThen op) := by
  refine ⟨h.kept.trans h'.kept, fun l hl => ?_⟩
  rcases List.mem_append.mp hl with hl | hl
  · exact h.serves l hl
  · exact h.kept.serves (h'.serves l hl)

theorem launch_notMem_cancelAll (hs : List InstalledHandler) (l : Launch) :
    .launch l ∉ cancelAll hs := by
  simp [cancelAll]

theorem map_handler_setLive (hat : String) (live : Option Nat) (hs : List InstalledHandler) :
    (setLive hat live hs).map (·.handler) = hs.map (·.handler) := by
  induction hs with
  | nil => rfl
  | cons h rest ih =>
    simp only [setLive]
    split
    · rfl
    · rw [List.map_cons, List.map_cons, ih]

theorem exists_of_map_eq {hs hs' : List InstalledHandler}
    (heq : hs'.map (·.handler) = hs.map (·.handler)) {h' : InstalledHandler} (hh' : h' ∈ hs') :
    ∃ h ∈ hs, h.handler = h'.handler :=
  List.mem_map.mp (heq ▸ List.mem_map_of_mem hh')

/-- Changing what is installed on an object keeps to it, where no handler is new. -/
theorem kept_modify (object : String) (f : Installed → Installed)
    (hi : r'.installed = Keyed.modify object f r.installed) (ht : r'.tables = r.tables)
    (hf : ∀ i, (object, i) ∈ r.installed → i.layout = (f i).layout ∧ i.table = (f i).table ∧
      ∀ h' ∈ (f i).handlers, ∃ h ∈ i.handlers, h.handler = h'.handler) : Kept r r' := by
  refine ⟨ht, ?_⟩
  rintro ⟨o, j⟩ he
  rcases Keyed.mem_modify.mp (hi ▸ he) with ⟨-, hj⟩ | ⟨rfl, i, hi, rfl⟩
  · exact (Kept.refl r).installed _ hj
  · exact ⟨i, hi, hf i hi⟩

/-- Setting what is live on an object changes nothing else. -/
theorem kept_setLive {object : String} (hat : String) (live : Option Nat)
    (hi : r'.installed = Keyed.modify object
      (fun i => { i with handlers := setLive hat live i.handlers }) r.installed)
    (ht : r'.tables = r.tables) : Kept r r' ∧ Kept r' r := by
  have hmap (i : Installed) := map_handler_setLive hat live i.handlers
  refine ⟨kept_modify object _ hi ht fun i _ => ⟨rfl, rfl, fun h hh => exists_of_map_eq (hmap i) hh⟩,
    ht.symm, ?_⟩
  rw [hi]
  rintro ⟨o, i⟩ he
  by_cases ho : o = object
  · subst ho
    exact ⟨_, Keyed.mem_modify.mpr (.inr ⟨rfl, i, he, rfl⟩), rfl, rfl,
      fun h hh => exists_of_map_eq (hmap i).symm hh⟩
  · exact ⟨i, Keyed.mem_modify.mpr (.inl ⟨ho, he⟩), rfl, rfl, fun h hh => ⟨h, hh, rfl⟩⟩

theorem plain_start (object hat : String) (other : Option String) (r : Registry) :
    Plain r (r.start object hat other) ∧ Kept (r.start object hat other).registry r := by
  obtain ⟨i, h, hi, hh, hs⟩ | hs := start_cases object hat other r
  · rw [hs]
    set now : Registry := { r with
      runs := r.runs + 1
      installed := Keyed.modify object
        (fun i => { i with handlers := setLive hat (some r.runs) i.handlers }) r.installed }
    obtain ⟨hk, hk'⟩ : Kept r now ∧ Kept now r := kept_setLive hat (some r.runs) rfl rfl
    refine ⟨⟨hk, fun l hl => ?_⟩, hk'⟩
    rcases List.mem_append.mp hl with hl | hl
    · exact absurd hl (launch_notMem_cancelAll _ l)
    · cases List.mem_singleton.mp hl
      exact ⟨i, Keyed.mem_of_lookup hi, rfl, h, List.mem_of_find?_eq_some hh, hat_of_find? hh, rfl⟩
  · rw [hs]
    have hsame {r r' : Registry} (ht : r'.tables = r.tables) (hi : r'.installed = r.installed) :
        Kept r r' := ⟨ht, hi ▸ (Kept.refl r).installed⟩
    exact ⟨⟨hsame rfl rfl, by simp⟩, hsame rfl rfl⟩

theorem plain_startAll (hits : List (String × String)) (other : Option String) (r : Registry) :
    Plain r (r.startAll hits other) ∧ Kept (r.startAll hits other).registry r := by
  suffices ∀ d : Dispatched, Plain r d → Kept d.registry r →
      Plain r (hits.foldl (fun d hit => d.andThen (start hit.1 hit.2 other)) d) ∧
        Kept (hits.foldl (fun d hit => d.andThen (start hit.1 hit.2 other)) d).registry r from
    this _ (.refl r) (.refl r)
  induction hits with
  | nil => exact fun d h h' => ⟨h, h'⟩
  | cons hit rest ih =>
    intro d h h'
    obtain ⟨hp, hk⟩ := plain_start hit.1 hit.2 other d.registry
    exact ih _ (h.andThen hp) (hk.trans h')

theorem plain_dispatch (wants : String → Trigger → Bool) (other : Option String) (r : Registry) :
    Plain r (r.dispatch wants other) :=
  (plain_startAll _ _ _).1

theorem kept_finish (object hat : String) (run : Nat) (r : Registry) :
    Kept r (r.finish object hat run) := by
  simp only [finish]
  split
  · split
    · exact And.left (kept_setLive hat none rfl rfl)
    · exact .refl r
  · exact .refl r

theorem kept_erase (object : String) (r : Registry) :
    Kept r { r with installed := Keyed.erase object r.installed } :=
  ⟨rfl, fun e he => (Kept.refl r).installed e (Keyed.mem_erase.mp he).1⟩

theorem plain_stop (hr : r.Tidy) (object : String) (except : Option String) :
    Plain r (r.stop object except) := by
  simp only [stop]
  split
  · exact .refl r
  · next i hi =>
    refine ⟨?_, fun l hl => absurd hl (launch_notMem_cancelAll _ l)⟩
    split
    · exact kept_erase object r
    · refine kept_modify object
        (fun j => { j with handlers := i.handlers.filter fun h => except == some h.hat })
        rfl rfl fun j hj => ⟨rfl, rfl, fun h hh => ?_⟩
      obtain rfl := Keyed.eq_of_mem hr.keys hj (hr.installed?.mp hi)
      exact ⟨h, (List.mem_filter.mp hh).1, rfl⟩

theorem plain_stopAll (r : Registry) : Plain r r.stopAll :=
  ⟨⟨rfl, nofun⟩, fun l hl => absurd hl (launch_notMem_cancelAll _ l)⟩

/-! ### Calls that install nothing -/

theorem detach_eq (object : String) (except : Option String) (r : Registry) :
    (∃ i, r.installed? object = some i ∧ r.detach object except =
      ((i.handlers.find? (except == some ·.hat)).map (⟨·, i.layout, i.table⟩),
        { registry := { r with installed := Keyed.erase object r.installed }
          orders := cancelAll (i.handlers.eraseP (except == some ·.hat)) })) ∨
      (r.installed? object = none ∧ r.detach object except = (none, { registry := r })) := by
  cases hi : r.installed? object with
  | none => exact .inr ⟨rfl, by simp [detach, hi]⟩
  | some i => exact .inl ⟨i, rfl, by simp [detach, hi]⟩

theorem plain_detach (object : String) (except : Option String) (r : Registry) :
    Plain r (r.detach object except).2 := by
  obtain ⟨i, -, h⟩ | ⟨-, h⟩ := detach_eq object except r
  · rw [h]
    exact ⟨kept_erase object r, fun l hl => absurd hl (launch_notMem_cancelAll _ l)⟩
  · rw [h]
    exact .refl r

/-- Nothing is left of an object that was taken out. -/
theorem ne_of_mem_detach {object : String} {except : Option String} {e : String × Installed}
    (he : e ∈ (r.detach object except).2.registry.installed) : e.1 ≠ object := by
  obtain ⟨i, -, h⟩ | ⟨hi, h⟩ := detach_eq object except r
  · rw [h] at he
    exact (Keyed.mem_erase.mp he).2
  · rw [h] at he
    rintro rfl
    exact Keyed.lookup_eq_none.mp hi (Keyed.mem_keys.mpr ⟨e.2, he⟩)

theorem installed?_detach (object : String) (except : Option String) (r : Registry) :
    (r.detach object except).2.registry.installed? object = none := by
  refine Keyed.lookup_eq_none.mpr fun hmem => ?_
  obtain ⟨i, hi⟩ := Keyed.mem_keys.mp hmem
  exact ne_of_mem_detach hi rfl

/-- A survivor was installed, with its layout and table. -/
theorem survivor_mem {object : String} {except : Option String} {s : Survivor}
    (hs : (r.detach object except).1 = some s) : ∃ i, (object, i) ∈ r.installed ∧
      i.layout = s.layout ∧ i.table = s.table ∧ s.handler ∈ i.handlers := by
  obtain ⟨i, hi, h⟩ | ⟨-, h⟩ := detach_eq object except r
  · rw [h] at hs
    obtain ⟨g, hg, rfl⟩ := Option.map_eq_some_iff.mp hs
    exact ⟨i, Keyed.mem_of_lookup hi, rfl, rfl, List.mem_of_find?_eq_some hg⟩
  · rw [h] at hs
    nomatch hs

/-- Where compiling fails, only a survivor stays. -/
theorem plain_reinstall_error (object : String) (version : Nat) (except : Option String)
    (freshClone : Bool) (e : CompileError) (r : Registry) :
    Plain r (r.reinstall object version except freshClone (.error e)) := by
  obtain ⟨hk, hl⟩ := plain_detach object except r
  refine ⟨?_, fun l h => hl l (by simpa [reinstall, Dispatched.andThen] using h)⟩
  show Kept r ((r.detach object except).2.registry.keep object version (r.detach object except).1)
  cases hs : (r.detach object except).1 with
  | none => exact hk
  | some s =>
    refine ⟨hk.tables, fun g hg => ?_⟩
    rcases Keyed.mem_of_mem_put hg with hg | rfl
    · exact hk.installed g hg
    · obtain ⟨i, hi, hlayout, htable, hmem⟩ := survivor_mem hs
      exact ⟨i, hi, hlayout, htable, fun h hh => ⟨s.handler, hmem, List.mem_singleton.mp hh ▸ rfl⟩⟩

end Kept

/-! ### Handlers of a new installation -/

theorem mem_merge {p : Procedure} {survivor : Option Survivor} {h : InstalledHandler}
    (hh : h ∈ merge p survivor) : h.handler ∈ p.handlers ∨
      ∃ s, survivor = some s ∧ s.handler.hat ∉ p.descriptors.map (·.hat) ∧ h = s.handler := by
  have hfresh {h : InstalledHandler} (hh : h ∈ p.handlers.map fun h => (⟨h, none⟩ : InstalledHandler)) :
      h.handler ∈ p.handlers := by
    obtain ⟨g, hg, rfl⟩ := List.mem_map.mp hh
    exact hg
  cases survivor with
  | none => exact .inl (hfresh hh)
  | some s =>
    simp only [merge] at hh
    split at hh
    · obtain ⟨g, hg, heq⟩ := exists_of_map_eq (map_handler_setLive _ _ _) hh
      exact .inl (heq ▸ hfresh hg)
    · next hnew =>
      rcases List.mem_append.mp hh with hh | hh
      · exact .inl (hfresh hh)
      · refine .inr ⟨s, rfl, fun hmem => hnew ?_, List.mem_singleton.mp hh⟩
        simpa [Procedure.descriptors, InstalledHandler.hat] using hmem

theorem survivor_mem_merge {p : Procedure} {s : Survivor}
    (hs : s.handler.hat ∉ p.descriptors.map (·.hat)) : s.handler ∈ merge p (some s) := by
  have hnew : (p.handlers.map fun h => (⟨h, none⟩ : InstalledHandler)).any
      (·.hat == s.handler.hat) = false := by
    simpa [Procedure.descriptors, InstalledHandler.hat] using hs
  simp [merge, hnew]

end Registry

end Tabletop
