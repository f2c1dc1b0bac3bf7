import Tabletop.Proofs.Session.Chronicle
import Tabletop.Session.Wait

/-! What the scene tells a session between turns is a part of its history, and leaves it between
turns; so the sessions that an event loop leads to are those that histories lead to. -/

namespace Tabletop

namespace Session

variable {s s' s'' : Session}

/-- What happens to a session between two turns. -/
structure TakesIn (s s' : Session) : Prop where
  chronicle : ∃ news, Chronicle s news s'
  current : s'.current = none

namespace TakesIn

theorem refl (h : s.current = none) : TakesIn s s := ⟨⟨[], .refl⟩, h⟩

theorem trans (h : TakesIn s s') (h' : TakesIn s' s'') : TakesIn s s'' :=
  let ⟨_, hs⟩ := h.chronicle
  let ⟨_, hs'⟩ := h'.chronicle
  ⟨⟨_, hs.trans hs'⟩, h'.current⟩

theorem chapter {news : List Happening} (h : Chapter s news s') (hcur : s'.current = none) :
    TakesIn s s' := ⟨⟨_, Chronicle.refl.next h⟩, hcur⟩

theorem other (h : s.current = none) (hs : Undisturbed s s') (hm : s'.memory = s.memory)
    (hq : s'.queue = s.queue) : TakesIn s s' :=
  chapter (.other hs hm (.inl hq)) (hs.current.trans h)

theorem call (c : Registry.Call) (h : s.current = none) :
    TakesIn s (s.dispatch c.perform).2 :=
  chapter (.call c h) ((grown_dispatch c.perform s).current.trans h)

theorem write (target : WriteTarget) (edit : Edit) (h : s.current = none) :
    TakesIn s (s.write target edit).2 :=
  chapter (.write target edit) ((write_current target edit s).trans h)

/-- What is done for each entry of a list, next to something else that is carried along. -/
theorem foldl {σ α : Type} (g : σ → Session) (f : σ → α → σ)
    (hf : ∀ p a, (g p).current = none → TakesIn (g p) (g (f p a))) (xs : List α) (p : σ)
    (h : (g p).current = none) : TakesIn (g p) (g (xs.foldl f p)) := by
  induction xs generalizing p with
  | nil => exact .refl h
  | cons a rest ih => exact (hf p a h).trans (ih _ (hf p a h).current)

theorem dispatchAll {α : Type} {op : α → Registry → Dispatched}
    (hop : ∀ a, ∃ c : Registry.Call, op a = c.perform) (xs : List α) (h : s.current = none) :
    TakesIn s (s.dispatchAll op xs).2 := by
  simp only [Session.dispatchAll]
  refine foldl Prod.snd _ (fun p a hp => ?_) xs (0, s) h
  obtain ⟨c, hc⟩ := hop a
  rw [hc]
  exact call c hp

theorem uninstall (object : String) (h : s.current = none) : TakesIn s (s.uninstall object) :=
  call (.stop object none) h

theorem forget (id : String) (h : s.current = none) : TakesIn s (s.forget id) :=
  (uninstall id h).trans (other (uninstall id h).current ⟨rfl, rfl, rfl, rfl, rfl⟩ rfl rfl)

theorem install (o : SceneObject) (g : Graph) (version : Nat) (except : Option String)
    (h : s.current = none) : TakesIn s (s.install o g version except).2 := by
  have hcache (cache : ProcedureCache) : TakesIn s { s with cache } :=
    other h ⟨rfl, rfl, rfl, rfl, rfl⟩ rfl rfl
  have hcall (cache : ProcedureCache) (compiled : Except CompileError Compiled) (fresh : Bool) :
      TakesIn s (Session.dispatch (Registry.reinstall o.id version except fresh compiled)
        { s with cache }).2 :=
    (hcache cache).trans (call (.reinstall o.id version except fresh compiled) h)
  simp only [Session.install]
  split
  · exact hcall _ _ _
  · simp only
    split
    · exact (hcall _ _ _).trans (write _ _ (hcall _ _ _).current)
    · exact hcall _ _ _

theorem takeUp (o : SceneObject) (h : s.current = none) : TakesIn s (s.takeUp o).2 := by
  have hhandled (handled : List (String × RecordStamp)) : TakesIn s { s with handled } :=
    other h ⟨rfl, rfl, rfl, rfl, rfl⟩ rfl rfl
  rw [Session.takeUp]
  split
  · split
    · exact (hhandled _).trans (uninstall _ h)
    · exact .refl h
  · extract_lets stamp seen marked
    have hmarked : TakesIn s marked := hhandled _
    split
    · exact .refl h
    · split
      · exact hmarked.trans (uninstall _ h)
      · next version g _ =>
        have hinstall := hmarked.trans (install o g version none h)
        split
        · next heq =>
          rw [heq] at hinstall
          exact hinstall
        · next heq =>
          rw [heq] at hinstall
          exact hinstall.trans (other hinstall.current ⟨rfl, rfl, rfl, rfl, rfl⟩ rfl rfl)

theorem takeUpAll (objects : List SceneObject) (h : s.current = none) :
    TakesIn s (s.takeUpAll objects).2 := by
  simp only [Session.takeUpAll]
  refine foldl Prod.snd _ (fun p o hp => ?_) objects (([], []), s) h
  have ho := takeUp o hp
  split <;> next heq => rw [heq] at ho; exact ho

theorem dispatchProperties (updates : List Update) (h : s.current = none) :
    TakesIn s (s.dispatchProperties updates).2 := by
  have hop (c : String × TrackedProperty × Value) : ∃ d : Registry.Call,
      Registry.propertyChanged c.1 c.2.1 c.2.2 = d.perform := ⟨.propertyChanged .., rfl⟩
  exact dispatchAll hop _ h

theorem dispatchOverlaps (c : Space.OverlapChange) (h : s.current = none) :
    TakesIn s (s.dispatchOverlaps c).2 := by
  have hop (e : Space.Pair × CollisionPhase) : ∃ d : Registry.Call,
      Registry.collision e.1.a e.1.b e.2 = d.perform := ⟨.collision .., rfl⟩
  exact dispatchAll hop _ h

theorem change (snapshot : List SceneObject) (h : s.current = none) :
    TakesIn s (s.change snapshot).2 := by
  have hdiffer (differ : Differ) : TakesIn s { s with differ } :=
    other h ⟨rfl, rfl, rfl, rfl, rfl⟩ rfl rfl
  have hforget (ids : List String) {s' : Session} (hs : TakesIn s s') :
      TakesIn s (ids.foldl (fun s id => s.forget id) s') :=
    hs.trans (foldl id _ (fun s id hs => forget id hs) ids s' hs.current)
  have htakeUp (objects : List SceneObject) {s' : Session} (hs : TakesIn s s') :
      TakesIn s (s'.takeUpAll objects).2 := hs.trans (takeUpAll objects hs.current)
  have hprune (keep : Bool) {s' : Session} (hs : TakesIn s s') :
      TakesIn s (if keep = true then s' else s'.prune) := by
    split
    · exact hs
    · exact hs.trans (other hs.current ⟨rfl, rfl, rfl, rfl, rfl⟩ rfl rfl)
  have hproperties (updates : List Update) {s' : Session} (hs : TakesIn s s') :
      TakesIn s (s'.dispatchProperties updates).2 :=
    hs.trans (dispatchProperties updates hs.current)
  have hoverlaps (overlaps : Space.Overlaps Float) (c : Space.OverlapChange) {s' : Session}
      (hs : TakesIn s s') : TakesIn s (Session.dispatchOverlaps c { s' with overlaps }).2 := by
    have hset : TakesIn s { s' with overlaps } :=
      hs.trans (other hs.current ⟨rfl, rfl, rfl, rfl, rfl⟩ rfl rfl)
    exact hset.trans (dispatchOverlaps c hset.current)
  simp only [Session.change]
  split
  · exact hdiffer _
  · exact hoverlaps _ _ (hproperties _ (hprune _ (htakeUp _ (hforget _ (hdiffer _)))))

theorem select (ids : List String) (h : s.current = none) : TakesIn s (s.select ids).2 := by
  have hop (e : String × Bool) : ∃ d : Registry.Call,
      Registry.selectionChanged e.1 e.2 = d.perform := ⟨.selectionChanged .., rfl⟩
  have hall (xs : List (String × Bool)) (selection : List String) :
      TakesIn s { (s.dispatchAll (fun e => Registry.selectionChanged e.1 e.2) xs).2 with
        selection } :=
    have hxs := dispatchAll hop xs h
    hxs.trans (other hxs.current ⟨rfl, rfl, rfl, rfl, rfl⟩ rfl rfl)
  simp only [Session.select]
  exact hall _ _

theorem apply (e : SceneEvent) (h : s.current = none) : TakesIn s (s.apply e) := by
  cases e with
  | objects snapshot => exact change snapshot h
  | selection ids => exact select ids h
  | broadcast name targets => exact call (.broadcast name targets) h
  | signal name targets payload => exact call (.signal name targets payload) h

end TakesIn

/-! ### The runs of the event loop -/

/-- Nobody has the turn where one of some events arrives. -/
def Between : List SceneEvent → Session → Prop
  | [], _ => True
  | e :: rest, s => s.receive.current = none ∧ Between rest (s.receive.apply e)

/-- Taking in events between turns goes on with a history. -/
theorem Chronicle.of_run {s₀ : Session} {H : List Happening} (h : Chronicle s₀ H s)
    (events : List SceneEvent) (hb : Between events s) :
    ∃ news, Chronicle s₀ (news ++ H) (s.run events) := by
  induction events generalizing s H with
  | nil => exact h.passage (passage_waitUntil ..)
  | cons e rest ih =>
    obtain ⟨hcur, hrest⟩ := hb
    obtain ⟨waited, hreceived⟩ := h.passage (passage_waitUntil (fun _ => some 1) none patience s)
    obtain ⟨told, happlied⟩ := (TakesIn.apply e hcur).chronicle
    obtain ⟨news, hrun⟩ := ih (hreceived.trans happlied) hrest
    refine ⟨news ++ (told ++ waited), ?_⟩
    rw [List.append_assoc, List.append_assoc]
    exact hrun

/-- Deeds lead to what a session is after some events. -/
theorem Lived.of_run (h : Lived s) (events : List SceneEvent) (hb : Between events s) :
    Lived (s.run events) :=
  let ⟨_, hrun⟩ := Chronicle.refl.of_run events hb
  h.deeds hrun.deeds

theorem Reached.of_run (h : Reached s) (events : List SceneEvent) (hb : Between events s) :
    Reached (s.run events) :=
  let ⟨_, hrun⟩ := Chronicle.refl.of_run events hb
  h.moves hrun.deeds.moves

end Session

end Tabletop
