import Tabletop.Proofs.Session.Isolation
import Tabletop.Proofs.Session.Shutdown

/-! What a reader sees within a window, beside what the flush of the window leaves on the scene. A
copy takes part in the writes that come after it; those that were queued before it was put there are
missing from it, though not from what is flushed. -/

namespace Tabletop

/-- An object but for when it was written. -/
def SceneObject.unstamped (o : SceneObject) : SceneObject := { o with lastModified := 0 }

namespace WriteQueue

/-- No copy is there before a window is opened. -/
theorem Traffic.Run.cache_of_idle {t : Traffic} (h : t.Run) (hp : t.queue.pending = none) :
    t.queue.cache = [] := by
  have hbegin (window : Nat) (q : WriteQueue) : (q.begin_ window).2.cache = [] := by
    simp only [begin_]
    split <;> rfl
  induction h with
  | start => rfl
  | write target edit => cases (write_pending ..).symm.trans hp
  | @fire t window =>
    have hqueue : (t.fire window).queue = (t.queue.begin_ window).2 := by
      simp only [Traffic.fire]
      split <;> rfl
    rw [hqueue]
    exact hbegin window _
  | answer _ _ _ ih => exact ih hp
  | flush _ ih => exact ih hp
  | @get t id _ ih =>
    have hqueue : (t.get id).queue = t.queue := by
      simp only [Traffic.get]
      split <;> rfl
    rw [hqueue] at hp ⊢
    exact ih hp
  | invalidate => rfl

/-! ### Calls on a queue -/

/-- What is done to a queue in a window: a write, or the copies are dropped. -/
inductive Call where
  | update (target : WriteTarget) (edit : Edit)
  | invalidate

namespace Call

def perform (q : WriteQueue) : Call → WriteQueue
  | update target edit => (q.write target edit).2
  | invalidate => q.invalidate

/-- A call as writers may make it: no edit changes an id, and an object passed in is the one that
the scene holds. -/
def Fits (objects : String → Option SceneObject) : Call → Prop
  | update target edit => (∀ o, (edit o).id = o.id) ∧
    ∀ o, target = .object o → objects o.id = some o
  | invalidate => True

/-- The same call with another edit. -/
def withEdit (f : Edit) : Call → Call
  | update target _ => update target f
  | invalidate => invalidate

theorem Fits.withEdit {objects : String → Option SceneObject} {c : Call} {f : Edit}
    (h : c.Fits objects) (hf : ∀ o, (f o).id = o.id) : (c.withEdit f).Fits objects := by
  cases c with
  | update target edit => exact ⟨hf, h.2⟩
  | invalidate => trivial

end Call

/-- What some calls come to for one object: its edits, and how many of them were queued before its
copy was put there, if it has one. -/
structure Share where
  edits : List Edit := []
  missed : Option Nat := none

namespace Share

/-- A write to the object. Passed in, it has a copy from now on, if it had none before. -/
def write (h : Share) (target : WriteTarget) (edit : Edit) : Share where
  edits := h.edits ++ [edit]
  missed := match target with
    | .id _ => h.missed
    | .object _ => some (h.missed.getD h.edits.length)

def after (id : String) (h : Share) : Call → Share
  | .update target edit => if target.key = id then h.write target edit else h
  | .invalidate => { h with missed := none }

/-- Edits one after another. -/
def applied (edits : List Edit) (o : SceneObject) : SceneObject := edits.foldl (fun o f => f o) o

theorem applied_snoc (edits : List Edit) (f : Edit) (o : SceneObject) :
    applied (edits ++ [f]) o = f (applied edits o) := by
  simp [applied]

/-- The edits that a reader sees. -/
def seen (h : Share) : List Edit := h.edits.drop (h.missed.getD 0)

end Share

open Share (applied)

/-- The part of an object in some calls. -/
def shareOf (id : String) (calls : List Call) : Share := calls.foldl (Share.after id) {}

theorem shareOf_snoc (id : String) (calls : List Call) (c : Call) :
    shareOf id (calls ++ [c]) = (shareOf id calls).after id c := by
  simp [shareOf]

/-- With other edits there are as many, and as many are missing. -/
theorem shareOf_withEdit (id : String) (calls : List Call) (f : Edit) :
    shareOf id (calls.map (Call.withEdit f)) =
      ⟨List.replicate (shareOf id calls).edits.length f, (shareOf id calls).missed⟩ := by
  induction calls using List.reverseRecOn with
  | nil => rfl
  | append_singleton calls c ih =>
    rw [List.map_append, List.map_singleton, shareOf_snoc, shareOf_snoc, ih]
    cases c with
    | invalidate => rfl
    | update target edit =>
      simp only [Call.withEdit, Share.after]
      split
      · simp only [Share.write, List.length_append, List.length_replicate, List.length_singleton,
          List.replicate_succ']
      · rfl

/-- A queue in which some calls were made since it was idle, on a scene with these objects. -/
structure Bears (objects : String → Option SceneObject) (share : Share) (id : String)
    (q : WriteQueue) : Prop where
  queue : (q.queue.filter (·.1 == id)).map (·.2) = share.edits
  cache : q.cached? id = share.missed.bind fun n => (objects id).map (applied (share.edits.drop n))
  missed : ∀ n ∈ share.missed, n ≤ share.edits.length

variable {objects : String → Option SceneObject} {share : Share} {id : String} {q : WriteQueue}
  {target : WriteTarget}

theorem lookup_seed (target : WriteTarget) (cache : List (String × SceneObject)) (j : String) :
    (seed target cache).lookup j = match target with
      | .id _ => cache.lookup j
      | .object o => if j = o.id then some ((cache.lookup j).getD o) else cache.lookup j := by
  cases target with
  | id _ => rfl
  | object o =>
    simp only [seed]
    split
    · next h =>
      obtain ⟨c, hc⟩ := Option.ne_none_iff_exists'.mp
        (mt Keyed.lookup_eq_none.mp (not_not_intro (Keyed.has_iff.mp h)))
      split
      · next hj => rw [hj, hc]; rfl
      · rfl
    · next h =>
      rw [Keyed.lookup_put]
      split
      · next hj =>
        rw [hj, Keyed.lookup_eq_none.mpr (mt Keyed.has_iff.mpr h)]
        rfl
      · rfl

theorem applied_drop_snoc {edits : List Edit} {n : Nat} (hn : n ≤ edits.length) (f : Edit) :
    applied ((edits ++ [f]).drop n) = f ∘ applied (edits.drop n) := by
  funext o
  rw [List.drop_append_of_le_length hn, Share.applied_snoc]
  rfl

theorem cached?_write (target : WriteTarget) (f : Edit) (q : WriteQueue) (j : String) :
    (q.write target f).2.cached? j = if j = target.key
      then ((seed target q.cache).lookup j).map f else (seed target q.cache).lookup j := by
  rw [cached?, write_cache, Keyed.lookup_modify]
  split
  · next h => rw [h]
  · rfl

theorem Bears.write (h : Bears objects share target.key q) {f : Edit}
    (hc : ∀ o, target = .object o → objects o.id = some o) :
    Bears objects (share.write target f) target.key (q.write target f).2 := by
  obtain ⟨hqueue, hcache, hmissed⟩ := h
  have hlonger {n : Nat} (hn : n ≤ share.edits.length) : n ≤ (share.edits ++ [f]).length := by
    rw [List.length_append]
    exact Nat.le_add_right_of_le hn
  refine ⟨?_, ?_, ?_⟩
  · rw [write_queue, List.filter_append, List.map_append, hqueue]
    simp [Share.write]
  · rw [cached?_write, if_pos rfl, lookup_seed]
    cases target with
    | id t =>
      show (q.cached? (WriteTarget.id t).key).map f = _
      rw [hcache]
      cases hn : share.missed with
      | none => simp [Share.write, hn]
      | some n =>
        simp only [Share.write, hn, Option.bind_some, Option.map_map,
          applied_drop_snoc (hmissed n hn)]
    | object o =>
      have ho := hc o rfl
      simp only [WriteTarget.key] at hcache
      show (if o.id = o.id then some ((q.cached? o.id).getD o) else _).map f = _
      rw [if_pos rfl, hcache]
      cases hn : share.missed with
      | none =>
        simp only [Share.write, hn, ho, Option.getD_none, Option.bind_none, Option.bind_some,
          Option.map_some, WriteTarget.key, applied_drop_snoc (Nat.le_refl _)]
        simp [applied]
      | some n =>
        simp [Share.write, hn, ho, WriteTarget.key, applied_drop_snoc (hmissed n hn)]
  · intro n hn
    cases target with
    | id t => exact hlonger (hmissed n hn)
    | object o =>
      obtain rfl : share.missed.getD share.edits.length = n := Option.some.inj hn
      cases hm : share.missed with
      | none => exact hlonger (Nat.le_refl _)
      | some m => exact hlonger (hmissed m hm)

theorem Bears.perform (h : Bears objects share id q) {c : Call} (hc : c.Fits objects) :
    Bears objects (share.after id c) id (c.perform q) := by
  cases c with
  | invalidate => exact ⟨h.queue, rfl, nofun⟩
  | update target f =>
    by_cases hkey : target.key = id
    · subst hkey
      rw [Share.after, if_pos rfl]
      exact h.write hc.2
    · -- What is aimed at another object leaves this one's part alone.
      rw [Share.after, if_neg hkey]
      refine ⟨?_, ?_, h.missed⟩
      · rw [Call.perform, write_queue, List.filter_append, List.map_append, h.queue]
        simp [hkey]
      · rw [Call.perform, cached?_write, if_neg (Ne.symm hkey), lookup_seed, ← h.cache]
        cases target with
        | id t => rfl
        | object o => exact if_neg (Ne.symm hkey)

theorem bears_idle (hqueue : q.queue = []) (hcache : q.cache = []) :
    Bears objects {} id q where
  queue := by rw [hqueue]; rfl
  cache := by rw [cached?, hcache]; rfl
  missed := nofun

/-- What the flush leaves of an object has had all of its edits. -/
theorem Bears.lands (h : Bears objects share id q) {o o' : SceneObject} (ho : o.id = id)
    (hl : q.Lands id o o') : o'.unstamped = (applied share.edits o).unstamped := by
  subst ho
  have hedit : editOf q.queue o = applied share.edits o := by
    rw [← h.queue, applied, List.foldl_map]
    rfl
  rw [Lands] at hl
  split at hl
  · rw [hl, ← hedit]
    rfl
  · next hid =>
    have hnone : share.edits = [] := by
      rw [← h.queue, List.map_eq_nil_iff, List.filter_eq_nil_iff]
      intro w hw hkey
      exact hid (mem_idsOf.mpr ⟨w.2, eq_of_beq hkey ▸ hw⟩)
    rw [hl, hnone]
    rfl

end WriteQueue

open WriteQueue (Call Bears Share shareOf Traffic)

namespace Session

variable {s s' s₀ s₂ : Session} {calls : List Call}

/-! ### Sessions without scripts -/

/-- A session in which no script runs, so that all writes come from outside. -/
structure Unmanned (s : Session) : Prop where
  lived : Lived s
  scripts : s.scripts = []

theorem Unmanned.not_parting (h : Unmanned s) : ¬s.Parting := by
  rintro ⟨t, x, hx, -⟩
  rw [h.scripts] at hx
  nomatch hx

/-- Time passes with nothing done to the queue and the objects, but for the start of a flush. -/
theorem Unmanned.passes (h : Unmanned s) (hp : Passes s s') : Unmanned s' ∧
    (s'.queue = s.queue ∧ s'.scene.objects = s.scene.objects ∨
      ∃ t window due, (t, .flush window due) ∈ s.tasks ∧ s' = s.flushWindow t window) := by
  obtain ⟨m, hm⟩ := h.lived.mirrored
  have hlived := h.lived.deeds (.single hp.deed)
  have hcases : s'.taskCount = s.taskCount ∧
      (s'.queue = s.queue ∧ s'.scene.objects = s.scene.objects ∨
        ∃ t window due, (t, .flush window due) ∈ s.tasks ∧ s' = s.flushWindow t window) := by
    cases hp with
    | idle => exact ⟨rfl, .inl ⟨rfl, rfl⟩⟩
    | turn hs =>
      obtain ha | ⟨t, x, r, _, f, hx, -⟩ | ⟨t, window, due, hw, heq⟩ :=
        (turned_step hs).keeps_or h.lived.reached.orderly.1
      · exact ⟨ha.taskCount, .inl ⟨ha.queue, ha.objects⟩⟩
      · rw [h.scripts] at hx
        nomatch hx
      · obtain ⟨-, hne⟩ := hm.pending hw
        obtain ⟨ready, waiters, hflush⟩ := flushWindow_eq hne t window
        exact ⟨by rw [heq, hflush], .inr ⟨t, window, due, hw, heq⟩⟩
  refine ⟨⟨hlived, List.eq_nil_iff_forall_not_mem.mpr fun e he => ?_⟩, hcases.2⟩
  -- A script would come from one that was there, or would have a number of its own.
  rcases (h.lived.reached.kept hp.move).scripts e.1 e.2 he with ⟨x, hd⟩ | ⟨hle, -⟩
  · have hx := hd.mem
    rw [h.scripts] at hx
    nomatch hx
  · have hlt := hlived.reached.orderly.1.lt he
    omega

/-- The scene keeps its objects under their own ids, which nothing that is queued changes. -/
structure Tidy (s : Session) : Prop where
  scene : s.scene.Labelled
  edits : ∀ w ∈ s.queue.queue, ∀ o, (w.2 o).id = o.id

theorem Tidy.of_eq (h : Tidy s) (hq : s'.queue.queue = s.queue.queue)
    (hs : s'.scene.objects = s.scene.objects) : Tidy s' where
  scene := ⟨hs ▸ h.scene.nodup, hs ▸ h.scene.own⟩
  edits := hq ▸ h.edits

theorem id_edits {writes : List (String × Edit)} (h : ∀ w ∈ writes, ∀ o, (w.2 o).id = o.id)
    (o : SceneObject) : (writes.foldl (fun o w => w.2 o) o).id = o.id := by
  induction writes generalizing o with
  | nil => rfl
  | cons w rest ih =>
    obtain ⟨hw, hrest⟩ := List.forall_mem_cons.mp h
    exact (ih hrest _).trans (hw o)

theorem Tidy.flushed (h : Tidy s) : (s.scene.write s.queue.batch).2.Labelled :=
  h.scene.write fun o => id_edits (fun w hw => h.edits w (List.mem_filter.mp hw).1) o

/-- How far a session without scripts has come since another. -/
structure Tended (s s' : Session) : Prop where
  unmanned : Unmanned s'
  tidy : Tidy s'
  drained : Drained s s'

theorem Unmanned.tends (h : Unmanned s) (ht : Tidy s) (hp : Passes s s') : Tended s s' := by
  obtain ⟨m, hm⟩ := h.lived.mirrored
  obtain ⟨h', ⟨hq, hs⟩ | ⟨t, window, due, hw, heq⟩⟩ := h.passes hp
  · exact ⟨h', ht.of_eq (by rw [hq]) hs, .waits ⟨_, hq⟩ (.of_eq hs)⟩
  · obtain ⟨hpending, hne⟩ := hm.pending hw
    obtain ⟨ready, waiters, hflush⟩ := flushWindow_eq hne t window
    rw [hflush] at heq
    subst heq
    refine ⟨h', ⟨ht.flushed, nofun⟩, .done hpending rfl rfl List.lookup_cons_self ?_⟩
    exact fun hr id => .inl (Scene.lands_write hr id)

theorem Unmanned.passage (h : Unmanned s) (ht : Tidy s) (hp : Passage s s') : Tended s s' := by
  induction hp with
  | refl => exact ⟨h, ht, .waits ⟨_, rfl⟩ (.of_eq rfl)⟩
  | tail _ hp ih =>
    have hnext := ih.unmanned.tends ih.tidy hp
    exact ⟨hnext.unmanned, hnext.tidy,
      ih.drained.trans hnext.drained fun h => absurd h ih.unmanned.not_parting⟩

/-! ### Calls in a window -/

/-- A call on the queue of a session. -/
def make (s : Session) : Call → Session
  | .update target edit => (s.write target edit).2
  | .invalidate => { s with queue := s.queue.invalidate }

/-- Calls one after another, as time passes in which no flush starts. -/
inductive Course (s₀ : Session) : List Call → Session → Prop where
  | start : Course s₀ [] s₀
  | call {calls : List Call} {s : Session} {c : Call} : Course s₀ calls s →
    c.Fits s.scene.object? → Course s₀ (calls ++ [c]) (s.make c)
  | passes {calls : List Call} {s s' : Session} : Course s₀ calls s → Passes s s' →
    s'.queue = s.queue → Course s₀ calls s'

theorem make_queue (s : Session) (c : Call) : (s.make c).queue = c.perform s.queue := by
  cases c with
  | update target edit => exact write_queue target edit s
  | invalidate => rfl

theorem make_scene (s : Session) (c : Call) : (s.make c).scene = s.scene := by
  cases c with
  | update target edit => exact write_scene target edit s
  | invalidate => rfl

theorem Unmanned.make (h : Unmanned s) (c : Call) : Unmanned (s.make c) := by
  cases c with
  | update target edit =>
    exact ⟨h.lived.deeds (.single (.write target edit)),
      (asBefore_write target edit s).scripts.trans h.scripts⟩
  | invalidate =>
    exact ⟨h.lived.deeds (.single (.other ⟨rfl, rfl, rfl, rfl, rfl⟩ (.inr rfl))), h.scripts⟩

theorem Tidy.make (h : Tidy s) {c : Call} (hc : c.Fits s.scene.object?) : Tidy (s.make c) := by
  refine ⟨make_scene s c ▸ h.scene, ?_⟩
  rw [make_queue]
  cases c with
  | update target edit =>
    rw [Call.perform, WriteQueue.write_queue]
    intro w hw
    rcases List.mem_append.mp hw with hw | hw
    · exact h.edits w hw
    · rw [List.mem_singleton.mp hw]
      exact hc.1
  | invalidate => exact h.edits

/-- What a course of calls leads to. -/
structure Along (s₀ : Session) (calls : List Call) (s : Session) : Prop where
  fits : ∀ c ∈ calls, c.Fits s₀.scene.object?
  unmanned : Unmanned s
  tidy : Tidy s
  objects : s.scene.objects = s₀.scene.objects
  bears : ∀ id, Bears s₀.scene.object? (shareOf id calls) id s.queue

theorem Along.object? (h : Along s₀ calls s) : s.scene.object? = s₀.scene.object? := by
  funext id
  rw [Scene.object?, h.objects, Scene.object?]

theorem Along.make (h : Along s₀ calls s) {c : Call} (hc : c.Fits s.scene.object?) :
    Along s₀ (calls ++ [c]) (s.make c) where
  fits := List.forall_mem_append.mpr
    ⟨h.fits, List.forall_mem_singleton.mpr (h.object? ▸ hc)⟩
  unmanned := h.unmanned.make c
  tidy := h.tidy.make hc
  objects := by rw [make_scene, h.objects]
  bears id := by
    rw [make_queue, WriteQueue.shareOf_snoc]
    exact (h.bears id).perform (h.object? ▸ hc)

theorem Along.passes (h : Along s₀ calls s) (hp : Passes s s') (hq : s'.queue = s.queue) :
    Along s₀ calls s' := by
  obtain ⟨m, hm⟩ := h.unmanned.lived.mirrored
  have hobjects : s'.scene.objects = s.scene.objects := by
    obtain ⟨-, ⟨-, hs⟩ | ⟨t, window, due, hw, heq⟩⟩ := h.unmanned.passes hp
    · exact hs
    · -- a flush would have emptied the queue
      obtain ⟨-, hne⟩ := hm.pending hw
      obtain ⟨ready, waiters, hflush⟩ := flushWindow_eq hne t window
      rw [heq, hflush] at hq
      exact absurd (congrArg WriteQueue.queue hq).symm hne
  exact ⟨h.fits, (h.unmanned.passes hp).1, h.tidy.of_eq (by rw [hq]) hobjects,
    hobjects.trans h.objects, fun id => hq ▸ h.bears id⟩

theorem Course.along (h : Course s₀ calls s) (h₀ : Along s₀ [] s₀) : Along s₀ calls s := by
  induction h with
  | start => exact h₀
  | call _ hc ih => exact ih.make hc
  | passes _ hp hq ih => exact ih.passes hp hq

/-! ### Reading within a window -/

theorem along_start (h : Unmanned s₀) (hscene : s₀.scene.Labelled)
    (hidle : s₀.queue.pending = none) : Along s₀ [] s₀ := by
  obtain ⟨m, hm⟩ := h.lived.mirrored
  have hqueue : s₀.queue.queue = [] := (hm.idle hidle).1
  have hcache : s₀.queue.cache = [] := by
    rw [← hm.queue] at hidle ⊢
    exact hm.run.cache_of_idle hidle
  refine ⟨nofun, h, ⟨hscene, ?_⟩, rfl, fun id => WriteQueue.bears_idle hqueue hcache⟩
  rw [hqueue]
  nofun

/-- A reader without a copy waits for just those flushes that one who waits for all writes does. -/
theorem Mirrors.get_of_uncached {m : Traffic} (hm : Mirrors m s) {id : String}
    (hnone : s.queue.cached? id = none) :
    (s.get id).1 = (s.flush.2.scene.read (some (.ids [id]))).getLast? := by
  have hwaits : s.queue.outstanding.foldl (fun s window => (s.waitForWindow window).2) s =
      s.flush.2 := by
    rw [flush, hm.outstanding]
    cases s.queue.pending with
    | none => rfl
    | some window =>
      simp only [Option.toList, List.foldl_cons, List.foldl_nil, waitForWindows]
      split
      · next heq => rw [heq]
      · rfl
  simp only [get, hnone]
  rw [hwaits]

/-- The same object, or none, but for when it was written. -/
def Alike (o o' : Option SceneObject) : Prop :=
  o.map SceneObject.unstamped = o'.map SceneObject.unstamped

/-- After the flush the scene has all of the edits. -/
theorem Along.stored (h : Along s₀ calls s) (hf : s.flush = (.ok (), s₂)) (id : String) :
    Tidy s₂ ∧ Alike (s₂.scene.object? id)
      ((s₀.scene.object? id).map (Share.applied (shareOf id calls).edits)) := by
  obtain ⟨m, hm⟩ := h.unmanned.lived.mirrored
  have hpassage := passage_flush s
  rw [hf] at hpassage
  have htended := h.unmanned.passage h.tidy hpassage
  refine ⟨htended.tidy, ?_⟩
  have hobject : s.scene.object? id = s₀.scene.object? id := congrFun h.object? id
  have hown {o : SceneObject} (ho : s₀.scene.object? id = some o) : o.id = id :=
    h.tidy.scene.own (id, o) (Keyed.mem_of_lookup (hobject.trans ho))
  rcases (hm.landed htended.drained (hm.flush_ok hf)).2 id with hrel | ⟨-, hparting⟩
  · rw [hobject] at hrel
    generalize hs₀ : s₀.scene.object? id = o, s₂.scene.object? id = o' at hrel hown ⊢
    cases hrel with
    | none => rfl
    | some hlands => exact congrArg some ((h.bears id).lands (hown rfl) hlands)
  · exact absurd hparting h.unmanned.not_parting

/-- A reader sees the edits that its copy has. -/
theorem Along.seen (h : Along s₀ calls s) (hf : s.flush = (.ok (), s₂)) (id : String) :
    Alike (s.get id).1 ((s₀.scene.object? id).map (Share.applied (shareOf id calls).seen)) := by
  obtain ⟨m, hm⟩ := h.unmanned.lived.mirrored
  obtain ⟨htidy, hstored⟩ := h.stored hf id
  have hcache := (h.bears id).cache
  rw [Share.seen]
  cases hmissed : (shareOf id calls).missed with
  | some n =>
    rw [hmissed, Option.bind_some] at hcache
    cases hc : s.queue.cached? id with
    | some o =>
      rw [hc] at hcache
      have hget : (s.get id).1 = some o := by simp only [get, hc]
      rw [hget, hcache]
      rfl
    | none =>
      have hnone : s₀.scene.object? id = none := Option.map_eq_none_iff.mp (hcache.symm.trans hc)
      rw [hnone] at hstored ⊢
      rw [hm.get_of_uncached hc, hf, htidy.scene.getLast?_read]
      exact hstored
  | none =>
    rw [hmissed, Option.bind_none] at hcache
    rw [hm.get_of_uncached hcache, hf, htidy.scene.getLast?_read]
    exact hstored

/-! ### Edits that tell -/

/-- Calls without any time between them. -/
theorem course_of_fits (s₀ : Session) (h : ∀ c ∈ calls, c.Fits s₀.scene.object?) :
    ∃ s, Course s₀ calls s ∧ s.scene = s₀.scene := by
  induction calls using List.reverseRecOn with
  | nil => exact ⟨s₀, .start, rfl⟩
  | append_singleton calls c ih =>
    obtain ⟨hcalls, hc⟩ := List.forall_mem_append.mp h
    obtain ⟨s, hs, hscene⟩ := ih hcalls
    refine ⟨s.make c, hs.call ?_, (make_scene s c).trans hscene⟩
    rw [hscene]
    exact hc c (List.mem_singleton_self c)

/-- An edit that can be counted. -/
def mark : Edit := fun o => { o with name := o.name ++ "!" }

theorem length_name_marks (k : Nat) (o : SceneObject) :
    (Share.applied (List.replicate k mark) o).name.length = o.name.length + k := by
  induction k with
  | zero => rfl
  | succ k ih =>
    rw [List.replicate_succ', Share.applied_snoc, mark, String.length_append, ih]
    rfl

/-- An object in a window without other writers. The reader sees the edits that its copy has, and
the flush leaves all of them; so both come to the same object if no edit is missing from the copy.
If one is, then with other edits in the same calls they do not. -/
theorem Course.get_agrees (hc : Course s₀ calls s) (h : Unmanned s₀) (hscene : s₀.scene.Labelled)
    (hidle : s₀.queue.pending = none) (hf : s.flush = (.ok (), s₂)) (id : String) :
    Alike (s.get id).1 ((s₀.scene.object? id).map (Share.applied (shareOf id calls).seen)) ∧
    Alike (s₂.scene.object? id)
      ((s₀.scene.object? id).map (Share.applied (shareOf id calls).edits)) ∧
    ((shareOf id calls).missed.getD 0 = 0 → Alike (s.get id).1 (s₂.scene.object? id)) ∧
    ((shareOf id calls).missed.getD 0 ≠ 0 → (s₀.scene.object? id).isSome →
      ∃ s', Course s₀ (calls.map (Call.withEdit mark)) s' ∧
        ∀ s₃, s'.flush = (.ok (), s₃) → ¬Alike (s'.get id).1 (s₃.scene.object? id)) := by
  have h₀ := along_start h hscene hidle
  have hs := hc.along h₀
  have hseen := hs.seen hf id
  have hstored := (hs.stored hf id).2
  refine ⟨hseen, hstored, fun hnone => ?_, fun hsome ho => ?_⟩
  · rw [Share.seen, hnone, List.drop_zero] at hseen
    exact hseen.trans hstored.symm
  · have hmarked : ∀ c ∈ calls.map (Call.withEdit mark), c.Fits s₀.scene.object? :=
      List.forall_mem_map.mpr fun c hc => (hs.fits c hc).withEdit fun _ => rfl
    obtain ⟨s', hs', -⟩ := course_of_fits s₀ hmarked
    refine ⟨s', hs', fun s₃ hf' halike => ?_⟩
    have halong := hs'.along h₀
    have hboth := ((halong.seen hf' id).symm.trans halike).trans (halong.stored hf' id).2
    obtain ⟨o, ho⟩ := Option.isSome_iff_exists.mp ho
    have hname (edits : List Edit) : (Share.applied edits o).unstamped.name =
        (Share.applied edits o).name := rfl
    rw [ho, Option.map_some, Option.map_some, Option.map_some, Option.map_some,
      Option.some.injEq, Share.seen, WriteQueue.shareOf_withEdit, List.drop_replicate] at hboth
    have hlength := congrArg (fun o => o.name.length) hboth
    simp only [hname, length_name_marks] at hlength
    have hpresent : (shareOf id calls).missed ≠ none := fun hn => hsome (by rw [hn]; rfl)
    obtain ⟨n, hn⟩ := Option.ne_none_iff_exists'.mp hpresent
    have hle := (hs.bears id).missed n hn
    rw [hn] at hsome hlength
    simp only [Option.getD_some] at hsome hlength
    omega

/-! ### A stale copy -/

/-- A session with one object, in which nothing has happened. -/
def still : Session := { config := {}, scene := { objects := [("a", { id := "a" })] } }

theorem unmanned_still : Unmanned still :=
  ⟨⟨still, ⟨rfl, rfl, rfl, rfl⟩, rfl, .refl⟩, rfl⟩

theorem labelled_still : still.scene.Labelled :=
  ⟨List.nodup_singleton _, List.forall_mem_singleton.mpr rfl⟩

/-- A write by id, and one for which the object is passed in. -/
def rename : Call := .update (.id "a") fun o => { o with name := "cup" }

def relabel : Call := .update (.object { id := "a" }) fun o => { o with text := "five" }

theorem fits_rename : rename.Fits still.scene.object? := ⟨fun _ => rfl, nofun⟩

theorem fits_relabel : relabel.Fits still.scene.object? := by
  refine ⟨fun _ => rfl, ?_⟩
  rintro o ⟨⟩
  rfl

/-- Where the object is passed in first, the reader sees both writes. -/
theorem get_agrees_still : ∃ s s₂ : Session, Course still [relabel, rename] s ∧
    s.flush = (.ok (), s₂) ∧ Alike (s.get "a").1 (s₂.scene.object? "a") ∧
    (s₂.scene.object? "a").map (fun o => (o.name, o.text)) = some ("cup", "five") := by
  have hc : Course still [relabel, rename] ((still.make relabel).make rename) :=
    (Course.start.call fits_relabel).call fits_rename
  have hf : ((still.make relabel).make rename).flush =
      (.ok (), ((still.make relabel).make rename).flush.2) := Prod.ext rfl rfl
  have hagrees := hc.get_agrees unmanned_still labelled_still rfl hf "a"
  exact ⟨_, _, hc, hf, hagrees.2.2.1 rfl, by decide +kernel⟩

/-- Where it is passed in second, the copy is without the first one. -/
theorem stale_still : ¬∀ (s₀ s s₂ : Session) (calls : List Call) (id : String), Unmanned s₀ →
    s₀.scene.Labelled → s₀.queue.pending = none → Course s₀ calls s → s.flush = (.ok (), s₂) →
    Alike (s.get id).1 (s₂.scene.object? id) := by
  intro h
  have hc : Course still [rename, relabel] ((still.make rename).make relabel) :=
    (Course.start.call fits_rename).call fits_relabel
  have hf : ((still.make rename).make relabel).flush =
      (.ok (), ((still.make rename).make relabel).flush.2) := Prod.ext rfl rfl
  have hnames := congrArg (Option.map (·.name))
    (h _ _ _ _ "a" unmanned_still labelled_still rfl hc hf)
  revert hnames
  decide +kernel

end Session

end Tabletop
