import Mathlib.Data.List.Induction
import Tabletop.Proofs.Keyed
import Tabletop.WriteQueue

/-! Writes, flushes, answers of a host and reads, in any order. Every write is still queued, or it
went to the host in one call, which is that of its window; and what the host answers to this call is
the result of the window. -/

namespace Tabletop

namespace WriteQueue

/-! ### Batches -/

theorem idsOf_ne_nil {writes : List (String × Edit)} (h : writes ≠ []) : idsOf writes ≠ [] := by
  cases writes with
  | nil => exact absurd rfl h
  | cons w rest => simp [idsOf, Keyed.keys, List.eraseDups_cons]

theorem mem_idsOf {writes : List (String × Edit)} {id : String} :
    id ∈ idsOf writes ↔ ∃ edit, (id, edit) ∈ writes := by
  rw [idsOf, List.mem_eraseDups, Keyed.mem_keys]

theorem pairwise_eraseDups (l : List String) :
    l.eraseDups.Pairwise fun a b => l.idxOf a < l.idxOf b := by
  -- what comes last is new, or it was there before
  induction l using List.reverseRecOn with
  | nil => exact .nil
  | append_singleton l x ih =>
    have hsame {a : String} (ha : a ∈ l) : (l ++ [x]).idxOf a = l.idxOf a := by
      rw [List.idxOf_append, if_pos ha]
    have hold : l.eraseDups.Pairwise fun a b => (l ++ [x]).idxOf a < (l ++ [x]).idxOf b := by
      refine ih.imp_of_mem fun ha hb hab => ?_
      rw [hsame (List.mem_eraseDups.mp ha), hsame (List.mem_eraseDups.mp hb)]
      exact hab
    rw [List.eraseDups_append]
    by_cases hx : x ∈ l
    · rw [show [x].removeAll l = [] by simp [List.removeAll, hx]]
      simpa using hold
    · rw [show [x].removeAll l = [x] by simp [List.removeAll, hx]]
      refine List.pairwise_append.mpr ⟨hold, by simp [List.eraseDups_cons], fun a ha b hb => ?_⟩
      obtain rfl : b = x := by simpa [List.eraseDups_cons] using hb
      rw [hsame (List.mem_eraseDups.mp ha), List.idxOf_append, if_neg hx]
      have := List.idxOf_lt_length_of_mem (List.mem_eraseDups.mp ha)
      omega

/-- The ids come in the order of their first write. -/
theorem pairwise_idsOf (writes : List (String × Edit)) :
    (idsOf writes).Pairwise fun a b => (Keyed.keys writes).idxOf a < (Keyed.keys writes).idxOf b :=
  pairwise_eraseDups _

theorem nodup_idsOf (writes : List (String × Edit)) : (idsOf writes).Nodup :=
  List.nodup_iff_pairwise_ne.mpr ((pairwise_idsOf writes).imp fun hab heq => by
    subst heq
    exact Nat.lt_irrefl _ hab)

/-- All that is queued, as one batch. -/
def batch (q : WriteQueue) : Batch := ⟨idsOf q.queue, editOf q.queue⟩

theorem begin_eq (q : WriteQueue) (hne : q.queue ≠ []) (window : Nat) :
    q.begin_ window = (some q.batch, { q with
      queue := [], cache := [], pending := none, inFlight := q.pending }) := by
  have hempty : q.queue.isEmpty = false := by simpa using hne
  simp [begin_, batch, hempty]

/-! ### Windows -/

section Write

variable (target : WriteTarget) (edit : Edit) (q : WriteQueue)

/-- The window that the next write is given. -/
def next (q : WriteQueue) : Nat := q.pending.getD q.windows

theorem write_window : (q.write target edit).1 = (q.next, q.pending.isNone) := by
  cases hp : q.pending <;> simp [write, next, hp]

theorem write_pending : (q.write target edit).2.pending = some q.next := by
  cases hp : q.pending <;> simp [write, next, hp]

theorem write_queue : (q.write target edit).2.queue = q.queue ++ [(target.key, edit)] := by
  cases hp : q.pending <;> simp [write, hp]

theorem write_results : (q.write target edit).2.results = q.results := by
  cases hp : q.pending <;> simp [write, hp]

theorem write_inFlight : (q.write target edit).2.inFlight = q.inFlight := by
  cases hp : q.pending <;> simp [write, hp]

theorem write_cache :
    (q.write target edit).2.cache = Keyed.modify target.key edit (seed target q.cache) := by
  cases hp : q.pending <;> simp [write, hp]

theorem write_windows : (q.write target edit).2.windows =
    if q.pending.isNone then q.windows + 1 else q.windows := by
  cases hp : q.pending <;> simp [write, hp]

end Write

/-! ### Traffic -/

/-- A write, with the window that was given for it. -/
structure Written where
  window : Nat
  id : String
  edit : Edit

/-- A queue, with all that went through it since it was empty. -/
structure Traffic where
  queue : WriteQueue := {}
  /-- The writes in the order they were queued. -/
  writes : List Written := []
  /-- The windows whose flush was set up, and has not started. -/
  scheduled : List Nat := []
  /-- The windows whose flush has started. -/
  started : List Nat := []
  /-- The calls to the host, each with the window whose flush made it. -/
  calls : List (Nat × Batch) := []
  /-- The windows whose call the host is still working on. -/
  unanswered : List Nat := []
  answers : List (Nat × FlushResult) := []
  /-- The windows that each reader had to wait for. -/
  waits : List (List Nat) := []

namespace Traffic

/-- The writes that a window was given for. -/
def writesOf (t : Traffic) (window : Nat) : List (String × Edit) :=
  (t.writes.filter fun x => x.window == window).map fun x => (x.id, x.edit)

/-- A write. Where it opens a window, the flush of the window is set up. -/
def write (target : WriteTarget) (edit : Edit) (t : Traffic) : Traffic :=
  let ((window, opened), queue) := t.queue.write target edit
  { t with
    queue
    writes := t.writes ++ [⟨window, target.key, edit⟩]
    scheduled := if opened then t.scheduled ++ [window] else t.scheduled }

/-- The flush of a window starts, which calls the host unless there is nothing to flush. -/
def fire (window : Nat) (t : Traffic) : Traffic :=
  let (batch, queue) := t.queue.begin_ window
  let t := { t with
    queue
    scheduled := t.scheduled.erase window
    started := t.started ++ [window] }
  match batch with
  | none => t
  | some b => { t with
      calls := t.calls ++ [(window, b)]
      unanswered := t.unanswered ++ [window] }

/-- The host answers the call of a window. -/
def answer (window : Nat) (result : FlushResult) (t : Traffic) : Traffic :=
  { t with
    queue := t.queue.complete window result
    unanswered := t.unanswered.erase window
    answers := t.answers ++ [(window, result)] }

/-- A reader comes who waits for all writes. -/
def flush (t : Traffic) : Traffic := { t with waits := t.waits ++ [t.queue.outstanding] }

/-- A reader comes for an object. He does not wait if there is a copy of it. -/
def get (id : String) (t : Traffic) : Traffic :=
  if (t.queue.cached? id).isSome then t else t.flush

def invalidate (t : Traffic) : Traffic := { t with queue := t.queue.invalidate }

/-- What any order of events leads to. A host answers in its own time, with whatever it likes, or
not at all. -/
inductive Run : Traffic → Prop where
  | start : Run {}
  | write {t : Traffic} (target : WriteTarget) (edit : Edit) : Run t → Run (t.write target edit)
  | fire {t : Traffic} {window : Nat} : window ∈ t.scheduled → Run t → Run (t.fire window)
  | answer {t : Traffic} {window : Nat} (result : FlushResult) : window ∈ t.unanswered → Run t →
    Run (t.answer window result)
  | flush {t : Traffic} : Run t → Run t.flush
  | get {t : Traffic} (id : String) : Run t → Run (t.get id)
  | invalidate {t : Traffic} : Run t → Run t.invalidate

/-! ### What events keep -/

/-- The logs agree with the queue. -/
structure Sound (t : Traffic) : Prop where
  scheduled : t.scheduled = t.queue.pending.toList
  idle : t.queue.pending = none → t.queue.queue = []
  opened : ∀ w, t.queue.pending = some w →
    t.queue.queue = t.writesOf w ∧ t.queue.queue ≠ [] ∧ w ∉ t.started ∧ w < t.queue.windows
  written : ∀ x ∈ t.writes, t.queue.pending = some x.window ∨ x.window ∈ t.started
  started : t.started.Nodup
  below : ∀ w ∈ t.started, w < t.queue.windows
  calls : t.calls = t.started.map fun w => (w, ⟨idsOf (t.writesOf w), editOf (t.writesOf w)⟩)
  nonempty : ∀ w ∈ t.started, t.writesOf w ≠ []
  results : t.queue.results = t.answers.reverse
  answered : (t.answers.map (·.1) ++ t.unanswered).Perm t.started
  inFlight : ∀ w, t.queue.inFlight = some w → w ∈ t.started
  waits : ∀ ws ∈ t.waits, ∀ w ∈ ws, w ∈ t.scheduled ∨ w ∈ t.started

variable {t : Traffic} {window : Nat}

theorem writesOf_write (target : WriteTarget) (edit : Edit) (t : Traffic) (w : Nat) :
    (t.write target edit).writesOf w =
      t.writesOf w ++ if t.queue.next = w then [(target.key, edit)] else [] := by
  simp only [writesOf, write, write_window, List.filter_append, List.map_append]
  congr 1
  split <;> next hw => simp [hw]

namespace Sound

theorem start : Sound {} := by
  constructor <;> simp

/-- The next write is given a window whose flush has not started, and whose writes are queued. -/
theorem next (h : Sound t) : t.queue.queue = t.writesOf t.queue.next ∧ t.queue.next ∉ t.started ∧
    t.queue.next < if t.queue.pending.isNone then t.queue.windows + 1 else t.queue.windows := by
  cases hp : t.queue.pending with
  | some w =>
    obtain ⟨hqueue, -, hns, hlt⟩ := h.opened w hp
    simp only [WriteQueue.next, hp, Option.getD_some]
    exact ⟨hqueue, hns, hlt⟩
  | none =>
    simp only [WriteQueue.next, hp, Option.getD_none]
    refine ⟨?_, fun hs => Nat.lt_irrefl _ (h.below _ hs), Nat.lt_succ_self _⟩
    rw [h.idle hp, eq_comm, writesOf, List.map_eq_nil_iff, List.filter_eq_nil_iff]
    intro x hx hw
    have hw : x.window = t.queue.windows := by simpa using hw
    rcases h.written x hx with hx | hx
    · rw [hp] at hx
      nomatch hx
    · exact Nat.lt_irrefl _ (hw ▸ h.below _ hx)

theorem write (h : Sound t) (target : WriteTarget) (edit : Edit) : Sound (t.write target edit) := by
  obtain ⟨hqueue, hfresh, hlt⟩ := h.next
  have hpending : (t.write target edit).queue.pending = some t.queue.next := write_pending ..
  have hwindows : (t.write target edit).queue.windows = _ := write_windows ..
  have hold {w : Nat} (hw : w ∈ t.started) :
      (t.write target edit).writesOf w = t.writesOf w := by
    rw [writesOf_write, if_neg (by rintro rfl; exact hfresh hw), List.append_nil]
  constructor
  case scheduled =>
    rw [hpending]
    simp only [Traffic.write, write_window, h.scheduled, WriteQueue.next]
    cases t.queue.pending <;> rfl
  case idle =>
    rw [hpending]
    exact fun hn => nomatch hn
  case opened =>
    rw [hpending]
    rintro _ ⟨rfl⟩
    refine ⟨?_, ?_, hfresh, ?_⟩
    · rw [writesOf_write, if_pos rfl, ← hqueue]
      exact write_queue ..
    · rw [show (t.write target edit).queue.queue = _ from write_queue ..]
      simp
    · rw [hwindows]
      exact hlt
  case written =>
    rw [hpending]
    intro x hx
    simp only [Traffic.write, write_window, List.mem_append, List.mem_singleton] at hx
    rcases hx with hx | rfl
    · refine (h.written x hx).imp_left fun hp => ?_
      rw [WriteQueue.next, hp, Option.getD_some]
    · exact .inl rfl
  case started => exact h.started
  case below =>
    intro w hw
    have := h.below w hw
    rw [hwindows]
    split <;> omega
  case calls =>
    refine h.calls.trans (List.map_congr_left fun w hw => ?_)
    rw [hold hw]
  case nonempty =>
    intro w hw
    rw [hold hw]
    exact h.nonempty w hw
  case results => exact (write_results ..).trans h.results
  case answered => exact h.answered
  case inFlight =>
    rw [show (t.write target edit).queue.inFlight = _ from write_inFlight ..]
    exact h.inFlight
  case waits =>
    intro ws hws w hw
    refine (h.waits ws hws w hw).imp_left fun hs => ?_
    simp only [Traffic.write]
    split
    · exact List.mem_append_left _ hs
    · exact hs

/-- The flush of a window that is set up takes all that is queued. -/
theorem fire_eq (h : Sound t) (hw : window ∈ t.scheduled) : t.fire window = { t with
    queue := { t.queue with queue := [], cache := [], pending := none, inFlight := some window }
    scheduled := []
    started := t.started ++ [window]
    calls := t.calls ++ [(window, ⟨idsOf t.queue.queue, editOf t.queue.queue⟩)]
    unanswered := t.unanswered ++ [window] } := by
  have hp : t.queue.pending = some window := by simpa [h.scheduled] using hw
  have hne := (h.opened window hp).2.1
  simp [Traffic.fire, begin_, hne, hp, h.scheduled]

theorem fire (h : Sound t) (hw : window ∈ t.scheduled) : Sound (t.fire window) := by
  have hp : t.queue.pending = some window := by simpa [h.scheduled] using hw
  obtain ⟨hqueue, hne, hns, hlt⟩ := h.opened window hp
  rw [h.fire_eq hw]
  constructor
  case scheduled => rfl
  case idle => exact fun _ => rfl
  case opened => exact fun _ hn => nomatch hn
  case written =>
    intro x hx
    rcases h.written x hx with hx | hx
    · simp [Option.some.inj (hp.symm.trans hx)]
    · simp [hx]
  case started => exact h.started.append (by simp) (by simpa using hns)
  case below =>
    intro w hw
    rcases List.mem_append.mp hw with hw | hw
    · exact h.below w hw
    · exact List.mem_singleton.mp hw ▸ hlt
  case calls =>
    simp only [List.map_append, List.map_cons, List.map_nil]
    rw [h.calls, hqueue]
    rfl
  case nonempty =>
    intro w hw
    rcases List.mem_append.mp hw with hw | hw
    · exact h.nonempty w hw
    · rw [List.mem_singleton.mp hw]
      exact hqueue ▸ hne
  case results => exact h.results
  case answered =>
    rw [← List.append_assoc]
    exact h.answered.append_right _
  case inFlight =>
    rintro _ ⟨rfl⟩
    simp
  case waits =>
    intro ws hws w hw
    right
    rcases h.waits ws hws w hw with hs | hs
    · have : w = window := by simpa [h.scheduled, hp] using hs
      simp [this]
    · simp [hs]

theorem answer (h : Sound t) (result : FlushResult) (hw : window ∈ t.unanswered) :
    Sound (t.answer window result) where
  scheduled := h.scheduled
  idle := h.idle
  opened := h.opened
  written := h.written
  started := h.started
  below := h.below
  calls := h.calls
  nonempty := h.nonempty
  results := by simp [Traffic.answer, complete, h.results]
  answered := by
    simp only [Traffic.answer, List.map_append, List.map_cons, List.map_nil, List.append_assoc]
    exact ((List.perm_cons_erase hw).symm.append_left _).trans h.answered
  inFlight := fun _ hn => nomatch hn
  waits := h.waits

theorem flush (h : Sound t) : Sound t.flush := by
  refine { h with waits := fun ws hws w hw => ?_ }
  rcases List.mem_append.mp hws with hws | hws
  · exact h.waits ws hws w hw
  · rw [List.mem_singleton.mp hws, outstanding, List.mem_append] at hw
    refine hw.symm.imp (fun hw => ?_) fun hw => h.inFlight w (by simpa using hw)
    exact (congrArg (w ∈ ·) h.scheduled).mpr hw

theorem get (h : Sound t) (id : String) : Sound (t.get id) := by
  rw [Traffic.get]
  split
  · exact h
  · exact h.flush

end Sound

theorem Run.sound (h : Run t) : Sound t := by
  induction h with
  | start => exact .start
  | write target edit _ ih => exact ih.write target edit
  | fire hw _ ih => exact ih.fire hw
  | answer result hw _ ih => exact ih.answer result hw
  | flush _ ih => exact ih.flush
  | get id _ ih => exact ih.get id
  | invalidate _ ih => exact { ih with }

/-! ### What becomes of writes -/

/-- What any order of events comes to. -/
structure Exact (t : Traffic) : Prop where
  /-- The queue holds something just when a flush is set up, and then there is one. -/
  scheduled : t.queue.queue ≠ [] ↔ ∃ w, t.scheduled = [w]
  unscheduled : t.queue.queue = [] ↔ t.scheduled = []
  /-- Each flush starts once, and makes one call. -/
  once : t.started.Nodup
  called : t.calls.map (·.1) = t.started
  /-- The flush of the window that a write was given is set up, or it has started. -/
  carried : ∀ x ∈ t.writes, (x.window ∈ t.scheduled ∧ x.window ∉ t.started) ∨
    (x.window ∉ t.scheduled ∧ x.window ∈ t.started)
  queued : t.queue.queue =
    (t.writes.filter fun x => t.scheduled.contains x.window).map fun x => (x.id, x.edit)
  /-- A call does to each object what the writes of its window to this object did, in their order.
  -/
  edit : ∀ c ∈ t.calls, ∀ o, c.2.edit o =
    (t.writes.filter fun x => x.id == o.id && x.window == c.1).foldl (fun o x => x.edit o) o
  nonempty : ∀ c ∈ t.calls, c.2.ids ≠ []
  ids : ∀ c ∈ t.calls, ∀ id, id ∈ c.2.ids ↔ ∃ x ∈ t.writes, x.window = c.1 ∧ x.id = id
  /-- The ids of a call do not repeat: they come in the order of their first write. -/
  ordered : ∀ c ∈ t.calls, c.2.ids.Pairwise fun a b =>
    ((t.writes.filter (·.window == c.1)).map (·.id)).idxOf a <
      ((t.writes.filter (·.window == c.1)).map (·.id)).idxOf b
  /-- The result of a window is what was answered to its call. -/
  result : ∀ w r, t.queue.result? w = some r ↔ (w, r) ∈ t.answers
  answered : ∀ w ∈ t.started, (w ∈ t.unanswered ∧ t.queue.result? w = none) ∨
    (w ∉ t.unanswered ∧ ∃ r, t.queue.result? w = some r)
  answeredOnce : (t.answers.map (·.1)).Nodup
  calledFirst : ∀ w r, (w, r) ∈ t.answers → w ∈ t.started
  /-- What readers wait for are windows whose flush is set up, or has started. -/
  waits : ∀ ws ∈ t.waits, ∀ w ∈ ws, w ∈ t.scheduled ∨ w ∈ t.started
  /-- With no flush set up, the next write gets a window of its own. -/
  fresh : t.scheduled = [] → ∀ target edit, ∃ w, (t.write target edit).scheduled = [w] ∧
    (t.write target edit).writesOf w = [(target.key, edit)] ∧ w ∉ t.started ∧
    t.queue.result? w = none

namespace Sound

theorem mem_scheduled (h : Sound t) : window ∈ t.scheduled ↔ t.queue.pending = some window := by
  rw [h.scheduled, Option.mem_toList]

theorem mem_calls (h : Sound t) {c : Nat × Batch} : c ∈ t.calls ↔
    ∃ w ∈ t.started, (w, ⟨idsOf (t.writesOf w), editOf (t.writesOf w)⟩) = c := by
  rw [h.calls, List.mem_map]

theorem nodup_answered (h : Sound t) : (t.answers.map (·.1) ++ t.unanswered).Nodup :=
  h.answered.nodup_iff.mpr h.started

theorem result (h : Sound t) (w : Nat) (r : FlushResult) :
    t.queue.result? w = some r ↔ (w, r) ∈ t.answers := by
  have hnodup : (t.queue.results.map (·.1)).Nodup := by
    rw [h.results, List.map_reverse, List.nodup_reverse]
    exact (List.nodup_append.mp h.nodup_answered).1
  rw [← List.mem_reverse, ← h.results]
  exact ⟨Keyed.mem_of_lookup, Keyed.lookup_of_mem hnodup⟩

theorem started_of_answered (h : Sound t) {r : FlushResult} (hr : (window, r) ∈ t.answers) :
    window ∈ t.started :=
  h.answered.subset (List.mem_append_left _ (List.mem_map_of_mem hr))

theorem result_eq_none (h : Sound t) (hw : ∀ r, (window, r) ∉ t.answers) :
    t.queue.result? window = none := by
  cases hr : t.queue.result? window with
  | none => rfl
  | some r => exact absurd ((h.result window r).mp hr) (hw r)

end Sound

/-- Whatever the order of writes, flushes and answers, no write is lost or done twice, and each has
the result of its own call. -/
theorem Run.exact (h : Run t) : Exact t where
  scheduled := by
    rw [h.sound.scheduled]
    cases hp : t.queue.pending with
    | none => simp [h.sound.idle hp]
    | some w => simp [(h.sound.opened w hp).2.1]
  unscheduled := by
    rw [h.sound.scheduled]
    cases hp : t.queue.pending with
    | none => simp [h.sound.idle hp]
    | some w => simp [(h.sound.opened w hp).2.1]
  once := h.sound.started
  called := by
    rw [h.sound.calls, List.map_map]
    exact List.map_id _
  carried x hx := by
    rw [h.sound.mem_scheduled]
    rcases h.sound.written x hx with hp | hs
    · exact .inl ⟨hp, (h.sound.opened _ hp).2.2.1⟩
    · exact .inr ⟨fun hp => (h.sound.opened _ hp).2.2.1 hs, hs⟩
  queued := by
    rw [h.sound.scheduled]
    cases hp : t.queue.pending with
    | none => simp [h.sound.idle hp]
    | some w =>
      rw [(h.sound.opened w hp).1, writesOf]
      congr 1
      exact List.filter_congr fun x _ => by simp [Bool.beq_eq_decide_eq]
  edit c hc o := by
    obtain ⟨w, -, rfl⟩ := h.sound.mem_calls.mp hc
    simp only [editOf, writesOf, List.filter_map, List.foldl_map, List.filter_filter]
    rfl
  nonempty c hc := by
    obtain ⟨w, hw, rfl⟩ := h.sound.mem_calls.mp hc
    exact idsOf_ne_nil (h.sound.nonempty w hw)
  ids c hc id := by
    obtain ⟨w, -, rfl⟩ := h.sound.mem_calls.mp hc
    simp [mem_idsOf, writesOf, and_assoc]
  ordered c hc := by
    obtain ⟨w, -, rfl⟩ := h.sound.mem_calls.mp hc
    have hkeys : Keyed.keys (t.writesOf w) = (t.writes.filter (·.window == w)).map (·.id) := by
      simp [Keyed.keys, writesOf]
    exact hkeys ▸ pairwise_idsOf (t.writesOf w)
  result := h.sound.result
  answered w hw := by
    have hdisjoint := (List.nodup_append.mp h.sound.nodup_answered).2.2
    rcases List.mem_append.mp (h.sound.answered.mem_iff.mpr hw) with ha | hu
    · obtain ⟨⟨_, r⟩, hr, rfl⟩ := List.mem_map.mp ha
      exact .inr ⟨fun hu => hdisjoint _ ha _ hu rfl, r, (h.sound.result _ r).mpr hr⟩
    · exact .inl ⟨hu, h.sound.result_eq_none fun r hr =>
        hdisjoint _ (List.mem_map_of_mem hr) _ hu rfl⟩
  answeredOnce := (List.nodup_append.mp h.sound.nodup_answered).1
  calledFirst w r hr := h.sound.started_of_answered hr
  waits := h.sound.waits
  fresh hnone target edit := by
    have hp : t.queue.pending = none := by simpa [h.sound.scheduled] using hnone
    obtain ⟨hqueue, hfresh, -⟩ := h.sound.next
    refine ⟨t.queue.next, ?_, ?_, hfresh, h.sound.result_eq_none fun r hr =>
      hfresh (h.sound.started_of_answered hr)⟩
    · simp [Traffic.write, write_window, hnone, hp]
    · rw [writesOf_write, if_pos rfl, ← hqueue, h.sound.idle hp]
      rfl

/-- Three writes to two objects, the flush of which fails, and a fourth one that comes when the host
is still at work on it. -/
def failing : Traffic :=
  let t : Traffic := [("b", "tilt"), ("a", "lift"), ("b", "turn")].foldl
    (fun t e => t.write (.id e.1) fun o => { o with text := o.text ++ e.2 }) {}
  ((t.fire 0).write (.id "a") id).answer 0 (.error .unavailable)

/-- The call names two objects and does both writes to one of them in turn; its window has failed,
and the fourth write waits for the flush of the next window. -/
theorem exact_failing : Run failing ∧ Exact failing ∧ failing.scheduled = [1] ∧
    failing.calls.map (·.2.ids) = [["b", "a"]] ∧
    (failing.calls.map fun c => (c.2.edit { id := "b" }).text) = ["tiltturn"] ∧
    failing.queue.result? 0 = some (.error .unavailable) ∧ failing.queue.result? 1 = none := by
  have h : Run failing := by
    refine .answer _ (by decide) (.write _ _ (.fire (by decide) ?_))
    exact .write _ _ (.write _ _ (.write _ _ .start))
  refine ⟨h, h.exact, by decide, by decide, by decide, (h.exact.result 0 _).mpr ?_, rfl⟩
  exact List.mem_singleton.mpr rfl

end Traffic

end WriteQueue

end Tabletop
