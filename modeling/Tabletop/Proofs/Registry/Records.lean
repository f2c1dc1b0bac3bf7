import Tabletop.Proofs.Keyed
import Tabletop.Registry

/-! The live runs that a registry has on record, and what orders do to a list of runs. An operation
is honest when its orders do to the runs on record exactly what it does to the records: what it
drops it cancels, what it starts it launches under a fresh number, and nothing else changes. The
invariant behind it is that of several handlers with one hat only the first can have a live run. -/

namespace Tabletop

/-- A run, with the object and the hat it is of. -/
structure RunRecord where
  object : String
  hat : String
  run : Nat
  deriving DecidableEq, Repr

def Launch.record (l : Launch) : RunRecord := ⟨l.object, l.hat, l.run⟩

namespace Order

/-- What an order does to the runs that are neither over nor cancelled. -/
def apply (runs : List RunRecord) : Order → List RunRecord
  | cancel run => runs.filter (·.run != run)
  | launch l => runs ++ [l.record]

def launched? : Order → Option RunRecord
  | cancel _ => none
  | launch l => some l.record

/-- The orders of an operation on runs that are numbered from `n` on, with numbers up to `m`: only
runs with a number are cancelled, and each launch has a number of its own. -/
inductive Timely : Nat → List Order → Nat → Prop where
  | done (n : Nat) : Timely n [] n
  | skip {n k m : Nat} {orders : List Order} : n ≤ k → Timely k orders m → Timely n orders m
  | cancel {n m run : Nat} {rest : List Order} :
    run < n → Timely n rest m → Timely n (.cancel run :: rest) m
  | launch {n m : Nat} {l : Launch} {rest : List Order} :
    n ≤ l.run → Timely (l.run + 1) rest m → Timely n (.launch l :: rest) m

namespace Timely

variable {n k m : Nat} {orders more : List Order}

theorem le (h : Timely n orders m) : n ≤ m := by
  induction h with
  | done => exact Nat.le_refl _
  | skip hk _ ih => omega
  | cancel _ _ ih => exact ih
  | launch hl _ ih => omega

theorem append (h : Timely n orders k) (h' : Timely k more m) : Timely n (orders ++ more) m := by
  induction h with
  | done => exact h'
  | skip hk _ ih => exact .skip hk (ih h')
  | cancel hr _ ih => exact .cancel hr (ih h')
  | launch hl _ ih => exact .launch hl (ih h')

/-- Launches have numbers that were not given before. -/
theorem fresh (h : Timely n orders m) :
    ∀ a ∈ orders.filterMap launched?, n ≤ a.run ∧ a.run < m := by
  induction h with
  | done => simp
  | skip hk _ ih => intro a ha; have := ih a ha; omega
  | cancel _ _ ih => exact ih
  | launch hl hr ih =>
    intro a ha
    have hm := hr.le
    rw [List.filterMap_cons, launched?] at ha
    rcases List.mem_cons.mp ha with rfl | ha
    · simp only [Launch.record]; omega
    · have := ih a ha; omega

/-- Launches are numbered in their order. -/
theorem increasing (h : Timely n orders m) :
    (orders.filterMap launched?).Pairwise (·.run < ·.run) := by
  induction h with
  | done => simp
  | skip _ _ ih => exact ih
  | cancel _ _ ih => exact ih
  | launch hl hr ih => exact List.pairwise_cons.mpr ⟨fun a ha => (hr.fresh a ha).1, ih⟩

end Timely

/-- Runs after some orders are runs from before or were launched. -/
theorem mem_or_launched {a : RunRecord} {orders : List Order} {runs : List RunRecord}
    (h : a ∈ orders.foldl apply runs) : a ∈ runs ∨ a ∈ orders.filterMap launched? := by
  induction orders generalizing runs with
  | nil => exact .inl h
  | cons o rest ih =>
    cases o with
    | cancel run =>
      exact (ih h).imp_left fun h => (List.mem_filter.mp h).1
    | launch l =>
      rcases ih h with h | h
      · rcases List.mem_append.mp h with h | h
        · exact .inl h
        · exact .inr (by simpa [launched?] using .inl (List.mem_singleton.mp h))
      · exact .inr (List.mem_cons_of_mem _ h)

/-- Orders do not tell lists with the same members apart. -/
theorem mem_foldl_congr {orders : List Order} {runs runs' : List RunRecord}
    (h : ∀ a, a ∈ runs ↔ a ∈ runs') (a : RunRecord) :
    a ∈ orders.foldl apply runs ↔ a ∈ orders.foldl apply runs' := by
  induction orders generalizing runs runs' with
  | nil => exact h a
  | cons o rest ih =>
    refine ih fun b => ?_
    cases o with
    | cancel run => simp [apply, h]
    | launch l => simp [apply, h]

/-- No two runs have one number. -/
def Distinct (runs : List RunRecord) : Prop := ∀ a ∈ runs, ∀ b ∈ runs, a.run = b.run → a = b

theorem Timely.distinct {n m : Nat} {orders : List Order} (h : Timely n orders m) :
    ∀ {runs : List RunRecord}, Distinct runs → (∀ a ∈ runs, a.run < n) →
      Distinct (orders.foldl apply runs) ∧ ∀ a ∈ orders.foldl apply runs, a.run < m := by
  induction h with
  | done => intro runs hd hb; exact ⟨hd, hb⟩
  | skip hk _ ih => intro runs hd hb; exact ih hd fun a ha => Nat.lt_of_lt_of_le (hb a ha) hk
  | @cancel n m run rest _ _ ih =>
    intro runs hd hb
    have sub {a : RunRecord} (ha : a ∈ apply runs (.cancel run)) : a ∈ runs :=
      (List.mem_filter.mp ha).1
    exact ih (fun a ha b hb => hd a (sub ha) b (sub hb)) fun a ha => hb a (sub ha)
  | @launch n m l rest hl _ ih =>
    intro runs hd hb
    refine ih ?_ ?_
    · simp only [Distinct, apply, List.mem_append, List.mem_singleton]
      rintro a (ha | rfl) b (hb' | rfl) hab
      · exact hd a ha b hb' hab
      · have := hb a ha; simp only [Launch.record] at hab; omega
      · have := hb b hb'; simp only [Launch.record] at hab; omega
      · rfl
    · simp only [apply, List.mem_append, List.mem_singleton]
      rintro a (ha | rfl)
      · have := hb a ha; omega
      · simp [Launch.record]

end Order

/-! ### Handlers -/

namespace Registry

/-- Of the handlers of one hat only the first can have a live run. -/
def FirstLive (hs : List InstalledHandler) : Prop :=
  hs.Pairwise fun a b => a.hat = b.hat → b.live = none

/-- Whether a run is live under a handler of a hat. -/
def LiveIn (hs : List InstalledHandler) (hat : String) (run : Nat) : Prop :=
  ∃ h ∈ hs, h.hat = hat ∧ h.live = some run

theorem liveIn_cons {h : InstalledHandler} {hs : List InstalledHandler} {hat : String} {run : Nat} :
    LiveIn (h :: hs) hat run ↔ (h.hat = hat ∧ h.live = some run) ∨ LiveIn hs hat run := by
  simp [LiveIn]

@[simp] theorem hat_withLive (h : InstalledHandler) (live : Option Nat) :
    InstalledHandler.hat { h with live } = h.hat := rfl

/-- A handler that comes first among those of its hat holds the live run of the hat, if any. -/
theorem FirstLive.find? {hs : List InstalledHandler} (hf : FirstLive hs) {hat : String}
    {h : InstalledHandler} (hh : hs.find? (·.hat == hat) = some h) {run : Nat} :
    LiveIn hs hat run ↔ h.live = some run := by
  induction hs with
  | nil => simp at hh
  | cons g rest ih =>
    obtain ⟨hg, hr⟩ := List.pairwise_cons.mp hf
    by_cases hk : g.hat = hat
    · obtain rfl : g = h := by simpa [hk] using hh
      refine ⟨?_, fun hl => ⟨g, by simp, hk, hl⟩⟩
      rintro ⟨x, hx, hxk, hl⟩
      rcases List.mem_cons.mp hx with rfl | hx
      · exact hl
      · rw [hg x hx (hk.trans hxk.symm)] at hl; cases hl
    · rw [liveIn_cons, ← ih hr (by simpa [hk] using hh)]
      simp [hk]

theorem hat_of_find? {hs : List InstalledHandler} {hat : String} {h : InstalledHandler}
    (hh : hs.find? (·.hat == hat) = some h) : h.hat = hat := by
  simpa using List.find?_some hh

theorem hat_mem_setLive {hat : String} {live : Option Nat} {hs : List InstalledHandler}
    {g : InstalledHandler} (hg : g ∈ setLive hat live hs) :
    ∃ h ∈ hs, g.hat = h.hat ∧ (g.live = h.live ∨ g.hat = hat) := by
  induction hs with
  | nil => simp [setLive] at hg
  | cons h rest ih =>
    simp only [setLive] at hg
    split at hg
    · next hk =>
      rcases List.mem_cons.mp hg with rfl | hg
      · exact ⟨h, by simp, rfl, .inr hk⟩
      · exact ⟨g, by simp [hg], rfl, .inl rfl⟩
    · rcases List.mem_cons.mp hg with rfl | hg
      · exact ⟨g, by simp, rfl, .inl rfl⟩
      · obtain ⟨x, hx, h⟩ := ih hg
        exact ⟨x, by simp [hx], h⟩

theorem FirstLive.setLive {hs : List InstalledHandler} (hf : FirstLive hs) (hat : String)
    (live : Option Nat) : FirstLive (Registry.setLive hat live hs) := by
  induction hs with
  | nil => exact .nil
  | cons h rest ih =>
    obtain ⟨hh, hr⟩ := List.pairwise_cons.mp hf
    simp only [Registry.setLive]
    split
    · exact List.pairwise_cons.mpr ⟨hh, hr⟩
    · next hk =>
      refine List.pairwise_cons.mpr ⟨fun g hg hs => ?_, ih hr⟩
      obtain ⟨x, hx, hgx, hl⟩ := hat_mem_setLive hg
      rcases hl with hl | hl
      · rw [hl]; exact hh x hx (hs.trans hgx)
      · exact absurd (hs.trans hl) hk

/-- Setting the live run of a hat changes the record of this hat only, and only if there is a
handler for it. -/
theorem FirstLive.liveIn_setLive {hs : List InstalledHandler} (hf : FirstLive hs) {hat k : String}
    {live : Option Nat} {run : Nat} :
    LiveIn (Registry.setLive hat live hs) k run ↔
      (k ≠ hat ∧ LiveIn hs k run) ∨ (k = hat ∧ live = some run ∧ ∃ h ∈ hs, h.hat = hat) := by
  induction hs with
  | nil => simp [LiveIn, Registry.setLive]
  | cons h rest ih =>
    obtain ⟨hh, hr⟩ := List.pairwise_cons.mp hf
    simp only [Registry.setLive]
    split
    · next hk =>
      subst hk
      have hn : ¬LiveIn rest h.hat run := by
        rintro ⟨x, hx, hxk, hl⟩
        rw [hh x hx hxk.symm] at hl; cases hl
      by_cases hkh : k = h.hat
      · subst hkh; simp [liveIn_cons, hn]
      · have hkh' : ¬h.hat = k := fun e => hkh e.symm
        simp [liveIn_cons, hkh, hkh']
    · next hk =>
      rw [liveIn_cons, liveIn_cons, ih hr]
      have : (∃ g ∈ h :: rest, g.hat = hat) ↔ ∃ g ∈ rest, g.hat = hat := by simp [hk]
      rw [this]
      by_cases hkh : k = hat
      · subst hkh; simp [hk]
      · simp [hkh]

end Registry

end Tabletop
