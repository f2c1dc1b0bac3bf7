import Mathlib.Logic.Relation
import Tabletop.Proofs.Registry.LiveRuns
import Tabletop.Session.Wait

/-! What may happen to a session in which its tasks have their turns and time passes, and nothing
else. The event loop is one such course of things, with an order of its own. -/

namespace Tabletop

open Relation

namespace Session

/-- A step of whoever has the turn, or any change of who is to get it: time may pass, and tasks may
wake in any order. -/
inductive Passes : Session → Session → Prop where
  | turn {s s' : Session} : s.step? = some s' → Passes s s'
  | idle {s : Session} (clock : Nat) (ready yielded : List Nat) (waiters : List (Nat × Nat))
    (timers : List Timer) (allowance : Nat) (recalled : Bool) (taken : List Nat) : Passes s { s with
      clock, ready, yielded, waiters, timers, allowance, recalled, taken }

/-- Any number of these. -/
abbrev Passage : Session → Session → Prop := ReflTransGen Passes

theorem passage_takeTurns (fuel turns : Nat) (s : Session) :
    Passage s (s.takeTurns fuel turns) := by
  induction fuel generalizing turns s with
  | zero => exact .refl
  | succ fuel ih =>
    simp only [takeTurns]
    split
    · exact .refl
    · split
      · next hs => exact .head (.turn hs) (ih _ _)
      · exact .refl

theorem passes_moveTo (moment : Nat) (s : Session) : Passes s (s.moveTo moment) := by
  obtain ⟨ready, h⟩ := foldl_wake_eq (fun timer : Timer => timer.task)
    (s.timers.partition fun timer => decide (timer.due ≤ moment)).1 { s with
      clock := moment
      timers := (s.timers.partition fun timer => decide (timer.due ≤ moment)).2 }
  rw [show s.moveTo moment = _ from h]
  exact .idle ..

theorem passage_round (s : Session) : Passage s s.round := by
  have hturns := passage_takeTurns patience roundLength s
  set s' := s.takeTurns patience roundLength with hs'
  obtain ⟨ready, h⟩ := foldl_wake_eq id s'.yielded { s' with yielded := [] }
  rw [show s.round = { s'.returnTurns with allowance := fullAllowance } from rfl,
    show s'.returnTurns = _ from h]
  exact hturns.tail (.idle ..)

theorem passage_waitUntil (done : Session → Option Nat) (deadline : Option Nat) (fuel : Nat)
    (s : Session) : Passage s (s.waitUntil done deadline fuel) := by
  induction fuel generalizing s with
  | zero => exact .refl
  | succ fuel ih =>
    simp only [waitUntil]
    split
    · split
      · exact .single (.idle ..)
      · exact (passage_round s).trans (ih _)
    · split
      · exact (passage_round s).trans (ih _)
      · split
        · exact passage_round s
        · exact ((passage_round s).tail (passes_moveTo _ _)).trans (ih _)

theorem passes_take (window : Nat) (s : Session) :
    Passes s { s.take window with recalled := false } := by
  simp only [take]
  split <;> exact .idle ..

theorem passage_waitForWindow (window : Nat) (s : Session) :
    Passage s (s.waitForWindow window).2 :=
  (passage_waitUntil _ _ _ s).tail (passes_take window _)

theorem passage_waitForWindows (windows : List Nat) (s : Session) :
    Passage s (s.waitForWindows windows).2 := by
  induction windows generalizing s with
  | nil => exact .refl
  | cons window rest ih =>
    have hwindow := passage_waitForWindow window s
    simp only [waitForWindows]
    split
    · next heq =>
      rw [heq] at hwindow
      exact hwindow.trans (ih _)
    · exact hwindow

theorem passage_flush (s : Session) : Passage s s.flush.2 := passage_waitForWindows _ s

end Session

end Tabletop
