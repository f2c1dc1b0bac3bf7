import Mathlib.Data.List.Induction
import Tabletop.Proofs.Space.Contents

/-! Sequences of calls on a tree of boxes. Whatever decides where a box goes, and however the boxes
move, a search tells exactly what the calls say: the ids that were last given an overlapping box. -/

namespace Tabletop.Space

namespace Tree

/-- A call that changes a tree. Each insertion has a chooser of its own. -/
inductive Call (α : Type) where
  | insert (choose : Chooser α) (id : String) (box : Box α)
  | remove (id : String)

namespace Call

variable {α : Type}

def id : Call α → String
  | .insert _ id _ => id
  | .remove id => id

/-- The box that a call leaves its id with. -/
def box? : Call α → Option (Box α)
  | .insert _ _ box => some box
  | .remove _ => none

def perform [Inhabited α] [Coordinate α] (t : Tree α) : Call α → Tree α
  | .insert choose id box => t.insert choose id box
  | .remove id => t.remove id

end Call

/-- The tree that calls make out of an empty one. -/
def ofCalls {α : Type} [Inhabited α] [Coordinate α] (calls : List (Call α)) : Tree α :=
  calls.foldl Call.perform {}

/-- The box of an id after some calls, told from the calls alone: the last one about it counts. -/
def lastBox {α : Type} (calls : List (Call α)) (id : String) : Option (Box α) :=
  calls.foldl (fun box c => if c.id = id then c.box? else box) none

variable {α : Type}

@[simp] theorem lastBox_nil (id : String) : lastBox ([] : List (Call α)) id = none := rfl

theorem lastBox_snoc (calls : List (Call α)) (c : Call α) (id : String) :
    lastBox (calls ++ [c]) id = if c.id = id then c.box? else lastBox calls id := by
  simp [lastBox]

variable [Inhabited α]

section

variable [Coordinate α]

@[simp] theorem ofCalls_nil : ofCalls ([] : List (Call α)) = {} := rfl

theorem ofCalls_snoc (calls : List (Call α)) (c : Call α) :
    ofCalls (calls ++ [c]) = c.perform (ofCalls calls) := by
  simp [ofCalls]

theorem Sound.perform {t : Tree α} (h : Sound t) : ∀ c : Call α, Sound (c.perform t)
  | .insert choose id box => h.insert choose id box
  | .remove id => h.remove id

theorem sound_ofCalls (calls : List (Call α)) : Sound (ofCalls calls) := by
  induction calls using List.reverseRecOn with
  | nil => exact sound_empty
  | append_singleton calls c ih =>
    rw [ofCalls_snoc]
    exact ih.perform c

end

variable [LinearOrder α]

theorem Sound.get?_perform {t : Tree α} (h : Sound t) (c : Call α) (id : String) :
    (c.perform t).get? id = if c.id = id then c.box? else t.get? id := by
  cases c with
  | insert choose j box => simp only [Call.perform, h.get?_insert, Call.id, Call.box?, eq_comm]
  | remove j => simp only [Call.perform, h.get?_remove, Call.id, Call.box?, eq_comm]

/-- The tree stores what the calls say. -/
theorem get?_ofCalls (calls : List (Call α)) (id : String) :
    (ofCalls calls).get? id = lastBox calls id := by
  induction calls using List.reverseRecOn with
  | nil => rfl
  | append_singleton calls c ih =>
    rw [ofCalls_snoc, (sound_ofCalls calls).get?_perform, ih, lastBox_snoc]

/-- A search gives the ids whose last boxes strictly overlap the one searched for, each once. -/
theorem query_ofCalls (calls : List (Call α)) (q : Box α) :
    ((ofCalls calls).query q).Nodup ∧ ∀ id, id ∈ (ofCalls calls).query q ↔
      ∃ b, lastBox calls id = some b ∧
        b.lo.x < q.hi.x ∧ q.lo.x < b.hi.x ∧ b.lo.y < q.hi.y ∧ q.lo.y < b.hi.y := by
  refine ⟨(sound_ofCalls calls).nodup_query q, fun id => ?_⟩
  rw [(sound_ofCalls calls).mem_query]
  simp only [get?_ofCalls, Box.overlaps_iff]

/-- Two boxes side by side, then one of them moves over to the other. -/
example : let low : Box Nat := ⟨⟨0, 0⟩, ⟨2, 2⟩⟩
    let high : Box Nat := ⟨⟨8, 0⟩, ⟨9, 2⟩⟩
    let calls : List (Call Nat) :=
      [.insert (fun _ _ _ => .left) "a" low, .insert (fun _ _ _ => .right) "b" high,
        .insert (fun _ _ _ => .here) "a" high]
    (ofCalls calls).query low = [] ∧ (ofCalls calls).query high = ["b", "a"] := by
  decide

end Tree

end Tabletop.Space
