import Mathlib
import Tabletop.Value

/-! When values count as equal. Numbers do as in IEEE 754: the two zeros are equal, and what is no
number does not equal itself. -/

namespace Tabletop

open Float.Model (UnpackedFloat)

/-- What numbers are told apart by: nothing if it is no number, and one thing for both zeros. -/
def measure : UnpackedFloat → Option (Option (UnpackedFloat.Sign × Option (Nat × Int)))
  | .notANumber => none
  | .zero _ => some none
  | .infinity sign => some (some (sign, none))
  | .finite sign mantissa exponent _ => some (some (sign, some (mantissa, exponent)))

theorem unpacked_beq (a b : UnpackedFloat) :
    a.beq b = true ↔ measure a ≠ none ∧ measure a = measure b := by
  have hfinite (m n : Nat) (d e : Int) :
      (compare d e).then (compare m n) = .eq ↔ m = n ∧ d = e := by
    rw [Ordering.then_eq_eq, Std.compare_eq_iff_eq, Std.compare_eq_iff_eq, and_comm]
  rcases a with (_ | _) | _ | _ | ⟨_ | _, m, d, _⟩ <;>
    rcases b with (_ | _) | _ | _ | ⟨_ | _, n, e, _⟩ <;>
      simp [UnpackedFloat.beq, UnpackedFloat.compare, measure, hfinite] <;> decide

theorem number_beq (x y : Float) : (x == y) = true ↔
    measure x.toModel.unpack ≠ none ∧ measure x.toModel.unpack = measure y.toModel.unpack :=
  unpacked_beq ..

instance instPartialEquivBEqFloat : PartialEquivBEq Float where
  symm {x y} h := by
    obtain ⟨hnumber, hsame⟩ := (number_beq x y).mp h
    exact (number_beq y x).mpr ⟨hsame ▸ hnumber, hsame.symm⟩
  trans {x y z} h h' := by
    obtain ⟨hnumber, hsame⟩ := (number_beq x y).mp h
    exact (number_beq x z).mpr ⟨hnumber, hsame.trans ((number_beq y z).mp h').2⟩

namespace Value

theorem beq_iff (v w : Value) : (v == w) = true ↔
    (∃ x y, v = .number x ∧ w = .number y ∧ (x == y) = true) ∨ v = w ∧ ∀ x, v ≠ .number x := by
  have hnumber (x y : Float) : (number x == number y) = (x == y) := rfl
  have hbool (a b : Bool) : (bool a == bool b) = (a == b) := rfl
  have htext (s t : String) : (text s == text t) = (s == t) := rfl
  cases v <;> cases w <;> simp [hnumber, hbool, htext] <;> rfl

instance instPartialEquivBEq : PartialEquivBEq Value where
  symm {v w} h := by
    obtain ⟨x, y, rfl, rfl, hxy⟩ | ⟨rfl, -⟩ := (beq_iff v w).mp h
    · exact (beq_iff _ _).mpr (.inl ⟨y, x, rfl, rfl, BEq.symm hxy⟩)
    · exact h
  trans {u v w} h h' := by
    obtain ⟨x, y, rfl, rfl, hxy⟩ | ⟨rfl, -⟩ := (beq_iff u v).mp h
    · obtain ⟨_, z, ⟨⟩, rfl, hyz⟩ | ⟨-, hno⟩ := (beq_iff _ w).mp h'
      · exact (beq_iff _ _).mpr (.inl ⟨x, z, rfl, rfl, BEq.trans hxy hyz⟩)
      · exact absurd rfl (hno y)
    · exact h'

end Value

end Tabletop
