import Mathlib.Algebra.Group.Nat.Defs

/-! # Sequence numbers

Numbers of 32 bits that go round: which of two is ahead of the other, and when the order of the plain
numbers says the same. -/

namespace serial

/-- How far one has to go up from `x` to come to `a`. -/
def distance (x a : UInt32) : Nat := (a - x).toNat

/-- `a` is ahead of `x` by less than half of the numbers. -/
def Ahead (x a : UInt32) : Prop := 0 < distance x a ∧ distance x a < 2 ^ 31

/-- Less than half of the numbers lie between the two, in one direction or in the other. -/
def Within (x a : UInt32) : Prop := distance x a < 2 ^ 31 ∨ distance a x < 2 ^ 31

/-- The plain numbers lie less than half of the numbers apart, or `a` just that much below `x`. -/
def Near (x a : UInt32) : Prop := a.toNat < x.toNat + 2 ^ 31 ∧ x.toNat ≤ a.toNat + 2 ^ 31

instance (x a : UInt32) : Decidable (Ahead x a) := inferInstanceAs (Decidable (_ ∧ _))
instance (x a : UInt32) : Decidable (Within x a) := inferInstanceAs (Decidable (_ ∨ _))
instance (x a : UInt32) : Decidable (Near x a) := inferInstanceAs (Decidable (_ ∧ _))

variable {x a : UInt32}

theorem distance_cases (x a : UInt32) :
    (x.toNat ≤ a.toNat ∧ distance x a = a.toNat - x.toNat) ∨
      (a.toNat < x.toNat ∧ distance x a = 2 ^ 32 + a.toNat - x.toNat) := by
  have hx := x.toNat_lt
  have ha := a.toNat_lt
  rw [distance, UInt32.toNat_sub]
  obtain hlt | hle := Nat.lt_or_ge a.toNat x.toNat
  · exact .inr ⟨hlt, by omega⟩
  · exact .inl ⟨hle, by omega⟩

/-- The order of the plain numbers is the order of the sequence numbers exactly when they are near. -/
theorem lt_iff_ahead_iff (x a : UInt32) : (x < a ↔ Ahead x a) ↔ Near x a := by
  rw [UInt32.lt_iff_toNat_lt, Ahead, Near]
  have hx := x.toNat_lt
  have ha := a.toNat_lt
  obtain ⟨hle, hdistance⟩ | ⟨hlt, hdistance⟩ := distance_cases x a <;> rw [hdistance] <;> omega

end serial
