/-! Doubles as exact data. `=` tells every two apart; `==`, `<` and `≤` compare numerically, so that
the zeros agree and a value that is no number agrees with nothing. -/

namespace Lindenmayer

namespace Binary64

-- Powers are those of the core library, whatever other powers are in scope.
attribute [local instance (high)] instPowNat

/-- Distance between neighbouring numbers around `quanta`. -/
def spacing (quanta : Nat) : Nat :=
  2 ^ (quanta.log2 - 52)

/-- A quantum is two to the negative of this power. -/
def quantumExponent : Nat :=
  1074

/-- The power of two, in quanta, at which the finite numbers end. -/
def topExponent : Nat :=
  1024 + quantumExponent

def limit : Nat :=
  2 ^ topExponent

def Representable (quanta : Nat) : Prop :=
  spacing quanta ∣ quanta ∧ quanta < limit

instance (quanta : Nat) : Decidable (Representable quanta) :=
  inferInstanceAs (Decidable (_ ∧ _))

structure Magnitude where
  quanta : Nat
  representable : Representable quanta
  deriving DecidableEq

theorem zero_lt_limit : 0 < limit := by
  rw [limit]
  exact Nat.two_pow_pos topExponent

theorem two_pow_lt_limit {exponent : Nat} (h : exponent < topExponent) :
    2 ^ exponent < limit := by
  rw [limit]
  exact Nat.pow_lt_pow_right (by decide) h

theorem representable_zero : Representable 0 :=
  ⟨Nat.dvd_zero _, zero_lt_limit⟩

theorem representable_two_pow {exponent : Nat} (h : exponent < topExponent) :
    Representable (2 ^ exponent) := by
  refine ⟨?_, two_pow_lt_limit h⟩
  rw [spacing, Nat.log2_two_pow]
  exact Nat.pow_dvd_pow 2 (by omega)

theorem representable_one : Representable (2 ^ quantumExponent) :=
  representable_two_pow (by decide)

end Binary64

inductive Binary64 where
  | nan
  | infinite (negative : Bool)
  | finite (negative : Bool) (magnitude : Binary64.Magnitude)
  deriving DecidableEq

namespace Binary64

def zero (negative : Bool) : Binary64 :=
  finite negative ⟨0, representable_zero⟩

def one : Binary64 :=
  finite false ⟨_, representable_one⟩

def isFinite : Binary64 → Bool
  | finite _ _ => true
  | _ => false

@[simp] theorem isFinite_nan : nan.isFinite = false := rfl

@[simp] theorem isFinite_infinite (negative : Bool) : (infinite negative).isFinite = false := rfl

@[simp] theorem isFinite_finite (negative : Bool) (magnitude : Magnitude) :
    (finite negative magnitude).isFinite = true := rfl

def signed (negative : Bool) (quanta : Nat) : Int :=
  if negative then -(quanta : Int) else quanta

/-- Place on the number line in quanta, infinities one step beyond the finite numbers. -/
def place : Binary64 → Option Int
  | nan => none
  | infinite negative => some (signed negative limit)
  | finite negative magnitude => some (signed negative magnitude.quanta)

@[simp] theorem place_nan : nan.place = none := rfl

@[simp] theorem place_infinite (negative : Bool) :
    (infinite negative).place = some (signed negative limit) := rfl

@[simp] theorem place_finite (negative : Bool) (magnitude : Magnitude) :
    (finite negative magnitude).place = some (signed negative magnitude.quanta) := rfl

def beq (left right : Binary64) : Bool :=
  left.place.isSome && left.place == right.place

instance : BEq Binary64 := ⟨beq⟩

def lt (left right : Binary64) : Bool :=
  match left.place, right.place with
  | some first, some second => first < second
  | _, _ => false

def le (left right : Binary64) : Bool :=
  match left.place, right.place with
  | some first, some second => first ≤ second
  | _, _ => false

instance : LT Binary64 := ⟨fun left right => left.lt right = true⟩

instance : LE Binary64 := ⟨fun left right => left.le right = true⟩

instance (left right : Binary64) : Decidable (left < right) :=
  inferInstanceAs (Decidable (left.lt right = true))

instance (left right : Binary64) : Decidable (left ≤ right) :=
  inferInstanceAs (Decidable (left.le right = true))

theorem beq_iff {left right : Binary64} :
    (left == right) = true ↔ ∃ place, left.place = some place ∧ right.place = some place := by
  change (left.place.isSome && left.place == right.place) = true ↔ _
  cases hleft : left.place with
  | none => simp
  | some place =>
      simp only [Option.isSome_some, Bool.true_and, beq_iff_eq, Option.some.injEq, exists_eq_left']
      exact eq_comm

theorem lt_iff {left right : Binary64} :
    left < right ↔
      ∃ first second, left.place = some first ∧ right.place = some second ∧ first < second := by
  change left.lt right = true ↔ _
  unfold lt
  cases left.place <;> cases right.place <;> simp

theorem le_iff {left right : Binary64} :
    left ≤ right ↔
      ∃ first second, left.place = some first ∧ right.place = some second ∧ first ≤ second := by
  change left.le right = true ↔ _
  unfold le
  cases left.place <;> cases right.place <;> simp

theorem beq_self_iff {value : Binary64} : (value == value) = true ↔ value ≠ nan := by
  rw [beq_iff]
  cases value with
  | nan => simp
  | infinite negative => exact ⟨fun _ => nofun, fun _ => ⟨_, rfl, rfl⟩⟩
  | finite negative magnitude => exact ⟨fun _ => nofun, fun _ => ⟨_, rfl, rfl⟩⟩

/-- A weight that an alternative may carry. -/
def IsProbability (value : Binary64) : Prop :=
  zero false < value ∧ value ≤ one

instance (value : Binary64) : Decidable value.IsProbability :=
  inferInstanceAs (Decidable (_ ∧ _))

end Binary64

end Lindenmayer
