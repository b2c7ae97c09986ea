import Skyr.Sclc.Eval

/-!
# Integer arithmetic

The integers of the language have 64 bits.  Addition, subtraction and multiplication are checked:
a result that does not fit is an error.  Division and the unary minus are written with the plain
operators of the host, whose only result that does not fit comes from the smallest integer: its
quotient by `-1` brings the process down, and its negative is the smallest integer again.
`integers_exact_iff` says that these two are the only exceptions.
-/

namespace Skyr.Sclc

/-! ## The range of 64 bits -/

theorem toInt_eq_min_iff {a : Int64} : a.toInt = -2 ^ 63 ↔ a = Int64.minValue := by
  constructor
  · intro h
    exact Int64.toInt_inj.1 h
  · rintro rfl
    rfl

theorem toInt_eq_neg_one_iff {b : Int64} : b.toInt = -1 ↔ b = -1 := by
  constructor
  · intro h
    exact Int64.toInt_inj.1 h
  · rintro rfl
    rfl

/-- A quotient of 64 bit integers is one, except for that of the smallest by `-1`. -/
theorem tdiv_fits {a b : ℤ} (ha : -2 ^ 63 ≤ a ∧ a < 2 ^ 63) (hab : ¬(a = -2 ^ 63 ∧ b = -1)) :
    -2 ^ 63 ≤ a.tdiv b ∧ a.tdiv b ≤ 2 ^ 63 - 1 := by
  have habs : (a.tdiv b).natAbs ≤ a.natAbs := Int.natAbs_tdiv_le_natAbs a b
  by_cases hmin : a = -2 ^ 63
  · -- The quotient of the smallest integer is as large as it only if the divisor is a unit.
    by_cases hone : b = 1
    · subst hone
      rw [Int.tdiv_one]
      omega
    have hb : b.natAbs ≠ 1 := by
      intro h
      rcases Int.natAbs_eq b with h' | h' <;> rw [h] at h'
      · exact hone h'
      · exact hab ⟨hmin, h'⟩
    have hsmall : (a.tdiv b).natAbs ≤ a.natAbs / 2 := by
      rw [Int.natAbs_tdiv]
      change a.natAbs / b.natAbs ≤ a.natAbs / 2
      rcases Nat.eq_zero_or_pos b.natAbs with h0 | hpos
      · rw [h0, Nat.div_zero]
        exact Nat.zero_le _
      · exact Nat.div_le_div_left (by omega) (by decide)
    omega
  · omega

/-! ## The operations -/

section

variable [Floats]

/-- An arithmetic operation on integers, with its operands. -/
inductive IntOperation
  | add (a b : Int64)
  | sub (a b : Int64)
  | mul (a b : Int64)
  | div (a b : Int64)
  | negate (a : Int64)

namespace IntOperation

/-- What the evaluator makes of an operation. -/
def run : IntOperation → Computed Value
  | add a b => evalBinaryValues .add (.int a.toInt) (.int b.toInt)
  | sub a b => evalBinaryValues .sub (.int a.toInt) (.int b.toInt)
  | mul a b => evalBinaryValues .mul (.int a.toInt) (.int b.toInt)
  | div a b => evalBinaryValues .div (.int a.toInt) (.int b.toInt)
  | negate a => evalUnaryValue .negate (.int a.toInt)

/-- The mathematical result.  A quotient by zero is none; others are truncated. -/
def result : IntOperation → Option ℤ
  | add a b => some (a.toInt + b.toInt)
  | sub a b => some (a.toInt - b.toInt)
  | mul a b => some (a.toInt * b.toInt)
  | div a b => if b.toInt = 0 then none else some (a.toInt.tdiv b.toInt)
  | negate a => some (-a.toInt)

/-- The operator, as an error names it. -/
def symbol : IntOperation → String
  | add _ _ => "+"
  | sub _ _ | negate _ => "-"
  | mul _ _ => "*"
  | div _ _ => "/"

/-- What the operation is to come to: the mathematical result where it is an integer of 64 bits, and
the error that fits otherwise. -/
def exact (o : IntOperation) : Computed Value :=
  match o.result with
  | none => .error (.error .divisionByZero)
  | some n =>
    if Int64.minValue.toInt ≤ n ∧ n ≤ Int64.maxValue.toInt then .ok (.int n)
    else .error (.error (.integerOverflow o.symbol))

/-- The operations whose result is one more than the largest integer without being checked. -/
def Unchecked : IntOperation → Prop
  | div a b => a = Int64.minValue ∧ b = -1
  | negate a => a = Int64.minValue
  | _ => False

end IntOperation

/-- The range of `checkedInt` is that of the 64 bit integers. -/
theorem checkedInt_eq (op : String) (n : ℤ) :
    checkedInt op n =
      if Int64.minValue.toInt ≤ n ∧ n ≤ Int64.maxValue.toInt then .ok (.int n)
      else .error (.error (.integerOverflow op)) := by
  have hmin : Int64.minValue.toInt = -2 ^ 63 := rfl
  have hmax : Int64.maxValue.toInt = 2 ^ 63 - 1 := rfl
  rw [checkedInt, hmin, hmax]
  refine if_congr ?_ rfl rfl
  omega

namespace IntOperation

/-- **Integer arithmetic is exact or fails with the error that fits**, except for the quotient of
the smallest integer by `-1` and its negative. -/
theorem integers_exact_iff (o : IntOperation) : o.run = o.exact ↔ ¬o.Unchecked := by
  have hmin : Int64.minValue.toInt = -2 ^ 63 := rfl
  have hmax : Int64.maxValue.toInt = 2 ^ 63 - 1 := rfl
  cases o with
  | add a b => exact iff_of_true (checkedInt_eq "+" _) id
  | sub a b => exact iff_of_true (checkedInt_eq "-" _) id
  | mul a b => exact iff_of_true (checkedInt_eq "*" _) id
  | div a b =>
    have ha : -2 ^ 63 ≤ a.toInt ∧ a.toInt < 2 ^ 63 := ⟨a.le_toInt, a.toInt_lt⟩
    rw [run, exact, result, Unchecked, evalBinaryValues, evalNumericDivision,
      ← toInt_eq_min_iff, ← toInt_eq_neg_one_iff]
    by_cases hb : b.toInt = 0
    · rw [if_pos hb, if_pos hb]
      refine iff_of_true rfl fun h => ?_
      rw [hb] at h
      exact absurd h.2 (by decide)
    rw [if_neg hb, if_neg hb]
    dsimp only
    by_cases h : a.toInt = -2 ^ 63 ∧ b.toInt = -1
    · rw [if_pos h]
      refine iff_of_false ?_ fun hn => hn h
      split <;> nofun
    · rw [if_neg h, hmin, hmax, if_pos (tdiv_fits ha h)]
      exact iff_of_true rfl h
  | negate a =>
  have ha : -2 ^ 63 ≤ a.toInt ∧ a.toInt < 2 ^ 63 := ⟨a.le_toInt, a.toInt_lt⟩
  rw [run, exact, result, Unchecked, evalUnaryValue, ← toInt_eq_min_iff]
  dsimp only
  rw [hmin, hmax]
  by_cases h : a.toInt = -2 ^ 63
  · rw [if_pos h, if_neg (by omega)]
    exact iff_of_false nofun fun hn => hn h
  · rw [if_neg h, if_pos (by omega)]
    exact iff_of_true rfl h

end IntOperation

end

namespace Smallest

open IntOperation

local instance : Floats := Floats.int

/-- The quotient of the smallest integer by `-1` ends the process, and the negative of the smallest
integer is the smallest integer. -/
theorem smallest_integer :
    (div Int64.minValue (-1)).run = .error .panicked ∧
    (div Int64.minValue (-1)).exact = .error (.error (.integerOverflow "/")) ∧
    (negate Int64.minValue).run = .ok (.int (-9223372036854775808)) ∧
    (negate Int64.minValue).exact = .error (.error (.integerOverflow "-")) ∧
    ¬∀ o : IntOperation, o.run = o.exact := by
  refine ⟨rfl, rfl, rfl, rfl, fun h => ?_⟩
  exact nomatch h (negate Int64.minValue)

end Smallest

end Skyr.Sclc
