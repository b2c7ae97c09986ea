import Mathlib.Algebra.Group.Int.Defs
import Mathlib.Algebra.Group.Nat.Defs
import Mathlib.Order.Monotone.Basic
import Mathlib.Order.SuccPred.Basic
import Mathlib.Tactic.SplitIfs

/-!
# Moving an instant by a duration

`Std/Time.add` and `Std/Time.subtract` move an instant by some calendar months and then by some
milliseconds, both of them signed 64-bit integers.  The date library is a parameter: which instants
it can represent, and where a number of calendar months leads (`Dates`); its checked operations are
exact or refuse.  On the way there the number of months is cut to 32 bits, and the constructor of
the library's durations aborts for the least number of milliseconds.

Instants are milliseconds since the epoch.  Products wrap around, as they do in a release build.
-/

namespace Skyr.Sclc

/-- The instants of the date library, and where calendar months lead to. -/
structure Dates where
  InRange : ℤ → Bool
  /-- A number of calendar months later, or earlier if it is negative. -/
  moved : ℤ → ℤ → ℤ
  moved_zero (t : ℤ) : moved t 0 = t
  injective (t : ℤ) : Function.Injective (moved t)

/-- How an evaluation can fail: with an error, or by taking the process down. -/
inductive TimeFailure
  | error (message : String)
  | abort
deriving DecidableEq

namespace Dates

variable (D : Dates)

def checked (t : ℤ) (message : String) : Except TimeFailure ℤ :=
  if D.InRange t then .ok t else .error (.error message)

def parseInstant (epochMillis : ℤ) : Except TimeFailure ℤ :=
  D.checked epochMillis s!"epoch millis {epochMillis} is out of range"

/-- A signed 64-bit product. -/
def mul64 (a b : ℤ) : ℤ := (a * b).bmod (2 ^ 64)

/-- The months of a duration, if there are any. -/
def applyMonths (t : ℤ) (sign : ℤ) : Option ℤ → Except TimeFailure ℤ
  | none => .ok t
  | some months =>
    let effective := mul64 months sign
    if 0 ≤ effective then
      D.checked (D.moved t (effective % 2 ^ 32))
        s!"adding {effective} months would overflow the date"
    else
      D.checked (D.moved t (-(effective.natAbs % 2 ^ 32 : ℕ)))
        s!"subtracting {effective.natAbs} months would overflow the date"

/-- The milliseconds of a duration, if there are any. -/
def applyMillis (t : ℤ) (sign : ℤ) : Option ℤ → Except TimeFailure ℤ
  | none => .ok t
  | some ms =>
    let effective := mul64 ms sign
    -- the least number of milliseconds is not a duration
    if effective = -2 ^ 63 then .error .abort
    else D.checked (t + effective) s!"adding {effective} milliseconds would overflow the date"

/-- `sign` is 1 for adding and -1 for subtracting. -/
def applyDuration (t : ℤ) (months ms : Option ℤ) (sign : ℤ) : Except TimeFailure ℤ := do
  D.applyMillis (← D.applyMonths t sign months) sign ms

def addSubtract (epochMillis : ℤ) (months ms : Option ℤ) (sign : ℤ) : Except TimeFailure ℤ := do
  D.applyDuration (← D.parseInstant epochMillis) months ms sign

/-- The result is exact, or an error is raised. -/
def Exact (epochMillis : ℤ) (months ms : Option ℤ) (sign : ℤ) : Prop :=
  match D.addSubtract epochMillis months ms sign with
  | .ok u => u = D.moved epochMillis (sign * months.getD 0) + sign * ms.getD 0
  | .error (.error _) => True
  | .error .abort => False

/-- A number of months without the bits beyond the 32nd. -/
def cut (n : ℤ) : ℤ := if 0 ≤ n then n % 2 ^ 32 else -(-n % 2 ^ 32)

section Proofs

variable {D} {t n sign : ℤ} {months ms : Option ℤ}

theorem cut_eq_iff : cut n = n ↔ n.natAbs < 2 ^ 32 := by
  unfold cut
  split <;> omega

variable (hsign : sign = 1 ∨ sign = -1)

include hsign

theorem mul64_min : mul64 (-2 ^ 63) sign = -2 ^ 63 := by rcases hsign with rfl | rfl <;> decide

theorem mul64_eq (hlow : -2 ^ 63 < n) (hhigh : n < 2 ^ 63) : mul64 n sign = sign * n := by
  rw [mul64, Int.mul_comm]
  rcases hsign with rfl | rfl <;> exact Int.bmod_eq_of_le (by omega) (by omega)

theorem cut_mul64 (hlow : -2 ^ 63 ≤ n) (hhigh : n < 2 ^ 63) :
    cut (mul64 n sign) = cut (sign * n) := by
  rcases Int.lt_or_eq_of_le hlow with hlow | rfl
  · rw [mul64_eq hsign hlow hhigh]
  · rw [mul64_min hsign]
    rcases hsign with rfl | rfl <;> decide

theorem applyMillis_min (u : ℤ) : D.applyMillis u sign (some (-2 ^ 63)) = .error .abort := by
  rw [applyMillis, if_pos (mul64_min hsign)]

theorem applyMillis_eq (hlow : -2 ^ 63 < n) (hhigh : n < 2 ^ 63) (u : ℤ) :
    D.applyMillis u sign (some n) =
      D.checked (u + sign * n) s!"adding {sign * n} milliseconds would overflow the date" := by
  have hmin : sign * n ≠ -2 ^ 63 := by rcases hsign with rfl | rfl <;> omega
  rw [applyMillis, mul64_eq hsign hlow hhigh, if_neg hmin]

theorem applyMonths_eq (hm : ∀ n ∈ months, -2 ^ 63 ≤ n ∧ n < 2 ^ 63) (ht : D.InRange t = true) :
    ∃ message, D.applyMonths t sign months =
      D.checked (D.moved t (cut (sign * months.getD 0))) message := by
  cases months with
  | none => exact ⟨"", by simp [applyMonths, checked, cut, D.moved_zero, ht]⟩
  | some n =>
  rw [Option.getD_some, ← cut_mul64 hsign (hm n rfl).1 (hm n rfl).2, applyMonths, cut]
  split
  · exact ⟨_, rfl⟩
  · rw [show ((mul64 n sign).natAbs % 2 ^ 32 : ℕ) = -mul64 n sign % 2 ^ 32 by omega]
    exact ⟨_, rfl⟩

/-- **The result is exact or an error exactly if** the instant is out of range, or the months
without their high bits lead out of range, or the milliseconds are not the least number and there
were no high bits, unless the milliseconds lead out of range. -/
theorem exact_iff (hm : ∀ n ∈ months, -2 ^ 63 ≤ n ∧ n < 2 ^ 63)
    (hms : ∀ n ∈ ms, -2 ^ 63 ≤ n ∧ n < 2 ^ 63) :
    D.Exact t months ms sign ↔ D.InRange t = false ∨
      D.InRange (D.moved t (cut (sign * months.getD 0))) = false ∨ ms ≠ some (-2 ^ 63) ∧
        ((months.getD 0).natAbs < 2 ^ 32 ∨
          D.InRange (D.moved t (cut (sign * months.getD 0)) + sign * ms.getD 0) = false) := by
  have hcut : D.moved t (cut (sign * months.getD 0)) = D.moved t (sign * months.getD 0) ↔
      (months.getD 0).natAbs < 2 ^ 32 := by
    rw [(D.injective t).eq_iff, cut_eq_iff]
    rcases hsign with rfl | rfl <;> omega
  cases ht : D.InRange t with
  | false => simp [Exact, addSubtract, parseInstant, checked, bind, Except.bind, ht]
  | true =>
  obtain ⟨message, hmonths⟩ := applyMonths_eq hsign hm ht
  have hrun : D.addSubtract t months ms sign =
      D.checked (D.moved t (cut (sign * months.getD 0))) message >>=
        (D.applyMillis · sign ms) := by
    rw [← hmonths]
    simp [addSubtract, applyDuration, parseInstant, checked, bind, Except.bind, ht]
  rw [Exact, hrun]
  cases hu : D.InRange (D.moved t (cut (sign * months.getD 0))) with
  | false => simp [checked, bind, Except.bind, hu]
  | true =>
  cases ms with
  | none => simp [checked, bind, Except.bind, hu, applyMillis, hcut]
  | some n =>
  simp only [checked, hu, bind, Except.bind]
  rcases Int.lt_or_eq_of_le (hms n rfl).1 with hlow | rfl
  · simp only [applyMillis_eq hsign hlow (hms n rfl).2, checked]
    cases hv : D.InRange (D.moved t (cut (sign * months.getD 0)) + sign * n) <;>
      simp [hv, hcut] <;> omega
  · simp only [applyMillis_min hsign]
    simp

end Proofs

/-! ## The calendar

The months are counted from March of the year 0, so that a leap day ends its year, and the days from
the first day of that month.  A day that the new month does not have becomes its last one, as it does
in the library. -/

namespace Gregorian

/-- The leap days before a year. -/
def leapDays (y : ℤ) : ℤ := y / 4 - y / 4 / 25 + y / 4 / 25 / 4

/-- The first day of a month. -/
def monthStart (m : ℤ) : ℤ := 365 * (m / 12) + leapDays (m / 12) + (153 * (m % 12) + 2) / 5

/-- The month of a day.  The guess by the mean length of a month is at most one month off. -/
def monthOf (d : ℤ) : ℤ :=
  let m := d * 4800 / 146097
  if d < monthStart m then m - 1 else if monthStart (m + 1) ≤ d then m + 1 else m

def moved (t n : ℤ) : ℤ :=
  let day := t / 86400000 + 719468
  let month := monthOf day + n
  86400000 * (min (monthStart month + (day - monthStart (monthOf day)))
    (monthStart (month + 1) - 1) - 719468) + t % 86400000

theorem leapDays_le_succ (y : ℤ) : leapDays y ≤ leapDays (y + 1) := by
  unfold leapDays
  rcases (by omega : (y + 1) / 4 = y / 4 ∨ (y + 1) / 4 = y / 4 + 1) with h | h
  · rw [h]
  · rw [h]
    omega

theorem leapDays_bounds (y : ℤ) : -591 ≤ 400 * leapDays y - 97 * y ∧
    400 * leapDays y - 97 * y ≤ 288 := by
  unfold leapDays
  omega

theorem monthStart_bounds (m : ℤ) : 146097 * m - 9012 ≤ 4800 * monthStart m ∧
    4800 * monthStart m ≤ 146097 * m + 13989 := by
  have := leapDays_bounds (m / 12)
  unfold monthStart
  omega

theorem monthStart_lt_succ (m : ℤ) : monthStart m < monthStart (m + 1) := by
  unfold monthStart
  rcases (by omega : (m + 1) / 12 = m / 12 ∨ (m + 1) / 12 = m / 12 + 1 ∧ m % 12 = 11) with h | h
  · rw [h]
    omega
  · have := leapDays_le_succ (m / 12)
    rw [h.1]
    omega

theorem monthOf_spec (d : ℤ) : monthStart (monthOf d) ≤ d ∧ d < monthStart (monthOf d + 1) := by
  have hbefore := monthStart_bounds (d * 4800 / 146097 - 1)
  have hafter := monthStart_bounds (d * 4800 / 146097 + 1 + 1)
  unfold monthOf
  dsimp only
  split_ifs with hlt hle
  · rw [Int.sub_add_cancel]
    omega
  · omega
  · omega

/-- A day lies in one month only. -/
theorem month_unique {m m' d : ℤ} (h : monthStart m ≤ d ∧ d < monthStart (m + 1))
    (h' : monthStart m' ≤ d ∧ d < monthStart (m' + 1)) : m = m' := by
  have hmono : StrictMono monthStart := strictMono_int_of_lt_succ monthStart_lt_succ
  have hlt := hmono.lt_iff_lt.1 (h.1.trans_lt h'.2)
  have hlt' := hmono.lt_iff_lt.1 (h'.1.trans_lt h.2)
  omega

/-- The day an instant is moved to is in the month it is moved to. -/
theorem moved_month (t n : ℤ) :
    monthStart (monthOf (t / 86400000 + 719468) + n) ≤ moved t n / 86400000 + 719468 ∧
      moved t n / 86400000 + 719468 < monthStart (monthOf (t / 86400000 + 719468) + n + 1) := by
  have hday := monthOf_spec (t / 86400000 + 719468)
  have hmonth := monthStart_lt_succ (monthOf (t / 86400000 + 719468) + n)
  simp only [moved]
  omega

end Gregorian

open Gregorian in
/-- The calendar of the library, with the first and the last instant that it can represent. -/
def gregorian : Dates where
  InRange t := -8334601228800000 ≤ t ∧ t ≤ 8210266876799999
  moved := Gregorian.moved
  moved_zero t := by
    have hday := monthOf_spec (t / 86400000 + 719468)
    simp only [Gregorian.moved, Int.add_zero]
    omega
  injective t m n h := by
    have hmonth := moved_month t m
    rw [h] at hmonth
    have := month_unique hmonth (moved_month t n)
    omega

example : gregorian.moved 951782400000 12 = 983318400000 := by decide +kernel

theorem year_exact : gregorian.Exact 0 (some 12) (some (-1000)) (-1) :=
  (exact_iff (.inr rfl) (by simp) (by simp)).2 (.inr (.inr ⟨by decide, .inl (by decide)⟩))

theorem high_bits_lost : ¬∀ (D : Dates) (t : ℤ) (months ms : Option ℤ) (sign : ℤ),
    sign = 1 ∨ sign = -1 → (∀ n ∈ months, -2 ^ 63 ≤ n ∧ n < 2 ^ 63) →
      (∀ n ∈ ms, -2 ^ 63 ≤ n ∧ n < 2 ^ 63) → D.Exact t months ms sign := by
  intro h
  have hexact := h gregorian 0 (some (2 ^ 32)) none 1 (.inl rfl) (by simp) (by simp)
  have hrun : gregorian.addSubtract 0 (some (2 ^ 32)) none 1 = .ok 0 := by decide +kernel
  rw [Exact, hrun] at hexact
  simp only [Option.getD_some, Option.getD_none, one_mul, add_zero] at hexact
  exact absurd (gregorian.injective 0 ((gregorian.moved_zero 0).trans hexact)) (by decide)

end Dates

end Skyr.Sclc
