import Skyr.Lib.Prog

/-!
# What a program can return

`returns R p` says of every value that `p` can return, whatever is replied to its requests, that it
satisfies `R`.  Nothing is said about the requests, nor about errors.
-/

namespace Prog

variable {Op : Type} {Resp : Op → Type} {ε α β : Type}

/-- Whatever is replied, a value that is returned satisfies `R`. -/
def returns (R : α → Prop) : Prog Resp ε α → Prop
  | ret a => R a
  | fail _ => True
  | ask _ k => ∀ r, (k r).returns R
  | choose k => ∀ b, (k b).returns R

variable {p : Prog Resp ε α} {R : α → Prop} {R' : β → Prop}

theorem returns_ret {a : α} (h : R a) : (ret a : Prog Resp ε α).returns R := h

theorem returns_true (p : Prog Resp ε α) : p.returns fun _ => True := by
  induction p with
  | ret | fail => trivial
  | ask o k ih => exact ih
  | choose k ih => exact ih

theorem returns_mono {R' : α → Prop} (h : p.returns R) (hR : ∀ a, R a → R' a) : p.returns R' := by
  induction p with
  | ret a => exact hR a h
  | fail e => trivial
  | ask o k ih => exact fun r => ih r (h r)
  | choose k ih => exact fun b => ih b (h b)

theorem returns_bind {f : α → Prog Resp ε β} (hp : p.returns R)
    (hf : ∀ a, R a → (f a).returns R') : (p >>= f).returns R' := by
  induction p with
  | ret a => exact hf a hp
  | fail e => trivial
  | ask o k ih => exact fun r => ih r (hp r)
  | choose k ih => exact fun b => ih b (hp b)

/-- The rule for a part whose value does not matter. -/
theorem returns_after {f : α → Prog Resp ε β} (hf : ∀ a, (f a).returns R') :
    (p >>= f).returns R' :=
  returns_bind (returns_true p) fun a _ => hf a

end Prog
