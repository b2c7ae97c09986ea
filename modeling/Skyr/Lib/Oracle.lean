import Mathlib.Data.List.Forall2
import Skyr.Lib.Prog

/-!
# Programs against an oracle

When the reply to a request depends on nothing but the request, a program has one run.
`Prog.against` computes it: what the program comes to, and the requests it made on the way, in
order.
-/

namespace Prog

variable {Op : Type} {Resp : Op → Type} {ε α : Type}

/-- Put a request in front of a run. -/
def logged (o : Op) (r : Except ε α × List Op) : Except ε α × List Op := (r.1, o :: r.2)

/-- Run a program against fixed answers: its result and its requests.  Where the order is left to
a scheduler, the first choice is taken. -/
def against (answer : (o : Op) → Resp o) : Prog Resp ε α → Except ε α × List Op
  | ret a => (.ok a, [])
  | fail e => (.error e, [])
  | ask o k => logged o ((k (answer o)).against answer)
  | choose k => (k true).against answer

variable {answer : (o : Op) → Resp o}

/-- Whatever the program comes to, its attempt returns it, after the same requests. -/
theorem against_attempt (p : Prog Resp ε α) :
    p.attempt.against answer = (.ok (p.against answer).1, (p.against answer).2) := by
  induction p with
  | ret | fail => rfl
  | choose k ih => exact ih true
  | ask o k ih =>
  rw [attempt, against, ih, against]
  rfl

end Prog
