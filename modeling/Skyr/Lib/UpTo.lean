import Skyr.Lib.Oracle

/-!
# Two programs, the second of which may refuse

A condition on what a program does while it runs can be written as a second program: it does the
same, and where the condition fails it ends with an error that is kept for that purpose, a
*refusal*.  That the run of the program meets the condition is then to say that the run of the
second program is not refused.

`Prog.UpTo` relates the two.  It reads: if the run of the second program is not refused, the run of
the first is the same, with the same result and the same requests.  The rules follow the text of
the programs.
-/

namespace Prog

variable {Op : Type} {Resp : Op → Type} {ε α β γ : Type} {answer : (o : Op) → Resp o}

/-! ## Sequences -/

/-- A run that goes on after some requests. -/
def after (l : List Op) (r : Except ε α × List Op) : Except ε α × List Op := (r.1, l ++ r.2)

/-- What follows on the run of the first of two programs. -/
def continued (answer : (o : Op) → Resp o) (f : α → Prog Resp ε β) :
    Except ε α × List Op → Except ε β × List Op
  | (.ok a, l) => after l ((f a).against answer)
  | (.error e, l) => (.error e, l)

theorem logged_continued (o : Op) (f : α → Prog Resp ε β) (r : Except ε α × List Op) :
    logged o (continued answer f r) = continued answer f (logged o r) := by
  obtain ⟨x, l⟩ := r
  cases x <;> rfl

/-- The run of a sequence. -/
theorem against_bind (p : Prog Resp ε α) (f : α → Prog Resp ε β) :
    (p >>= f).against answer = continued answer f (p.against answer) := by
  induction p with
  | ret | fail => rfl
  | choose k ih => exact ih true
  | ask o k ih => rw [ask_bind, against, ih, logged_continued, against]

/-! ## The relation -/

/-- The run against the oracle ends with a refusal. -/
def Refused (answer : (o : Op) → Resp o) (refusal : ε) (p : Prog Resp ε α) : Prop :=
  (p.against answer).1 = .error refusal

theorem Refused.bind {refusal : ε} {p : Prog Resp ε α} {f : α → Prog Resp ε β}
    (h : p.Refused answer refusal) : (p >>= f).Refused answer refusal := by
  unfold Refused at h ⊢
  rw [against_bind]
  generalize p.against answer = r at h ⊢
  obtain ⟨x, l⟩ := r
  cases h
  rfl

/-- The run of `q` is refused, or that of `p` is the same. -/
def UpTo (answer : (o : Op) → Resp o) (refusal : ε) (p q : Prog Resp ε α) : Prop :=
  q.Refused answer refusal ∨ p.against answer = q.against answer

namespace UpTo

variable {refusal : ε} {p q : Prog Resp ε α}

theorem rfl : UpTo answer refusal p p := .inr (Eq.refl _)

theorem refused : UpTo answer refusal p (fail refusal) := .inl (Eq.refl _)

theorem bind {f g : α → Prog Resp ε β} (h : UpTo answer refusal p q)
    (hf : ∀ a, UpTo answer refusal (f a) (g a)) : UpTo answer refusal (p >>= f) (q >>= g) := by
  rcases h with h | h
  · exact .inl h.bind
  unfold UpTo Refused
  rw [against_bind, against_bind, h]
  obtain ⟨x, l⟩ := q.against answer
  cases x with
  | error e => exact .inr (Eq.refl _)
  | ok a =>
  refine (hf a).imp (fun hr => hr) fun he => ?_
  rw [continued, continued, he]

/-- What goes on after an error sees every error but the refusal, which it passes on. -/
theorem attempt {f g : Except ε α → Prog Resp ε β} (h : UpTo answer refusal p q)
    (hf : ∀ x, UpTo answer refusal (f x) (g x)) (hg : g (.error refusal) = fail refusal) :
    UpTo answer refusal (p.attempt >>= f) (q.attempt >>= g) := by
  rcases h with h | h
  · refine .inl ?_
    unfold Refused at h ⊢
    rw [against_bind, against_attempt, h, continued, hg]
    exact Eq.refl _
  · refine bind (.inr ?_) hf
    rw [against_attempt, against_attempt, h]

theorem mapM {f g : γ → Prog Resp ε α} :
    ∀ {l : List γ}, (∀ c ∈ l, UpTo answer refusal (f c) (g c)) →
      UpTo answer refusal (l.mapM f) (l.mapM g)
  | [], _ => rfl
  | c :: l, h => by
    rw [List.mapM_cons, List.mapM_cons]
    refine bind (h c List.mem_cons_self) fun a => ?_
    exact bind (mapM fun c' hc' => h c' (List.mem_cons_of_mem _ hc')) fun _ => rfl

/-- Two programs that compare with the same third one run alike. -/
theorem eq_of_eq {p' : Prog Resp ε α} (h : UpTo answer refusal p q)
    (h' : UpTo answer refusal p' q) (hq : ¬q.Refused answer refusal) :
    p.against answer = p'.against answer :=
  (h.resolve_left hq).trans (h'.resolve_left hq).symm

end UpTo

/-! ## Programs that do not refuse -/

/-- The run against the oracle does not end with the refusal. -/
def Avoids (answer : (o : Op) → Resp o) (refusal : ε) (p : Prog Resp ε α) : Prop :=
  ¬p.Refused answer refusal

namespace Avoids

variable {refusal : ε} {p : Prog Resp ε α}

theorem ret {a : α} : Avoids answer refusal (ret a : Prog Resp ε α) := nofun

theorem fail {e : ε} (h : e ≠ refusal) : Avoids answer refusal (fail e : Prog Resp ε α) :=
  fun he => h (Except.error.inj he)

theorem ask {o : Op} {k : Resp o → Prog Resp ε α} (h : Avoids answer refusal (k (answer o))) :
    Avoids answer refusal (Prog.ask o k) := h

theorem bind {f : α → Prog Resp ε β} (h : Avoids answer refusal p)
    (hf : ∀ a, Avoids answer refusal (f a)) : Avoids answer refusal (p >>= f) := by
  unfold Avoids Refused at h ⊢
  rw [against_bind]
  generalize p.against answer = r at h ⊢
  obtain ⟨x, l⟩ := r
  cases x with
  | ok a => exact hf a
  | error e => exact fun he => h (congrArg Except.error (Except.error.inj he))

/-- What goes on after an error is not handed the refusal. -/
theorem attempt {f : Except ε α → Prog Resp ε β} (h : Avoids answer refusal p)
    (hf : ∀ x, x ≠ .error refusal → Avoids answer refusal (f x)) :
    Avoids answer refusal (p.attempt >>= f) := by
  unfold Avoids Refused
  rw [against_bind, against_attempt, continued]
  exact hf _ h

theorem mapM {f : γ → Prog Resp ε α} :
    ∀ {l : List γ}, (∀ c ∈ l, Avoids answer refusal (f c)) → Avoids answer refusal (l.mapM f)
  | [], _ => ret
  | c :: l, h => by
    rw [List.mapM_cons]
    refine bind (h c List.mem_cons_self) fun a => ?_
    exact bind (mapM fun c' hc' => h c' (List.mem_cons_of_mem _ hc')) fun _ => ret

end Avoids

end Prog
