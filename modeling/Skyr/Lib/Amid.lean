import Skyr.Lib.Threads

/-!
# A program among others

A call of a machine sees, between two of its own requests, whatever the other calls have done in
the meantime.  Where the others are known to change the state only in certain ways, a relation `R`
between the state before and after, the call can still be followed step by step: before each of its
requests the state moves along `R`, and then the request is carried out.

* `Sem.amid` puts the others into the semantics: a decision about a request also says what they
  make of the state before it.  So everything known of `Prog.always` can be used.
* `Prog.leads J I p T` is a triple in this setting: from a state in `I`, if `p` returns then in a
  state of `T`; and `J` holds all along.
* `Prog.among_later` is why this fits a machine: a step of the others that keeps to `R` can be
  taken at any time.
* `Sem.logged` adds the log of the call to the state, for properties that depend on how far a call
  has come.
* `Machine.Finishes` follows every call to the end that its program has; a call that is cut short
  has another end, unless it is spared (`Machine.Spares`).

What is said of states is always required to be *stable*: to survive what the others do.
-/

namespace Sem

variable {Op : Type} {Resp : Op → Type} {σ : Type}

/-- The same requests, the others acting on the state before each of them. -/
def amid (S : Sem Resp σ) : Sem Resp σ where
  Ans o := (σ → σ) × S.Ans o
  act o a s := S.act o a.2 (a.1 s)

/-- The same requests, with a log of them. -/
def logged (S : Sem Resp σ) : Sem Resp (σ × Prog.Log Resp) where
  Ans := S.Ans
  act o a x := ((S.act o a x.1).1, (S.act o a x.1).2, ⟨o, (S.act o a x.1).1⟩ :: x.2)

end Sem

namespace Prog

variable {Op : Type} {Resp : Op → Type} {σ ε α β : Type} (S : Sem Resp σ)
  (ok : (o : Op) → S.Ans o → Prop) (R : σ → σ → Prop) (J : σ → Prop)

/-- Whatever is decided within `ok` and whatever the others do within `R`, `J` holds whenever `p`
makes a request, and `p` ends in `Q`. -/
abbrev among (p : Prog Resp ε α) (Q : Except ε α → σ → Prop) (s : σ) : Prop :=
  p.always S.amid (fun o a => (∀ s, R s (a.1 s)) ∧ ok o a.2) (fun s _ => J s) Q s

/-- A property that survives what the others do. -/
def Stable (I : σ → Prop) : Prop := ∀ s t, R s t → I s → I t

/-- What depends only on a part of the state that the others leave as it is. -/
theorem stable_of_eq {τ : Type} (f : σ → τ) (I : τ → Prop) :
    Stable (fun s t => f t = f s) fun s => I (f s) := by
  intro s t hst h
  rw [hst]
  exact h

variable {S ok R J} {Q : Except ε α → σ → Prop} {p : Prog Resp ε α} {s t : σ}

theorem among_ask {o : Op} {k : Resp o → Prog Resp ε α} (hJ : J s)
    (h : ∀ t a, R s t → ok o a → (k (S.act o a t).1).among S ok R J Q (S.act o a t).2) :
    (ask o k).among S ok R J Q s :=
  ⟨hJ, fun a ha => h _ a.2 (ha.1 s) ha.2⟩

/-- What holds all along holds now. -/
theorem among_now (h : p.among S ok R J (fun _ => J) s) : J s := by
  induction p with
  | ret | fail => exact h
  | ask o k _ => exact h.1
  | choose k ih => exact ih true (h true)

/-- The others may act at any time. -/
theorem among_later [Std.Refl R] [IsTrans σ R] (hJ : Stable R J) (hQ : ∀ r, Stable R (Q r))
    (h : p.among S ok R J Q s) (hst : R s t) : p.among S ok R J Q t := by
  classical
  induction p generalizing s t with
  | ret | fail => exact hQ _ s t hst h
  | choose k ih => exact fun b => ih b (h b) hst
  | ask o k ih =>
  refine among_ask (hJ s t hst h.1) fun u a htu ha => ?_
  -- what is done to `s` and then to `t` is done to `s` at once
  have hsu : R s u := trans_of R hst htu
  have hmove : ∀ x, R x (if R x u then u else x) := by
    intro x
    by_cases hx : R x u
    · rw [if_pos hx]
      exact hx
    · rw [if_neg hx]
      exact refl_of R x
  have hnext := h.2 (fun x => if R x u then u else x, a) ⟨hmove, ha⟩
  change (k (S.act o a (if R s u then u else s)).1).among S ok R J Q
    (S.act o a (if R s u then u else s)).2 at hnext
  rwa [if_pos hsu] at hnext

/-- A turn of the program itself. -/
theorem among_step [Std.Refl R] (h : p.among S ok R J Q s) (turn : S.Turn)
    (hok : ∀ o k, p = ask o k → ok o (turn.ans o)) :
    (p.step S turn s).1.among S ok R J Q (p.step S turn s).2 := by
  cases p with
  | ret | fail => exact h
  | ask o k => exact h.2 (id, turn.ans o) ⟨fun x => refl_of R x, hok o k rfl⟩
  | choose k => exact h _

/-- A program that only makes requests which keep `I` keeps it, however it ends. -/
theorem among_of_issues {A : Op → Prop} {I : σ → Prop} (hI : Stable R I) (hIJ : ∀ s, I s → J s)
    (hact : ∀ o a s, A o → I s → I (S.act o a s).2) (hp : p.issues A) (hs : I s) :
    p.among S ok R J (fun _ => I) s := by
  induction p generalizing s with
  | ret | fail => exact hs
  | choose k ih => exact fun b => ih b (hp b) hs
  | ask o k ih =>
    exact among_ask (hIJ s hs) fun t a hst _ => ih _ (hp.2 _) (hact o a t hp.1 (hI s t hst hs))

/-! ## Triples -/

variable (S ok R J)

/-- From a state in `I`, whatever is decided within `ok` and the others do within `R`, `p` returns
only in `T`, and `J` holds all along. -/
def leads (I : σ → Prop) (p : Prog Resp ε α) (T : α → σ → Prop) : Prop :=
  ∀ s, I s → p.among S ok R J (fun r t => J t ∧ ∀ a, r = .ok a → T a t) s

variable {S ok R J} {I : σ → Prop} {T : α → σ → Prop}

theorem leads_ret {a : α} (hIJ : ∀ s, I s → J s) (h : ∀ s, I s → T a s) :
    (ret a : Prog Resp ε α).leads S ok R J I T := by
  refine fun s hs => ⟨hIJ s hs, ?_⟩
  rintro _ ⟨⟩
  exact h s hs

theorem leads_bind {f : α → Prog Resp ε β} {T' : β → σ → Prop} (hp : p.leads S ok R J I T)
    (hf : ∀ a, (f a).leads S ok R J (T a) T') : (p >>= f).leads S ok R J I T' := by
  intro s hs
  refine always_bind.2 (always_mono (hp s hs) fun r t hr => ?_)
  cases r with
  | ok a => exact hf a t (hr.2 a rfl)
  | error e => exact ⟨hr.1, fun a ha => nomatch ha⟩

theorem leads_ask {o : Op} {k : Resp o → Prog Resp ε α} (hI : Stable R I) (hIJ : ∀ s, I s → J s)
    (h : ∀ s a, I s → ok o a → (k (S.act o a s).1).among S ok R J
      (fun r t => J t ∧ ∀ a, r = .ok a → T a t) (S.act o a s).2) :
    (ask o k).leads S ok R J I T :=
  fun s hs => among_ask (hIJ s hs) fun t a hst ha => h t a (hI s t hst hs) ha

theorem leads_keep {A : Op → Prop} (hI : Stable R I) (hIJ : ∀ s, I s → J s)
    (hact : ∀ o a s, A o → I s → I (S.act o a s).2) (hp : p.issues A) :
    p.leads S ok R J I fun _ => I :=
  fun _ hs => always_mono (among_of_issues hI hIJ hact hp hs)
    fun _ t hr => ⟨hIJ t hr, fun _ _ => hr⟩

/-- The rule for loops: `I` says what holds when a list of elements is still to be treated. -/
theorem leads_forM {I : List β → σ → Prop} {f : β → Prog Resp ε PUnit}
    (hIJ : ∀ s, I [] s → J s) (hf : ∀ b l, (f b).leads S ok R J (I (b :: l)) fun _ => I l)
    (l : List β) : (l.forM f).leads S ok R J (I l) fun _ => I [] := by
  induction l with
  | nil => exact leads_ret hIJ fun _ hs => hs
  | cons b l ih => exact leads_bind (hf b l) fun _ => ih

end Prog

/-! ## Calls among others -/

namespace Machine

variable {Op : Type} {Resp : Op → Type} {ε σ Call Env : Type} {M : Machine Resp ε σ Call Env}
  {C : M.Conditions}

/-- A turn of a call, followed with its log. -/
theorem among_turn {ok : (o : Op) → M.sem.Ans o → Prop}
    {R : σ × Prog.Log Resp → σ × Prog.Log Resp → Prop} {J : σ × Prog.Log Resp → Prop}
    {Q : Except ε Unit → σ × Prog.Log Resp → Prop} [Std.Refl R] {th : Thread Resp ε Call} {s : σ}
    (h : th.prog.among M.sem.logged ok R J Q (s, th.log)) (t : M.sem.Turn)
    (hok : ∀ o k, th.prog = .ask o k → ok o (t.ans o)) :
    (M.stepThread t th s).1.prog.among M.sem.logged ok R J Q
      ((M.stepThread t th s).2, (M.stepThread t th s).1.log) := by
  have hstep := Prog.among_step h ⟨t.ans, t.flip⟩ hok
  obtain ⟨c, l, p⟩ := th
  cases p <;> exact hstep

variable {y : Pool Resp ε σ Call}

theorem step_turn {i : ℕ} {th : Thread Resp ε Call}
    (hi : y.threads[i]? = some th) (t : M.sem.Turn) :
    M.step y (.turn i t) =
      ⟨(M.stepThread t th y.state).2, y.threads.set i (M.stepThread t th y.state).1⟩ := by
  rw [Machine.step, hi]

/-- What every step keeps that meets the conditions holds at the end of a run. -/
theorem keeps {J : Pool Resp ε σ Call → Prop} (hstep : ∀ y e, J y → M.Admits C y e → J (M.step y e))
    {es : List M.Event} (hy : J y) (hes : M.Meets C y es) :
    J (M.run y es) := by
  induction es generalizing y with
  | nil => exact hy
  | cons e es ih => exact ih (hstep y e hy hes.1) hes.2

/-- What holds of every call when it is begun and survives its turns, and its end, holds of every
call in every run. -/
theorem every_thread {J : Thread Resp ε Call → Prop} (hstart : ∀ c, J ⟨c, [], M.body c⟩)
    (hturn : ∀ t th s, J th → J (M.stepThread t th s).1)
    (hstop : ∀ th e, J th → J { th with prog := .fail e })
    (hy : ∀ th ∈ y.threads, J th) (es : List M.Event) : ∀ th ∈ (M.run y es).threads, J th := by
  induction es generalizing y with
  | nil => exact hy
  | cons e es ih =>
  refine ih ?_
  exact forall_threads_step hy hstart (fun t th hth => hturn t th _ hth)
    fun _ err th _ _ hth => hstop th err hth

/-! ## Calls that are not cut short -/

variable (M)

/-- No call is cut short while `K` holds of it and its log. -/
def Spares (K : Call → Prog.Log Resp → Prop) : Pool Resp ε σ Call → List M.Event → Prop
  | _, [] => True
  | y, e :: es =>
    (∀ i err th, e = .stop i err → y.threads[i]? = some th → ¬ K th.call th.log) ∧
      Spares K (M.step y e) es

/-- What is left of every call obeys `P`, and comes to its end in `Q`. -/
def Finishes (P : Call → Prog.Log Resp → Op → Prop)
    (Q : Call → Except ε Unit → Prog.Log Resp → Prop) (y : Pool Resp ε σ Call) : Prop :=
  ∀ th ∈ y.threads, th.prog.obeys (P th.call) (Q th.call) th.log

variable {M} {P : Call → Prog.Log Resp → Op → Prop}
  {Q : Call → Except ε Unit → Prog.Log Resp → Prop}

theorem Finishes.step (hbody : ∀ c, (M.body c).obeys (P c) (Q c) [])
    (h : Finishes P Q y) {e : M.Event}
    (hstop : ∀ i err th, e = .stop i err → y.threads[i]? = some th →
      Q th.call (.error err) th.log) : Finishes P Q (M.step y e) := by
  refine forall_threads_step h hbody (fun t th hth => ?_) fun i err th he hi _ => hstop i err th he hi
  obtain ⟨c, l, p⟩ := th
  cases p with
  | ret | fail => exact hth
  | ask o k => exact hth.2 _ trivial
  | choose k => exact hth _

/-- **Calls that are spared come to the end that their programs have.** -/
theorem Finishes.run {K : Call → Prog.Log Resp → Prop}
    (hbody : ∀ c, (M.body c).obeys (P c) (Q c) [])
    (hK : ∀ c err l, ¬ K c l → Q c (.error err) l)
    (h : Finishes P Q y) {es : List M.Event} (hes : M.Spares K y es) :
    Finishes P Q (M.run y es) := by
  induction es generalizing y with
  | nil => exact h
  | cons e es ih =>
    exact ih (h.step hbody fun i err th he hi => hK _ _ _ (hes.1 i err th he hi)) hes.2

end Machine
