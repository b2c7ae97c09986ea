import Mathlib.Tactic.Common

/-!
# Programs that ask

A program here is a tree of requests: it asks something of its surroundings (`ask`), goes on with
the reply, and in the end returns a value or fails.  What a request does is not part of the
program.  It is given by a `Sem`, which says how a request, *together with what the surroundings
decide about it*, changes a state and what is replied.  The decision is where everything the
program cannot know enters: whether a statement reaches a database, what a remote service answers.

* `exec` executes a program for as many turns as the surroundings give it, `run` to its end.
* `always ok P p Q s` says of every execution of `p` from `s` whose decisions are admitted by `ok`
  that each request is made in a state where `P` allows it, and that it ends in `Q`.  It is
  computed along the program (`always_exec` and `always_run` are the bridge), so a claim about
  every behaviour of the surroundings is proved by walking through the code.
* `issues P p` says that every request `p` can ever make satisfies `P`, whatever is replied.
* `join` runs two programs side by side, a scheduler deciding at each turn which one moves.
-/

/-- A program over the requests `Op`, where the reply to `o` is a `Resp o`. -/
inductive Prog {Op : Type} (Resp : Op → Type) (ε α : Type) : Type
  /-- Finished, with a value. -/
  | ret (a : α)
  /-- Finished, with an error. -/
  | fail (e : ε)
  /-- A request, and what to do with the reply. -/
  | ask (o : Op) (k : Resp o → Prog Resp ε α)
  /-- A choice left to the scheduler. -/
  | choose (k : Bool → Prog Resp ε α)

namespace Prog

variable {Op : Type} {Resp : Op → Type} {ε α β γ : Type}

/-! ## Programs as a monad -/

/-- Go on with `f` when the program returns; an error ends the whole. -/
protected def bind (p : Prog Resp ε α) (f : α → Prog Resp ε β) : Prog Resp ε β :=
  match p with
  | ret a => f a
  | fail e => fail e
  | ask o k => ask o fun r => (k r).bind f
  | choose k => choose fun b => (k b).bind f

instance : Monad (Prog Resp ε) where
  pure := ret
  bind := Prog.bind

@[simp] theorem pure_eq (a : α) : (pure a : Prog Resp ε α) = ret a := rfl

@[simp] theorem ret_bind (a : α) (f : α → Prog Resp ε β) : (ret a >>= f) = f a := rfl

@[simp] theorem fail_bind (e : ε) (f : α → Prog Resp ε β) :
    ((fail e : Prog Resp ε α) >>= f) = fail e := rfl

@[simp] theorem ask_bind (o : Op) (k : Resp o → Prog Resp ε α) (f : α → Prog Resp ε β) :
    (ask o k >>= f) = ask o fun r => k r >>= f := rfl

@[simp] theorem choose_bind (k : Bool → Prog Resp ε α) (f : α → Prog Resp ε β) :
    (choose k >>= f) = choose fun b => k b >>= f := rfl

theorem bind_ret (p : Prog Resp ε α) : (p >>= ret) = p := by
  induction p with
  | ret | fail => rfl
  | ask o k ih => rw [ask_bind]; congr 1; funext r; exact ih r
  | choose k ih => rw [choose_bind]; congr 1; funext b; exact ih b

theorem bind_assoc (p : Prog Resp ε α) (f : α → Prog Resp ε β) (g : β → Prog Resp ε γ) :
    (p >>= f >>= g) = p >>= fun a => f a >>= g := by
  induction p with
  | ret | fail => rfl
  | ask o k ih => simp only [ask_bind]; congr 1; funext r; exact ih r
  | choose k ih => simp only [choose_bind]; congr 1; funext b; exact ih b

instance : LawfulMonad (Prog Resp ε) :=
  LawfulMonad.mk' _ (fun p => bind_ret p) (fun _ _ => rfl) bind_assoc

/-- Run a program to its end and hand its error, if any, to the continuation as a value. -/
def attempt : Prog Resp ε α → Prog Resp ε (Except ε α)
  | ret a => ret (.ok a)
  | fail e => ret (.error e)
  | ask o k => ask o fun r => (k r).attempt
  | choose k => choose fun b => (k b).attempt

/-! ## Two programs side by side

Neither program sees the other's error: both are run to their end, and what each came to is
returned.  `joinAsk` is the case where the left program is at a request; `left r` is what is left
of the join once that request has been answered by `r`. -/

/-- The join of a program that is about to ask `o` with another one. -/
def joinAsk (o : Op) (p : Resp o → Prog Resp ε (Except ε α))
    (left : Resp o → Prog Resp ε β → Prog Resp ε (Except ε α × Except ε β)) :
    Prog Resp ε β → Prog Resp ε (Except ε α × Except ε β)
  | ret b => ask o fun r => (fun a => (a, .ok b)) <$> p r
  | fail e => ask o fun r => (fun a => (a, .error e)) <$> p r
  | ask o' k => choose fun first =>
      if first then ask o fun r => left r (ask o' k)
      else ask o' fun r => joinAsk o p left (k r)
  | choose k => choose fun b => joinAsk o p left (k b)

/-- Both programs at once, the scheduler deciding which of the two moves next. -/
def join : Prog Resp ε α → Prog Resp ε β → Prog Resp ε (Except ε α × Except ε β)
  | ret a, q => (fun b => (.ok a, b)) <$> q.attempt
  | fail e, q => (fun b => (.error e, b)) <$> q.attempt
  | ask o k, q => joinAsk o (fun r => (k r).attempt) (fun r => join (k r)) q
  | choose k, q => choose fun b => join (k b) q

/-! ## What a program may ask -/

/-- Every request the program can make, whatever is replied to the earlier ones, satisfies `P`. -/
def issues (P : Op → Prop) : Prog Resp ε α → Prop
  | ret _ => True
  | fail _ => True
  | ask o k => P o ∧ ∀ r, (k r).issues P
  | choose k => ∀ b, (k b).issues P

section Issues

variable {P : Op → Prop}

variable {p : Prog Resp ε α}

theorem issues_mono {P' : Op → Prop} (hP : ∀ o, P o → P' o) (hp : p.issues P) : p.issues P' := by
  induction p with
  | ret | fail => trivial
  | ask o k ih => exact ⟨hP o hp.1, fun r => ih r (hp.2 r)⟩
  | choose k ih => exact fun b => ih b (hp b)

theorem issues_bind {f : α → Prog Resp ε β} (hp : p.issues P)
    (hf : ∀ a, (f a).issues P) : (p >>= f).issues P := by
  induction p with
  | ret a => exact hf a
  | fail e => trivial
  | ask o k ih => exact ⟨hp.1, fun r => ih r (hp.2 r)⟩
  | choose k ih => exact fun b => ih b (hp b)

theorem issues_map {f : α → β} (hp : p.issues P) : (f <$> p).issues P := by
  rw [map_eq_pure_bind]
  exact issues_bind hp fun _ => trivial

theorem issues_attempt (hp : p.issues P) : p.attempt.issues P := by
  induction p with
  | ret | fail => trivial
  | ask o k ih => exact ⟨hp.1, fun r => ih r (hp.2 r)⟩
  | choose k ih => exact fun b => ih b (hp b)

theorem issues_join {q : Prog Resp ε β} (hp : p.issues P) (hq : q.issues P) :
    (p.join q).issues P := by
  induction p generalizing q with
  | ret | fail => exact issues_map (issues_attempt hq)
  | choose k ih => exact fun b => ih b (hp b) hq
  | ask o k ih =>
  rw [join]
  -- The left program waits at its request while the right one is walked through.
  induction q with
  | ret | fail => exact ⟨hp.1, fun r => issues_map (issues_attempt (hp.2 r))⟩
  | choose k' ih' => exact fun b => ih' b (hq b)
  | ask o' k' ih' =>
  intro first
  cases first with
  | true => exact ⟨hp.1, fun r => ih r (hp.2 r) hq⟩
  | false => exact ⟨hq.1, fun r => ih' r (hq.2 r)⟩

variable {l : List α}

theorem issues_forM {f : α → Prog Resp ε PUnit} (h : ∀ a ∈ l, (f a).issues P) :
    (l.forM f).issues P := by
  induction l with
  | nil => trivial
  | cons a l ih =>
  exact issues_bind (h a List.mem_cons_self) fun _ =>
    ih fun b hb => h b (List.mem_cons_of_mem _ hb)

theorem issues_foldlM {f : β → α → Prog Resp ε β}
    (h : ∀ b, ∀ a ∈ l, (f b a).issues P) (b : β) : (l.foldlM f b).issues P := by
  induction l generalizing b with
  | nil => trivial
  | cons a l ih =>
  rw [List.foldlM_cons]
  exact issues_bind (h b a List.mem_cons_self) fun b' =>
    ih (fun b'' a' ha' => h b'' a' (List.mem_cons_of_mem _ ha')) b'

theorem issues_mapM {f : α → Prog Resp ε β} (h : ∀ a ∈ l, (f a).issues P) :
    (l.mapM f).issues P := by
  induction l with
  | nil => trivial
  | cons a l ih =>
  rw [List.mapM_cons]
  exact issues_bind (h a List.mem_cons_self) fun _ =>
    issues_bind (ih fun b hb => h b (List.mem_cons_of_mem _ hb)) fun _ => trivial

end Issues

end Prog

/-! ## Executing a program -/

/-- What requests do.  `Ans o` is what the surroundings decide when asked `o`; from that decision
and the state, `act` computes the reply and the next state. -/
structure Sem {Op : Type} (Resp : Op → Type) (σ : Type) where
  /-- What the surroundings decide about a request. -/
  Ans : Op → Type
  /-- The reply to a request, and the state it leaves. -/
  act : (o : Op) → Ans o → σ → Resp o × σ

namespace Sem

variable {Op : Type} {Resp : Op → Type} {σ : Type}

/-- One turn of the surroundings: a decision for whatever is asked, and one for the scheduler. -/
structure Turn (S : Sem Resp σ) where
  /-- The decision for each request that might be made at this turn. -/
  ans : (o : Op) → S.Ans o
  /-- The scheduler's choice. -/
  flip : Bool

/-- The decisions of a turn all satisfy `ok`. -/
def Turn.Within {S : Sem Resp σ} (ok : (o : Op) → S.Ans o → Prop) (t : S.Turn) : Prop :=
  ∀ o, ok o (t.ans o)

end Sem

namespace Prog

variable {Op : Type} {Resp : Op → Type} {σ : Type} {ε α β : Type} (S : Sem Resp σ)

/-- One turn of a program. -/
def step (t : S.Turn) : Prog Resp ε α → σ → Prog Resp ε α × σ
  | ret a, s => (ret a, s)
  | fail e, s => (fail e, s)
  | ask o k, s => (k (S.act o (t.ans o) s).1, (S.act o (t.ans o) s).2)
  | choose k, s => (k t.flip, s)

theorem issues_step {A : Op → Prop} {p : Prog Resp ε α} (hp : p.issues A) (t : S.Turn) (s : σ) :
    (p.step S t s).1.issues A := by
  cases p with
  | ret | fail => exact hp
  | ask o k => exact hp.2 _
  | choose k => exact hp _

/-- As many turns as there are in the list: what is left of the program, and the state.  When the
list is too short the program has stopped in the middle. -/
def exec : List S.Turn → Prog Resp ε α → σ → Prog Resp ε α × σ
  | [], p, s => (p, s)
  | t :: ts, p, s => exec ts (p.step S t s).1 (p.step S t s).2

/-- Execute a program to its end, the `n`-th turn of the surroundings being `ts n`. -/
def run : Prog Resp ε α → (ℕ → S.Turn) → σ → Except ε α × σ
  | ret a, _, s => (.ok a, s)
  | fail e, _, s => (.error e, s)
  | ask o k, ts, s => (k (S.act o ((ts 0).ans o) s).1).run (fun n => ts (n + 1))
      (S.act o ((ts 0).ans o) s).2
  | choose k, ts, s => (k (ts 0).flip).run (fun n => ts (n + 1)) s

/-! ## Every execution at once -/

/-- In every execution from `s` whose decisions are within `ok`, every request is made in a state
where `P` allows it, and the execution ends in `Q`. -/
def always (ok : (o : Op) → S.Ans o → Prop) (P : σ → Op → Prop) :
    Prog Resp ε α → (Except ε α → σ → Prop) → σ → Prop
  | ret a, Q, s => Q (.ok a) s
  | fail e, Q, s => Q (.error e) s
  | ask o k, Q, s =>
    P s o ∧ ∀ a, ok o a → (k (S.act o a s).1).always ok P Q (S.act o a s).2
  | choose k, Q, s => ∀ b, (k b).always ok P Q s

section Always

variable {S} {ok : (o : Op) → S.Ans o → Prop} {P : σ → Op → Prop}
  {Q Q' : Except ε α → σ → Prop}

variable {s : σ}

variable {p : Prog Resp ε α}

theorem always_mono (h : p.always S ok P Q s)
    (hQ : ∀ r s, Q r s → Q' r s) : p.always S ok P Q' s := by
  induction p generalizing s with
  | ret | fail => exact hQ _ _ h
  | ask o k ih => exact ⟨h.1, fun a ha => ih _ (h.2 a ha)⟩
  | choose k ih => exact fun b => ih b (h b)

theorem always_imp {P' : σ → Op → Prop} (hP : ∀ s o, P s o → P' s o)
    (h : p.always S ok P Q s) : p.always S ok P' Q s := by
  induction p generalizing s with
  | ret | fail => exact h
  | ask o k ih => exact ⟨hP _ _ h.1, fun a ha => ih _ (h.2 a ha)⟩
  | choose k ih => exact fun b => ih b (h b)

theorem always_and {P' : σ → Op → Prop} (h : p.always S ok P Q s)
    (h' : p.always S ok P' Q' s) :
    p.always S ok (fun s o => P s o ∧ P' s o) (fun r s => Q r s ∧ Q' r s) s := by
  induction p generalizing s with
  | ret | fail => exact ⟨h, h'⟩
  | ask o k ih => exact ⟨⟨h.1, h'.1⟩, fun a ha => ih _ (h.2 a ha) (h'.2 a ha)⟩
  | choose k ih => exact fun b => ih b (h b) (h' b)

theorem always_of_forall (hP : ∀ s o, P s o) (hQ : ∀ r s, Q r s) (p : Prog Resp ε α) (s : σ) :
    p.always S ok P Q s := by
  induction p generalizing s with
  | ret | fail => exact hQ _ _
  | ask o k ih => exact ⟨hP _ _, fun a _ => ih _ _⟩
  | choose k ih => exact fun b => ih b s

/-- The rule for sequencing: what holds always of `p >>= f` is what holds always of `f` after
every way `p` can end. -/
theorem always_bind {f : α → Prog Resp ε β} {Q : Except ε β → σ → Prop}
    : (p >>= f).always S ok P Q s ↔ p.always S ok P (fun r s' => match r with
      | .ok a => (f a).always S ok P Q s'
      | .error e => Q (.error e) s') s := by
  induction p generalizing s with
  | ret | fail => rfl
  | ask o k ih => exact and_congr_right fun _ => forall₂_congr fun a _ => ih _
  | choose k ih => exact forall_congr' fun b => ih b

theorem always_attempt {Q : Except ε (Except ε α) → σ → Prop} :
    p.attempt.always S ok P Q s ↔ p.always S ok P (fun r s' => Q (.ok r) s') s := by
  induction p generalizing s with
  | ret | fail => rfl
  | ask o k ih => exact and_congr_right fun _ => forall₂_congr fun a _ => ih _
  | choose k ih => exact forall_congr' fun b => ih b

variable {T : σ → Prop}

/-- The rule for loops: what every round keeps, the whole loop keeps. -/
theorem always_forM {l : List β} {f : β → Prog Resp ε PUnit}
    (hf : ∀ b ∈ l, ∀ s, T s → (f b).always S ok P (fun _ s' => T s') s) (hs : T s) :
    (l.forM f).always S ok P (fun _ s' => T s') s := by
  induction l generalizing s with
  | nil => exact hs
  | cons b l ih =>
  refine always_bind.2 (always_mono (hf b List.mem_cons_self s hs) fun r s' hs' => ?_)
  cases r with
  | ok _ => exact ih (fun b' hb' => hf b' (List.mem_cons_of_mem _ hb')) hs'
  | error e => exact hs'

/-- The rule for loops with an accumulator, when all that matters is an invariant of it. -/
theorem always_foldlM {l : List α} {f : β → α → Prog Resp ε β} {I : β → Prop}
    (hf : ∀ b a s, I b → (f b a).always S ok P (fun r _ => ∀ b', r = .ok b' → I b') s)
    {b : β} (hb : I b) (s : σ) :
    (l.foldlM f b).always S ok P (fun r _ => ∀ b', r = .ok b' → I b') s := by
  induction l generalizing b s with
  | nil =>
    rintro b' ⟨⟩
    exact hb
  | cons a l ih =>
  rw [List.foldlM_cons]
  refine always_bind.2 (always_mono (hf b a s hb) fun r s' hr => ?_)
  cases r with
  | ok b' => exact ih (hr b' rfl) s'
  | error e => exact fun _ h => nomatch h

theorem always_step (h : p.always S ok P Q s) {t : S.Turn}
    (ht : t.Within ok) : (p.step S t s).1.always S ok P Q (p.step S t s).2 := by
  cases p with
  | ret | fail => exact h
  | ask o k => exact h.2 _ (ht o)
  | choose k => exact h _

theorem always_exec (h : p.always S ok P Q s) {ts : List S.Turn}
    (hts : ∀ t ∈ ts, t.Within ok) : (p.exec S ts s).1.always S ok P Q (p.exec S ts s).2 := by
  induction ts generalizing p s with
  | nil => exact h
  | cons t ts ih =>
  exact ih (always_step h (hts t List.mem_cons_self)) fun t' ht' =>
    hts t' (List.mem_cons_of_mem _ ht')

/-- What holds under more decisions holds under fewer. -/
theorem always_of_le {ok' : (o : Op) → S.Ans o → Prop} (hok : ∀ o a, ok' o a → ok o a)
    (h : p.always S ok P Q s) : p.always S ok' P Q s := by
  induction p generalizing s with
  | ret | fail => exact h
  | ask o k ih => exact ⟨h.1, fun a ha => ih _ (h.2 a (hok o a ha))⟩
  | choose k ih => exact fun b => ih b (h b)

theorem always_run (h : p.always S ok P Q s) {ts : ℕ → S.Turn}
    (hts : ∀ n, (ts n).Within ok) : Q (p.run S ts s).1 (p.run S ts s).2 := by
  induction p generalizing s ts with
  | ret | fail => exact h
  | ask o k ih => exact ih _ (h.2 _ (hts 0 o)) fun n => hts (n + 1)
  | choose k ih => exact ih _ (h _) fun n => hts (n + 1)

/-- What every allowed request does, the whole execution does, as far as it gets. -/
theorem exec_rel {R : σ → σ → Prop} (hrefl : ∀ s, R s s)
    (htrans : ∀ s₁ s₂ s₃, R s₁ s₂ → R s₂ s₃ → R s₁ s₃)
    (hact : ∀ s o a, P s o → ok o a → R s (S.act o a s).2)
    (h : p.always S ok P Q s) {ts : List S.Turn} (hts : ∀ t ∈ ts, t.Within ok) :
    R s (p.exec S ts s).2 := by
  induction ts generalizing p s with
  | nil => exact hrefl s
  | cons t ts ih =>
  have ht := hts t List.mem_cons_self
  refine htrans _ _ _ ?_ (ih (always_step h ht) fun t' ht' => hts t' (List.mem_cons_of_mem _ ht'))
  cases p with
  | ret | fail | choose => exact hrefl s
  | ask o k => exact hact s o _ h.1 (ht o)

/-- What no admitted request can falsify is still true at the end. -/
theorem always_of_issues {A : Op → Prop} (hp : p.issues A)
    (hT : ∀ o, A o → ∀ s, T s → P s o ∧ ∀ a, ok o a → T (S.act o a s).2) (hs : T s) :
    p.always S ok P (fun _ s' => T s') s := by
  induction p generalizing s with
  | ret | fail => exact hs
  | ask o k ih =>
    obtain ⟨hP, hact⟩ := hT o hp.1 s hs
    exact ⟨hP, fun a ha => ih _ (hp.2 _) (hact a ha)⟩
  | choose k ih => exact fun b => ih b (hp b) hs

/-- What no request of the program can falsify is still true at its end. -/
theorem always_keep {A : Op → Prop}
    (h : p.always S ok P Q s) (hp : p.issues A)
    (hT : ∀ o, A o → ∀ s, T s → ∀ a, ok o a → T (S.act o a s).2) (hs : T s) :
    p.always S ok P (fun r s' => Q r s' ∧ T s') s := by
  induction p generalizing s with
  | ret | fail => exact ⟨h, hs⟩
  | ask o k ih => exact ⟨h.1, fun a ha => ih _ (h.2 a ha) (hp.2 _) (hT o hp.1 s hs a ha)⟩
  | choose k ih => exact fun b => ih b (h b) (hp b) hs

end Always

/-! ## Stopping in the middle

An execution may stop after any turn.  `through` is about all places where it may. -/

/-- Every state an execution comes through satisfies `T`, together with what is left of the program
there. -/
def through (T : Prog Resp ε α → σ → Prop) : Prog Resp ε α → σ → Prop
  | ret a, s => T (ret a) s
  | fail e, s => T (fail e) s
  | ask o k, s => T (ask o k) s ∧ ∀ a, (k (S.act o a s).1).through T (S.act o a s).2
  | choose k, s => T (choose k) s ∧ ∀ b, (k b).through T s

section Through

variable {S} {T : Prog Resp ε α → σ → Prop}

theorem through_here {p : Prog Resp ε α} {s : σ} (h : p.through S T s) : T p s := by
  cases p with
  | ret | fail => exact h
  | ask | choose => exact h.1

theorem through_exec {p : Prog Resp ε α} {s : σ} (h : p.through S T s) (ts : List S.Turn) :
    T (p.exec S ts s).1 (p.exec S ts s).2 := by
  induction ts generalizing p s with
  | nil => exact through_here h
  | cons t ts ih =>
  cases p with
  | ret | fail => exact ih h
  | ask | choose => exact ih (h.2 _)

end Through

/-! ## Surroundings that never change their mind

If the same is decided at each turn, runs compose. -/

section Steady

variable {S} (t : S.Turn)

/-- The run of a program when the same is decided at each turn. -/
def steady (p : Prog Resp ε α) (s : σ) : Except ε α × σ := p.run S (fun _ => t) s

theorem steady_bind {p : Prog Resp ε α} {f : α → Prog Resp ε β} {s s' : σ} {a : α}
    (h : steady t p s = (.ok a, s')) : steady t (p >>= f) s = steady t (f a) s' := by
  induction p generalizing s with
  | ret b =>
    cases h
    rfl
  | fail e => exact nomatch h
  | ask o k ih | choose k ih => exact ih _ h

theorem steady_bind_error {p : Prog Resp ε α} {f : α → Prog Resp ε β} {s s' : σ} {e : ε}
    (h : steady t p s = (.error e, s')) : steady t (p >>= f) s = (.error e, s') := by
  induction p generalizing s with
  | ret b => cases h
  | fail e =>
    cases h
    rfl
  | ask o k ih | choose k ih => exact ih _ h

theorem steady_attempt {p : Prog Resp ε α} {s : σ} :
    steady t p.attempt s = (.ok (steady t p s).1, (steady t p s).2) := by
  induction p generalizing s with
  | ret | fail => rfl
  | ask o k ih | choose k ih => exact ih _

end Steady

/-! ## What a run leaves alone -/

section Run

variable {S} {τ : Type} {A : Op → Prop} {f : σ → τ}

/-- A run is over after finitely many turns. -/
theorem exists_exec_eq_run (p : Prog Resp ε α) (ts : ℕ → S.Turn) (s : σ) :
    ∃ l : List S.Turn, (p.exec S l s).2 = (p.run S ts s).2 := by
  induction p generalizing ts s with
  | ret | fail => exact ⟨[], rfl⟩
  | ask o k ih =>
    obtain ⟨l, hl⟩ := ih _ (fun n => ts (n + 1)) (S.act o ((ts 0).ans o) s).2
    exact ⟨ts 0 :: l, hl⟩
  | choose k ih =>
  obtain ⟨l, hl⟩ := ih (ts 0).flip (fun n => ts (n + 1)) s
  exact ⟨ts 0 :: l, hl⟩

variable (hA : ∀ o, A o → ∀ a s, f (S.act o a s).2 = f s) {p : Prog Resp ε α}

include hA

/-- What no request of a program changes is the same at the end of its run. -/
theorem run_of_issues (hp : p.issues A) (ts : ℕ → S.Turn) (s : σ) : f (p.run S ts s).2 = f s := by
  induction p generalizing ts s with
  | ret | fail => rfl
  | ask o k ih => exact (ih _ (hp.2 _) _ _).trans (hA o hp.1 _ s)
  | choose k ih => exact ih _ (hp _) _ s

/-- The same of a program that goes on, after whatever `p` came to, with such requests only. -/
theorem run_attempt_bind {g : Except ε α → Prog Resp ε β} (hg : ∀ r, (g r).issues A)
    (ts : ℕ → S.Turn) (s : σ) :
    f ((p.attempt >>= g).run S ts s).2 = f (p.run S ts s).2 := by
  induction p generalizing ts s with
  | ret | fail => exact run_of_issues hA (hg _) ts s
  | ask o k ih => exact ih _ _ _
  | choose k ih => exact ih _ _ s

end Run

end Prog
