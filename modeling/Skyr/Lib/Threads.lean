import Mathlib.Data.List.Basic
import Skyr.Lib.Prog

/-!
# Programs that run at the same time

A `Machine` has calls, each of which is carried out by a program, and a state they share.  Any
number of calls are in progress at once; at every turn one of them makes one request.  A call can
be cut short at any point, and the surroundings may change the state on their own.

What is true of such a machine cannot be read off one program: between two requests of a call
anything may have happened.  What a call *knows* is its log, the requests it has made and what
was replied.  So a proof about the machine is in two parts.

* `p.obeys P Q l` says of a program that, whatever is replied, each request is one that `P` allows
  after the log so far.  It is `Prog.always` with the log as the state, hence proved by walking
  through the code, with no other call in sight.
* `Machine.Step` is a machine without programs: calls are traces, and a trace may make any request
  its log allows.  Every machine whose programs obey `P` is one of these (`step_view`), so what is
  invariant under `Machine.Step` holds in every state the machine comes to (`Machine.invariant`).

The requests of a run may be subject to conditions (`Conditions`): on the state and the traces at
the moment a call is begun, a request is made, or the surroundings act.
-/

namespace Prog

variable {Op : Type} {Resp : Op → Type} {ε α β : Type}

/-! ## What a program knows -/

/-- The requests made and the replies to them, newest first. -/
abbrev Log (Resp : Op → Type) : Type := List (Σ o, Resp o)

/-- Requests that are answered in any way whatever, the state being the log. -/
def Log.sem (Resp : Op → Type) : Sem Resp (Log Resp) where
  Ans := Resp
  act o r l := (r, ⟨o, r⟩ :: l)

/-- Whatever is replied, every request of `p` is one that `P` allows after the log so far, and `p`
ends in `Q`. -/
abbrev obeys (P : Log Resp → Op → Prop) (p : Prog Resp ε α) (Q : Except ε α → Log Resp → Prop)
    (l : Log Resp) : Prop :=
  p.always (Log.sem Resp) (fun _ _ => True) P Q l

/-- A log only ever grows. -/
theorem obeys_grow {P : Log Resp → Op → Prop} {Q : Except ε α → Log Resp → Prop}
    {p : Prog Resp ε α} {l : Log Resp} (h : p.obeys P Q l) :
    p.obeys P (fun r l' => Q r l' ∧ l ⊆ l') l := by
  have hgrow : ∀ (p : Prog Resp ε α) (l₀ l : Log Resp), l₀ ⊆ l → p.obeys P Q l →
      p.obeys P (fun r l' => Q r l' ∧ l₀ ⊆ l') l := by
    intro p
    induction p with
    | ret | fail => exact fun _ _ hl h => ⟨h, hl⟩
    | ask o k ih =>
      exact fun l₀ l hl h => ⟨h.1, fun r hr => ih r l₀ _ (List.subset_cons_of_subset _ hl) (h.2 r hr)⟩
    | choose k ih => exact fun l₀ l hl h b => ih b l₀ l hl (h b)
  exact hgrow p l l (List.Subset.refl l) h

/-! ## Two programs side by side

Each of the two sees, between its own requests, requests of the other.  That does no harm when
what the one needs and establishes is not affected by the requests of the other. -/

/-- The second log is the first one with further requests of the kind `A` in it. -/
inductive Log.Adds (A : Op → Prop) : Log Resp → Log Resp → Prop
  | refl (l : Log Resp) : Log.Adds A l l
  | keep {l l' : Log Resp} (e : Σ o, Resp o) (h : Log.Adds A l l') : Log.Adds A (e :: l) (e :: l')
  | add {l l' : Log Resp} (o : Op) (r : Resp o) (ho : A o) (h : Log.Adds A l l') :
      Log.Adds A l (⟨o, r⟩ :: l')

theorem Log.Adds.subset {A : Op → Prop} {l l' : Log Resp} (h : Log.Adds A l l') : l ⊆ l' := by
  induction h with
  | refl l => exact List.Subset.refl l
  | keep e h ih => exact List.cons_subset_cons e ih
  | add o r ho h ih => exact List.subset_cons_of_subset _ ih

/-- `T` is not affected by further requests of the kind `A`. -/
def Log.Stable (A : Op → Prop) (T : Log Resp → Prop) : Prop :=
  ∀ l l', Log.Adds A l l' → T l → T l'

section Join

variable {A B : Op → Prop} {P : Log Resp → Op → Prop} {Q : Except ε α → Log Resp → Prop}
  {Q' : Except ε β → Log Resp → Prop}

/-- One side has come to its end, and the other one goes on. -/
theorem obeys_attempt_map {q : Prog Resp ε β} {γ : Type} {f : Except ε β → γ}
    {T : Log Resp → Prop} {R : Except ε γ → Log Resp → Prop} (hq : q.issues A)
    (hP : ∀ o, A o → Log.Stable B fun l => P l o) (hT : Log.Stable A T)
    (hQ' : ∀ r, Log.Stable B (Q' r)) (hR : ∀ r l, T l → Q' r l → R (.ok (f r)) l)
    {lq l : Log Resp} (hlq : Log.Adds B lq l) (h : q.obeys P Q' lq) (ht : T l) :
    (f <$> q.attempt).obeys P R l := by
  rw [map_eq_pure_bind]
  induction q generalizing lq l with
  | ret | fail => exact hR _ _ ht (hQ' _ _ _ hlq h)
  | choose k ih => exact fun b => ih b (hq b) hlq (h b) ht
  | ask o k ih =>
  refine ⟨hP o hq.1 _ _ hlq h.1, fun r _ => ih r (hq.2 r) (hlq.keep _) (h.2 r trivial) ?_⟩
  exact hT _ _ (.add o r hq.1 (.refl l)) ht

/-- **The rule for programs side by side**: what each of the two obeys and comes to by itself,
they obey and come to together, when neither is affected by the requests of the other. -/
theorem obeys_join {p : Prog Resp ε α} {q : Prog Resp ε β} (hp : p.issues B) (hq : q.issues A)
    (hPp : ∀ o, B o → Log.Stable A fun l => P l o) (hPq : ∀ o, A o → Log.Stable B fun l => P l o)
    (hQ : ∀ r, Log.Stable A (Q r)) (hQ' : ∀ r, Log.Stable B (Q' r)) {lp lq l : Log Resp}
    (hlp : Log.Adds A lp l) (hlq : Log.Adds B lq l) (h : p.obeys P Q lp) (h' : q.obeys P Q' lq) :
    (p.join q).obeys P (fun r l' => ∃ a b, r = .ok (a, b) ∧ Q a l' ∧ Q' b l') l := by
  induction p generalizing q lp lq l with
  | ret a =>
    exact obeys_attempt_map hq hPq (hQ (.ok a)) hQ' (fun r _ hQa hr => ⟨_, r, rfl, hQa, hr⟩) hlq h'
      (hQ _ _ _ hlp h)
  | fail e =>
    exact obeys_attempt_map hq hPq (hQ (.error e)) hQ' (fun r _ hQa hr => ⟨_, r, rfl, hQa, hr⟩)
      hlq h' (hQ _ _ _ hlp h)
  | choose k ih => exact fun b => ih b (hp b) hq hlp hlq (h b) h'
  | ask o k ih =>
  rw [join]
  -- As in the other proofs about joins, the left program waits while the right one is walked
  -- through; the left log grows by what the right one asks.
  induction q generalizing lp lq l with
  | ret b =>
    refine ⟨hPp o hp.1 _ _ hlp h.1, fun r _ => ?_⟩
    exact obeys_attempt_map (hp.2 r) hPp (hQ' (.ok b)) hQ (fun a _ hQb ha => ⟨a, _, rfl, ha, hQb⟩)
      (hlp.keep _) (h.2 r trivial) (hQ' _ _ _ (hlq.add o r hp.1) h')
  | fail e =>
    refine ⟨hPp o hp.1 _ _ hlp h.1, fun r _ => ?_⟩
    exact obeys_attempt_map (hp.2 r) hPp (hQ' (.error e)) hQ
      (fun a _ hQb ha => ⟨a, _, rfl, ha, hQb⟩) (hlp.keep _) (h.2 r trivial)
      (hQ' _ _ _ (hlq.add o r hp.1) h')
  | choose k' ih' => exact fun b => ih' b (hq b) hlp hlq h (h' b)
  | ask o' k' ih' =>
  intro first
  cases first with
  | true =>
    refine ⟨hPp o hp.1 _ _ hlp h.1, fun r _ => ?_⟩
    exact ih r (hp.2 r) hq (hlp.keep _) (hlq.add o r hp.1) (h.2 r trivial) h'
  | false =>
  refine ⟨hPq o' hq.1 _ _ hlq h'.1, fun r _ => ?_⟩
  exact ih' r (hq.2 r) (hlp.add o' r hq.1) (hlq.keep _) h (h'.2 r trivial)

end Join

end Prog

/-! ## Positions in a list of calls -/

namespace List

open List

variable {α : Type}

variable {l : List α} {i : ℕ} {b a : α}

theorem getElem?_set_cases {j : ℕ} (h : (l.set i a)[j]? = some b) :
    (j = i ∧ b = a) ∨ (j ≠ i ∧ l[j]? = some b) := by
  by_cases hij : i = j
  · subst hij
    obtain ⟨hlt, hb⟩ := getElem?_eq_some_iff.1 h
    rw [getElem_set_self hlt] at hb
    exact .inl ⟨rfl, hb.symm⟩
  · rw [getElem?_set_ne hij] at h
    exact .inr ⟨fun hji => hij hji.symm, h⟩

theorem getElem?_concat_cases {j : ℕ} (h : (l ++ [a])[j]? = some b) :
    l[j]? = some b ∨ (j = l.length ∧ b = a) := by
  rcases Nat.lt_or_ge j l.length with hj | hj
  · rw [getElem?_append_left hj] at h
    exact .inl h
  rw [getElem?_append_right hj] at h
  obtain ⟨hlt, hb⟩ := getElem?_eq_some_iff.1 h
  have hj' : j - l.length = 0 := by simpa using hlt
  refine .inr ⟨by omega, ?_⟩
  simpa [hj'] using hb.symm

/-- Replacing an element loses that element only. -/
theorem mem_set_or_eq (hi : l[i]? = some b) (ha : a ∈ l) (x : α) : a ∈ l.set i x ∨ a = b := by
  obtain ⟨j, hj⟩ := mem_iff_getElem?.1 ha
  by_cases hij : i = j
  · subst hij
    rw [hi] at hj
    exact .inr (Option.some.inj hj).symm
  · refine .inl (mem_iff_getElem?.2 ⟨j, ?_⟩)
    rw [getElem?_set_ne hij, hj]

theorem mem_set_of_getElem? (hi : l[i]? = some b) (x : α) : x ∈ l.set i x :=
  mem_set (getElem?_eq_some_iff.1 hi).1 x

/-- What some element has, another one than the `i`-th has, or that one has it. -/
theorem exists_mem_iff_other {p : α → Prop} (hi : l[i]? = some b) :
    (∃ a ∈ l, p a) ↔ (∃ j a, j ≠ i ∧ l[j]? = some a ∧ p a) ∨ p b := by
  constructor
  · rintro ⟨a, ha, hp⟩
    obtain ⟨j, hj⟩ := mem_iff_getElem?.1 ha
    by_cases hij : j = i
    · rw [hij, hi] at hj
      cases hj
      exact .inr hp
    · exact .inl ⟨j, a, hij, hj, hp⟩
  rintro (⟨j, a, -, hj, hp⟩ | hp)
  · exact ⟨a, mem_of_getElem? hj, hp⟩
  · exact ⟨b, mem_of_getElem? hi, hp⟩

theorem exists_mem_set_iff_other {c : α} {p : α → Prop}
    (hi : l[i]? = some b) :
    (∃ a ∈ l.set i c, p a) ↔ (∃ j a, j ≠ i ∧ l[j]? = some a ∧ p a) ∨ p c := by
  have hset : (l.set i c)[i]? = some c := by rw [getElem?_set_self (getElem?_eq_some_iff.1 hi).1]
  rw [exists_mem_iff_other hset]
  refine or_congr_left (exists_congr fun j => exists_congr fun a => and_congr_right fun hj => ?_)
  rw [getElem?_set_ne hj.symm]

end List

/-! ## The machine -/

/-- A call in progress: what it has asked so far, and what is left of its program. -/
structure Thread {Op : Type} (Resp : Op → Type) (ε Call : Type) where
  call : Call
  log : Prog.Log Resp
  prog : Prog Resp ε Unit

/-- The state, and every call begun so far. -/
structure Pool {Op : Type} (Resp : Op → Type) (ε σ Call : Type) where
  state : σ
  threads : List (Thread Resp ε Call)

/-- Calls and the programs that carry them out, over a shared state that the surroundings can
change as well. -/
structure Machine {Op : Type} (Resp : Op → Type) (ε σ Call Env : Type) where
  sem : Sem Resp σ
  body : Call → Prog Resp ε Unit
  outside : Env → σ → σ

/-- A call without its program. -/
structure Trace {Op : Type} (Resp : Op → Type) (Call : Type) where
  call : Call
  log : Prog.Log Resp
  /-- The call has neither returned nor failed. -/
  running : Bool

/-- The calls and the state without the programs. -/
structure PoolView {Op : Type} (Resp : Op → Type) (σ Call : Type) where
  state : σ
  traces : List (Trace Resp Call)

section

variable {Op : Type} {Resp : Op → Type} {ε σ Call Env : Type}

namespace Thread

def running (th : Thread Resp ε Call) : Bool :=
  match th.prog with
  | .ret _ => false
  | .fail _ => false
  | _ => true

def trace (th : Thread Resp ε Call) : Trace Resp Call := ⟨th.call, th.log, th.running⟩

end Thread

def Pool.view (y : Pool Resp ε σ Call) : PoolView Resp σ Call :=
  ⟨y.state, y.threads.map Thread.trace⟩

namespace Machine

open List

variable (M : Machine Resp ε σ Call Env)

inductive Event
  | start (c : Call)
  /-- The `i`-th call takes a turn. -/
  | turn (i : ℕ) (t : M.sem.Turn)
  /-- The `i`-th call is cut short. -/
  | stop (i : ℕ) (e : ε)
  /-- The surroundings change the state. -/
  | outside (e : Env)

/-- One turn of a call. -/
def stepThread (t : M.sem.Turn) (th : Thread Resp ε Call) (s : σ) : Thread Resp ε Call × σ :=
  match th.prog with
  | .ask o k =>
    let r := M.sem.act o (t.ans o) s
    ({ th with log := ⟨o, r.1⟩ :: th.log, prog := k r.1 }, r.2)
  | .choose k => ({ th with prog := k t.flip }, s)
  | _ => (th, s)

def step (y : Pool Resp ε σ Call) : M.Event → Pool Resp ε σ Call
  | .start c => { y with threads := y.threads ++ [⟨c, [], M.body c⟩] }
  | .turn i t =>
    match y.threads[i]? with
    | some th =>
      let r := M.stepThread t th y.state
      ⟨r.2, y.threads.set i r.1⟩
    | none => y
  | .stop i e =>
    match y.threads[i]? with
    | some th => { y with threads := y.threads.set i { th with prog := .fail e } }
    | none => y
  | .outside e => { y with state := M.outside e y.state }

/-- One event after the other. -/
def run (y : Pool Resp ε σ Call) (es : List M.Event) : Pool Resp ε σ Call :=
  es.foldl M.step y

/-- What is required of the steps of a run: when a call is begun, when a call makes a request, and
when the surroundings act.  Everything is judged by what there is before the step. -/
structure Conditions where
  start : PoolView Resp σ Call → Call → Prop
  ask : PoolView Resp σ Call → Call → Prog.Log Resp → (o : Op) → M.sem.Ans o → Prop
  outside : PoolView Resp σ Call → Env → Prop

/-- An event meets the conditions. -/
def Admits (C : M.Conditions) (y : Pool Resp ε σ Call) : M.Event → Prop
  | .start c => C.start y.view c
  | .turn i t => ∀ th o k, y.threads[i]? = some th → th.prog = .ask o k →
      C.ask y.view th.call th.log o (t.ans o)
  | .stop _ _ => True
  | .outside e => C.outside y.view e

/-- Every step of a run meets the conditions. -/
def Meets (C : M.Conditions) : Pool Resp ε σ Call → List M.Event → Prop
  | _, [] => True
  | y, e :: es => M.Admits C y e ∧ Meets C (M.step y e) es

/-- A step of the machine as far as it can be told without the programs: a call makes a request
that `P` allows after its log. -/
inductive Step (P : Call → Prog.Log Resp → Op → Prop) (C : M.Conditions) :
    PoolView Resp σ Call → PoolView Resp σ Call → Prop
  | start {v : PoolView Resp σ Call} (c : Call) (running : Bool) (h : C.start v c) :
      Step P C v { v with traces := v.traces ++ [⟨c, [], running⟩] }
  | ask {v : PoolView Resp σ Call} {i : ℕ} {c : Call} {l : Prog.Log Resp} (o : Op)
      (a : M.sem.Ans o) (running : Bool) (hi : v.traces[i]? = some ⟨c, l, true⟩) (hP : P c l o)
      (h : C.ask v c l o a) :
      Step P C v ⟨(M.sem.act o a v.state).2,
        v.traces.set i ⟨c, ⟨o, (M.sem.act o a v.state).1⟩ :: l, running⟩⟩
  | idle {v : PoolView Resp σ Call} {i : ℕ} {c : Call} {l : Prog.Log Resp} {b : Bool}
      (running : Bool) (hi : v.traces[i]? = some ⟨c, l, b⟩) (hb : running → b) :
      Step P C v { v with traces := v.traces.set i ⟨c, l, running⟩ }
  | outside {v : PoolView Resp σ Call} (e : Env) (h : C.outside v e) :
      Step P C v { v with state := M.outside e v.state }

/-- What is left of every call obeys `P`. -/
def Sound (P : Call → Prog.Log Resp → Op → Prop) (y : Pool Resp ε σ Call) : Prop :=
  ∀ th ∈ y.threads, th.prog.obeys (P th.call) (fun _ _ => True) th.log

variable {M} {P : Call → Prog.Log Resp → Op → Prop} {C : M.Conditions}

variable {y : Pool Resp ε σ Call}

theorem traces_getElem {i : ℕ} {th : Thread Resp ε Call}
    (hi : y.threads[i]? = some th) : y.view.traces[i]? = some th.trace := by
  change (y.threads.map Thread.trace)[i]? = _
  rw [getElem?_map, hi]
  rfl

theorem view_set (y : Pool Resp ε σ Call) (i : ℕ) (th : Thread Resp ε Call) (s : σ) :
    (⟨s, y.threads.set i th⟩ : Pool Resp ε σ Call).view =
      ⟨s, y.view.traces.set i th.trace⟩ := by
  change (⟨s, (y.threads.set i th).map Thread.trace⟩ : PoolView Resp σ Call) = _
  rw [map_set]
  rfl

variable {t : M.sem.Turn}

/-- A turn leaves a sound call sound, and is a step of the machine without programs. -/
theorem stepThread_sound {th : Thread Resp ε Call} {s : σ}
    (h : th.prog.obeys (P th.call) (fun _ _ => True) th.log) :
    (M.stepThread t th s).1.prog.obeys (P (M.stepThread t th s).1.call) (fun _ _ => True)
      (M.stepThread t th s).1.log := by
  obtain ⟨c, l, p⟩ := th
  cases p with
  | ret | fail => exact h
  | ask o k => exact h.2 _ trivial
  | choose k => exact h _

/-- What an event leaves of the calls: those that were there, one that is begun, or what has become
of one. -/
theorem forall_threads_step {J : Thread Resp ε Call → Prop} {e : M.Event}
    (h : ∀ th ∈ y.threads, J th) (hstart : ∀ c, J ⟨c, [], M.body c⟩)
    (hturn : ∀ t th, J th → J (M.stepThread t th y.state).1)
    (hstop : ∀ i err th, e = .stop i err → y.threads[i]? = some th → J th →
      J { th with prog := .fail err }) : ∀ th ∈ (M.step y e).threads, J th := by
  have hset : ∀ {i : ℕ} {th' : Thread Resp ε Call}, J th' → ∀ th ∈ y.threads.set i th', J th := by
    intro i th' hJ th hth
    rcases mem_or_eq_of_mem_set hth with hth | rfl
    · exact h th hth
    · exact hJ
  cases e with
  | start c =>
    intro th hth
    rcases mem_append.1 hth with hth | hth
    · exact h th hth
    · rw [mem_singleton.1 hth]
      exact hstart c
  | turn i t =>
    rw [Machine.step]
    cases hi : y.threads[i]? with
    | none => exact h
    | some th => exact hset (hturn t th (h th (mem_of_getElem? hi)))
  | stop i err =>
    rw [Machine.step]
    cases hi : y.threads[i]? with
    | none => exact h
    | some th => exact hset (hstop i err th rfl hi (h th (mem_of_getElem? hi)))
  | outside e => exact h

theorem Sound.step (hbody : ∀ c, (M.body c).obeys (P c) (fun _ _ => True) [])
    (h : Sound P y) (e : M.Event) : Sound P (M.step y e) :=
  forall_threads_step h hbody (fun _ _ hth => stepThread_sound hth) fun _ _ _ _ _ _ => trivial

/-- **Programs that obey `P` are a machine without programs**: an event that meets the conditions
changes nothing to be seen, or is one of its steps. -/
theorem step_view (h : Sound P y) {e : M.Event}
    (he : M.Admits C y e) : (M.step y e).view = y.view ∨ M.Step P C y.view (M.step y e).view := by
  cases e with
  | start c =>
    right
    have hview : (M.step y (.start c)).view = ⟨y.view.state,
        y.view.traces ++ [(⟨c, [], M.body c⟩ : Thread Resp ε Call).trace]⟩ :=
      congrArg (PoolView.mk y.state) map_append
    rw [hview]
    exact .start c _ he
  | outside e => exact .inr (.outside e he)
  | stop i e =>
    rw [Machine.step]
    cases hi : y.threads[i]? with
    | none => exact .inl rfl
    | some th =>
    right
    rw [view_set]
    exact Step.idle (b := th.running) false (traces_getElem hi) nofun
  | turn i t =>
  rw [Machine.step]
  cases hi : y.threads[i]? with
  | none => exact .inl rfl
  | some th =>
  right
  rw [view_set]
  have htr := traces_getElem hi
  have hth := h th (mem_of_getElem? hi)
  obtain ⟨c, l, p⟩ := th
  cases p with
  | ret | fail => exact .idle false htr nofun
  | ask o k => exact .ask o (t.ans o) _ htr hth.1 (he _ o k hi rfl)
  | choose k => exact .idle _ htr fun _ => rfl

/-- **The rule for runs.**  What every step that meets the conditions keeps holds in every state
of a run that meets them. -/
theorem invariant {J : PoolView Resp σ Call → Prop}
    (hbody : ∀ c, (M.body c).obeys (P c) (fun _ _ => True) [])
    (hstep : ∀ v v', J v → M.Step P C v v' → J v') {es : List M.Event}
    (hsound : Sound P y) (hy : J y.view) (hes : M.Meets C y es) :
    J (M.run y es).view ∧ Sound P (M.run y es) := by
  induction es generalizing y with
  | nil => exact ⟨hy, hsound⟩
  | cons e es ih =>
  refine ih (hsound.step hbody e) ?_ hes.2
  rcases step_view hsound hes.1 with heq | hs
  · rw [heq]
    exact hy
  · exact hstep _ _ hy hs

theorem admits_ask {i : ℕ} {c : Call}
    {l : Prog.Log Resp} {o : Op} {k : Resp o → Prog Resp ε Unit}
    (hi : y.threads[i]? = some ⟨c, l, .ask o k⟩) (h : C.ask y.view c l o (t.ans o)) :
    M.Admits C y (.turn i t) := by
  intro th o' k' hth hp
  rw [hi] at hth
  cases hth
  cases hp
  exact h

theorem admits_choose {i : ℕ} {c : Call}
    {l : Prog.Log Resp} {k : Bool → Prog Resp ε Unit}
    (hi : y.threads[i]? = some ⟨c, l, .choose k⟩) : M.Admits C y (.turn i t) := by
  intro th o' k' hth hp
  rw [hi] at hth
  cases hth
  cases hp

theorem meets_append {es es' : List M.Event} :
    M.Meets C y (es ++ es') ↔ M.Meets C y es ∧ M.Meets C (M.run y es) es' := by
  induction es generalizing y with
  | nil => exact ⟨fun h => ⟨trivial, h⟩, fun h => h.2⟩
  | cons e es ih => exact (and_congr_right fun _ => ih).trans and_assoc.symm

end Machine

end
