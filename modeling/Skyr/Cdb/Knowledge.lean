import Skyr.De.Requests
import Skyr.Cluster

/-!
# What a job knows about a deployment

Every write of a deployment's row is decided by something the job has read, at some earlier moment.
`Possible l q x` says that, going by the log `l` and as far as the job can tell, the stored state of
`q` may be `x`: the state it last read or wrote, both states if its last write failed, any state if
it has never looked.  Nothing guarantees that the guess is right.  But a job that nobody interferes
with gets replies that agree with it (`Coherent`), and of such a job can be shown that

* it writes a row only with a state that is not further back than what it takes the stored state
  to be, and
* it puts a deployment into the active index only when it does not take it to be down.

`Entitled` states this about one request, and every job keeps to it (`body_entitled`), whatever is
replied to it.  What follows for the database is the subject of `Skyr.Cdb.Lifecycle`.
-/

namespace Skyr.Cdb

open DeploymentClient List

open Prog

variable [SclData]

open DeploymentState

omit [SclData] in
/-- How far a deployment is in its life. -/
def rank : DeploymentState → ℕ
  | desired => 0
  | lingering => 1
  | undesired => 2
  | down => 3

/-! ## The log as a source of knowledge -/

/-- What a request and its reply say about the stored state of a deployment. -/
inductive Tells
  | nothing
  | is (x : Option DeploymentState)
  /-- A write that failed may have been carried out. -/
  | maybe (st : DeploymentState)

def tells (q : DeploymentQid) : (Σ o, Resp o) → Tells
  | ⟨.cdb (.findDeployment q'), .ok row⟩ =>
    if q' = q then .is (row.map Deployment.state) else .nothing
  | ⟨.cdb (.findDeploymentsByQids _), .ok rows⟩ =>
    match rows.items.find? fun d => d.qid = q with
    | some d => .is (some d.state)
    | none => .nothing
  | ⟨.cdb (.setDeploymentById d), .ok _⟩ => if d.qid = q then .is (some d.state) else .nothing
  | ⟨.cdb (.setDeploymentById d), .error _⟩ => if d.qid = q then .maybe d.state else .nothing
  | _ => .nothing

/-- As far as can be told from the log, the stored state of `q` may be `x`. -/
def Possible : Prog.Log Resp → DeploymentQid → Option DeploymentState → Prop
  | [], _, _ => True
  | e :: l, q, x =>
    match tells q e with
    | .nothing => Possible l q x
    | .is y => x = y
    | .maybe st => x = some st ∨ Possible l q x

/-- The reply agrees with what the job knew: a read of a row does not fail and returns a state that
was possible, and `make_desired` finds no row of the deployment it is for. -/
def Plausible (c : Job) (l : Prog.Log Resp) : (Σ o, Resp o) → Prop
  | ⟨.cdb (.findDeployment q), .ok row⟩ =>
    Possible l q (row.map Deployment.state) ∧ (∀ d ∈ row, d.qid = q) ∧
      (c = .makeDesired q → row = none)
  | ⟨.cdb (.findDeployment _), .error _⟩ => False
  | ⟨.cdb (.findDeploymentsByQids _), .ok rows⟩ =>
    ∀ d ∈ rows.items, Possible l d.qid (some d.state) ∧
      ∀ d' ∈ rows.items, d'.qid = d.qid → d'.state = d.state
  | _ => True

/-- Every reply agrees with what the job knew when it asked. -/
def Coherent (c : Job) : Prog.Log Resp → Prop
  | [] => True
  | e :: l => Plausible c l e ∧ Coherent c l

/-- A job that gets coherent replies knows `K` of the stored state of `q`. -/
def Known (c : Job) (q : DeploymentQid) (K : Option DeploymentState → Prop) (l : Prog.Log Resp) :
    Prop :=
  Coherent c l → ∀ x, Possible l q x → K x

section Known

variable {c : Job} {q : DeploymentQid} {K K' : Option DeploymentState → Prop} {l : Prog.Log Resp}

theorem Known.imp (h : Known c q K l) (hK : ∀ x, K x → K' x) : Known c q K' l :=
  fun hco x hx => hK x (h hco x hx)

/-- Reading adds to what is known and never takes away from it; a write takes its place. -/
theorem Known.cons (h : Known c q K l) {e : Σ o, Resp o}
    (hw : ∀ d, e.1 = .cdb (.setDeploymentById d) → d.qid = q → K (some d.state)) :
    Known c q K (e :: l) := by
  rintro ⟨hpl, hco⟩ x hx
  rw [Possible] at hx
  split at hx
  · exact h hco x hx
  · next y hy =>
    subst hx
    -- The reply says what the state is: a read of it, which was possible, or a write of it.
    unfold tells at hy
    split at hy
    · split at hy
      · next hq =>
        cases hy
        subst hq
        exact h hco _ hpl.1
      · cases hy
    · split at hy
      · next d hd =>
        cases hy
        have hq : d.qid = q := by simpa using find?_some hd
        have hposs := (hpl d (mem_of_find?_eq_some hd)).1
        rw [hq] at hposs
        exact h hco _ hposs
      · cases hy
    · split at hy
      · next hq =>
        cases hy
        exact hw _ rfl hq
      · cases hy
    · split at hy <;> cases hy
    · cases hy
  next st hst =>
  rcases hx with rfl | hx
  · unfold tells at hst
    split at hst
    · split at hst <;> cases hst
    · split at hst <;> cases hst
    · split at hst <;> cases hst
    · split at hst
      · next hq =>
        cases hst
        exact hw _ rfl hq
      · cases hst
    · cases hst
  · exact h hco x hx

/-- What is known after a row has been read. -/
theorem known_find (row : Option Deployment) :
    Known c q (fun x => x = row.map Deployment.state)
      (⟨.cdb (.findDeployment q), .ok row⟩ :: l) := by
  rintro - x hx
  simp only [Possible, tells, if_true] at hx
  exact hx

theorem known_rows {qids : List DeploymentQid} {rows : Rows Deployment} {d : Deployment}
    (hd : d ∈ rows.items) :
    Known c d.qid (fun x => x = some d.state)
      (⟨.cdb (.findDeploymentsByQids qids), .ok rows⟩ :: l) := by
  rintro ⟨hpl, -⟩ x hx
  simp only [Possible, tells] at hx
  split at hx
  · next heq =>
    split at heq
    · cases heq
    next hnone =>
    have := find?_eq_none.1 hnone d hd
    simp at this
  · next y heq =>
    split at heq
    · next d' hd' =>
      cases heq
      have hq : d'.qid = d.qid := by simpa using find?_some hd'
      rw [hx, (hpl d hd).2 d' (mem_of_find?_eq_some hd') hq]
    · cases heq
  · next heq => split at heq <;> cases heq

/-- The row found, when the replies are coherent. -/
theorem qid_of_coherent {q' : DeploymentQid} {d : Deployment}
    (h : Coherent c (⟨.cdb (.findDeployment q'), .ok (some d)⟩ :: l)) : d.qid = q' :=
  h.1.2.1 d rfl

end Known

/-! ## What a job may ask -/

/-- A deployment whose stored state is `x` may be moved to `st`: it is not further than that, or
`make_desired` is about to give its own deployment a row. -/
def Ahead (c : Job) (q : DeploymentQid) (st : DeploymentState) (x : Option DeploymentState) : Prop :=
  (∃ st', x = some st' ∧ rank st' ≤ rank st) ∨ (x = none ∧ c = .makeDesired q ∧ st = desired)

/-- The requests that a job may make after the log `l`, as far as deployments are concerned. -/
def Entitled (c : Job) (l : Prog.Log Resp) : Skyr.Op → Prop
  | .cdb (.setDeploymentById d) => Known c d.qid (Ahead c d.qid d.state) l
  | .cdb (.setActiveDeployment q) => Known c q (· ≠ some down) l
  | _ => True

/-- Every request of `p` is one the job may make. -/
abbrev Fair {α : Type} (c : Job) (p : M α) (l : Prog.Log Resp) : Prop :=
  p.obeys (Entitled c) (fun _ _ => True) l

/-- Requests other than the writes that `Entitled` is about. -/
def Mild : Skyr.Op → Prop
  | .cdb (.setDeploymentById _) => False
  | .cdb (.setActiveDeployment _) => False
  | _ => True

section Rules

variable {α β : Type} {c : Job} {q : DeploymentQid} {K : Option DeploymentState → Prop}
  {l : Prog.Log Resp}

theorem entitled_of_mild {o : Skyr.Op} (h : Mild o) : Entitled c l o := by
  unfold Mild at h
  unfold Entitled
  split
  · exact h.elim
  · exact h.elim
  · trivial

theorem Known.mild (h : Known c q K l) {o : Skyr.Op} (ho : Mild o) (r : Resp o) :
    Known c q K (⟨o, r⟩ :: l) := by
  refine h.cons fun d hd => ?_
  cases hd
  exact ho.elim

variable {p : M α}

theorem fair_mild (hp : p.issues Mild) : Fair c p l :=
  always_of_issues (T := fun _ => True) hp
    (fun _ ho _ _ => ⟨entitled_of_mild ho, fun _ _ => trivial⟩) trivial

/-- A mild program, and then something that rests on knowledge from before. -/
theorem fair_mild_then {f : α → M β} (hp : p.issues Mild) (h : Known c q K l)
    (hf : ∀ a l', Known c q K l' → Fair c (f a) l') : Fair c (p >>= f) l := by
  refine always_then (I := Known c q K) ?_ hf fun _ _ _ => trivial
  exact always_of_issues hp (fun o ho l' hl' => ⟨entitled_of_mild ho, fun r _ => hl'.mild ho r⟩) h

theorem fair_then {f : α → M β} (hp : Fair c p l) (hf : ∀ a l', Fair c (f a) l') :
    Fair c (p >>= f) l :=
  always_then (I := fun _ => True) hp (fun a l' _ => hf a l') fun _ _ _ => trivial

theorem fair_attempt_then {f : Except String α → M β} (hp : Fair c p l)
    (hf : ∀ r l', Fair c (f r) l') : Fair c (p.attempt >>= f) l :=
  fair_then (always_attempt.2 hp) hf

/-- Reading a row: it is known from then on. -/
theorem fair_get {Q : Except String Deployment → Prog.Log Resp → Prop}
    (hok : ∀ d l', (Coherent c l' → d.qid = q) → Known c q (· = some d.state) l' → Q (.ok d) l')
    (herr : ∀ e l', Known c q (· = none) l' → Q (.error e) l') :
    (DeploymentClient.get q).obeys (Entitled c) Q l := by
  refine always_bind.2 ⟨trivial, fun r _ => always_ofExcept.2 ?_⟩
  cases r with
  | error e => exact herr e _ fun hco => hco.1.elim
  | ok row =>
  cases row with
  | some d => exact hok d _ (fun hco => qid_of_coherent hco) (known_find (some d))
  | none => exact herr _ _ (known_find none)

end Rules

/-! ## Writing a row -/

section Writes

variable {c : Job} {q : DeploymentQid} {l : Prog.Log Resp}

omit [SclData] in
theorem ne_down_of_rank {st st' : DeploymentState} (h : rank st' ≤ rank st) (hst : st ≠ down) :
    st' ≠ down := by
  rintro rfl
  cases st with
  | down => exact hst rfl
  | undesired | lingering | desired => exact absurd h (by decide)

variable {st : DeploymentState}

theorem Ahead.ne_down {x : Option DeploymentState} (h : Ahead c q st x)
    (hst : st ≠ down) : x ≠ some down := by
  rcases h with ⟨st', rfl, hrank⟩ | ⟨rfl, -⟩
  · exact fun heq => ne_down_of_rank hrank hst (Option.some.inj heq)
  · exact Option.some_ne_none _ ∘ Eq.symm

/-- The two statements of a write, in either order. -/
theorem fair_setDeployment {d : Deployment} (h : Known c d.qid (Ahead c d.qid d.state) l) :
    Fair c (setDeployment d) l := by
  have hdone : ∀ (r r' : Except String Unit) (l' : Prog.Log Resp),
      Fair c (M.ofExcept r >>= fun _ => M.ofExcept r') l' := fun r r' l' =>
    fair_mild (issues_bind (issues_ofExcept r) fun _ => issues_ofExcept r')
  refine fair_then ?_ fun r l' => hdone r.1 r.2 l'
  split
  · -- The deployment goes down: its place in the index is given up.
    intro first
    cases first with
    | true =>
      refine ⟨h, fun r _ => ?_⟩
      cases r with
      | ok | error => exact fair_mild ⟨trivial, fun r => by cases r <;> trivial⟩
    | false =>
    refine ⟨trivial, fun r _ => ?_⟩
    have h' := h.mild (o := .cdb (.unsetActiveDeployment d.qid)) trivial r
    cases r with
    | ok | error => exact ⟨h', fun r _ => by cases r <;> trivial⟩
  next hst =>
  have hactive : Known c d.qid (· ≠ some down) l := h.imp fun x hx => hx.ne_down hst
  intro first
  cases first with
  | true =>
    refine ⟨h, fun r _ => ?_⟩
    have h' : Known c d.qid (· ≠ some down) (⟨.cdb (.setDeploymentById d), r⟩ :: l) := by
      refine hactive.cons fun d' hd' _ => ?_
      cases hd'
      exact fun heq => hst (Option.some.inj heq)
    cases r with
    | ok | error => exact ⟨h', fun r _ => by cases r <;> trivial⟩
  | false =>
  refine ⟨hactive, fun r _ => ?_⟩
  have h' : Known c d.qid (Ahead c d.qid d.state)
      (⟨.cdb (.setActiveDeployment d.qid), r⟩ :: l) := h.cons fun d' hd' => nomatch hd'
  cases r with
  | ok | error => exact ⟨h', fun r _ => by cases r <;> trivial⟩

/-- A state that a deployment may be asked to move to.  From down to undesired is asked for, and
refused. -/
def Movable (c : Job) (q : DeploymentQid) (st : DeploymentState) (x : Option DeploymentState) :
    Prop :=
  Ahead c q st x ∨ (x = some down ∧ st = undesired)

/-- Moving a deployment, given what was read of it. -/
theorem fair_move (prev : Option Deployment)
    (hread : Known c q (· = prev.map Deployment.state) l)
    (h : Known c q (Movable c q st) l) :
    Fair c (if prev.map Deployment.state = some down ∧ st = undesired then return ()
      else setDeployment ⟨q, st, (prev.map Deployment.bootstrapped).getD false⟩) l := by
  split
  · trivial
  next hne =>
  refine fair_setDeployment fun hco x hx => ?_
  rcases h hco x hx with hahead | hdown
  · exact hahead
  · rw [hread hco x hx] at hdown
    exact absurd hdown hne

/-- Moving a deployment that, once it has been read, is known not to be further already. -/
theorem fair_set_of_read
    (h : ∀ r, Known c q (Movable c q st) (⟨.cdb (.findDeployment q), r⟩ :: l)) :
    Fair c (DeploymentClient.set q st) l := by
  refine always_bind.2 (always_attempt.2 (always_bind.2 ⟨trivial, fun r _ => always_ofExcept.2 ?_⟩))
  cases r with
  | error e => exact fair_move none (fun hco => hco.1.elim) (h _)
  | ok row =>
  cases row with
  | none => exact fair_move none (known_find none) (h _)
  | some d => exact fair_move (some d) (known_find (some d)) (h _)

theorem fair_set (h : Known c q (Movable c q st) l) : Fair c (DeploymentClient.set q st) l :=
  fair_set_of_read fun r => h.mild (o := .cdb (.findDeployment q)) trivial r

/-- The deployment that `make_desired` is for. -/
theorem fair_set_own : Fair (.makeDesired q) (DeploymentClient.set q desired) l := by
  refine fair_set_of_read fun r hco x hx => ?_
  cases r with
  | error e => exact hco.1.elim
  | ok row =>
  obtain rfl : row = none := hco.1.2.2 rfl
  exact .inl (.inr ⟨known_find none hco x hx, rfl, rfl⟩)

/-- Nothing has to be known in order to ask a stored deployment to come down. -/
theorem movable_undesired {x : Option DeploymentState} (h : x ≠ none) : Movable c q undesired x := by
  obtain ⟨st, rfl⟩ := Option.ne_none_iff_exists'.1 h
  cases st with
  | down => exact .inr ⟨rfl, rfl⟩
  | undesired => exact .inl (.inl ⟨undesired, rfl, le_refl _⟩)
  | lingering => exact .inl (.inl ⟨lingering, rfl, by decide⟩)
  | desired => exact .inl (.inl ⟨desired, rfl, by decide⟩)

theorem fair_setProgress (b : Bool) : Fair c (DeploymentClient.setProgress q b) l := by
  refine always_bind.2 (fair_get (fun d l' hqid hd => ?_) fun _ _ _ => trivial)
  refine fair_setDeployment fun hco x hx => ?_
  rw [hqid hco] at hx
  exact .inl ⟨d.state, hd hco x hx, le_refl _⟩

end Writes

/-! ## Pushes, teardowns and ref deletions -/

section Outside

variable {c : Job} {q : DeploymentQid} {l l' : Prog.Log Resp}

/-- Recording a supersession. -/
def Records : Skyr.Op → Prop
  | .cdb (.createSupersession _ _) => True
  | _ => False

variable {o : Skyr.Op}

theorem tells_records (ho : Records o) (r : Resp o) : tells q ⟨o, r⟩ = .nothing := by
  unfold Records at ho
  split at ho
  · rfl
  · exact ho.elim

/-- Supersessions say nothing about states. -/
theorem possible_adds (h : Prog.Log.Adds Records l l') (x : Option DeploymentState) :
    Possible l' q x ↔ Possible l q x := by
  induction h with
  | refl l => rfl
  | keep e h ih => simp only [Possible, ih]
  | add o r ho h ih => rw [Possible, tells_records ho]; exact ih

theorem plausible_adds (h : Prog.Log.Adds Records l l') {e : Σ o, Resp o}
    (he : Plausible c l' e) : Plausible c l e := by
  unfold Plausible at he ⊢
  split
  · exact ⟨(possible_adds h _).1 he.1, he.2⟩
  · exact he
  · exact fun d hd => ⟨(possible_adds h _).1 (he d hd).1, (he d hd).2⟩
  · trivial

theorem coherent_adds (h : Prog.Log.Adds Records l l') (hco : Coherent c l') : Coherent c l := by
  induction h with
  | refl l => exact hco
  | keep e h ih => exact ⟨plausible_adds h hco.1, ih hco.2⟩
  | add o r ho h ih => exact ih hco.2

theorem known_stable (K : Option DeploymentState → Prop) : Prog.Log.Stable Records (Known c q K) :=
  fun _ _ h hk hco x hx => hk (coherent_adds h hco) x ((possible_adds h x).1 hx)

theorem entitled_stable (o : Skyr.Op) : Prog.Log.Stable Records fun l => Entitled c l o := by
  unfold Entitled
  split
  · exact known_stable _
  · exact known_stable _
  · exact fun _ _ _ _ => trivial

theorem mild_of_records (ho : Records o) : Mild o := by
  unfold Records at ho
  split at ho
  · trivial
  · exact ho.elim

theorem issues_markSupersededBy (p : DeploymentQid) (d : DeploymentId) :
    (DeploymentClient.markSupersededBy p d).issues Records :=
  issues_bind (issues_cdb trivial) fun _ => trivial

theorem issues_set_not_records (st : DeploymentState) :
    (DeploymentClient.set q st).issues fun o => ¬Records o :=
  issues_set not_false (fun _ => not_false) not_false not_false

/-- Taking over from a deployment that is known to be desired or lingering. -/
theorem fair_supersede {p : DeploymentQid}
    (h : Known c p (fun x => x = some desired ∨ x = some lingering) l) :
    Fair c (DeploymentClient.supersede q p) l := by
  have hset : Fair c (DeploymentClient.set p lingering) l := by
    refine fair_set (h.imp fun x hx => .inl (.inl ?_))
    rcases hx with rfl | rfl
    · exact ⟨desired, rfl, by decide⟩
    · exact ⟨lingering, rfl, by decide⟩
  have hrecords := issues_markSupersededBy p q.deployment
  have hmark : Fair c (DeploymentClient.markSupersededBy p q.deployment) l :=
    fair_mild (issues_mono (fun _ => mild_of_records) hrecords)
  refine fair_then (always_mono (obeys_join (A := Records) (B := fun o => ¬Records o)
    (issues_set_not_records lingering) hrecords (fun o _ => entitled_stable o)
    (fun o ho _ _ _ _ => entitled_of_mild (mild_of_records ho)) (fun _ _ _ _ _ => trivial)
    (fun _ _ _ _ _ => trivial) (.refl l) (.refl l) hset hmark) fun _ _ _ => trivial) fun r l' => ?_
  exact fair_mild (issues_bind (issues_ofExcept r.1) fun _ => issues_ofExcept r.2)

/-- The active rows of a repository, which are known once they have been read. -/
theorem fair_repoActive {repo : RepoQid} :
    (repoActiveDeployments repo).obeys (Entitled c) (fun r l' =>
      ∀ rows, r = .ok rows → ∀ d ∈ rows.items, Known c d.qid (· = some d.state) l') l := by
  refine always_bind.2 ⟨trivial, fun r _ => always_ofExcept.2 ?_⟩
  cases r with
  | error e => exact nofun
  | ok qids =>
  refine always_bind.2 (always_ofRows (fun _ => ?_) fun _ => nofun)
  change Prog.always _ _ _ (if _ then _ else _) _ _
  split
  · rintro rows ⟨⟩ d hd
    exact absurd hd not_mem_nil
  refine ⟨trivial, fun r _ => always_ofExcept.2 ?_⟩
  rintro rows rfl d hd
  exact known_rows hd

/-- The jobs write the rows of predecessors only to let them linger. -/
def Lingers : Skyr.Op → Prop
  | .cdb (.setDeploymentById d) => d.state = lingering
  | _ => True

theorem Known.lingers {p : DeploymentQid}
    (h : Known c p (fun x => x = some desired ∨ x = some lingering) l)
    (ho : Lingers o) (r : Resp o) :
    Known c p (fun x => x = some desired ∨ x = some lingering) (⟨o, r⟩ :: l) := by
  refine h.cons fun d hd _ => ?_
  cases hd
  exact .inr (congrArg some ho)

theorem issues_supersede (p : DeploymentQid) : (DeploymentClient.supersede q p).issues Lingers := by
  refine issues_bind (issues_join ?_ ?_) fun r =>
    issues_bind (issues_ofExcept r.1) fun _ => issues_ofExcept r.2
  · exact issues_set trivial (fun _ => rfl) trivial trivial
  · exact issues_bind (issues_cdb trivial) fun _ => trivial

theorem fair_makeDesired : Fair (.makeDesired q) (DeploymentClient.makeDesired q) l := by
  refine always_bind.2 (always_mono fair_repoActive fun r l' hrows => ?_)
  cases r with
  | error e => trivial
  | ok rows =>
  refine always_bind.2 (always_ofRows (fun _ => ?_) fun _ => trivial)
  -- Every predecessor is known to be desired, or lingering once its turn has come.
  have hpreds : ∀ p ∈ DeploymentClient.predecessors q rows.items,
      Known (.makeDesired q) p (fun x => x = some desired ∨ x = some lingering) l' := by
    intro p hp
    obtain ⟨d, hd, rfl⟩ := mem_map.1 hp
    obtain ⟨hmem, hfilter⟩ := mem_filter.1 hd
    have hactive : d.state = desired := by
      cases hst : d.state <;> simp [hst, isActive] at hfilter
      rfl
    exact (hrows rows rfl d hmem).imp fun x hx => .inl (hx.trans (congrArg some hactive))
  refine always_then (I := fun l' => ∀ p ∈ DeploymentClient.predecessors q rows.items,
      Known (.makeDesired q) p (fun x => x = some desired ∨ x = some lingering) l')
    (always_forM (fun p hp l₁ hl₁ => ?_) hpreds) (fun _ _ _ => fair_set_own)
    fun _ _ _ => trivial
  refine always_mono (always_keep (fair_supersede (hl₁ p hp)) (issues_supersede p)
    (fun o ho l₂ hl₂ r _ p' hp' => (hl₂ p' hp').lingers ho r) hl₁) fun _ _ h => h.2

theorem fair_tearDown (env : EnvironmentQid) : Fair c (tearDownEnvironment env) l := by
  refine always_bind.2 (always_mono fair_repoActive fun r l' hrows => ?_)
  cases r with
  | error e => trivial
  | ok rows =>
  have hknown : ∀ d ∈ rows.items, Known c d.qid (· ≠ none) l' := fun d hd =>
    (hrows rows rfl d hd).imp fun x hx => by rw [hx]; exact Option.some_ne_none _
  refine always_then (I := fun _ => True) (always_mono (always_forM
    (T := fun l' => ∀ d ∈ rows.items, Known c d.qid (· ≠ none) l') (fun d hd l₁ hl₁ => ?_) hknown)
    fun _ _ _ => trivial) (fun _ l₁ _ => ?_) fun _ _ _ => trivial
  · split
    · refine always_mono (always_keep (A := fun _ => True)
        (fair_set ((hl₁ d hd).imp fun x => movable_undesired))
        (issues_set trivial (fun _ => trivial) trivial trivial)
        (fun o _ l₂ hl₂ r _ d' hd' => ?_) hl₁) fun _ _ h => h.2
      exact (hl₂ d' hd').cons fun _ _ _ => Option.some_ne_none _
    · exact hl₁
  · rcases rows with ⟨items, _ | e⟩ <;> trivial

theorem fair_deleteRef (env : EnvironmentQid) (oldCommit : ObjId) :
    Fair c (deleteRef env oldCommit) l := by
  refine always_bind.2 (always_mono fair_repoActive fun r l' hrows => ?_)
  cases r with
  | error e => trivial
  | ok rows =>
  dsimp only
  split
  · next d hd =>
    refine fair_set ((hrows rows rfl d (mem_of_find?_eq_some hd)).imp fun x hx => ?_)
    exact movable_undesired (by rw [hx]; exact Option.some_ne_none _)
  · rcases rows with ⟨items, _ | e⟩ <;> trivial

end Outside

/-! ## Iterations -/

section Iteration

open De

variable {c : Job} {wk : Worker} {q : DeploymentQid} {l : Prog.Log Resp}

theorem mild_of_not_cdb {o : Skyr.Op} (h : ∀ o', o ≠ .cdb o') : Mild o := by
  unfold Mild
  split
  · exact absurd rfl (h _)
  · exact absurd rfl (h _)
  · trivial

variable {α : Type}

theorem issues_mild {p : M α} (h : p.issues (Evaluates q)) : p.issues Mild := by
  refine issues_mono (fun o ho => mild_of_not_cdb ?_) h
  rintro o' rfl
  exact ho

theorem asks_mild {p : M α} (h : p.issues (Asks q)) : p.issues Mild :=
  issues_mild (issues_mono (fun _ => evaluates_of_asks) h)

theorem reads_mild {p : M α} (h : p.issues Reads) : p.issues Mild := by
  refine issues_mono (fun o ho => mild_of_not_cdb ?_) h
  rintro o' rfl
  exact ho

theorem fair_transitionToUndesired : Fair c (transitionToUndesired q) l := by
  refine always_bind.2 (fair_get (fun d l' _ hd => ?_) fun _ _ _ => trivial)
  change Fair c (if _ then _ else _) l'
  split
  · exact fair_set (hd.imp fun x hx => movable_undesired (by rw [hx]; exact Option.some_ne_none _))
  · trivial

theorem fair_transitions : Fair c (transitionSupersededToUndesired wk) l := by
  have hread : (DeploymentClient.superseded wk.client).issues Mild :=
    issues_bind (issues_cdb trivial) fun rows =>
      issues_bind (issues_ofRows rows) fun _ => trivial
  exact fair_then (fair_mild hread) fun qs l' =>
    always_forM (T := fun _ => True) (fun _ _ _ _ => fair_transitionToUndesired) trivial

variable (d : Deployment)

theorem fair_runWithoutMain : Fair c (runWithoutMain wk d) l := by
  rw [runWithoutMain]
  cases d.bootstrapped with
  | true => trivial
  | false =>
    exact fair_then (fair_setProgress true) fun _ _ => fair_then fair_transitions fun _ _ => trivial

theorem fair_conclude (outcome : EvalOutcome) : Fair c (conclude wk d outcome) l := by
  rw [conclude]
  split
  · trivial
  have hrest : ∀ l', Fair c (do
      transitionSupersededToUndesired wk
      (if !outcome.hasVolatileOwnedResource && !outcome.hasVolatileCrossRepoPins then
        return ⟨false, desired, .success, false⟩
      else return .success desired : M WorkResult)) l' := by
    refine fun l' => fair_then fair_transitions fun _ _ => ?_
    split <;> trivial
  cases d.bootstrapped with
  | true => exact hrest l
  | false => exact fair_then (fair_setProgress true) fun _ l' => hrest l'

theorem fair_settleOutcome (outcome : EvalOutcome) : Fair c (settleOutcome wk d outcome) l := by
  rw [settleOutcome]
  split
  · trivial
  cases outcome.fullyExplored with
  | true =>
    exact fair_then (fair_mild (asks_mild (destroyUntouched_issues _))) fun _ _ =>
      fair_conclude d outcome
  | false => exact fair_conclude d outcome

variable {d : Deployment}

theorem fair_reconcile (h : Known c wk.client (· = some desired) l) :
    Fair c (reconcile wk d) l := by
  refine fair_mild_then (issues_attempt (issues_bind (issues_cdb trivial)
    fun _ => trivial)) h fun r l₁ hl₁ => ?_
  cases r with
  | error e => trivial
  | ok superseding =>
  cases superseding with
  | some q =>
    refine fair_attempt_then (fair_set (hl₁.imp fun x hx => ?_)) fun _ _ => trivial
    exact .inl (.inl ⟨desired, hx, by decide⟩)
  | none =>
  refine fair_attempt_then (fair_mild (issues_cdb trivial)) fun r l₂ => ?_
  cases r with
  | error e => trivial
  | ok hash =>
  cases hash with
  | none => exact fair_attempt_then (fair_runWithoutMain d) fun _ _ => trivial
  | some _ =>
  refine fair_then (fair_mild (issues_mild compileAndEvaluate_issues)) fun r l₃ => ?_
  obtain ⟨outcome, wk'⟩ := r
  cases outcome with
  | ok outcome => exact fair_attempt_then (fair_settleOutcome d outcome) fun _ _ => trivial
  | error e => trivial

theorem fair_runDesired (preview : SdbPreview)
    (h : Known c wk.client (· = some desired) l) : Fair c (runDesired wk d preview) l := by
  rw [runDesired]
  split
  · trivial
  refine fair_mild_then (reads_mild (backingOff_issues _)) h fun r l' hl' => ?_
  cases r with
  | some failure => trivial
  | none => exact fair_reconcile hl'

variable (fuel : ℕ)

theorem fair_followChain (cursor : DeploymentQid) (seen : List DeploymentId)
    (h : Known c wk.client (· = some lingering) l) : Fair c (followChain wk fuel cursor seen) l := by
  have hsuperseding : ∀ q, (DeploymentClient.getSuperseding q).issues Mild := fun q =>
    issues_bind (issues_cdb trivial) fun _ => trivial
  induction fuel generalizing cursor seen l with
  | zero => trivial
  | succ fuel ih =>
  refine fair_mild_then (hsuperseding cursor) h fun r l₁ hl₁ => ?_
  cases r with
  | none => trivial
  | some superseding =>
  refine fair_mild_then (issues_get trivial) hl₁ fun d l₂ hl₂ => ?_
  change Fair c (if _ then _ else _) l₂
  split
  · trivial
  refine fair_mild_then (hsuperseding superseding) hl₂ fun r l₃ hl₃ => ?_
  cases r with
  | some _ => exact ih _ _ hl₃
  | none =>
  change Fair c (if _ then _ else _) l₃
  split
  · exact fair_set (hl₃.imp fun x hx => .inl (.inl ⟨lingering, hx, by decide⟩))
  · trivial

theorem fair_runUndesired (h : Known c wk.client (· = some undesired) l) :
    Fair c (runUndesired wk) l := by
  refine fair_mild_then (reads_mild (collectResources_issues _)) h fun all l₁ hl₁ => ?_
  refine fair_mild_then (asks_mild (destroyResources_issues _)) hl₁ fun _ l₂ hl₂ => ?_
  split
  · trivial
  split
  · exact fair_set (hl₂.imp fun x hx => .inl (.inl ⟨undesired, hx, by decide⟩))
  · trivial

theorem fair_dispatch (preview : SdbPreview)
    (h : Known c wk.client (· = some d.state) l) : Fair c (dispatch fuel wk d preview) l := by
  rw [dispatch]
  cases hst : d.state with
  | down => trivial
  | desired => exact fair_runDesired preview (hst ▸ h)
  | lingering =>
    exact fair_attempt_then (fair_followChain fuel wk.client [] (hst ▸ h)) fun _ _ => trivial
  | undesired => exact fair_attempt_then (fair_runUndesired (hst ▸ h)) fun _ _ => trivial

theorem fair_work (preview : SdbPreview) : Fair c (work fuel wk preview) l := by
  refine always_bind.2 (always_attempt.2 (fair_get (fun d l₁ _ hd => ?_) fun _ _ _ => trivial))
  refine fair_then (fair_dispatch fuel preview hd) fun r l₂ => ?_
  obtain ⟨result, wk'⟩ := r
  cases result with
  | error e => trivial
  | ok result =>
  refine fair_attempt_then (fair_mild (issues_get trivial)) fun r l₃ => ?_
  cases r <;> trivial

/-- The end of an iteration. -/
theorem fair_publish (terminal : Bool) (report : Report) (attempts : ℕ) (x y : Bool × Worker) :
    Fair c (if terminal then publishTerminalReport wk report attempts >>= fun _ => pure x
      else publishReport wk report >>= fun _ => pure y) l := by
  cases terminal with
  | true =>
    exact fair_then (fair_mild (reads_mild (publishTerminalReport_issues ..))) fun _ _ => trivial
  | false =>
  refine fair_then (fair_mild (reads_mild ?_)) fun _ _ => trivial
  exact issues_bind (issues_attempt (report_issues ..)) fun _ => trivial

theorem fair_workAndReport : Fair c (workAndReport fuel wk) l := by
  rw [workAndReport]
  split
  · trivial
  refine fair_then (fair_mild (reads_mild readSdbPreview_issues)) fun preview l₁ => ?_
  refine fair_then (fair_work fuel preview) fun r l₂ => ?_
  refine fair_then (fair_mild (reads_mild (noteFailure_issues _))) fun wk' l₃ => ?_
  exact fair_publish ..

end Iteration

/-- **Every job only asks what it is entitled to**, whatever is replied to it. -/
theorem body_entitled (c : Job) : c.body.obeys (Entitled c) (fun _ _ => True) [] := by
  cases c with
  | iterate fuel wk => exact fair_then (fair_workAndReport fuel) fun _ _ => trivial
  | makeDesired q => exact fair_makeDesired
  | tearDown env => exact fair_tearDown env
  | deleteRef env oldCommit => exact fair_deleteRef env oldCommit

end Skyr.Cdb
