import Skyr.Cdb.Lifecycle

/-!
# One current deployment per environment

The deployment of an environment that counts is the one that is not down and that nothing
supersedes.  `make_desired` sees to it that there is only one: it reads the deployments that are
desired, supersedes them, and then makes its own deployment desired.  Nothing holds the environment
still meanwhile, so two of them can pass each other (`two_pushes_both_current`); and what is not
desired when it looks, such as a deployment that is being torn down, it does not supersede at all.

The environment does keep a single current deployment when the following is the case besides the
jobs not disturbing each other (`oneAtATime`): no two `make_desired` are under way in it at once, and
when one of them looks, the current deployment is desired and in the active index.  Then there is a
single current one at *every* moment (`one_current`), not just when everything is quiet.
-/

namespace Skyr.Cdb

open Prog List

variable [SclData]

open DeploymentState

/-- Neither down nor superseded. -/
structure Current (s : Store) (q : DeploymentQid) : Prop where
  stored : s.state q ≠ none
  notDown : s.state q ≠ some down
  unsuperseded : s.superseding q = none

instance (s : Store) (q : DeploymentQid) : Decidable (Current s q) :=
  decidable_of_iff (s.state q ≠ none ∧ s.state q ≠ some down ∧ s.superseding q = none)
    ⟨fun h => ⟨h.1, h.2.1, h.2.2⟩, fun h => ⟨h.1, h.2, h.3⟩⟩

/-- No environment has two current deployments. -/
def OneCurrent (s : Store) : Prop :=
  ∀ q q', Current s q → Current s q' → q.environment = q'.environment → q = q'

/-! ## What `make_desired` has done by the time it writes its row -/

/-- The statement that records that `q` supersedes `p`, and that it was carried out. -/
def marked (q p : DeploymentQid) : Σ o, Resp o :=
  ⟨.cdb (.createSupersession p q.deployment), .ok ()⟩

/-- There was nothing to take over from, or it has been taken over. -/
def Took (q : DeploymentQid) (l : Prog.Log Resp) : Prop :=
  (∃ repo, (⟨.cdb (.listActiveDeploymentsByRepo repo), .ok ⟨[], none⟩⟩ : Σ o, Resp o) ∈ l) ∨
  ∃ (qids : List DeploymentQid) (rows : Rows Deployment),
    (⟨.cdb (.findDeploymentsByQids qids), .ok rows⟩ : Σ o, Resp o) ∈ l ∧ rows.error = none ∧
    ∀ p ∈ DeploymentClient.predecessors q rows.items, marked q p ∈ l

/-- The order in which `make_desired` goes about it: it lists the index of its repository, reads the
rows of all that is listed, and writes its own row when it has taken over. -/
def Ordered (c : Job) (l : Prog.Log Resp) : Skyr.Op → Prop
  | .cdb (.listActiveDeploymentsByRepo repo) =>
    ∀ q, c = .makeDesired q → repo = q.environment.repo
  | .cdb (.findDeploymentsByQids qids) => ∀ q, c = .makeDesired q → ∃ repo,
    (⟨.cdb (.listActiveDeploymentsByRepo repo), .ok ⟨qids, none⟩⟩ : Σ o, Resp o) ∈ l
  | .cdb (.setDeploymentById d) => c = .makeDesired d.qid → Took d.qid l
  | _ => True

section Walk

variable {c : Job} {q : DeploymentQid} {l l' : Prog.Log Resp}

theorem Took.mono (h : Took q l) (hl : l ⊆ l') : Took q l' := by
  rcases h with ⟨repo, hmem⟩ | ⟨qids, rows, hmem, herr, hmarked⟩
  · exact .inl ⟨repo, hl hmem⟩
  · exact .inr ⟨qids, rows, hl hmem, herr, fun p hp => hl (hmarked p hp)⟩

theorem ordered_mono {o : Skyr.Op} (hl : l ⊆ l') (h : Ordered c l o) : Ordered c l' o := by
  unfold Ordered at h ⊢
  split
  · exact h
  · exact fun q hq => (h q hq).imp fun _ hmem => hl hmem
  · exact fun hc => (h hc).mono hl
  · trivial

/-- Requests that `Ordered` has nothing to say about, for the deployment `q`. -/
def Aside (q : DeploymentQid) : Skyr.Op → Prop
  | .cdb (.listActiveDeploymentsByRepo _) => False
  | .cdb (.findDeploymentsByQids _) => False
  | .cdb (.setDeploymentById d) => d.qid ≠ q
  | _ => True

theorem ordered_of_aside {o : Skyr.Op} (h : Aside q o) : Ordered (.makeDesired q) l o := by
  unfold Aside at h
  unfold Ordered
  split
  · exact h.elim
  · exact h.elim
  · intro hc
    exact absurd (Job.makeDesired.inj hc).symm h
  · trivial

/-- Taking over from a deployment: when that went well, the supersession has been recorded. -/
theorem ordered_supersede {p : DeploymentQid} (hp : p ≠ q) :
    (DeploymentClient.supersede q p).obeys (Ordered (.makeDesired q))
      (fun r l' => r = .ok () → marked q p ∈ l') l := by
  have hset : (DeploymentClient.set p lingering).obeys (Ordered (.makeDesired q))
      (fun _ _ => True) l :=
    always_of_issues (T := fun _ => True) (A := Aside q)
      (DeploymentClient.issues_set trivial (fun _ => hp) trivial trivial)
      (fun _ ho _ _ => ⟨ordered_of_aside ho, fun _ _ => trivial⟩) trivial
  have hmark : (DeploymentClient.markSupersededBy p q.deployment).obeys (Ordered (.makeDesired q))
      (fun r l' => r = .ok () → marked q p ∈ l') l := by
    refine ⟨trivial, fun r _ => ?_⟩
    cases r with
    | ok _ => exact fun _ => mem_cons_self
    | error e => exact nofun
  have hstable : ∀ {A : Skyr.Op → Prop} (o : Skyr.Op),
      Prog.Log.Stable A fun l => Ordered (.makeDesired q) l o :=
    fun o _ _ hadds => ordered_mono hadds.subset
  have hmarked : ∀ r : Except String Unit,
      Prog.Log.Stable (fun o => ¬Records o) fun l' => r = .ok () → marked q p ∈ l' :=
    fun _ _ _ hadds h hr => hadds.subset (h hr)
  refine always_bind.2 (always_mono (obeys_join (issues_set_not_records lingering)
    (issues_markSupersededBy ..) (fun o _ => hstable o) (fun o _ => hstable o)
    (fun _ _ _ _ _ => trivial) hmarked (.refl l) (.refl l) hset hmark) ?_)
  rintro r l' ⟨r₁, r₂, rfl, -, hmarked⟩
  refine always_bind.2 (always_ofExcept.2 ?_)
  cases r₁ with
  | error e => exact nofun
  | ok _ => exact always_ofExcept.2 hmarked

/-- Taking over from all of them. -/
theorem ordered_supersedes {ps : List DeploymentQid} (hps : ∀ p ∈ ps, p ≠ q) :
    (ps.forM (DeploymentClient.supersede q)).obeys (Ordered (.makeDesired q))
      (fun r l' => r = .ok () → ∀ p ∈ ps, marked q p ∈ l') l := by
  induction ps generalizing l with
  | nil => exact fun _ p hp => absurd hp not_mem_nil
  | cons p ps ih =>
  have hp := hps p mem_cons_self
  refine always_bind.2 (always_mono (ordered_supersede hp) fun r l₁ hr => ?_)
  cases r with
  | error e => exact nofun
  | ok _ =>
  have hrest := obeys_grow (ih (l := l₁) fun p' hp' => hps p' (mem_cons_of_mem _ hp'))
  refine always_mono hrest fun r l₂ ⟨hps, hgrow⟩ hok p' hp' => ?_
  rcases mem_cons.1 hp' with rfl | hp'
  · exact hgrow (hr rfl)
  · exact hps hok p' hp'

/-- The active rows, as `make_desired` reads them. -/
theorem ordered_repoActive :
    (repoActiveDeployments q.environment.repo).obeys (Ordered (.makeDesired q)) (fun r l' =>
      ∀ rows, r = .ok rows →
        (rows = ⟨[], none⟩ ∧ ∃ repo,
          (⟨.cdb (.listActiveDeploymentsByRepo repo), .ok ⟨[], none⟩⟩ : Σ o, Resp o) ∈ l') ∨
        ∃ qids, (⟨.cdb (.findDeploymentsByQids qids), .ok rows⟩ : Σ o, Resp o) ∈ l') l := by
  refine always_bind.2 ⟨?_, fun r _ => always_ofExcept.2 ?_⟩
  · rintro q' ⟨⟩
    rfl
  cases r with
  | error e => exact nofun
  | ok listed =>
  obtain ⟨qids, error⟩ := listed
  refine always_bind.2 (always_ofRows (fun hnone => ?_) fun _ => nofun)
  obtain rfl : error = none := hnone
  change Prog.always _ _ _ (if qids.isEmpty then _ else _) _ _
  split
  · next hempty =>
    obtain rfl := isEmpty_iff.1 hempty
    rintro rows ⟨⟩
    exact .inl ⟨rfl, _, mem_cons_self⟩
  refine ⟨fun q' _ => ⟨_, mem_cons_self⟩, fun r _ => always_ofExcept.2 ?_⟩
  rintro rows rfl
  exact .inr ⟨qids, mem_cons_self⟩

theorem ordered_makeDesired :
    (DeploymentClient.makeDesired q).obeys (Ordered (.makeDesired q)) (fun _ _ => True) l := by
  refine always_bind.2 (always_mono ordered_repoActive fun r l₁ hrows => ?_)
  cases r with
  | error e => trivial
  | ok rows =>
  refine always_bind.2 (always_ofRows (fun hnone => ?_) fun _ => trivial)
  have hne : ∀ p ∈ DeploymentClient.predecessors q rows.items, p ≠ q := by
    rintro p hp rfl
    obtain ⟨d, hd, rfl⟩ := mem_map.1 hp
    simp at hd
  refine always_bind.2 (always_mono (obeys_grow (ordered_supersedes hne))
    fun r l₂ ⟨hmarked, hgrow⟩ => ?_)
  cases r with
  | error e => trivial
  | ok _ =>
  have htook : Took q l₂ := by
    rcases hrows rows rfl with ⟨-, repo, hmem⟩ | ⟨qids, hmem⟩
    · exact .inl ⟨repo, hgrow hmem⟩
    · exact .inr ⟨qids, rows, hgrow hmem, hnone, hmarked rfl⟩
  -- The last part writes the deployment's own row, with everything taken over.
  refine always_mono (always_of_issues (T := Took q)
    (A := fun o => ∀ l, Took q l → Ordered (.makeDesired q) l o)
    (DeploymentClient.issues_set (fun _ _ => trivial) (fun _ l h _ => h) (fun _ _ => trivial)
      fun _ _ => trivial)
    (fun o ho l h => ⟨ho l h, fun r _ => h.mono (subset_cons_of_subset _ fun _ h => h)⟩)
    htook) fun _ _ _ => trivial

/-- **Every job keeps to the order of `make_desired`.** -/
theorem body_ordered (c : Job) : c.body.obeys (Ordered c) (fun _ _ => True) [] := by
  have hother : ∀ c : Job, (∀ q, c ≠ .makeDesired q) →
      c.body.obeys (Ordered c) (fun _ _ => True) [] := by
    intro c hc
    refine always_of_forall (fun l o => ?_) (fun _ _ => trivial) _ _
    unfold Ordered
    split
    · exact fun q hq => absurd hq (hc q)
    · exact fun q hq => absurd hq (hc q)
    · exact fun hq => absurd hq (hc _)
    · trivial
  cases c with
  | makeDesired q => exact ordered_makeDesired
  | _ => exact hother _ nofun

end Walk

/-! ## What one statement does to the current deployments -/

section Exec

variable {s : Store} {c : Job} {q : DeploymentQid}

omit [SclData] in
theorem superseding_exec {o : Op} (h : s.superseding q ≠ none) :
    (s.exec none o).2.superseding q ≠ none := by
  cases o with
  | createSupersession p d =>
    change (s.supersede p d).superseding q ≠ none
    by_cases hq : q = p
    · subst hq
      rw [Store.superseding_supersede_self]
      exact Option.some_ne_none _
    · rw [Store.superseding_supersede_ne s d hq]
      exact h
  | _ => exact h

/-- A deployment becomes current only when `make_desired` gives it a row. -/
theorem current_exec {o : Op} (h : InOrder s c o) (hq : Current (s.exec none o).2 q) :
    Current s q ∨
      (s.state q = none ∧ c = .makeDesired q ∧ ∃ d, o = .setDeploymentById d ∧ d.qid = q) := by
  cases o with
  | setDeploymentById d =>
    by_cases hd : q = d.qid
    · subst hd
      rcases h with ⟨st, hst, hrank⟩ | ⟨hnone, hc, -⟩
      · have hdown : d.state ≠ down := fun hdown =>
          hq.notDown ((s.state_setById_self d).trans (congrArg some hdown))
        refine .inl ⟨by rw [hst]; exact Option.some_ne_none _, ?_, hq.unsuperseded⟩
        rw [hst]
        exact fun heq => ne_down_of_rank hrank hdown (Option.some.inj heq)
      · exact .inr ⟨hnone, hc, d, rfl, rfl⟩
    · have hst : (s.setById d).state q = s.state q := s.state_setById_ne d hd
      exact .inl ⟨hst ▸ hq.stored, hst ▸ hq.notDown, hq.unsuperseded⟩
  | createSupersession p d =>
    by_cases hp : q = p
    · subst hp
      exact absurd ((s.superseding_supersede_self q d).symm.trans hq.unsuperseded)
        (Option.some_ne_none d)
    · exact .inl ⟨hq.stored, hq.notDown,
        (s.superseding_supersede_ne d hp).symm.trans hq.unsuperseded⟩
  | setActiveDeployment | unsetActiveDeployment =>
    exact .inl ⟨hq.stored, hq.notDown, hq.unsuperseded⟩
  | _ => exact .inl hq

end Exec

section Act

variable {w : World} {c : Job} {l : Prog.Log Resp} {q : DeploymentQid} {o : Skyr.Op} {a : Ans o}

theorem superseding_act (h : w.cdb.superseding q ≠ none) :
    (World.act o a w).2.cdb.superseding q ≠ none := by
  cases o with
  | cdb o =>
    exact World.act_cdb_keeps (T := fun w' => w'.cdb.superseding q ≠ none) h (superseding_exec h) a
  | _ => exact h

theorem current_act (hE : Entitled c l o) (hco : Coherent c l) (h : Undisturbed w.cdb c l o a)
    (hq : Current (World.act o a w).2.cdb q) :
    Current w.cdb q ∨ (w.cdb.state q = none ∧ c = .makeDesired q ∧
      ∃ d, o = .cdb (.setDeploymentById d) ∧ d.qid = q) := by
  cases o with
  | cdb o =>
    rw [World.act_cdb_snd] at hq
    split at hq
    · rcases current_exec (inOrder_of_entitled hE hco h) hq with hq | ⟨hnone, hc, d, rfl, hd⟩
      · exact .inl hq
      · exact .inr ⟨hnone, hc, d, rfl, hd⟩
    · exact .inl hq
  | _ => exact .inl hq

/-- A supersession that was recorded is there. -/
theorem superseding_of_marked {p : DeploymentQid}
    (h : marked q p = ⟨o, (World.act o a w).1⟩) :
    (World.act o a w).2.cdb.superseding p ≠ none := by
  cases o with
  | cdb o =>
    obtain ⟨ho, hr⟩ := Sigma.mk.inj h
    cases ho
    cases a with
    | error applied msg => cases hr
    | done cut =>
    change (w.cdb.supersede p q.deployment).superseding p ≠ none
    rw [Store.superseding_supersede_self]
    exact Option.some_ne_none _
  | _ => exact nomatch (Sigma.mk.inj h).1

end Act

/-! ## When pushes do not pass each other -/

/-- When `make_desired` looks, it gets to see the current deployment of its environment: it is in
the active index, and it is desired. -/
def Surveyed (s : Store) (c : Job) : Skyr.Op → Prop
  | .cdb (.listActiveDeploymentsByRepo _) => ∀ q, c = .makeDesired q →
    ∀ p, Current s p → p.environment = q.environment → p ∈ s.active
  | .cdb (.findDeploymentsByQids _) => ∀ q, c = .makeDesired q →
    ∀ p, Current s p → p.environment = q.environment → s.state p = some desired
  | _ => True

/-- What `make_desired` has read is still all there is to take over. -/
structure Watches (s : Store) (q : DeploymentQid) (l : Prog.Log Resp) : Prop where
  listed : ∀ repo qids,
    (⟨.cdb (.listActiveDeploymentsByRepo repo), .ok ⟨qids, none⟩⟩ : Σ o, Resp o) ∈ l →
      ∀ p, Current s p → p.environment = q.environment → p ≠ q → p ∈ qids
  seen : ∀ qids (rows : Rows Deployment),
    (⟨.cdb (.findDeploymentsByQids qids), .ok rows⟩ : Σ o, Resp o) ∈ l → rows.error = none →
      ∀ p, Current s p → p.environment = q.environment → p ≠ q →
        p ∈ DeploymentClient.predecessors q rows.items

section Watches

variable {s : Store} {q : DeploymentQid} {l : Prog.Log Resp}

theorem Watches.of_current {s' : Store} (h : Watches s q l)
    (hcur : ∀ p, p.environment = q.environment → p ≠ q → Current s' p → Current s p) :
    Watches s' q l :=
  ⟨fun repo qids hmem p hp henv hne => h.listed repo qids hmem p (hcur p henv hne hp) henv hne,
    fun qids rows hmem herr p hp henv hne =>
      h.seen qids rows hmem herr p (hcur p henv hne hp) henv hne⟩

/-- Everything that is current has been taken over by the time the own row is written. -/
theorem Watches.not_current (h : Watches s q l) (htook : Took q l)
    (hrec : ∀ p, marked q p ∈ l → s.superseding p ≠ none) {p : DeploymentQid}
    (henv : p.environment = q.environment) (hne : p ≠ q) : ¬Current s p := by
  intro hp
  rcases htook with ⟨repo, hmem⟩ | ⟨qids, rows, hmem, herr, hmarked⟩
  · exact not_mem_nil (h.listed repo [] hmem p hp henv hne)
  · exact hrec p (hmarked p (h.seen qids rows hmem herr p hp henv hne)) hp.unsuperseded

omit [SclData] in
theorem error_upTo {α : Type} {cut : Option (ℕ × String)} {items : List α}
    (h : (Rows.upTo cut items).error = none) : (Rows.upTo cut items).items = items := by
  cases cut with
  | none => rfl
  | some cut => cases h

omit [SclData] in
theorem mem_predecessors {p : DeploymentQid} {items : List Deployment} {d : Deployment}
    (hd : d ∈ items) (hqid : d.qid = p) (hst : d.state = desired)
    (henv : p.environment = q.environment) (hne : p ≠ q) :
    p ∈ DeploymentClient.predecessors q items := by
  have hdep : p.deployment ≠ q.deployment := by
    intro heq
    obtain ⟨penv, pdep⟩ := p
    obtain ⟨qenv, qdep⟩ := q
    exact hne (by rw [show penv = qenv from henv, show pdep = qdep from heq])
  refine mem_map.2 ⟨d, mem_filter.2 ⟨hd, ?_⟩, hqid⟩
  subst hqid
  simp [henv, hdep, hst, isActive]

/-- A further request of `make_desired` itself. -/
theorem Watches.ask {w : World} {o : Skyr.Op} {a : Ans o} (h : Watches w.cdb q l)
    (hO : Ordered (.makeDesired q) l o) (hsur : Surveyed w.cdb (.makeDesired q) o) :
    Watches w.cdb q (⟨o, (World.act o a w).1⟩ :: l) := by
  refine ⟨fun repo qids hmem p hp henv hne => ?_, fun qids rows hmem herr p hp henv hne => ?_⟩
  · rcases mem_cons.1 hmem with heq | hmem
    · obtain ⟨ho, hr⟩ := Sigma.mk.inj heq
      subst ho
      cases a with
      | error applied msg => cases hr
      | done cut =>
      have hrows : Rows.upTo cut (w.cdb.active.filter fun q => q.environment.repo == repo) =
          ⟨qids, none⟩ := (Except.ok.inj (eq_of_heq hr)).symm
      have hitems := error_upTo (congrArg Rows.error hrows)
      rw [hrows] at hitems
      change p ∈ (⟨qids, none⟩ : Rows DeploymentQid).items
      rw [hitems]
      refine mem_filter.2 ⟨hsur q rfl p hp henv, ?_⟩
      rw [hO q rfl, henv]
      exact beq_self_eq_true _
    · exact h.listed repo qids hmem p hp henv hne
  rcases mem_cons.1 hmem with heq | hmem
  · obtain ⟨ho, hr⟩ := Sigma.mk.inj heq
    subst ho
    cases a with
    | error applied msg => cases hr
    | done cut =>
    obtain rfl : rows = Rows.upTo cut (qids.filterMap w.cdb.find) :=
      Except.ok.inj (eq_of_heq hr)
    obtain ⟨repo, hlisted⟩ := hO q rfl
    have hin := h.listed repo qids hlisted p hp henv hne
    have hst := hsur q rfl p hp henv
    rw [error_upTo herr]
    obtain ⟨d, hd⟩ : ∃ d, w.cdb.find p = some d := by
      rw [← Store.state_eq_map_find, Option.map_eq_some_iff] at hst
      exact hst.imp fun _ h => h.1
    obtain ⟨hqid, hst'⟩ := Store.find_eq_some hd
    rw [hst] at hst'
    exact mem_predecessors (mem_filterMap.2 ⟨p, hin, hd⟩) hqid
      (Option.some.inj hst').symm henv hne
  · exact h.seen qids rows hmem herr p hp henv hne

end Watches

/-! ## Whole runs

The jobs are put together: at each turn one of them makes a request, and the others have been shown
not to mind. -/

section Runs

variable (plugins : RegionId → List ModuleId)

/-- Nobody disturbs anybody; a `make_desired` is begun only when no other one is under way in its
environment; and when it looks, it gets to see the current deployment. -/
def oneAtATime : (cluster plugins).Conditions where
  start v c := ∀ q, c = .makeDesired q → ∀ tr ∈ v.traces, tr.running → ∀ q',
    tr.call = .makeDesired q' → q'.environment ≠ q.environment
  ask v c l o a := Undisturbed v.state.cdb c l o a ∧ Surveyed v.state.cdb c o
  outside _ _ := True

/-- What is true all the time in such a run. -/
structure Orderly (v : PoolView Resp Site Job) : Prop where
  coherent : ∀ tr ∈ v.traces, Coherent tr.call tr.log
  one : OneCurrent v.state.cdb
  recorded : ∀ tr ∈ v.traces, ∀ q p, marked q p ∈ tr.log → v.state.cdb.superseding p ≠ none
  /-- No two `make_desired` are under way in an environment. -/
  alone : ∀ (i j : ℕ) (tr tr' : Trace Resp Job) (q q' : DeploymentQid), v.traces[i]? = some tr →
    v.traces[j]? = some tr' → tr.running → tr'.running → tr.call = .makeDesired q →
      tr'.call = .makeDesired q' → q.environment = q'.environment → i = j
  watches : ∀ (i : ℕ) (tr : Trace Resp Job) (q : DeploymentQid), v.traces[i]? = some tr →
    tr.running → tr.call = .makeDesired q → Watches v.state.cdb q tr.log

/-- What the jobs have been shown to keep to. -/
def Follows (c : Job) (l : Prog.Log Resp) (o : Skyr.Op) : Prop := Entitled c l o ∧ Ordered c l o

theorem body_follows (c : Job) : c.body.obeys (Follows c) (fun _ _ => True) [] :=
  always_mono (always_and (body_entitled c) (body_ordered c)) fun _ _ _ => trivial

variable {plugins}

variable {v : PoolView Resp Site Job}

theorem orderly_start (hv : Orderly v) {c : Job} (running : Bool)
    (h : (oneAtATime plugins).start v c) :
    Orderly { v with traces := v.traces ++ [⟨c, [], running⟩] } where
  coherent tr htr := by
    rcases mem_append.1 htr with htr | htr
    · exact hv.coherent tr htr
    · rw [mem_singleton.1 htr]
      trivial
  one := hv.one
  recorded tr htr q p hmem := by
    rcases mem_append.1 htr with htr | htr
    · exact hv.recorded tr htr q p hmem
    · rw [mem_singleton.1 htr] at hmem
      exact absurd hmem not_mem_nil
  alone i j tr tr' q q' hi hj hr hr' hc hc' henv := by
    rcases getElem?_concat_cases hi with hi₁ | ⟨hi₁, rfl⟩
    · rcases getElem?_concat_cases hj with hj₁ | ⟨-, rfl⟩
      · exact hv.alone i j tr tr' q q' hi₁ hj₁ hr hr' hc hc' henv
      · exact absurd henv (h q' hc' tr (mem_of_getElem? hi₁) hr q hc)
    rcases getElem?_concat_cases hj with hj₁ | ⟨hj₁, -⟩
    · exact absurd henv.symm (h q hc tr' (mem_of_getElem? hj₁) hr' q' hc')
    · exact hi₁.trans hj₁.symm
  watches i tr q hi hr hc := by
    rcases getElem?_concat_cases hi with hi | ⟨-, rfl⟩
    · exact hv.watches i tr q hi hr hc
    · exact ⟨fun _ _ hmem => absurd hmem not_mem_nil, fun _ _ hmem => absurd hmem not_mem_nil⟩

theorem orderly_idle (hv : Orderly v) {i : ℕ} {c : Job}
    {l : Prog.Log Resp} {b running : Bool} (hi : v.traces[i]? = some ⟨c, l, b⟩)
    (hb : running → b) : Orderly { v with traces := v.traces.set i ⟨c, l, running⟩ } where
  coherent tr htr := by
    have hl := hv.coherent _ (mem_of_getElem? hi)
    rcases mem_or_eq_of_mem_set htr with htr | rfl
    · exact hv.coherent tr htr
    · exact hl
  one := hv.one
  recorded tr htr q p hmem := by
    have hl := hv.recorded _ (mem_of_getElem? hi) q p
    rcases mem_or_eq_of_mem_set htr with htr | rfl
    · exact hv.recorded tr htr q p hmem
    · exact hl hmem
  alone j k tr tr' q q' hj hk hr hr' hc hc' henv := by
    rcases getElem?_set_cases hj with ⟨rfl, rfl⟩ | ⟨-, hj₁⟩
    · rcases getElem?_set_cases hk with ⟨rfl, -⟩ | ⟨-, hk₁⟩
      · rfl
      · exact hv.alone j k _ tr' q q' hi hk₁ (hb hr) hr' hc hc' henv
    rcases getElem?_set_cases hk with ⟨rfl, rfl⟩ | ⟨-, hk₁⟩
    · exact hv.alone j k tr _ q q' hj₁ hi hr (hb hr') hc hc' henv
    · exact hv.alone j k tr tr' q q' hj₁ hk₁ hr hr' hc hc' henv
  watches j tr q hj hr hc := by
    have hwatches := fun hr => hv.watches i ⟨c, l, b⟩ q hi hr
    rcases getElem?_set_cases hj with ⟨rfl, rfl⟩ | ⟨-, hj₁⟩
    · exact hwatches (hb hr) hc
    · exact hv.watches j tr q hj₁ hr hc

variable {i : ℕ} {c : Job} {l : Prog.Log Resp} {o : Skyr.Op} {a : Ans o}

/-- The heart of the matter: `make_desired` gives its deployment a row when nothing else is current
any more. -/
theorem one_ask (hv : Orderly v) (hi : v.traces[i]? = some ⟨c, l, true⟩)
    (hO : Ordered c l o) (hcur : ∀ q, Current (World.act o a v.state.toWorld).2.cdb q →
      Current v.state.cdb q ∨ (v.state.cdb.state q = none ∧ c = .makeDesired q ∧
        ∃ d, o = .cdb (.setDeploymentById d) ∧ d.qid = q)) :
    OneCurrent (World.act o a v.state.toWorld).2.cdb := by
  have hnew : ∀ q p, c = .makeDesired q → (∃ d, o = .cdb (.setDeploymentById d) ∧ d.qid = q) →
      Current v.state.cdb p → p.environment = q.environment → p = q := by
    rintro q p rfl ⟨d, rfl, rfl⟩ hp henv
    by_contra hne
    exact (hv.watches i _ d.qid hi rfl rfl).not_current (hO rfl)
      (hv.recorded _ (mem_of_getElem? hi) d.qid) henv hne hp
  intro q q' hq hq' henv
  rcases hcur q hq with hq | ⟨-, hc, ho⟩
  · rcases hcur q' hq' with hq' | ⟨-, hc, ho⟩
    · exact hv.one q q' hq hq' henv
    · exact hnew q' q hc ho hq henv
  rcases hcur q' hq' with hq' | ⟨-, hc', -⟩
  · exact (hnew q q' hc ho hq' henv.symm).symm
  · exact Job.makeDesired.inj (hc.symm.trans hc')

theorem orderly_ask (hv : Orderly v) (running : Bool)
    (hi : v.traces[i]? = some ⟨c, l, true⟩) (hF : Follows c l o)
    (hund : Undisturbed v.state.cdb c l o a) (hsur : Surveyed v.state.cdb c o) :
    Orderly ⟨(Site.sem.act o a v.state).2,
      v.traces.set i ⟨c, ⟨o, (World.act o a v.state.toWorld).1⟩ :: l, running⟩⟩ := by
  have hl := hv.coherent _ (mem_of_getElem? hi)
  have hcur := fun q (hq : Current (World.act o a v.state.toWorld).2.cdb q) =>
    current_act hF.1 hl hund hq
  refine ⟨fun tr htr => ?_, one_ask hv hi hF.2 hcur, fun tr htr q p hmem => ?_,
    fun j k tr tr' q q' hj hk hr hr' hc hc' henv => ?_, fun j tr q hj hr hc => ?_⟩
  · rcases mem_or_eq_of_mem_set htr with htr | rfl
    · exact hv.coherent tr htr
    · exact ⟨plausible_act hund, hl⟩
  · rcases mem_or_eq_of_mem_set htr with htr | rfl
    · exact superseding_act (hv.recorded tr htr q p hmem)
    rcases mem_cons.1 hmem with heq | hmem
    · exact superseding_of_marked heq
    · exact superseding_act (hv.recorded _ (mem_of_getElem? hi) q p hmem)
  · rcases getElem?_set_cases hj with ⟨rfl, rfl⟩ | ⟨-, hj₁⟩
    · rcases getElem?_set_cases hk with ⟨rfl, -⟩ | ⟨-, hk₁⟩
      · rfl
      · exact hv.alone j k _ tr' q q' hi hk₁ rfl hr' hc hc' henv
    rcases getElem?_set_cases hk with ⟨rfl, rfl⟩ | ⟨-, hk₁⟩
    · exact hv.alone j k tr _ q q' hj₁ hi hr rfl hc hc' henv
    · exact hv.alone j k tr tr' q q' hj₁ hk₁ hr hr' hc hc' henv
  rcases getElem?_set_cases hj with ⟨rfl, rfl⟩ | ⟨hne, hj⟩
  · -- The job that asks: what it has just read it has seen, and nothing new is current but its
    -- own deployment.
    obtain rfl : c = .makeDesired q := hc
    refine ((hv.watches j _ q hi rfl rfl).ask hF.2 hsur).of_current fun p henv hpq hp => ?_
    rcases hcur p hp with hp | ⟨-, hc, -⟩
    · exact hp
    · exact absurd (Job.makeDesired.inj hc).symm hpq
  -- Another one: if the job that asks were a `make_desired` of the same environment, the two
  -- would be under way at once.
  refine (hv.watches j tr q hj hr hc).of_current fun p henv _ hp => ?_
  rcases hcur p hp with hp | ⟨-, hc', -⟩
  · exact hp
  · exact absurd (hv.alone j i tr _ q p hj hi hr rfl hc hc' henv.symm) hne

theorem orderly_step {v v' : PoolView Resp Site Job} (hv : Orderly v)
    (h : (cluster plugins).Step Follows (oneAtATime plugins) v v') : Orderly v' := by
  cases h with
  | start c running h => exact orderly_start hv running h
  | ask o a running hi hF h => exact orderly_ask hv running hi hF h.1 h.2
  | idle running hi hb => exact orderly_idle hv hi hb
  | outside e _ =>
  have hcdb : (Site.handle plugins e v.state).cdb = v.state.cdb := Site.handle_cdb v.state e
  refine ⟨hv.coherent, ?_, ?_, hv.alone, ?_⟩
  · change OneCurrent (Site.handle plugins e v.state).cdb
    rw [hcdb]
    exact hv.one
  · change ∀ tr ∈ v.traces, ∀ q p, marked q p ∈ tr.log →
      (Site.handle plugins e v.state).cdb.superseding p ≠ none
    rw [hcdb]
    exact hv.recorded
  intro i tr q hi hr hc
  change Watches (Site.handle plugins e v.state).cdb q tr.log
  rw [hcdb]
  exact hv.watches i tr q hi hr hc

theorem orderly_initial {s : Site} (h : OneCurrent s.cdb) : Orderly ⟨s, []⟩ where
  coherent _ htr := absurd htr not_mem_nil
  one := h
  recorded _ htr := absurd htr not_mem_nil
  alone _ _ _ _ _ _ hi := nomatch hi
  watches _ _ _ hi := nomatch hi

/-- **A single current deployment.**  In a run in which pushes do not pass each other and get to
see the current deployment, each environment has at every moment at most one deployment that is
neither down nor superseded, if that is so at the beginning. -/
theorem one_current (s₀ : Site) (h₀ : OneCurrent s₀.cdb) (es : List (cluster plugins).Event)
    (h : (cluster plugins).Meets (oneAtATime plugins) ⟨s₀, []⟩ es) :
    OneCurrent ((cluster plugins).run ⟨s₀, []⟩ es).state.cdb :=
  (Machine.invariant (P := Follows) (J := Orderly) body_follows (fun _ _ hv hs => orderly_step hv hs)
    (y := ⟨s₀, []⟩) (fun _ hth => absurd hth not_mem_nil) (orderly_initial h₀) h).1.one

end Runs

end Skyr.Cdb

/-! ## Two runs

Two commits of `shop` are pushed, in the first run at the same time, in the second one after the
other. -/

namespace Skyr.Cdb

open De DeploymentState

local instance : SclData := .nat

/-- Another deployment of the environment of `shop`. -/
def shopNext : DeploymentQid := ⟨shopWorker.environmentQid, ⟨⟨2⟩, ⟨2⟩⟩⟩

/-- Both pushes list the active deployments before either writes its row. -/
def pushedTogether : List shop.Event :=
  [.start (.makeDesired shopWorker.client), .start (.makeDesired shopNext), .turn 0 Site.calm,
    .turn 1 Site.calm] ++ List.replicate 4 (.turn 0 Site.calm) ++ List.replicate 4 (.turn 1 Site.calm)

/-- Everything has come to its end, and both deployments are desired and not superseded. -/
theorem two_pushes_both_current :
    let y := shop.run ⟨World.empty.site, []⟩ pushedTogether
    y.threads.all (fun th => !th.running) ∧ shopWorker.client ≠ shopNext ∧
      ∀ q ∈ [shopWorker.client, shopNext],
        y.state.cdb.state q = some desired ∧ Current y.state.cdb q := by
  decide +kernel

/-- A second push, once the first one has ended. -/
def pushedTwice : List shop.Event :=
  .start (.makeDesired shopWorker.client) :: List.replicate 5 (.turn 0 Site.calm) ++
    .start (.makeDesired shopNext) :: List.replicate 14 (.turn 1 Site.calm)

/-- The current deployments are among the rows. -/
theorem forall_current {s : Store} {P : DeploymentQid → Prop}
    (h : ∀ q ∈ s.byId.keys, Current s q → P q) (q : DeploymentQid) (hq : Current s q) : P q := by
  refine h q ?_ hq
  have hrow : (s.byId.lookup q).isSome := by
    cases hlookup : s.byId.lookup q with
    | none => exact absurd (by rw [Store.state, hlookup]; rfl) hq.stored
    | some => rfl
  exact AList.lookup_isSome.1 hrow

theorem second_push_supersedes :
    let y := shop.run ⟨World.empty.site, []⟩ pushedTwice
    OneCurrent World.empty.cdb ∧ shop.Meets (oneAtATime _) ⟨World.empty.site, []⟩ pushedTwice ∧
      y.state.cdb.state shopWorker.client = some lingering ∧ Current y.state.cdb shopNext ∧
      OneCurrent y.state.cdb := by
  have h₀ : OneCurrent World.empty.cdb := fun q _ hq => absurd rfl hq.stored
  have h : shop.Meets (oneAtATime _) ⟨World.empty.site, []⟩ pushedTwice := by
    refine Machine.meets_append.2 ⟨?_, ?_⟩
    · refine ⟨?_, Machine.admits_ask rfl ⟨trivial, ?_⟩, Machine.admits_ask rfl ⟨?_, trivial⟩,
        Machine.admits_choose rfl, Machine.admits_ask rfl ⟨?_, trivial⟩,
        Machine.admits_ask rfl ⟨?_, trivial⟩, trivial⟩
      · exact fun q _ tr htr => absurd htr List.not_mem_nil
      · exact fun q _ p hp => absurd rfl hp.stored
      · exact ⟨rfl, trivial, fun _ => rfl⟩
      · exact rfl
      · exact rfl
    · refine ⟨?_, Machine.admits_ask rfl ⟨trivial, ?_⟩, Machine.admits_ask rfl ⟨?_, ?_⟩,
        Machine.admits_choose rfl, Machine.admits_ask rfl ⟨?_, trivial⟩, Machine.admits_choose rfl,
        Machine.admits_choose rfl, Machine.admits_ask rfl ⟨rfl, trivial⟩, Machine.admits_choose rfl,
        Machine.admits_ask rfl ⟨rfl, trivial⟩, Machine.admits_ask rfl ⟨trivial, trivial⟩,
        Machine.admits_ask rfl ⟨?_, trivial⟩, Machine.admits_choose rfl,
        Machine.admits_ask rfl ⟨rfl, trivial⟩, Machine.admits_ask rfl ⟨rfl, trivial⟩, trivial⟩
      · have hended : ∀ tr ∈ (shop.run ⟨World.empty.site, []⟩ (.start (.makeDesired
            shopWorker.client) :: List.replicate 5 (.turn 0 Site.calm))).view.traces,
            ¬tr.running := by decide +kernel
        exact fun q _ tr htr hrunning => absurd hrunning (hended tr htr)
      · rintro _ ⟨⟩
        exact forall_current (by decide +kernel)
      · exact fun _ _ => trivial
      · rintro _ ⟨⟩
        exact forall_current (by decide +kernel)
      · exact ⟨rfl, rfl, fun h => by cases h⟩
      · exact ⟨rfl, trivial, fun _ => rfl⟩
  exact ⟨h₀, h, by decide +kernel, by decide +kernel, one_current World.empty.site h₀ pushedTwice h⟩

end Skyr.Cdb
