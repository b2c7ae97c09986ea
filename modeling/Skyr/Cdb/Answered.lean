import Skyr.Lib.Commute
import Skyr.Cdb.Client

/-!
# A configuration database that answers

As long as every statement sent to the configuration database is carried out and answered
(`Answers`), an operation on a deployment that nothing else happens during has one outcome, and it
can be written down as a function of the store: `put` for writing a deployment, `move` for moving
it to a state, `takeOver` for superseding it.  The statements that are in flight at the same time
commute, so their order makes no difference.

What the programs outside the engine do in such a database is then a matter of which rows they
leave alone.  `Spared X s s'` says so: from `s` to `s'` no deployment that is not down drops out of
the active index, no supersession is taken back, and every deployment of `X` that is still not
superseded has kept its row.
-/

namespace Skyr

open Prog

variable [SclData]

/-- The world with another configuration database. -/
def World.withCdb (w : World) (s : Cdb.Store) : World := { w with cdb := s }

namespace Cdb

open DeploymentState

/-- Statements of the configuration database are carried out and answered in full. -/
def Answers : (o : Skyr.Op) → World.sem.Ans o → Prop
  | .cdb _, reply => reply = .done none
  | _, _ => True

/-- With a configuration database that answers, `p` ends in `Q`. -/
abbrev Ends {α : Type} (p : M α) (Q : Except String α → World → Prop) (w : World) : Prop :=
  p.ends World.sem Answers Q w

theorem calm_answers : calm.Within Answers := by
  intro o
  cases o with
  | cdb o => rfl
  | _ => trivial

/-- What holds at the end of every run holds at the end that is known. -/
theorem Ends.at_end {α : Type} {p : M α} {Q : Except String α → World → Prop} {w w' : World}
    {r : Except String α} (h : Ends p Q w) (hend : Ends p (fun r' w'' => r' = r ∧ w'' = w') w) :
    Q r w' := by
  have hts : ∀ n : ℕ, ((fun _ => calm) n : World.sem.Turn).Within Answers := fun _ => calm_answers
  obtain ⟨hr, hw⟩ := always_run hend hts
  have hQ := always_run h hts
  rwa [hr, hw] at hQ

/-! ## The operations as functions of the store -/

namespace Store

variable (s : Store)

/-- What writing a deployment makes of the store. -/
def put (d : Deployment) : Store :=
  if d.state = down then (s.setById d).unsetActive d.qid else (s.setById d).setActive d.qid

/-- What moving a deployment to a state makes of the store. -/
def move (q : DeploymentQid) (state : DeploymentState) : Store :=
  if s.state q = some down ∧ state = undesired then s
  else s.put ⟨q, state, ((s.find q).map Deployment.bootstrapped).getD false⟩

/-- What `q` taking over from `p` makes of the store. -/
def takeOver (q p : DeploymentQid) : Store := (s.move p lingering).supersede p q.deployment

end Store

section Operations

variable {α : Type} {w : World} {q : DeploymentQid}

theorem ends_cdb {o : Op} {Q : Except String o.Result → World → Prop}
    (h : Q (.ok (Store.exec none o w.cdb).1) (w.afterCdb o)) : Ends (M.cdb o) Q w := by
  refine ⟨trivial, ?_⟩
  rintro _ rfl
  exact h

theorem ends_get {Q : Except String Deployment → World → Prop}
    (hok : ∀ d, w.cdb.find q = some d → Q (.ok d) w)
    (herr : w.cdb.find q = none → Q (.error "deployment not found") w) :
    Ends (DeploymentClient.get q) Q w := by
  refine always_bind.2 (ends_cdb ?_)
  have hfind : (Store.exec none (.findDeployment q) w.cdb).1 = w.cdb.find q := rfl
  rw [hfind]
  cases hd : w.cdb.find q with
  | some d => exact hok d hd
  | none => exact herr hd

/-- A row is written in one statement, the index in another. -/
theorem commute_row_index (d : Deployment) : World.sem.Commute Answers
    (fun o => o = .cdb (.setDeploymentById d))
    fun o => o = .cdb (.setActiveDeployment d.qid) ∨ o = .cdb (.unsetActiveDeployment d.qid) := by
  rintro _ _ rfl (rfl | rfl) _ _ rfl rfl w
  · exact ⟨rfl, rfl, rfl⟩
  · exact ⟨rfl, rfl, rfl⟩

variable {Q : Except String Unit → World → Prop}

theorem ends_setDeployment {d : Deployment}
    (h : Q (.ok ()) (w.withCdb (w.cdb.put d))) : Ends (setDeployment d) Q w := by
  refine always_bind.2 (always_mono (always_join (commute_row_index d)
    (Q := fun a b w' => a = .ok () ∧ b = .ok () ∧ w' = w.withCdb (w.cdb.put d)) ?_ ?_ ?_) ?_)
  · exact ⟨rfl, fun r => issues_bind (issues_ofExcept r) fun _ => trivial⟩
  · split
    · exact ⟨.inr rfl, fun r => issues_bind (issues_ofExcept r) fun _ => trivial⟩
    · exact ⟨.inl rfl, fun r => issues_bind (issues_ofExcept r) fun _ => trivial⟩
  · refine always_bind.2 (ends_cdb ?_)
    change Ends (if d.state = down then _ else _) _ _
    rw [Store.put]
    split <;> exact always_bind.2 (ends_cdb ⟨rfl, rfl, rfl⟩)
  · rintro _ _ ⟨_, _, rfl, rfl, rfl, rfl⟩
    exact h

theorem ends_set {state : DeploymentState}
    (h : Q (.ok ()) (w.withCdb (w.cdb.move q state))) :
    Ends (DeploymentClient.set q state) Q w := by
  have hprev : ∀ prev : Except String Deployment, prev.toOption = w.cdb.find q →
      Ends (if prev.toOption.map Deployment.state = some down ∧ state = undesired then return ()
        else setDeployment ⟨q, state, (prev.toOption.map Deployment.bootstrapped).getD false⟩)
        Q w := by
    intro prev hprev
    rw [hprev, Store.state_eq_map_find]
    rw [Store.move] at h
    split
    · next hdown =>
      rw [if_pos hdown] at h
      exact h
    next hdown =>
    rw [if_neg hdown] at h
    exact ends_setDeployment h
  refine always_bind.2 (always_attempt.2 (ends_get (fun d hd => ?_) fun hnone => ?_))
  · exact hprev (.ok d) hd.symm
  · exact hprev (.error _) hnone.symm

theorem ends_setProgress {bootstrapped : Bool}
    (hok : ∀ d, w.cdb.find q = some d →
      Q (.ok ()) (w.withCdb (w.cdb.put { d with bootstrapped := bootstrapped })))
    (herr : w.cdb.find q = none → Q (.error "deployment not found") w) :
    Ends (DeploymentClient.setProgress q bootstrapped) Q w :=
  always_bind.2 (ends_get (fun d hd => ends_setDeployment (hok d hd)) herr)

theorem ends_getSuperseding {Q : Except String (Option DeploymentQid) → World → Prop}
    (h : Q (.ok ((w.cdb.superseding q).map fun d => ⟨q.environment, d⟩)) w) :
    Ends (DeploymentClient.getSuperseding q) Q w :=
  always_bind.2 (ends_cdb h)

theorem ends_superseded {Q : Except String (List DeploymentQid) → World → Prop}
    (h : Q (.ok ((w.cdb.superseded q).map fun d => ⟨q.environment, d⟩)) w) :
    Ends (DeploymentClient.superseded q) Q w :=
  always_bind.2 (ends_cdb h)

/-- The statements of moving a deployment. -/
def Moves (q : DeploymentQid) : Skyr.Op → Prop
  | .cdb (.findDeployment q') => q' = q
  | .cdb (.setDeploymentById d) => d.qid = q
  | .cdb (.setActiveDeployment q') => q' = q
  | .cdb (.unsetActiveDeployment q') => q' = q
  | _ => False

theorem commute_move_record (q p : DeploymentQid) (by_ : DeploymentId) :
    World.sem.Commute Answers (Moves q) fun o => o = .cdb (.createSupersession p by_) := by
  rintro o _ ho rfl a _ ha rfl w
  cases o with
  | cdb o =>
    obtain rfl := ha
    cases o with
    | findDeployment | setDeploymentById | setActiveDeployment | unsetActiveDeployment =>
      exact ⟨rfl, rfl, rfl⟩
    | _ => exact ho.elim
  | _ => exact ho.elim

theorem ends_supersede {p : DeploymentQid}
    (h : Q (.ok ()) (w.withCdb (w.cdb.takeOver q p))) :
    Ends (DeploymentClient.supersede q p) Q w := by
  refine always_bind.2 (always_mono (always_join
    (commute_move_record p p q.deployment)
    (Q := fun a b w' => a = .ok () ∧ b = .ok () ∧ w' = w.withCdb (w.cdb.takeOver q p)) ?_ ?_ ?_) ?_)
  · exact DeploymentClient.issues_set rfl (fun _ => rfl) rfl rfl
  · exact ⟨rfl, fun r => issues_bind (issues_ofExcept r) fun _ => trivial⟩
  · exact ends_set (always_bind.2 (ends_cdb ⟨rfl, rfl, rfl⟩))
  · rintro _ _ ⟨_, _, rfl, rfl, rfl, rfl⟩
    exact h

end Operations

/-! ## What is left alone -/

/-- Every deployment that is not down is in the active index. -/
def Indexed (s : Store) : Prop :=
  ∀ q state, s.state q = some state → state ≠ down → q ∈ s.active

/-- From `s` to `s'` the index stays complete, no supersession is taken back, and the deployments
of `X` keep their rows unless they have been superseded by then. -/
structure Spared (X : DeploymentQid → Prop) (s s' : Store) : Prop where
  indexed : Indexed s → Indexed s'
  superseded : ∀ q, (s.superseding q).isSome → (s'.superseding q).isSome
  row : ∀ q, X q → s'.superseding q = none → s'.find q = s.find q

section Spared

omit [SclData]

variable {X : DeploymentQid → Prop} {s s' s'' : Store}

theorem Spared.refl : Spared X s s := ⟨id, fun _ => id, fun _ _ _ => rfl⟩

theorem Spared.trans (h : Spared X s s') (h' : Spared X s' s'') : Spared X s s'' where
  indexed hs := h'.indexed (h.indexed hs)
  superseded q hq := h'.superseded q (h.superseded q hq)
  row q hX hnone := by
    have hnone' : s'.superseding q = none := by
      by_contra hsome
      exact absurd (h'.superseded q (Option.isSome_iff_ne_none.2 hsome)) (by simp [hnone])
    rw [h'.row q hX hnone, h.row q hX hnone']

theorem superseding_put (d : Deployment) (q : DeploymentQid) :
    (s.put d).superseding q = s.superseding q := by
  rw [Store.put]
  split <;> rfl

theorem find_put_self (d : Deployment) : (s.put d).find d.qid = some d := by
  rw [Store.put]
  split <;> exact s.find_setById_self d

variable {d : Deployment}

theorem find_put_ne {q : DeploymentQid} (h : q ≠ d.qid) : (s.put d).find q = s.find q := by
  rw [Store.put]
  split <;> exact s.find_setById_ne d h

theorem indexed_put (hs : Indexed s) : Indexed (s.put d) := by
  intro q state hq hstate
  rw [← Store.state_eq_map_find] at hq
  by_cases hqd : q = d.qid
  · subst hqd
    rw [find_put_self] at hq
    obtain rfl := Option.some.inj hq
    rw [Store.put, if_neg hstate]
    exact (Store.mem_active_setActive ..).2 (.inl rfl)
  rw [find_put_ne hqd, Store.state_eq_map_find] at hq
  have hmem := hs q state hq hstate
  rw [Store.put]
  split
  · exact (Store.mem_active_unsetActive ..).2 ⟨hmem, hqd⟩
  · exact (Store.mem_active_setActive ..).2 (.inr hmem)

/-- Writing a deployment that is not to be spared, or that is superseded. -/
theorem spared_put (h : X d.qid → (s.superseding d.qid).isSome) :
    Spared X s (s.put d) where
  indexed := indexed_put
  superseded q hq := by rwa [superseding_put]
  row q hX hnone := by
    rw [superseding_put] at hnone
    refine find_put_ne fun hq => ?_
    subst hq
    simpa [hnone] using h hX

theorem superseding_move (q p : DeploymentQid) (state : DeploymentState) :
    (s.move p state).superseding q = s.superseding q := by
  rw [Store.move]
  split
  · rfl
  · exact superseding_put _ q

theorem spared_move {q : DeploymentQid} {state : DeploymentState}
    (h : X q → (s.superseding q).isSome) : Spared X s (s.move q state) := by
  rw [Store.move]
  split
  · exact .refl
  · exact spared_put h

/-- Whoever is taken over from is superseded. -/
theorem spared_takeOver (q p : DeploymentQid) : Spared X s (s.takeOver q p) := by
  have hmove : Spared (· ≠ p) s (s.move p lingering) := spared_move fun h => absurd rfl h
  refine ⟨hmove.indexed, fun q' hq' => ?_, fun q' _ hnone => ?_⟩
  · by_cases hp : q' = p
    · subst hp
      exact Option.isSome_iff_exists.2 ⟨_, Store.superseding_supersede_self ..⟩
    · rw [Store.takeOver, Store.superseding_supersede_ne _ _ hp]
      exact hmove.superseded q' hq'
  have hp : q' ≠ p := by
    rintro rfl
    rw [Store.takeOver, Store.superseding_supersede_self] at hnone
    cases hnone
  rw [Store.takeOver, Store.superseding_supersede_ne _ _ hp] at hnone
  exact hmove.row q' hp hnone

end Spared

/-- Nothing but the configuration database has changed, and `X` has been spared. -/
def Moved (X : DeploymentQid → Prop) (w w' : World) : Prop :=
  ∃ s, w' = w.withCdb s ∧ Spared X w.cdb s

section Programs

variable {X : DeploymentQid → Prop} {w w' : World}

theorem Moved.refl : Moved X w w := ⟨w.cdb, rfl, .refl⟩

theorem Moved.write (h : Moved X w w') {s : Store} (hs : Spared X w'.cdb s) :
    Moved X w (w'.withCdb s) := by
  obtain ⟨s', rfl, hs'⟩ := h
  exact ⟨s, rfl, hs'.trans hs⟩

variable {Q : Except String (Rows Deployment) → World → Prop}

/-- The active deployments, when the database answers. -/
theorem ends_deploymentsByQids {qids : List DeploymentQid}
    (h : Q (.ok ⟨qids.filterMap w.cdb.find, none⟩) w) : Ends (deploymentsByQids qids) Q w := by
  rw [deploymentsByQids]
  split
  · next hempty =>
    obtain rfl := List.isEmpty_iff.1 hempty
    exact h
  · exact ends_cdb h

theorem ends_repoActive {repo : RepoQid}
    (h : Q (.ok ⟨(w.cdb.active.filter fun q => q.environment.repo == repo).filterMap w.cdb.find,
      none⟩) w) : Ends (repoActiveDeployments repo) Q w :=
  always_bind.2 (ends_cdb (ends_deploymentsByQids h))

theorem ends_active
    (h : Q (.ok ⟨w.cdb.active.filterMap w.cdb.find, none⟩) w) : Ends activeDeployments Q w :=
  always_bind.2 (ends_cdb (ends_deploymentsByQids h))

/-- A deployment listed for a repository. -/
theorem listed_of_mem {repo : RepoQid} {d : Deployment}
    (h : d ∈ (w.cdb.active.filter fun q => q.environment.repo == repo).filterMap w.cdb.find) :
    d.qid.environment.repo = repo ∧ w.cdb.state d.qid = some d.state := by
  obtain ⟨q, hq, hd⟩ := List.mem_filterMap.1 h
  obtain ⟨rfl, hstate⟩ := Store.find_eq_some hd
  exact ⟨eq_of_beq (List.mem_filter.1 hq).2, hstate⟩

omit [SclData] in
theorem environment_eq {env env' : EnvironmentQid} (hrepo : env.repo = env'.repo)
    (hname : env.environment = env'.environment) : env = env' := by
  obtain ⟨repo, environment⟩ := env
  obtain rfl : repo = env'.repo := hrepo
  obtain rfl : environment = env'.environment := hname
  rfl

/-- A push spares everything but the deployment it is for. -/
theorem ends_makeDesired (q : DeploymentQid) :
    Ends (DeploymentClient.makeDesired q) (fun _ w' => Moved (· ≠ q) w w') w := by
  refine always_bind.2 (ends_repoActive ?_)
  refine always_bind.2 (always_ofRows (fun _ => ?_) fun _ => Moved.refl)
  refine always_then (I := Moved (· ≠ q) w)
    (always_forM (fun p _ w' hw' => ?_) Moved.refl) (fun _ w' hw' => ?_) fun _ _ h => h
  · exact ends_supersede (hw'.write (spared_takeOver q p))
  · exact ends_set (hw'.write (spared_move fun h => absurd rfl h))

/-- A teardown spares what is not desired in the environment. -/
theorem ends_tearDown (env : EnvironmentQid) : Ends (tearDownEnvironment env) (fun _ w' =>
    Moved (fun q => ¬(q.environment = env ∧ w.cdb.state q = some desired)) w w') w := by
  refine always_bind.2 (ends_repoActive ?_)
  refine always_then (I := Moved _ w) (always_forM (fun d hd w' hw' => ?_) Moved.refl)
    (fun _ _ h => h) fun _ _ h => h
  split
  · next htarget =>
    obtain ⟨hrepo, hstate⟩ := listed_of_mem hd
    refine ends_set (hw'.write (spared_move fun hX => absurd ⟨?_, hstate.trans ?_⟩ hX))
    · exact environment_eq hrepo htarget.1
    · rw [htarget.2]
  · exact hw'

/-- The deletion of a ref spares everything but the deployments of the old commit. -/
theorem ends_deleteRef (env : EnvironmentQid) (oldCommit : ObjId) :
    Ends (deleteRef env oldCommit) (fun _ w' => Moved (fun q => ¬(q.environment = env ∧
      q.deployment.commit = oldCommit ∧ w.cdb.state q ≠ some down)) w w') w := by
  refine always_bind.2 (ends_repoActive ?_)
  dsimp only
  split
  · next d hfind =>
    obtain ⟨hrepo, -⟩ := listed_of_mem (List.mem_of_find?_eq_some hfind)
    have htarget : d.qid.environment.environment = env.environment ∧
        d.qid.deployment.commit = oldCommit := by
      simpa using List.find?_some hfind
    refine ends_set (Moved.refl.write ?_)
    by_cases hdown : w.cdb.state d.qid = some down
    · rw [Store.move, if_pos ⟨hdown, rfl⟩]
      exact .refl
    · exact spared_move fun hX =>
        absurd ⟨environment_eq hrepo htarget.1, htarget.2, hdown⟩ hX
  · exact .refl

end Programs

end Cdb

end Skyr
