import Skyr.World

/-!
# The client of the configuration database

The operations on a deployment, statement by statement.  Almost every one of them is a read
followed by a write of what was read with something changed, and nothing holds the row still in
between.

Two programs from outside the engine change deployments as well: the git server, which makes the
pushed commit of a ref desired and takes down the deployment of a deleted ref, and the API, which
does the former on request and takes down whole environments.
-/

namespace Skyr.Cdb

open Prog

variable [SclData]

open DeploymentState

/-! ## Deployments -/

/-- Write a deployment: its row, and its place in the index of active deployments.  The two
statements are in flight at the same time, and both are waited for before either error is
looked at. -/
def setDeployment (deployment : Deployment) : M Unit := do
  let (byId, active) ← Prog.join
    (M.cdb (.setDeploymentById deployment) >>= fun _ => (pure () : M Unit))
    (if deployment.state = down then
      M.cdb (.unsetActiveDeployment deployment.qid) >>= fun _ => (pure () : M Unit)
    else M.cdb (.setActiveDeployment deployment.qid) >>= fun _ => (pure () : M Unit))
  M.ofExcept byId
  M.ofExcept active

/-- The rows of the active deployments named by `qids`. -/
def deploymentsByQids (qids : List DeploymentQid) : M (Rows Deployment) :=
  if qids.isEmpty then return ⟨[], none⟩ else M.cdb (.findDeploymentsByQids qids)

/-- `Client::active_deployments`. -/
def activeDeployments : M (Rows Deployment) := do
  let qids : Rows DeploymentQid ← M.cdb .listActiveDeployments
  deploymentsByQids (← M.ofRows qids)

/-- `RepositoryClient::active_deployments`. -/
def repoActiveDeployments (repo : RepoQid) : M (Rows Deployment) := do
  let qids : Rows DeploymentQid ← M.cdb (.listActiveDeploymentsByRepo repo)
  deploymentsByQids (← M.ofRows qids)

namespace DeploymentClient

variable (q : DeploymentQid)

def get : M Deployment := do
  let row : Option Deployment ← M.cdb (.findDeployment q)
  match row with
  | some d => return d
  | none => .fail "deployment not found"

/-- Move a deployment to a state.  A failed read counts as no row, and the only transition that
is refused is the one from down to undesired. -/
def set (state : DeploymentState) : M Unit := do
  let prevState := (← (get q).attempt).toOption
  if prevState.map Deployment.state = some down ∧ state = undesired then
    return ()
  else
    setDeployment ⟨q, state, (prevState.map Deployment.bootstrapped).getD false⟩

/-- Set the bootstrapped flag and write everything else back as it was read. -/
def setProgress (bootstrapped : Bool) : M Unit := do
  let prev ← get q
  setDeployment { prev with bootstrapped := bootstrapped }

def markSupersededBy (superseding : DeploymentId) : M Unit := do
  let _ ← M.cdb (.createSupersession q superseding)

def superseded : M (List DeploymentQid) := do
  let rows : Rows DeploymentId ← M.cdb (.getSupersededDeployments q)
  let ids ← M.ofRows rows
  return ids.map fun d => ⟨q.environment, d⟩

def getSuperseding : M (Option DeploymentQid) := do
  let row : Option DeploymentId ← M.cdb (.getSupersedingDeployment q)
  return row.map fun d => ⟨q.environment, d⟩

def pathHash (path : String) : M (Option ObjId) :=
  M.cdb (.pathHash q.environment.repo q.deployment.commit path)

/-- Take over from one deployment: it lingers, superseded by this one. -/
def supersede (predecessor : DeploymentQid) : M Unit := do
  let (r1, r2) ← Prog.join (set predecessor lingering) (markSupersededBy predecessor q.deployment)
  M.ofExcept r1
  M.ofExcept r2

/-- The deployments that `make_desired` takes over from. -/
def predecessors (active : List Deployment) : List DeploymentQid :=
  (active.filter fun d => d.qid.environment.environment == q.environment.environment &&
    d.qid.deployment != q.deployment && d.state.isActive).map Deployment.qid

/-- Make a deployment the desired one of its environment. -/
def makeDesired : M Unit := do
  let active ← M.ofRows (← repoActiveDeployments q.environment.repo)
  (predecessors q active).forM (supersede q)
  set q desired

end DeploymentClient

/-! ## Rules for the operations on a deployment -/

section Rules

variable {P : World → Skyr.Op → Prop} {A : Skyr.Op → Prop} {w : World} {q : DeploymentQid}

theorem DeploymentClient.issues_get (h : A (.cdb (.findDeployment q))) :
    (DeploymentClient.get q).issues A := by
  refine issues_bind (issues_cdb h) fun row => ?_
  cases row <;> trivial

theorem issues_setDeployment {d : Deployment} (h : A (.cdb (.setDeploymentById d)))
    (hset : A (.cdb (.setActiveDeployment d.qid)))
    (hunset : A (.cdb (.unsetActiveDeployment d.qid))) : (setDeployment d).issues A := by
  refine issues_bind (issues_join ?_ ?_) fun r =>
    issues_bind (issues_ofExcept _) fun _ => issues_ofExcept _
  · exact issues_bind (issues_cdb h) fun _ => trivial
  split
  · exact issues_bind (issues_cdb hunset) fun _ => trivial
  · exact issues_bind (issues_cdb hset) fun _ => trivial

theorem DeploymentClient.issues_set {state : DeploymentState} (hfind : A (.cdb (.findDeployment q)))
    (h : ∀ bootstrapped, A (.cdb (.setDeploymentById ⟨q, state, bootstrapped⟩)))
    (hset : A (.cdb (.setActiveDeployment q))) (hunset : A (.cdb (.unsetActiveDeployment q))) :
    (DeploymentClient.set q state).issues A := by
  refine issues_bind (issues_attempt (DeploymentClient.issues_get hfind)) fun r => ?_
  change Prog.issues A (if _ then _ else _)
  split
  · trivial
  · exact issues_setDeployment (h _) hset hunset

theorem DeploymentClient.always_get {Q : Except String Deployment → World → Prop}
    (hP : P w (.cdb (.findDeployment q))) (hok : ∀ d, w.cdb.find q = some d → Q (.ok d) w)
    (herr : ∀ e, Q (.error e) w) : Always P (DeploymentClient.get q) Q w := by
  refine always_bind.2 (always_cdb hP (fun cut => ?_) fun e => ⟨herr e, herr e⟩)
  change Always P (match w.cdb.find q with
    | some d => return d
    | none => .fail "deployment not found") Q w
  cases hd : w.cdb.find q with
  | some d => exact hok d hd
  | none => exact herr _

theorem DeploymentClient.surely_get {Q : Except String Deployment → World → Prop} :
    Surely P (DeploymentClient.get q) Q w ↔ P w (.cdb (.findDeployment q)) ∧
      match w.cdb.find q with
      | some d => Q (.ok d) w
      | none => Q (.error "deployment not found") w := by
  rw [DeploymentClient.get, Surely, always_bind]
  refine surely_cdb.trans (and_congr_right fun _ => ?_)
  change Surely P (match w.cdb.find q with
    | some d => return d
    | none => .fail "deployment not found") Q w ↔ _
  cases w.cdb.find q <;> rfl

/-- Writing a deployment may begin with its row. -/
theorem surely_setDeployment {d : Deployment} {Q : Except String Unit → World → Prop}
    (h : Surely P (setDeployment d) Q w) : P w (.cdb (.setDeploymentById d)) := by
  rw [setDeployment] at h
  have hjoin := always_bind.1 h
  split at hjoin <;> exact (hjoin true).1

/-- Moving a deployment to a state writes its row, unless the transition is refused. -/
theorem DeploymentClient.surely_set {state : DeploymentState} {Q : Except String Unit → World → Prop}
    (hstate : ¬(w.cdb.state q = some down ∧ state = undesired))
    (h : Surely P (DeploymentClient.set q state) Q w) :
    ∃ d : Deployment, d.qid = q ∧ d.state = state ∧ P w (.cdb (.setDeploymentById d)) := by
  have hread := (DeploymentClient.surely_get.1 (always_attempt.1 (always_bind.1 h))).2
  cases hfind : w.cdb.find q with
  | none =>
    rw [hfind] at hread
    exact ⟨_, rfl, rfl, surely_setDeployment hread⟩
  | some d =>
  rw [hfind] at hread
  rw [(Store.find_eq_some hfind).2] at hstate
  change Surely P (if some d.state = some down ∧ state = undesired then _ else _) Q w at hread
  rw [if_neg hstate] at hread
  exact ⟨_, rfl, rfl, surely_setDeployment hread⟩

theorem DeploymentClient.always_superseded {Q : Except String (List DeploymentQid) → World → Prop}
    (hP : P w (.cdb (.getSupersededDeployments q)))
    (hok : Q (.ok ((w.cdb.superseded q).map fun d => ⟨q.environment, d⟩)) w)
    (herr : ∀ e, Q (.error e) w) : Always P (DeploymentClient.superseded q) Q w := by
  refine always_bind.2 (always_cdb hP (fun cut => ?_) fun e => ⟨herr e, herr e⟩)
  refine always_bind.2 (always_ofRows (fun hnone => ?_) herr)
  cases cut with
  | none => exact hok
  | some cut => exact absurd hnone (Option.some_ne_none _)

theorem DeploymentClient.surely_superseded
    {Q : Except String (List DeploymentQid) → World → Prop} :
    Surely P (DeploymentClient.superseded q) Q w ↔ P w (.cdb (.getSupersededDeployments q)) ∧
      Q (.ok ((w.cdb.superseded q).map fun d => ⟨q.environment, d⟩)) w := by
  rw [DeploymentClient.superseded, Surely, always_bind]
  exact surely_cdb.trans Iff.rfl

end Rules

/-! ## The git server and the API -/

/-- Work through a stream of deployments as it arrives. -/
def forRows (rows : Rows Deployment) (f : Deployment → M Unit) : M Unit := do
  rows.items.forM f
  match rows.error with
  | none => return ()
  | some e => .fail e

/-- `tear_down_environment`: every desired deployment of the environment becomes undesired. -/
def tearDownEnvironment (env : EnvironmentQid) : M Unit := do
  let active ← repoActiveDeployments env.repo
  forRows active fun d =>
    if d.qid.environment.environment = env.environment ∧ d.state = desired then
      DeploymentClient.set d.qid undesired
    else return ()

/-- A deleted ref: the first active deployment of the old commit becomes undesired. -/
def deleteRef (env : EnvironmentQid) (oldCommit : ObjId) : M Unit := do
  let active ← repoActiveDeployments env.repo
  match active.items.find? fun d =>
      d.qid.environment.environment = env.environment ∧ d.qid.deployment.commit = oldCommit with
  | some d => DeploymentClient.set d.qid undesired
  | none =>
    match active.error with
    | none => return ()
    | some e => .fail e

end Skyr.Cdb
