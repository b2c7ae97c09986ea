import Skyr.Rdb.Store

/-!
# The configuration database

What the engines keep about deployments: a row per deployment (`cdb.deployments_by_id`), an index
of the deployments that are not down (`cdb.active_deployments`), and the supersession table, which
has at most one row per superseded deployment.  The three are written by separate statements, and
nothing but the order of those statements keeps them in step.

A row holds the lifecycle label of a deployment and whether its program has been explored to
stability.  The other columns are its key.  Next to the rows stand the files of a commit and the
repositories there are, which never change here.
-/

namespace Skyr

/-- The lifecycle label of a deployment. -/
inductive DeploymentState
  | down
  | undesired
  | lingering
  | desired
deriving DecidableEq

namespace DeploymentState

/-- A deployment that a new one in its environment takes over from. -/
def isActive : DeploymentState → Bool
  | desired => true
  | _ => false

end DeploymentState

/-- A deployment as the client hands it out. -/
structure Deployment where
  qid : DeploymentQid
  state : DeploymentState
  bootstrapped : Bool
deriving DecidableEq

namespace Cdb

/-- The columns of a deployment's row beside its key. -/
structure Status where
  state : DeploymentState
  bootstrapped : Bool
deriving DecidableEq

/-- The configuration database. -/
structure Store where
  /-- `deployments_by_id`. -/
  byId : AList fun _ : DeploymentQid => Status
  /-- `active_deployments`. -/
  active : List DeploymentQid
  /-- `supersessions`: the deployment that supersedes the key. -/
  supersessions : AList fun _ : DeploymentQid => DeploymentId
  pathHash : RepoQid → ObjId → String → Option ObjId
  /-- `repositories`. -/
  repositories : List RepoQid

/-- A database without rows and files. -/
def Store.empty : Store := ⟨∅, [], ∅, fun _ _ _ => none, []⟩

/-- The statements of the client. -/
inductive Op
  | findDeployment (qid : DeploymentQid)
  | setDeploymentById (deployment : Deployment)
  | setActiveDeployment (qid : DeploymentQid)
  | unsetActiveDeployment (qid : DeploymentQid)
  | listActiveDeployments
  | listActiveDeploymentsByRepo (repo : RepoQid)
  | findDeploymentsByQids (qids : List DeploymentQid)
  | createSupersession (superseded : DeploymentQid) (superseding : DeploymentId)
  | getSupersededDeployments (qid : DeploymentQid)
  | getSupersedingDeployment (qid : DeploymentQid)
  | pathHash (repo : RepoQid) (commit : ObjId) (path : String)
  | findRepository (repo : RepoQid)

/-- What a statement returns when it is executed. -/
@[reducible] def Op.Result : Op → Type
  | findDeployment _ => Option Deployment
  | listActiveDeployments => Rows DeploymentQid
  | listActiveDeploymentsByRepo _ => Rows DeploymentQid
  | findDeploymentsByQids _ => Rows Deployment
  | getSupersededDeployments _ => Rows DeploymentId
  | getSupersedingDeployment _ => Option DeploymentId
  | pathHash _ _ _ => Option ObjId
  | findRepository _ => Bool
  | _ => Unit

namespace Store

/-- The stored row of a deployment. -/
def find (s : Store) (q : DeploymentQid) : Option Deployment :=
  (s.byId.lookup q).map fun d => ⟨q, d.state, d.bootstrapped⟩

/-- The stored state of a deployment. -/
def state (s : Store) (q : DeploymentQid) : Option DeploymentState :=
  (s.byId.lookup q).map Status.state

/-- The deployment that supersedes `q`. -/
def superseding (s : Store) (q : DeploymentQid) : Option DeploymentId := s.supersessions.lookup q

/-- The deployments of `q`'s environment that `q` supersedes. -/
def superseded (s : Store) (q : DeploymentQid) : List DeploymentId :=
  (s.supersessions.entries.filter fun e =>
    e.1.environment == q.environment && e.2 == q.deployment).map fun e => e.1.deployment

def setById (s : Store) (d : Deployment) : Store :=
  { s with byId := s.byId.insert d.qid ⟨d.state, d.bootstrapped⟩ }

def setActive (s : Store) (q : DeploymentQid) : Store :=
  { s with active := s.active.insert q }

def unsetActive (s : Store) (q : DeploymentQid) : Store :=
  { s with active := s.active.filter (· != q) }

def supersede (s : Store) (q : DeploymentQid) (by_ : DeploymentId) : Store :=
  { s with supersessions := s.supersessions.insert q by_ }

/-- Execute a statement.  `cut` says where the result stream breaks, if it does. -/
def exec (cut : Option (ℕ × String)) : (o : Op) → Store → o.Result × Store
  | .findDeployment q, s => (s.find q, s)
  | .setDeploymentById d, s => ((), s.setById d)
  | .setActiveDeployment q, s => ((), s.setActive q)
  | .unsetActiveDeployment q, s => ((), s.unsetActive q)
  | .listActiveDeployments, s => (Rows.upTo cut s.active, s)
  | .listActiveDeploymentsByRepo repo, s =>
    (Rows.upTo cut (s.active.filter fun q => q.environment.repo == repo), s)
  | .findDeploymentsByQids qs, s => (Rows.upTo cut (qs.filterMap s.find), s)
  | .createSupersession q by_, s => ((), s.supersede q by_)
  | .getSupersededDeployments q, s => (Rows.upTo cut (s.superseded q), s)
  | .getSupersedingDeployment q, s => (s.superseding q, s)
  | .pathHash repo commit path, s => (s.pathHash repo commit path, s)
  | .findRepository repo, s => (decide (repo ∈ s.repositories), s)

/-! ### What a write changes -/

section Writes

variable (s : Store) (d : Deployment) (q q' : DeploymentQid) (by_ : DeploymentId)

@[simp] theorem state_setById_self : (s.setById d).state d.qid = some d.state := by
  rw [state, setById, AList.lookup_insert]; rfl

@[simp] theorem state_setById_ne {q : DeploymentQid} (h : q ≠ d.qid) :
    (s.setById d).state q = s.state q := by
  rw [state, setById, AList.lookup_insert_ne h]; rfl

@[simp] theorem find_setById_self : (s.setById d).find d.qid = some d := by
  rw [find, setById, AList.lookup_insert]; rfl

@[simp] theorem find_setById_ne {q : DeploymentQid} (h : q ≠ d.qid) :
    (s.setById d).find q = s.find q := by
  rw [find, setById, AList.lookup_insert_ne h]; rfl

@[simp] theorem superseding_supersede_self : (s.supersede q by_).superseding q = some by_ :=
  AList.lookup_insert _

@[simp] theorem superseding_supersede_ne {q q' : DeploymentQid} (h : q' ≠ q) :
    (s.supersede q by_).superseding q' = s.superseding q' :=
  AList.lookup_insert_ne h

theorem mem_active_setActive : q' ∈ (s.setActive q).active ↔ q' = q ∨ q' ∈ s.active :=
  List.mem_insert_iff

theorem mem_active_unsetActive : q' ∈ (s.unsetActive q).active ↔ q' ∈ s.active ∧ q' ≠ q := by
  simp [unsetActive]

end Writes

theorem state_eq_map_find (s : Store) (q : DeploymentQid) :
    (s.find q).map Deployment.state = s.state q := by
  rw [find, state, Option.map_map]
  rfl

theorem find_eq_some {s : Store} {q : DeploymentQid} {d : Deployment} (h : s.find q = some d) :
    d.qid = q ∧ s.state q = some d.state := by
  rw [find, Option.map_eq_some_iff] at h
  obtain ⟨st, hst, rfl⟩ := h
  exact ⟨rfl, by rw [state, hst]; rfl⟩

end Store

end Cdb

end Skyr
