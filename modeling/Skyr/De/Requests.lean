import Skyr.De.Worker

/-!
# What an iteration asks for

An iteration of a worker only ever reads the resource databases, and everything it publishes to
the transition queues is in the name of its own deployment, about a resource of its own
environment, and goes to the queue of that resource's region.  This is so whatever is replied to
it, so it can be read off the code without regard to what the databases hold.

The configuration database is used in a few places only.  The parts of an iteration in between do
not touch it, and only one of them evaluates (`Evaluates`); the others just ask (`Asks`).  Those
that gather what there is to know do not publish anything either (`Reads`), and draining the effects
of an evaluation does nothing but publish (`Drains`).
-/

namespace Skyr

open Prog

variable [SclData]

/-- The deployment in whose name a message is sent; an adoption is in the name of the deployment
that takes over. -/
def Message.author : Message → DeploymentId
  | .create m => m.deploymentId
  | .restore m => m.deploymentId
  | .adopt m => m.toDeploymentId
  | .destroy m => m.deploymentId
  | .check m => m.deploymentId

namespace De

/-- A message of the deployment `q`. -/
structure Mine (q : DeploymentQid) (region : RegionId) (m : Message) : Prop where
  environment : m.resource.environmentQid = q.environment
  region : region = m.resource.resourceId.region
  author : m.author = q.deployment

/-- The requests of the parts of an iteration that neither use the configuration database nor
evaluate. -/
def Asks (q : DeploymentQid) : Op → Prop
  | .cdb _ => False
  | .rdb _ o => o.target = none
  | .enqueue region m => Mine q region m
  | .settle _ => False
  | .plugin _ _ => False
  | .eval _ _ => False
  | _ => True

/-- The requests of the part that evaluates. -/
def Evaluates (q : DeploymentQid) : Op → Prop
  | .eval _ _ => True
  | o => Asks q o

/-- The requests that do not even publish. -/
def Reads : Op → Prop
  | .cdb _ => False
  | .rdb _ o => o.target = none
  | .enqueue _ _ => False
  | .settle _ => False
  | .plugin _ _ => False
  | .eval _ _ => False
  | _ => True

/-- Those that publish what an evaluation announced: none of it is a destroy. -/
def Drains (q : DeploymentQid) : Op → Prop
  | .enqueue region m => Mine q region m ∧ ∀ d, m ≠ .destroy d
  | _ => False

section Parts

variable {wk : Worker} {q : DeploymentQid} {o : Op}

theorem asks_of_reads (h : Reads o) : Asks q o := by
  cases o with
  | enqueue region m => exact h.elim
  | _ => exact h

theorem evaluates_of_asks (h : Asks q o) : Evaluates q o := by
  cases o with
  | eval p ctx => trivial
  | _ => exact h

theorem asks_of_drains (h : Drains q o) : Asks q o := by
  cases o with
  | enqueue region m => exact h.1
  | _ => exact h.elim

theorem issues_asks {α : Type} {p : M α} (h : p.issues Reads) : p.issues (Asks q) :=
  issues_mono (fun _ => asks_of_reads) h

/-! ## Reading -/

theorem listResources_issues (c : Rdb.NamespaceClient) : c.listResources.issues Reads :=
  issues_bind (issues_rdb rfl) fun _ => trivial

theorem collectResources_issues (c : Rdb.NamespaceClient) : c.collectResources.issues Reads :=
  issues_bind (listResources_issues c) fun rows => issues_ofRows rows

theorem anyOpenCrash_issues (rows : List Rdb.Resource) : (anyOpenCrash wk rows).issues Reads := by
  induction rows with
  | nil => trivial
  | cons r rest ih =>
  rw [anyOpenCrash]
  split
  · exact ih
  refine ⟨trivial, fun crash => ?_⟩
  cases crash with
  | true => trivial
  | false => exact ih

theorem readSdbPreview_issues : (readSdbPreview wk).issues Reads := by
  refine issues_bind ⟨trivial, fun _ => trivial⟩ fun failures => ?_
  refine issues_bind ⟨trivial, fun _ => trivial⟩ fun openCrash => ?_
  refine issues_bind (issues_attempt (listResources_issues _)) fun r => ?_
  cases r with
  | error e => trivial
  | ok rows => exact issues_bind (anyOpenCrash_issues _) fun _ => trivial

theorem loadForeign_issues (v : View) (dep : RepoQid × DeploymentQid) :
    (loadForeign wk v dep).issues Reads := by
  have hlist : (Rdb.NamespaceClient.listResourcesByOwner
      ⟨wk.region, dep.2.environment.toString⟩ dep.2.toString).issues Reads :=
    issues_bind (issues_rdb rfl) fun _ => trivial
  refine issues_bind (issues_attempt hlist) fun r => ?_
  cases r with
  | error e => trivial
  | ok rows => exact issues_bind (issues_ofRows rows) fun _ => trivial

variable (resolution : Resolution)

theorem gather_issues : (gather wk resolution).issues Reads := by
  refine issues_bind (issues_foldlM (fun v dep _ => loadForeign_issues v dep) _) fun v => ?_
  refine issues_bind (collectResources_issues _) fun home => ?_
  refine issues_bind (issues_bind (issues_rdb rfl) fun rows => issues_ofRows rows) fun index => ?_
  exact issues_bind (issues_mapM fun region _ => collectResources_issues _) fun _ => trivial

/-! ## Publishing -/

theorem adoptMessage_drains {e : Effect} {fromOwner : String} {inputs : Json} {m : Message}
    (h : adoptMessage wk e fromOwner inputs = some m) :
    Drains wk.client (.enqueue e.id.region m) := by
  obtain ⟨d, -, rfl⟩ := Option.map_eq_some_iff.1 h
  exact ⟨⟨rfl, rfl, rfl⟩, nofun⟩

theorem effectMessage_drains {v : View} {e : Effect} {m : Message}
    (h : effectMessage wk v e = some m) : Drains wk.client (.enqueue e.id.region m) := by
  rw [effectMessage] at h
  split at h
  · obtain ⟨inputs, -, rfl⟩ := Option.map_eq_some_iff.1 h
    exact ⟨⟨rfl, rfl, rfl⟩, nofun⟩
  · obtain ⟨inputs, -, h⟩ := Option.bind_eq_some_iff.1 h
    split at h
    · exact adoptMessage_drains h
    · cases h
      exact ⟨⟨rfl, rfl, rfl⟩, nofun⟩
  split at h
  · obtain ⟨inputs, -, h⟩ := Option.bind_eq_some_iff.1 h
    exact adoptMessage_drains h
  split at h
  · cases h
    exact ⟨⟨rfl, rfl, rfl⟩, nofun⟩
  · cases h

theorem drainEffect_issues (v : View) (acc : Drained) (e : Effect) :
    (drainEffect wk v acc e).issues (Drains wk.client) := by
  rw [drainEffect]
  split
  · trivial
  split
  · trivial
  cases h : effectMessage wk v e with
  | none => trivial
  | some m =>
  refine issues_bind ?_ fun _ => trivial
  refine issues_bind (issues_attempt ⟨?_, fun r => issues_ofExcept r⟩) fun _ => trivial
  exact effectMessage_drains h

theorem drain_issues (v : View) (effects : List Effect) (acc : Drained) :
    (effects.foldlM (drainEffect wk v) acc).issues (Drains wk.client) :=
  issues_foldlM (fun acc e _ => drainEffect_issues v acc e) _

theorem evaluateIn_issues (asg : Program) (v : View) :
    (evaluateIn wk resolution asg v).issues (Evaluates wk.client) :=
  issues_bind ⟨trivial, fun _ => trivial⟩ fun evaluation => issues_bind
    (issues_mono (fun _ h => evaluates_of_asks (asks_of_drains h))
      (drain_issues v evaluation.effects .empty)) fun _ => trivial

theorem evaluate_issues (asg : Program) :
    (evaluate wk resolution asg).issues (Evaluates wk.client) :=
  issues_bind (issues_mono (fun _ h => evaluates_of_asks (asks_of_reads h))
    (gather_issues resolution)) fun v => evaluateIn_issues resolution asg v

theorem compileAndEvaluate_issues : (compileAndEvaluate wk).issues (Evaluates wk.client) := by
  refine issues_bind (issues_attempt ⟨trivial, fun r => issues_ofExcept r⟩) fun r => ?_
  cases r with
  | error e => trivial
  | ok resolution =>
  dsimp only
  split
  · exact issues_bind (issues_attempt (evaluate_issues ..)) fun _ => trivial
  refine issues_bind (issues_attempt ⟨trivial, fun r => issues_ofExcept r⟩) fun r => ?_
  cases r with
  | error e => trivial
  | ok compiled =>
  cases compiled with
  | errors message => trivial
  | program asg =>
  refine issues_bind (issues_attempt ?_) fun _ => trivial
  exact evaluate_issues resolution asg

theorem destroyResources_issues (ids : List ResourceId) :
    (ids.forM (destroyResource wk)).issues (Asks wk.client) :=
  issues_forM fun _ _ => ⟨⟨rfl, rfl, rfl⟩, fun r => issues_ofExcept r⟩

theorem destroyUntouched_issues (touched : List ResourceId) :
    (destroyUntouchedResources wk touched).issues (Asks wk.client) :=
  issues_bind (issues_asks (collectResources_issues _)) fun _ => destroyResources_issues _

theorem report_issues (region : RegionId) (report : Report) :
    (M.report region report).issues Reads :=
  ⟨trivial, fun r => issues_ofExcept r⟩

theorem publishTerminalReport_issues (report : Report) (attempts : ℕ) :
    (publishTerminalReport wk report attempts).issues Reads := by
  induction attempts with
  | zero => trivial
  | succ attempts ih =>
  refine issues_bind (issues_attempt (report_issues ..)) fun r => ?_
  cases r with
  | ok _ => trivial
  | error e => exact ih

theorem backingOff_issues (failureCount : ℕ) : (backingOff wk failureCount).issues Reads := by
  rw [backingOff]
  split
  · trivial
  split
  · trivial
  refine ⟨trivial, fun now => ?_⟩
  change Prog.issues _ (if _ then _ else _)
  split <;> trivial

theorem noteFailure_issues (result : WorkResult) : (noteFailure wk result).issues Reads := by
  rw [noteFailure]
  split
  · trivial
  split
  · trivial
  · exact ⟨trivial, fun _ => trivial⟩

end Parts

end De

end Skyr
