import Skyr.De.Parking
import Skyr.Rte.Ownership

/-!
# The daemon

A daemon of the deployment engine keeps one worker per deployment that is assigned to it.  Every
twenty seconds it lists the active deployments (`process`), starts a worker for each one that it
has not seen before, and forgets those that are no longer listed.  When the loop of a worker has
ended, the daemon takes note of it; such a worker is *idle*, and it is started again only when its
deployment has been superseded.

A worker's loop ends with the deployment down, or with nothing left to do (`De.Parking`).  Between
the two decisions there is a gap.  Supersession is not the only thing that can happen to a
deployment with an idle worker: a teardown of its environment, or the deletion of its ref, makes it
undesired and supersedes it by nothing, and then no worker ever takes it down (`Shop.left_idle`).
And a worker may go idle with resources that its program does not touch still around, their
destruction having been requested at best.

`attended_after_tick` is what holds otherwise: as long as the configuration database and the log
broker answer, nobody but a successor touches a deployment with an idle worker, and workers go idle
only when nothing is left over, every tick leaves every deployment that is not down with a worker,
or with nothing to do.
-/

namespace Skyr.De

open Prog

variable [SclData]

open Cdb DeploymentState

/-! ## One tick -/

/-- The configuration of a daemon. -/
structure Daemon where
  region : RegionId
  workerIndex : UInt16
  workerCount : UInt16

/-- What the daemon remembers about a deployment.  A sender whose worker has left its loop is
closed, but the daemon does not know before it looks. -/
inductive Slot
  /-- There is a sender, and the loop of the worker goes on. -/
  | running (wk : Worker)
  /-- There is a sender, and the loop has ended. -/
  | exited
  | idle

/-- The daemon finds a closed sender. -/
def Slot.notice : Slot → Slot
  | .exited => .idle
  | slot => slot

/-- The workers a daemon knows. -/
abbrev Slots : Type := DeploymentQid → Option Slot

/-- Whether a deployment is assigned to the worker with an index: the first sixteen digits of its
commit, modulo the number of workers. -/
def deploymentOwnedByWorker (d : DeploymentId) (workerIndex workerCount : UInt16) : Bool :=
  if workerCount ≤ 1 then true
  else hexValue (d.commit.toString.toList.take 16) % workerCount.toNat == workerIndex.toNat

namespace Daemon

variable (daemon : Daemon)

def owns (d : DeploymentId) : Bool :=
  deploymentOwnedByWorker d daemon.workerIndex daemon.workerCount

/-- A new worker. -/
def spawn (q : DeploymentQid) : Worker where
  client := q
  region := daemon.region
  lastFailure := none
  cachedCompile := none
  terminalReported := false
  lastObservedState := none

end Daemon

/-- Whether a deployment gets a new worker. -/
def shouldSpawn (q : DeploymentQid) : Option Slot → M Bool
  | some .idle => do return (← DeploymentClient.getSuperseding q).isSome
  | some _ => return false
  | none => return true

/-- Go through the deployments.  `topics` says for which of them the log topic can be opened; one
without is skipped.  What has been done before an error stays done. -/
def visit (daemon : Daemon) (topics : DeploymentQid → Bool) :
    List Deployment → Slots → M (Except String Unit × Slots)
  | [], workers => return (.ok (), workers)
  | d :: rest, workers => do
    match ← (shouldSpawn d.qid (workers d.qid)).attempt with
    | .error e => return (.error e, workers)
    | .ok spawns =>
      visit daemon topics rest
        (if spawns && topics d.qid then
          Function.update workers d.qid (some (.running (daemon.spawn d.qid)))
        else workers)

/-- One tick.  The list of deployments may break off; what it has yielded by then is gone through
all the same. -/
def process (daemon : Daemon) (topics : DeploymentQid → Bool) (workers : Slots) :
    M (Except String Unit × Slots) := do
  match ← activeDeployments.attempt with
  | .error e => return (.error e, workers)
  | .ok rows =>
    let deployments := rows.items.filter fun d => daemon.owns d.qid.deployment
    let (result, workers) ← visit daemon topics deployments fun q => (workers q).map Slot.notice
    match result, rows.error with
    | .error e, _ => return (.error e, workers)
    | .ok _, some e => return (.error e, workers)
    | .ok _, none =>
      return (.ok (), fun q => if q ∈ deployments.map Deployment.qid then workers q else none)

/-! ## The daemon and what goes on around it -/

/-- The daemon with its workers, and the world. -/
structure Engine where
  world : World
  workers : Slots

/-- What can happen, one after the other.  `turns` are the decisions of the surroundings. -/
inductive Event
  | push (q : DeploymentQid) (turns : ℕ → World.sem.Turn)
  | deleteRef (env : EnvironmentQid) (oldCommit : ObjId) (turns : ℕ → World.sem.Turn)
  | tearDown (env : EnvironmentQid) (turns : ℕ → World.sem.Turn)
  | iterate (q : DeploymentQid) (fuel : ℕ) (turns : ℕ → World.sem.Turn)
  | tick (topics : DeploymentQid → Bool) (turns : ℕ → World.sem.Turn)
  /-- A transition engine gets some way with a message. -/
  | deliver (ctx : Rte.WorkerContext) (d : Rte.Delivery)

namespace Engine

/-- A daemon that has just been started. -/
def start (w : World) : Engine := ⟨w, fun _ => none⟩

/-- The worker `wk` of `q` has made an iteration. -/
def iterated (s : Engine) (q : DeploymentQid) (r : Except String (Bool × Worker) × World) :
    Engine where
  world := r.2
  workers := match r.1 with
    | .ok (stop, wk) => Function.update s.workers q (some (if stop then .exited else .running wk))
    | .error _ => s.workers

def step (daemon : Daemon) (s : Engine) : Event → Engine
  | .push q ts => { s with world := ((DeploymentClient.makeDesired q).run World.sem ts s.world).2 }
  | .deleteRef env oldCommit ts =>
    { s with world := ((Cdb.deleteRef env oldCommit).run World.sem ts s.world).2 }
  | .tearDown env ts => { s with world := ((tearDownEnvironment env).run World.sem ts s.world).2 }
  | .iterate q fuel ts =>
    match s.workers q with
    | some (.running wk) => s.iterated q ((workAndReport fuel wk).run World.sem ts s.world)
    | _ => s
  | .tick topics ts =>
    let r := (process daemon topics s.workers).run World.sem ts s.world
    { world := r.2
      workers := match r.1 with
        | .ok (_, workers) => workers
        | .error _ => s.workers }
  | .deliver ctx d => { s with world := Rte.deliver ctx s.world d }

def run (daemon : Daemon) (s : Engine) (es : List Event) : Engine := es.foldl (step daemon) s

end Engine

/-! ## What is to hold -/

/-- Where the row of a resource of a deployment's environment is. -/
def rowOf (q : DeploymentQid) (id : ResourceId) : Rdb.ResourceClient :=
  ⟨id.region, q.environment.toString, id.typ, id.name⟩

/-- Every resource of a deployment that is not sticky is among `ids`. -/
def Tidy (w : World) (q : DeploymentQid) (ids : List ResourceId) : Prop :=
  ∀ id row, (rowOf q id).stored w = some row → row.owner = some q.toString → ¬Sticky row → id ∈ ids

/-- The deployment has a worker, or there is nothing to do for one. -/
def Attended (s : Engine) (q : DeploymentQid) : Prop :=
  (∃ wk, s.workers q = some (.running wk)) ∨
    (Settled s.world.cdb q ∧ Tidy s.world q (touched s.world q))

/-- The loop of the deployment's worker has ended, whether the daemon knows it or not. -/
def Parked (s : Engine) (q : DeploymentQid) : Prop :=
  s.workers q = some .exited ∨ s.workers q = some .idle

/-- A message in the name of a deployment, or about a resource of it. -/
def Concerns (w : World) (ctx : Rte.WorkerContext) (m : Message) (q : DeploymentQid) : Prop :=
  Rte.deploymentQid m.resource.environmentQid m.author = q.toString ∨
    Rte.storedOwner (Rte.resourceClient ctx m.resource) w = some q.toString

/-- The condition on an event.  The configuration database and the log broker answer.  A deployment
with a parked worker may be superseded, but it is not made desired or undesired otherwise.  When a
worker parks, all that its deployment has before the iteration is sticky or touched in it; and
afterwards no message by the deployment or about its resources arrives, except for resources in the
touched set. -/
def Admits (daemon : Daemon) (s : Engine) : Event → Prop
  | .push q ts => (∀ n, (ts n).Within Answers) ∧ ¬Parked s q
  | .deleteRef env oldCommit ts => (∀ n, (ts n).Within Answers) ∧
    ∀ q, q.environment = env → q.deployment.commit = oldCommit →
      s.world.cdb.state q ≠ some down → s.world.cdb.superseding q = none → ¬Parked s q
  | .tearDown env ts => (∀ n, (ts n).Within Answers) ∧
    ∀ q, q.environment = env → s.world.cdb.state q = some desired →
      s.world.cdb.superseding q = none → ¬Parked s q
  | .iterate q fuel ts => (∀ n, (ts n).Within Answers) ∧
    (Parked (s.step daemon (.iterate q fuel ts)) q →
      Tidy s.world q (touched (s.step daemon (.iterate q fuel ts)).world q))
  | .tick topics ts => (∀ n, (ts n).Within Answers) ∧ ∀ q, topics q = true
  | .deliver ctx d => ∀ q, Parked s q → Concerns s.world ctx d.message q →
    ∀ id, rowOf q id = Rte.resourceClient ctx d.message.resource → id ∈ touched s.world q

/-- Every event of a run meets the condition. -/
def Meets (daemon : Daemon) : Engine → List Event → Prop
  | _, [] => True
  | s, e :: es => Admits daemon s e ∧ Meets daemon (s.step daemon e) es

/-! ## What a tick does -/

section Tick

variable {daemon : Daemon} {w : World}

/-- What a tick makes of the slot of a deployment that is listed. -/
def attend (daemon : Daemon) (w : World) (q : DeploymentQid) : Option Slot → Option Slot
  | none => some (.running (daemon.spawn q))
  | some .idle =>
    if (w.cdb.superseding q).isSome then some (.running (daemon.spawn q)) else some .idle
  | some slot => some slot

theorem attend_attend (q : DeploymentQid) (slot : Option Slot) :
    attend daemon w q (attend daemon w q slot) = attend daemon w q slot := by
  cases slot with
  | none => rfl
  | some slot =>
  cases slot with
  | running | exited => rfl
  | idle =>
  rw [attend]
  split
  · rfl
  · next h => rw [attend, if_neg h]

variable (daemon) in
theorem ends_shouldSpawn (q : DeploymentQid) (slot : Option Slot) :
    Ends (shouldSpawn q slot) (fun r w' => w' = w ∧ ∃ spawns, r = .ok spawns ∧
      attend daemon w q slot =
        if spawns then some (.running (daemon.spawn q)) else slot) w := by
  cases slot with
  | none => exact ⟨rfl, _, rfl, rfl⟩
  | some slot =>
  cases slot with
  | running | exited => exact ⟨rfl, _, rfl, rfl⟩
  | idle =>
  refine always_bind.2 (ends_getSuperseding ⟨rfl, _, rfl, ?_⟩)
  rw [Option.isSome_map]
  rfl

section

variable {topics : DeploymentQid → Bool} (htopics : ∀ q, topics q = true)

include htopics

/-- The slots of the deployments that are gone through are attended to, the others stay. -/
theorem ends_visit (ds : List Deployment) (workers : Slots) :
    Ends (visit daemon topics ds workers) (fun r w' => w' = w ∧
      ∃ workers', r = .ok (.ok (), workers') ∧
      ∀ q, workers' q =
        if q ∈ ds.map Deployment.qid then attend daemon w q (workers q) else workers q) w := by
  induction ds generalizing workers with
  | nil => exact ⟨rfl, workers, rfl, fun q => rfl⟩
  | cons d ds ih =>
  refine always_bind.2 (always_attempt.2 (always_mono
    (ends_shouldSpawn daemon d.qid (workers d.qid)) ?_))
  rintro r w' ⟨rfl, spawns, rfl, hspawns⟩
  refine always_mono (ih _) ?_
  rintro r w'' ⟨rfl, workers', rfl, hworkers'⟩
  refine ⟨rfl, workers', rfl, fun q => ?_⟩
  have hd : ∀ q, (if spawns && topics d.qid then
      Function.update workers d.qid (some (.running (daemon.spawn d.qid))) else workers) q =
      if q = d.qid then attend daemon w'' q (workers q) else workers q := by
    intro q
    rw [htopics, Bool.and_true]
    by_cases hq : q = d.qid
    · subst hq
      rw [if_pos rfl, hspawns]
      split
      · exact Function.update_self ..
      · rfl
    rw [if_neg hq]
    split
    · exact Function.update_of_ne hq ..
    · rfl
  rw [hworkers' q, hd q, List.map_cons]
  by_cases hq : q = d.qid
  · rw [if_pos hq, if_pos (List.mem_cons.2 (.inl hq)), attend_attend, ite_self]
  · rw [if_neg hq]
    exact if_congr (by simp [hq]) rfl rfl

/-- The deployments a tick goes through. -/
def listed (daemon : Daemon) (w : World) : List DeploymentQid :=
  ((w.cdb.active.filterMap w.cdb.find).filter fun d => daemon.owns d.qid.deployment).map
    Deployment.qid

variable (daemon) in
theorem ends_process (workers : Slots) :
    Ends (process daemon topics workers) (fun r w' => w' = w ∧
      ∃ workers', r = .ok (.ok (), workers') ∧
      ∀ q, workers' q = if q ∈ listed daemon w
        then attend daemon w q ((workers q).map Slot.notice) else none) w := by
  refine always_bind.2 (always_attempt.2 (ends_active ?_))
  refine always_bind.2 (always_mono (ends_visit htopics _ _) ?_)
  rintro r w' ⟨rfl, workers', rfl, hworkers'⟩
  refine ⟨rfl, _, rfl, fun q => ?_⟩
  refine ite_congr rfl (fun hq => ?_) fun _ => rfl
  rw [hworkers' q]
  exact if_pos hq

end

end Tick

/-! ## What every run keeps

A deployment without a worker rests.  Whatever wakes it is seen by the next tick of the daemon. -/

/-- There is nothing to do for the worker of a deployment, or the next tick will find that there
is. -/
def Resting (w : World) (q : DeploymentQid) : Prop :=
  w.cdb.state q = some down ∨ (w.cdb.superseding q).isSome ∨
    (Settled w.cdb q ∧ Tidy w q (touched w q))

/-- The active index is complete, a running worker can go on, and a parked one is not needed. -/
structure Inv (s : Engine) : Prop where
  indexed : Indexed s.world.cdb
  alive : ∀ q wk, s.workers q = some (.running wk) → wk.client = q ∧ wk.Alive
  resting : ∀ q, Parked s q → Resting s.world q

section Invariant

variable {daemon : Daemon} {s : Engine} {w w' : World} {q : DeploymentQid}

theorem touched_congr (h : lastEvaluation w' q = lastEvaluation w q) :
    touched w' q = touched w q := by
  rw [touched, touched, h]

theorem tidy_congr {ids : List ResourceId} (h : w'.rdb = w.rdb) : Tidy w' q ids ↔ Tidy w q ids := by
  have hrow : ∀ id, (rowOf q id).stored w' = (rowOf q id).stored w := fun id =>
    Rdb.ResourceClient.stored_congr _ h
  simp only [Tidy, hrow]

/-- A deployment that is spared goes on resting. -/
theorem Resting.spared {X : DeploymentQid → Prop} (h : Resting w q)
    (hcdb : Spared X w.cdb w'.cdb) (hX : X q ∨ (w.cdb.superseding q).isSome)
    (hrdb : w'.rdb = w.rdb) (hlast : lastEvaluation w' q = lastEvaluation w q) :
    Resting w' q := by
  cases hby : w'.cdb.superseding q with
  | some by_ => exact .inr (.inl (by rw [hby]; rfl))
  | none =>
  have hnone : ¬(w.cdb.superseding q).isSome := fun hsome => by
    have hsome' := hcdb.superseded q hsome
    rw [hby] at hsome'
    cases hsome'
  have hrow := hcdb.row q (hX.resolve_right hnone) hby
  rcases h with hdown | hsome | ⟨hset, htidy⟩
  · left
    rwa [← Store.state_eq_map_find, hrow, Store.state_eq_map_find]
  · exact absurd hsome hnone
  refine .inr (.inr ⟨⟨hrow.trans hset.row, hby⟩, ?_⟩)
  rw [touched_congr hlast]
  exact (tidy_congr hrdb).2 htidy

/-- A program from outside that spares the parked deployments. -/
theorem Inv.moved {X : DeploymentQid → Prop} (h : Inv s) (hmoved : Moved X s.world w')
    (hX : ∀ q, Parked s q → X q ∨ (s.world.cdb.superseding q).isSome) :
    Inv { s with world := w' } := by
  obtain ⟨store, rfl, hspared⟩ := hmoved
  exact ⟨hspared.indexed h.indexed, h.alive, fun q hq =>
    (h.resting q hq).spared hspared (hX q hq) rfl rfl⟩

theorem not_parked {wk : Worker} (h : s.workers q = some (.running wk)) : ¬Parked s q := by
  rintro (hq | hq)
  · rw [h] at hq
    cases hq
  · rw [h] at hq
    cases hq

theorem Inv.iterated (h : Inv s) {wk : Worker} (hwk : s.workers q = some (.running wk))
    {r : Except String (Bool × Worker) × World} (hstays : Stays q s.world r.2)
    (hr : ∀ stop wk', r.1 = .ok (stop, wk') → wk'.client = q ∧
      if stop then r.2.cdb.state q = some down ∨ Settled r.2.cdb q else wk'.Alive)
    (htidy : Parked (s.iterated q r) q → Tidy s.world q (touched r.2 q)) :
    Inv (s.iterated q r) := by
  have hspared : ∀ q' ≠ q, Parked s q' → Resting r.2 q' := fun q' hne hq' =>
    (h.resting q' hq').spared hstays.cdb (.inl hne) hstays.rdb (hstays.evaluations q' hne)
  obtain ⟨r, w'⟩ := r
  cases r with
  | error e =>
    refine ⟨hstays.cdb.indexed h.indexed, h.alive, fun q' hq' => hspared q' ?_ hq'⟩
    rintro rfl
    exact not_parked hwk hq'
  | ok res =>
  obtain ⟨stop, wk'⟩ := res
  obtain ⟨hclient, hstop⟩ := hr stop wk' rfl
  have hself : (s.iterated q (.ok (stop, wk'), w')).workers q =
      some (if stop then .exited else .running wk') := Function.update_self ..
  have hother : ∀ q' ≠ q, (s.iterated q (.ok (stop, wk'), w')).workers q' = s.workers q' :=
    fun q' hne => Function.update_of_ne hne ..
  refine ⟨hstays.cdb.indexed h.indexed, fun q' wk'' hq' => ?_, fun q' hq' => ?_⟩
  · by_cases hne : q' = q
    · subst hne
      rw [hself] at hq'
      cases stop with
      | true => cases hq'
      | false =>
      cases hq'
      exact ⟨hclient, hstop⟩
    · rw [hother q' hne] at hq'
      exact h.alive q' wk'' hq'
  by_cases hne : q' = q
  · subst hne
    cases stop with
    | false => exact absurd hq' (not_parked hself)
    | true =>
    rcases hstop with hdown | hset
    · exact .inl hdown
    · exact .inr (.inr ⟨hset, (tidy_congr hstays.rdb).2 (htidy hq')⟩)
  refine hspared q' hne ?_
  rw [Parked, hother q' hne] at hq'
  exact hq'

variable (daemon w) in
/-- A deployment that is listed has a worker after the tick, unless its worker had parked and
nothing supersedes it. -/
theorem attend_cases (q : DeploymentQid) (slot : Option Slot) :
    (∃ wk, attend daemon w q (slot.map Slot.notice) = some (.running wk) ∧
      (wk = daemon.spawn q ∨ slot = some (.running wk))) ∨
    (attend daemon w q (slot.map Slot.notice) = some .idle ∧ w.cdb.superseding q = none ∧
      (slot = some .exited ∨ slot = some .idle)) := by
  have hidle : (attend daemon w q (some .idle) = some (.running (daemon.spawn q))) ∨
      (attend daemon w q (some .idle) = some .idle ∧ w.cdb.superseding q = none) := by
    rw [attend]
    split
    · exact .inl rfl
    · next h => exact .inr ⟨rfl, Option.not_isSome_iff_eq_none.1 h⟩
  cases slot with
  | none => exact .inl ⟨_, rfl, .inl rfl⟩
  | some slot =>
  cases slot with
  | running wk => exact .inl ⟨wk, rfl, .inr rfl⟩
  | exited => exact hidle.imp (fun h => ⟨_, h, .inl rfl⟩) fun h => ⟨h.1, h.2, .inl rfl⟩
  | idle => exact hidle.imp (fun h => ⟨_, h, .inl rfl⟩) fun h => ⟨h.1, h.2, .inr rfl⟩

/-- The slots after a tick. -/
def Ticked (daemon : Daemon) (s : Engine) (workers : Slots) : Prop :=
  ∀ q, workers q = if q ∈ listed daemon s.world
    then attend daemon s.world q ((s.workers q).map Slot.notice) else none

theorem Inv.ticked (h : Inv s) {workers : Slots} (hworkers : Ticked daemon s workers) :
    Inv ⟨s.world, workers⟩ := by
  have hcases : ∀ q slot, workers q = some slot →
      (∃ wk, slot = .running wk ∧ (wk = daemon.spawn q ∨ s.workers q = some (.running wk))) ∨
      (slot = .idle ∧ Parked s q) := by
    intro q slot hq
    rw [hworkers q] at hq
    split at hq
    · rcases attend_cases daemon s.world q (s.workers q) with
        ⟨wk, hwk, hor⟩ | ⟨hidle, -, hparked⟩
      · rw [hwk] at hq
        exact .inl ⟨wk, (Option.some.inj hq).symm, hor⟩
      · rw [hidle] at hq
        exact .inr ⟨(Option.some.inj hq).symm, hparked⟩
    · cases hq
  refine ⟨h.indexed, fun q wk hq => ?_, fun q hq => ?_⟩
  · rcases hcases q _ hq with ⟨wk', hwk', hor⟩ | ⟨hidle, -⟩
    · obtain rfl := Slot.running.inj hwk'
      rcases hor with rfl | hor
      · exact ⟨rfl, rfl, nofun⟩
      · exact h.alive q wk hor
    · cases hidle
  obtain ⟨slot, hslot, hne⟩ : ∃ slot, workers q = some slot ∧ ∀ wk, slot ≠ .running wk := by
    rcases hq with hq | hq <;> exact ⟨_, hq, nofun⟩
  rcases hcases q slot hslot with ⟨wk, hwk, -⟩ | ⟨-, hparked⟩
  · exact absurd hwk (hne wk)
  · exact h.resting q hparked

/-- After a tick, what is not down and assigned to the daemon is attended to. -/
theorem Inv.attended (h : Inv s) {workers : Slots} (hworkers : Ticked daemon s workers)
    (howned : daemon.owns q.deployment = true) {state : DeploymentState}
    (hstate : s.world.cdb.state q = some state) (hdown : state ≠ down) :
    Attended ⟨s.world, workers⟩ q := by
  have hlisted : q ∈ listed daemon s.world := by
    rw [← Store.state_eq_map_find] at hstate
    obtain ⟨d, hd, -⟩ := Option.map_eq_some_iff.1 hstate
    obtain rfl := (Store.find_eq_some hd).1
    rw [Store.state_eq_map_find] at hstate
    refine List.mem_map.2 ⟨d, List.mem_filter.2 ⟨?_, howned⟩, rfl⟩
    exact List.mem_filterMap.2 ⟨d.qid, h.indexed d.qid state hstate hdown, hd⟩
  have hslot := hworkers q
  rw [if_pos hlisted] at hslot
  rcases attend_cases daemon s.world q (s.workers q) with
    ⟨wk, hwk, -⟩ | ⟨-, hnone, hparked⟩
  · exact .inl ⟨wk, hslot.trans hwk⟩
  rcases h.resting q hparked with hstate' | hsome | hset
  · rw [hstate] at hstate'
    exact absurd (Option.some.inj hstate') hdown
  · rw [hnone] at hsome
    cases hsome
  · exact .inr hset

/-- A delivery leaves the configuration database and the evaluations alone. -/
theorem deliver_same (ctx : Rte.WorkerContext) (w : World) (d : Rte.Delivery) :
    (Rte.deliver ctx w d).cdb = w.cdb ∧ (Rte.deliver ctx w d).evaluations = w.evaluations := by
  refine exec_rel (R := fun w w' : World => w'.cdb = w.cdb ∧ w'.evaluations = w.evaluations)
    (fun _ => ⟨rfl, rfl⟩) (fun _ _ _ h h' => ⟨h'.1.trans h.1, h'.2.trans h.2⟩) (fun w o a h _ => ?_)
    (Rte.workerLoopIteration_licensed ctx d.message w) (Rte.within_anything d.turns)
  cases o with
  | cdb | eval => exact h.elim
  | _ => exact ⟨rfl, rfl⟩

/-- A row that belongs to a deployment after a message belonged to it before, or the message was in
its name. -/
theorem concerns_of_rowStep {ctx : Rte.WorkerContext} {m : Message} {row : Rdb.Row}
    (h : Rte.RowStep m ((Rte.resourceClient ctx m.resource).stored w) (some row))
    (hown : row.owner = some q.toString) : Concerns w ctx m q := by
  rw [Concerns, Rte.storedOwner]
  generalize (Rte.resourceClient ctx m.resource).stored w = before at h
  cases h with
  | same => exact .inr hown
  | created d r hm hr | adopted d r r' hm _ hr =>
    subst hm
    exact .inl (Option.some.inj (hr.symm.trans hown))
  | kept r r' hr => exact .inr (hr.symm.trans hown)

theorem Inv.delivered (h : Inv s) {ctx : Rte.WorkerContext} {d : Rte.Delivery}
    (hadmits : Admits daemon s (.deliver ctx d)) : Inv (s.step daemon (.deliver ctx d)) := by
  obtain ⟨hcdb, hevals⟩ := deliver_same ctx s.world d
  have htouched : ∀ q, touched (Rte.deliver ctx s.world d) q = touched s.world q := fun q =>
    touched_congr (by rw [lastEvaluation, lastEvaluation, hevals])
  refine ⟨?_, h.alive, fun q hq => ?_⟩
  · change Indexed (Rte.deliver ctx s.world d).cdb
    rw [hcdb]
    exact h.indexed
  change Resting (Rte.deliver ctx s.world d) q
  rw [Resting, hcdb, htouched]
  refine (h.resting q hq).imp_right (Or.imp_right (And.imp_right
    fun htidy id row hrow hown hst => ?_))
  have hstep := Rte.exec_stepped ctx s.world d
  by_cases hid : rowOf q id = Rte.resourceClient ctx d.message.resource
  · have hown' : Rte.RowStep d.message _ _ := hstep.own
    change (rowOf q id).stored (d.progress ctx s.world).2 = some row at hrow
    rw [← hid, hrow, hid] at hown'
    exact hadmits q hq (concerns_of_rowStep hown' hown) id hid
  · exact htidy id row ((hstep.others _ hid).symm.trans hrow) hown hst

/-- A tick that gets through changes the slots and nothing else. -/
theorem step_tick {topics : DeploymentQid → Bool} {ts : ℕ → World.sem.Turn}
    (h : Admits daemon s (.tick topics ts)) :
    ∃ workers, Ticked daemon s workers ∧ s.step daemon (.tick topics ts) = ⟨s.world, workers⟩ := by
  obtain ⟨hworld, workers, hr, hworkers⟩ := always_run (ends_process daemon h.2 s.workers) h.1
  refine ⟨workers, hworkers, ?_⟩
  rw [Engine.step, hworld, hr]

/-- **One step.**  An event that meets the condition keeps the invariant. -/
theorem Inv.step (h : Inv s) {e : Event} (hadmits : Admits daemon s e) : Inv (s.step daemon e) := by
  cases e with
  | push q ts =>
    obtain ⟨hts, hq⟩ := hadmits
    refine h.moved (always_run (ends_makeDesired q) hts) fun q' hq' => .inl ?_
    rintro rfl
    exact hq hq'
  | deleteRef env oldCommit ts =>
    obtain ⟨hts, hq⟩ := hadmits
    refine h.moved (always_run (ends_deleteRef env oldCommit) hts) fun q hparked => ?_
    by_contra hor
    obtain ⟨hX, hsome⟩ := not_or.1 hor
    obtain ⟨henv, hcommit, hstate⟩ := not_not.1 hX
    exact hq q henv hcommit hstate (Option.not_isSome_iff_eq_none.1 hsome) hparked
  | tearDown env ts =>
    obtain ⟨hts, hq⟩ := hadmits
    refine h.moved (always_run (ends_tearDown env) hts) fun q hparked => ?_
    by_contra hor
    obtain ⟨hX, hsome⟩ := not_or.1 hor
    obtain ⟨henv, hstate⟩ := not_not.1 hX
    exact hq q henv hstate (Option.not_isSome_iff_eq_none.1 hsome) hparked
  | iterate q fuel ts =>
    obtain ⟨hts, htidy⟩ := hadmits
    rw [Engine.step] at htidy ⊢
    split at htidy
    · next wk hwk =>
      obtain ⟨rfl, halive⟩ := h.alive q wk hwk
      obtain ⟨hstays, hr⟩ := always_run (ends_workAndReport fuel halive) hts
      exact h.iterated hwk hstays hr htidy
    · exact h
  | tick topics ts =>
    obtain ⟨workers, hworkers, heq⟩ := step_tick hadmits
    rw [heq]
    exact h.ticked hworkers
  | deliver ctx d => exact h.delivered hadmits

/-- A run that meets the condition keeps the invariant. -/
theorem Inv.run (h : Inv s) {es : List Event} (hmeets : Meets daemon s es) :
    Inv (s.run daemon es) := by
  induction es generalizing s with
  | nil => exact h
  | cons e es ih => exact ih (h.step hmeets.1) hmeets.2

theorem meets_append {es es' : List Event} (h : Meets daemon s (es ++ es')) :
    Meets daemon s es ∧ Meets daemon (s.run daemon es) es' := by
  induction es generalizing s with
  | nil => exact ⟨trivial, h⟩
  | cons e es ih =>
  obtain ⟨hmeets, hrest⟩ := ih h.2
  exact ⟨⟨h.1, hmeets⟩, hrest⟩

theorem inv_start (h : Indexed w.cdb) : Inv (Engine.start w) :=
  ⟨h, fun _ _ h => (nomatch h), fun _ h => h.elim (fun h => (nomatch h)) fun h => (nomatch h)⟩

end Invariant

/-- **Nobody is forgotten.**  A daemon starts in any world whose active index is complete.  In every
run whose events meet the condition, after every tick, each deployment that is assigned to the
daemon and not down has a running worker, or is desired, not superseded and bootstrapped and owns
nothing that is neither sticky nor touched by its last evaluation. -/
theorem attended_after_tick (daemon : Daemon) (w : World) (hindexed : Indexed w.cdb)
    (es : List Event) (topics : DeploymentQid → Bool) (ts : ℕ → World.sem.Turn)
    (hmeets : Meets daemon (.start w) (es ++ [.tick topics ts])) (q : DeploymentQid)
    (howned : daemon.owns q.deployment = true) (state : DeploymentState)
    (hstate : (Engine.run daemon (.start w) (es ++ [.tick topics ts])).world.cdb.state q =
      some state) (hdown : state ≠ down) :
    Attended (Engine.run daemon (.start w) (es ++ [.tick topics ts])) q := by
  obtain ⟨hbefore, htick, -⟩ := meets_append hmeets
  have hinv := (inv_start hindexed).run hbefore
  obtain ⟨workers, hworkers, heq⟩ := step_tick htick
  have hrun : Engine.run daemon (.start w) (es ++ [.tick topics ts]) =
      ⟨(Engine.run daemon (.start w) es).world, workers⟩ := by
    rw [← heq, Engine.run, List.foldl_append]
    rfl
  rw [hrun] at hstate ⊢
  exact hinv.attended hworkers howned hstate hdown

end Skyr.De

/-! ## An idle worker

A repository without a program: the worker of its deployment has nothing to do and goes idle.  Then
the environment is torn down. -/

namespace Skyr.De.Shop

local instance : SclData := .nat

def daemon : Daemon := ⟨⟨"eu"⟩, 0, 1⟩

def first : DeploymentQid := shopWorker.client

/-- The deployment of the next commit. -/
def second : DeploymentQid := ⟨first.environment, ⟨⟨2⟩, ⟨2⟩⟩⟩

def push (q : DeploymentQid) : Event := .push q fun _ => calm

def tick : Event := .tick (fun _ => true) fun _ => calm

def iterate (q : DeploymentQid) : Event := .iterate q 8 fun _ => calm

def tearDown : Event := .tearDown first.environment fun _ => calm

/-- The engine after some events, from nothing. -/
def after (es : List Event) : Engine := Engine.run daemon (.start .empty) es

/-- Pushed, looked after once, and idle. -/
def idling : List Event := [push first, tick, iterate first, tick]

/-- The worker is idle, the environment is torn down, and the next tick leaves the deployment
undesired and without a worker. -/
theorem left_idle :
    daemon.owns first.deployment = true ∧ (after idling).workers first = some .idle ∧
    (after (idling ++ [tearDown, tick])).world.cdb.state first = some .undesired ∧
    ¬Attended (after (idling ++ [tearDown, tick])) first := by
  have hstate : (after (idling ++ [tearDown, tick])).world.cdb.state first = some .undesired := rfl
  have hidle : (after (idling ++ [tearDown, tick])).workers first = some .idle := rfl
  refine ⟨rfl, rfl, hstate, ?_⟩
  rintro (⟨wk, hwk⟩ | ⟨hset, -⟩)
  · rw [hidle] at hwk
    cases hwk
  · rw [← Cdb.Store.state_eq_map_find, hset.row] at hstate
    cases hstate

/-- A successor is pushed instead. -/
def succession : List Event := idling ++ [push second]

theorem succession_meets : Meets daemon (.start .empty) (succession ++ [tick]) := by
  have hcalm : ∀ n : ℕ, ((fun _ => calm) n : World.sem.Turn).Within Cdb.Answers :=
    fun _ => Cdb.calm_answers
  refine ⟨⟨hcalm, ?_⟩, ⟨hcalm, fun _ => rfl⟩, ⟨hcalm, ?_⟩, ⟨hcalm, fun _ => rfl⟩, ⟨hcalm, ?_⟩,
    ⟨hcalm, fun _ => rfl⟩, trivial⟩
  · rintro (h | h)
    · cases h
    · cases h
  · intro _ id row hrow
    cases hrow
  rintro (h | h)
  · cases h
  · cases h

/-- Then the first deployment, which lingers, has a worker again. -/
theorem attended_after_succession :
    Cdb.Indexed World.empty.cdb ∧ Meets daemon (.start .empty) (succession ++ [tick]) ∧
    daemon.owns first.deployment = true ∧
    (after (succession ++ [tick])).world.cdb.state first = some .lingering ∧
    Attended (after (succession ++ [tick])) first :=
  have hindexed : Cdb.Indexed World.empty.cdb := fun _ _ h => nomatch h
  have hstate : (after (succession ++ [tick])).world.cdb.state first = some .lingering := rfl
  ⟨hindexed, succession_meets, rfl, hstate, attended_after_tick daemon .empty hindexed succession
    (fun _ => true) (fun _ => calm) succession_meets first rfl .lingering hstate nofun⟩

end Skyr.De.Shop
