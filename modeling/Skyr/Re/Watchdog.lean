import Skyr.Lib.Amid
import Skyr.Re.Pipeline

/-!
# The watchdog

Beside the processing of reports a worker sweeps, from time to time, over what it remembers of the
entities it has heard of, and opens an incident for each that has been silent for too long.  A
sweep works on a copy of that memory, so an entity may be gone by the time its incident is opened.

The last report about an entity closes its incidents, and removes its summary and what is
remembered of it.  Here this is put next to everything else a worker does at the same time: other
reports, earlier ones that are delivered again, and sweeps, request by request.

* `last_report_clears` follows the last report through whatever the others do, as long as they
  leave the rows of its entity alone.
* `gone_for_good` gives what the others have to keep to for this: when the last report is begun no
  other report about its entity and no sweep that has found it overdue is in progress, no report
  about it is begun later, and no sweep finds it overdue before the last report is done.
* `Watched` has runs in which an entity that is gone is heard of again.
-/

namespace Skyr.Re

open List Prog

open Sdb (statusSummary upsertStatusSummary deleteStatusSummary findOpenIncidentId
  listOpenIncidentsForEntity incidentInEnv openIncident closeIncident)

/-! ## Sweeps -/

/-- How long an entity may be silent, by its operational state.  Nothing is expected of an entity
that has come to its end. -/
structure CadenceConfig where
  deploymentDesired : ℕ
  deploymentUndesired : ℕ
  deploymentLingering : ℕ
  deploymentDown : Option ℕ
  resourcePending : ℕ
  resourceLive : ℕ
  resourceDestroyed : Option ℕ

namespace CadenceConfig

def default : CadenceConfig where
  deploymentDesired := 60 * 1000
  deploymentUndesired := 5 * 60 * 1000
  deploymentLingering := 30 * 60 * 1000
  deploymentDown := none
  resourcePending := 60 * 1000
  resourceLive := 10 * 60 * 1000
  resourceDestroyed := none

def forStateStr (c : CadenceConfig) (state : String) : Option ℕ :=
  match state with
  | "DESIRED" => some c.deploymentDesired
  | "UNDESIRED" => some c.deploymentUndesired
  | "LINGERING" => some c.deploymentLingering
  | "DOWN" => c.deploymentDown
  | "PENDING" => some c.resourcePending
  | "LIVE" => some c.resourceLive
  | "DESTROYED" => c.resourceDestroyed
  | _ => none

end CadenceConfig

def watchdogErrorMessage : String :=
  "watchdog: no report received within the expected cadence for this entity"

/-- A live resource that is not volatile is not checked, so nothing is expected of it. -/
def expectedCadence (entry : HeartbeatEntry) (cadence : CadenceConfig) : Option ℕ := do
  let state ← entry.operationalState
  if state = "LIVE" ∧ entry.volatile = false then none else cadence.forStateStr state

/-- The entity has been silent for too long, and the watchdog has not said so yet. -/
def overdue (cadence : CadenceConfig) (now : ℕ) (entry : HeartbeatEntry) : Bool :=
  if entry.watchdogOpen then false
  else
    match expectedCadence entry cadence with
    | none => false
    | some limit => decide (limit < now - entry.lastReportAt)

def envQidFromString (entityQid : String) : Option String :=
  match DeploymentQid.parse entityQid.toList with
  | .ok qid => some qid.environment.toString
  | .error _ =>
    match ResourceQid.parse entityQid.toList with
    | .ok qid => some qid.environment.toString
    | .error _ => none

inductive WatchdogOutcome
  | opened
  | alreadyOpen
  | skipped

def tryOpenWatchdogIncident (newId : ℕ) (entityQid : String) (now : ℕ) :
    Work WatchdogOutcome := do
  match envQidFromString entityQid with
  | none => pure .skipped
  | some envQid =>
    match ← openIncident newId entityQid envQid .systemError now watchdogErrorMessage with
    | .opened incident =>
      Work.enqueue (openedNotification entityQid .systemError incident)
      pure .opened
    | .alreadyOpen _ => pure .alreadyOpen

/-- One entity of a sweep. -/
def sweepEntity (cadence : CadenceConfig) (newId now : ℕ) (entityQid : String)
    (entry : HeartbeatEntry) : Work Unit := do
  if overdue cadence now entry then
    match ← tryOpenWatchdogIncident newId entityQid now with
    | .opened | .alreadyOpen => Work.markWatchdogOpen entityQid
    | .skipped => pure ()
  else
    pure ()

/-- All entities of a snapshot.  `order` is the order in which they come, `newIds` has the ids that
are drawn for their incidents. -/
def sweepAll (cadence : CadenceConfig) (now : ℕ) (order : List String) (newIds : String → ℕ)
    (snapshot : String → Option HeartbeatEntry) : Work Unit :=
  order.forM fun entityQid =>
    match snapshot entityQid with
    | none => pure ()
    | some entry => sweepEntity cadence (newIds entityQid) now entityQid entry

def sweep (cadence : CadenceConfig) (now : ℕ) (order : List String) (newIds : String → ℕ) :
    Work Unit := do
  let snapshot ← Work.snapshot
  sweepAll cadence now order newIds snapshot

/-- What is remembered of the entity, if anything, is too old. -/
def Overdue (cadence : CadenceConfig) (now : ℕ) (entry : Option HeartbeatEntry) : Prop :=
  ∃ h, entry = some h ∧ overdue cadence now h = true

/-! ## The rows of an entity -/

/-- The request can change the summary of an entity, its open slots, or what is remembered of it. -/
def Touches (e : String) : Op → Prop
  | .sdb (.upsertStatusSummary e' _) => e' = e
  | .sdb (.deleteStatusSummary e') => e' = e
  | .sdb (.claimOpenSlot e' _ _) => e' = e
  | .sdb (.releaseOpenSlot e' _) => e' = e
  | .heartbeat e' _ => e' = e
  | .markWatchdogOpen e' => e' = e
  | _ => False

/-- Between the two states nothing was done to the rows of an entity, except that the worker may
have been started anew. -/
structure Spared (e : String) (s t : State) : Prop where
  summary : t.sdb.summaries e = s.sdb.summaries e
  slots : t.sdb.openSlots e = s.sdb.openSlots e
  heartbeat : t.heartbeats e = s.heartbeats e ∨ t.heartbeats e = none

instance (e : String) : Std.Refl (Spared e) := ⟨fun _ => ⟨rfl, rfl, .inl rfl⟩⟩

instance (e : String) : IsTrans State (Spared e) where
  trans s t u hst htu := by
    refine ⟨htu.summary.trans hst.summary, htu.slots.trans hst.slots, ?_⟩
    rcases htu.heartbeat with htu | htu
    · rw [htu]
      exact hst.heartbeat
    · exact .inr htu

/-- The memory of a worker that has just been started. -/
def State.restarted (s : State) : State := { s with tracker := .new, heartbeats := fun _ => none }

theorem spared_restarted (e : String) (s : State) : Spared e s s.restarted := ⟨rfl, rfl, .inr rfl⟩

variable {e : String}

theorem spared_exec {o : Sdb.Statement} (h : ¬ Touches e (.sdb o)) (s : State) :
    Spared e s (s.withStore (o.exec s.sdb).2) := by
  have hupdate : ∀ (e' : String) (row : Option Sdb.SummaryRow), e' ≠ e →
      Spared e s (s.withStore (s.sdb.setSummary e' row)) := fun e' row hne =>
    ⟨Function.update_of_ne (fun heq => hne heq.symm) _ _, rfl, .inl rfl⟩
  have hset : ∀ (e' : String) (c : IncidentCategory) (id : Option ℕ), e' ≠ e →
      Spared e s (s.withStore (s.sdb.setSlot e' c id)) := fun e' c id hne =>
    ⟨rfl, funext fun c' => Sdb.Store.openSlots_setSlot_ne _ _ fun heq => hne heq.1.symm, .inl rfl⟩
  cases o with
  | upsertStatusSummary e' | deleteStatusSummary e' => exact hupdate e' _ h
  | releaseOpenSlot e' c => exact hset e' c _ h
  | claimOpenSlot e' c id =>
    rw [Sdb.Statement.exec]
    cases s.sdb.openSlots e' c with
    | none => exact hset e' c _ h
    | some existing => exact refl_of (Spared e) s
  | _ => exact ⟨rfl, rfl, .inl rfl⟩

theorem spared_answer {α : Type} {f : Option (ℕ × String) → State → α × State}
    (hf : ∀ cut s, Spared e s (f cut s).2) (reply : Reply) (s : State) :
    Spared e s (reply.answer f s).2 := by
  cases reply with
  | done cut => exact hf cut s
  | error applied m =>
  cases applied with
  | true => exact hf _ s
  | false => exact refl_of (Spared e) s

/-- A request that does not touch an entity spares it. -/
theorem spared_act {o : Op} (h : ¬ Touches e o) (a : Ans o) (s : State) :
    Spared e s (act o a s).2 := by
  have hremember : ∀ (e' : String) (entry : Option HeartbeatEntry), e' ≠ e →
      Spared e s (s.withHeartbeat e' entry) := fun e' entry hne =>
    ⟨rfl, rfl, .inl (Function.update_of_ne (fun heq => hne heq.symm) _ _)⟩
  cases o with
  | sdb o => exact spared_answer (fun _ s => spared_exec h s) a s
  | enqueue request => exact spared_answer (fun _ s => ⟨rfl, rfl, .inl rfl⟩) a s
  | maintainIndex qid timestamp terminal => exact spared_answer (fun _ s => refl_of _ s) a s
  | recordAndCheck | forgetEntity => exact ⟨rfl, rfl, .inl rfl⟩
  | snapshot => exact refl_of (Spared e) s
  | heartbeat e' | markWatchdogOpen e' => exact hremember e' _ h

/-! ## The last report

The last report is followed through its statements, with the others sparing the entity between any
two of them. -/

section LastReport

variable {e env : String}

/-- A triple for a program of the engine, while the others spare the entity `e`. -/
abbrev Achieves {α : Type} (e : String) (I : State → Prop) (p : Work α) (T : α → State → Prop) :
    Prop :=
  p.leads sem (fun _ _ => True) (Spared e) (fun _ => True) I T

/-- A statement that succeeds has been carried out. -/
theorem achieves_sdb {I : State → Prop} {o : Sdb.Statement} {T : o.Result → State → Prop}
    (hI : Prog.Stable (Spared e) I)
    (h : ∀ s, I s → T (o.exec s.sdb).1 (s.withStore (o.exec s.sdb).2)) :
    Achieves e I (Work.sdb o) T := by
  refine leads_ask hI (fun _ _ => trivial) fun s a hs _ => ?_
  cases a with
  | done cut =>
    refine ⟨trivial, ?_⟩
    rintro _ ⟨⟩
    exact h s hs
  | error applied m => exact ⟨trivial, fun _ ha => nomatch ha⟩

theorem achieves_spare {α : Type} {I : State → Prop} {p : Work α}
    (hI : Prog.Stable (Spared e) I) (hp : p.issues fun o => ¬ Touches e o) :
    Achieves e I p fun _ => I :=
  leads_keep hI (fun _ _ => trivial) (fun _ a s ho hs => hI s _ (spared_act ho a s) hs) hp

variable {P : Op → Prop}

theorem issues_orFail {α : Type} (r : Except String α) : (Work.orFail r).issues P := by
  cases r <;> trivial

theorem issues_sdb {o : Sdb.Statement} (h : P (.sdb o)) :
    (Work.sdb o).issues P := ⟨h, fun r => issues_orFail r⟩

theorem issues_incidentInEnv {id : ℕ} (h : P (.sdb (.getIncident (env, id)))) :
    (incidentInEnv env id).issues P := by
  refine issues_bind (issues_sdb h) fun row => ?_
  cases row with
  | none => trivial
  | some row => exact issues_map (issues_orFail _)

theorem issues_runningCountFor (e' : String) (c : IncidentCategory) :
    (runningCountFor e' env c).issues fun o => ¬ Touches e o := by
  refine issues_bind (issues_attempt (issues_sdb id)) fun r => ?_
  rcases r with m | _ | i
  · trivial
  · trivial
  · refine issues_bind (issues_attempt (issues_incidentInEnv id)) fun r => ?_
    rcases r with m | _ | inc <;> trivial

/-- Only the slots of some categories are still open. -/
def OpenWithin (e : String) (l : List (IncidentCategory × ℕ)) (s : State) : Prop :=
  ∀ c, c ∈ l.map Prod.fst ∨ s.sdb.openSlots e c = none

theorem stable_openWithin (l : List (IncidentCategory × ℕ)) :
    Prog.Stable (Spared e) (OpenWithin e l) := by
  intro s t hst h c
  rw [hst.slots]
  exact h c

theorem achieves_closeIncident (reportAt count : ℕ) (b : IncidentCategory × ℕ)
    (l : List (IncidentCategory × ℕ)) :
    Achieves e (OpenWithin e (b :: l)) (closeIncident e env b.1 reportAt reportAt count)
      fun _ => OpenWithin e l := by
  have hrest : ∀ s, OpenWithin e (b :: l) s → s.sdb.openSlots e b.1 = none →
      OpenWithin e l s := by
    intro s hs hb c
    rcases hs c with hc | hc
    · rcases mem_cons.1 hc with rfl | hc
      · exact .inr hb
      · exact .inl hc
    · exact .inr hc
  -- what is read from the slot is known while the slot is there
  refine leads_bind (T := fun id s => OpenWithin e (b :: l) s ∧ s.sdb.openSlots e b.1 = id)
    (achieves_sdb (stable_openWithin _) fun s hs => ⟨hs, rfl⟩) fun id => ?_
  cases id with
  | none => exact leads_ret (fun _ _ => trivial) fun s hs => hrest s hs.1 hs.2
  | some id =>
  refine leads_bind (T := fun _ => OpenWithin e l)
    (achieves_sdb (fun s t hst hs => ⟨stable_openWithin _ s t hst hs.1, ?_⟩) fun s hs => ?_)
    fun _ => ?_
  · rw [hst.slots]
    exact hs.2
  · refine hrest _ (fun c => ?_) (Sdb.Store.openSlots_setSlot_self _ _ _ _)
    by_cases hc : c = b.1
    · exact .inl (mem_cons.2 (.inl hc))
    refine (hs.1 c).imp_right fun hnone => ?_
    rw [← hnone]
    exact Sdb.Store.openSlots_setSlot_ne _ _ fun heq => hc heq.2
  have hspare := fun {α : Type} {p : Work α} =>
    achieves_spare (e := e) (α := α) (p := p) (stable_openWithin l)
  refine leads_bind (hspare (issues_sdb fun h => h)) fun _ => ?_
  refine leads_bind (hspare (issues_incidentInEnv fun h => h)) ?_
  rintro (_ | incident) <;> exact leads_ret (fun _ _ => trivial) fun _ hs => hs

theorem achieves_closeOne (reportAt : ℕ) (b : IncidentCategory × ℕ)
    (l : List (IncidentCategory × ℕ)) :
    Achieves e (OpenWithin e (b :: l)) (closeOne e env reportAt b.1) fun _ => OpenWithin e l := by
  refine leads_bind (achieves_spare (stable_openWithin _) (issues_runningCountFor e b.1))
    fun count => ?_
  refine leads_bind (achieves_closeIncident reportAt count b l) fun outcome => ?_
  cases outcome with
  | closed incident =>
    exact achieves_spare (stable_openWithin l) ⟨fun h => h, fun r => issues_orFail r⟩
  | notOpen => exact leads_ret (fun _ _ => trivial) fun _ hs => hs

/-- A success closes whatever is open. -/
theorem achieves_handleSuccess (reportAt : ℕ) :
    Achieves e (fun _ => True) (handleSuccess e env reportAt) fun _ => OpenWithin e [] := by
  refine leads_bind (T := fun slots => OpenWithin e slots)
    (achieves_sdb (fun _ _ _ _ => trivial) fun s _ c => ?_)
    (leads_forM (fun _ _ => trivial) (achieves_closeOne reportAt))
  change c ∈ (s.sdb.slotsOf e).map Prod.fst ∨ s.sdb.openSlots e c = none
  cases hc : s.sdb.openSlots e c with
  | none => exact .inr rfl
  | some id => exact .inl (mem_map.2 ⟨(c, id), Sdb.Store.mem_slotsOf.2 hc, rfl⟩)

/-- Nothing is kept of an entity. -/
structure Gone (e : String) (s : State) : Prop where
  slots : ∀ c, s.sdb.openSlots e c = none
  heartbeat : s.heartbeats e = none
  summary : s.sdb.summaries e = none

theorem stable_gone : Prog.Stable (Spared e) (Gone e) := by
  intro s t hst h
  refine ⟨fun c => ?_, ?_, hst.summary.trans h.summary⟩
  · rw [hst.slots]
    exact h.slots c
  rcases hst.heartbeat with ht | ht
  · rw [ht]
    exact h.heartbeat
  · exact ht

/-- Only the summary is left. -/
def Silenced (e : String) (s : State) : Prop := OpenWithin e [] s ∧ s.heartbeats e = none

theorem stable_silenced : Prog.Stable (Spared e) (Silenced e) := by
  intro s t hst h
  refine ⟨stable_openWithin [] s t hst h.1, ?_⟩
  rcases hst.heartbeat with ht | ht
  · rw [ht]
    exact h.2
  · exact ht

variable [SclData]

/-- The report is a success, and the last one about its entity. -/
structure LastSuccess (e : String) (r : Rq.Report) : Prop where
  entity : r.entityQid.asString = e
  success : r.outcome = .success
  terminal : r.extension.isTerminal = true

theorem achieves_afterSummary {r : Rq.Report} (now : ℕ) (hr : LastSuccess e r) :
    Achieves e (OpenWithin e []) (afterSummary now r) fun _ => Gone e := by
  obtain ⟨rfl, -, hterminal⟩ := hr
  rw [afterSummary, hterminal]
  have hend : Achieves r.entityQid.asString (Silenced r.entityQid.asString)
      (do
        deleteStatusSummary r.entityQid.asString
        Work.forgetEntity r.entityQid.asString) fun _ => Gone r.entityQid.asString := by
    refine leads_bind (T := fun _ => Gone r.entityQid.asString)
      (achieves_sdb stable_silenced fun s hs => ?_) fun _ => ?_
    · exact ⟨fun c => (hs.1 c).resolve_left not_mem_nil, hs.2, Function.update_self _ _ _⟩
    · exact achieves_spare stable_gone ⟨fun h => h, fun _ => trivial⟩
  refine leads_bind (T := fun _ => Silenced r.entityQid.asString)
    (leads_ask (stable_openWithin []) (fun _ _ => trivial) fun s _ hs _ => ⟨trivial, ?_⟩)
    fun _ => ?_
  · rintro _ ⟨⟩
    exact ⟨hs, Function.update_self _ _ _⟩
  generalize r.entityQid.asString = e at hend
  cases r.entityQid with
  | deployment qid => exact hend
  | resource qid =>
  exact leads_bind
    (achieves_spare stable_silenced ⟨fun h => h, fun r => issues_orFail r⟩) fun _ => hend

/-- **The last report clears everything away**, whatever else goes on that spares its entity. -/
theorem last_report_clears (thresholds : ThresholdConfig) (newId now : ℕ) {r : Rq.Report}
    (hr : LastSuccess e r) :
    Achieves e (fun _ => True) (processReport thresholds newId now r) fun _ => Gone e := by
  obtain ⟨rfl, hsuccess, -⟩ := id hr
  refine leads_bind (T := fun _ _ => True) (fun s _ => always_of_forall
    (fun _ _ => trivial) (fun _ _ => ⟨trivial, fun _ _ => trivial⟩) _ s) fun prev => ?_
  refine leads_bind (T := fun _ => OpenWithin r.entityQid.asString []) ?_ fun _ => ?_
  · rw [handleOutcome, hsuccess]
    refine leads_bind (achieves_handleSuccess r.timestamp) fun _ => ?_
    exact achieves_spare (stable_openWithin []) ⟨fun h => h, fun _ => trivial⟩
  refine leads_bind
    (achieves_spare (stable_openWithin []) (issues_sdb fun h => h)) fun openList => ?_
  refine leads_bind (T := fun _ => OpenWithin r.entityQid.asString [])
    (achieves_sdb (stable_openWithin []) fun s hs => hs) fun _ => ?_
  exact achieves_afterSummary now hr

end LastReport

/-! ## A worker -/

section Worker

variable [SclData]

inductive Call
  | report (newId now : ℕ) (r : Rq.Report)
  | sweep (now : ℕ) (order : List String) (newIds : String → ℕ)

/-- A worker: any number of reports are processed and any number of sweeps made at the same time,
and it may be started anew. -/
def worker (thresholds : ThresholdConfig) (cadence : CadenceConfig) :
    Machine Resp String State Call Unit where
  sem := sem
  body c :=
    match c with
    | .report newId now r => processReport thresholds newId now r
    | .sweep now order newIds => sweep cadence now order newIds
  outside _ s := s.restarted

/-- No report about the entity is being processed, and no sweep that has found it overdue is in
progress. -/
def Undisturbed (cadence : CadenceConfig) (e : String) (v : PoolView Resp State Call) : Prop :=
  ∀ tr ∈ v.traces, tr.running = true →
    match tr.call with
    | .report _ _ r => r.entityQid.asString ≠ e
    | .sweep now _ _ =>
      ∀ snapshot, ⟨.snapshot, snapshot⟩ ∈ tr.log → ¬ Overdue cadence now (snapshot e)

/-- The conditions after the last report about an entity has been begun: no report about it is
begun, and no sweep finds it overdue before the last report is done. -/
def ceased (thresholds : ThresholdConfig) (cadence : CadenceConfig) (e : String) :
    (worker thresholds cadence).Conditions where
  start _ c :=
    match c with
    | .report _ _ r => r.entityQid.asString ≠ e
    | .sweep .. => True
  ask v c _ o _ :=
    match c, o with
    | .sweep now _ _, .snapshot =>
      (∃ tr ∈ v.traces, tr.running = true ∧ ∃ newId now r, tr.call = .report newId now r ∧
        LastSuccess e r) → ¬ Overdue cadence now (v.state.heartbeats e)
    | _, _ => True
  outside _ _ := True

end Worker

/-! ## What the others do -/

section Others

variable {e e' env : String}

theorem spares_openIncident (hne : e' ≠ e) (newId : ℕ) (c : IncidentCategory) (at_ : ℕ)
    (m : String) : (openIncident newId e' env c at_ m).issues fun o => ¬ Touches e o := by
  refine issues_bind (issues_sdb hne) fun claimed => ?_
  cases claimed with
  | some existing => trivial
  | none =>
  exact issues_bind (issues_sdb id) fun _ =>
    issues_bind (issues_sdb id) fun _ => trivial

theorem spares_append (id : ℕ) (c : IncidentCategory) (openedAt lastReportAt count : ℕ)
    (m : String) :
    (Sdb.appendFailureToOpenIncident id e' env c openedAt lastReportAt count m).issues
      fun o => ¬ Touches e o :=
  issues_bind (issues_sdb fun h => h) fun _ => issues_bind (issues_sdb fun h => h) fun _ =>
    issues_bind (issues_sdb fun h => h) fun _ =>
      issues_bind (issues_incidentInEnv fun h => h) fun _ => trivial

theorem spares_handleFailure (hne : e' ≠ e) (thresholds : ThresholdConfig) (newId : ℕ)
    (c : IncidentCategory) (m : String) (reportAt now : ℕ) :
    (handleFailure thresholds newId e' env c m reportAt now).issues fun o => ¬ Touches e o := by
  refine issues_bind (issues_sdb id) fun slot => ?_
  cases slot with
  | some id =>
    refine issues_bind (issues_incidentInEnv fun h => h) fun existing => ?_
    exact issues_bind (spares_append id c _ _ _ m) fun _ => trivial
  | none =>
  refine issues_bind ⟨id, fun _ => trivial⟩ fun tripped => ?_
  cases tripped with
  | false => trivial
  | true =>
  refine issues_bind (spares_openIncident hne newId c reportAt m) fun outcome => ?_
  cases outcome with
  | opened incident => exact ⟨fun h => h, fun r => issues_orFail r⟩
  | alreadyOpen existing =>
  refine issues_bind (issues_incidentInEnv fun h => h) fun inc => ?_
  cases inc with
  | none => trivial
  | some inc => exact issues_bind (spares_append inc.id c _ _ _ m) fun _ => trivial

theorem spares_closeOne (hne : e' ≠ e) (reportAt : ℕ) (c : IncidentCategory) :
    (closeOne e' env reportAt c).issues fun o => ¬ Touches e o := by
  refine issues_bind (issues_runningCountFor e' c) fun count => ?_
  refine issues_bind (issues_bind (issues_sdb id) fun slot => ?_) fun outcome => ?_
  · cases slot with
    | none => trivial
    | some id =>
    refine issues_bind (issues_sdb hne) fun _ => issues_bind (issues_sdb fun h => h)
      fun _ => issues_bind (issues_incidentInEnv fun h => h) fun inc => ?_
    cases inc <;> trivial
  cases outcome with
  | closed incident => exact ⟨fun h => h, fun r => issues_orFail r⟩
  | notOpen => trivial

variable [SclData]

theorem spares_afterSummary (now : ℕ) {r : Rq.Report} (hne : r.entityQid.asString ≠ e) :
    (afterSummary now r).issues fun o => ¬ Touches e o := by
  have hend : (if r.extension.isTerminal then do
      deleteStatusSummary r.entityQid.asString
      Work.forgetEntity r.entityQid.asString
    else pure () : Work Unit).issues fun o => ¬ Touches e o := by
    cases r.extension.isTerminal with
    | true => exact issues_bind (issues_sdb hne) fun _ => ⟨id, fun _ => trivial⟩
    | false => trivial
  refine issues_bind ⟨hne, fun _ => trivial⟩ fun _ => ?_
  generalize r.entityQid.asString = e' at hend
  cases r.entityQid with
  | deployment qid => exact hend
  | resource qid => exact issues_bind ⟨id, fun r => issues_orFail r⟩ fun _ => hend

/-- A report leaves the rows of the other entities alone. -/
theorem spares_processReport (thresholds : ThresholdConfig) (newId now : ℕ) {r : Rq.Report}
    (hne : r.entityQid.asString ≠ e) :
    (processReport thresholds newId now r).issues fun o => ¬ Touches e o := by
  refine issues_bind (issues_bind (issues_sdb id) fun _ => trivial) fun prev => ?_
  refine issues_bind ?_ fun _ => issues_bind (issues_sdb id) fun _ =>
    issues_bind (issues_sdb hne) fun _ => spares_afterSummary now hne
  rw [handleOutcome]
  cases r.outcome with
  | failure c m => exact spares_handleFailure hne thresholds newId c m r.timestamp now
  | success =>
  refine issues_bind (issues_bind (issues_sdb id) fun slots => ?_) fun _ =>
    ⟨id, fun _ => trivial⟩
  exact issues_forM fun slot _ => spares_closeOne hne r.timestamp slot.1

omit [SclData] in
/-- A sweep leaves the rows of an entity alone that its snapshot does not show overdue. -/
theorem spares_sweepAll {cadence : CadenceConfig} {now : ℕ} (order : List String)
    (newIds : String → ℕ) {snapshot : String → Option HeartbeatEntry}
    (h : ¬ Overdue cadence now (snapshot e)) :
    (sweepAll cadence now order newIds snapshot).issues fun o => ¬ Touches e o := by
  refine issues_forM fun e' _ => ?_
  cases hentry : snapshot e' with
  | none => trivial
  | some entry =>
  change (sweepEntity cadence (newIds e') now e' entry).issues _
  rw [sweepEntity]
  cases hoverdue : overdue cadence now entry with
  | false => trivial
  | true =>
  have hne : e' ≠ e := fun heq => h ⟨entry, heq ▸ hentry, hoverdue⟩
  refine issues_bind ?_ fun outcome => ?_
  · rw [tryOpenWatchdogIncident]
    cases envQidFromString e' with
    | none => trivial
    | some env =>
    refine issues_bind (spares_openIncident hne _ _ _ _) fun outcome => ?_
    cases outcome with
    | opened incident =>
      exact issues_bind ⟨id, fun r => issues_orFail r⟩ fun _ => trivial
    | alreadyOpen existing => trivial
  cases outcome with
  | opened | alreadyOpen => exact ⟨hne, fun _ => trivial⟩
  | skipped => trivial

end Others

/-! ## Runs

All calls but the last report are shown to be harmless, so the run is that of the last report, with
turns in between that spare its entity. -/

section Runs

variable [SclData] {thresholds : ThresholdConfig} {cadence : CadenceConfig} {e : String}

/-- The call will never touch the entity, or it is a sweep that has yet to take its snapshot. -/
def Harmless (cadence : CadenceConfig) (e : String) (th : Thread Resp String Call) : Prop :=
  (th.prog.issues fun o => ¬ Touches e o) ∨
    ∃ now order newIds, th.call = .sweep now order newIds ∧ th.prog = sweep cadence now order newIds

/-- What is known of any call: one that is not harmless is a report about the entity, or a sweep
that has found it overdue. -/
def Tame (cadence : CadenceConfig) (e : String) (th : Thread Resp String Call) : Prop :=
  match th.call with
  | .report _ _ r => r.entityQid.asString ≠ e → th.prog.issues fun o => ¬ Touches e o
  | .sweep now _ _ =>
    Harmless cadence e th ∨
      ∃ snapshot, ⟨.snapshot, snapshot⟩ ∈ th.log ∧ Overdue cadence now (snapshot e)

theorem harmless_start {c : Call} (h : ∀ newId now r, c = .report newId now r →
    r.entityQid.asString ≠ e) :
    Harmless cadence e ⟨c, [], (worker thresholds cadence).body c⟩ := by
  cases c with
  | report newId now r => exact .inl (spares_processReport thresholds newId now (h _ _ _ rfl))
  | sweep now order newIds => exact .inr ⟨now, order, newIds, rfl, rfl⟩

/-- A turn of a sweep that has yet to take its snapshot. -/
theorem stepThread_sweep (thresholds : ThresholdConfig) {th : Thread Resp String Call} {now : ℕ}
    {order : List String} {newIds : String → ℕ} (t : sem.Turn) (s : State)
    (hprog : th.prog = sweep cadence now order newIds) :
    (worker thresholds cadence).stepThread t th s =
      (⟨th.call, ⟨.snapshot, s.heartbeats⟩ :: th.log,
        sweepAll cadence now order newIds s.heartbeats⟩, s) := by
  obtain ⟨c, l, p⟩ := th
  subst hprog
  rfl

/-- A turn of a call that never touches the entity. -/
theorem stepThread_spares (thresholds : ThresholdConfig) (cadence : CadenceConfig)
    {th : Thread Resp String Call} (t : sem.Turn) (s : State)
    (h : th.prog.issues fun o => ¬ Touches e o) :
    ((worker thresholds cadence).stepThread t th s).1.prog.issues (fun o => ¬ Touches e o) ∧
      Spared e s ((worker thresholds cadence).stepThread t th s).2 := by
  obtain ⟨c, l, p⟩ := th
  cases p with
  | ret | fail => exact ⟨h, refl_of _ s⟩
  | choose k => exact ⟨h _, refl_of _ s⟩
  | ask o k => exact ⟨h.2 _, spared_act h.1 _ s⟩

theorem stepThread_call (t : sem.Turn) (th : Thread Resp String Call) (s : State) :
    ((worker thresholds cadence).stepThread t th s).1.call = th.call := by
  obtain ⟨c, l, p⟩ := th
  cases p <;> rfl

theorem tame_stepThread (t : sem.Turn) (th : Thread Resp String Call) (s : State)
    (h : Tame cadence e th) :
    Tame cadence e ((worker thresholds cadence).stepThread t th s).1 := by
  rw [Tame, stepThread_call]
  rw [Tame] at h
  cases hcall : th.call with
  | report newId now r =>
    rw [hcall] at h
    exact fun hne => (stepThread_spares thresholds cadence t s (h hne)).1
  | sweep now order newIds =>
  rw [hcall] at h
  rcases h with (hspares | ⟨now', order', newIds', hcall', hprog⟩) | ⟨snapshot, hmem, hoverdue⟩
  · exact .inl (.inl (stepThread_spares thresholds cadence t s hspares).1)
  · cases hcall.symm.trans hcall'
    rw [stepThread_sweep thresholds t s hprog]
    by_cases hoverdue : Overdue cadence now (s.heartbeats e)
    · exact .inr ⟨_, mem_cons_self, hoverdue⟩
    · exact .inl (.inl (spares_sweepAll order newIds hoverdue))
  refine .inr ⟨snapshot, ?_, hoverdue⟩
  obtain ⟨c, l, p⟩ := th
  cases p with
  | ask o k => exact mem_cons_of_mem _ hmem
  | _ => exact hmem

theorem tame_run (e : String) (s₀ : State) (es : List (worker thresholds cadence).Event) :
    ∀ th ∈ ((worker thresholds cadence).run ⟨s₀, []⟩ es).threads, Tame cadence e th := by
  refine Machine.every_thread (fun c => ?_) tame_stepThread (fun th m h => ?_) nofun es
  · cases c with
    | report newId now r => exact spares_processReport thresholds newId now
    | sweep now order newIds => exact .inl (.inr ⟨now, order, newIds, rfl, rfl⟩)
  cases th.call with
  | report newId now r => exact fun _ => trivial
  | sweep now order newIds => exact .inl (.inl trivial)

/-- In a worker that is undisturbed every call is harmless. -/
theorem harmless_of_undisturbed {y : Pool Resp String State Call}
    (htame : ∀ th ∈ y.threads, Tame cadence e th) (hy : Undisturbed cadence e y.view) :
    ∀ th ∈ y.threads, Harmless cadence e th := by
  intro th hth
  cases hrun : th.running with
  | false =>
    left
    obtain ⟨c, l, p⟩ := th
    cases p with
    | ret | fail => trivial
    | ask | choose => exact nomatch hrun
  | true =>
  have hquiet := hy th.trace (mem_map_of_mem hth) hrun
  have ht := htame th hth
  rw [Tame] at ht
  change (match th.call with
    | .report _ _ r => r.entityQid.asString ≠ e
    | .sweep now _ _ => ∀ snapshot, ⟨.snapshot, snapshot⟩ ∈ th.log →
        ¬ Overdue cadence now (snapshot e)) at hquiet
  cases hcall : th.call with
  | report newId now r =>
    rw [hcall] at ht hquiet
    exact .inl (ht hquiet)
  | sweep now order newIds =>
  rw [hcall] at ht hquiet
  rcases ht with ht | ⟨snapshot, hmem, hoverdue⟩
  · exact ht
  · exact absurd hoverdue (hquiet snapshot hmem)

/-- The invariant.  The `i`-th call is the last report; unless it has failed it is on its way to
clear everything, and all other calls are harmless. -/
structure Clearing (cadence : CadenceConfig) (e : String) (i : ℕ)
    (y : Pool Resp String State Call) (th : Thread Resp String Call) : Prop where
  thread : y.threads[i]? = some th
  last : ∃ newId now r, th.call = .report newId now r ∧ LastSuccess e r
  clears : th.prog.among sem (fun _ _ => True) (Spared e) (fun _ => True)
    (fun r t => True ∧ ∀ a, r = .ok a → Gone e t) y.state
  others : (∃ m, th.prog = .fail m) ∨
    ∀ j th', j ≠ i → y.threads[j]? = some th' → Harmless cadence e th'

namespace Clearing

variable {i : ℕ} {y : Pool Resp String State Call} {th : Thread Resp String Call}

omit [SclData] in
theorem stable_clears : ∀ r : Except String Unit,
    Prog.Stable (Spared e) fun t => True ∧ ∀ a, r = .ok a → Gone e t :=
  fun _ s t hst h => ⟨trivial, fun a ha => stable_gone s t hst (h.2 a ha)⟩

section

variable (h : Clearing cadence e i y th)

include h

/-- Something happened that spares the entity, and the other calls are still harmless. -/
theorem spared {y' : Pool Resp String State Call}
    (hthread : y'.threads[i]? = some th) (hstate : Spared e y.state y'.state)
    (hothers : (∀ j th', j ≠ i → y.threads[j]? = some th' → Harmless cadence e th') →
      ∀ j th', j ≠ i → y'.threads[j]? = some th' → Harmless cadence e th') :
    Clearing cadence e i y' th :=
  ⟨hthread, h.last, among_later (fun _ _ _ _ => trivial) stable_clears h.clears hstate,
    h.others.imp_right hothers⟩

/-- A turn of the last report itself. -/
theorem own_turn (t : sem.Turn) :
    Clearing cadence e i ⟨((worker thresholds cadence).stepThread t th y.state).2,
        y.threads.set i ((worker thresholds cadence).stepThread t th y.state).1⟩
      ((worker thresholds cadence).stepThread t th y.state).1 := by
  have hlt : i < y.threads.length := (List.getElem?_eq_some_iff.1 h.thread).1
  refine ⟨List.getElem?_set_self hlt, ?_, ?_, ?_⟩
  · rw [stepThread_call]
    exact h.last
  · have hstep := among_step h.clears t fun _ _ _ => trivial
    obtain ⟨c, l, p⟩ := th
    cases p <;> exact hstep
  rcases h.others with ⟨m, hm⟩ | hothers
  · left
    refine ⟨m, ?_⟩
    obtain ⟨c, l, p⟩ := th
    subst hm
    rfl
  refine .inr fun j th' hj hth' => hothers j th' hj ?_
  rcases getElem?_set_cases hth' with ⟨hji, -⟩ | ⟨-, hth'⟩
  · exact absurd hji hj
  · exact hth'

/-- Unless the last report has failed, no sweep that takes its snapshot now finds the entity
overdue. -/
theorem not_overdue (hfail : ∀ m, th.prog ≠ .fail m) {now : ℕ}
    (hask : (∃ tr ∈ y.view.traces, tr.running = true ∧ ∃ newId now r,
      tr.call = .report newId now r ∧ LastSuccess e r) →
      ¬ Overdue cadence now (y.state.heartbeats e)) :
    ¬ Overdue cadence now (y.state.heartbeats e) := by
  cases hprog : th.prog with
  | fail m => exact absurd hprog (hfail m)
  | ret a =>
    have hgone := h.clears
    rw [hprog] at hgone
    rintro ⟨entry, hentry, -⟩
    rw [(hgone.2 a rfl).heartbeat] at hentry
    exact nomatch hentry
  | _ =>
  refine hask ⟨th.trace, mem_map_of_mem (mem_of_getElem? h.thread), ?_, h.last⟩
  change th.running = true
  rw [Thread.running, hprog]

/-- A turn of another call. -/
theorem other_turn {j : ℕ} {th' : Thread Resp String Call}
    {t : sem.Turn} (hj : j ≠ i) (hth' : y.threads[j]? = some th')
    (hask : (worker thresholds cadence).Admits (ceased thresholds cadence e) y (.turn j t)) :
    Clearing cadence e i ⟨((worker thresholds cadence).stepThread t th' y.state).2,
      y.threads.set j ((worker thresholds cadence).stepThread t th' y.state).1⟩ th := by
  have hthread : (y.threads.set j ((worker thresholds cadence).stepThread t th' y.state).1)[i]?
      = some th := by
    rw [getElem?_set_ne hj]
    exact h.thread
  rcases h.others with hfail | hothers
  · -- nothing is claimed once the last report has failed
    obtain ⟨m, hm⟩ := id hfail
    refine ⟨hthread, h.last, ?_, .inl hfail⟩
    rw [hm]
    exact ⟨trivial, fun a ha => nomatch ha⟩
  have hset : ∀ {th₁ : Thread Resp String Call}, Harmless cadence e th₁ →
      ∀ k th₂, k ≠ i → (y.threads.set j th₁)[k]? = some th₂ → Harmless cadence e th₂ := by
    intro th₁ h₁ k th₂ hk hth₂
    rcases getElem?_set_cases hth₂ with ⟨-, rfl⟩ | ⟨-, hth₂⟩
    · exact h₁
    · exact hothers k th₂ hk hth₂
  by_cases hfail : ∃ m, th.prog = .fail m
  · obtain ⟨m, hm⟩ := id hfail
    refine ⟨hthread, h.last, ?_, .inl hfail⟩
    rw [hm]
    exact ⟨trivial, fun a ha => nomatch ha⟩
  rcases hothers j th' hj hth' with hspares | ⟨now, order, newIds, hcall, hprog⟩
  · obtain ⟨hnext, hstate⟩ := stepThread_spares thresholds cadence t y.state hspares
    exact h.spared hthread hstate fun _ => hset (.inl hnext)
  rw [stepThread_sweep thresholds t y.state hprog] at hthread ⊢
  refine h.spared hthread (refl_of _ _) fun _ => hset (.inl (spares_sweepAll order newIds ?_))
  refine h.not_overdue (fun m hm => hfail ⟨m, hm⟩) ?_
  have hcond := hask th' .snapshot _ hth' hprog
  rw [hcall] at hcond
  exact hcond

theorem step (ev : (worker thresholds cadence).Event)
    (hev : (worker thresholds cadence).Admits (ceased thresholds cadence e) y ev) :
    ∃ th', Clearing cadence e i ((worker thresholds cadence).step y ev) th' := by
  have hlt : i < y.threads.length := (List.getElem?_eq_some_iff.1 h.thread).1
  cases ev with
  | start c =>
    refine ⟨th, h.spared ?_ (refl_of _ _) fun hothers j th' hj hth' => ?_⟩
    · exact (getElem?_append_left hlt).trans h.thread
    rcases getElem?_concat_cases hth' with hth' | ⟨-, rfl⟩
    · exact hothers j th' hj hth'
    refine harmless_start ?_
    rintro newId now r rfl
    exact hev
  | outside u => exact ⟨th, h.spared h.thread (spared_restarted e _) fun hothers => hothers⟩
  | turn j t =>
    rw [Machine.step]
    cases hj : y.threads[j]? with
    | none => exact ⟨th, h⟩
    | some th' =>
    by_cases hji : j = i
    · subst hji
      rw [h.thread] at hj
      cases hj
      exact ⟨_, h.own_turn t⟩
    · exact ⟨th, h.other_turn hji hj hev⟩
  | stop j m =>
  rw [Machine.step]
  cases hj : y.threads[j]? with
  | none => exact ⟨th, h⟩
  | some th' =>
  by_cases hji : j = i
  · subst hji
    rw [h.thread] at hj
    cases hj
    refine ⟨{ th with prog := .fail m }, List.getElem?_set_self hlt, h.last, ?_, .inl ⟨m, rfl⟩⟩
    exact ⟨trivial, fun a ha => by cases ha⟩
  refine ⟨th, h.spared ?_ (refl_of _ _) fun hothers k th₂ hk hth₂ => ?_⟩
  · exact (getElem?_set_ne hji).trans h.thread
  rcases getElem?_set_cases hth₂ with ⟨-, rfl⟩ | ⟨-, hth₂⟩
  · exact .inl trivial
  · exact hothers k th₂ hk hth₂

end

end Clearing

/-- **An entity that is gone stays gone.**  Whatever a worker has done before: if it is undisturbed
when the last report about an entity is begun, and from then on no report about the entity is begun
and no sweep finds it overdue before the last report is done, then in every state after the last
report has been processed there is no summary of the entity, no open incident, and nothing is
remembered of it. -/
theorem gone_for_good (thresholds : ThresholdConfig) (cadence : CadenceConfig) (e : String)
    (s₀ : State) (before after : List (worker thresholds cadence).Event) (newId now : ℕ)
    (r : Rq.Report) (hr : LastSuccess e r) :
    let W := worker thresholds cadence
    let y := W.run ⟨s₀, []⟩ before
    let begun := W.step y (.start (.report newId now r))
    Undisturbed cadence e y.view → W.Meets (ceased thresholds cadence e) begun after →
      ∀ th, (W.run begun after).threads[y.threads.length]? = some th → th.prog = .ret () →
        Gone e (W.run begun after).state := by
  intro W y begun hquiet hafter th hth hdone
  have hharmless := harmless_of_undisturbed (tame_run e s₀ before) hquiet
  have hbegin : Clearing cadence e y.threads.length begun
      ⟨.report newId now r, [], processReport thresholds newId now r⟩ := by
    refine ⟨getElem?_concat_length, ⟨newId, now, r, rfl, hr⟩, ?_, .inr fun j th' hj hth' => ?_⟩
    · exact last_report_clears thresholds newId now hr _ trivial
    rcases getElem?_concat_cases hth' with hth' | ⟨hj', -⟩
    · exact hharmless th' (mem_of_getElem? hth')
    · exact absurd hj' hj
  obtain ⟨th', hend⟩ := Machine.keeps
    (J := fun y' => ∃ th, Clearing cadence e y.threads.length y' th)
    (fun y' ev ⟨th, h⟩ hev => h.step ev hev) ⟨_, hbegin⟩ hafter
  rw [hend.thread] at hth
  cases hth
  have hclears := hend.clears
  rw [hdone] at hclears
  exact hclears.2 () rfl

end Runs

end Skyr.Re

/-! ## Runs in which an entity comes back -/

namespace Skyr.Re.Departed

local instance : SclData := .nat

def seed : String := "Acme/Shop::main::stockholm:Std/Random.Int:seed"

/-- A report about a volatile resource. -/
def report (timestamp : ℕ) (outcome : Outcome) (state : ResourceOperationalState)
    (terminal : Bool) : Rq.Report :=
  .ofEngine timestamp 0 (.resource
    ⟨⟨⟨⟨"Acme"⟩, ⟨"Shop"⟩⟩, ⟨"main"⟩⟩, ⟨⟨"stockholm"⟩, "Std/Random.Int", "seed"⟩⟩
    outcome state terminal true)

abbrev W : Machine Resp String State Call Unit := worker .default .default

/-- Nothing has been reported yet. -/
def fresh : Pool Resp String State Call := ⟨⟨.empty, [], .new, fun _ => none⟩, []⟩

def turns (i n : ℕ) : List W.Event := List.replicate n (.turn i fineTurn)

/-- A call is begun as the `i`-th one and takes as many turns as it needs. -/
def whole (i : ℕ) (c : Call) : List W.Event := .start c :: turns i 20

def crashed : Call := .report 1 0 (report 0 (.failure .crash "out of memory") .live false)

def live : Call := .report 1 0 (report 0 .success .live false)

def destroyed : Call := .report 2 700000 (report 700000 .success .destroyed true)

def sweeping (now : ℕ) : Call := .sweep now [seed] fun _ => 3

/-- Every call has returned. -/
def allReturned (y : Pool Resp String State Call) : Bool :=
  y.threads.all fun th =>
    match th.prog with
    | .ret _ => true
    | _ => false

variable {y : Pool Resp String State Call}

theorem meets_turns {c : Call} (n : ℕ) {i : ℕ}
    {th : Thread Resp String Call} (hi : y.threads[i]? = some th) (hcall : th.call = c)
    (hreport : ∃ newId now r, c = .report newId now r) :
    W.Meets (ceased .default .default seed) y (turns i n) := by
  obtain ⟨newId, now, r, rfl⟩ := id hreport
  induction n generalizing y th with
  | zero => trivial
  | succ n ih =>
  refine ⟨fun th' o k hth' _ => ?_, ?_⟩
  · rw [hi] at hth'
    cases hth'
    rw [hcall]
    trivial
  have hlt : i < y.threads.length := (List.getElem?_eq_some_iff.1 hi).1
  have hnext : (W.step y (.turn i fineTurn)).threads[i]? =
      some (W.stepThread fineTurn th y.state).1 :=
    (congrArg (·.threads[i]?) (Machine.step_turn (M := W) hi fineTurn)).trans
      (List.getElem?_set_self hlt)
  exact ih hnext ((stepThread_call _ _ _).trans hcall)

theorem returned (h : allReturned y = true)
    {th : Thread Resp String Call} (hth : th ∈ y.threads) : th.prog = .ret () := by
  have hret := List.all_eq_true.1 h th hth
  cases hprog : th.prog with
  | ret u => rfl
  | _ =>
  rw [hprog] at hret
  exact nomatch hret

theorem undisturbed_of_returned {cadence : CadenceConfig} {e : String}
    (h : allReturned y = true) :
    Undisturbed cadence e y.view := by
  intro tr htr hrun
  obtain ⟨th, hth, rfl⟩ := List.mem_map.1 htr
  have hstopped : th.running = false := by rw [Thread.running, returned h hth]
  exact nomatch hstopped.symm.trans hrun

/-- A crash opens an incident, a sweep passes by, and then the resource is destroyed. -/
theorem gone_after_crash :
    let y := W.run fresh (whole 0 crashed ++ whole 1 (sweeping 1000))
    let gone := W.run (W.step y (.start destroyed)) (turns 2 20)
    y.state.sdb.openSlots seed .crash = some 1 ∧ allReturned gone = true ∧
      Gone seed gone.state := by
  intro y gone
  have hreturned : allReturned gone = true := by decide +kernel
  have hlen : 2 < gone.threads.length := by decide +kernel
  refine ⟨by decide +kernel, hreturned, ?_⟩
  refine gone_for_good .default .default seed _ (whole 0 crashed ++ whole 1 (sweeping 1000))
    (turns 2 20) 2 700000 (report 700000 .success .destroyed true) ⟨by decide, rfl, rfl⟩
    (undisturbed_of_returned (by decide +kernel)) ?_ gone.threads[2] ?_
    (returned hreturned (List.getElem_mem hlen))
  · exact meets_turns 20 (List.getElem?_concat_length) rfl ⟨_, _, _, rfl⟩
  · exact List.getElem?_eq_getElem hlen

/-- **An entity that is gone comes back.**  In the first run a sweep takes its snapshot, the
resource is destroyed, and the sweep goes on and opens an incident that nothing will ever close.
In the second an earlier report is delivered again after the last one, and the summary and the
memory of the resource are back. -/
theorem gone_and_back :
    let swept := W.run fresh (whole 0 live ++ .start (sweeping 650000) :: turns 1 1 ++
      whole 2 destroyed ++ turns 1 20)
    let redelivered := W.run fresh (whole 0 live ++ whole 1 destroyed ++ whole 2 live)
    (allReturned swept = true ∧ swept.state.sdb.openSlots seed .systemError = some 3 ∧
      (swept.state.sdb.incident ("Acme/Shop::main", 3)).map (·.closedAt) = some none) ∧
    (allReturned redelivered = true ∧ (redelivered.state.sdb.summaries seed).isSome = true ∧
      (redelivered.state.heartbeats seed).isSome = true) := by
  decide +kernel

end Skyr.Re.Departed
