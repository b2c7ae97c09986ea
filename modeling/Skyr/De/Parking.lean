import Skyr.Cdb.Answered
import Skyr.De.Convergence

/-!
# What a worker leaves behind

The loop of a worker ends when its deployment is down, and also when an iteration of a desired
deployment finds that nothing is in motion: the worker *parks*.  From then on nobody looks at the
deployment, until the daemon starts a worker for it again.

For an iteration during which the configuration database answers, and nothing else happens to it,
this file says what the iteration changes (`Stays`) and in which state it leaves the deployment
when the loop ends with it (`ends_workAndReport`): the deployment is down, or it is desired,
bootstrapped and not superseded.  That is all the code makes sure of.  Nothing is said about the
resources of the deployment: those that its program does not touch have at best been requested to
be destroyed.
-/

namespace Skyr.De

open Prog

variable [SclData]

open Cdb DeploymentState

/-! ## Evaluations -/

/-- The last evaluation for a deployment. -/
def lastEvaluation (w : World) (q : DeploymentQid) : Option Evaluation :=
  (w.evaluations.reverse.find? fun e => e.1 = q).map Prod.snd

/-- The resources announced in the name of a deployment. -/
def announced (q : DeploymentQid) (ev : Evaluation) : List ResourceId :=
  (ev.effects.filter fun e => e.owner = some q).map Effect.id

/-- The touched set of the last evaluation for a deployment. -/
def touched (w : World) (q : DeploymentQid) : List ResourceId :=
  ((lastEvaluation w q).map (announced q)).getD []

theorem lastEvaluation_append_ne {w w' : World} {q q' : DeploymentQid} {ev : Evaluation}
    (h : w'.evaluations = w.evaluations ++ [(q, ev)]) (hq : q' ≠ q) :
    lastEvaluation w' q' = lastEvaluation w q' := by
  rw [lastEvaluation, h, List.reverse_append, List.reverse_singleton, List.singleton_append,
    List.find?_cons_of_neg (by simpa using hq.symm)]
  rfl

/-! ## What an iteration changes -/

/-- Neither of the databases has changed, and nothing has been evaluated for other deployments. -/
structure Still (q : DeploymentQid) (w w' : World) : Prop where
  cdb : w'.cdb = w.cdb
  rdb : w'.rdb = w.rdb
  evaluations : ∀ q' ≠ q, lastEvaluation w' q' = lastEvaluation w q'

/-- The other deployments have been spared, unless they are superseded. -/
structure Stays (q : DeploymentQid) (w w' : World) : Prop where
  cdb : Spared (· ≠ q) w.cdb w'.cdb
  supersessions : w'.cdb.supersessions = w.cdb.supersessions
  rdb : w'.rdb = w.rdb
  evaluations : ∀ q' ≠ q, lastEvaluation w' q' = lastEvaluation w q'

section Relations

variable {q : DeploymentQid} {w w' w'' : World}

theorem Still.refl : Still q w w := ⟨rfl, rfl, fun _ _ => rfl⟩

theorem Still.trans (h : Still q w w') (h' : Still q w' w'') : Still q w w'' :=
  ⟨h'.cdb.trans h.cdb, h'.rdb.trans h.rdb, fun q' hq' =>
    (h'.evaluations q' hq').trans (h.evaluations q' hq')⟩

theorem Still.stays (h : Still q w w') : Stays q w w' :=
  ⟨h.cdb ▸ .refl, by rw [h.cdb], h.rdb, h.evaluations⟩

theorem Stays.refl : Stays q w w := Still.refl.stays

theorem Stays.trans (h : Stays q w w') (h' : Stays q w' w'') : Stays q w w'' :=
  ⟨h.cdb.trans h'.cdb, h'.supersessions.trans h.supersessions, h'.rdb.trans h.rdb, fun q' hq' =>
    (h'.evaluations q' hq').trans (h.evaluations q' hq')⟩

omit [SclData] in
theorem supersessions_put (s : Store) (d : Deployment) :
    (s.put d).supersessions = s.supersessions := by
  rw [Store.put]
  split <;> rfl

omit [SclData] in
theorem supersessions_move (s : Store) (q : DeploymentQid) (state : DeploymentState) :
    (s.move q state).supersessions = s.supersessions := by
  rw [Store.move]
  split
  · rfl
  · exact supersessions_put ..

/-- The deployment itself, or a superseded one, is written. -/
theorem stays_put {d : Deployment} (h : d.qid ≠ q → (w.cdb.superseding d.qid).isSome) :
    Stays q w (w.withCdb (w.cdb.put d)) :=
  ⟨spared_put h, supersessions_put .., rfl, fun _ _ => rfl⟩

theorem stays_move {q' : DeploymentQid} {state : DeploymentState}
    (h : q' ≠ q → (w.cdb.superseding q').isSome) :
    Stays q w (w.withCdb (w.cdb.move q' state)) :=
  ⟨spared_move h, supersessions_move .., rfl, fun _ _ => rfl⟩

end Relations

/-! ## Parts that leave the databases as they are -/

section Parts

variable {wk : Worker} {w : World}

theorem exec_of_target_none {cut : Option (ℕ × String)} {o : Rdb.Op} {s : Rdb.Store}
    (h : o.target = none) : (Rdb.Store.exec cut o s).2 = s := by
  cases o with
  | getResource | listResources | listResourcesByOwner | listResourceRegions => rfl
  | _ => cases h

theorem still_act {q : DeploymentQid} {o : Op} (h : Asks q o) (a : Ans o) :
    Still q w (World.act o a w).2 := by
  cases o with
  | cdb | eval | settle | plugin => exact h.elim
  | rdb region o =>
    have hsame : w.afterRdb region o = w := by
      rw [World.afterRdb, exec_of_target_none h, World.setRdb_self]
    rw [World.act_rdb_snd, hsame, ite_self]
    exact .refl
  | _ => exact ⟨rfl, rfl, fun _ _ => rfl⟩

theorem ends_still {α : Type} {p : M α} {q : DeploymentQid} (hp : p.issues (Asks q)) :
    Ends p (fun _ w' => Still q w w') w :=
  always_of_issues hp (fun _ ho _ hw' => ⟨trivial, fun a _ => hw'.trans (still_act ho a)⟩)
    Still.refl

theorem localOwner_foldl {α : Type} {f : View → α → View}
    (hf : ∀ v a, (f v a).ctx.localOwner = v.ctx.localOwner) (l : List α) (v : View) :
    (l.foldl f v).ctx.localOwner = v.ctx.localOwner := by
  induction l generalizing v with
  | nil => rfl
  | cons a l ih => exact (ih (f v a)).trans (hf v a)

/-- What follows a step that can come to anything. -/
theorem ends_after {α β : Type} {p : M α} {f : α → M β} {Q : Except String β → World → Prop}
    (hf : ∀ a w', Ends (f a) Q w') (he : ∀ e w', Q (.error e) w') : Ends (p >>= f) Q w :=
  always_then (I := fun _ => True) (always_of_forall (fun _ _ => trivial) (fun _ _ => trivial) ..)
    (fun a w' _ => hf a w') fun e w' _ => he e w'

theorem ends_loadForeign (v : View) (dep : RepoQid × DeploymentQid)
    (hv : v.ctx.localOwner = wk.client) : Ends (loadForeign wk v dep)
    (fun r _ => ∀ v', r = .ok v' → v'.ctx.localOwner = wk.client) w := by
  refine ends_after (fun rows w' => ?_) fun _ _ _ h => nomatch h
  cases rows with
  | error e =>
    rintro _ ⟨⟩
    exact hv
  | ok rows =>
  refine ends_after (fun resources w'' => ?_) fun _ _ _ h => nomatch h
  rintro _ ⟨⟩
  exact (localOwner_foldl (f := View.absorbForeign dep.2) (fun _ _ => rfl) resources _).trans hv

variable (wk) in
/-- Whatever a worker puts together, it is the context of its own deployment. -/
theorem ends_gather (resolution : Resolution) : Ends (gather wk resolution)
    (fun r _ => ∀ v, r = .ok v → v.ctx.localOwner = wk.client) w := by
  refine always_bind.2 (always_mono (always_foldlM
    (I := fun v : View => v.ctx.localOwner = wk.client)
    (fun v dep _ hv => ends_loadForeign v dep hv) rfl w) fun r w' hr => ?_)
  cases r with
  | error e => exact fun _ h => nomatch h
  | ok v =>
  refine ends_after (fun home w' => ?_) fun _ _ _ h => nomatch h
  refine ends_after (fun index w' => ?_) fun _ _ _ h => nomatch h
  refine ends_after (fun remote w' => ?_) fun _ _ _ h => nomatch h
  rintro _ ⟨⟩
  refine (localOwner_foldl (f := View.absorbResource _) (fun _ _ => rfl) ..).trans ?_
  refine (localOwner_foldl (f := View.absorbResource _) (fun _ _ => rfl) ..).trans ?_
  refine (localOwner_foldl ?_ ..).trans (hr v rfl)
  exact fun _ _ => rfl

theorem ends_evaluate (resolution : Resolution) (asg : Program) :
    Ends (evaluate wk resolution asg) (fun _ w' => Still wk.client w w') w := by
  have hgather := always_and (ends_gather wk resolution)
    (ends_still (w := w) (issues_asks (q := wk.client) (gather_issues resolution)))
  refine always_bind.2 (always_mono (always_imp (fun _ _ h => h.1) hgather) ?_)
  rintro r w' ⟨hlocal, hstill⟩
  cases r with
  | error e => exact hstill
  | ok v =>
  refine always_bind.2 ⟨trivial, fun _ _ => ?_⟩
  have hlog : (World.act (.eval asg v.ctx) () w').2.evaluations =
      w'.evaluations ++ [(wk.client, asg.eval v.ctx)] := by
    rw [← hlocal v rfl]
    rfl
  have heval : Still wk.client w' (World.act (.eval asg v.ctx) () w').2 :=
    ⟨rfl, rfl, fun q' hq' => lastEvaluation_append_ne hlog hq'⟩
  refine always_bind.2 (always_mono (ends_still
    (issues_mono (fun _ => asks_of_drains) (drain_issues v _ _))) fun r w'' h => ?_)
  cases r with
  | error | ok => exact (hstill.trans heval).trans h

/-- Both databases are left alone, and what is published is in the name of the deployment, each
message in the region of its resource. -/
def Publishes (q : DeploymentQid) (w w' : World) : Prop :=
  w'.cdb = w.cdb ∧ w'.rdb = w.rdb ∧ ∃ ms, w'.rtq = w.rtq ++ ms ∧ ∀ m ∈ ms, Mine q m.1 m.2

theorem Publishes.refl {q : DeploymentQid} : Publishes q w w :=
  ⟨rfl, rfl, [], (List.append_nil _).symm, List.forall_mem_nil _⟩

theorem publishes_act {q : DeploymentQid} {o : Op} (h : Evaluates q o) (a : Ans o) :
    Publishes q w (World.act o a w).2 := by
  cases o with
  | cdb | settle | plugin => exact h.elim
  | rdb region o =>
    have hsame : w.afterRdb region o = w := by
      rw [World.afterRdb, exec_of_target_none h, World.setRdb_self]
    rw [World.act_rdb_snd, hsame, ite_self]
    exact .refl
  | enqueue region m =>
    have hsent : Publishes q w { w with rtq := w.rtq ++ [(region, m)] } :=
      ⟨rfl, rfl, [(region, m)], rfl, List.forall_mem_singleton.2 h⟩
    cases a with
    | done cut => exact hsent
    | error applied msg =>
      cases applied with
      | true => exact hsent
      | false => exact .refl
  | _ => exact .refl

/-- **Compiling and evaluating changes no database and speaks for nobody else, however far it
gets.** -/
theorem compileAndEvaluate_publishes (wk : Worker) (ts : List World.sem.Turn) (w : World) :
    Publishes wk.client w ((compileAndEvaluate wk).exec World.sem ts w).2 := by
  have hcalls : Always (fun _ => Evaluates wk.client) (compileAndEvaluate wk) (fun _ _ => True) w :=
    always_of_issues (T := fun _ => True) compileAndEvaluate_issues
      (fun _ ho _ _ => ⟨ho, fun _ _ => trivial⟩) trivial
  refine exec_rel (fun _ => .refl) (fun _ _ _ h h' => ?_) (fun _ _ a ho _ => publishes_act ho a)
    hcalls fun _ _ _ => trivial
  obtain ⟨hcdb, hrdb, ms, hrtq, hms⟩ := h
  obtain ⟨hcdb', hrdb', ms', hrtq', hms'⟩ := h'
  exact ⟨hcdb'.trans hcdb, hrdb'.trans hrdb, ms ++ ms', by rw [hrtq', hrtq, List.append_assoc],
    List.forall_mem_append.2 ⟨hms, hms'⟩⟩

/-- The worker is for the same deployment, and has not seen the end of it. -/
structure Same (wk wk' : Worker) : Prop where
  client : wk'.client = wk.client
  terminalReported : wk'.terminalReported = wk.terminalReported
  lastObservedState : wk'.lastObservedState = wk.lastObservedState

theorem Same.refl : Same wk wk := ⟨rfl, rfl, rfl⟩

theorem ends_compileAndEvaluate : Ends (compileAndEvaluate wk)
    (fun r w' => Still wk.client w w' ∧ ∀ res, r = .ok res → Same wk res.2) w := by
  have hevaluate : ∀ wk' : Worker, Same wk wk' → ∀ resolution asg w', Still wk.client w w' →
      Ends (do return (← (evaluate wk' resolution asg).attempt, wk'))
        (fun r w'' => Still wk.client w w'' ∧ ∀ res, r = .ok res → Same wk res.2) w' := by
    intro wk' hsame resolution asg w' hstill
    refine always_bind.2 (always_attempt.2 (always_mono
      (ends_evaluate resolution asg) fun r w'' h => ⟨hstill.trans (hsame.client ▸ h), ?_⟩))
    rintro _ ⟨⟩
    exact hsame
  refine always_bind.2 (always_attempt.2 ⟨trivial, fun a _ => always_ofExcept.2 ?_⟩)
  have hask : Still wk.client w (World.act (.resolveAll wk.client) a w).2 :=
    still_act (o := .resolveAll wk.client) trivial a
  cases a with
  | error e => exact ⟨hask, by rintro _ ⟨⟩; exact .refl⟩
  | ok resolution =>
  have hok : (World.sem.act (.resolveAll wk.client) (.ok resolution) w).1 = .ok resolution := rfl
  rw [hok]
  dsimp only
  split
  · exact hevaluate wk .refl _ _ _ hask
  refine always_bind.2 (always_attempt.2 ⟨trivial, fun a _ => always_ofExcept.2 ?_⟩)
  cases a with
  | error e => exact ⟨hask, by rintro _ ⟨⟩; exact .refl⟩
  | ok compiled =>
  cases compiled with
  | errors message => exact ⟨hask, by rintro _ ⟨⟩; exact ⟨rfl, rfl, rfl⟩⟩
  | program asg =>
  exact hevaluate { wk with cachedCompile := some ⟨resolution.key, asg⟩ } ⟨rfl, rfl, rfl⟩
    resolution asg _ hask

end Parts

/-! ## When a worker parks

A worker leaves its loop only where nothing is left to do for its deployment.  Each part of an
iteration is gone through for what it leaves in the row of the deployment and in those of its
predecessors. -/

/-- Desired, bootstrapped and not superseded. -/
structure Settled (s : Store) (q : DeploymentQid) : Prop where
  row : s.find q = some ⟨q, desired, true⟩
  unsuperseded : s.superseding q = none

/-- If the result ends the loop, the deployment is settled. -/
def Parks (q : DeploymentQid) (r : Except String WorkResult) (s : Store) : Prop :=
  ∀ result, r = .ok result → result.keepRunning = false → Settled s q

section Desired

variable {wk : Worker} {w : World} {s : Store} {q : DeploymentQid}

omit [SclData] in
theorem parks_error {e : String} : Parks q (.error e) s :=
  fun _ h => nomatch h

omit [SclData] in
theorem parks_success {state : DeploymentState} : Parks q (.ok (.success state)) s := by
  rintro _ ⟨⟩ h
  cases h

omit [SclData] in
/-- What a deployment supersedes is superseded. -/
theorem superseding_of_mem {p : DeploymentQid}
    (h : p ∈ (s.superseded q).map fun d => (⟨q.environment, d⟩ : DeploymentQid)) :
    (s.superseding p).isSome := by
  obtain ⟨d, hd, rfl⟩ := List.mem_map.1 h
  obtain ⟨⟨p, by_⟩, he, rfl⟩ := List.mem_map.1 hd
  obtain ⟨hmem, hkey⟩ := List.mem_filter.1 he
  have henv : p.environment = q.environment := by simpa using ((Bool.and_eq_true _ _).mp hkey).1
  have hp : (⟨q.environment, p.deployment⟩ : DeploymentQid) = p := by rw [← henv]
  rw [hp]
  exact Option.isSome_iff_exists.2 ⟨by_, AList.mem_lookup_iff.2 hmem⟩

omit [SclData] in
theorem find_move_ne {p : DeploymentQid} {state : DeploymentState} (h : q ≠ p) :
    (s.move p state).find q = s.find q := by
  rw [Store.move]
  split
  · rfl
  · exact find_put_ne h

/-- Bringing down the predecessors leaves a settled deployment as it is. -/
theorem ends_transitionSuperseded (hq : Settled w.cdb wk.client) :
    Ends (transitionSupersededToUndesired wk)
      (fun _ w' => Stays wk.client w w' ∧ Settled w'.cdb wk.client) w := by
  refine always_bind.2 (ends_superseded ?_)
  refine always_forM (fun p hp w' hw' => ?_) ⟨.refl, hq⟩
  obtain ⟨hstays, hset⟩ := hw'
  have hsome := hstays.cdb.superseded p (superseding_of_mem hp)
  have hne : wk.client ≠ p := by
    rintro h
    rw [← h, hset.unsuperseded] at hsome
    cases hsome
  refine always_bind.2 (ends_get (fun d _ => ?_) fun _ => ⟨hstays, hset⟩)
  change Ends (if d.state = desired ∨ d.state = lingering then _ else _) _ _
  split
  · refine ends_set ⟨hstays.trans (stays_move fun _ => hsome), ?_, ?_⟩
    · exact (find_move_ne hne).trans hset.row
    · exact (superseding_move ..).trans hset.unsuperseded
  · exact ⟨hstays, hset⟩

variable {deployment : Deployment}

section

variable (hrow : w.cdb.find wk.client = some deployment) (hstate : deployment.state = desired)
  (hnone : w.cdb.superseding wk.client = none)

include hrow hstate hnone

/-- The flag is set, unless it is set already. -/
theorem ends_bootstrap {rest : M WorkResult}
    (hrest : ∀ w', Settled w'.cdb wk.client →
      Ends rest (fun r w'' => Stays wk.client w' w'' ∧ Parks wk.client r w''.cdb) w') :
    Ends (do
      if !deployment.bootstrapped then DeploymentClient.setProgress wk.client true
      rest) (fun r w' => Stays wk.client w w' ∧ Parks wk.client r w'.cdb) w := by
  obtain ⟨hqid, -⟩ := Store.find_eq_some hrow
  obtain ⟨qid, state, bootstrapped⟩ := deployment
  obtain rfl : qid = wk.client := hqid
  obtain rfl : state = desired := hstate
  cases bootstrapped with
  | true => exact hrest w ⟨hrow, hnone⟩
  | false =>
  refine always_bind.2 (ends_setProgress (fun d hd => ?_) fun h => ?_)
  · obtain rfl := Option.some.inj (hrow.symm.trans hd)
    have hput := stays_put (w := w) (q := wk.client) (d := ⟨wk.client, desired, true⟩)
      fun h => absurd rfl h
    refine always_mono (hrest _ ⟨?_, ?_⟩) fun r w' h => ⟨hput.trans h.1, h.2⟩
    · exact find_put_self ⟨wk.client, desired, true⟩
    · exact (superseding_put ..).trans hnone
  · rw [hrow] at h
    cases h

theorem ends_conclude {outcome : EvalOutcome} :
    Ends (conclude wk deployment outcome)
      (fun r w' => Stays wk.client w w' ∧ Parks wk.client r w'.cdb) w := by
  rw [conclude]
  split
  · exact ⟨.refl, parks_success⟩
  refine ends_bootstrap hrow hstate hnone fun w' hset => ?_
  refine always_bind.2 (always_mono (ends_transitionSuperseded hset) ?_)
  rintro r w'' ⟨hstays, hset'⟩
  cases r with
  | error e => exact ⟨hstays, parks_error⟩
  | ok _ =>
  change Ends (if _ then _ else _) _ _
  split
  · exact ⟨hstays, fun _ _ _ => hset'⟩
  · exact ⟨hstays, parks_success⟩

theorem ends_runWithoutMain :
    Ends (runWithoutMain wk deployment)
      (fun r w' => Stays wk.client w w' ∧ Parks wk.client r w'.cdb) w := by
  have hrest : ∀ w', Settled w'.cdb wk.client →
      Ends (do
        transitionSupersededToUndesired wk
        return (⟨false, desired, .success, false⟩ : WorkResult))
        (fun r w'' => Stays wk.client w' w'' ∧ Parks wk.client r w''.cdb) w' := by
    intro w' hset
    refine always_bind.2 (always_mono (ends_transitionSuperseded hset) ?_)
    rintro r w'' ⟨hstays, hset'⟩
    cases r with
    | error e => exact ⟨hstays, parks_error⟩
    | ok _ => exact ⟨hstays, fun _ _ _ => hset'⟩
  have hboot := ends_bootstrap hrow hstate hnone hrest
  obtain ⟨qid, state, bootstrapped⟩ := deployment
  obtain rfl : qid = wk.client := (Store.find_eq_some hrow).1
  obtain rfl : state = desired := hstate
  cases bootstrapped with
  | true => exact ⟨.refl, fun _ _ _ => ⟨hrow, hnone⟩⟩
  | false => exact hboot

theorem ends_settleOutcome {outcome : EvalOutcome} :
    Ends (settleOutcome wk deployment outcome)
      (fun r w' => Stays wk.client w w' ∧ Parks wk.client r w'.cdb) w := by
  have hconclude : ∀ w', Still wk.client w w' → Ends (conclude wk deployment outcome)
      (fun r w'' => Stays wk.client w w'' ∧ Parks wk.client r w''.cdb) w' := by
    intro w' hstill
    refine always_mono (ends_conclude (by rwa [hstill.cdb]) hstate (by rwa [hstill.cdb])) ?_
    exact fun r w'' h => ⟨hstill.stays.trans h.1, h.2⟩
  rw [settleOutcome]
  split
  · exact ⟨.refl, fun _ h hkeep => by cases h; cases hkeep⟩
  dsimp only
  split
  · refine always_bind.2 (always_mono (ends_still (destroyUntouched_issues _)) ?_)
    intro r w' hstill
    cases r with
    | error e => exact ⟨hstill.stays, parks_error⟩
    | ok _ => exact hconclude w' hstill
  · exact hconclude w .refl

end

/-- The conclusion about a part of an iteration that hands the worker back. -/
def Leaves (wk : Worker) (w : World) (r : Except String (Except String WorkResult × Worker))
    (w' : World) : Prop :=
  Stays wk.client w w' ∧ ∀ res, r = .ok res → Same wk res.2 ∧ Parks wk.client res.1 w'.cdb

theorem leaves_attempt {wk' : Worker} {p : M WorkResult} {w' : World} (hstill : Still wk.client w w')
    (hsame : Same wk wk')
    (h : Ends p (fun r w'' => Stays wk.client w' w'' ∧ Parks wk.client r w''.cdb) w') :
    Ends (do return (← p.attempt, wk')) (Leaves wk w) w' := by
  refine always_bind.2 (always_attempt.2 (always_mono h fun r w'' hr => ?_))
  refine ⟨hstill.stays.trans hr.1, ?_⟩
  rintro _ ⟨⟩
  exact ⟨hsame, hr.2⟩

theorem ends_reconcile (hrow : w.cdb.find wk.client = some deployment)
    (hstate : deployment.state = desired) :
    Ends (reconcile wk deployment) (Leaves wk w) w := by
  refine always_bind.2 (always_attempt.2 (ends_getSuperseding ?_))
  cases hnone : w.cdb.superseding wk.client with
  | some by_ =>
    refine always_bind.2 (always_attempt.2 (ends_set ⟨stays_move fun h => absurd rfl h, ?_⟩))
    rintro _ ⟨⟩
    exact ⟨.refl, parks_success⟩
  | none =>
  refine always_bind.2 (always_attempt.2 (ends_cdb ?_))
  generalize (Store.exec none (.pathHash _ _ "Main.scl") w.cdb).1 = hash
  cases hash with
  | none => exact leaves_attempt .refl .refl (ends_runWithoutMain hrow hstate hnone)
  | some _ =>
  refine always_bind.2 (always_mono ends_compileAndEvaluate ?_)
  rintro r w' ⟨hstill, hsame⟩
  cases r with
  | error e => exact ⟨hstill.stays, fun _ h => nomatch h⟩
  | ok res =>
  obtain ⟨outcome, wk'⟩ := res
  have hsame' := hsame _ rfl
  cases outcome with
  | error e =>
    refine ⟨hstill.stays, ?_⟩
    rintro _ ⟨⟩
    exact ⟨hsame', fun _ h hkeep => by cases h; cases hkeep⟩
  | ok outcome =>
  refine leaves_attempt hstill hsame' ?_
  rw [← hsame'.client]
  refine ends_settleOutcome ?_ hstate ?_
  · rwa [hstill.cdb, hsame'.client]
  · rwa [hstill.cdb, hsame'.client]

theorem ends_runDesired {preview : SdbPreview}
    (hrow : w.cdb.find wk.client = some deployment) (hstate : deployment.state = desired) :
    Ends (runDesired wk deployment preview) (Leaves wk w) w := by
  rw [runDesired]
  split
  · refine ⟨.refl, ?_⟩
    rintro _ ⟨⟩
    exact ⟨.refl, parks_success⟩
  refine always_bind.2 (always_mono (ends_still (q := wk.client)
    (issues_asks (backingOff_issues _))) ?_)
  intro r w' hstill
  cases r with
  | error e =>
    refine ⟨hstill.stays, ?_⟩
    rintro _ ⟨⟩
  | ok failure =>
  cases failure with
  | some failure =>
    refine ⟨hstill.stays, ?_⟩
    rintro _ ⟨⟩
    exact ⟨.refl, fun _ h hkeep => by cases h; cases hkeep⟩
  | none =>
  refine always_mono (ends_reconcile (by rwa [hstill.cdb]) hstate) ?_
  exact fun r w'' h => ⟨hstill.stays.trans h.1, h.2⟩

end Desired

section Others

variable {wk : Worker} {w : World}

variable (fuel : ℕ)

/-- A lingering deployment writes its own row only. -/
theorem ends_followChain (cursor : DeploymentQid) (seen : List DeploymentId) :
    Ends (followChain wk fuel cursor seen) (fun _ w' => Stays wk.client w w') w := by
  induction fuel generalizing cursor seen with
  | zero => exact .refl
  | succ fuel ih =>
  refine always_bind.2 (ends_getSuperseding ?_)
  cases w.cdb.superseding cursor with
  | none => exact Stays.refl
  | some superseding =>
  refine always_bind.2 (ends_get (fun d _ => ?_) fun _ => .refl)
  change Ends (if _ then _ else _) _ _
  split
  · exact Stays.refl
  refine always_bind.2 (ends_getSuperseding ?_)
  generalize w.cdb.superseding _ = next
  cases next with
  | some _ => exact ih _ _
  | none =>
  change Ends (if _ then _ else _) _ _
  split
  · exact ends_set (stays_move fun h => absurd rfl h)
  · exact Stays.refl

/-- So does an undesired one. -/
theorem ends_runUndesired : Ends (runUndesired wk) (fun _ w' => Stays wk.client w w') w := by
  refine always_then (I := Still wk.client w)
    (ends_still (issues_asks (collectResources_issues _))) (fun all w' hstill => ?_)
    fun _ _ h => h.stays
  refine always_then (I := Still wk.client w) (always_mono (ends_still
    (destroyResources_issues _)) fun _ _ h => hstill.trans h) (fun _ w'' hstill' => ?_)
    fun _ _ h => h.stays
  split
  · exact hstill'.stays
  split
  · exact ends_set (hstill'.stays.trans (stays_move fun h => absurd rfl h))
  · exact hstill'.stays

theorem ends_dispatch {deployment : Deployment} {preview : SdbPreview}
    (hrow : w.cdb.find wk.client = some deployment) :
    Ends (dispatch fuel wk deployment preview) (Leaves wk w) w := by
  have hother : ∀ (p : M Unit) (state : DeploymentState),
      Ends p (fun _ w' => Stays wk.client w w') w →
      Ends (do return ((← p.attempt).map fun _ => .success state, wk)) (Leaves wk w) w := by
    intro p state hp
    refine always_bind.2 (always_attempt.2 (always_mono hp fun r w' h => ?_))
    refine ⟨h, ?_⟩
    rintro _ ⟨⟩
    cases r with
    | error e => exact ⟨.refl, parks_error⟩
    | ok _ => exact ⟨.refl, parks_success⟩
  rw [dispatch]
  split
  · exact ⟨.refl, by rintro _ ⟨⟩; exact ⟨.refl, parks_success⟩⟩
  · next hstate => exact ends_runDesired hrow hstate
  · exact hother _ _ (ends_followChain fuel _ _)
  · exact hother _ _ ends_runUndesired

/-- The worker can go on: it has neither reported nor seen the end of its deployment. -/
structure Worker.Alive (wk : Worker) : Prop where
  notReported : wk.terminalReported = false
  notDown : wk.lastObservedState ≠ some down

/-- What an iteration has come to before it is reported: the other deployments have been spared,
and a result that is going to end the loop is right about the deployment. -/
def Concluded (wk : Worker) (w : World) (r : Except String (Except String WorkResult × Worker))
    (w' : World) : Prop :=
  Stays wk.client w w' ∧ ∀ res, r = .ok res → res.2.client = wk.client ∧
    res.2.terminalReported = wk.terminalReported ∧
    match res.1 with
    | .error _ => res.2.lastObservedState = wk.lastObservedState
    | .ok result => res.2.lastObservedState = some result.state ∧
      w'.cdb.state wk.client = some result.state ∧ Parks wk.client (.ok result) w'.cdb

theorem ends_work {preview : SdbPreview} : Ends (work fuel wk preview) (Concluded wk w) w := by
  refine always_bind.2 (always_attempt.2 (ends_get (fun d hd => ?_) fun _ => ?_))
  · refine always_bind.2 (always_mono (ends_dispatch fuel hd) ?_)
    rintro r w' ⟨hstays, hres⟩
    cases r with
    | error e => exact ⟨hstays, fun _ h => nomatch h⟩
    | ok res =>
    obtain ⟨result, wk'⟩ := res
    obtain ⟨hsame, hparks⟩ := hres _ rfl
    cases result with
    | error e =>
      refine ⟨hstays, ?_⟩
      rintro _ ⟨⟩
      exact ⟨hsame.client, hsame.terminalReported, hsame.lastObservedState⟩
    | ok result =>
    refine always_bind.2 (always_attempt.2 (ends_get (fun final hfinal => ?_) fun _ => ?_))
    · refine ⟨hstays, ?_⟩
      rintro _ ⟨⟩
      refine ⟨hsame.client, hsame.terminalReported, rfl, ?_, ?_⟩
      · rw [hsame.client] at hfinal
        exact (Store.find_eq_some hfinal).2
      · rintro _ ⟨⟩ hkeep
        exact hparks _ rfl hkeep
    refine ⟨hstays, ?_⟩
    rintro _ ⟨⟩
    exact ⟨hsame.client, hsame.terminalReported, hsame.lastObservedState⟩
  refine ⟨.refl, ?_⟩
  rintro _ ⟨⟩
  exact ⟨rfl, rfl, rfl⟩

/-- The result that is reported. -/
def reported (wk : Worker) : Except String WorkResult → WorkResult
  | .ok result => result
  | .error e => .ofError wk e

/-- What is reported is terminal only when the deployment is down or settled. -/
theorem terminal_of_concluded {res : Except String WorkResult × Worker} (halive : wk.Alive)
    {w' : World} (h : Concluded wk w (.ok res) w') :
    if (reported res.2 res.1).state == down || !(reported res.2 res.1).keepRunning
    then w'.cdb.state wk.client = some down ∨ Settled w'.cdb wk.client
    else res.2.Alive := by
  obtain ⟨result, wk'⟩ := res
  obtain ⟨-, hterminal, hresult⟩ := h.2 _ rfl
  have hreported : wk'.terminalReported = false := hterminal.trans halive.notReported
  cases result with
  | error e =>
    have hlast : wk'.lastObservedState = wk.lastObservedState := hresult
    have hstate : wk'.lastObservedState.getD desired ≠ down := by
      rw [hlast]
      intro h
      have hnotDown := halive.notDown
      cases hw : wk.lastObservedState with
      | none => rw [hw] at h; cases h
      | some state =>
      rw [hw] at h hnotDown
      exact hnotDown (congrArg some h)
    rw [if_neg]
    · exact ⟨hreported, hlast ▸ halive.notDown⟩
    · change ¬(wk'.lastObservedState.getD desired == down || !true) = true
      simpa using hstate
  | ok result =>
  obtain ⟨hlast, hstate, hparks⟩ := hresult
  change if result.state == down || !result.keepRunning then _ else _
  split
  · next hterm =>
    rcases (Bool.or_eq_true _ _).mp hterm with hdown | hkeep
    · exact .inl (hstate.trans (congrArg some (eq_of_beq hdown)))
    · exact .inr (hparks result rfl (by simpa using hkeep))
  next hterm =>
  refine ⟨hreported, fun hdown => hterm ?_⟩
  rw [Option.some.inj (hlast.symm.trans hdown)]
  rfl

theorem ends_noteFailure (result : WorkResult) : Ends (noteFailure wk result)
    (fun r w' => Still wk.client w w' ∧ ∀ wk', r = .ok wk' → Same wk wk') w := by
  rw [noteFailure]
  split
  · exact ⟨.refl, by rintro _ ⟨⟩; exact ⟨rfl, rfl, rfl⟩⟩
  split
  · exact ⟨.refl, by rintro _ ⟨⟩; exact .refl⟩
  refine ⟨trivial, fun a _ => ⟨?_, ?_⟩⟩
  · exact still_act (o := .now) trivial a
  · rintro _ ⟨⟩
    exact ⟨rfl, rfl, rfl⟩

/-- **The end of an iteration.**  Other deployments are spared.  If the loop goes on, the worker is
still alive; if it ends, the deployment is down or settled. -/
theorem ends_workAndReport (halive : wk.Alive) :
    Ends (workAndReport fuel wk) (fun r w' => Stays wk.client w w' ∧ ∀ stop wk',
      r = .ok (stop, wk') → wk'.client = wk.client ∧
        if stop then w'.cdb.state wk.client = some down ∨ Settled w'.cdb wk.client
        else wk'.Alive) w := by
  rw [workAndReport, halive.notReported]
  refine always_then (I := Still wk.client w) (ends_still (issues_asks readSdbPreview_issues))
    (fun preview w₁ h₁ => ?_) fun _ _ h => ⟨h.stays, fun _ _ h => nomatch h⟩
  refine always_bind.2 (always_mono (ends_work fuel) fun r w₂ h₂ => ?_)
  cases r with
  | error e => exact ⟨h₁.stays.trans h₂.1, fun _ _ h => nomatch h⟩
  | ok res =>
  obtain ⟨hclient, -⟩ := h₂.2 _ rfl
  have hterminal := terminal_of_concluded halive h₂
  refine always_bind.2 (always_mono (ends_noteFailure _) ?_)
  rintro r w₃ ⟨h₃, hsame⟩
  rw [hclient] at h₃
  have hstays := (h₁.stays.trans h₂.1).trans h₃.stays
  cases r with
  | error e => exact ⟨hstays, fun _ _ h => nomatch h⟩
  | ok wk' =>
  have hsame' := hsame wk' rfl
  change Ends (if (reported res.2 res.1).state == down || !(reported res.2 res.1).keepRunning
    then _ else _) _ _
  split
  · next hterm =>
    rw [if_pos hterm] at hterminal
    refine always_then (I := Still wk.client w₃)
      (ends_still (issues_asks (publishTerminalReport_issues _ _))) (fun _ w₄ h₄ => ?_)
      fun _ _ h => ⟨hstays.trans h.stays, fun _ _ h => nomatch h⟩
    refine ⟨hstays.trans h₄.stays, ?_⟩
    rintro _ _ ⟨⟩
    refine ⟨hsame'.client.trans hclient, ?_⟩
    rw [if_pos rfl, h₄.cdb, h₃.cdb]
    exact hterminal
  next hterm =>
  rw [if_neg hterm] at hterminal
  refine always_then (I := Still wk.client w₃) (ends_still (issues_asks (issues_bind
    (issues_attempt (report_issues _ _)) fun _ => trivial))) (fun _ w₄ h₄ => ?_)
    fun _ _ h => ⟨hstays.trans h.stays, fun _ _ h => nomatch h⟩
  refine ⟨hstays.trans h₄.stays, ?_⟩
  rintro _ _ ⟨⟩
  refine ⟨hsame'.client.trans hclient, ?_, ?_⟩
  · rw [hsame'.terminalReported]
    exact hterminal.notReported
  · rw [hsame'.lastObservedState]
    exact hterminal.notDown

end Others

end Skyr.De
