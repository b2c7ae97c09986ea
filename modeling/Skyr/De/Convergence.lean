import Skyr.De.Requests
import Skyr.De.Teardown

/-!
# What an iteration concludes from an evaluation

After the evaluation of a desired deployment the worker draws conclusions: that everything has been
explored, so that what was not touched can go, and that everything has converged, so that the
deployment is bootstrapped and its predecessors can come down.  Both are read off the effects that
were announced in the deployment's own name, and off nothing else.

Two things are therefore missed.

* An evaluation that ended in an error has announced only the effects before the error.  The worker
  takes them for all there are (`failed_evaluation_harmless_iff`).
* A resource call in the scope of a foreign or an orphaned package can be pending, and the program
  has then not been explored behind it.  Its effect is dropped before anything is counted
  (`pending_respected_iff`).

Both theorems say exactly when no harm comes of it.  They are about the part of an iteration from
the evaluation on, for any program, any view it is evaluated in and any state of the databases.
-/

namespace Skyr.De

open List Rdb.NamespaceClient

open Prog Cdb.DeploymentClient

variable [SclData]

open DeploymentState

/-- The part of an iteration that follows the gathering of the view. -/
def evaluateAndSettle (wk : Worker) (deployment : Deployment) (resolution : Resolution)
    (asg : Program) (v : View) : M WorkResult := do
  let outcome ← evaluateIn wk resolution asg v
  settleOutcome wk deployment outcome

/-! ## The part of an iteration

The theorems of this module begin at the view.  They are about the worker, since the worker gets
there: nothing between the beginning of `runDesired` and the evaluation keeps it from it. -/

section Whole

variable {wk : Worker} {deployment : Deployment} {P : World → Op → Prop} {w : World}

theorem evaluate_settle (wk : Worker) (deployment : Deployment) (resolution : Resolution)
    (asg : Program) :
    (gather wk resolution >>= evaluateAndSettle wk deployment resolution asg) =
      evaluate wk resolution asg >>= settleOutcome wk deployment :=
  (Prog.bind_assoc _ _ _).symm

theorem runDesired_eq_reconcile {preview : SdbPreview} (hcrash : preview.anyOpenCrash = false)
    (hfailures : preview.failureCount = 0) :
    runDesired wk deployment preview = reconcile wk deployment := by
  rw [runDesired, hcrash, hfailures]
  rfl

/-- **The conclusions are drawn by the worker.**  The worker of a deployment that nothing
supersedes, without failures or crashes and with a `Main.scl` in its commit, evaluates the program
it has kept once the surroundings resolve the packages to those it was compiled with.  What every
iteration of it keeps to, the evaluation and the settlement keep to. -/
theorem evaluateAndSettle_of_runDesired {preview : SdbPreview} {resolution : Resolution}
    {asg : Program} {hash : ObjId} (hcrash : preview.anyOpenCrash = false)
    (hfailures : preview.failureCount = 0) (hnone : w.cdb.superseding wk.client = none)
    (hmain : w.cdb.pathHash wk.client.environment.repo wk.client.deployment.commit "Main.scl" =
      some hash)
    (hcached : wk.cachedCompile = some ⟨resolution.key, asg⟩)
    (h : Always P (runDesired wk deployment preview) (fun _ _ => True) w) :
    Always P (gather wk resolution >>= evaluateAndSettle wk deployment resolution asg)
      (fun _ _ => True) w := by
  rw [runDesired_eq_reconcile hcrash hfailures] at h
  have hkept : (wk.cachedCompile.filter fun c => c.key == resolution.key) =
      some ⟨resolution.key, asg⟩ := by
    rw [hcached]
    simp
  have hsuperseding := (always_attempt.1 (always_bind.1 h)).2 (.done none) trivial
  simp only [World.sem, World.act, Reply.answer, Cdb.Store.exec, hnone] at hsuperseding
  have hhash := (always_attempt.1 (always_bind.1 hsuperseding)).2 (.done none) trivial
  simp only [World.act, Reply.answer, Cdb.Store.exec, hmain] at hhash
  have hresolved := (always_attempt.1 (always_bind.1 (always_bind.1 hhash))).2 (.ok resolution)
    trivial
  simp only [World.act, M.ofExcept, always, hkept] at hresolved
  rw [evaluate_settle]
  refine always_bind.2 (always_mono (always_attempt.1 (always_bind.1 hresolved)) ?_)
  rintro (e | outcome) w' hsettled
  · trivial
  · exact always_mono (always_attempt.1 (always_bind.1 hsettled)) fun _ _ _ => trivial

end Whole

/-! ## What is drained -/

section Drain

variable {wk : Worker} {v : View}

/-- An effect announced in the deployment's own name. -/
def Own (wk : Worker) (e : Effect) : Prop := e.owner = some wk.client

instance (e : Effect) : Decidable (Own wk e) := inferInstanceAs (Decidable (_ = _))

/-- What draining a list of effects comes to. -/
def drained (wk : Worker) (v : View) (effects : List Effect) (acc : Drained) : Drained :=
  effects.foldl (fun acc e => if Own wk e then acc.record v e else acc) acc

/-- The two databases are the same. -/
def Alike (w w' : World) : Prop := w'.cdb = w.cdb ∧ w'.rdb = w.rdb

variable (effects : List Effect)

variable (acc : Drained)

/-- Draining comes to the same whatever is replied. -/
theorem drain_result {σ : Type} {S : Sem Resp σ} {ok : (o : Op) → S.Ans o → Prop}
    (s : σ) :
    (effects.foldlM (drainEffect wk v) acc).always S ok (fun _ _ => True)
      (fun r _ => r = .ok (drained wk v effects acc)) s := by
  have heffect : ∀ acc e s, (drainEffect wk v acc e).always S ok (fun _ _ => True)
      (fun r _ => r = .ok (if Own wk e then acc.record v e else acc)) s := by
    intro acc e s
    rw [drainEffect]
    cases howner : e.owner with
    | none =>
      have hown : ¬Own wk e := by
        rw [Own, howner]
        simp
      rw [if_neg hown]
      rfl
    | some owner =>
    change Prog.always S ok _ (if owner ≠ wk.client then _ else _) _ s
    by_cases hlocal : owner = wk.client
    · have hown : Own wk e := by rw [Own, howner, hlocal]
      rw [if_neg (not_not.2 hlocal), if_pos hown]
      cases effectMessage wk v e with
      | none => rfl
      | some m =>
      refine always_bind.2 (always_bind.2 (always_attempt.2 ⟨trivial, ?_⟩))
      exact fun a _ => always_ofExcept.2 rfl
    have hown : ¬Own wk e := by rw [Own, howner]; exact fun h => hlocal (Option.some.inj h)
    rw [if_pos hlocal, if_neg hown]
    rfl
  induction effects generalizing acc s with
  | nil => rfl
  | cons e effects ih =>
  rw [foldlM_cons]
  refine always_bind.2 (always_mono (heffect acc e s) ?_)
  rintro r s' rfl
  exact ih _ s'

/-- Draining publishes messages, none of them a destroy. -/
theorem drain_spec (w : World) :
    Always (fun _ o => Drains wk.client o) (effects.foldlM (drainEffect wk v) acc)
      (fun r w' => r = .ok (drained wk v effects acc) ∧ Alike w w') w := by
  have hissues : Always (fun _ o => Drains wk.client o) (effects.foldlM (drainEffect wk v) acc)
      (fun _ w' => Alike w w') w := by
    refine always_of_issues (drain_issues v effects acc) (fun o ho w' hw' => ⟨ho, ?_⟩) ⟨rfl, rfl⟩
    cases o with
    | enqueue region m => exact fun _ _ => hw'
    | _ => exact ho.elim
  exact always_imp (fun _ _ h => h.2) (always_and (drain_result effects acc w) hissues)

/-- A create or an update was announced. -/
def Mutates (wk : Worker) (ev : Evaluation) : Prop :=
  ∃ e ∈ ev.effects, Own wk e ∧ e.kind ≠ .touchResource

/-- A resource of another deployment was announced. -/
def Adopts (wk : Worker) (v : View) (ev : Evaluation) : Prop :=
  ∃ e ∈ ev.effects, Own wk e ∧ (v.unownedResourceOwner e.id).isSome

/-- The resources announced. -/
def touchedIds (wk : Worker) (ev : Evaluation) : List ResourceId :=
  ((ev.effects.filter fun e => Own wk e).map Effect.id).reverse

/-- A flag that every own effect can raise. -/
theorem drained_flag {f : Drained → Bool} {g : Effect → Bool}
    (hf : ∀ acc e, f (acc.record v e) = (f acc || g e)) (effects : List Effect) (acc : Drained) :
    f (drained wk v effects acc) = true ↔
      f acc = true ∨ ∃ e ∈ effects, Own wk e ∧ g e = true := by
  induction effects generalizing acc with
  | nil => simp [drained]
  | cons e effects ih =>
  change f (drained wk v effects (if Own wk e then acc.record v e else acc)) = true ↔ _
  rw [ih, exists_mem_cons_iff]
  by_cases hown : Own wk e
  · rw [if_pos hown, hf, Bool.or_eq_true, or_assoc]
    simp [hown]
  · rw [if_neg hown]
    simp [hown]

theorem drained_touched :
    (drained wk v effects acc).touchedResourceIds =
      ((effects.filter fun e => Own wk e).map Effect.id).reverse ++ acc.touchedResourceIds := by
  induction effects generalizing acc with
  | nil => rfl
  | cons e effects ih =>
  change (drained wk v effects (if Own wk e then acc.record v e else acc)).touchedResourceIds = _
  rw [ih]
  by_cases hown : Own wk e
  · rw [if_pos hown, filter_cons_of_pos (by simpa using hown)]
    simp [Drained.record]
  · rw [if_neg hown, filter_cons_of_neg (by simpa using hown)]

variable {ev : Evaluation}

theorem hadMutation_iff : (drained wk v ev.effects .empty).hadMutation = true ↔ Mutates wk ev := by
  rw [drained_flag (g := fun e => decide (e.kind ≠ .touchResource)) (fun acc e => ?_)]
  · simp [Mutates, Drained.empty]
  · rw [Drained.record]
    cases e.kind <;> rfl

theorem hadEffect_iff : (drained wk v ev.effects .empty).hadEffect = true ↔
    Mutates wk ev ∨ Adopts wk v ev := by
  rw [drained_flag (g := fun e => decide (e.kind ≠ .touchResource) ||
    (v.unownedResourceOwner e.id).isSome) (fun acc e => ?_)]
  · simp only [Drained.empty, Bool.false_eq_true, false_or, Bool.or_eq_true, decide_eq_true_iff,
      Mutates, Adopts, ← exists_or, and_or_left]
  · rw [Drained.record]
    cases e.kind <;> rfl

theorem touchedResourceIds_eq :
    (drained wk v ev.effects .empty).touchedResourceIds = touchedIds wk ev := by
  rw [drained_touched]
  exact append_nil _

/-- The outcome of an evaluation, as a function of what was announced. -/
def outcomeOf (wk : Worker) (v : View) (resolution : Resolution) (ev : Evaluation) : EvalOutcome :=
  (drained wk v ev.effects .empty).outcome v resolution

theorem evaluateIn_spec (wk : Worker) (v : View) (resolution : Resolution) (asg : Program)
    (w : World) :
    Always (fun _ o => Drains wk.client o ∨ ∃ p ctx, o = .eval p ctx) (evaluateIn wk resolution asg v)
      (fun r w' => r = .ok (outcomeOf wk v resolution (asg.eval v.ctx)) ∧ Alike w w') w := by
  refine always_bind.2 ⟨.inr ⟨_, _, rfl⟩, fun _ _ => ?_⟩
  refine always_bind.2 (always_mono (always_imp (fun _ o ho => .inl ho)
    (drain_spec (asg.eval v.ctx).effects .empty _)) ?_)
  rintro r w' ⟨rfl, hw'⟩
  exact ⟨rfl, hw'⟩

end Drain

/-! ## Harm

The requests that must not follow from an evaluation that did not get to its end, and when the last
part of an iteration makes one of them. -/

section Harm

variable (wk : Worker) (w : World)

/-- A resource is to be destroyed. -/
def Destroys (o : Op) : Prop := ∃ region d, o = .enqueue region (.destroy d)

/-- The deployment is marked as bootstrapped, and was not before. -/
def Bootstraps (o : Op) : Prop :=
  ∃ d, o = .cdb (.setDeploymentById d) ∧ d.qid = wk.client ∧ d.bootstrapped = true ∧
    ∀ stored, w.cdb.find wk.client = some stored → stored.bootstrapped = false

/-- The deployments that this one supersedes. -/
def supersededQids : List DeploymentQid :=
  (w.cdb.superseded wk.client).map fun d => ⟨wk.client.environment, d⟩

/-- A superseded deployment becomes undesired. -/
def Retires (o : Op) : Prop :=
  ∃ d, o = .cdb (.setDeploymentById d) ∧ d.state = undesired ∧ d.qid ∈ supersededQids wk w

/-- A request that neither destroys nor bootstraps; nor, if that matters, retires. -/
def Harmless (strict : Prop) (o : Op) : Prop :=
  ¬Destroys o ∧ ¬Bootstraps wk w o ∧ (strict → ¬Retires wk w o)

/-- The superseded deployments that a worker gets to: it stops at one without a row. -/
def reachedQids (qs : List DeploymentQid) : List DeploymentQid :=
  qs.takeWhile fun q => (w.cdb.find q).isSome

/-- A deployment that would be retired. -/
def Retirable (q : DeploymentQid) : Prop :=
  w.cdb.state q = some desired ∨ w.cdb.state q = some lingering

/-- No superseded deployment that the worker gets to would be retired. -/
def NoneRetirable : Prop := ∀ q ∈ reachedQids w (supersededQids wk w), ¬Retirable w q

variable {wk w} {strict : Prop}

theorem harmless_of_not_write {o : Op} (hd : ¬Destroys o)
    (ho : ∀ d, o ≠ .cdb (.setDeploymentById d)) : Harmless wk w strict o := by
  refine ⟨hd, ?_, ?_⟩
  · rintro ⟨d, hd, -⟩
    exact ho d hd
  · rintro - ⟨d, hd, -⟩
    exact ho d hd

theorem harmless_read {o : Cdb.Op} (ho : ∀ d, o ≠ .setDeploymentById d) :
    Harmless wk w strict (.cdb o) := by
  refine harmless_of_not_write ?_ fun d h => ho d (Op.cdb.inj h)
  rintro ⟨region, d, h⟩
  cases h

/-- Writing a deployment back with the flag it had does not bootstrap it. -/
theorem setDeployment_harmless {d : Deployment} (h : d.bootstrapped = true →
      ∃ stored, w.cdb.find d.qid = some stored ∧ stored.bootstrapped = true) :
    Always (fun w => Harmless wk w False) (Cdb.setDeployment d) (fun _ _ => True) w := by
  have hissues : (Cdb.setDeployment d).issues fun o => o = .cdb (.setDeploymentById d) ∨
      o = .cdb (.setActiveDeployment d.qid) ∨ o = .cdb (.unsetActiveDeployment d.qid) :=
    Cdb.issues_setDeployment (.inl rfl) (.inr (.inl rfl)) (.inr (.inr rfl))
  let Flagged (w' : World) : Prop :=
    ∃ stored, w'.cdb.find d.qid = some stored ∧ stored.bootstrapped = true
  refine always_mono (always_of_issues (T := fun w' => d.bootstrapped = true → Flagged w')
    hissues ?_ h) fun _ _ _ => trivial
  intro o ho w' hw'
  refine ⟨⟨?_, ?_, False.elim⟩, fun a _ hb => ?_⟩
  · rintro ⟨region, d', rfl⟩
    rcases ho with ho | ho | ho <;> cases ho
  · rintro ⟨d', rfl, hq, hb, hstored⟩
    rcases ho with ho | ho | ho
    · cases ho
      obtain ⟨stored, hfind, hset⟩ := hw' hb
      rw [hq] at hfind
      rw [hstored stored hfind] at hset
      cases hset
    · cases ho
    · cases ho
  rcases ho with rfl | rfl | rfl
  · exact World.act_cdb_keeps (T := Flagged) (o := .setDeploymentById d) (hw' hb)
      ⟨d, Cdb.Store.find_setById_self _ _, hb⟩ a
  · exact World.act_cdb_keeps (T := Flagged) (o := .setActiveDeployment d.qid) (hw' hb) (hw' hb) a
  · exact World.act_cdb_keeps (T := Flagged) (o := .unsetActiveDeployment d.qid) (hw' hb)
      (hw' hb) a

theorem transitionToUndesired_harmless (q : DeploymentQid) (w : World) :
    Always (fun w => Harmless wk w False) (transitionToUndesired q) (fun _ _ => True) w := by
  refine always_bind.2 (always_get (harmless_read nofun) (fun d _ => ?_) fun _ => trivial)
  change Always _ (if _ then _ else _) _ _
  split
  · refine always_bind.2 (always_attempt.2 (always_get
      (harmless_read nofun) (fun d hd => ?_) fun e => ?_))
    · change Always _ (if _ then _ else _) _ _
      split
      · trivial
      · refine setDeployment_harmless fun hb => ⟨d, ?_, hb⟩
        exact hd
    · exact setDeployment_harmless nofun
  · trivial

theorem state_of_find {q : DeploymentQid} {d : Deployment} (h : w.cdb.find q = some d) :
    w.cdb.state q = some d.state := (Cdb.Store.find_eq_some h).2

/-- A worker that gets to no deployment to retire only reads. -/
theorem transitions_harmless_of_none {qs : List DeploymentQid}
    (h : ∀ q ∈ reachedQids w qs, ¬Retirable w q) :
    Always (fun w => Harmless wk w strict) (qs.forM transitionToUndesired) (fun _ _ => True) w := by
  induction qs with
  | nil => trivial
  | cons q qs ih =>
  refine always_bind.2 (always_bind.2 (always_get
    (harmless_read nofun) (fun d hd => ?_) fun _ => trivial))
  have hreached : reachedQids w (q :: qs) = q :: reachedQids w qs := by
    rw [reachedQids, takeWhile_cons_of_pos (by rw [hd]; rfl)]
    rfl
  rw [hreached] at h
  obtain ⟨hq, hqs⟩ := forall_mem_cons.1 h
  have hstate : ¬(d.state = desired ∨ d.state = lingering) := by
    rw [Retirable, state_of_find hd] at hq
    simpa using hq
  change Always _ (if _ then _ else _) _ _
  rw [if_neg hstate]
  exact ih hqs

/-- The first deployment to retire that a worker gets to is retired. -/
theorem none_of_transitions_harmless {qs : List DeploymentQid}
    (hqs : ∀ q ∈ qs, q ∈ supersededQids wk w)
    (hstrict : strict) {Q : Except String PUnit → World → Prop}
    (h : Surely (fun w => Harmless wk w strict) (qs.forM transitionToUndesired) Q w) :
    ∀ q ∈ reachedQids w qs, ¬Retirable w q := by
  induction qs with
  | nil => exact fun q hq => absurd hq not_mem_nil
  | cons q qs ih =>
  have hread := (surely_get.1 (always_bind.1 (always_bind.1 h))).2
  cases hfind : w.cdb.find q with
  | none =>
    have hreached : reachedQids w (q :: qs) = [] := by
      rw [reachedQids, takeWhile_cons_of_neg (by rw [hfind]; simp)]
    rw [hreached]
    exact fun q hq => absurd hq not_mem_nil
  | some d =>
  have hreached : reachedQids w (q :: qs) = q :: reachedQids w qs := by
    rw [reachedQids, takeWhile_cons_of_pos (by rw [hfind]; rfl)]
    rfl
  rw [hfind] at hread
  change Surely _ (if d.state = desired ∨ d.state = lingering then
    Cdb.DeploymentClient.set q undesired else _) _ _ at hread
  have hstate : ¬(d.state = desired ∨ d.state = lingering) := by
    intro hstate
    rw [if_pos hstate] at hread
    have hnot : ¬(w.cdb.state q = some down ∧ undesired = undesired) := by
      rw [state_of_find hfind]
      rintro ⟨hdown, -⟩
      rw [Option.some.inj hdown] at hstate
      rcases hstate with hs | hs <;> cases hs
    obtain ⟨d', hqid, hundesired, hP⟩ := surely_set hnot hread
    exact hP.2.2 hstrict ⟨d', rfl, hundesired, hqid ▸ hqs q mem_cons_self⟩
  rw [if_neg hstate] at hread
  rw [hreached]
  refine forall_mem_cons.2 ⟨?_, ih (fun q' hq' => hqs q' (mem_cons_of_mem _ hq')) hread⟩
  rw [Retirable, state_of_find hfind]
  simpa using hstate

/-- Retiring the superseded deployments does no harm exactly when there are none to retire, if
that is a harm at all. -/
theorem transition_harmless_iff :
    Always (fun w => Harmless wk w strict) (transitionSupersededToUndesired wk) (fun _ _ => True) w ↔
      (strict → NoneRetirable wk w) := by
  constructor
  · intro h hstrict
    have hrest := (surely_superseded.1 (always_bind.1 (surely_of_always h))).2
    exact none_of_transitions_harmless (fun _ hq => hq) hstrict hrest
  intro h
  refine always_bind.2 (always_superseded (harmless_read nofun) ?_ fun _ => trivial)
  by_cases hstrict : strict
  · exact transitions_harmless_of_none (h hstrict)
  refine always_imp (P := fun w => Harmless wk w False)
    (fun w' o ho => ⟨ho.1, ho.2.1, fun hs => absurd hs hstrict⟩) ?_
  exact always_forM (T := fun _ => True)
    (fun q _ w' _ => transitionToUndesired_harmless q w') trivial

/-- What the worker does once nothing is in motion. -/
theorem conclude_harmless_iff {deployment : Deployment} {outcome : EvalOutcome}
    (hfound : w.cdb.find wk.client = some deployment) :
    Always (fun w => Harmless wk w strict) (conclude wk deployment outcome) (fun _ _ => True) w ↔
      outcome.hadEffect = true ∨
        (deployment.bootstrapped = true ∧ (strict → NoneRetirable wk w)) := by
  rw [conclude]
  cases hadEffect : outcome.hadEffect with
  | true => exact iff_of_true trivial (.inl rfl)
  | false =>
  have hend : ∀ (u : Unit) (w' : World), Always (fun w => Harmless wk w strict)
      (if (!outcome.hasVolatileOwnedResource && !outcome.hasVolatileCrossRepoPins) = true then
        pure ⟨false, desired, .success, false⟩
      else pure (.success desired) : M WorkResult) (fun _ _ => True) w' := by
    intro _ w'
    split <;> trivial
  cases hboot : deployment.bootstrapped with
  | true =>
    change Always _ (transitionSupersededToUndesired wk >>= _) _ _ ↔ _
    rw [always_bind_iff hend, transition_harmless_iff]
    simp
  | false =>
  refine iff_of_false (fun h => ?_) (by simp)
  -- The flag is read as unset and written as set.
  have hread := (surely_get.1 (always_bind.1 (always_bind.1 (surely_of_always h)))).2
  rw [hfound] at hread
  have hwrite := Cdb.surely_setDeployment hread
  refine hwrite.2.1 ⟨_, rfl, (Cdb.Store.find_eq_some hfound).1, rfl, fun stored hstored => ?_⟩
  rw [hfound] at hstored
  cases hstored
  exact hboot

end Harm

/-! ## The exact conditions -/

section Conditions

variable {wk : Worker} {v : View} {w : World} {strict : Prop} {deployment : Deployment}

/-- Nothing of the deployment would be destroyed as untouched: whatever is expendable has a
dependent that counts. -/
def NothingUntouched (wk : Worker) (touched : List ResourceId) (w : World) : Prop :=
  ∀ id, Expendable wk touched w id → HasDependent wk w (CountsWhenDesired wk touched) id

variable {touched : List ResourceId}

theorem untouchedTargets_eq_nil_iff {all : List Rdb.Resource}
    (h : wk.ns.decoded w = some all) :
    untouchedTargets wk touched all = [] ↔ NothingUntouched wk touched w := by
  rw [eq_nil_iff_forall_not_mem]
  refine forall_congr' fun id => ?_
  rw [mem_untouchedTargets h, not_and, not_not]

/-- Destroying what is untouched does no harm when there is nothing to destroy. -/
theorem destroyUntouched_harmless
    (h : wk.ns.decoded w = none ∨ NothingUntouched wk touched w) :
    Always (fun w => Harmless wk w strict) (destroyUntouchedResources wk touched)
      (fun r w' => w' = w ∧ (wk.ns.decoded w = none → ∃ e, r = .error e)) w := by
  refine always_bind.2 (always_collectResources
    (harmless_of_not_write ?_ nofun) (fun all hall => ?_) fun e => ⟨rfl, fun _ => ⟨e, rfl⟩⟩)
  · rintro ⟨region, d, heq⟩
    cases heq
  rcases h with hnone | hnothing
  · rw [hall] at hnone
    cases hnone
  change Always _ ((untouchedTargets wk touched all).forM (destroyResource wk)) _ _
  rw [(untouchedTargets_eq_nil_iff hall).2 hnothing]
  refine ⟨rfl, fun hnone => ?_⟩
  rw [hall] at hnone
  cases hnone

/-- Only when there is nothing to destroy; and the worker then goes on where it was. -/
theorem of_destroyUntouched_harmless {α : Type} {f : Unit → M α}
    (h : Always (fun w => Harmless wk w strict) (destroyUntouchedResources wk touched >>= f)
      (fun _ _ => True) w) {all : List Rdb.Resource} (hall : wk.ns.decoded w = some all) :
    NothingUntouched wk touched w ∧
      Always (fun w => Harmless wk w strict) (f ()) (fun _ _ => True) w := by
  have hsurely := always_bind.1 (always_bind.1 (surely_of_always h))
  have hrest := ((surely_collectResources hall).1 hsurely).2
  have hnil : untouchedTargets wk touched all = [] := by
    refine eq_nil_iff_forall_not_mem.2 fun id hid => ?_
    obtain ⟨w', -, -, hharmless⟩ := surely_destroys hrest id hid
    exact hharmless.1 ⟨_, _, rfl⟩
  refine ⟨(untouchedTargets_eq_nil_iff hall).1 hnil, ?_⟩
  -- In calm surroundings the listing succeeds and the worker is back where it was.
  have hspec : Surely (fun _ _ => True) (destroyUntouchedResources wk touched)
      (fun r w' => r = .ok () ∧ w' = w) w := by
    refine always_bind.2 ((surely_collectResources hall).2 ⟨trivial, ?_⟩)
    change Surely _ ((untouchedTargets wk touched all).forM (destroyResource wk)) _ _
    rw [hnil]
    exact ⟨rfl, rfl⟩
  have hts : ∀ n, ((fun _ => calm : ℕ → World.sem.Turn) n).Within anything := fun _ _ => trivial
  obtain ⟨hok, hw⟩ := always_run hspec (fun _ => calm_within)
  have hrun := always_run (always_bind.1 h) hts
  rw [hok, hw] at hrun
  exact hrun

theorem settle_harmless_iff {outcome : EvalOutcome}
    (hfound : w.cdb.find wk.client = some deployment)
    (hcompile : outcome.compileErrorMessage = none) :
    Always (fun w => Harmless wk w strict) (settleOutcome wk deployment outcome)
      (fun _ _ => True) w ↔
    ((outcome.fullyExplored = true → wk.ns.decoded w = none ∨
        NothingUntouched wk outcome.touchedResourceIds w) ∧
      ((outcome.fullyExplored = true ∧ wk.ns.decoded w = none) ∨ outcome.hadEffect = true ∨
        (deployment.bootstrapped = true ∧ (strict → NoneRetirable wk w)))) := by
  rw [settleOutcome, hcompile]
  cases hexplored : outcome.fullyExplored with
  | false =>
    change Always _ (conclude wk deployment outcome) _ _ ↔ _
    rw [conclude_harmless_iff hfound]
    simp
  | true =>
  constructor
  · intro h
    cases hall : wk.ns.decoded w with
    | none => exact ⟨fun _ => .inl rfl, .inl ⟨rfl, rfl⟩⟩
    | some all =>
    obtain ⟨hnothing, hconclude⟩ := of_destroyUntouched_harmless h hall
    exact ⟨fun _ => .inr hnothing, .inr ((conclude_harmless_iff hfound).1 hconclude)⟩
  rintro ⟨hdestroy, hconclude⟩
  refine always_bind.2 (always_mono (destroyUntouched_harmless (hdestroy rfl)) ?_)
  rintro r w' ⟨rfl, hnone⟩
  cases r with
  | error e => trivial
  | ok _ =>
  refine (conclude_harmless_iff hfound).2 (hconclude.resolve_left ?_)
  rintro ⟨-, hdecoded⟩
  obtain ⟨e, he⟩ := hnone hdecoded
  cases he

theorem nothingUntouched_congr {w' : World} (h : w'.rdb = w.rdb) :
    NothingUntouched wk touched w' ↔ NothingUntouched wk touched w := by
  simp only [NothingUntouched, Expendable, HasDependent, Worker.row, h]

theorem noneRetirable_congr {w' : World} (h : w'.cdb = w.cdb) :
    NoneRetirable wk w' ↔ NoneRetirable wk w := by
  simp only [NoneRetirable, Retirable, reachedQids, supersededQids, h]

/-- The evaluation itself does no harm and does not change the databases. -/
theorem evaluateAndSettle_iff (resolution : Resolution) (asg : Program)
    {C : World → Prop} (hC : ∀ w', Alike w w' →
      (Always (fun w => Harmless wk w strict) (settleOutcome wk deployment
        (outcomeOf wk v resolution (asg.eval v.ctx))) (fun _ _ => True) w' ↔ C w)) :
    Always (fun w => Harmless wk w strict) (evaluateAndSettle wk deployment resolution asg v)
      (fun _ _ => True) w ↔ C w := by
  have hspec := evaluateIn_spec wk v resolution asg w
  constructor
  · intro h
    have hts : ∀ n, ((fun _ => calm : ℕ → World.sem.Turn) n).Within anything := fun _ _ => trivial
    obtain ⟨hok, halike⟩ := always_run hspec hts
    have hrun := always_run (always_bind.1 h) hts
    rw [hok] at hrun
    exact (hC _ halike).1 hrun
  intro h
  refine always_bind.2 (always_mono (always_imp (fun w' o ho => ?_) hspec) ?_)
  · rcases ho with ho | ⟨p, ctx, rfl⟩
    · refine harmless_of_not_write ?_ ?_
      · rintro ⟨region, d, rfl⟩
        exact ho.2 d rfl
      · rintro d rfl
        exact ho
    refine harmless_of_not_write ?_ nofun
    rintro ⟨region, d, heq⟩
    cases heq
  · rintro r w' ⟨rfl, halike⟩
    exact (hC w' halike).2 h

/-- **When an iteration does no harm.**  From the evaluation on: it has announced a mutation, or
the home region cannot be listed, or there is nothing untouched to destroy and either an adoption
was announced or the worker has nothing new to conclude. -/
theorem evaluateAndSettle_harmless_iff (resolution : Resolution) (asg : Program)
    (hfound : w.cdb.find wk.client = some deployment) :
    Always (fun w => Harmless wk w strict) (evaluateAndSettle wk deployment resolution asg v)
      (fun _ _ => True) w ↔
    Mutates wk (asg.eval v.ctx) ∨ wk.ns.decoded w = none ∨
      (NothingUntouched wk (touchedIds wk (asg.eval v.ctx)) w ∧
        (Adopts wk v (asg.eval v.ctx) ∨
          (deployment.bootstrapped = true ∧ (strict → NoneRetirable wk w)))) := by
  refine evaluateAndSettle_iff resolution asg (C := fun w => Mutates wk (asg.eval v.ctx) ∨
    wk.ns.decoded w = none ∨ (NothingUntouched wk (touchedIds wk (asg.eval v.ctx)) w ∧
      (Adopts wk v (asg.eval v.ctx) ∨
        (deployment.bootstrapped = true ∧ (strict → NoneRetirable wk w))))) ?_
  rintro w' ⟨hcdb, hrdb⟩
  have hfound' : w'.cdb.find wk.client = some deployment := by rw [hcdb]; exact hfound
  rw [settle_harmless_iff hfound' rfl, nothingUntouched_congr hrdb, noneRetirable_congr hcdb,
    decoded_congr (congrFun hrdb _)]
  have hexplored : (outcomeOf wk v resolution (asg.eval v.ctx)).fullyExplored = true ↔
      ¬Mutates wk (asg.eval v.ctx) := by
    rw [← hadMutation_iff (v := v)]
    simp [outcomeOf, Drained.outcome]
  have heffect : (outcomeOf wk v resolution (asg.eval v.ctx)).hadEffect = true ↔
      Mutates wk (asg.eval v.ctx) ∨ Adopts wk v (asg.eval v.ctx) := hadEffect_iff
  have htouched : (outcomeOf wk v resolution (asg.eval v.ctx)).touchedResourceIds =
      touchedIds wk (asg.eval v.ctx) := touchedResourceIds_eq
  rw [hexplored, heffect, htouched]
  by_cases hmutates : Mutates wk (asg.eval v.ctx)
  · simp [hmutates]
  · simp [hmutates, or_and_left]

end Conditions

/-! ## Evaluations that fail -/

/-- **When a failed evaluation does no harm.**  If the evaluation ends in an error, the iteration
destroys nothing, does not bootstrap the deployment and retires no predecessor — for all that the
surroundings may answer — if and only if the evaluation did not end in an error after all, or
announced a create or an update before it did, or the home region cannot be listed, or else nothing
of the deployment is untouched and either an adoption was announced or there is nothing to conclude:
the deployment was bootstrapped before and none of its predecessors is left to retire. -/
theorem failed_evaluation_harmless_iff (wk : Worker) (deployment : Deployment)
    (resolution : Resolution) (asg : Program) (v : View) (w : World)
    (hfound : w.cdb.find wk.client = some deployment) :
    ((asg.eval v.ctx).error.isSome → Always (fun w => Harmless wk w True)
      (evaluateAndSettle wk deployment resolution asg v) (fun _ _ => True) w) ↔
    (asg.eval v.ctx).error = none ∨ Mutates wk (asg.eval v.ctx) ∨ wk.ns.decoded w = none ∨
      (NothingUntouched wk (touchedIds wk (asg.eval v.ctx)) w ∧
        (Adopts wk v (asg.eval v.ctx) ∨
          (deployment.bootstrapped = true ∧ NoneRetirable wk w))) := by
  rw [evaluateAndSettle_harmless_iff resolution asg hfound]
  cases (asg.eval v.ctx).error with
  | none | some => simp

/-! ## Evaluations with pending calls -/

section Pending

/-- What the result of a call says about its effect. -/
def Answered (ctx : EvalCtx) (call : Effect × Option Record) : Prop :=
  match call.1.owner with
  | none => call.2 = none
  | some owner =>
    if owner = ctx.localOwner then call.2.isSome = true ↔ call.1.kind = .touchResource
    else call.2.isSome = true ↔
      ∃ r, ctx.foreignResources owner call.1.id = some r ∧ (r.inputs == call.1.inputs) = true

theorem resource_answered (ctx : EvalCtx) (stack : List (Option DeploymentQid)) (c : Call) :
    Answered ctx (ctx.resource stack c) := by
  rw [EvalCtx.resource]
  cases ctx.currentOwner stack with
  | none => rfl
  | some owner =>
  by_cases hlocal : owner = ctx.localOwner
  · subst hlocal
    simp only [bne_self_eq_false, Bool.false_eq_true, if_false]
    cases hstored : ctx.resources (ctx.resourceId c) with
    | none => simp [Answered, EvalCtx.effectFor]
    | some r =>
    simp only [Answered, EvalCtx.effectFor, if_true]
    split <;> simp
  have hne : (owner != ctx.localOwner) = true := bne_iff_ne.2 hlocal
  simp only [hne, if_true, Answered, EvalCtx.effectFor, if_neg hlocal]
  cases ctx.foreignResources owner (ctx.resourceId c) with
  | none => simp
  | some r =>
  simp only [Option.bind_some, Option.some.injEq, exists_eq_left']
  split <;> simp_all

/-- No resource call returned a pending result. -/
def NoPending (ev : Evaluation) : Prop := ∀ call ∈ ev.calls, call.2.isSome = true

/-- No call was made in the scope of an orphaned package, and every call in the scope of a foreign
one found its resource with the inputs it asked for. -/
def ForeignSettled (wk : Worker) (v : View) (ev : Evaluation) : Prop :=
  ∀ e ∈ ev.effects, ∃ owner, e.owner = some owner ∧ (owner ≠ wk.client →
    ∃ r, v.ctx.foreignResources owner e.id = some r ∧ (r.inputs == e.inputs) = true)

/-- A call in the local scope is pending exactly when it announces a create or an update; so
without any, pending calls are foreign or orphaned. -/
theorem noPending_iff {wk : Worker} {v : View} (hlocal : v.ctx.localOwner = wk.client)
    (asg : Program) (hmutates : ¬Mutates wk (asg.eval v.ctx)) :
    NoPending (asg.eval v.ctx) ↔ ForeignSettled wk v (asg.eval v.ctx) := by
  have hanswered := asg.forall_calls (resource_answered v.ctx) []
  have heffects : ∀ call ∈ (asg.eval v.ctx).calls, call.1 ∈ (asg.eval v.ctx).effects :=
    fun call hcall => mem_map_of_mem hcall
  rw [ForeignSettled, Evaluation.effects, forall_mem_map, NoPending]
  refine forall₂_congr fun call hcall => ?_
  have hcall' := hanswered call hcall
  rw [Answered] at hcall'
  cases howner : call.1.owner with
  | none =>
    rw [howner] at hcall'
    simp [show call.2 = none from hcall']
  | some owner =>
  rw [howner] at hcall'
  by_cases hclient : owner = wk.client
  · have htouch : call.1.kind = .touchResource := by
      by_contra hkind
      exact hmutates ⟨call.1, heffects call hcall, by rw [Own, howner, hclient], hkind⟩
    change (if owner = v.ctx.localOwner then _ else _) at hcall'
    rw [if_pos (hclient.trans hlocal.symm)] at hcall'
    refine iff_of_true (hcall'.2 htouch) ⟨owner, rfl, fun hne => absurd hclient hne⟩
  change (if owner = v.ctx.localOwner then _ else _) at hcall'
  rw [if_neg (fun h => hclient (h.trans hlocal))] at hcall'
  rw [hcall']
  simp [hclient]

/-- With a pending call, to respect it is to do neither. -/
theorem respects_iff_harmless {α : Type} {wk : Worker} {ev : Evaluation} (h : ¬NoPending ev)
    {p : M α} {w : World} :
    Always (fun w o => Destroys o ∨ Bootstraps wk w o → NoPending ev) p (fun _ _ => True) w ↔
      Always (fun w => Harmless wk w False) p (fun _ _ => True) w := by
  refine ⟨always_imp fun w o ho => ?_, always_imp fun w o ho hbad => ?_⟩
  · exact ⟨fun hd => h (ho (.inl hd)), fun hb => h (ho (.inr hb)), False.elim⟩
  · exact absurd hbad (not_or.2 ⟨ho.1, ho.2.1⟩)

end Pending

/-- **When pending calls are respected.**  Whenever the iteration destroys something as untouched
or bootstraps the deployment, no resource call of its evaluation was pending — for all that the
surroundings may answer — if and only if the evaluation announced a create or an update in its own
name, or had no call in an orphaned scope and none in a foreign scope without its resource, or the
home region cannot be listed, or nothing is untouched and either an adoption was announced or the
deployment was bootstrapped before. -/
theorem pending_respected_iff (wk : Worker) (deployment : Deployment) (resolution : Resolution)
    (asg : Program) (v : View) (w : World) (hfound : w.cdb.find wk.client = some deployment)
    (hlocal : v.ctx.localOwner = wk.client) :
    Always (fun w o => Destroys o ∨ Bootstraps wk w o → NoPending (asg.eval v.ctx))
      (evaluateAndSettle wk deployment resolution asg v) (fun _ _ => True) w ↔
    Mutates wk (asg.eval v.ctx) ∨ ForeignSettled wk v (asg.eval v.ctx) ∨
      wk.ns.decoded w = none ∨
      (NothingUntouched wk (touchedIds wk (asg.eval v.ctx)) w ∧
        (Adopts wk v (asg.eval v.ctx) ∨ deployment.bootstrapped = true)) := by
  by_cases hpending : NoPending (asg.eval v.ctx)
  · refine iff_of_true (always_of_forall (fun _ _ _ => hpending) (fun _ _ => trivial) _ w) ?_
    by_cases hmutates : Mutates wk (asg.eval v.ctx)
    · exact .inl hmutates
    · exact .inr (.inl ((noPending_iff hlocal asg hmutates).1 hpending))
  rw [respects_iff_harmless hpending, evaluateAndSettle_harmless_iff resolution asg hfound]
  by_cases hmutates : Mutates wk (asg.eval v.ctx)
  · exact iff_of_true (.inl hmutates) (.inl hmutates)
  · rw [← noPending_iff hlocal asg hmutates]
    simp [hmutates, hpending]

end Skyr.De

/-! ## Two programs

The deployment of `shop` owns two resources and is bootstrapped.  The first program fails after it
has mentioned one of them.  The second waits for a resource of another repository, which is not
there yet, before it mentions the other. -/

namespace Skyr.De

local instance : SclData := .nat

/-- The two resources, and a row for the deployment. -/
def pairWorld : World :=
  { World.empty.setRdb ⟨"eu"⟩ ((Rdb.Store.empty.update (shopKey "a") fun _ => shopRow []).update
      (shopKey "b") fun _ => shopRow []) with
    cdb := Cdb.Store.empty.setById ⟨shopWorker.client, .desired, true⟩ }

/-- What a program of the deployment gets to see of its environment. -/
def pairView : View :=
  ((shopWorker.ns.decoded pairWorld).getD []).foldl (View.absorbResource shopWorker.ownerQid)
    (.initial shopWorker)

def numberCall (name : String) : Call := ⟨none, "Std/Random.Int", name, (0 : ℕ), [], []⟩

/-- Mentions `a` and fails before it gets to `b`. -/
def failingProgram : Program := .resource (numberCall "a") fun _ => .throw ⟨"division by zero"⟩

theorem pairWorld_untouched {touched : List ResourceId}
    (h : ⟨⟨"eu"⟩, "Std/Random.Int", "b"⟩ ∉ touched) :
    ¬NothingUntouched shopWorker touched pairWorld := by
  intro hnothing
  obtain ⟨id', row, hregion, hrow, -, hdep⟩ := hnothing ⟨⟨"eu"⟩, "Std/Random.Int", "b"⟩
    ⟨rfl, h, shopRow [], rfl, rfl, List.not_mem_nil⟩
  have hrow' : row = shopRow [] := by
    have hstore : pairWorld.rdb shopWorker.region = (Rdb.Store.empty.update (shopKey "a")
        fun _ => shopRow []).update (shopKey "b") fun _ => shopRow [] :=
      World.rdb_setRdb_self World.empty ⟨"eu"⟩ _
    rw [Worker.row, hregion, hstore] at hrow
    by_cases hb : (⟨shopWorker.environmentQid.toString, id'.typ, id'.name⟩ : Rdb.Key) = shopKey "b"
    · rw [hb, Rdb.Store.row_update_self] at hrow
      exact (Option.some.inj hrow).symm
    rw [Rdb.Store.row_update_ne _ hb] at hrow
    by_cases ha : (⟨shopWorker.environmentQid.toString, id'.typ, id'.name⟩ : Rdb.Key) = shopKey "a"
    · rw [ha, Rdb.Store.row_update_self] at hrow
      exact (Option.some.inj hrow).symm
    · rw [Rdb.Store.row_update_ne _ ha] at hrow
      cases hrow
  subst hrow'
  exact List.not_mem_nil hdep

theorem failed_evaluation_destroys :
    ¬((failingProgram.eval pairView.ctx).error.isSome → Always (fun w => Harmless shopWorker w True)
      (evaluateAndSettle shopWorker ⟨shopWorker.client, .desired, true⟩ .none failingProgram pairView)
      (fun _ _ => True) pairWorld) := by
  intro h
  have hcond := (evaluateAndSettle_harmless_iff .none failingProgram rfl).1 (h rfl)
  rcases hcond with ⟨e, he, -, hkind⟩ | hnone | ⟨hnothing, -⟩
  · rw [show (failingProgram.eval pairView.ctx).effects = [_] from rfl, List.mem_singleton] at he
    subst he
    exact hkind rfl
  · cases hnone
  · exact pairWorld_untouched (by decide +kernel) hnothing

/-- Announces `c`, which is not there yet, and fails. -/
def announcingProgram : Program :=
  .resource (numberCall "c") fun _ => .throw ⟨"division by zero"⟩

theorem failed_evaluation_spares :
    pairWorld.cdb.find shopWorker.client = some ⟨shopWorker.client, .desired, true⟩ ∧
    (announcingProgram.eval pairView.ctx).error.isSome = true ∧
    Always (fun w => Harmless shopWorker w True)
      (evaluateAndSettle shopWorker ⟨shopWorker.client, .desired, true⟩ .none announcingProgram
        pairView) (fun _ _ => True) pairWorld := by
  have hcreate : Mutates shopWorker (announcingProgram.eval pairView.ctx) :=
    ⟨_, List.mem_singleton_self _, rfl, by decide +kernel⟩
  exact ⟨rfl, rfl, (failed_evaluation_harmless_iff shopWorker ⟨shopWorker.client, .desired, true⟩
    .none announcingProgram pairView pairWorld rfl).2 (.inr (.inl hcreate)) rfl⟩

/-- A deployment of another repository, which the program follows by branch. -/
def libraryQid : DeploymentQid := ⟨⟨⟨⟨"acme"⟩, ⟨"library"⟩⟩, ⟨"main"⟩⟩, ⟨⟨2⟩, ⟨2⟩⟩⟩

/-- The same view, with the package of the other repository. -/
def libraryView : View :=
  { pairView with ctx := pairView.ctx.setPackageOwner ["acme", "library"] libraryQid }

/-- Mentions `a`, and `b` as soon as a resource of the other repository has its outputs. -/
def waitingProgram : Program :=
  .resource (numberCall "a") fun _ => .enter ["acme", "library"] (.resource (numberCall "seed")
    fun outputs => .leave (match outputs with
      | none => .done
      | some _ => .resource (numberCall "b") fun _ => .done))

theorem pending_call_destroys :
    ¬Always (fun w o => Destroys o ∨ Bootstraps shopWorker w o →
        NoPending (waitingProgram.eval libraryView.ctx))
      (evaluateAndSettle shopWorker ⟨shopWorker.client, .desired, true⟩ .none waitingProgram
        libraryView) (fun _ _ => True) pairWorld := by
  intro h
  have hpending : ¬NoPending (waitingProgram.eval libraryView.ctx) := fun hnone => by
    have hseed := hnone ((waitingProgram.eval libraryView.ctx).calls.getLast (by decide +kernel))
      (List.getLast_mem _)
    cases hseed
  rw [respects_iff_harmless hpending, evaluateAndSettle_harmless_iff .none waitingProgram rfl] at h
  rcases h with ⟨e, he, howner, hkind⟩ | hnone | ⟨hnothing, -⟩
  · rw [show (waitingProgram.eval libraryView.ctx).effects = [_, _] from rfl] at he
    rcases List.mem_cons.1 he with rfl | he
    · exact hkind rfl
    rw [List.mem_singleton] at he
    subst he
    exact absurd howner (by decide +kernel)
  · cases hnone
  · exact pairWorld_untouched (by decide +kernel) hnothing

/-- The resource of the other repository has its outputs. -/
def suppliedView : View :=
  { libraryView with
    ctx := libraryView.ctx.addForeignResource libraryQid ⟨⟨"eu"⟩, "Std/Random.Int", "seed"⟩
      ⟨(0 : ℕ), (7 : ℕ), [], []⟩ }

theorem pending_call_settled :
    pairWorld.cdb.find shopWorker.client = some ⟨shopWorker.client, .desired, true⟩ ∧
    suppliedView.ctx.localOwner = shopWorker.client ∧
    (waitingProgram.eval suppliedView.ctx).effects.map (·.owner) =
      [some shopWorker.client, some libraryQid, some shopWorker.client] ∧
    Always (fun w o => Destroys o ∨ Bootstraps shopWorker w o →
        NoPending (waitingProgram.eval suppliedView.ctx))
      (evaluateAndSettle shopWorker ⟨shopWorker.client, .desired, true⟩ .none waitingProgram
        suppliedView) (fun _ _ => True) pairWorld := by
  refine ⟨rfl, rfl, rfl, (pending_respected_iff shopWorker ⟨shopWorker.client, .desired, true⟩
    .none waitingProgram suppliedView pairWorld rfl rfl).2 (.inr (.inl fun e he => ?_))⟩
  rw [show (waitingProgram.eval suppliedView.ctx).effects = [_, _, _] from rfl] at he
  rcases List.mem_cons.1 he with rfl | he
  · exact ⟨shopWorker.client, rfl, fun hne => absurd rfl hne⟩
  rcases List.mem_cons.1 he with rfl | he
  · exact ⟨libraryQid, rfl, fun _ => ⟨⟨(0 : ℕ), (7 : ℕ), [], []⟩, rfl, rfl⟩⟩
  · rw [List.mem_singleton.1 he]
    exact ⟨shopWorker.client, rfl, fun hne => absurd rfl hne⟩

end Skyr.De
