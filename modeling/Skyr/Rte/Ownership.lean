import Skyr.Rte.Handlers

/-!
# Who may touch a resource

Ownership of a resource is the `owner` column of its row, and the handlers are what guards it.
This file shows that they do: over any sequence of deliveries, of any messages in any order, with
any redeliveries, failures and crashes, a row disappears only by a destroy in the name of its
owner, its owner changes only by a create of a missing row or an adoption from the owner, and a
plugin is asked to delete only in the name of the owner.

The argument has two halves.

* `Licensed ctx m w o` says which requests `o` handling `m` may make in the world `w`; it looks at
  the row *at that moment*.  Every handler keeps to it (`workerLoopIteration_licensed`), which is
  shown by walking through the five of them.
* What a licensed request does to the row is a `RowStep`, and these compose
  (`RowStep.trans`).  So however far a handler gets, the row it leaves is one `RowStep` away from
  the row it found (`licensed_act`, `Stepped.trans`).
-/

namespace Skyr.Rte

open Option

open Prog Rdb.ResourceClient

variable [SclData]

/-! ## What a message entitles to -/

/-- The stored owner of a resource. -/
def storedOwner (c : Rdb.ResourceClient) (w : World) : Option String :=
  (c.stored w).bind Rdb.Row.owner

/-- The owner `m` may write over the row found in `w`: its deployment's when it creates a row, the
target's when it adopts from the owner, or the owner that is there. -/
def MayOwn (m : Message) (c : Rdb.ResourceClient) (w : World) (owner : String) : Prop :=
  (∃ d, m = .create d ∧ c.stored w = none ∧
    owner = deploymentQid d.resource.environmentQid d.deploymentId) ∨
  (∃ d, m = .adopt d ∧
    storedOwner c w = some (deploymentQid d.resource.environmentQid d.fromDeploymentId) ∧
    owner = deploymentQid d.resource.environmentQid d.toDeploymentId) ∨
  storedOwner c w = some owner

/-- `m` is a destroy in the name of the stored owner. -/
def MayDestroy (m : Message) (c : Rdb.ResourceClient) (w : World) (owner : String) : Prop :=
  ∃ d, m = .destroy d ∧ owner = deploymentQid d.resource.environmentQid d.deploymentId ∧
    storedOwner c w = some owner

/-- The requests that handling `m` may make in `w`. -/
def Licensed (ctx : WorkerContext) (m : Message) (w : World) : Op → Prop
  | .rdb region o =>
    let c := resourceClient ctx m.resource
    match o with
    | .getResource key => ⟨region, key⟩ = c
    | .setResourceInput key _ owner => ⟨region, key⟩ = c ∧ MayOwn m c w owner
    | .setResourceOutput key _ => ⟨region, key⟩ = c ∧ (c.stored w).isSome
    | .setResourceDependencies key _ => ⟨region, key⟩ = c ∧ (c.stored w).isSome
    | .setResourceMarkers key _ => ⟨region, key⟩ = c ∧ (c.stored w).isSome
    | .setResourceSourceTrace key _ => ⟨region, key⟩ = c ∧ (c.stored w).isSome
    | .deleteResource key => ⟨region, key⟩ = c ∧ ∃ owner, MayDestroy m c w owner
    | _ => False
  | .plugin _ (.deleteResource owner id _ _) =>
    id = m.resource.resourceId ∧ MayDestroy m (resourceClient ctx m.resource) w owner
  | .plugin _ _ => True
  | .report _ _ => True
  | .settle _ => True
  | _ => False

/-! ## What a licensed request does -/

/-- How handling `m` may change the row of its resource. -/
inductive RowStep (m : Message) : Option Rdb.Row → Option Rdb.Row → Prop
  | same (row : Option Rdb.Row) : RowStep m row row
  | created (d : CreateMessage) (r : Rdb.Row) (hm : m = .create d)
      (hr : r.owner = some (deploymentQid d.resource.environmentQid d.deploymentId)) :
      RowStep m none (some r)
  | kept (r r' : Rdb.Row) (hr : r'.owner = r.owner) : RowStep m (some r) (some r')
  | adopted (d : AdoptMessage) (r r' : Rdb.Row) (hm : m = .adopt d)
      (hr : r.owner = some (deploymentQid d.resource.environmentQid d.fromDeploymentId))
      (hr' : r'.owner = some (deploymentQid d.resource.environmentQid d.toDeploymentId)) :
      RowStep m (some r) (some r')
  | destroyed (d : DestroyMessage) (r : Rdb.Row) (hm : m = .destroy d)
      (hr : r.owner = some (deploymentQid d.resource.environmentQid d.deploymentId)) :
      RowStep m (some r) none

/-- The steps of one message compose: a message that creates does not adopt, one that adopts does
not destroy, and after a destroy there is nothing left to step from. -/
theorem RowStep.trans {m : Message} {a b c : Option Rdb.Row} (hab : RowStep m a b)
    (hbc : RowStep m b c) : RowStep m a c := by
  cases hab with
  | same => exact hbc
  | created d r hm hr =>
    cases hbc with
    | same => exact .created d r hm hr
    | kept r r' hr' => exact .created d r' hm (hr'.trans hr)
    | adopted d' r r' hm' | destroyed d' r hm' => rw [hm] at hm'; cases hm'
  | kept r r' hr =>
    cases hbc with
    | same => exact .kept r r' hr
    | kept _ r'' hr' => exact .kept r r'' (hr'.trans hr)
    | adopted d _ r'' hm h1 h2 => exact .adopted d r r'' hm (hr ▸ h1) h2
    | destroyed d _ hm h => exact .destroyed d r hm (hr ▸ h)
  | adopted d r r' hm h1 h2 =>
    cases hbc with
    | same => exact .adopted d r r' hm h1 h2
    | kept _ r'' hr' => exact .adopted d r r'' hm h1 (hr'.trans h2)
    | adopted d' _ r'' hm' _ h2' =>
      have hd : d = d' := by rw [hm] at hm'; exact Message.adopt.inj hm'
      subst hd
      exact .adopted d r r'' hm h1 h2'
    | destroyed d' _ hm' _ => rw [hm] at hm'; cases hm'
  | destroyed d r hm hr =>
  cases hbc with
  | same => exact .destroyed d r hm hr
  | created d' _ hm' _ => rw [hm] at hm'; cases hm'

section Step

variable {ctx : WorkerContext} {m : Message} {w : World}

/-- Writing the inputs in the name of an owner the message may write. -/
theorem rowStep_of_mayOwn {c : Rdb.ResourceClient} {owner : String} {r' : Rdb.Row}
    (hmay : MayOwn m c w owner) (hr' : r'.owner = some owner) :
    RowStep m (c.stored w) (some r') := by
  rcases hmay with ⟨d, hm, hnone, rfl⟩ | ⟨d, hm, howner, rfl⟩ | howner
  · rw [hnone]
    exact .created d r' hm hr'
  · obtain ⟨r, hr, hro⟩ := bind_eq_some_iff.1 howner
    rw [hr]
    exact .adopted d r r' hm hro hr'
  obtain ⟨r, hr, hro⟩ := bind_eq_some_iff.1 howner
  rw [hr]
  exact .kept r r' (hr'.trans hro.symm)

theorem rowStep_of_isSome {row : Option Rdb.Row} {r' : Rdb.Row} (hrow : row.isSome)
    (hr' : r'.owner = (row.getD .blank).owner) : RowStep m row (some r') := by
  obtain ⟨r, rfl⟩ := isSome_iff_exists.1 hrow
  exact .kept r r' hr'

/-- A licensed statement is about the row of the message's resource, and steps it. -/
theorem licensed_effect {region : RegionId} {o : Rdb.Op} {key : Rdb.Key}
    (h : Licensed ctx m w (.rdb region o)) (ho : o.target = some key) :
    ⟨region, key⟩ = resourceClient ctx m.resource ∧
      RowStep m ((resourceClient ctx m.resource).stored w)
        (o.effect ((resourceClient ctx m.resource).stored w)) := by
  cases o with
  | setResourceInput k inputs owner =>
    cases ho
    exact ⟨h.1, rowStep_of_mayOwn h.2 rfl⟩
  | setResourceOutput | setResourceDependencies | setResourceMarkers | setResourceSourceTrace =>
    cases ho
    exact ⟨h.1, rowStep_of_isSome h.2 rfl⟩
  | deleteResource k =>
    cases ho
    obtain ⟨hc, owner, d, hm, rfl, howner⟩ := h
    obtain ⟨r, hr, hro⟩ := bind_eq_some_iff.1 howner
    exact ⟨hc, hr ▸ .destroyed d r hm hro⟩
  | getResource | listResources | listResourcesByOwner | listResourceRegions => cases ho

/-- What becomes of the rows when handling `m`: the row of its resource makes a step, every other
row stays. -/
structure Stepped (ctx : WorkerContext) (m : Message) (w w' : World) : Prop where
  own : RowStep m ((resourceClient ctx m.resource).stored w)
    ((resourceClient ctx m.resource).stored w')
  others : ∀ c ≠ resourceClient ctx m.resource, c.stored w' = c.stored w

theorem Stepped.refl : Stepped ctx m w w := ⟨.same _, fun _ _ => rfl⟩

theorem Stepped.trans {w' w'' : World} (h : Stepped ctx m w w') (h' : Stepped ctx m w' w'') :
    Stepped ctx m w w'' :=
  ⟨h.own.trans h'.own, fun c hc => (h'.others c hc).trans (h.others c hc)⟩

theorem stepped_of_rdb_eq {w' : World} (h : w'.rdb = w.rdb) : Stepped ctx m w w' := by
  have hs : ∀ c : Rdb.ResourceClient, c.stored w' = c.stored w := fun c => by
    rw [Rdb.ResourceClient.stored, h]; rfl
  exact ⟨(hs _) ▸ .same _, fun c _ => hs c⟩

theorem licensed_afterRdb {region : RegionId} {o : Rdb.Op}
    (h : Licensed ctx m w (.rdb region o)) : Stepped ctx m w (w.afterRdb region o) := by
  cases ho : o.target with
  | none =>
    have hs : ∀ c : Rdb.ResourceClient, c.stored (w.afterRdb region o) = c.stored w := fun c => by
      rw [stored_afterRdb, ho, if_neg fun hn => some_ne_none _ hn.2.symm]
    exact ⟨(hs _) ▸ .same _, fun c _ => hs c⟩
  | some key =>
  obtain ⟨hc, hstep⟩ := licensed_effect h ho
  refine ⟨?_, fun c hne => ?_⟩
  · rw [stored_afterRdb, if_pos]
    · exact hstep
    · exact ⟨congrArg Rdb.ResourceClient.region hc, by rw [ho, ← hc]⟩
  rw [stored_afterRdb, if_neg]
  rintro ⟨hr, hk⟩
  refine hne (Eq.trans ?_ hc)
  exact Rdb.ResourceClient.ext hr.symm (Option.some.inj (hk.symm.trans ho))

/-- **A licensed request steps the rows**, whatever is decided about it. -/
theorem licensed_act {o : Op} (h : Licensed ctx m w o) (a : Ans o) :
    Stepped ctx m w (World.act o a w).2 := by
  cases o with
  | rdb region o =>
    exact World.act_rdb_keeps (T := Stepped ctx m w) .refl (licensed_afterRdb h) a
  | _ => exact stepped_of_rdb_eq rfl
end Step

/-! ## The handlers keep to it

The handlers read the row before they write it, and what they read lets them write. -/

section Walk

variable {ctx : WorkerContext} {m : Message} {w : World}

theorem always_quiet {α : Type} {p : M α} (hp : p.issues Quiet) :
    Always (Licensed ctx m) p (fun _ _ => True) w := by
  refine always_of_issues hp (T := fun _ => True) (fun o ho _ _ => ⟨?_, fun _ _ => trivial⟩) trivial
  cases o with
  | report | settle => trivial
  | _ => exact ho.elim

/-- A write to a row that is there, of a column other than the owner. -/
theorem always_column {c : Rdb.ResourceClient} (hc : c = resourceClient ctx m.resource)
    {o : Rdb.Op} (ho : o.target = some c.key)
    (hl : ∀ w', (c.stored w').isSome → Licensed ctx m w' (.rdb c.region o))
    (he : ∀ row, (o.effect row).isSome) (hrow : (c.stored w).isSome) :
    Always (Licensed ctx m) (M.rdb c.region o >>= fun _ => c.readBack)
      (fun _ w' => (c.stored w').isSome) w := by
  have hafter : (c.stored (w.afterRdb c.region o)).isSome := by
    rw [stored_afterRdb, if_pos ⟨rfl, ho⟩]
    exact he _
  exact always_write (hl w hrow) hc (fun _ => hafter) fun _ => ⟨hrow, hafter⟩

theorem setOutput_licensed (outputs : Record)
    (hrow : ((resourceClient ctx m.resource).stored w).isSome) :
    Always (Licensed ctx m) ((resourceClient ctx m.resource).setOutput outputs)
      (fun _ w' => ((resourceClient ctx m.resource).stored w').isSome) w := by
  refine always_bind.2 (always_ofExcept.2 ?_)
  cases SclData.toJson outputs with
  | error e => exact hrow
  | ok json => exact always_column rfl rfl (fun _ h => ⟨rfl, h⟩) (fun _ => rfl) hrow

/-- Writing a whole row in the name of an owner the message may write. -/
theorem persist_licensed {owner : String}
    (hmay : MayOwn m (resourceClient ctx m.resource) w owner) (inputs outputs : Record)
    (markers : Option (List Marker)) (dependencies : List ResourceId) (sourceTrace : SourceTrace) :
    Always (Licensed ctx m)
      (persistResourceState (resourceClient ctx m.resource) inputs owner outputs markers
        dependencies sourceTrace) (fun _ _ => True) w := by
  -- Once the inputs are in, there is a row, and it stays.
  have hinput : Always (Licensed ctx m) ((resourceClient ctx m.resource).setInput inputs owner)
      (fun r w' => r.isOk → ((resourceClient ctx m.resource).stored w').isSome) w := by
    refine always_bind.2 (always_ofExcept.2 ?_)
    cases SclData.toJson inputs with
    | error e => exact nofun
    | ok json =>
    refine always_write ⟨rfl, hmay⟩ rfl (fun _ _ => ?_) fun _ =>
      ⟨nofun, nofun⟩
    rw [stored_afterRdb, if_pos ⟨rfl, rfl⟩]
    rfl
  refine always_bind.2 (always_mono hinput fun r w₁ h₁ => ?_)
  cases r with
  | error e => trivial
  | ok r =>
  refine always_then (always_column rfl rfl (fun _ h => ⟨rfl, h⟩) (fun _ => rfl) (h₁ rfl))
    (fun _ w₂ h₂ => ?_) fun _ _ _ => trivial
  refine always_then (setOutput_licensed outputs h₂) (fun _ w₃ h₃ => ?_) fun _ _ _ => trivial
  have htrace : ∀ w', ((resourceClient ctx m.resource).stored w').isSome →
      Always (Licensed ctx m) (do
        let _ ← (resourceClient ctx m.resource).setSourceTrace sourceTrace)
        (fun _ _ => True) w' := fun w' h' =>
    always_then (always_column rfl rfl (fun _ h => ⟨rfl, h⟩) (fun _ => rfl) h')
      (fun _ _ _ => trivial) fun _ _ _ => trivial
  cases markers with
  | none => exact htrace w₃ h₃
  | some markers =>
  exact always_then (always_column rfl rfl (fun _ h => ⟨rfl, h⟩) (fun _ => rfl) h₃)
    (fun _ w₄ h₄ => htrace w₄ h₄) fun _ _ _ => trivial

theorem persistCreated_licensed {d : CreateMessage}
    (hnone : (resourceClient ctx d.resource).stored w = none) (resource : Resource) :
    Always (Licensed ctx (.create d)) (persistCreated ctx d resource) (fun _ _ => True) w := by
  rw [persistCreated]
  split
  · exact always_quiet (reject_quiet ..)
  have hmay : MayOwn (.create d) (resourceClient ctx d.resource) w
      (deploymentQid d.resource.environmentQid d.deploymentId) := .inl ⟨d, rfl, hnone, rfl⟩
  refine always_bind.2 (always_attempt.2
    (always_mono (persist_licensed (m := .create d) hmay _ _ _ _ _) fun r w' _ => ?_))
  cases r with
  | error e => exact always_quiet (reject_quiet ..)
  | ok _ => exact always_quiet (publishReport_quiet ..)

theorem createMissing_licensed {d : CreateMessage}
    (hnone : (resourceClient ctx d.resource).stored w = none) :
    Always (Licensed ctx (.create d)) (createMissing ctx d) (fun _ _ => True) w := by
  rw [createMissing]
  split
  · exact always_quiet (reject_quiet ..)
  split
  · exact always_quiet (reject_quiet ..)
  split
  · exact always_quiet (reject_quiet ..)
  refine always_bind.2 (always_attempt.2 (always_plugin trivial fun r => ?_))
  cases r with
  | error e => exact always_quiet (reject_quiet ..)
  | ok resource =>
  refine persistCreated_licensed ?_ resource
  exact hnone

theorem handleCreate_licensed (d : CreateMessage) :
    Always (Licensed ctx (.create d)) (handleCreate ctx d) (fun _ _ => True) w := by
  refine always_bind.2 (always_attempt.2 (always_get rfl
    (fun hnone => createMissing_licensed hnone) (fun _ _ _ _ => ?_) fun e => ?_))
  · exact always_quiet (settle_quiet _)
  · exact always_quiet (reject_quiet ..)

/-- A decoded row has the stored owner. -/
theorem storedOwner_of_get {c : Rdb.ResourceClient} {row : Rdb.Row} {r : Rdb.Resource}
    {owner : String} (hrow : c.stored w = some row)
    (hr : Rdb.mapResourceRow c.region c.key row = .ok r) (howner : r.owner = some owner) :
    storedOwner c w = some owner := by
  have : r.owner = row.owner := Rdb.owner_mapResourceRow hr
  rw [storedOwner, hrow, bind_some, ← this, howner]

theorem destroyOwned_licensed {d : DestroyMessage}
    (howner : storedOwner (resourceClient ctx d.resource) w =
      some (deploymentQid d.resource.environmentQid d.deploymentId)) (current : Rdb.Resource) :
    Always (Licensed ctx (.destroy d)) (destroyOwned ctx d current) (fun _ _ => True) w := by
  have hmay : MayDestroy (.destroy d) (resourceClient ctx d.resource) w
      (deploymentQid d.resource.environmentQid d.deploymentId) := ⟨d, rfl, rfl, howner⟩
  rw [destroyOwned]
  split
  · exact always_quiet (reject_quiet ..)
  · exact always_quiet (reject_quiet ..)
  split
  · exact always_quiet (reject_quiet ..)
  refine always_bind.2 (always_attempt.2 (always_plugin ⟨rfl, hmay⟩ fun r => ?_))
  cases r with
  | error e => exact always_quiet (reject_quiet ..)
  | ok _ =>
  -- The plugin call has not touched the row.
  refine always_bind.2 (always_attempt.2 (always_bind.2
    (always_rdb ⟨rfl, _, hmay⟩ (fun _ => ?_) fun e => ⟨?_, ?_⟩)))
  · exact always_quiet (publishReport_quiet ..)
  · exact always_quiet (reject_quiet ..)
  · exact always_quiet (reject_quiet ..)

theorem handleDestroy_licensed (d : DestroyMessage) :
    Always (Licensed ctx (.destroy d)) (handleDestroy ctx d) (fun _ _ => True) w := by
  refine always_bind.2 (always_attempt.2 (always_get rfl
    (fun _ => always_quiet (settle_quiet _)) (fun row r hrow hr => ?_) fun e => ?_))
  · change Always _ (if _ then _ else _) _ _
    split
    · exact always_quiet (settle_quiet _)
    · next howner => exact destroyOwned_licensed (storedOwner_of_get hrow hr (not_not.1 howner)) r
  · exact always_quiet (reject_quiet ..)

section Update

variable {p : UpdateParams}

/-- What lets `m` update a resource as `p` says: `p` is about `m`'s resource, and once the stored
owner is the one `p` asks for, `m` may write the target over it. -/
def Updates (ctx : WorkerContext) (m : Message) (p : UpdateParams) : Prop :=
  p.resource = m.resource ∧ ∀ w,
    storedOwner (resourceClient ctx m.resource) w = some p.ownerDeploymentQid →
      MayOwn m (resourceClient ctx m.resource) w p.targetDepQid

theorem adopt_updates (d : AdoptMessage) : Updates ctx (.adopt d) (adoptParams d) :=
  ⟨rfl, fun _ h => .inr (.inl ⟨d, rfl, h, rfl⟩)⟩

theorem restore_updates (d : RestoreMessage) : Updates ctx (.restore d) (restoreParams d) :=
  ⟨rfl, fun _ h => .inr (.inr h)⟩

section

variable (hp : p.resource = m.resource)
  (hmay : MayOwn m (resourceClient ctx m.resource) w p.targetDepQid)

include hp hmay

theorem update_persist_licensed (inputs outputs : Record)
    (markers : Option (List Marker)) (volatile : Bool) :
    Always (Licensed ctx m) (p.persist ctx inputs outputs markers volatile) (fun _ _ => True) w := by
  rw [UpdateParams.persist, hp]
  refine always_bind.2 (always_attempt.2
    (always_mono (persist_licensed hmay _ _ _ _ _) fun r w' _ => ?_))
  cases r with
  | error e => exact always_quiet (p.reject_quiet ..)
  | ok _ => trivial

theorem update_apply_licensed
    (prevInputs prevOutputs desiredInputs : Record) (volatile : Bool) :
    Always (Licensed ctx m) (p.apply ctx prevInputs prevOutputs desiredInputs volatile)
      (fun _ _ => True) w := by
  rw [UpdateParams.apply]
  split
  · split
    · exact always_quiet (p.reject_quiet ..)
    refine always_bind.2 (always_attempt.2 (always_plugin trivial fun r => ?_))
    cases r with
    | error e => exact always_quiet (p.reject_quiet ..)
    | ok updated =>
    change Always _ (if _ then _ else _) _ _
    split
    · exact always_quiet (p.reject_quiet ..)
    · refine update_persist_licensed hp ?_ ..
      exact hmay
  · exact update_persist_licensed hp hmay ..

theorem updateOwned_licensed (current : Rdb.Resource) :
    Always (Licensed ctx m) (p.updateOwned ctx current) (fun _ _ => True) w := by
  rw [UpdateParams.updateOwned]
  split
  · exact always_quiet (p.reject_quiet ..)
  · exact always_quiet (p.reject_quiet ..)
  split
  · exact always_quiet (p.reject_quiet ..)
  split
  · exact always_quiet (p.reject_quiet ..)
  · exact update_apply_licensed hp hmay ..

end

theorem handleUpdateInputs_licensed (h : Updates ctx m p) :
    Always (Licensed ctx m) (handleUpdateInputs ctx p) (fun _ _ => True) w := by
  have hdrop : (M.settle .ack >>= fun _ => (pure none : M (Option Bool))).issues Quiet :=
    issues_bind (settle_quiet _) fun _ => trivial
  rw [handleUpdateInputs, h.1]
  refine always_bind.2 (always_attempt.2 (always_get rfl
    (fun _ => always_quiet hdrop) (fun row r hrow hr => ?_) fun e => ?_))
  · change Always _ (if _ then _ else _) _ _
    split
    · exact always_quiet hdrop
    next howner =>
    have howner := storedOwner_of_get hrow hr (not_not.1 howner)
    exact updateOwned_licensed h.1 (h.2 w howner) r
  · exact always_quiet (p.reject_quiet ..)

theorem handleUpdate_licensed (h : Updates ctx m p) :
    Always (Licensed ctx m) (handleUpdate ctx p) (fun _ _ => True) w := by
  refine always_then (I := fun _ => True) (handleUpdateInputs_licensed h) (fun r w' _ => ?_)
    fun _ _ _ => trivial
  cases r with
  | none => trivial
  | some volatile => exact always_quiet (publishReport_quiet ..)

end Update

theorem checkOwned_licensed {d : CheckMessage}
    (hrow : ((resourceClient ctx d.resource).stored w).isSome) (current : Rdb.Resource) :
    Always (Licensed ctx (.check d)) (checkOwned ctx d current) (fun _ _ => True) w := by
  rw [checkOwned]
  split
  · exact always_quiet (reject_quiet ..)
  · exact always_quiet (reject_quiet ..)
  split
  · exact always_quiet (reject_quiet ..)
  refine always_bind.2 (always_attempt.2 (always_plugin trivial fun r => ?_))
  cases r with
  | error e => exact always_quiet (reject_quiet ..)
  | ok checked =>
  change Always _ (if _ then _ else _) _ _
  split
  · exact always_quiet (reject_quiet ..)
  refine always_bind.2 (always_attempt.2
    (always_mono (setOutput_licensed (m := .check d) _ ?_) fun r w' _ => ?_))
  · exact hrow
  cases r with
  | error e => exact always_quiet (reject_quiet ..)
  | ok _ => exact always_quiet (publishReport_quiet ..)

theorem handleCheck_licensed (d : CheckMessage) :
    Always (Licensed ctx (.check d)) (handleCheck ctx d) (fun _ _ => True) w := by
  refine always_bind.2 (always_attempt.2 (always_get rfl
    (fun _ => always_quiet (settle_quiet _)) (fun row r hrow hr => ?_) fun e => ?_))
  · change Always _ (if _ then _ else _) _ _
    split
    · exact always_quiet (settle_quiet _)
    · exact checkOwned_licensed (isSome_iff_exists.2 ⟨row, hrow⟩) r
  · exact always_quiet (reject_quiet ..)

/-- **Every request of a worker is licensed** by the message it handles and the row at that
moment. -/
theorem workerLoopIteration_licensed (ctx : WorkerContext) (m : Message) (w : World) :
    Always (Licensed ctx m) (workerLoopIteration ctx m) (fun _ _ => True) w := by
  have hhandle : Always (Licensed ctx m) (handle ctx m) (fun _ _ => True) w := by
    cases m with
    | create d => exact handleCreate_licensed d
    | restore d => exact handleUpdate_licensed (restore_updates d)
    | adopt d => exact handleUpdate_licensed (adopt_updates d)
    | destroy d => exact handleDestroy_licensed d
    | check d => exact handleCheck_licensed d
  exact always_then (I := fun _ => True) hhandle (fun _ _ _ => always_quiet (settle_quiet _))
    fun _ _ _ => trivial

end Walk

/-! ## Sequences of deliveries -/

/-- A delivery: a message, and how far the worker gets with it and with which answers.  A worker
that crashes leaves the message to be delivered once more. -/
structure Delivery where
  message : Message
  turns : List World.sem.Turn

/-- The worker's turn on a delivery, up to where it got: what it has left to do, and the world. -/
def Delivery.progress (ctx : WorkerContext) (w : World) (d : Delivery) : M Unit × World :=
  (workerLoopIteration ctx d.message).exec World.sem d.turns w

/-- The world after a delivery. -/
def deliver (ctx : WorkerContext) (w : World) (d : Delivery) : World := (d.progress ctx w).2

theorem within_anything (ts : List World.sem.Turn) : ∀ t ∈ ts, t.Within anything :=
  fun _ _ _ => trivial

/-- However far a worker gets, it has stepped the rows. -/
theorem exec_stepped (ctx : WorkerContext) (w : World) (d : Delivery) :
    Stepped ctx d.message w (d.progress ctx w).2 :=
  exec_rel (R := Stepped ctx d.message) (fun _ => .refl) (fun _ _ _ => .trans)
    (fun _ _ a h _ => licensed_act h a) (workerLoopIteration_licensed ctx d.message w)
    (within_anything d.turns)

/-- However far a worker gets, the request it is about to make is licensed. -/
theorem exec_licensed (ctx : WorkerContext) (w : World) (d : Delivery) {o : Op}
    {k : Resp o → M Unit} (h : (d.progress ctx w).1 = .ask o k) :
    Licensed ctx d.message (d.progress ctx w).2 o := by
  have hrest := always_exec (workerLoopIteration_licensed ctx d.message w) (within_anything d.turns)
  change Always _ (d.progress ctx w).1 _ (d.progress ctx w).2 at hrest
  rw [h] at hrest
  exact hrest.1

/-- Nothing happened to the resource of a delivery that its message does not entitle to: `w` is the
world the delivery began in, `now` what the worker has left to do and the world it is in. -/
structure Guarded (ctx : WorkerContext) (m : Message) (w : World) (now : M Unit × World) :
    Prop where
  /-- A row that is gone was destroyed in the name of its owner. -/
  gone : ∀ r, (resourceClient ctx m.resource).stored w = some r →
    (resourceClient ctx m.resource).stored now.2 = none →
      ∃ d, m = .destroy d ∧ r.owner = some (deploymentQid d.resource.environmentQid d.deploymentId)
  /-- A row that has appeared was created, and belongs to the deployment that created it. -/
  appeared : ∀ r, (resourceClient ctx m.resource).stored w = none →
    (resourceClient ctx m.resource).stored now.2 = some r →
      ∃ d, m = .create d ∧ r.owner = some (deploymentQid d.resource.environmentQid d.deploymentId)
  changed : ∀ r r', (resourceClient ctx m.resource).stored w = some r →
    (resourceClient ctx m.resource).stored now.2 = some r' → r'.owner ≠ r.owner →
      ∃ d, m = .adopt d ∧
        r.owner = some (deploymentQid d.resource.environmentQid d.fromDeploymentId) ∧
        r'.owner = some (deploymentQid d.resource.environmentQid d.toDeploymentId)
  others : ∀ c ≠ resourceClient ctx m.resource, c.stored now.2 = c.stored w
  /-- A row is deleted in the name of its owner at that moment. -/
  delete : ∀ region key k, now.1 = .ask (.rdb region (.deleteResource key)) k →
    ⟨region, key⟩ = resourceClient ctx m.resource ∧ ∃ d, m = .destroy d ∧
      storedOwner (resourceClient ctx m.resource) now.2 =
        some (deploymentQid d.resource.environmentQid d.deploymentId)
  pluginDelete : ∀ plugin owner id inputs outputs k,
    now.1 = .ask (.plugin plugin (.deleteResource owner id inputs outputs)) k →
      id = m.resource.resourceId ∧ ∃ d, m = .destroy d ∧
        owner = deploymentQid d.resource.environmentQid d.deploymentId ∧
        storedOwner (resourceClient ctx m.resource) now.2 = some owner

/-- **Ownership is respected.**  After any deliveries, at any moment of the next one. -/
theorem deliveries_guarded (ctx : WorkerContext) (w₀ : World) (before : List Delivery)
    (d : Delivery) :
    Guarded ctx d.message (before.foldl (deliver ctx) w₀)
      (d.progress ctx (before.foldl (deliver ctx) w₀)) := by
  generalize before.foldl (deliver ctx) w₀ = w
  have hstep := exec_stepped ctx w d
  have hown := hstep.own
  refine ⟨fun r hr hnone => ?_, fun r hnone hr => ?_, fun r r' hr hr' hne => ?_, hstep.others,
    fun region key k h => ?_, fun plugin owner id inputs outputs k h => ?_⟩
  · rw [hr, hnone] at hown
    cases hown with
    | destroyed d _ hm hd => exact ⟨d, hm, hd⟩
  · rw [hr, hnone] at hown
    cases hown with
    | created d _ hm hd => exact ⟨d, hm, hd⟩
  · rw [hr, hr'] at hown
    cases hown with
    | same => exact absurd rfl hne
    | kept _ _ hd => exact absurd hd hne
    | adopted d _ _ hm hd hd' => exact ⟨d, hm, hd, hd'⟩
  · obtain ⟨hc, owner, d, hm, rfl, howner⟩ := exec_licensed ctx w d h
    exact ⟨hc, d, hm, howner⟩
  · exact exec_licensed ctx w d h

end Skyr.Rte
