import Skyr.Cdb.Knowledge

/-!
# The lifecycle of a deployment

A deployment is desired, then lingering, then undesired, then down, and it may skip a state but
not go back.  That is what the operations of the client are written for; but each of them reads a
row, and some time later writes it back as a whole.  When two jobs do this to the same row at the
same time, the one that writes last undoes what the other one did
(`progress_revives_undesired`).

It takes such an interference for the lifecycle to go backwards.  In a run in which every job,
whenever it reads or writes a row, finds it as it has itself last read or written it
(`Undisturbed`), no deployment ever goes back, and one that is down does not come back into the
active index (`lifecycle_forward`).
-/

namespace Skyr.Cdb

open List Machine

variable [SclData]

open DeploymentState

/-! ## When nobody interferes -/

/-- The request `o`, decided as `a`, finds the rows it is about as the job knows them: the stored
state is one that is possible after the log `l`.  A read of a row does not fail, and `make_desired`
is for a deployment that has no row. -/
def Undisturbed (s : Store) (c : Job) (l : Prog.Log Resp) : (o : Skyr.Op) → Ans o → Prop
  | .cdb (.findDeployment q), reply =>
    reply.isDone ∧ Possible l q (s.state q) ∧ (c = .makeDesired q → s.state q = none)
  | .cdb (.findDeploymentsByQids qids), _ => ∀ q ∈ qids, Possible l q (s.state q)
  | .cdb (.setDeploymentById d), _ => Possible l d.qid (s.state d.qid)
  | .cdb (.setActiveDeployment q), _ => Possible l q (s.state q)
  | _, _ => True

section Replies

variable {c : Job} {l : Prog.Log Resp} {w : World}

omit [SclData] in
theorem mem_items_upTo {α : Type} {cut : Option (ℕ × String)} {items : List α} {a : α}
    (h : a ∈ (Rows.upTo cut items).items) : a ∈ items := by
  cases cut with
  | none => exact h
  | some cut => exact mem_of_mem_take h

omit [SclData] in
theorem find_of_mem_rows {s : Store} {cut : Option (ℕ × String)} {qids : List DeploymentQid}
    {d : Deployment} (h : d ∈ (Rows.upTo cut (qids.filterMap s.find)).items) :
    d.qid ∈ qids ∧ s.state d.qid = some d.state := by
  obtain ⟨q, hq, hd⟩ := mem_filterMap.1 (mem_items_upTo h)
  obtain ⟨rfl, hst⟩ := Store.find_eq_some hd
  exact ⟨hq, hst⟩

/-- A job that is not disturbed gets a plausible reply. -/
theorem plausible_act {o : Skyr.Op} {a : Ans o} (h : Undisturbed w.cdb c l o a) :
    Plausible c l ⟨o, (World.act o a w).1⟩ := by
  cases o with
  | cdb o =>
    cases o with
    | findDeployment q =>
      obtain ⟨hdone, hposs, hnew⟩ := h
      cases a with
      | error applied msg => cases hdone
      | done cut =>
      refine ⟨?_, fun d hd => (Store.find_eq_some hd).1, fun hc => ?_⟩
      · change Possible l q ((w.cdb.find q).map Deployment.state)
        rw [Store.state_eq_map_find]
        exact hposs
      have hnone := hnew hc
      rw [← Store.state_eq_map_find, Option.map_eq_none_iff] at hnone
      exact hnone
    | findDeploymentsByQids qids =>
      cases a with
      | error applied msg => trivial
      | done cut =>
      intro d hd
      obtain ⟨hq, hst⟩ := find_of_mem_rows hd
      refine ⟨hst ▸ h d.qid hq, fun d' hd' heq => ?_⟩
      have hst' := (find_of_mem_rows hd').2
      rw [heq, hst] at hst'
      exact (Option.some.inj hst').symm
    | setDeploymentById d => cases a <;> trivial
    | _ => trivial
  | _ => trivial

end Replies

/-! ## One step -/

/-- No deployment has gone back, and none that is down has come back into the active index. -/
structure Onward (s s' : Store) : Prop where
  state : ∀ q st, s.state q = some st → ∃ st', s'.state q = some st' ∧ rank st ≤ rank st'
  active : ∀ q, s.state q = some down → q ∉ s.active → q ∉ s'.active

omit [SclData] in
theorem Onward.refl (s : Store) : Onward s s := ⟨fun _ st h => ⟨st, h, le_refl _⟩, fun _ _ h => h⟩

omit [SclData] in
theorem eq_down_of_rank {st : DeploymentState} (h : rank down ≤ rank st) : st = down := by
  cases st with
  | down => rfl
  | undesired | lingering | desired => exact absurd h (by decide)

omit [SclData] in
theorem Onward.stays_down {s s' : Store} (h : Onward s s') {q : DeploymentQid}
    (hq : s.state q = some down) : s'.state q = some down := by
  obtain ⟨st, hst, hrank⟩ := h.state q down hq
  rw [hst, eq_down_of_rank hrank]

omit [SclData] in
theorem Onward.trans {s s' s'' : Store} (h : Onward s s') (h' : Onward s' s'') : Onward s s'' := by
  refine ⟨fun q st hst => ?_, fun q hq hactive =>
    h'.active q (h.stays_down hq) (h.active q hq hactive)⟩
  obtain ⟨st', hst', hrank⟩ := h.state q st hst
  obtain ⟨st'', hst'', hrank'⟩ := h'.state q st' hst'
  exact ⟨st'', hst'', hrank.trans hrank'⟩

/-- What a request must find in the database for the lifecycle to go on. -/
def InOrder (s : Store) (c : Job) : Op → Prop
  | .setDeploymentById d => Ahead c d.qid d.state (s.state d.qid)
  | .setActiveDeployment q => s.state q ≠ some down
  | _ => True

variable {c : Job}

theorem onward_exec {s : Store} {o : Op} (h : InOrder s c o) : Onward s (s.exec none o).2 := by
  cases o with
  | setDeploymentById d =>
    refine ⟨fun q st hst => ?_, fun q _ hactive => hactive⟩
    by_cases hq : q = d.qid
    · subst hq
      rcases h with ⟨st', hst', hrank⟩ | ⟨hnone, -⟩
      · rw [hst] at hst'
        cases hst'
        exact ⟨d.state, s.state_setById_self d, hrank⟩
      · rw [hst] at hnone
        cases hnone
    · exact ⟨st, (s.state_setById_ne d hq).trans hst, le_refl _⟩
  | setActiveDeployment q =>
    refine ⟨fun q' st hst => ⟨st, hst, le_refl _⟩, fun q' hdown hactive hmem => ?_⟩
    rcases (s.mem_active_setActive q q').1 hmem with rfl | hmem
    · exact h hdown
    · exact hactive hmem
  | unsetActiveDeployment q =>
    refine ⟨fun q' st hst => ⟨st, hst, le_refl _⟩, fun q' _ hactive hmem => ?_⟩
    exact hactive ((s.mem_active_unsetActive q q').1 hmem).1
  | _ => exact ⟨fun _ st hst => ⟨st, hst, le_refl _⟩, fun _ _ hactive => hactive⟩

/-- A request that a job is entitled to, made when nobody has interfered, is in order. -/
theorem inOrder_of_entitled {w : World} {l : Prog.Log Resp} {o : Op} {reply : Reply}
    (hE : Entitled c l (.cdb o)) (hco : Coherent c l) (h : Undisturbed w.cdb c l (.cdb o) reply) :
    InOrder w.cdb c o := by
  cases o with
  | setDeploymentById | setActiveDeployment => exact hE hco _ h
  | _ => trivial

/-- Whatever becomes of a request, it leaves the database as it is or carries it out. -/
theorem onward_act {w : World} {l : Prog.Log Resp} {o : Skyr.Op} {a : Ans o}
    (hE : Entitled c l o) (hco : Coherent c l) (h : Undisturbed w.cdb c l o a) :
    Onward w.cdb (World.act o a w).2.cdb := by
  cases o with
  | cdb o =>
    exact World.act_cdb_keeps (T := fun w' => Onward w.cdb w'.cdb) (.refl _)
      (onward_exec (inOrder_of_entitled hE hco h)) a
  | _ => exact .refl _

/-! ## Whole runs -/

section Runs

variable (plugins : RegionId → List ModuleId)

/-- Nobody interferes with anybody. -/
def undisturbed : (cluster plugins).Conditions where
  start _ _ := True
  ask v c l o a := Undisturbed v.state.cdb c l o a
  outside _ _ := True

variable {plugins}

/-- Every job has had coherent replies, and the database has gone on from `s`. -/
def Forward (s : Store) (v : PoolView Resp Site Job) : Prop :=
  (∀ tr ∈ v.traces, Coherent tr.call tr.log) ∧ Onward s v.state.cdb

theorem forward_step {s : Store} {v v' : PoolView Resp Site Job} (hv : Forward s v)
    (h : (cluster plugins).Step Entitled (undisturbed plugins) v v') : Forward s v' := by
  obtain ⟨hco, hon⟩ := hv
  cases h with
  | start c running _ =>
    refine ⟨fun tr htr => ?_, hon⟩
    rcases mem_append.1 htr with htr | htr
    · exact hco tr htr
    · rw [mem_singleton.1 htr]
      trivial
  | ask o a running hi hE hund =>
    have hl := hco _ (mem_of_getElem? hi)
    refine ⟨fun tr htr => ?_, hon.trans (onward_act hE hl hund)⟩
    rcases mem_or_eq_of_mem_set htr with htr | rfl
    · exact hco tr htr
    · exact ⟨plausible_act hund, hl⟩
  | idle running hi _ =>
    have hl := hco _ (mem_of_getElem? hi)
    refine ⟨fun tr htr => ?_, hon⟩
    rcases mem_or_eq_of_mem_set htr with htr | rfl
    · exact hco tr htr
    · exact hl
  | outside e _ =>
  refine ⟨hco, ?_⟩
  change Onward s (Site.handle plugins e v.state).cdb
  rw [Site.handle_cdb]
  exact hon

/-- **The lifecycle goes forward when nobody interferes.**  In a run in which every job finds the
rows as it knows them, a deployment that is undesired is never desired or lingering again, one that
is down stays down, and it does not come back into the active index. -/
theorem lifecycle_forward (s₀ : Site) (es es' : List (cluster plugins).Event)
    (h : (cluster plugins).Meets (undisturbed plugins) ⟨s₀, []⟩ (es ++ es')) (q : DeploymentQid) :
    let before := ((cluster plugins).run ⟨s₀, []⟩ es).state.cdb
    let after := ((cluster plugins).run ⟨s₀, []⟩ (es ++ es')).state.cdb
    (before.state q = some undesired →
      after.state q ≠ some desired ∧ after.state q ≠ some lingering) ∧
    (before.state q = some down → after.state q = some down) ∧
    (before.state q = some down → q ∉ before.active → q ∉ after.active) := by
  intro before after
  obtain ⟨hes, hes'⟩ := meets_append.1 h
  obtain ⟨⟨hco, -⟩, hsound⟩ := Machine.invariant (P := Entitled) (J := Forward s₀.cdb) body_entitled
    (fun _ _ hv hs => forward_step hv hs) (y := ⟨s₀, []⟩) (fun th hth => absurd hth not_mem_nil)
    ⟨fun tr htr => absurd htr not_mem_nil, .refl _⟩ hes
  obtain ⟨⟨-, hon⟩, -⟩ := Machine.invariant (P := Entitled) (J := Forward before) body_entitled
    (fun _ _ hv hs => forward_step hv hs) hsound ⟨hco, .refl _⟩ hes'
  have hon : Onward before after := by
    have hrun : (cluster plugins).run ⟨s₀, []⟩ (es ++ es') =
        (cluster plugins).run ((cluster plugins).run ⟨s₀, []⟩ es) es' := foldl_append
    change Onward before ((cluster plugins).run ⟨s₀, []⟩ (es ++ es')).state.cdb
    rw [hrun]
    exact hon
  refine ⟨fun hq => ?_, fun hq => hon.stays_down hq, fun hq => hon.active q hq⟩
  obtain ⟨st, hst, hrank⟩ := hon.state q undesired hq
  rw [hst]
  constructor
  · rintro ⟨⟩
    exact absurd hrank (by decide)
  · rintro ⟨⟩
    exact absurd hrank (by decide)

end Runs

end Skyr.Cdb

/-! ## Two runs

A deployment of `shop` is torn down.  In the first run the worker of the deployment is at that
moment about to note that the deployment is bootstrapped, and has read its row; in the second one
nothing else is going on. -/

namespace Skyr.Cdb

open De DeploymentState

local instance : SclData := .nat

/-- The engines, with no plugins. -/
abbrev shop := cluster fun _ => []

/-- The deployment is stored in the given state and is in the active index. -/
def shopWorld (st : DeploymentState) : World :=
  { World.empty with
    cdb := (Store.empty.setById ⟨shopWorker.client, st, false⟩).setActive shopWorker.client }

/-- The worker has read the row it is about to write, and then the environment is torn down. -/
def tornDown : List shop.Event :=
  [.start (.iterate 1 shopWorker), .start (.tearDown shopWorker.environmentQid)] ++
    List.replicate 7 (.turn 0 Site.calm) ++ List.replicate 6 (.turn 1 Site.calm)

/-- The worker writes the row back. -/
def writtenBack : List shop.Event := List.replicate 2 (.turn 0 Site.calm)

theorem progress_revives_undesired :
    (shop.run ⟨(shopWorld desired).site, []⟩ tornDown).state.cdb.state shopWorker.client =
      some undesired ∧
    (shop.run ⟨(shopWorld desired).site, []⟩ (tornDown ++ writtenBack)).state.cdb.state
      shopWorker.client = some desired := by
  decide +kernel

/-- The ref of an undesired deployment is deleted. -/
def deleted : List shop.Event :=
  .start (.deleteRef shopWorker.environmentQid shopWorker.client.deployment.commit) ::
    List.replicate 6 (.turn 0 Site.calm)

theorem undesired_stays :
    shop.Meets (undisturbed _) ⟨(shopWorld undesired).site, []⟩ ([] ++ deleted) ∧
      (shop.run ⟨(shopWorld undesired).site, []⟩ deleted).state.cdb.state shopWorker.client ≠
        some desired := by
  have h : shop.Meets (undisturbed _) ⟨(shopWorld undesired).site, []⟩ ([] ++ deleted) := by
    refine ⟨trivial, Machine.admits_ask rfl trivial, Machine.admits_ask rfl ?_,
      Machine.admits_ask rfl ?_, Machine.admits_choose rfl, Machine.admits_ask rfl ?_,
      Machine.admits_ask rfl ?_, trivial⟩
    · exact fun q _ => trivial
    · exact ⟨rfl, rfl, nofun⟩
    · exact rfl
    · exact rfl
  exact ⟨h, ((lifecycle_forward (shopWorld undesired).site [] deleted h shopWorker.client).1
    (by decide +kernel)).1⟩

end Skyr.Cdb
