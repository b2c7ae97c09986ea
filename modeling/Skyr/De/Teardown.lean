import Skyr.De.Worker

/-!
# What is torn down

A deployment destroys resources on two occasions: when it is undesired it takes down everything it
owns, and when it is desired and has been explored it takes down what its program no longer
mentions.  Both routines list the resources of the environment, put aside those that something
else still depends on, and ask for the destruction of the rest.

They differ in what they count as something else, and neither counts everything.  Both list the
home region only, so a dependent in another region goes unnoticed.  The second one moreover counts
only the resources of other deployments and those touched by the evaluation: an untouched resource
does not protect what it depends on, although it is still there.  `teardown_spares_iff` says exactly
when the law is kept all the same.

The same blind spot decides when an undesired deployment is put down: it is when the home region
holds nothing but its sticky resources, whatever the other regions hold
(`down_when_empty_iff`).
-/

namespace Skyr.De

open List Cdb.DeploymentClient

open Prog Rdb.NamespaceClient

variable [SclData]

/-! ## Stored resources -/

/-- The row of a resource of the environment, in the database of the resource's region. -/
def Worker.row (wk : Worker) (w : World) (id : ResourceId) : Option Rdb.Row :=
  (w.rdb id.region).row ⟨wk.environmentQid.toString, id.typ, id.name⟩

/-- The row belongs to the deployment. -/
def Owns (wk : Worker) (row : Rdb.Row) : Prop := row.owner = some wk.ownerQid

/-- The row is marked as outliving its deployment. -/
def Sticky (row : Rdb.Row) : Prop := Marker.sticky ∈ row.markers.getD []

/-- The row lists `id` as a dependency, as it is read. -/
def DependsOn (row : Rdb.Row) (id : ResourceId) : Prop := id ∈ row.readDependencies

section Listing

variable {wk : Worker} {w : World} {all : List Rdb.Resource} {r : Rdb.Resource}

/-- What is listed is stored in the home region. -/
theorem row_of_mem (h : wk.ns.decoded w = some all) (hr : r ∈ all) :
    r.id.region = wk.region ∧ ∃ row, wk.row w r.id = some row ∧ r.owner = row.owner ∧
      r.markers = row.markers.getD [] ∧ r.dependencies = row.readDependencies := by
  obtain ⟨key, row, hns, hrow, hmap⟩ := (mem_decoded h r).1 hr
  obtain ⟨hid, howner, hmarkers, hdeps⟩ := Rdb.mapResourceRow_eq_ok hmap
  refine ⟨by rw [hid]; rfl, row, ?_, howner, hmarkers, hdeps⟩
  rw [Worker.row, hid]
  change (w.rdb wk.region).row ⟨wk.ns.ns, key.resourceType, key.name⟩ = some row
  rw [← hns]
  exact hrow

variable {row : Rdb.Row}

/-- What is stored in the home region is listed. -/
theorem mem_of_row (h : wk.ns.decoded w = some all) {id : ResourceId}
    (hid : id.region = wk.region) (hrow : wk.row w id = some row) :
    ∃ r ∈ all, r.id = id ∧ r.owner = row.owner ∧ r.markers = row.markers.getD [] ∧
      r.dependencies = row.readDependencies := by
  rw [Worker.row, hid] at hrow
  obtain ⟨r, hr, hmap⟩ := decodes_of_stored h rfl hrow
  obtain ⟨hrid, howner, hmarkers, hdeps⟩ := Rdb.mapResourceRow_eq_ok hmap
  refine ⟨r, hr, hrid.trans ?_, howner, hmarkers, hdeps⟩
  change (⟨wk.region, id.typ, id.name⟩ : ResourceId) = id
  rw [← hid]

/-- What the two routines have in common: of the listed resources that are `candidate`, those that
are not sticky and that nothing `living` depends on. -/
theorem mem_targets {candidate living : Rdb.Resource → Bool} {id : ResourceId} :
    id ∈ ((all.filter candidate).filter fun r => !isSticky r &&
      !((all.filter living).flatMap Rdb.Resource.dependencies).contains r.id).map Rdb.Resource.id ↔
    ∃ r ∈ all, r.id = id ∧ candidate r ∧ Marker.sticky ∉ r.markers ∧
      ∀ s ∈ all, living s → id ∉ s.dependencies := by
  simp only [mem_map, mem_filter, isSticky, Bool.and_eq_true, Bool.not_eq_true',
    contains_eq_mem, decide_eq_false_iff_not, mem_flatMap, not_exists, not_and]
  constructor
  · rintro ⟨r, ⟨⟨hr, hc⟩, hs, hl⟩, rfl⟩
    exact ⟨r, hr, rfl, hc, hs, fun s hs hls => hl s ⟨hs, hls⟩⟩
  · rintro ⟨r, hr, rfl, hc, hs, hl⟩
    exact ⟨r, ⟨⟨hr, hc⟩, hs, fun s hsl => hl s hsl.1 hsl.2⟩, rfl⟩

theorem isOwned_iff (h : r.owner = row.owner) : isOwned wk r = true ↔ Owns wk row := by
  rw [isOwned, Owns, h, beq_iff_eq]

theorem isSticky_iff (h : r.markers = row.markers.getD []) : isSticky r = true ↔ Sticky row := by
  rw [isSticky, Sticky, h, contains_eq_mem, decide_eq_true_iff]

end Listing

/-! ## What protects a resource -/

section Protection

variable (wk : Worker) (touched : List ResourceId) (w : World)

/-- A stored resource that is left behind: a sticky one of the deployment that it does not use any
more. -/
def LeftBehind (id : ResourceId) (row : Rdb.Row) : Prop :=
  Owns wk row ∧ Sticky row ∧ id ∉ touched

/-- Nothing else that is stored depends on the resource, except what is left behind. -/
def Free (id : ResourceId) : Prop :=
  ∀ id' row, id' ≠ id → wk.row w id' = some row → DependsOn row id → LeftBehind wk touched id' row

/-- A resource that a teardown is after: one of the deployment in the home region that is not
sticky and not in use. -/
def Expendable (id : ResourceId) : Prop :=
  id.region = wk.region ∧ id ∉ touched ∧ ∃ row, wk.row w id = some row ∧ Owns wk row ∧ ¬Sticky row

/-- In the home region, something that `counts` depends on the resource. -/
def HasDependent (counts : ResourceId → Rdb.Row → Prop) (id : ResourceId) : Prop :=
  ∃ id' row, id'.region = wk.region ∧ wk.row w id' = some row ∧ counts id' row ∧ DependsOn row id

/-- What `run_undesired` counts: everything but the sticky resources of the deployment. -/
def CountsWhenUndesired (_ : ResourceId) (row : Rdb.Row) : Prop := ¬(Owns wk row ∧ Sticky row)

/-- What `destroy_untouched_resources` counts: the resources of others, and those touched. -/
def CountsWhenDesired (id : ResourceId) (row : Rdb.Row) : Prop := ¬Owns wk row ∨ id ∈ touched

variable {wk touched w} {all : List Rdb.Resource}

section

variable (h : wk.ns.decoded w = some all)

include h

section

variable {living : Rdb.Resource → Bool} {counts : ResourceId → Rdb.Row → Prop}
  (hcounts : ∀ (r : Rdb.Resource) row, r.owner = row.owner → r.markers = row.markers.getD [] →
    (living r = true ↔ counts r.id row))

include hcounts

/-- A dependent among the listed resources, and in the store. -/
theorem hasDependent_iff (id : ResourceId) :
    (∃ s ∈ all, living s ∧ id ∈ s.dependencies) ↔ HasDependent wk w counts id := by
  constructor
  · rintro ⟨s, hs, hliving, hid⟩
    obtain ⟨hregion, row, hrow, howner, hmarkers, hdeps⟩ := row_of_mem h hs
    refine ⟨s.id, row, hregion, hrow, (hcounts s row howner hmarkers).1 hliving, ?_⟩
    rw [DependsOn, ← hdeps]
    exact hid
  rintro ⟨id', row, hregion, hrow, hc, hid⟩
  obtain ⟨s, hs, rfl, howner, hmarkers, hdeps⟩ := mem_of_row h hregion hrow
  refine ⟨s, hs, (hcounts s row howner hmarkers).2 hc, ?_⟩
  rw [hdeps]
  exact hid

/-- The two routines select alike: what is expendable and has no dependent that counts. -/
theorem mem_targets_iff {candidate : Rdb.Resource → Bool}
    (hcandidate : ∀ (r : Rdb.Resource) row, r.owner = row.owner →
      (candidate r = true ↔ Owns wk row ∧ r.id ∉ touched)) (id : ResourceId) :
    id ∈ ((all.filter candidate).filter fun r => !isSticky r &&
      !((all.filter living).flatMap Rdb.Resource.dependencies).contains r.id).map Rdb.Resource.id ↔
    Expendable wk touched w id ∧ ¬HasDependent wk w counts id := by
  rw [mem_targets, ← hasDependent_iff h hcounts]
  constructor
  · rintro ⟨r, hr, rfl, hc, hsticky, hliving⟩
    obtain ⟨hregion, row, hrow, howner, hmarkers, -⟩ := row_of_mem h hr
    obtain ⟨howns, htouched⟩ := (hcandidate r row howner).1 hc
    refine ⟨⟨hregion, htouched, row, hrow, howns, ?_⟩, ?_⟩
    · rw [Sticky, ← hmarkers]
      exact hsticky
    · rintro ⟨s, hs, hls, hid⟩
      exact hliving s hs hls hid
  rintro ⟨⟨hregion, htouched, row, hrow, howns, hsticky⟩, hnot⟩
  obtain ⟨r, hr, rfl, howner, hmarkers, -⟩ := mem_of_row h hregion hrow
  refine ⟨r, hr, rfl, (hcandidate r row howner).2 ⟨howns, htouched⟩, ?_, ?_⟩
  · rw [hmarkers]
    exact hsticky
  · exact fun s hs hls hid => hnot ⟨s, hs, hls, hid⟩

end

theorem mem_undesiredTargets (id : ResourceId) :
    id ∈ undesiredTargets wk all ↔
      Expendable wk [] w id ∧ ¬HasDependent wk w (CountsWhenUndesired wk) id := by
  refine mem_targets_iff h (fun r row howner hmarkers => ?_) (fun r row howner => ?_) id
  · rw [CountsWhenUndesired, ← isOwned_iff howner, ← isSticky_iff hmarkers, ← Bool.and_eq_true,
      Bool.not_eq_true', Bool.not_eq_true]
  · rw [isOwned_iff howner]
    simp

theorem mem_untouchedTargets (id : ResourceId) :
    id ∈ untouchedTargets wk touched all ↔
      Expendable wk touched w id ∧ ¬HasDependent wk w (CountsWhenDesired wk touched) id := by
  refine mem_targets_iff h (fun r row howner hmarkers => ?_) (fun r row howner => ?_) id
  · rw [CountsWhenDesired, ← isOwned_iff howner]
    simp
  · rw [Bool.and_eq_true, isOwned_iff howner]
    simp

end

end Protection

/-! ## Which requests a teardown makes -/

section Requests

variable {wk : Worker} {touched : List ResourceId} {w : World} {P : World → Op → Prop}

/-- The request that asks for the destruction of a resource. -/
def destroyRequest (wk : Worker) (id : ResourceId) : Op :=
  .enqueue id.region (.destroy ⟨wk.resourceRef id, wk.client.deployment, wk.region⟩)

/-- A list of destructions is asked for from the first to the last, and nothing is stored. -/
theorem surely_destroys {ids : List ResourceId} {Q : Except String PUnit → World → Prop}
    (h : Surely P (ids.forM (destroyResource wk)) Q w) :
    ∀ id ∈ ids, ∃ w', w'.rdb = w.rdb ∧ w'.cdb = w.cdb ∧ P w' (destroyRequest wk id) := by
  induction ids generalizing w with
  | nil => exact fun id hid => absurd hid not_mem_nil
  | cons id ids ih =>
  obtain ⟨hP, hrest⟩ := surely_enqueue.1 (always_bind.1 h)
  intro id' hid'
  rcases mem_cons.1 hid' with rfl | hid'
  · exact ⟨w, rfl, rfl, hP⟩
  · obtain ⟨w', hrdb, hcdb, hP'⟩ := ih hrest id' hid'
    exact ⟨w', hrdb, hcdb, hP'⟩

/-- A destruction is asked for only when nothing that stays depends on the resource. -/
def Spares (wk : Worker) (touched : List ResourceId) (w : World) (o : Op) : Prop :=
  ∀ region d, o = .enqueue region (.destroy d) → Free wk touched w d.resource.resourceId

theorem spares_destroyRequest (id : ResourceId) :
    Spares wk touched w (destroyRequest wk id) ↔ Free wk touched w id := by
  constructor
  · exact fun h => h _ _ rfl
  rintro h region d heq
  cases heq
  exact h

theorem free_congr {w' : World} (h : w'.rdb = w.rdb) (id : ResourceId) :
    Free wk touched w' id ↔ Free wk touched w id := by
  rw [Free, Free]
  simp only [Worker.row, h]

/-- Destructions of the right resources, and statements of the configuration database, spare. -/
theorem always_spares {α : Type} {p : M α} {ids : List ResourceId}
    (hp : p.issues fun o => (∃ id ∈ ids, o = destroyRequest wk id) ∨ ∃ c, o = .cdb c)
    (h : ∀ id ∈ ids, Free wk touched w id) :
    Always (Spares wk touched) p (fun _ _ => True) w := by
  refine always_mono (always_of_issues (T := fun w' => w'.rdb = w.rdb) hp ?_ rfl) fun _ _ _ => trivial
  rintro o (⟨id, hid, rfl⟩ | ⟨c, rfl⟩) w' hw'
  · refine ⟨(spares_destroyRequest id).2 ((free_congr hw' id).2 (h id hid)), fun a _ => hw'⟩
  refine ⟨?_, fun a _ => hw'⟩
  intro region d heq
  cases heq

theorem undesired_spares_iff :
    Always (Spares wk []) (runUndesired wk) (fun _ _ => True) w ↔
      ∀ all, wk.ns.decoded w = some all → ∀ id ∈ undesiredTargets wk all, Free wk [] w id := by
  constructor
  · intro h all hall id hid
    have hsurely := always_bind.1 (surely_of_always h)
    have hrest := ((surely_collectResources hall).1 hsurely).2
    obtain ⟨w', hrdb, -, hspares⟩ := surely_destroys (always_bind.1 hrest) id hid
    exact (free_congr hrdb id).1 ((spares_destroyRequest id).1 hspares)
  intro h
  refine always_bind.2 (always_collectResources ?_ (fun all hall => ?_) fun e => trivial)
  · intro region d heq
    cases heq
  refine always_spares (issues_bind ?_ fun _ => ?_) (h all hall)
  · exact issues_forM fun id hid => ⟨.inl ⟨id, hid, rfl⟩, issues_ofExcept⟩
  split
  · trivial
  split
  · exact issues_set (.inr ⟨_, rfl⟩) (fun _ => .inr ⟨_, rfl⟩) (.inr ⟨_, rfl⟩) (.inr ⟨_, rfl⟩)
  · trivial

theorem untouched_spares_iff :
    Always (Spares wk touched) (destroyUntouchedResources wk touched) (fun _ _ => True) w ↔
      ∀ all, wk.ns.decoded w = some all → ∀ id ∈ untouchedTargets wk touched all,
        Free wk touched w id := by
  constructor
  · intro h all hall id hid
    have hsurely := always_bind.1 (surely_of_always h)
    have hrest := ((surely_collectResources hall).1 hsurely).2
    obtain ⟨w', hrdb, -, hspares⟩ := surely_destroys hrest id hid
    exact (free_congr hrdb id).1 ((spares_destroyRequest id).1 hspares)
  intro h
  refine always_bind.2 (always_collectResources ?_ (fun all hall => ?_) fun e => trivial)
  · intro region d heq
    cases heq
  · exact always_spares (issues_forM fun id hid => ⟨.inl ⟨id, hid, rfl⟩, issues_ofExcept⟩)
      (h all hall)

end Requests

/-! ## When the law is kept -/

section Law

variable (wk : Worker) (touched : List ResourceId) (w : World)

/-- A dependent that `run_undesired` overlooks: one in another region. -/
def OverlookedWhenUndesired (id : ResourceId) : Prop :=
  ∃ id' row, id'.region ≠ wk.region ∧ wk.row w id' = some row ∧ DependsOn row id ∧
    ¬(Owns wk row ∧ Sticky row)

/-- A dependent that `destroy_untouched_resources` overlooks: one in another region, or another
untouched resource of the deployment. -/
def OverlookedWhenDesired (id : ResourceId) : Prop :=
  ∃ id' row, id' ≠ id ∧ wk.row w id' = some row ∧ DependsOn row id ∧
    ((id'.region ≠ wk.region ∧ ¬LeftBehind wk touched id' row) ∨
      (id'.region = wk.region ∧ Owns wk row ∧ ¬Sticky row ∧ id' ∉ touched))

variable {wk touched w}

theorem free_iff_undesired {id : ResourceId} (hid : id.region = wk.region)
    (h : ¬HasDependent wk w (CountsWhenUndesired wk) id) :
    Free wk [] w id ↔ ¬OverlookedWhenUndesired wk w id := by
  constructor
  · rintro hfree ⟨id', row, hregion, hrow, hdep, hnot⟩
    have hne : id' ≠ id := fun heq => hregion (heq ▸ hid)
    obtain ⟨howns, hsticky, -⟩ := hfree id' row hne hrow hdep
    exact hnot ⟨howns, hsticky⟩
  intro hover id' row hne hrow hdep
  by_contra hleft
  have hnot : ¬(Owns wk row ∧ Sticky row) := fun hos =>
    hleft ⟨hos.1, hos.2, not_mem_nil⟩
  by_cases hregion : id'.region = wk.region
  · exact h ⟨id', row, hregion, hrow, hnot, hdep⟩
  · exact hover ⟨id', row, hregion, hrow, hdep, hnot⟩

theorem free_iff_desired {id : ResourceId}
    (h : ¬HasDependent wk w (CountsWhenDesired wk touched) id) :
    Free wk touched w id ↔ ¬OverlookedWhenDesired wk touched w id := by
  constructor
  · rintro hfree ⟨id', row, hne, hrow, hdep, ⟨-, hnot⟩ | ⟨-, -, hsticky, -⟩⟩
    · exact hnot (hfree id' row hne hrow hdep)
    · exact hsticky (hfree id' row hne hrow hdep).2.1
  intro hover id' row hne hrow hdep
  by_contra hleft
  by_cases hregion : id'.region = wk.region
  · -- In the home region a dependent that does not count is owned and untouched.
    have hcounts : ¬CountsWhenDesired wk touched id' row := fun hc =>
      h ⟨id', row, hregion, hrow, hc, hdep⟩
    obtain ⟨howns, htouched⟩ := not_or.1 hcounts
    have hsticky : ¬Sticky row := fun hs => hleft ⟨not_not.1 howns, hs, htouched⟩
    exact hover ⟨id', row, hne, hrow, hdep, .inr ⟨hregion, not_not.1 howns, hsticky, htouched⟩⟩
  · exact hover ⟨id', row, hne, hrow, hdep, .inl ⟨hregion, hleft⟩⟩

end Law

/-- **When teardown spares what is depended on.**  Both routines keep the law, whatever the
surroundings answer, if and only if the home region cannot be listed at all, or every expendable
resource with a dependent that the routine overlooks has one that it counts as well. -/
theorem teardown_spares_iff (wk : Worker) (touched : List ResourceId) (w : World) :
    (Always (Spares wk []) (runUndesired wk) (fun _ _ => True) w ∧
      Always (Spares wk touched) (destroyUntouchedResources wk touched) (fun _ _ => True) w) ↔
    wk.ns.decoded w = none ∨
      ((∀ id, Expendable wk [] w id → OverlookedWhenUndesired wk w id →
        HasDependent wk w (CountsWhenUndesired wk) id) ∧
      (∀ id, Expendable wk touched w id → OverlookedWhenDesired wk touched w id →
        HasDependent wk w (CountsWhenDesired wk touched) id)) := by
  rw [undesired_spares_iff, untouched_spares_iff]
  cases hall : wk.ns.decoded w with
  | none => simp
  | some all =>
  simp only [Option.some.injEq, forall_eq', reduceCtorEq, false_or]
  refine and_congr (forall_congr' fun id => ?_) (forall_congr' fun id => ?_)
  · rw [mem_undesiredTargets hall]
    constructor
    · intro h hexp hover
      by_contra hdep
      exact (free_iff_undesired hexp.1 hdep).1 (h ⟨hexp, hdep⟩) hover
    · rintro h ⟨hexp, hdep⟩
      exact (free_iff_undesired hexp.1 hdep).2 fun hover => hdep (h hexp hover)
  rw [mem_untouchedTargets hall]
  constructor
  · intro h hexp hover
    by_contra hdep
    exact (free_iff_desired hdep).1 (h ⟨hexp, hdep⟩) hover
  · rintro h ⟨hexp, hdep⟩
    exact (free_iff_desired hdep).2 fun hover => hdep (h hexp hover)

/-! ## When a deployment is down -/

section Down

variable {wk : Worker} {w : World} {all : List Rdb.Resource}

/-- No region holds a resource of the deployment that is not sticky. -/
def NothingLeft (wk : Worker) (w : World) : Prop :=
  ∀ id row, wk.row w id = some row → Owns wk row → Sticky row

/-- A request that puts the deployment down is made only when nothing is left. -/
def DownWhenEmpty (wk : Worker) (w : World) (o : Op) : Prop :=
  ∀ d, o = .cdb (.setDeploymentById d) → d.qid = wk.client → d.state = .down → NothingLeft wk w

/-- The routing index of the home region lists every region that holds a resource of the
environment. -/
def IndexComplete (wk : Worker) (w : World) : Prop :=
  ∀ id, (wk.row w id).isSome → id.region = wk.region ∨
    (wk.environmentQid.toString, ⟨id.typ, id.name, id.region⟩) ∈ (w.rdb wk.region).resourceRegions

theorem nothingLeft_congr {w' : World} (h : w'.rdb = w.rdb) :
    NothingLeft wk w' ↔ NothingLeft wk w := by
  rw [NothingLeft, NothingLeft]
  simp only [Worker.row, h]

/-- All that is listed of the deployment is sticky when all that the home region holds of it is. -/
theorem all_sticky_iff (h : wk.ns.decoded w = some all) :
    (all.filter (isOwned wk)).all isSticky = true ↔
      ∀ id row, id.region = wk.region → wk.row w id = some row → Owns wk row → Sticky row := by
  simp only [all_eq_true, mem_filter, and_imp]
  constructor
  · intro hall id row hregion hrow howns
    obtain ⟨r, hr, rfl, howner, hmarkers, -⟩ := mem_of_row h hregion hrow
    exact (isSticky_iff hmarkers).1 (hall r hr ((isOwned_iff howner).2 howns))
  intro hall r hr howned
  obtain ⟨hregion, row, hrow, howner, hmarkers, -⟩ := row_of_mem h hr
  exact (isSticky_iff hmarkers).2 (hall r.id row hregion hrow ((isOwned_iff howner).1 howned))

theorem undesiredTargets_eq_nil (h : (all.filter (isOwned wk)).all isSticky = true) :
    undesiredTargets wk all = [] := by
  rw [undesiredTargets, map_eq_nil_iff, filter_eq_nil_iff]
  intro r hr
  simp [all_eq_true.1 h r hr]

/-- Destructions are always in order, and so are statements of the configuration database once
nothing is left. -/
theorem always_downWhenEmpty {α : Type} {p : M α}
    (hp : p.issues fun o => (∃ id, o = destroyRequest wk id) ∨ (NothingLeft wk w ∧ ∃ c, o = .cdb c)) :
    Always (DownWhenEmpty wk) p (fun _ _ => True) w := by
  refine always_mono (always_of_issues (T := fun w' => w'.rdb = w.rdb) hp ?_ rfl) fun _ _ _ => trivial
  rintro o (⟨id, rfl⟩ | ⟨hempty, c, rfl⟩) w' hw'
  · refine ⟨?_, fun a _ => hw'⟩
    intro d heq
    cases heq
  · exact ⟨fun d _ _ _ => (nothingLeft_congr hw').2 hempty, fun a _ => hw'⟩

/-- When all that is listed is sticky, the worker goes on to put the deployment down. -/
theorem nothingLeft_of_always
    (h : Always (DownWhenEmpty wk) (runUndesired wk) (fun _ _ => True) w)
    (hall : wk.ns.decoded w = some all) (hsticky : (all.filter (isOwned wk)).all isSticky = true) :
    NothingLeft wk w := by
  have hsurely := always_bind.1 (surely_of_always h)
  have hrest := ((surely_collectResources hall).1 hsurely).2
  simp only [undesiredTargets_eq_nil hsticky, hsticky, if_true] at hrest
  have hnot : ¬(w.cdb.state wk.client = some .down ∧ DeploymentState.down = .undesired) :=
    fun h => nomatch h.2
  obtain ⟨d, hqid, hdown, hP⟩ := surely_set hnot hrest
  exact hP d rfl hqid hdown

/-- **When down means empty.**  An undesired deployment is put down only when no region holds a
resource of it that is not sticky, whatever the surroundings answer, if and only if the home region
cannot be listed, or still holds such a resource, or no other region does. -/
theorem down_when_empty_iff (wk : Worker) (w : World) :
    Always (DownWhenEmpty wk) (runUndesired wk) (fun _ _ => True) w ↔
      wk.ns.decoded w = none ∨
      (∃ id row, id.region = wk.region ∧ wk.row w id = some row ∧ Owns wk row ∧ ¬Sticky row) ∨
      (∀ id row, id.region ≠ wk.region → wk.row w id = some row → Owns wk row → Sticky row) := by
  constructor
  · intro h
    cases hall : wk.ns.decoded w with
    | none => exact .inl rfl
    | some all =>
    refine .inr (or_iff_not_imp_left.2 fun hhome => ?_)
    have hsticky : (all.filter (isOwned wk)).all isSticky = true :=
      (all_sticky_iff hall).2 fun id row hregion hrow howns => by
        by_contra hs
        exact hhome ⟨id, row, hregion, hrow, howns, hs⟩
    exact fun id row _ => nothingLeft_of_always h hall hsticky id row
  intro hcond
  refine always_bind.2 (always_collectResources ?_ (fun all hall => ?_) fun e => trivial)
  · intro d heq
    cases heq
  refine always_downWhenEmpty (issues_bind ?_ fun _ => ?_)
  · exact issues_forM fun id _ => ⟨.inl ⟨id, rfl⟩, issues_ofExcept⟩
  split
  · trivial
  split
  · next hsticky =>
    have hhome := (all_sticky_iff hall).1 hsticky
    have hempty : NothingLeft wk w := by
      rcases hcond with hnone | ⟨id, row, hregion, hrow, howns, hs⟩ | hremote
      · rw [hall] at hnone
        cases hnone
      · exact absurd (hhome id row hregion hrow howns) hs
      intro id row hrow howns
      by_cases hregion : id.region = wk.region
      · exact hhome id row hregion hrow howns
      · exact hremote id row hregion hrow howns
    exact issues_set (.inr ⟨hempty, _, rfl⟩)
      (fun _ => .inr ⟨hempty, _, rfl⟩) (.inr ⟨hempty, _, rfl⟩) (.inr ⟨hempty, _, rfl⟩)
  · trivial

end Down

end Skyr.De

/-! ## Two environments

The worker of a deployment of `shop` in the region `eu`, first with a chain of two resources that
its program no longer mentions, then with its last resource in another region. -/

namespace Skyr.De

local instance : SclData := .nat

def shopKey (name : String) : Rdb.Key := ⟨shopWorker.environmentQid.toString, "Std/Random.Int", name⟩

def shopRow (dependencies : List ResourceId) : Rdb.Row :=
  ⟨some (0 : ℕ), some (0 : ℕ), some dependencies, some [], some shopWorker.ownerQid, some []⟩

/-- Two resources in the home region, the second of which depends on the first. -/
def chainWorld : World :=
  World.empty.setRdb ⟨"eu"⟩ ((Rdb.Store.empty.update (shopKey "a") fun _ => shopRow []).update
    (shopKey "b") fun _ => shopRow [⟨⟨"eu"⟩, "Std/Random.Int", "a"⟩])

theorem teardown_breaks_chain :
    ¬(Always (Spares shopWorker []) (runUndesired shopWorker) (fun _ _ => True) chainWorld ∧
      Always (Spares shopWorker []) (destroyUntouchedResources shopWorker []) (fun _ _ => True)
        chainWorld) := by
  rintro ⟨-, h⟩
  have hfree := untouched_spares_iff.1 h _ rfl ⟨⟨"eu"⟩, "Std/Random.Int", "a"⟩ (by decide +kernel)
  -- The dependent is not sticky.
  have hsticky := (hfree ⟨⟨"eu"⟩, "Std/Random.Int", "b"⟩ _ (by decide) rfl (List.mem_cons_self)).2.1
  exact List.not_mem_nil hsticky

/-- The only resource is in another region, which the routing index lists. -/
def remoteWorld : World :=
  (World.empty.setRdb ⟨"us"⟩ (Rdb.Store.empty.update (shopKey "a") fun _ => shopRow [])).setRdb ⟨"eu"⟩
    ⟨∅, [(shopWorker.environmentQid.toString, ⟨"Std/Random.Int", "a", ⟨"us"⟩⟩)]⟩

theorem remoteWorld_row {id : ResourceId} (h : (shopWorker.row remoteWorld id).isSome) :
    id = ⟨⟨"us"⟩, "Std/Random.Int", "a"⟩ := by
  obtain ⟨region, typ, name⟩ := id
  rw [Worker.row, remoteWorld] at h
  by_cases heu : region = ⟨"eu"⟩
  · subst heu
    rw [World.rdb_setRdb_self] at h
    cases h
  rw [World.rdb_setRdb_ne _ heu] at h
  by_cases hus : region = ⟨"us"⟩
  · subst hus
    rw [World.rdb_setRdb_self] at h
    by_cases hkey : (⟨shopWorker.environmentQid.toString, typ, name⟩ : Rdb.Key) = shopKey "a"
    · obtain ⟨-, rfl, rfl⟩ := Rdb.Key.mk.inj hkey
      rfl
    · rw [Rdb.Store.row_update_ne _ hkey] at h
      cases h
  · rw [World.rdb_setRdb_ne _ hus] at h
    cases h

theorem down_leaves_remote :
    IndexComplete shopWorker remoteWorld ∧
      ¬Always (DownWhenEmpty shopWorker) (runUndesired shopWorker) (fun _ _ => True) remoteWorld := by
  refine ⟨fun id hid => .inr ?_, fun h => ?_⟩
  · rw [remoteWorld_row hid]
    exact List.mem_cons_self
  have hnone : shopWorker.ns.decoded remoteWorld = some [] := rfl
  have hempty := nothingLeft_of_always h hnone rfl
  exact List.not_mem_nil (hempty ⟨⟨"us"⟩, "Std/Random.Int", "a"⟩ (shopRow []) rfl rfl)

end Skyr.De
