import Skyr.Cdb.Answered

/-!
# A deleted ref

When a ref is deleted, the deployment of its environment is to come down.  The git server looks for
it among the active deployments, by the commit the ref pointed to.  The deployment it is after is
the *current* one, which is not down and not superseded; the one it finds is the first of that
commit, in whatever order the database lists them.

The two are the same in most histories.  They differ when the commit has been deployed before and
that deployment has not come down yet, and when the current deployment was made from another commit
than the one the ref points to.  `ref_deletion_iff` is the exact condition.
-/

namespace Skyr.Cdb

open DeploymentState

/-- The environment's deployment that is not superseded by another. -/
structure Head (s : Store) (env : EnvironmentQid) (q : DeploymentQid) : Prop where
  environment : q.environment = env
  notDown : ∃ state, s.state q = some state ∧ state ≠ down
  unsuperseded : s.superseding q = none

/-- What the deletion of a ref is to do: the current deployment is undesired, and no other one is in
another state than before. -/
def HeadComesDown (s s' : Store) (env : EnvironmentQid) : Prop :=
  ∀ q, (Head s env q → s'.state q = some undesired) ∧ (¬Head s env q → s'.state q = s.state q)

/-- The deployment that is found for a deleted ref: the first one of the environment and the commit,
in the order in which the active deployments are listed. -/
def foundFor (s : Store) (env : EnvironmentQid) (commit : ObjId) : Option Deployment :=
  ((s.active.filter fun q => q.environment.repo == env.repo).filterMap s.find).find? fun d =>
    d.qid.environment.environment = env.environment ∧ d.qid.deployment.commit = commit

/-- What the deletion of a ref makes of the store. -/
def Store.withoutRef (s : Store) (env : EnvironmentQid) (commit : ObjId) : Store :=
  match foundFor s env commit with
  | some d => s.move d.qid undesired
  | none => s

variable {s : Store}

theorem state_of_foundFor {env : EnvironmentQid} {commit : ObjId} {d : Deployment}
    (h : foundFor s env commit = some d) : s.state d.qid = some d.state := by
  obtain ⟨q, -, hd⟩ := List.mem_filterMap.1 (List.mem_of_find?_eq_some h)
  obtain ⟨rfl, hstate⟩ := Store.find_eq_some hd
  exact hstate

/-- Moving a deployment to undesired leaves it down if it is. -/
theorem state_move_undesired {d : Deployment} (h : s.state d.qid = some d.state) :
    (s.move d.qid undesired).state d.qid =
      some (if d.state = down then down else undesired) := by
  rw [Store.move]
  by_cases hdown : d.state = down
  · rw [if_pos ⟨h.trans (congrArg some hdown), rfl⟩, if_pos hdown, h, hdown]
  rw [if_neg, if_neg hdown, ← Store.state_eq_map_find]
  · exact congrArg (Option.map Deployment.state) (find_put_self _)
  · rintro ⟨hstate, -⟩
    exact hdown (Option.some.inj (h.symm.trans hstate))

theorem state_move_ne {q q' : DeploymentQid} (h : q' ≠ q) (state : DeploymentState) :
    (s.move q state).state q' = s.state q' := by
  rw [Store.move]
  split
  · rfl
  · rw [← Store.state_eq_map_find, ← Store.state_eq_map_find, find_put_ne h]

/-- The current deployment comes down, and nothing else, exactly if the one that is found is current
or has come down already, and whoever is current is found or has come down already. -/
theorem currentComesDown_iff (s : Store) (env : EnvironmentQid) (commit : ObjId) :
    HeadComesDown s (s.withoutRef env commit) env ↔
    (∀ d, foundFor s env commit = some d →
      Head s env d.qid ∨ d.state = undesired ∨ d.state = down) ∧
    ∀ q, Head s env q →
      s.state q = some undesired ∨ ∃ d, foundFor s env commit = some d ∧ d.qid = q := by
  rw [Store.withoutRef]
  cases hfound : foundFor s env commit with
  | none =>
    constructor
    · intro h
      exact ⟨nofun, fun q hq => .inl ((h q).1 hq)⟩
    rintro ⟨-, h⟩ q
    refine ⟨fun hq => (h q hq).resolve_right ?_, fun _ => rfl⟩
    rintro ⟨d, hd, -⟩
    exact nomatch hd
  | some d =>
  have hstate := state_of_foundFor hfound
  have hmove := state_move_undesired hstate
  constructor
  · intro h
    refine ⟨fun d' hd' => ?_, fun q hq => ?_⟩
    · obtain rfl := Option.some.inj hd'
      by_cases hcurrent : Head s env d.qid
      · exact .inl hcurrent
      -- The state of a deployment that is not current stays, and it is undesired or down after.
      have hsame := (h d.qid).2 hcurrent
      rw [hmove, hstate] at hsame
      by_cases hdown : d.state = down
      · exact .inr (.inr hdown)
      · rw [if_neg hdown] at hsame
        exact .inr (.inl (Option.some.inj hsame).symm)
    by_cases hqd : q = d.qid
    · exact .inr ⟨d, rfl, hqd.symm⟩
    · rw [← state_move_ne hqd undesired]
      exact .inl ((h q).1 hq)
  rintro ⟨hfine, hall⟩ q
  by_cases hqd : q = d.qid
  · subst hqd
    refine ⟨fun hcurrent => ?_, fun hcurrent => ?_⟩
    · obtain ⟨state, hstate', hnotDown⟩ := hcurrent.notDown
      rw [hmove, if_neg]
      rintro hdown
      rw [hstate, hdown] at hstate'
      exact hnotDown (Option.some.inj hstate').symm
    rw [hmove, hstate]
    rcases (hfine d rfl).resolve_left hcurrent with hundesired | hdown
    · rw [hundesired]
      rfl
    · rw [hdown]
      rfl
  refine ⟨fun hcurrent => ?_, fun _ => state_move_ne hqd undesired⟩
  rw [state_move_ne hqd undesired]
  refine (hall q hcurrent).resolve_right ?_
  rintro ⟨d', hd', hq⟩
  obtain rfl := Option.some.inj hd'
  exact hqd hq.symm

variable [SclData]

theorem ends_deleteRef_eq (w : World) (env : EnvironmentQid) (commit : ObjId) :
    Ends (deleteRef env commit)
      (fun r w' => r = .ok () ∧ w' = w.withCdb (w.cdb.withoutRef env commit)) w := by
  refine Prog.always_bind.2 (ends_repoActive ?_)
  change Ends (match foundFor w.cdb env commit with
    | some d => DeploymentClient.set d.qid undesired
    | none => return ()) _ w
  rw [Store.withoutRef]
  cases foundFor w.cdb env commit with
  | none => exact ⟨rfl, rfl⟩
  | some d => exact ends_set ⟨rfl, rfl⟩

/-- **The deletion of a ref takes the current deployment down and changes the state of no other
one**, whatever the store holds, exactly if the first active deployment of the environment with the
ref's commit is current, or undesired or down already, and whoever is current is that deployment or
undesired already. -/
theorem ref_deletion_iff (w : World) (env : EnvironmentQid) (commit : ObjId) :
    Ends (deleteRef env commit) (fun _ w' => HeadComesDown w.cdb w'.cdb env) w ↔
    (∀ d, foundFor w.cdb env commit = some d →
      Head w.cdb env d.qid ∨ d.state = undesired ∨ d.state = down) ∧
    ∀ q, Head w.cdb env q → w.cdb.state q = some undesired ∨
      ∃ d, foundFor w.cdb env commit = some d ∧ d.qid = q := by
  rw [← currentComesDown_iff]
  constructor
  · intro h
    exact Ends.at_end h (ends_deleteRef_eq w env commit)
  intro h
  refine Prog.always_mono (ends_deleteRef_eq w env commit) ?_
  rintro _ _ ⟨rfl, rfl⟩
  exact h

end Skyr.Cdb

/-! ## Two histories

The same commit is deployed twice, with another one in between, before the first of its deployments
has come down; and the API makes a deployment from a commit that is not the one the ref points
to. -/

namespace Skyr.Cdb.Refs

local instance : SclData := .nat

open DeploymentState

def main : EnvironmentQid := ⟨⟨⟨"acme"⟩, ⟨"shop"⟩⟩, ⟨"main"⟩⟩

/-- The deployment of a commit, by its number and nonce. -/
def deployment (commit nonce : ℕ) : DeploymentQid := ⟨main, ⟨⟨commit⟩, ⟨nonce⟩⟩⟩

/-- The world after some deployments have been made desired, one after the other. -/
def pushed (qs : List DeploymentQid) : World :=
  qs.foldl (fun w q => ((DeploymentClient.makeDesired q).run World.sem (fun _ => calm) w).2) .empty

/-- The same world, where the active deployments are listed the other way round. -/
def relisted (w : World) : World := w.withCdb { w.cdb with active := w.cdb.active.reverse }

/-- The first commit is deployed again after the second one. -/
def again : World := relisted (pushed [deployment 1 1, deployment 2 2, deployment 1 3])

/-- The second commit is deployed while the ref points to the first one. -/
def aside : World := pushed [deployment 1 1, deployment 2 2]

/-- In both histories the deletion of the ref takes down a deployment that lingers, and the current
one stays desired. -/
theorem current_stays :
    Head again.cdb main (deployment 1 3) ∧
    (again.cdb.withoutRef main ⟨1⟩).state (deployment 1 3) = some desired ∧
    (again.cdb.withoutRef main ⟨1⟩).state (deployment 1 1) = some undesired ∧
    ¬Ends (deleteRef main ⟨1⟩) (fun _ w' => HeadComesDown again.cdb w'.cdb main) again ∧
    Head aside.cdb main (deployment 2 2) ∧
    (aside.cdb.withoutRef main ⟨1⟩).state (deployment 2 2) = some desired ∧
    ¬Ends (deleteRef main ⟨1⟩) (fun _ w' => HeadComesDown aside.cdb w'.cdb main) aside := by
  have hagain : Head again.cdb main (deployment 1 3) := ⟨rfl, ⟨desired, rfl, nofun⟩, rfl⟩
  have haside : Head aside.cdb main (deployment 2 2) := ⟨rfl, ⟨desired, rfl, nofun⟩, rfl⟩
  refine ⟨hagain, rfl, rfl, fun h => ?_, haside, rfl, fun h => ?_⟩
  · exact nomatch ((h.at_end (ends_deleteRef_eq again main ⟨1⟩)) (deployment 1 3)).1 hagain
  · exact nomatch ((h.at_end (ends_deleteRef_eq aside main ⟨1⟩)) (deployment 2 2)).1 haside

end Skyr.Cdb.Refs
