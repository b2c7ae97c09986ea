import Skyr.Lib.Chains
import Skyr.Cdb.Answered
import Skyr.De.Worker

/-!
# A lingering deployment

A deployment that has been superseded lingers until the deployment at the end of the chain of
supersessions is bootstrapped.  `followChain` walks along the chain, from one deployment to the one
that supersedes it, and keeps the ones it has been at, because nothing in the database rules out
that a chain comes back to where it has been.

The supersession table has one row for each superseded deployment, so the links form chains in the
sense of `Lib.Chains`.  `CurrentBootstrapped` says what the walk is after, without a walk.
`lingering_walk` is the result: the walk ends for every table, and what it does is decided by
`CurrentBootstrapped`.  A chain that leads to a deployment without a row cannot be followed further;
the walk ends there with an error.
-/

namespace Skyr.Cdb.Store

open Relation

/-- `q'` supersedes `q`, and there is a row for it. -/
def Link (s : Store) (q q' : DeploymentQid) : Prop :=
  s.superseding q = some q'.deployment ∧ q'.environment = q.environment ∧ (s.find q').isSome

theorem rightUnique_link (s : Store) : Relator.RightUnique s.Link := by
  rintro q ⟨env, d⟩ ⟨env', d'⟩ ⟨hd, henv, -⟩ ⟨hd', henv', -⟩
  obtain rfl : d = d' := Option.some.inj (hd.symm.trans hd')
  exact congrArg (DeploymentQid.mk · d) (henv.trans henv'.symm)

/-- Following the superseding links from `q` ends in a deployment that is not superseded, and it is
bootstrapped. -/
def CurrentBootstrapped (s : Store) (q : DeploymentQid) : Prop :=
  ∃ d : Deployment, TransGen s.Link q d.qid ∧ s.find d.qid = some d ∧
    s.superseding d.qid = none ∧ d.bootstrapped = true

variable {s : Store} {q q' : DeploymentQid} {d : Deployment}

/-- Without a link the chain leads nowhere. -/
theorem not_currentBootstrapped_of_not_link (h : ∀ q', ¬s.Link q q') :
    ¬s.CurrentBootstrapped q := by
  rintro ⟨d, hd, -⟩
  obtain ⟨q', hq', -⟩ := TransGen.head'_iff.1 hd
  exact h q' hq'

/-- The chain ends one link on. -/
theorem currentBootstrapped_last (hlink : s.Link q q') (hfind : s.find q' = some d)
    (hend : s.superseding q' = none) : s.CurrentBootstrapped q ↔ d.bootstrapped = true := by
  have hqid : d.qid = q' := (find_eq_some hfind).1
  constructor
  · rintro ⟨d', hd', hfind', -, hboot⟩
    rcases (Chains.transGen_iff (rightUnique_link s) hlink).1 hd' with heq | htrans
    · rw [heq, hfind] at hfind'
      rw [Option.some.inj hfind']
      exact hboot
    obtain ⟨q'', hq'', -⟩ := TransGen.head'_iff.1 htrans
    rw [Link, hend] at hq''
    exact nomatch hq''.1
  intro hboot
  rw [← hqid] at hlink hfind hend
  exact ⟨d, .single hlink, hfind, hend, hboot⟩

/-- The chain goes on after one link. -/
theorem currentBootstrapped_link (hlink : s.Link q q') {next : DeploymentId}
    (hnext : s.superseding q' = some next) :
    s.CurrentBootstrapped q ↔ s.CurrentBootstrapped q' := by
  constructor
  · rintro ⟨d, hd, hfind, hend, hboot⟩
    rcases (Chains.transGen_iff (rightUnique_link s) hlink).1 hd with heq | htrans
    · rw [heq, hnext] at hend
      exact nomatch hend
    · exact ⟨d, htrans, hfind, hend, hboot⟩
  · rintro ⟨d, hd, hfind, hend, hboot⟩
    exact ⟨d, .head hlink hd, hfind, hend, hboot⟩

/-- The chain comes back. -/
theorem not_currentBootstrapped_of_cycle (hlink : s.Link q q') (hback : ReflTransGen s.Link q' q) :
    ¬s.CurrentBootstrapped q := by
  rintro ⟨d, hd, -, hend, -⟩
  obtain ⟨q'', hq'', -⟩ :=
    Chains.exists_successor (rightUnique_link s) (.head' hlink hback) hd.to_reflTransGen
  rw [hend] at hq''
  exact nomatch hq''

/-- The deployments that supersede another. -/
def successors (s : Store) : List DeploymentId := s.supersessions.entries.map Sigma.snd

theorem mem_successors {d : DeploymentId} (h : s.superseding q = some d) : d ∈ s.successors :=
  List.mem_map_of_mem (AList.mem_lookup_iff.1 h)

end Skyr.Cdb.Store

namespace Skyr.De

open Cdb Cdb.Store DeploymentState Relation

/-- Where the walk is, and where it has been: a chain of deployments that supersede each other, the
last of which is the cursor. -/
structure OnTheWay (s : Store) (cursor : DeploymentQid) (seen : List DeploymentId) : Prop where
  nodup : seen.Nodup
  subset : seen ⊆ s.successors
  leads : ∀ d ∈ seen, ReflTransGen s.Link ⟨cursor.environment, d⟩ cursor

theorem OnTheWay.next {s : Store} {cursor next : DeploymentQid} {seen : List DeploymentId}
    (h : OnTheWay s cursor seen) (hlink : s.Link cursor next) (hnew : next.deployment ∉ seen) :
    OnTheWay s next (next.deployment :: seen) where
  nodup := List.nodup_cons.2 ⟨hnew, h.nodup⟩
  subset := List.cons_subset.2 ⟨mem_successors hlink.1, h.subset⟩
  leads d hd := by
    rw [hlink.2.1]
    rcases List.mem_cons.1 hd with rfl | hd
    · rw [← hlink.2.1]
    · exact (h.leads d hd).tail hlink

variable [SclData]

/-- What the walk comes to. -/
def Walked (wk : Worker) (cursor : DeploymentQid) (w : World) (r : Except String Unit)
    (w' : World) : Prop :=
  (w.cdb.CurrentBootstrapped cursor ∧ r = .ok () ∧
    w' = w.withCdb (w.cdb.move wk.client undesired)) ∨
  (¬w.cdb.CurrentBootstrapped cursor ∧ w' = w ∧ (r = .ok () ∨ r = .error "deployment not found"))

theorem ends_followChain_walked (wk : Worker) {w : World} (fuel : ℕ) (cursor : DeploymentQid)
    (seen : List DeploymentId) (h : OnTheWay w.cdb cursor seen)
    (hfuel : w.cdb.successors.length < fuel + seen.length) :
    Ends (followChain wk fuel cursor seen) (Walked wk cursor w) w := by
  induction fuel generalizing cursor seen with
  | zero =>
    -- All the deployments that supersede another cannot have been seen already.
    have hle : seen.length ≤ w.cdb.successors.length := (h.nodup.subperm h.subset).length_le
    omega
  | succ fuel ih =>
  refine Prog.always_bind.2 (ends_getSuperseding ?_)
  cases hnext : w.cdb.superseding cursor with
  | none =>
    refine .inr ⟨not_currentBootstrapped_of_not_link fun q' hq' => ?_, rfl, .inl rfl⟩
    rw [Link, hnext] at hq'
    exact nomatch hq'.1
  | some next =>
  refine Prog.always_bind.2 (ends_get (fun d hd => ?_) fun hnone => ?_)
  · have hqid : d.qid = ⟨cursor.environment, next⟩ := (find_eq_some hd).1
    have hlink : w.cdb.Link cursor ⟨cursor.environment, next⟩ := ⟨hnext, rfl, by rw [hd]; rfl⟩
    change Ends (if seen.contains d.qid.deployment = true then _ else _) _ _
    rw [hqid]
    split
    · next hseen =>
      have hback := h.leads next (List.contains_iff_mem.1 hseen)
      exact .inr ⟨not_currentBootstrapped_of_cycle hlink hback, rfl, .inl rfl⟩
    next hseen =>
    refine Prog.always_bind.2 (ends_getSuperseding ?_)
    cases hafter : w.cdb.superseding ⟨cursor.environment, next⟩ with
    | none =>
      change Ends (if d.bootstrapped = true then _ else _) _ _
      split
      · next hboot =>
        have hcurrent := (currentBootstrapped_last hlink hd hafter).2 hboot
        exact ends_set (.inl ⟨hcurrent, rfl, rfl⟩)
      next hboot =>
      have hcurrent := mt (currentBootstrapped_last hlink hd hafter).1 hboot
      exact .inr ⟨hcurrent, rfl, .inl rfl⟩
    | some after =>
    have hway := h.next hlink fun hmem => hseen (List.contains_iff_mem.2 hmem)
    have hwalk := ih ⟨cursor.environment, next⟩ (next :: seen) hway (by
      rw [List.length_cons]
      omega)
    refine Prog.always_mono hwalk fun r w' hr => ?_
    rw [Walked, currentBootstrapped_link hlink hafter]
    exact hr
  refine .inr ⟨not_currentBootstrapped_of_not_link fun q' hq' => ?_, rfl, .inr rfl⟩
  obtain ⟨hd, henv, hfind⟩ := hq'
  obtain ⟨env, d⟩ := q'
  obtain rfl : env = cursor.environment := henv
  obtain rfl : next = d := Option.some.inj (hnext.symm.trans hd)
  rw [hnone] at hfind
  exact nomatch hfind

/-- **A lingering deployment goes exactly when the current one is bootstrapped.**  Whatever the
supersession table holds, chains of any length and cycles, the walk comes to an end, with an error
only if the chain leads to a deployment that has no row.  It makes the deployment undesired if
following the superseding links ends in a deployment that is not superseded and that is
bootstrapped, and changes nothing otherwise. -/
theorem lingering_walk (wk : Worker) (w : World)
    (hlingering : w.cdb.state wk.client = some lingering) :
    ∃ n, ∀ fuel, n ≤ fuel → Ends (runLingering fuel wk)
      (fun r w' => (r = .ok () ∨ r = .error "deployment not found") ∧
        (w'.cdb.state wk.client = some undesired ↔ w.cdb.CurrentBootstrapped wk.client) ∧
        (¬w.cdb.CurrentBootstrapped wk.client → w' = w)) w := by
  refine ⟨w.cdb.successors.length + 1, fun fuel hfuel => ?_⟩
  have hway : OnTheWay w.cdb wk.client [] := ⟨List.nodup_nil, List.nil_subset _, by simp⟩
  refine Prog.always_mono (ends_followChain_walked wk fuel wk.client [] hway hfuel) ?_
  rintro r w' (⟨hcurrent, rfl, rfl⟩ | ⟨hcurrent, rfl, hr⟩)
  · refine ⟨.inl rfl, iff_of_true ?_ hcurrent, fun h => absurd hcurrent h⟩
    change (w.cdb.move wk.client undesired).state wk.client = some undesired
    rw [move, if_neg (by simp [hlingering]), ← state_eq_map_find]
    exact congrArg (Option.map Deployment.state) (find_put_self _)
  · refine ⟨hr, iff_of_false ?_ hcurrent, fun _ => rfl⟩
    simp [hlingering]

end Skyr.De

/-! ## A chain of two links -/

namespace Skyr.De.Chain

local instance : SclData := .nat

open Cdb DeploymentState

def first : DeploymentQid := shopWorker.client

def second : DeploymentQid := ⟨first.environment, ⟨⟨2⟩, ⟨2⟩⟩⟩

def third : DeploymentQid := ⟨first.environment, ⟨⟨3⟩, ⟨3⟩⟩⟩

/-- The first two deployments linger, the third one is current and bootstrapped. -/
def store : Store :=
  (((Store.empty.put ⟨first, lingering, true⟩).put ⟨second, lingering, false⟩).put
    ⟨third, desired, true⟩).supersede first second.deployment |>.supersede second third.deployment

def world : World := World.empty.withCdb store

theorem store_currentBootstrapped : store.CurrentBootstrapped first :=
  ⟨⟨third, desired, true⟩, .head ⟨rfl, rfl, rfl⟩ (.single ⟨rfl, rfl, rfl⟩), rfl, rfl, rfl⟩

/-- The first deployment follows the chain to the third one and becomes undesired. -/
theorem first_undesired :
    world.cdb.state first = some lingering ∧
    ∃ n, ∀ fuel, n ≤ fuel → Ends (runLingering fuel shopWorker)
      (fun _ w' => w'.cdb.state first = some undesired) world := by
  obtain ⟨n, hn⟩ := lingering_walk shopWorker world rfl
  refine ⟨rfl, n, fun fuel hfuel => ?_⟩
  exact Prog.always_mono (hn fuel hfuel) fun r w' hr => hr.2.1.2 store_currentBootstrapped

end Skyr.De.Chain
