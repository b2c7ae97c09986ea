import Skyr.Cdb.Supersession

/-!
# Dependencies on other repositories

A program may import modules of other repositories of its organisation.  The manifest pins each of
them to a branch, a tag or a commit.  A commit speaks for itself; a branch or a tag is the name of
an environment of the repository, and stands for what is deployed there: the commit to compile
against, and the deployment that owns the resources of that code.

The finder (`lookup`) goes through the active deployments of the repository as the database lists
them and takes the first one of the environment.  "Active" means that it is not down; which of
them is the current one is a matter of supersession, and the finder does not ask.  So what a pin
resolves to is right whatever the order of the listing exactly when the index lists no deployment
of the environment but the current one (`resolves_iff`).  Whatever the database answers, the pins of
a finder that has resolved everything are those of the manifest, and each stands for what its
specifier names (`resolveAll_pins`).
-/

namespace Skyr.Sclc

open Prog

open List

variable [SclData]

open Cdb

/-! ## Pins -/

/-- What a dependency is pinned to. -/
inductive Specifier
  | branch (name : String)
  | tag (name : String)
  | hash (hex : String)
deriving DecidableEq

namespace Specifier

/-- The form a specifier has in messages. -/
def debug : Specifier → String
  | branch name => "Branch(" ++ name.quote ++ ")"
  | tag name => "Tag(" ++ name.quote ++ ")"
  | hash hex => "Hash(" ++ hex.quote ++ ")"

/-- The text of the environment a specifier follows. -/
def channel : Specifier → Option String
  | branch name => some name
  | tag name => some ("tag:" ++ name)
  | hash _ => none

/-- The environment a specifier follows. -/
def environment (s : Specifier) : Option EnvironmentId :=
  s.channel.bind fun name => (EnvironmentId.parse name.toList).toOption

end Specifier

/-! ## The first active deployment -/

/-- The first deployment of the environment in a stream.  The stream is not read any further. -/
def firstOf (env : EnvironmentId) (deployments : Rows Deployment) : M (Option Deployment) :=
  match deployments.items.find? fun d => d.qid.environment.environment == env with
  | some d => return some d
  | none =>
    match deployments.error with
    | none => return none
    | some e => .fail e

/-- The first active deployment of an environment, as the database lists them. -/
def firstActive (repo : RepoQid) (env : EnvironmentId) : M (Option Deployment) := do
  firstOf env (← repoActiveDeployments repo)

/-! ## The finder of the deployment engine -/

/-- What a pin resolves to.  Only commits have no owner. -/
structure Pinned where
  commit : ObjId
  owner : Option DeploymentQid
deriving DecidableEq

namespace CrossRepoPackageFinder

/-- Errors of the database are passed on as errors of the finder. -/
def cdbError {α : Type} (p : M α) : M α := do
  match ← p.attempt with
  | .ok a => return a
  | .error e => .fail ("CDB error: " ++ e)

def unresolved (repo : RepoQid) (specifier : Specifier) : String :=
  "dependency " ++ repo.toString ++ " pinned to " ++ specifier.debug ++
    " could not be resolved to an active deployment"

def confirmRepoExists (repo : RepoQid) : M Unit := do
  let found : Bool ← cdbError (M.cdb (.findRepository repo))
  if found then return () else .fail ("dependency repo " ++ repo.toString ++ " does not exist")

def resolveViaActiveDeployment (repo : RepoQid) (specifier : Specifier) (env : EnvironmentId) :
    M Pinned := do
  match ← cdbError (firstActive repo env) with
  | some d =>
    return ⟨d.qid.deployment.commit, some ⟨⟨repo, d.qid.environment.environment⟩, d.qid.deployment⟩⟩
  | none => .fail (unresolved repo specifier)

/-- Follow a branch or a tag. -/
def follow (repo : RepoQid) (specifier : Specifier) (name : String) : M Pinned := do
  confirmRepoExists repo
  match EnvironmentId.parse name.toList with
  | .error _ => .fail (unresolved repo specifier)
  | .ok env => resolveViaActiveDeployment repo specifier env

def lookup (repo : RepoQid) (specifier : Specifier) : M Pinned :=
  match specifier with
  | .branch name => follow repo specifier name
  | .tag name => follow repo specifier ("tag:" ++ name)
  | .hash hex =>
    match ObjId.parse hex.toList with
    | .ok commit => return ⟨commit, none⟩
    | .error _ => .fail ("invalid commit hash in dependency specifier: " ++ hex)

end CrossRepoPackageFinder

/-- The finder of an importer, with what it has resolved so far. -/
structure CrossRepoPackageFinder where
  localOrg : OrgId
  dependencies : List (RepoQid × Specifier)
  resolved : List (RepoQid × Pinned)

namespace CrossRepoPackageFinder

variable (finder : CrossRepoPackageFinder)

/-- Resolve a dependency, once. -/
def resolveInternal (repo : RepoQid) : M (Option Pinned × CrossRepoPackageFinder) :=
  match finder.resolved.lookup repo with
  | some pinned => return (some pinned, finder)
  | none =>
    match finder.dependencies.lookup repo with
    | none => return (none, finder)
    | some specifier =>
      if repo.org = finder.localOrg then do
        let pinned ← lookup repo specifier
        return (some pinned, { finder with resolved := (repo, pinned) :: finder.resolved })
      else .fail ("cross-org imports are not supported (importer is in " ++ finder.localOrg.str ++
        ", dep is in " ++ repo.org.str ++ ")")

/-- Resolve all dependencies, in the order of the manifest. -/
def resolveAll : M CrossRepoPackageFinder :=
  finder.dependencies.foldlM (fun finder dep => do return (← finder.resolveInternal dep.1).2) finder

end CrossRepoPackageFinder

/-! ## What the choice depends on -/

section Choice

variable {P : World → Skyr.Op → Prop} {w : World} {repo : RepoQid} {env : EnvironmentId}

/-- The active deployments of an environment that have a row, in the order of the index. -/
def listed (s : Store) (env : EnvironmentQid) : List Deployment :=
  (s.active.filterMap s.find).filter fun d => d.qid.environment == env

omit [SclData] in
theorem mem_listed {s : Store} {env : EnvironmentQid} {d : Deployment} :
    d ∈ listed s env ↔ d.qid ∈ s.active ∧ s.find d.qid = some d ∧ d.qid.environment = env := by
  simp only [listed, mem_filter, mem_filterMap, beq_iff_eq]
  constructor
  · rintro ⟨⟨q, hq, hd⟩, henv⟩
    obtain ⟨rfl, -⟩ := Store.find_eq_some hd
    exact ⟨hq, hd, henv⟩
  · rintro ⟨hq, hd, henv⟩
    exact ⟨⟨d.qid, hq, hd⟩, henv⟩

omit [SclData] in
/-- The first deployment of an environment among those of its repository is the first one listed. -/
theorem find?_repo_listed (s : Store) (qids : List DeploymentQid) :
    ((qids.filter fun q => q.environment.repo == repo).filterMap s.find).find?
        (fun d => d.qid.environment.environment == env) =
      ((qids.filterMap s.find).filter fun d => d.qid.environment == ⟨repo, env⟩).head? := by
  induction qids with
  | nil => rfl
  | cons q qids ih =>
  rw [filterMap_cons]
  cases hd : s.find q with
  | none =>
    rw [filter_cons]
    split
    · rw [filterMap_cons, hd]
      exact ih
    · exact ih
  | some d =>
  obtain ⟨rfl, -⟩ := Store.find_eq_some hd
  rw [filter_cons, filter_cons]
  by_cases hrepo : d.qid.environment.repo = repo
  · rw [if_pos (beq_iff_eq.2 hrepo), filterMap_cons, hd, find?_cons]
    by_cases henv : d.qid.environment.environment = env
    · have heq : d.qid.environment = ⟨repo, env⟩ := by rw [← hrepo, ← henv]
      rw [if_pos (beq_iff_eq.2 heq), head?_cons, beq_iff_eq.2 henv]
    have hne : d.qid.environment ≠ ⟨repo, env⟩ := fun h => henv (by rw [h])
    rw [if_neg (by simpa using hne), beq_eq_false_iff_ne.2 henv]
    exact ih
  have hne : d.qid.environment ≠ ⟨repo, env⟩ := fun h => hrepo (by rw [h])
  rw [if_neg (by simpa using hrepo), if_neg (by simpa using hne)]
  exact ih

/-- In cooperative surroundings the first active deployment is the first one listed. -/
theorem surely_firstActive {Q : Except String (Option Deployment) → World → Prop}
    (hP : ∀ o, P w o) :
    Surely P (firstActive repo env) Q w ↔ Q (.ok (listed w.cdb ⟨repo, env⟩).head?) w := by
  rw [firstActive, repoActiveDeployments, Surely, always_bind, always_bind]
  refine surely_cdb.trans ((and_iff_right (hP _)).trans ?_)
  change Surely P
    (deploymentsByQids (w.cdb.active.filter fun q => q.environment.repo == repo)) _ w ↔ _
  rw [listed, ← find?_repo_listed, deploymentsByQids]
  split
  · next hnil =>
    rw [isEmpty_iff.1 hnil]
    rfl
  refine surely_cdb.trans ((and_iff_right (hP _)).trans ?_)
  change Surely P (firstOf env ⟨(w.cdb.active.filter fun q =>
    q.environment.repo == repo).filterMap w.cdb.find, none⟩) Q w ↔ _
  rw [firstOf]
  cases find? (fun d : Deployment => d.qid.environment.environment == env)
    ((w.cdb.active.filter fun q => q.environment.repo == repo).filterMap w.cdb.find) <;> rfl

/-- What a branch or tag resolves to. -/
def resolvesTo (specifier : Specifier) (s : Store) (env : EnvironmentQid) : Except String Pinned :=
  match (listed s env).head? with
  | some d => .ok ⟨d.qid.deployment.commit, some d.qid⟩
  | none => .error (CrossRepoPackageFinder.unresolved env.repo specifier)

theorem surely_lookup {specifier : Specifier} {Q : Except String Pinned → World → Prop}
    (hP : ∀ o, P w o) (hspec : specifier.environment = some env)
    (hrepo : repo ∈ w.cdb.repositories) :
    Surely P (CrossRepoPackageFinder.lookup repo specifier) Q w ↔
      Q (resolvesTo specifier w.cdb ⟨repo, env⟩) w := by
  -- A branch and a tag differ in the name of the environment only.
  have hfollow : ∀ name, EnvironmentId.parse name.toList = .ok env →
      (Surely P (CrossRepoPackageFinder.follow repo specifier name) Q w ↔
        Q (resolvesTo specifier w.cdb ⟨repo, env⟩) w) := by
    intro name hname
    rw [CrossRepoPackageFinder.follow, hname, Surely, always_bind,
      CrossRepoPackageFinder.confirmRepoExists, CrossRepoPackageFinder.cdbError, always_bind,
      always_bind, always_attempt]
    refine surely_cdb.trans ((and_iff_right (hP _)).trans ?_)
    change Surely P (if decide (repo ∈ w.cdb.repositories) = true then _ else _) _ w ↔ _
    rw [if_pos (decide_eq_true hrepo)]
    change Surely P (CrossRepoPackageFinder.resolveViaActiveDeployment repo specifier env) Q w ↔ _
    rw [CrossRepoPackageFinder.resolveViaActiveDeployment, CrossRepoPackageFinder.cdbError, Surely,
      always_bind, always_bind, always_attempt]
    refine (surely_firstActive hP).trans ?_
    rw [resolvesTo]
    cases hhead : (listed w.cdb ⟨repo, env⟩).head? with
    | none => rfl
    | some d =>
    obtain ⟨-, -, henv⟩ := mem_listed.1 (mem_of_mem_head? hhead)
    change Q (.ok ⟨_, some ⟨⟨repo, d.qid.environment.environment⟩, d.qid.deployment⟩⟩) w ↔ _
    rw [show (⟨⟨repo, d.qid.environment.environment⟩, d.qid.deployment⟩ : DeploymentQid) = d.qid
      by rw [show repo = d.qid.environment.repo by rw [henv]]]
  cases specifier with
  | hash hex => cases hspec
  | branch name =>
    refine hfollow name ?_
    cases hparse : EnvironmentId.parse name.toList with
    | error e => simp [Specifier.environment, Specifier.channel, hparse, Except.toOption] at hspec
    | ok e => simpa [Specifier.environment, Specifier.channel, hparse, Except.toOption] using hspec
  | tag name =>
  refine hfollow ("tag:" ++ name) ?_
  cases hparse : EnvironmentId.parse ("tag:" ++ name).toList with
  | error e =>
    rw [Specifier.environment, Specifier.channel, Option.bind_some, hparse] at hspec
    cases hspec
  | ok e =>
  rw [Specifier.environment, Specifier.channel, Option.bind_some, hparse] at hspec
  exact congrArg Except.ok (Option.some.inj hspec)

end Choice

/-! ## What a finder resolves, whatever the database answers

Any statement may fail and any stream of rows may break off.  What is found is right all the same,
and nothing is written. -/

/-- What a pin of a repository stands for: the commit it names, or a deployment that the database
lists as active in the environment it follows. -/
def StandsFor (s : Store) (repo : RepoQid) (specifier : Specifier) (pinned : Pinned) : Prop :=
  match specifier with
  | .hash hex => ObjId.parse hex.toList = .ok pinned.commit ∧ pinned.owner = none
  | _ => ∃ env d, specifier.environment = some env ∧ d ∈ listed s ⟨repo, env⟩ ∧
    pinned = ⟨d.qid.deployment.commit, some d.qid⟩

/-- Whatever is answered, `p` leaves the world as it is, and what it returns satisfies `R`. -/
def Finds {α : Type} (p : M α) (R : α → Prop) (w : World) : Prop :=
  Always (fun _ _ => True) p (fun r w' => w' = w ∧ ∀ a, r = .ok a → R a) w

section Finding

variable {α β : Type} {p : M α} {R : α → Prop} {w : World} {repo : RepoQid} {env : EnvironmentId}

theorem finds_ret {a : α} (h : R a) : Finds (.ret a) R w := by
  refine ⟨rfl, ?_⟩
  rintro _ ⟨⟩
  exact h

theorem finds_fail (e : String) : Finds (.fail e) R w := ⟨rfl, by rintro _ ⟨⟩⟩

theorem Finds.bind {f : α → M β} {R' : β → Prop} (hp : Finds p R w)
    (hf : ∀ a, R a → Finds (f a) R' w) : Finds (p >>= f) R' w := by
  refine always_bind.2 (always_mono hp ?_)
  rintro r _ ⟨rfl, hr⟩
  cases r with
  | ok a => exact hf a (hr a rfl)
  | error e => exact finds_fail e

theorem finds_ofRows {rows : Rows α} {R : List α → Prop} (h : rows.error = none → R rows.items) :
    Finds (M.ofRows rows) R w := by
  refine always_ofRows (fun hnone => ⟨rfl, ?_⟩) fun e => ⟨rfl, by rintro _ ⟨⟩⟩
  rintro _ ⟨⟩
  exact h hnone

/-- The rule for a query. -/
theorem finds_cdb {o : Cdb.Op} {R : o.Result → Prop} (ho : w.afterCdb o = w)
    (h : ∀ cut, R (Store.exec cut o w.cdb).1) : Finds (M.cdb o) R w := by
  rw [Finds]
  refine always_cdb trivial (fun cut => ⟨ho, ?_⟩) fun e => ⟨⟨rfl, ?_⟩, ho, ?_⟩
  all_goals rintro _ ⟨⟩
  exact h cut

theorem Finds.cdbError (hp : Finds p R w) : Finds (CrossRepoPackageFinder.cdbError p) R w := by
  refine always_bind.2 (always_attempt.2 (always_mono hp ?_))
  rintro r _ ⟨rfl, hr⟩
  cases r with
  | ok a => exact finds_ret (hr a rfl)
  | error e => exact finds_fail _

omit [SclData] in
theorem mem_of_mem_upTo {cut : Option (ℕ × String)} {items : List α} {a : α}
    (h : a ∈ (Rows.upTo cut items).items) : a ∈ items := by
  rcases cut with _ | ⟨n, msg⟩
  · exact h
  · exact mem_of_mem_take h

theorem finds_repoActive : Finds (repoActiveDeployments repo) (fun rows => ∀ d ∈ rows.items,
    d.qid ∈ w.cdb.active ∧ w.cdb.find d.qid = some d ∧ d.qid.environment.repo = repo) w := by
  have hqids : Finds (M.cdb (.listActiveDeploymentsByRepo repo)) (fun rows =>
      ∀ q ∈ Rows.items (α := DeploymentQid) rows,
        q ∈ w.cdb.active ∧ q.environment.repo = repo) w :=
    finds_cdb rfl fun cut q hq => by simpa using mem_of_mem_upTo hq
  refine hqids.bind fun rows hrows => Finds.bind (R := fun qids => ∀ q ∈ qids, q ∈ w.cdb.active ∧
    q.environment.repo = repo) (finds_ofRows fun _ => hrows) fun qids hqids => ?_
  have hfound : ∀ d ∈ qids.filterMap w.cdb.find,
      d.qid ∈ w.cdb.active ∧ w.cdb.find d.qid = some d ∧ d.qid.environment.repo = repo := by
    intro d hd
    obtain ⟨q, hq, hd⟩ := mem_filterMap.1 hd
    obtain ⟨rfl, -⟩ := Store.find_eq_some hd
    exact ⟨(hqids _ hq).1, hd, (hqids _ hq).2⟩
  rw [deploymentsByQids]
  split
  · exact finds_ret fun d hd => absurd hd not_mem_nil
  · exact finds_cdb rfl fun cut d hd => hfound d (mem_of_mem_upTo hd)

theorem finds_firstActive : Finds (firstActive repo env)
    (fun r => ∀ d, r = some d → d ∈ listed w.cdb ⟨repo, env⟩) w := by
  refine finds_repoActive.bind fun rows hrows => ?_
  rw [firstOf]
  split
  · next d hfind =>
    refine finds_ret ?_
    rintro _ ⟨⟩
    obtain ⟨hactive, hfound, hrepo⟩ := hrows d (mem_of_find?_eq_some hfind)
    have henv : d.qid.environment.environment = env := by simpa using find?_some hfind
    refine mem_listed.2 ⟨hactive, hfound, ?_⟩
    rw [← henv, ← hrepo]
  · split
    · exact finds_ret fun _ h => by cases h
    · exact finds_fail _

end Finding

namespace CrossRepoPackageFinder

variable {repo : RepoQid} {specifier : Specifier} {w : World}

theorem finds_follow {name : String} (hspec : specifier.channel = some name) :
    Finds (follow repo specifier name) (StandsFor w.cdb repo specifier) w := by
  have hexists : Finds (confirmRepoExists repo) (fun _ => True) w := by
    refine (finds_cdb (R := fun _ => True) rfl fun _ => trivial).cdbError.bind fun found _ => ?_
    split
    · exact finds_ret trivial
    · exact finds_fail _
  refine hexists.bind fun _ _ => ?_
  split
  · exact finds_fail _
  next env henv =>
  refine finds_firstActive.cdbError.bind fun found hfound => ?_
  cases found with
  | none => exact finds_fail _
  | some d =>
  refine finds_ret ?_
  have hd := hfound d rfl
  have hqid : (⟨⟨repo, d.qid.environment.environment⟩, d.qid.deployment⟩ : DeploymentQid) =
      d.qid := by
    rw [show repo = d.qid.environment.repo by rw [(mem_listed.1 hd).2.2]]
  have hstands : ∃ env d', specifier.environment = some env ∧ d' ∈ listed w.cdb ⟨repo, env⟩ ∧
      (⟨d.qid.deployment.commit, some d.qid⟩ : Pinned) =
        ⟨d'.qid.deployment.commit, some d'.qid⟩ := by
    refine ⟨env, d, ?_, hd, rfl⟩
    rw [Specifier.environment, hspec, Option.bind_some, henv]
    rfl
  rw [hqid]
  cases specifier with
  | hash hex => cases hspec
  | branch | tag => exact hstands

theorem finds_lookup : Finds (lookup repo specifier) (StandsFor w.cdb repo specifier) w := by
  cases specifier with
  | branch name => exact finds_follow rfl
  | tag name => exact finds_follow rfl
  | hash hex =>
    rw [lookup]
    split
    · next commit hcommit => exact finds_ret ⟨hcommit, rfl⟩
    · exact finds_fail _

/-- Every pin is for a dependency of the manifest within the organisation, and stands for what the
manifest says. -/
def Pins (s : Store) (finder : CrossRepoPackageFinder) : Prop :=
  ∀ repo pinned, finder.resolved.lookup repo = some pinned → repo.org = finder.localOrg ∧
    ∃ specifier, finder.dependencies.lookup repo = some specifier ∧
      StandsFor s repo specifier pinned

/-- The same finder, with more pins. -/
structure Grown (finder finder' : CrossRepoPackageFinder) : Prop where
  localOrg : finder'.localOrg = finder.localOrg
  dependencies : finder'.dependencies = finder.dependencies
  resolved : ∀ repo pinned, finder.resolved.lookup repo = some pinned →
    finder'.resolved.lookup repo = some pinned

variable {finder : CrossRepoPackageFinder}

omit [SclData] in
theorem Grown.trans {next last : CrossRepoPackageFinder} (h : Grown finder next)
    (h' : Grown next last) : Grown finder last :=
  ⟨h'.localOrg.trans h.localOrg, h'.dependencies.trans h.dependencies,
    fun repo pinned hp => h'.resolved repo pinned (h.resolved repo pinned hp)⟩

theorem finds_resolveInternal (hpins : Pins w.cdb finder) :
    Finds (finder.resolveInternal repo) (fun r => Pins w.cdb r.2 ∧ Grown finder r.2 ∧
      ∀ specifier, finder.dependencies.lookup repo = some specifier →
        (r.2.resolved.lookup repo).isSome) w := by
  rw [resolveInternal]
  split
  · next pinned hpinned =>
    exact finds_ret ⟨hpins, ⟨rfl, rfl, fun _ _ h => h⟩, fun _ _ => by rw [hpinned]; rfl⟩
  next hunresolved =>
  split
  · next hnone =>
    refine finds_ret ⟨hpins, ⟨rfl, rfl, fun _ _ h => h⟩, fun specifier h => ?_⟩
    rw [hnone] at h
    cases h
  next specifier hspec =>
  split
  · next horg =>
    refine finds_lookup.bind fun pinned hstands => finds_ret ?_
    refine ⟨fun repo' pinned' h => ?_, ⟨rfl, rfl, fun repo' pinned' h => ?_⟩, fun _ _ => ?_⟩
    · rw [lookup_cons] at h
      split at h
      · next heq =>
        cases h
        rw [beq_iff_eq] at heq
        subst heq
        exact ⟨horg, specifier, hspec, hstands⟩
      · exact hpins repo' pinned' h
    · have hne : (repo' == repo) = false := by
        rw [beq_eq_false_iff_ne]
        rintro rfl
        rw [hunresolved] at h
        cases h
      simp only [lookup_cons, hne]
      exact h
    · simp
  · exact finds_fail _

theorem finds_rest (hpins : Pins w.cdb finder) (deps : List (RepoQid × Specifier)) :
    Finds (deps.foldlM (fun finder dep => do return (← resolveInternal finder dep.1).2) finder)
      (fun last => Pins w.cdb last ∧ Grown finder last ∧ ∀ dep ∈ deps, ∀ specifier,
        finder.dependencies.lookup dep.1 = some specifier →
          (last.resolved.lookup dep.1).isSome) w := by
  induction deps generalizing finder with
  | nil => exact finds_ret ⟨hpins, ⟨rfl, rfl, fun _ _ h => h⟩, fun _ h => absurd h not_mem_nil⟩
  | cons dep deps ih =>
  rw [foldlM_cons]
  refine Finds.bind (R := fun next => Pins w.cdb next ∧ Grown finder next ∧ ∀ specifier,
    finder.dependencies.lookup dep.1 = some specifier → (next.resolved.lookup dep.1).isSome)
    ((finds_resolveInternal hpins).bind fun r hr => finds_ret hr) ?_
  rintro next ⟨hnext, hgrown, hdep⟩
  refine (always_mono (ih hnext) ?_)
  rintro r w' ⟨rfl, hr⟩
  refine ⟨rfl, fun last heq => ?_⟩
  obtain ⟨hlast, hgrown', hdeps⟩ := hr last heq
  refine ⟨hlast, hgrown.trans hgrown', forall_mem_cons.2 ⟨fun specifier h => ?_, ?_⟩⟩
  · obtain ⟨pinned, hpinned⟩ := Option.isSome_iff_exists.1 (hdep specifier h)
    rw [hgrown'.resolved _ _ hpinned]
    rfl
  · rw [hgrown.dependencies] at hdeps
    exact hdeps

omit [SclData] in
theorem lookup_of_mem {deps : List (RepoQid × Specifier)} {dep : RepoQid × Specifier}
    (h : dep ∈ deps) : ∃ specifier, deps.lookup dep.1 = some specifier := by
  induction deps with
  | nil => exact absurd h not_mem_nil
  | cons first deps ih =>
  rw [lookup_cons]
  split
  · exact ⟨_, rfl⟩
  · next hne =>
    refine ih ((mem_cons.1 h).resolve_left ?_)
    rintro rfl
    simp at hne

/-- **A finder that has resolved everything has a pin for each dependency of the manifest and for no
other repository.**  All of them are of the importer's organisation.  A pin to a commit is that
commit and has no owner; a branch or a tag has the commit and the owner of one deployment, which the
database lists as active in the environment that the specifier names.  Whatever the database
answers, nothing is written. -/
theorem resolveAll_pins (org : OrgId) (deps : List (RepoQid × Specifier)) (w : World) :
    Finds (resolveAll ⟨org, deps, []⟩) (fun finder =>
      (∀ dep ∈ deps, ∃ pinned, finder.resolved.lookup dep.1 = some pinned) ∧
      ∀ repo pinned, finder.resolved.lookup repo = some pinned → repo.org = org ∧
        ∃ specifier, deps.lookup repo = some specifier ∧
          StandsFor w.cdb repo specifier pinned) w := by
  have hnone : Pins w.cdb ⟨org, deps, []⟩ := fun _ _ h => by cases h
  refine always_mono (finds_rest hnone deps) fun r w' ⟨hw', hr⟩ => ⟨hw', fun finder heq => ?_⟩
  obtain ⟨hpins, hgrown, hdeps⟩ := hr finder heq
  refine ⟨fun dep hdep => ?_, fun repo pinned h => ?_⟩
  · obtain ⟨specifier, hspec⟩ := lookup_of_mem hdep
    exact Option.isSome_iff_exists.1 (hdeps dep hdep specifier hspec)
  · have hpin := hpins repo pinned h
    rwa [hgrown.localOrg, hgrown.dependencies] at hpin

end CrossRepoPackageFinder

/-! ## The current deployment -/

/-- A pin resolves as it should: to the commit and the id of the current deployment of the
environment, and to an error when there is none. -/
def Rightly (s : Store) (env : EnvironmentQid) : Except String Pinned → Prop
  | .ok pinned => ∃ q, Current s q ∧ q.environment = env ∧ pinned = ⟨q.deployment.commit, some q⟩
  | .error _ => ∀ q, Current s q → q.environment ≠ env

/-- The index lists no deployment of the environment that is not current, and it lists one if there
is one. -/
def OnlyCurrentListed (s : Store) (env : EnvironmentQid) : Prop :=
  (∀ d ∈ listed s env, Current s d.qid) ∧
  ∀ q, Current s q → q.environment = env → listed s env ≠ []

/-- The same database with its index in another order. -/
def reorder (s : Store) (active : List DeploymentQid) : Store := { s with active := active }

/-- A world with the index of its configuration database in another order. -/
def reordered (w : World) (active : List DeploymentQid) : World :=
  { w with cdb := reorder w.cdb active }

variable {active : List DeploymentQid} {s : Store}

omit [SclData] in
theorem current_reorder {q : DeploymentQid} : Current (reorder s active) q ↔ Current s q :=
  ⟨fun h => ⟨h.stored, h.notDown, h.unsuperseded⟩, fun h => ⟨h.stored, h.notDown, h.unsuperseded⟩⟩

omit [SclData] in
theorem listed_reorder (s : Store) (active : List DeploymentQid) (env : EnvironmentQid) :
    listed (reorder s active) env =
      (active.filterMap s.find).filter fun d => d.qid.environment == env := rfl

variable {env : EnvironmentQid}

omit [SclData] in
theorem rightly_resolvesTo_of_only {specifier : Specifier}
    (h : OnlyCurrentListed s env) : Rightly s env (resolvesTo specifier s env) := by
  rw [resolvesTo]
  cases hhead : (listed s env).head? with
  | none => exact fun q hq henv => h.2 q hq henv (head?_eq_none_iff.1 hhead)
  | some d =>
  have hd := mem_of_mem_head? hhead
  exact ⟨d.qid, h.1 d hd, (mem_listed.1 hd).2.2, rfl⟩

omit [SclData] in
theorem rightly_reorder
    {r : Except String Pinned} : Rightly (reorder s active) env r ↔ Rightly s env r := by
  cases r with
  | ok | error => simp only [Rightly, current_reorder]

omit [SclData] in
theorem onlyCurrentListed_reorder
    (hperm : active.Perm s.active) (h : OnlyCurrentListed s env) :
    OnlyCurrentListed (reorder s active) env := by
  have hlisted : (listed (reorder s active) env).Perm (listed s env) :=
    (hperm.filterMap s.find).filter _
  refine ⟨fun d hd => current_reorder.2 (h.1 d (hlisted.mem_iff.1 hd)), fun q hq henv hnil => ?_⟩
  rw [hnil] at hlisted
  exact h.2 q (current_reorder.1 hq) henv (nil_perm.1 hlisted)

/-- **What a pin resolves to.**  A branch or tag of a repository resolves to the current deployment
of its environment, whatever the order in which the database lists the active deployments, if and
only if the index lists no other deployment of the environment. -/
theorem resolves_iff (w : World) (repo : RepoQid) (specifier : Specifier) (env : EnvironmentId)
    (hspec : specifier.environment = some env) (hrepo : repo ∈ w.cdb.repositories) :
    (∀ active, active.Perm w.cdb.active →
      Surely (fun _ _ => True) (CrossRepoPackageFinder.lookup repo specifier)
        (fun r _ => Rightly w.cdb ⟨repo, env⟩ r) (reordered w active)) ↔
      OnlyCurrentListed w.cdb ⟨repo, env⟩ := by
  have hlookup : ∀ active, Surely (fun _ _ => True) (CrossRepoPackageFinder.lookup repo specifier)
      (fun r _ => Rightly w.cdb ⟨repo, env⟩ r) (reordered w active) ↔
        Rightly w.cdb ⟨repo, env⟩ (resolvesTo specifier (reorder w.cdb active) ⟨repo, env⟩) :=
    fun active => surely_lookup (fun _ => trivial) hspec hrepo
  simp only [hlookup]
  constructor
  · intro h
    refine ⟨fun d hd => ?_, fun q hq henv hnil => ?_⟩
    · -- Some order lists `d` first.
      obtain ⟨hactive, hfind, henv⟩ := mem_listed.1 hd
      have hd' := h (d.qid :: w.cdb.active.erase d.qid) (perm_cons_erase hactive).symm
      have hhead : (listed (reorder w.cdb (d.qid :: w.cdb.active.erase d.qid))
          ⟨repo, env⟩).head? = some d := by
        rw [listed_reorder, filterMap_cons, hfind, filter_cons, if_pos (beq_iff_eq.2 henv)]
        rfl
      rw [resolvesTo, hhead] at hd'
      obtain ⟨q, hq, -, heq⟩ := hd'
      rw [Option.some.inj (congrArg Pinned.owner heq)]
      exact hq
    have hq' := h w.cdb.active (List.Perm.refl _)
    rw [resolvesTo, show listed (reorder w.cdb w.cdb.active) ⟨repo, env⟩ = [] from hnil] at hq'
    exact hq' q hq henv
  · intro h active hperm
    exact rightly_reorder.1 (rightly_resolvesTo_of_only (onlyCurrentListed_reorder hperm h))

end Skyr.Sclc

/-! ## Two dependencies

The repository `shop` with two deployments of its environment `main`: one that lingers, and the
one that has superseded it. -/

namespace Skyr.Sclc

open Cdb

local instance : SclData := .nat

def shopRepo : RepoQid := ⟨⟨"acme"⟩, ⟨"shop"⟩⟩

def shopMain (n : ℕ) : DeploymentQid :=
  ⟨⟨shopRepo, ⟨"main"⟩⟩, ⟨⟨BitVec.ofNat 160 n⟩, ⟨BitVec.ofNat 64 n⟩⟩⟩

/-- A database with the repository and the deployments given, the first listed first. -/
def shopDb (deployments : List Deployment) : Store :=
  deployments.foldr (fun d s => { s.setById d with active := d.qid :: s.active })
    { Store.empty with repositories := [shopRepo] }

/-- The old deployment lingers and is superseded by the new one; the index lists it first. -/
def shopAfterPush : World :=
  { World.empty with
    cdb := (shopDb [⟨shopMain 1, .lingering, true⟩, ⟨shopMain 2, .desired, false⟩]).supersede
      (shopMain 1) (shopMain 2).deployment }

/-- A pin to `main` resolves to the deployment that has been superseded. -/
theorem resolves_to_superseded :
    Current shopAfterPush.cdb (shopMain 2) ∧ ¬Current shopAfterPush.cdb (shopMain 1) ∧
      ((CrossRepoPackageFinder.lookup shopRepo (.branch "main")).run World.sem (fun _ => calm)
        shopAfterPush).1.toOption = some ⟨(shopMain 1).deployment.commit, some (shopMain 1)⟩ := by
  decide +kernel

/-- A single deployment. -/
def shopAtRest : World :=
  { World.empty with cdb := shopDb [⟨shopMain 1, .desired, true⟩] }

theorem resolves_to_current :
    Specifier.environment (.branch "main") = some ⟨"main"⟩ ∧ shopRepo ∈ shopAtRest.cdb.repositories ∧
      ∀ active, active.Perm shopAtRest.cdb.active →
        Surely (fun _ _ => True) (CrossRepoPackageFinder.lookup shopRepo (.branch "main"))
          (fun r _ => Rightly shopAtRest.cdb ⟨shopRepo, ⟨"main"⟩⟩ r)
          (reordered shopAtRest active) := by
  have hspec : Specifier.environment (.branch "main") = some ⟨"main"⟩ := by decide +kernel
  have hrepo : shopRepo ∈ shopAtRest.cdb.repositories := by decide
  have hlisted : listed shopAtRest.cdb ⟨shopRepo, ⟨"main"⟩⟩ = [⟨shopMain 1, .desired, true⟩] := by
    decide +kernel
  refine ⟨hspec, hrepo, (resolves_iff shopAtRest shopRepo _ _ hspec hrepo).2 ⟨fun d hd => ?_, ?_⟩⟩
  · rw [hlisted] at hd
    rw [List.mem_singleton.1 hd]
    decide +kernel
  · rw [hlisted]
    exact fun _ _ _ => List.cons_ne_nil _ _

end Skyr.Sclc
