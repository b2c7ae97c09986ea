import Skyr.Ids.RoundTrip

/-!
# Which entity a text is about

A report is about a deployment or about a resource, and some engines know it only by its text.  They
find out about its environment and its organisation by trying the two parsers in turn, that for
deployments first.  This is right for every deployment, and it is right for every resource unless
its name ends in `@` and a deployment id: then the text parses as that of a deployment of another
environment, whose name has everything up to the `@` in it (`parses_as_deployment_iff`).  The
organisation is right in any case, since it stands at the front.
-/

namespace Skyr

open List ResourceQid

/-- Why the recipients of a notification are not found. -/
inductive ResolveError
  | invalidEntityQid (s : String)
deriving DecidableEq

/-- The environment of an entity, from the text of the entity. -/
def envQidFromString (entityQid : String) : Option String :=
  match DeploymentQid.parse entityQid.toList with
  | .ok qid => some qid.environment.toString
  | .error _ =>
    match ResourceQid.parse entityQid.toList with
    | .ok qid => some qid.environment.toString
    | .error _ => none

/-- The organisation of an entity, from the text of the entity. -/
def extractOrgId (entityQid : String) : Except ResolveError OrgId :=
  match DeploymentQid.parse entityQid.toList with
  | .ok qid => .ok qid.environment.repo.org
  | .error _ =>
    match ResourceQid.parse entityQid.toList with
    | .ok qid => .ok qid.environment.repo.org
    | .error _ => .error (.invalidEntityQid entityQid)

/-- A name that ends in `@` and a deployment id. -/
def EndsInDeployment (name : List Char) : Prop :=
  ∃ (front : List Char) (d : DeploymentId), name = front ++ ['@'] ++ d.toString.toList

namespace ResourceQid

variable {q : ResourceQid}

/-- What stands in front of the name, behind the repository. -/
def beforeName (q : ResourceQid) : List Char :=
  q.environment.environment.str.toList ++ [':', ':'] ++ q.resource.region.str.toList ++ [':'] ++
    q.resource.typ.toList ++ [':']

theorem toList_toString_name (q : ResourceQid) :
    q.toString.toList = q.environment.repo.toString.toList ++ [':', ':'] ++
      (q.beforeName ++ q.resource.name.toList) := by
  rw [toList_toString, EnvironmentQid.toList_toString, ResourceId.toList_toString, beforeName]
  simp

/-- The name is cut off, and the rest is taken for an environment. -/
theorem parse_as_deployment (h : q.environment.repo.Built) {front : List Char} {d : DeploymentId}
    (hname : q.resource.name.toList = front ++ ['@'] ++ d.toString.toList) :
    DeploymentQid.parse q.toString.toList =
      .ok ⟨⟨q.environment.repo, ⟨String.ofList (q.beforeName ++ front)⟩⟩, d⟩ := by
  have hat := d.notMem_toString (x := '@') (by decide) (by decide)
  have htext : q.toString.toList = q.environment.repo.toString.toList ++ [':', ':'] ++
      (q.beforeName ++ front) ++ ['@'] ++ d.toString.toList := by
    rw [toList_toString_name, hname]
    simp
  have hne : q.beforeName ++ front ≠ [] := by simp [beforeName]
  rw [htext, DeploymentQid.parse, rsplitOnce_singleton hat]
  dsimp only
  rw [EnvironmentQid.parse_append h hne, DeploymentId.parse_toString]

/-- **When a resource is taken for a deployment.** -/
theorem parses_as_deployment_iff (h : q.environment.repo.Built) :
    (∃ d, DeploymentQid.parse q.toString.toList = .ok d) ↔
      EndsInDeployment q.resource.name.toList := by
  refine ⟨fun ⟨d, hd⟩ => ?_, fun ⟨front, d, hname⟩ => ⟨_, parse_as_deployment h hname⟩⟩
  have htext := (DeploymentQid.toString_parse hd).1
  have hcolon := d.deployment.notMem_toString (x := ':') (by decide) (by decide)
  have hid : ['@'] ++ d.deployment.toString.toList <:+ q.toString.toList := by
    rw [← htext, DeploymentQid.toList_toString, append_assoc]
    exact suffix_append _ _
  have hname : [':'] ++ q.resource.name.toList <:+ q.toString.toList := by
    rw [toList_toString_name, beforeName, append_assoc _ [':']]
    exact (suffix_append _ _).trans (suffix_append _ _)
  -- The colon in front of the name is not in the deployment id, so this is part of the name.
  rcases Nat.lt_or_ge q.resource.name.toList.length (d.deployment.toString.toList.length + 1)
    with hlt | hge
  · have hsub := suffix_of_suffix_length_le hname hid (by simpa using Nat.le_of_lt_succ hlt)
    have hmem := hsub.subset (mem_append_left _ mem_cons_self)
    exact absurd hmem (by simpa using hcolon)
  have hsub := suffix_of_suffix_length_le hid
    ((suffix_append _ _).trans hname) (by simpa using hge)
  obtain ⟨front, hfront⟩ := hsub
  exact ⟨front, d.deployment, by rw [← hfront, append_assoc]⟩

end ResourceQid

/-- The text of an entity leads back to its environment and its organisation. -/
structure Recovers (text : String) (env : EnvironmentQid) : Prop where
  environment : envQidFromString text = some env.toString
  org : extractOrgId text = .ok env.repo.org

theorem DeploymentQid.Built.recovers {d : DeploymentQid} (h : d.Built) :
    Recovers d.toString d.environment := by
  have hparse := DeploymentQid.parse_toString h
  refine ⟨?_, ?_⟩
  · rw [envQidFromString, hparse]
  · rw [extractOrgId, hparse]

theorem ResourceQid.Built.recovers {q : ResourceQid} (h : q.Built)
    (hname : ¬ EndsInDeployment q.resource.name.toList) : Recovers q.toString q.environment := by
  have hparse := parse_toString h
  obtain ⟨e, he⟩ : ∃ e, DeploymentQid.parse q.toString.toList = .error e := by
    cases hd : DeploymentQid.parse q.toString.toList with
    | error e => exact ⟨e, rfl⟩
    | ok d =>
      exact absurd ((parses_as_deployment_iff h.environment.repo).1 ⟨d, hd⟩) hname
  refine ⟨?_, ?_⟩
  · rw [envQidFromString, he]
    dsimp only
    rw [hparse]
  rw [extractOrgId, he]
  dsimp only
  rw [hparse]

/-- The organisation is right even if the entity is taken for another one. -/
theorem ResourceQid.Built.extractOrgId_eq {q : ResourceQid} (h : q.Built) :
    extractOrgId q.toString = .ok q.environment.repo.org := by
  by_cases hname : EndsInDeployment q.resource.name.toList
  · obtain ⟨front, d, hname⟩ := hname
    rw [extractOrgId, parse_as_deployment h.environment.repo hname]
  · exact (h.recovers hname).org

/-- **Entities are told apart by their text**: every deployment, and every resource whose name does
not end in `@` and a deployment id.  Such a resource does not parse as a deployment, and every
entity leads back to its organisation. -/
theorem entities_told_apart (d : DeploymentQid) (hd : d.Built) (q : ResourceQid) (hq : q.Built) :
    Recovers d.toString d.environment ∧
      extractOrgId q.toString = .ok q.environment.repo.org ∧
      (¬ EndsInDeployment q.resource.name.toList →
        (∀ d', DeploymentQid.parse q.toString.toList ≠ .ok d') ∧
          Recovers q.toString q.environment) := by
  refine ⟨hd.recovers, hq.extractOrgId_eq, fun hname => ⟨fun d' hd' => hname ?_, hq.recovers hname⟩⟩
  exact (parses_as_deployment_iff hq.environment.repo).1 ⟨d', hd'⟩

/-- The environment of the examples. -/
def exampleEnvironment : EnvironmentQid := ⟨⟨⟨"Acme"⟩, ⟨"Shop"⟩⟩, ⟨"main"⟩⟩

theorem exampleEnvironment_built : exampleEnvironment.Built :=
  (EnvironmentQid.toString_parse (s := "Acme/Shop::main".toList) (by decide +kernel)).2

/-- A resource with an ordinary name. -/
def plainResource : ResourceQid := ⟨exampleEnvironment, ⟨⟨"stockholm"⟩, "Std/Random.Int", "seed"⟩⟩

theorem plainResource_built : plainResource.Built :=
  ⟨exampleEnvironment_built, "stockholm:Std/Random.Int:seed".toList, by decide +kernel⟩

theorem plainResource_told_apart : Recovers plainResource.toString exampleEnvironment := by
  have hname : ¬ EndsInDeployment plainResource.resource.name.toList := by
    rintro ⟨front, d, h⟩
    have : '@' ∈ plainResource.resource.name.toList := by
      rw [h]
      simp
    exact absurd this (by decide)
  exact ((entities_told_apart ⟨exampleEnvironment, ⟨⟨0⟩, ⟨0⟩⟩⟩ exampleEnvironment_built
    plainResource plainResource_built).2.2 hname).2

/-- A resource whose name ends in a deployment id. -/
def disguisedResource : ResourceQid :=
  ⟨exampleEnvironment, ⟨⟨"stockholm"⟩, "Std/Random.Int",
    "x@0000000000000000000000000000000000000000.0000000000000000"⟩⟩

/-- **A text may be that of a deployment and of a resource.**  The resource is accepted by its
parser, but its text parses as that of a deployment, and its environment is not found. -/
theorem disguisedResource_taken_for_deployment :
    disguisedResource.Built ∧
      ResourceQid.parse disguisedResource.toString.toList = .ok disguisedResource ∧
      DeploymentQid.parse disguisedResource.toString.toList = .ok
        ⟨⟨⟨⟨"Acme"⟩, ⟨"Shop"⟩⟩, ⟨"main::stockholm:Std/Random.Int:x"⟩⟩, ⟨⟨0⟩, ⟨0⟩⟩⟩ ∧
      envQidFromString disguisedResource.toString ≠
        some disguisedResource.environment.toString := by
  have hresource : ResourceId.parse disguisedResource.resource.toString.toList =
      .ok disguisedResource.resource := by
    decide +kernel
  refine ⟨⟨exampleEnvironment_built, _, hresource⟩, ?_, ?_, ?_⟩
  all_goals decide +kernel

end Skyr
