import Mathlib.Data.BitVec
import Skyr.Lib.Split

/-!
# Identifiers

The vocabulary of the `ids` crate, as far as the engines use it: organisations, repositories,
environments, deployments and resources, their qualified forms, and the text these print to and
parse from.  Some separators are searched for from the left and some from the right.

The owner of a resource is stored as the *text* of a qualified deployment id.  The commit hash and
the nonce of a deployment are printed in fixed width, so that two deployments of one environment do
not print alike; what the parsers make of these texts is in `Ids.RoundTrip`.
-/

namespace Skyr

/-! ## Text helpers -/

/-- The lowercase hexadecimal digit of a number below 16. -/
def hexDigit (n : ℕ) : Char := if n < 10 then Char.ofNat (48 + n) else Char.ofNat (87 + n)

/-- The last `w` hexadecimal digits of `n`, most significant first. -/
def hexChars : ℕ → ℕ → List Char
  | 0, _ => []
  | w + 1, n => hexChars w (n / 16) ++ [hexDigit (n % 16)]

/-- `n` in `w` hexadecimal digits, padded with zeros on the left. -/
def hexFixed (w n : ℕ) : String := String.ofList (hexChars w n)

/-- The value of a lowercase hexadecimal digit. -/
def hexDigitValue (c : Char) : ℕ := if c.isDigit then c.toNat - 48 else c.toNat - 87

/-- The number a list of hexadecimal digits stands for. -/
def hexValue (cs : List Char) : ℕ := cs.foldl (fun n c => n * 16 + hexDigitValue c) 0

/-- A lowercase hexadecimal digit. -/
def isHexLower (c : Char) : Bool := c.isDigit || ('a' ≤ c && c ≤ 'f')

/-! ## The identifiers -/

/-- Why a text is not an identifier; each carries the offending text. -/
inductive ParseIdError
  | invalidOrgId (s : String)
  | invalidRepoId (s : String)
  | invalidRepoQid (s : String)
  | invalidEnvironmentId (s : String)
  | invalidEnvironmentQid (s : String)
  | invalidObjId (s : String)
  | invalidDeploymentNonce (s : String)
  | invalidDeploymentId (s : String)
  | invalidDeploymentQid (s : String)
  | invalidRegionId (s : String)
  | invalidResourceId (s : String)
  | invalidResourceQid (s : String)
  | invalidGitRef (s : String)
deriving DecidableEq

/-- A frame of a source trace: where a resource function was invoked. -/
structure SourceFrame where
  moduleId : String
  span : String
  name : String
deriving DecidableEq

/-- A source trace, innermost frame first. -/
abbrev SourceTrace := List SourceFrame

/-- Organisation id. -/
structure OrgId where
  str : String
deriving DecidableEq

/-- Repository id. -/
structure RepoId where
  str : String
deriving DecidableEq

/-- Region id. -/
structure RegionId where
  str : String
deriving DecidableEq

/-- Environment id: a branch name, or a tag name behind `tag:`. -/
structure EnvironmentId where
  str : String
deriving DecidableEq

/-- A git object hash. -/
@[ext] structure ObjId where
  bits : BitVec 160
deriving DecidableEq

/-- What tells deployments of one commit apart. -/
@[ext] structure DeploymentNonce where
  bits : BitVec 64
deriving DecidableEq

/-- Repository in its organisation. -/
structure RepoQid where
  org : OrgId
  repo : RepoId
deriving DecidableEq

/-- Environment of a repository. -/
structure EnvironmentQid where
  repo : RepoQid
  environment : EnvironmentId
deriving DecidableEq

/-- Deployment id: a commit and a nonce. -/
@[ext] structure DeploymentId where
  commit : ObjId
  nonce : DeploymentNonce
deriving DecidableEq

/-- Deployment of an environment. -/
structure DeploymentQid where
  environment : EnvironmentQid
  deployment : DeploymentId
deriving DecidableEq

/-- Resource of an environment; the region is part of its identity. -/
structure ResourceId where
  region : RegionId
  typ : String
  name : String
deriving DecidableEq

/-- Resource, with its environment. -/
structure ResourceQid where
  environment : EnvironmentQid
  resource : ResourceId
deriving DecidableEq

/-! ## Printing -/

def ObjId.toString (o : ObjId) : String := hexFixed 40 o.bits.toNat

def DeploymentNonce.toString (n : DeploymentNonce) : String := hexFixed 16 n.bits.toNat

def RepoQid.toString (q : RepoQid) : String := q.org.str ++ "/" ++ q.repo.str

def EnvironmentQid.toString (q : EnvironmentQid) : String :=
  q.repo.toString ++ "::" ++ q.environment.str

def DeploymentId.toString (d : DeploymentId) : String :=
  d.commit.toString ++ "." ++ d.nonce.toString

def DeploymentQid.toString (q : DeploymentQid) : String :=
  q.environment.toString ++ "@" ++ q.deployment.toString

def ResourceId.toString (r : ResourceId) : String := r.region.str ++ ":" ++ r.typ ++ ":" ++ r.name

def ResourceQid.toString (q : ResourceQid) : String :=
  q.environment.toString ++ "::" ++ q.resource.toString

theorem length_hexChars (w n : ℕ) : (hexChars w n).length = w := by
  induction w generalizing n with
  | zero => rfl
  | succ w ih => rw [hexChars, List.length_append, ih]; rfl

/-! ## Parsing -/

/-- A symbol: a letter or underscore, then letters, digits and underscores. -/
def isValidSymbol : List Char → Bool
  | [] => false
  | first :: rest => (first.isAlpha || first == '_') && rest.all fun c => c.isAlphanum || c == '_'

def OrgId.parse (s : List Char) : Except ParseIdError OrgId :=
  if isValidSymbol s then .ok ⟨String.ofList s⟩ else .error (.invalidOrgId (String.ofList s))

def RepoId.parse (s : List Char) : Except ParseIdError RepoId :=
  if isValidSymbol s then .ok ⟨String.ofList s⟩ else .error (.invalidRepoId (String.ofList s))

def RepoQid.parse (s : List Char) : Except ParseIdError RepoQid :=
  match splitOnce ['/'] s with
  | none => .error (.invalidRepoQid (String.ofList s))
  | some (org, repo) =>
    match OrgId.parse org, RepoId.parse repo with
    | .ok org, .ok repo => .ok ⟨org, repo⟩
    | _, _ => .error (.invalidRepoQid (String.ofList s))

def EnvironmentId.parse (s : List Char) : Except ParseIdError EnvironmentId :=
  if s.isEmpty then .error (.invalidEnvironmentId (String.ofList s)) else .ok ⟨String.ofList s⟩

def EnvironmentQid.parse (s : List Char) : Except ParseIdError EnvironmentQid :=
  match splitOnce [':', ':'] s with
  | none => .error (.invalidEnvironmentQid (String.ofList s))
  | some (repo, env) =>
    match RepoQid.parse repo, EnvironmentId.parse env with
    | .ok repo, .ok env => .ok ⟨repo, env⟩
    | _, _ => .error (.invalidEnvironmentQid (String.ofList s))

def ObjId.parse (s : List Char) : Except ParseIdError ObjId :=
  if s.length == 40 && s.all isHexLower then .ok ⟨BitVec.ofNat 160 (hexValue s)⟩
  else .error (.invalidObjId (String.ofList s))

def DeploymentNonce.parse (s : List Char) : Except ParseIdError DeploymentNonce :=
  if s.length == 16 && s.all isHexLower then .ok ⟨BitVec.ofNat 64 (hexValue s)⟩
  else .error (.invalidDeploymentNonce (String.ofList s))

def DeploymentId.parse (s : List Char) : Except ParseIdError DeploymentId :=
  match rsplitOnce ['.'] s with
  | none => .error (.invalidDeploymentId (String.ofList s))
  | some (commit, nonce) =>
    match ObjId.parse commit, DeploymentNonce.parse nonce with
    | .ok commit, .ok nonce => .ok ⟨commit, nonce⟩
    | _, _ => .error (.invalidDeploymentId (String.ofList s))

def DeploymentQid.parse (s : List Char) : Except ParseIdError DeploymentQid :=
  match rsplitOnce ['@'] s with
  | none => .error (.invalidDeploymentQid (String.ofList s))
  | some (env, deploy) =>
    match EnvironmentQid.parse env, DeploymentId.parse deploy with
    | .ok env, .ok deploy => .ok ⟨env, deploy⟩
    | _, _ => .error (.invalidDeploymentQid (String.ofList s))

/-- A region: one or more lowercase letters. -/
def isValidRegion (s : List Char) : Bool := !s.isEmpty && s.all Char.isLower

def RegionId.parse (s : List Char) : Except ParseIdError RegionId :=
  if isValidRegion s then .ok ⟨String.ofList s⟩ else .error (.invalidRegionId (String.ofList s))

/-- A name that would print with `::` somewhere is refused. -/
def ResourceId.parse (s : List Char) : Except ParseIdError ResourceId :=
  let invalid := .error (.invalidResourceId (String.ofList s))
  match splitOnce [':'] s with
  | none => invalid
  | some (region, rest) =>
    match RegionId.parse region, splitOnce [':'] rest with
    | .ok region, some (typ, name) =>
      if typ.isEmpty || name.isEmpty then invalid
      else if name.head? == some ':' || (splitOnce [':', ':'] name).isSome then invalid
      else .ok ⟨region, String.ofList typ, String.ofList name⟩
    | _, _ => invalid

def ResourceQid.parse (s : List Char) : Except ParseIdError ResourceQid :=
  match rsplitOnce [':', ':'] s with
  | none => .error (.invalidResourceQid (String.ofList s))
  | some (env, resource) =>
    match EnvironmentQid.parse env, ResourceId.parse resource with
    | .ok env, .ok resource => .ok ⟨env, resource⟩
    | _, _ => .error (.invalidResourceQid (String.ofList s))

/-! ## Git references -/

/-- What is behind a given beginning of a text. -/
def stripPrefix (beginning s : List Char) : Option (List Char) :=
  if beginning.isPrefixOf s then some (s.drop beginning.length) else none

/-- The environment of a branch is its name, that of a tag has `tag:` in front. -/
def EnvironmentId.fromGitRef (fullRef : List Char) : Except ParseIdError EnvironmentId :=
  match stripPrefix "refs/heads/".toList fullRef, stripPrefix "refs/tags/".toList fullRef with
  | some name, _ =>
    if name.isEmpty then .error (.invalidGitRef (String.ofList fullRef))
    else .ok ⟨String.ofList name⟩
  | none, some name =>
    if name.isEmpty then .error (.invalidGitRef (String.ofList fullRef))
    else .ok ⟨"tag:" ++ String.ofList name⟩
  | none, none => .error (.invalidGitRef (String.ofList fullRef))

/-- The reference of an environment. -/
def EnvironmentId.toGitRef (e : EnvironmentId) : List Char :=
  match stripPrefix "tag:".toList e.str.toList with
  | some tagName => "refs/tags/".toList ++ tagName
  | none => "refs/heads/".toList ++ e.str.toList

end Skyr
