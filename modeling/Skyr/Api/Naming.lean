import Skyr.Lib.Amid
import Skyr.Lib.Json
import Skyr.Udb
import Skyr.World

/-!
# Claiming a name

A user who signs up, an organization and a repository each get a name that is theirs in all
regions.  The edge claims the name in the global name database first, and then has the entity made
in its region: a user and an organization by the identity service, which writes to the user
database of the region, a repository in the configuration database.  Nothing gives a name back.

The requests of the edge are programs that ask the stores and services one thing at a time, and a
call of the identity service is part of the program that makes it: it may not arrive, its answer
may not come back, and it may stop on the way, as the edge itself may.  Any number of requests are
served at once (`api`).

The proofs that users give when they sign up are checked by `Env.verify`; what makes one valid is
not the subject here.
-/

namespace Skyr.Api

/-! ## Names and proofs -/

/-- The key of a name: its lower case (the source takes a hash of that). -/
def nameHash (name : String) : List Char := name.toList.map Char.toLower

/-- Three to twenty letters, digits, underscores and hyphens. -/
def usernameRegex (name : String) : Bool :=
  3 ≤ name.toList.length && name.toList.length ≤ 20 &&
    name.toList.all fun c => c.isAlphanum || c == '_' || c == '-'

/-- The white space of Unicode. -/
def isWhitespace (c : Char) : Bool :=
  let n := c.toNat
  (9 ≤ n && n ≤ 13) || n == 0x20 || n == 0x85 || n == 0xa0 || n == 0x1680 ||
    (0x2000 ≤ n && n ≤ 0x200a) || n == 0x2028 || n == 0x2029 || n == 0x202f || n == 0x205f ||
    n == 0x3000

def isValidEmail (email : String) : Bool :=
  match splitOnce ['@'] email.toList with
  | none => false
  | some (localPart, domain) =>
    if localPart = [] ∨ domain = [] then false
    else if email.toList.any isWhitespace then false
    else match rsplitOnce ['.'] domain with
      | none => false
      | some (domainName, tld) =>
        if domainName = [] ∨ tld = [] then false
        else !decide ('@' ∈ domain)

abbrev Json := JValue Unit

structure WebAuthnAttestation where
  clientDataJson : List UInt8
  attestationObject : List UInt8
  credentialId : String
deriving DecidableEq

/-- A proof for a registration. -/
inductive Proof
  | sshSignature (pem : String)
  | attestation (attestation : WebAuthnAttestation)
deriving DecidableEq

/-- What a valid proof gives. -/
structure RegistrationOutcome where
  opensshKey : String
  credentialId : Option String
  signCount : ℕ
deriving DecidableEq

/-- An error of the identity service: one whose text is shown to the user, or another one. -/
inductive Status
  | shown (message : String)
  | internal
deriving DecidableEq

def internalError : String := "Internal server error"

def mapIasStatus : Status → String
  | .shown message => message
  | .internal => internalError

/-- What is fixed while requests are served. -/
structure Env where
  availableRegions : List RegionId
  /-- Whether the proof of this user is valid at this time, for the service of a region. -/
  verify : RegionId → Proof → String → ℕ → Except Status RegistrationOutcome
  signs : RegionId → Bool
  base64 : String → Option (List UInt8)
  fingerprint : String → Option String

def Json.get (value : Json) (field : String) : Option Json :=
  match value with
  | .obj fields => fields.lookup field
  | _ => none

def decodeB64urlField (env : Env) (response : Json) (field : String) :
    Except String (List UInt8) :=
  match (Json.get response field).bind JValue.asStr with
  | none => .error s!"Missing '{field}'"
  | some raw =>
    match env.base64 raw with
    | none => .error s!"Invalid base64url in '{field}'"
    | some bytes => .ok bytes

def parseAttestation (env : Env) (value : Json) : Except String WebAuthnAttestation :=
  match (Json.get value "id").bind JValue.asStr with
  | none => .error "Missing 'id' in WebAuthn attestation"
  | some credentialId =>
    match Json.get value "response" with
    | none => .error "Missing 'response' in WebAuthn attestation"
    | some response => do
      let clientDataJson ← decodeB64urlField env response "clientDataJSON"
      let attestationObject ← decodeB64urlField env response "attestationObject"
      pure ⟨clientDataJson, attestationObject, credentialId⟩

def proofFromJson (env : Env) : Json → Except String Proof
  | .str sigPem => .ok (.sshSignature sigPem)
  | .obj fields => (parseAttestation env (.obj fields)).map .attestation
  | _ => .error "Invalid proof: expected a string (SSH signature) or object (WebAuthn payload)"

/-! ## Requests to the stores and services -/

inductive ReserveError
  | nameTaken
  | other (message : String)
deriving DecidableEq

inductive Op
  | lookupOrg (org : OrgId)
  | reserveOrg (org : OrgId) (region : RegionId)
  | reserveRepo (qid : RepoQid) (region : RegionId)
  | connectIas (region : RegionId)
  | connectCdb (region : RegionId)
  /-- A call goes to the identity service. -/
  | send (region : RegionId)
  | receive (region : RegionId)
  | now
  | orgContainsMember (region : RegionId) (name username : String)
  | register (region : RegionId) (username email : String)
  | setFullname (region : RegionId) (username fullname : String)
  | addPubkey (region : RegionId) (username fingerprint : String)
  | setCredential (region : RegionId) (username fingerprint : String) (credential : Udb.Credential)
  | createOrg (region : RegionId) (name creator : String)
  | findRepository (region : RegionId) (qid : RepoQid)
  | setRepository (region : RegionId) (qid : RepoQid)

@[reducible] def Resp : Op → Type
  | .lookupOrg _ => Except String (Option RegionId)
  | .reserveOrg .. | .reserveRepo .. => Except ReserveError Unit
  | .now => ℕ
  | .orgContainsMember .. | .findRepository .. => Except String Bool
  | .register .. | .createOrg .. => Except String ℕ
  | _ => Except String Unit

@[reducible] def Ans : Op → Type
  | .connectIas _ | .connectCdb _ | .send _ | .receive _ => Except String Unit
  | .now => ℕ
  | _ => Reply

/-- The global name database.  A row has the name as it was given, and the region. -/
structure Gddb where
  orgs : List Char → Option (OrgId × RegionId)
  repos : List Char → Option (RepoQid × RegionId)

structure Stores where
  gddb : Gddb
  udb : RegionId → Udb.Store
  /-- The repositories in the configuration database of a region. -/
  cdb : RegionId → RepoQid → Bool

namespace Stores

def empty : Stores := ⟨⟨fun _ => none, fun _ => none⟩, fun _ => .empty, fun _ _ => false⟩

variable (s : Stores)

def withOrg (org : OrgId) (region : RegionId) : Stores :=
  { s with
    gddb := { s.gddb with
      orgs := Function.update s.gddb.orgs (nameHash org.str) (some (org, region)) } }

def withRepo (qid : RepoQid) (region : RegionId) : Stores :=
  { s with
    gddb := { s.gddb with
      repos := Function.update s.gddb.repos (nameHash qid.toString) (some (qid, region)) } }

def withUdb (region : RegionId) (store : Udb.Store) : Stores :=
  { s with udb := Function.update s.udb region store }

def withRepository (region : RegionId) (qid : RepoQid) : Stores :=
  { s with cdb := Function.update s.cdb region (Function.update (s.cdb region) qid true) }

end Stores

/-- An insertion that is made only if there is no row yet. -/
def reserve (reply : Reply) (taken : Bool) (insert : Stores → Stores) (s : Stores) :
    Except ReserveError Unit × Stores :=
  match reply with
  | .done _ => if taken then (.error .nameTaken, s) else (.ok (), insert s)
  | .error applied m => (.error (.other m), if applied && !taken then insert s else s)

/-- A statement or a script of the user database of a region. -/
def onUdb {α : Type} (reply : Reply) (region : RegionId) (f : Udb.Store → α × Udb.Store)
    (s : Stores) : Except String α × Stores :=
  reply.answer (fun _ s => ((f (s.udb region)).1, s.withUdb region (f (s.udb region)).2)) s

def act : (o : Op) → Ans o → Stores → Resp o × Stores
  | .lookupOrg org, reply, s =>
    reply.answer (fun _ s => ((s.gddb.orgs (nameHash org.str)).map Prod.snd, s)) s
  | .reserveOrg org region, reply, s =>
    reserve reply (s.gddb.orgs (nameHash org.str)).isSome (·.withOrg org region) s
  | .reserveRepo qid region, reply, s =>
    reserve reply (s.gddb.repos (nameHash qid.toString)).isSome (·.withRepo qid region) s
  | .connectIas _, r, s | .connectCdb _, r, s | .send _, r, s | .receive _, r, s => (r, s)
  | .now, t, s => (t, s)
  | .orgContainsMember region name username, reply, s =>
    reply.answer (fun _ s => (decide (username ∈ (s.udb region).members name), s)) s
  | .register region username email, reply, s =>
    onUdb reply region (·.register username email) s
  | .setFullname region username fullname, reply, s =>
    onUdb reply region (fun u => ((), u.setFullname username fullname)) s
  | .addPubkey region username fingerprint, reply, s =>
    onUdb reply region (fun u => ((), u.addPubkey username fingerprint)) s
  | .setCredential region username fingerprint credential, reply, s =>
    onUdb reply region (fun u => ((), u.setCredential username fingerprint credential)) s
  | .createOrg region name creator, reply, s =>
    onUdb reply region (·.createOrg name creator) s
  | .findRepository region qid, reply, s => reply.answer (fun _ s => (s.cdb region qid, s)) s
  | .setRepository region qid, reply, s =>
    reply.answer (fun _ s => ((), s.withRepository region qid)) s

def sem : Sem Resp Stores := ⟨Ans, act⟩

/-- A program; it fails with the text that the user is shown. -/
abbrev Work (α : Type) := Prog Resp String α

namespace Work

def request (o : Op) : Work (Resp o) := .ask o .ret

/-- Go on, or fail with a text. -/
def orFail {ε α : Type} (r : Except ε α) (message : ε → String) : Work α :=
  match r with
  | .ok a => .ret a
  | .error e => .fail (message e)

def check (b : Bool) (message : String) : Work Unit :=
  if b then .ret () else .fail message

end Work

/-! ## The identity service -/

structure User where
  username : String
  email : String
  fullname : Option String
deriving DecidableEq

inductive RegisterUserError
  | redis (message : String)
  | usernameTaken
  | invalidUsername (message : String)
  | invalidEmail (message : String)
deriving DecidableEq

def RegisterUserError.status : RegisterUserError → Status
  | usernameTaken => .shown "Username already taken"
  | invalidUsername message => .shown s!"Invalid username: {message}"
  | invalidEmail message => .shown s!"Invalid email: {message}"
  | redis _ => .internal

/-- What is done once the script has run. -/
def registered (region : RegionId) (username email : String) (fullname : Option String) :
    Except String ℕ → Work (Except RegisterUserError User)
  | .error m => pure (.error (.redis m))
  | .ok (_ + 1) => pure (.error .usernameTaken)
  | .ok 0 =>
    match fullname with
    | none => pure (.ok ⟨username, email, none⟩)
    | some name => do
      match ← Work.request (.setFullname region username name) with
      | .error m => pure (.error (.redis m))
      | .ok _ => pure (.ok ⟨username, email, some name⟩)

/-- Register a user in the user database of a region. -/
def register (region : RegionId) (username email : String) (fullname : Option String) :
    Work (Except RegisterUserError User) :=
  match Udb.validateUsername username with
  | .error m => pure (.error (.invalidUsername m))
  | .ok _ =>
    match Udb.validateEmail email with
    | .error m => pure (.error (.invalidEmail m))
    | .ok _ => do
      let code ← Work.request (.register region username email)
      registered region username email fullname code

/-- Store the key of a user.  Any error comes to the same. -/
def addCredential (env : Env) (region : RegionId) (username : String)
    (outcome : RegistrationOutcome) : Work (Except Unit Unit) :=
  match env.fingerprint outcome.opensshKey with
  | none => pure (.error ())
  | some fingerprint => do
    match ← Work.request (.addPubkey region username fingerprint) with
    | .error _ => pure (.error ())
    | .ok _ =>
      match ← Work.request (.setCredential region username fingerprint
        ⟨outcome.opensshKey, outcome.credentialId, outcome.signCount⟩) with
      | .error _ => pure (.error ())
      | .ok _ => pure (.ok ())

/-- What is done once a user is registered: the key is stored and a token is signed. -/
def welcome (env : Env) (region : RegionId) (username : String) (outcome : RegistrationOutcome) :
    Except RegisterUserError User → Work (Except Status User)
  | .error e => pure (.error e.status)
  | .ok user => do
    match ← addCredential env region username outcome with
    | .error _ => pure (.error .internal)
    | .ok _ => pure (if env.signs region then .ok user else .error .internal)

namespace Ias

def signup (env : Env) (region : RegionId) (username email : String) (fullname : Option String)
    (proof : Proof) : Work (Except Status User) := do
  let now ← Work.request .now
  match env.verify region proof username now with
  | .error status => pure (.error status)
  | .ok outcome =>
    let user ← register region username email fullname
    welcome env region username outcome user

/-- The answer to a script that makes an organization. -/
def orgStatus : Except String ℕ → Except Status Unit
  | .ok 0 => .ok ()
  | .ok 2 => .error (.shown "User not found")
  | .ok _ => .error (.shown "Name already taken")
  | .error _ => .error .internal

def createOrg (region : RegionId) (name creator : String) : Work (Except Status Unit) :=
  match Udb.validateOrgname name with
  | .error m => pure (.error (.shown s!"Invalid name: {m}"))
  | .ok _ => do
    let code ← Work.request (.createOrg region name creator)
    pure (orgStatus code)

end Ias

/-! ## The edge -/

/-- A call of the identity service. -/
def rpc {α : Type} (region : RegionId) (service : Work (Except Status α)) : Work α := do
  let sent ← Work.request (.send region)
  Work.orFail sent fun _ => internalError
  let result ← service
  let received ← Work.request (.receive region)
  Work.orFail received fun _ => internalError
  Work.orFail result mapIasStatus

/-- The user who makes a request, and the region of that user. -/
structure AuthenticatedUser where
  username : String
  homeRegion : RegionId
deriving DecidableEq

def checkAuth (auth : Option AuthenticatedUser) : Work AuthenticatedUser :=
  match auth with
  | some user => .ret user
  | none => .fail "Not authenticated"

def parseRegionArg (env : Env) (requested : String) : Except String RegionId :=
  match RegionId.parse requested.toList with
  | .error _ => .error "Invalid region"
  | .ok region => if region ∈ env.availableRegions then .ok region else .error "Invalid region"

def homeRegionForOrg (org : OrgId) : Work RegionId := do
  match ← Work.request (.lookupOrg org) with
  | .error _ => .fail internalError
  | .ok none => .fail "Organization not found"
  | .ok (some region) => pure region

def reserveMessage (taken : String) : ReserveError → String
  | .nameTaken => taken
  | .other _ => internalError

def connectIas (region : RegionId) : Work Unit := do
  let connected ← Work.request (.connectIas region)
  Work.orFail connected fun _ => internalError

/-- What is done once the name of a user is claimed. -/
def signupReserved (env : Env) (username email : String) (proof : Json) (region : RegionId)
    (fullname : Option String) : Work User := do
  let proof ← Work.orFail (proofFromJson env proof) id
  connectIas region
  rpc region (Ias.signup env region username email (fullname.filter (· ≠ "")) proof)

def signup (env : Env) (username email : String) (proof : Json) (region : String)
    (fullname : Option String) : Work User := do
  Work.check (usernameRegex username) "Invalid username"
  Work.check (isValidEmail email) "Invalid email"
  let region ← Work.orFail (parseRegionArg env region) id
  let org ← Work.orFail (OrgId.parse username.toList) fun _ => "Invalid username"
  let reserved ← Work.request (.reserveOrg org region)
  Work.orFail reserved (reserveMessage "Username already taken")
  signupReserved env username email proof region fullname

/-- The region that is asked for, or a default one. -/
def chosenRegion (env : Env) (region : Option String) (default : RegionId) :
    Except String RegionId :=
  match region with
  | some requested => parseRegionArg env requested
  | none => .ok default

/-- What is done once the name of an organization is claimed. -/
def createOrganizationReserved (auth : AuthenticatedUser) (org : OrgId) (region : RegionId) :
    Work OrgId := do
  connectIas region
  rpc region (Ias.createOrg region org.str auth.username)
  pure org

def createOrganization (env : Env) (auth : Option AuthenticatedUser) (name : String)
    (region : Option String) : Work OrgId := do
  let auth ← checkAuth auth
  Work.check (usernameRegex name) "Invalid organization name"
  let region ← Work.orFail (chosenRegion env region auth.homeRegion) id
  let org ← Work.orFail (OrgId.parse name.toList) fun _ => "Invalid organization name"
  let reserved ← Work.request (.reserveOrg org region)
  Work.orFail reserved (reserveMessage "Name already taken")
  createOrganizationReserved auth org region

/-- Members of an organization may create repositories, and everybody in their own name. -/
def checkMember (auth : AuthenticatedUser) (organization : String) (orgRegion : RegionId) :
    Work Unit :=
  if organization ≠ auth.username then do
    connectIas orgRegion
    let isMember ← rpc orgRegion do
      match ← Work.request (.orgContainsMember orgRegion organization auth.username) with
      | .error _ => pure (.error .internal)
      | .ok b => pure (.ok b)
    Work.check isMember "Permission denied"
  else pure ()

/-- What is done once the name of a repository is claimed. -/
def createRepositoryReserved (qid : RepoQid) (region : RegionId) : Work RepoQid := do
  let connected ← Work.request (.connectCdb region)
  Work.orFail connected fun _ => internalError
  match ← Work.request (.findRepository region qid) with
  | .error _ => .fail internalError
  | .ok true => .fail "Repository already exists"
  | .ok false =>
    let written ← Work.request (.setRepository region qid)
    Work.orFail written fun _ => internalError
    pure qid

def createRepository (env : Env) (auth : Option AuthenticatedUser)
    (organization repository : String) (region : Option String) : Work RepoQid := do
  let auth ← checkAuth auth
  let org ← Work.orFail (OrgId.parse organization.toList) fun _ => "Invalid organization name"
  let repo ← Work.orFail (RepoId.parse repository.toList) fun _ => "Invalid repository name"
  let orgRegion ← homeRegionForOrg org
  let region ← Work.orFail (chosenRegion env region orgRegion) id
  checkMember auth organization orgRegion
  Work.check (usernameRegex repository) "Invalid repository name"
  let reserved ← Work.request (.reserveRepo ⟨org, repo⟩ region)
  Work.orFail reserved (reserveMessage "Repository already exists")
  createRepositoryReserved ⟨org, repo⟩ region

inductive Call
  | signup (username email : String) (proof : Json) (region : String) (fullname : Option String)
  | createOrganization (auth : Option AuthenticatedUser) (name : String) (region : Option String)
  | createRepository (auth : Option AuthenticatedUser) (organization repository : String)
      (region : Option String)

def body (env : Env) : Call → Work Unit
  | .signup username email proof region fullname => do
    let _ ← signup env username email proof region fullname
    pure ()
  | .createOrganization auth name region => do
    let _ ← createOrganization env auth name region
    pure ()
  | .createRepository auth organization repository region => do
    let _ ← createRepository env auth organization repository region
    pure ()

/-- Any number of requests at the same time. -/
def api (env : Env) : Machine Resp String Stores Call Empty where
  sem := sem
  body := body env
  outside := nofun

/-! ## What the edge accepts, the store accepts -/

theorem validateUsername_of_regex {name : String} (h : usernameRegex name = true) :
    Udb.validateUsername name = .ok () ∧ Udb.validateOrgname name = .ok () := by
  rw [usernameRegex, Bool.and_eq_true, Bool.and_eq_true, decide_eq_true_eq] at h
  have hne : name.toList ≠ [] := by
    intro hnil
    rw [hnil] at h
    exact absurd h.1.1 (by decide)
  have hcolon : ':' ∉ name.toList := by
    intro hmem
    have hbad := List.all_eq_true.1 h.2 ':' hmem
    exact absurd hbad (by decide)
  rw [Udb.validateUsername, Udb.validateOrgname, if_neg hne, if_neg hne, if_neg hcolon,
    if_neg hcolon]
  exact ⟨rfl, rfl⟩

theorem validateEmail_of_isValidEmail {email : String} (h : isValidEmail email = true) :
    Udb.validateEmail email = .ok () := by
  rw [isValidEmail] at h
  rw [Udb.validateEmail]
  cases hsplit : splitOnce ['@'] email.toList with
  | none =>
    rw [hsplit] at h
    cases h
  | some p =>
  obtain ⟨localPart, domain⟩ := p
  rw [hsplit] at h
  dsimp only at h ⊢
  split at h
  · cases h
  next hparts =>
  split at h
  · cases h
  cases hdot : rsplitOnce ['.'] domain with
  | none =>
    rw [hdot] at h
    cases h
  | some q =>
  have hmem : '.' ∈ domain := by
    rw [eq_of_rsplitOnce hdot]
    exact List.mem_append_left _ (List.mem_append_right _ List.mem_cons_self)
  rw [not_or] at hparts
  rw [if_neg hparts.1, if_neg (not_or.2 ⟨hparts.2, not_not.2 hmem⟩)]

end Skyr.Api
