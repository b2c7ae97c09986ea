import Skyr.Api.Naming

/-!
# Names that are claimed and not used

A request *holds* a name from when it has claimed it until it has had the entity made in its
region (`holds`, read off the log of the request).  If it ends in between, the name is lost: the
global name database says that it is taken, and there is nothing of that name.

When every request that holds a name is served (`Served`) and not cut short, that does not happen
(`names_kept`): in every state of every run each name that is claimed has its user, organization or
repository, or the request that claimed it is still at work.  The argument has two parts.  The
stores are followed step by step (`Kept`): that the script of the region refuses a name which was
free in the global database is impossible, since all names in a region have been claimed, and what
was claimed by another request is another name.  And the programs are followed to their end
(`ends_body`): a request that holds a name and has been served well so far goes on.
-/

namespace Skyr.Api

open Udb.Store

open List Function Prog

abbrev Log := Prog.Log Resp

/-! ## Holding a name -/

/-- A name that was claimed, and the region of it. -/
inductive Claim
  | org (org : OrgId) (region : RegionId)
  | repo (qid : RepoQid) (region : RegionId)
deriving DecidableEq

/-- The name that a request holds after a log: it was claimed, and what is to be made of it has
not been attempted yet, nor found to exist. -/
def holds : Log → Option Claim
  | [] => none
  | ⟨.reserveOrg org region, .ok _⟩ :: _ => some (.org org region)
  | ⟨.reserveRepo qid region, .ok _⟩ :: _ => some (.repo qid region)
  | ⟨.register .., _⟩ :: _ => none
  | ⟨.createOrg .., _⟩ :: _ => none
  | ⟨.setRepository .., _⟩ :: _ => none
  | ⟨.findRepository .., .ok true⟩ :: _ => none
  | _ :: l => holds l

namespace Call

/-- The proof is one as far as its form goes; other requests have none. -/
def proofParses (env : Env) : Call → Bool
  | signup _ _ proof _ _ => (proofFromJson env proof).isOk
  | _ => true

/-- The proof is valid at this time; other requests have none. -/
def proofVerifies (env : Env) (now : ℕ) : Call → Bool
  | signup username _ proof region _ =>
    match proofFromJson env proof, parseRegionArg env region with
    | .ok proof, .ok region => (env.verify region proof username now).isOk
    | _, _ => false
  | _ => true

end Call

/-- Nothing has gone wrong since the name was claimed. -/
def smooth (env : Env) (call : Call) : Log → Bool
  | [] => true
  | ⟨.reserveOrg .., _⟩ :: _ => call.proofParses env
  | ⟨.reserveRepo .., _⟩ :: _ => true
  | ⟨.connectIas _, r⟩ :: l => r.isOk && smooth env call l
  | ⟨.connectCdb _, r⟩ :: l => r.isOk && smooth env call l
  | ⟨.send _, r⟩ :: l => r.isOk && smooth env call l
  | ⟨.findRepository .., r⟩ :: l => r.isOk && smooth env call l
  | ⟨.now, t⟩ :: l => call.proofVerifies env t && smooth env call l
  | _ :: l => smooth env call l

/-- What a request may ask after a log: it claims a name only if it holds none, and has made only
what it holds the name of. -/
def Next (l : Log) : Op → Prop
  | .reserveOrg .. | .reserveRepo .. => holds l = none
  | .register region username _ => holds l = some (.org ⟨username⟩ region)
  | .createOrg region name _ => holds l = some (.org ⟨name⟩ region)
  | .findRepository region qid | .setRepository region qid => holds l = some (.repo qid region)
  | _ => True

/-- A request does not end holding a name, unless something has gone wrong. -/
def Ends (env : Env) (call : Call) {α : Type} (_ : Except String α) (l : Log) : Prop :=
  holds l ≠ none → smooth env call l = false

/-! ## What a request asks, and how it ends -/

section Ends

variable {env : Env} {call : Call} {α : Type} {l : Log} {region : RegionId}

/-- Where no name is held, any end will do. -/
theorem ends_of_holds_none {r : Except String α} (h : holds l = none) : Ends env call r l :=
  fun hne => absurd h hne

/-- Requests that neither need nor end the hold on a name. -/
def Harmless : Op → Prop
  | .lookupOrg _ | .connectIas _ | .send _ | .receive _ | .orgContainsMember .. => True
  | .setFullname .. | .addPubkey .. | .setCredential .. => True
  | _ => False

variable {o : Op}

theorem holds_harmless (ho : Harmless o) (r : Resp o) : holds (⟨o, r⟩ :: l) = holds l := by
  cases o <;> first | exact ho.elim | rfl

theorem next_harmless (ho : Harmless o) : Next l o := by
  cases o <;> first | exact ho.elim | trivial

variable {p : Work α}

/-- A program that only makes such requests goes on holding no name. -/
theorem obeys_harmless (hp : p.issues Harmless) (hl : holds l = none) :
    p.obeys Next (fun _ l' => holds l' = none) l := by
  induction p generalizing l with
  | ret | fail => exact hl
  | choose k ih => exact fun b => ih b (hp b) hl
  | ask o k ih =>
    exact ⟨next_harmless hp.1, fun r _ => ih r (hp.2 r) ((holds_harmless hp.1 r).trans hl)⟩

variable {A : Op → Prop}

theorem issues_orFail {ε : Type} (r : Except ε α) (message : ε → String) :
    (Work.orFail r message).issues A := by
  cases r <;> trivial

theorem issues_check (b : Bool) (message : String) : (Work.check b message).issues A := by
  cases b <;> trivial

theorem issues_request (ho : A o) : (Work.request o).issues A :=
  ⟨ho, fun _ => trivial⟩

theorem issues_connectIas : (connectIas region).issues Harmless :=
  issues_bind (issues_request trivial) fun _ => issues_orFail _ _

theorem issues_rpc {service : Work (Except Status α)} (h : service.issues Harmless) :
    (rpc region service).issues Harmless :=
  issues_bind (issues_request trivial) fun _ => issues_bind (issues_orFail _ _) fun _ =>
    issues_bind h fun _ => issues_bind (issues_request trivial) fun _ =>
      issues_bind (issues_orFail _ _) fun _ => issues_orFail _ _

/-! ### After the script -/

theorem issues_registered (username email : String) (fullname : Option String)
    (code : Except String ℕ) :
    (registered region username email fullname code).issues Harmless := by
  cases code with
  | error m => trivial
  | ok n =>
  cases n with
  | succ n => trivial
  | zero =>
  cases fullname with
  | none => trivial
  | some name =>
  refine issues_bind (issues_request trivial) fun r => ?_
  cases r <;> trivial

theorem issues_addCredential (username : String) (outcome : RegistrationOutcome) :
    (addCredential env region username outcome).issues Harmless := by
  rw [addCredential]
  cases env.fingerprint outcome.opensshKey with
  | none => trivial
  | some fingerprint =>
  refine issues_bind (issues_request trivial) fun r => ?_
  cases r with
  | error e => trivial
  | ok _ =>
  refine issues_bind (issues_request trivial) fun r => ?_
  cases r <;> trivial

theorem issues_welcome (username : String) (outcome : RegistrationOutcome)
    (user : Except RegisterUserError User) :
    (welcome env region username outcome user).issues Harmless := by
  cases user with
  | error e => trivial
  | ok user =>
  refine issues_bind (issues_addCredential username outcome) fun r => ?_
  cases r <;> trivial

/-! ### While the name is held -/

/-- Once nothing is held, any harmless program may follow. -/
theorem ends_harmless (hp : p.issues Harmless) (hl : holds l = none) :
    p.obeys Next (Ends env call) l :=
  always_mono (obeys_harmless hp hl) fun _ _ h => ends_of_holds_none h

theorem smooth_harmless (ho : Harmless o) (r : Resp o) (h : smooth env call l = false) :
    smooth env call (⟨o, r⟩ :: l) = false := by
  cases o <;> first
    | exact ho.elim
    | exact h
    | exact Bool.and_eq_false_iff.2 (.inr h)

/-- Once something has gone wrong, it has. -/
theorem ends_spoiled (hp : p.issues Harmless) (h : smooth env call l = false) :
    p.obeys Next (Ends env call) l := by
  induction p generalizing l with
  | ret | fail => exact fun _ => h
  | choose k ih => exact fun b => ih b (hp b) h
  | ask o k ih =>
    exact ⟨next_harmless hp.1, fun r _ => ih r (hp.2 r) (smooth_harmless hp.1 r h)⟩

/-- What follows on a call of the identity service. -/
theorem issues_answer (result : Except Status α) :
    (do
      let received ← Work.request (.receive region)
      Work.orFail received fun _ => internalError
      Work.orFail result mapIasStatus : Work α).issues Harmless :=
  issues_bind (issues_request trivial) fun _ =>
    issues_bind (issues_orFail _ _) fun _ => issues_orFail _ _

theorem ends_signup_service {username email regionArg : String} {proofJson : Json}
    {fullname fullname' : Option String} {proof : Proof}
    (hname : usernameRegex username = true) (hemail : isValidEmail email = true)
    (hregion : parseRegionArg env regionArg = .ok region)
    (hproof : proofFromJson env proofJson = .ok proof)
    (hl : holds l = some (.org ⟨username⟩ region)) :
    (rpc region (Ias.signup env region username email fullname' proof)).obeys Next
      (Ends env (.signup username email proofJson regionArg fullname)) l := by
  refine ⟨trivial, fun sent _ => ?_⟩
  cases sent with
  | error e => exact fun _ => rfl
  | ok _ =>
  refine ⟨trivial, fun now _ => ?_⟩
  have hnow : ∀ l', ((Log.sem Resp).act Op.now now l').1 = now := fun _ => rfl
  dsimp only [Ias.signup]
  rw [hnow]
  dsimp only [Prog.bind]
  cases hverify : env.verify region proof username now with
  | error status =>
    have hbad : (Call.signup username email proofJson regionArg fullname).proofVerifies env now =
        false := by
      simp only [Call.proofVerifies, hproof, hregion, hverify]
      rfl
    exact ends_spoiled (issues_answer _) (Bool.and_eq_false_iff.2 (.inl hbad))
  | ok outcome =>
  obtain ⟨hvalid, -⟩ := validateUsername_of_regex hname
  dsimp only
  rw [register, hvalid, validateEmail_of_isValidEmail hemail]
  refine ⟨hl, fun code _ => ends_harmless ?_ rfl⟩
  exact issues_bind (issues_bind (issues_registered _ _ _ _)
    fun _ => issues_welcome _ _ _) fun _ => issues_answer _

theorem orgId_of_parse {name : String} {org : OrgId} (h : OrgId.parse name.toList = .ok org) :
    org = ⟨name⟩ := by
  rw [OrgId.parse] at h
  split at h
  · cases h
    rw [String.ofList_toList]
  · cases h

theorem ends_signup {username email regionArg : String} {proofJson : Json}
    {fullname : Option String} :
    (signup env username email proofJson regionArg fullname).obeys Next
      (Ends env (.signup username email proofJson regionArg fullname)) [] := by
  rw [signup]
  cases hname : usernameRegex username with
  | false => exact fun h => absurd rfl h
  | true =>
  cases hemail : isValidEmail email with
  | false => exact fun h => absurd rfl h
  | true =>
  cases hregion : parseRegionArg env regionArg with
  | error e => exact fun h => absurd rfl h
  | ok region =>
  cases horg : OrgId.parse username.toList with
  | error e => exact fun h => absurd rfl h
  | ok org =>
  obtain rfl := orgId_of_parse horg
  refine ⟨rfl, fun reserved _ => ?_⟩
  cases reserved with
  | error e => exact fun h => absurd rfl h
  | ok _ =>
  rw [signupReserved]
  cases hproof : proofFromJson env proofJson with
  | error e =>
    refine fun _ => ?_
    change (proofFromJson env proofJson).isOk = false
    rw [hproof]
    rfl
  | ok proof =>
  refine ⟨trivial, fun connected _ => ?_⟩
  cases connected with
  | error e => exact fun _ => rfl
  | ok _ => exact ends_signup_service hname hemail hregion hproof rfl

theorem ends_createOrganization {auth : Option AuthenticatedUser} {name : String}
    {regionArg : Option String} :
    (createOrganization env auth name regionArg).obeys Next
      (Ends env (.createOrganization auth name regionArg)) [] := by
  cases auth with
  | none => exact fun h => absurd rfl h
  | some user =>
  change Prog.obeys Next (Work.check (usernameRegex name) _ >>= _) _ _
  cases hname : usernameRegex name with
  | false => exact fun h => absurd rfl h
  | true =>
  cases chosenRegion env regionArg user.homeRegion with
  | error e => exact fun h => absurd rfl h
  | ok region =>
  cases horg : OrgId.parse name.toList with
  | error e => exact fun h => absurd rfl h
  | ok org =>
  obtain rfl := orgId_of_parse horg
  refine ⟨rfl, fun reserved _ => ?_⟩
  cases reserved with
  | error e => exact fun h => absurd rfl h
  | ok _ =>
  refine ⟨trivial, fun connected _ => ?_⟩
  cases connected with
  | error e => exact fun _ => rfl
  | ok _ =>
  refine ⟨trivial, fun sent _ => ?_⟩
  cases sent with
  | error e => exact fun _ => rfl
  | ok _ =>
  obtain ⟨-, hvalid⟩ := validateUsername_of_regex hname
  rw [Ias.createOrg, hvalid]
  refine ⟨rfl, fun code _ => ends_harmless ?_ rfl⟩
  exact issues_bind (issues_answer _) fun _ => trivial

theorem issues_checkMember (auth : AuthenticatedUser) (organization : String) :
    (checkMember auth organization region).issues Harmless := by
  rw [checkMember]
  split
  · refine issues_bind issues_connectIas fun _ => issues_bind (issues_rpc ?_) fun _ =>
      issues_check _ _
    refine issues_bind (issues_request trivial) fun r => ?_
    cases r <;> trivial
  · trivial

theorem ends_createRepositoryReserved {qid : RepoQid} (hl : holds l = some (.repo qid region)) :
    (createRepositoryReserved qid region).obeys Next (Ends env call) l := by
  refine ⟨trivial, fun connected _ => ?_⟩
  cases connected with
  | error e => exact fun _ => rfl
  | ok _ =>
  refine ⟨hl, fun found _ => ?_⟩
  cases found with
  | error e => exact fun _ => rfl
  | ok b =>
  cases b with
  | true => exact ends_of_holds_none rfl
  | false =>
  refine ⟨hl, fun written _ => ends_harmless (issues_bind trivial fun _ => ?_) rfl⟩
  exact issues_bind (issues_orFail _ _) fun _ => trivial

theorem ends_createRepository {auth : Option AuthenticatedUser}
    {organization repository : String} {regionArg : Option String} :
    (createRepository env auth organization repository regionArg).obeys Next
      (Ends env call) [] := by
  cases auth with
  | none => exact ends_of_holds_none rfl
  | some user =>
  change Prog.obeys Next (Work.orFail (OrgId.parse organization.toList) _ >>= _) _ _
  cases OrgId.parse organization.toList with
  | error e => exact ends_of_holds_none rfl
  | ok org =>
  cases RepoId.parse repository.toList with
  | error e => exact ends_of_holds_none rfl
  | ok repo =>
  refine ⟨trivial, fun home _ => ?_⟩
  match home with
  | .error e => exact ends_of_holds_none rfl
  | .ok none => exact ends_of_holds_none rfl
  | .ok (some orgRegion) =>
  change Prog.obeys Next (Work.orFail (chosenRegion env regionArg orgRegion) id >>= _) _ _
  cases chosenRegion env regionArg orgRegion with
  | error e => exact ends_of_holds_none rfl
  | ok region =>
  change Prog.obeys Next (checkMember user organization orgRegion >>= _) _ _
  refine always_bind.2 (always_mono
    (obeys_harmless (issues_checkMember user organization) rfl) fun r l hl => ?_)
  cases r with
  | error e => exact ends_of_holds_none hl
  | ok _ =>
  cases usernameRegex repository with
  | false => exact ends_of_holds_none hl
  | true =>
  refine ⟨hl, fun reserved _ => ?_⟩
  cases reserved with
  | error e => exact ends_of_holds_none hl
  | ok _ => exact ends_createRepositoryReserved rfl

/-- **A request that holds a name goes on as long as it is served.** -/
theorem ends_body (env : Env) (call : Call) : (body env call).obeys Next (Ends env call) [] := by
  have hignore : ∀ {β : Type} {p : Work β}, p.obeys Next (Ends env call) [] →
      (p >>= fun _ => pure ()).obeys Next (Ends env call) [] := by
    intro β p hp
    refine always_bind.2 (always_mono hp fun r l hr => ?_)
    cases r <;> exact hr
  cases call with
  | signup => exact hignore ends_signup
  | createOrganization => exact hignore ends_createOrganization
  | createRepository => exact hignore ends_createRepository

end Ends

/-! ## The condition -/

/-- A request that holds a name is served. -/
def Good (env : Env) (s : Stores) (call : Call) : (o : Op) → Ans o → Prop
  | .connectIas _, r | .connectCdb _, r | .send _, r => r.isOk = true
  | .now, t => call.proofVerifies env t = true
  | .register .., reply => reply.applied = true
  -- the region asks for a user, and users are in their home region only
  | .createOrg region _ creator, reply =>
    reply.applied = true ∧ ((s.udb region).users creator).isSome = true
  | .findRepository .., reply => reply.isDone = true
  | .setRepository .., reply => reply.applied = true
  | _, _ => True

/-- An error of the name database means that the name was not claimed. -/
def Plain (reply : Reply) : Prop := reply.isDone = true ∨ reply.applied = false

/-- A request claims a name only with a proof that is one, and is served while it holds the
name. -/
def Served (env : Env) (s : Stores) (call : Call) (l : Log) : (o : Op) → Ans o → Prop
  | .reserveOrg .., reply => Plain reply ∧ call.proofParses env = true
  | .reserveRepo .., reply => Plain reply
  | o, a => holds l ≠ none → Good env s call o a

def served (env : Env) : (api env).Conditions where
  start _ _ := True
  ask v call l o a := Served env v.state call l o a
  outside _ _ := True

/-- No request is cut short while it holds a name. -/
def Uncut (env : Env) : Pool Resp String Stores Call → List (api env).Event → Prop :=
  (api env).Spares fun _ l => holds l ≠ none

/-! ## The stores -/

/-- The stores fit together: a name that a region has was claimed, and what was claimed is there. -/
structure Stores.Consistent (s : Stores) : Prop where
  covered : ∀ region n, (s.udb region).Taken n → (s.gddb.orgs (nameHash n)).isSome = true
  orgs : ∀ k org region, s.gddb.orgs k = some (org, region) → (s.udb region).Has org.str
  repos : ∀ k qid region, s.gddb.repos k = some (qid, region) → s.cdb region qid = true

/-- What was claimed is there. -/
def Claim.Met (s : Stores) : Claim → Prop
  | .org o region => (s.udb region).Has o.str
  | .repo qid region => s.cdb region qid = true

/-- The same while requests are served. -/
structure Kept (env : Env) (v : PoolView Resp Stores Call) : Prop where
  covered : ∀ region n, (v.state.udb region).Taken n →
    (v.state.gddb.orgs (nameHash n)).isSome = true
  /-- A name that is held is claimed, and the region does not have it yet. -/
  held : ∀ tr ∈ v.traces, ∀ org region, holds tr.log = some (.org org region) →
    v.state.gddb.orgs (nameHash org.str) = some (org, region) ∧ ¬ (v.state.udb region).Taken org.str
  /-- No name is held by two requests. -/
  alone : ∀ (i j : ℕ) (a b : Trace Resp Call) (org : OrgId) (region : RegionId),
    v.traces[i]? = some a → v.traces[j]? = some b → holds a.log = some (.org org region) →
      holds b.log = some (.org org region) → i = j
  orgs : ∀ k org region, v.state.gddb.orgs k = some (org, region) →
    (v.state.udb region).Has org.str ∨ ∃ tr ∈ v.traces, holds tr.log = some (.org org region)
  repos : ∀ k qid region, v.state.gddb.repos k = some (qid, region) →
    v.state.cdb region qid = true ∨ ∃ tr ∈ v.traces, holds tr.log = some (.repo qid region)
  smooth : ∀ tr ∈ v.traces, holds tr.log ≠ none → smooth env tr.call tr.log = true

theorem Stores.Consistent.kept {s : Stores} (h : s.Consistent) (env : Env) :
    Kept env ⟨s, []⟩ where
  covered := h.covered
  held := nofun
  alone _ _ _ _ _ _ ha := nomatch ha
  orgs k org region hk := .inl (h.orgs k org region hk)
  repos k qid region hk := .inl (h.repos k qid region hk)
  smooth := nofun

/-- What was claimed is there, or the request that claimed it still holds it. -/
def Claim.Backed (v : PoolView Resp Stores Call) (c : Claim) : Prop :=
  c.Met v.state ∨ ∃ tr ∈ v.traces, holds tr.log = some c

namespace Kept

variable {env : Env} {v : PoolView Resp Stores Call} {i : ℕ} {call : Call} {l : Log}
  {e : Σ o, Resp o} {s : Stores} {running : Bool}

/-- The names of users and organizations stay claimed as they are and nothing is taken away: a
region has a new name only once the request that held it lets it go. -/
theorem carry {traces : List (Trace Resp Call)} (h : Kept env v)
    (horgs : s.gddb.orgs = v.state.gddb.orgs)
    (hrepos : ∀ k qid region, s.gddb.repos k = some (qid, region) →
      v.state.gddb.repos k = some (qid, region) ∨ Claim.Backed ⟨s, traces⟩ (.repo qid region))
    (htaken : ∀ region n, (s.udb region).Taken n → (v.state.udb region).Taken n ∨
      ∃ (i : ℕ) (b : Trace Resp Call) (region' : RegionId), v.traces[i]? = some b ∧
        holds b.log = some (.org ⟨n⟩ region') ∧
          ∀ a : Trace Resp Call, traces[i]? = some a → holds a.log = none)
    (hback : ∀ (j : ℕ) (a : Trace Resp Call) (org : OrgId) (region : RegionId),
      traces[j]? = some a → holds a.log = some (.org org region) →
        ∃ b : Trace Resp Call, v.traces[j]? = some b ∧ holds b.log = some (.org org region))
    (hstill : ∀ c, Claim.Backed v c → Claim.Backed ⟨s, traces⟩ c)
    (hsmooth : ∀ tr ∈ traces, holds tr.log ≠ none → Skyr.Api.smooth env tr.call tr.log = true) :
    Kept env ⟨s, traces⟩ := by
  refine ⟨fun region n hn => ?_, fun tr htr org region horg => ?_,
    fun j k a b org region hj hk ha hb => ?_, fun k org region hk => ?_,
    fun k qid region hk => (hrepos k qid region hk).elim
      (fun hk => hstill (.repo qid region) (h.repos k qid region hk)) id, hsmooth⟩
  · rw [horgs]
    rcases htaken region n hn with hn | ⟨i, b, region', hi, hb, -⟩
    · exact h.covered region n hn
    · rw [(h.held b (mem_of_getElem? hi) _ _ hb).1]
      rfl
  · obtain ⟨j, hj⟩ := mem_iff_getElem?.1 htr
    obtain ⟨b, hb, hbc⟩ := hback j tr org region hj horg
    obtain ⟨hrow, hfree⟩ := h.held b (mem_of_getElem? hb) org region hbc
    refine ⟨(congrFun horgs _).trans hrow, fun hn => ?_⟩
    rcases htaken region _ hn with hn | ⟨i, b', region', hi, hb', hnone⟩
    · exact hfree hn
    -- the two held one name, so they are one request
    rw [(h.held b' (mem_of_getElem? hi) _ _ hb').1] at hrow
    cases hrow
    have hji := h.alone j i b b' _ _ hb hi hbc hb'
    cases (hnone tr (hji ▸ hj)).symm.trans horg
  · obtain ⟨a', ha', hac⟩ := hback j a org region hj ha
    obtain ⟨b', hb', hbc⟩ := hback k b org region hk hb
    exact h.alone j k a' b' org region ha' hb' hac hbc
  · rw [horgs] at hk
    exact hstill (.org org region) (h.orgs k org region hk)

section

variable {b : Bool} (h : Kept env v) (hi : v.traces[i]? = some ⟨call, l, b⟩)

include h hi

/-- The same of a step of one request, which may claim a repository or let go what it made. -/
theorem moved {l' : Log} (horgs : s.gddb.orgs = v.state.gddb.orgs)
    (hrepos : ∀ k qid region, s.gddb.repos k = some (qid, region) →
      v.state.gddb.repos k = some (qid, region) ∨ holds l' = some (.repo qid region))
    (htaken : ∀ region n, (s.udb region).Taken n → (v.state.udb region).Taken n ∨
      (∃ region', holds l = some (.org ⟨n⟩ region')) ∧ holds l' = none)
    (hmet : ∀ c : Claim, c.Met v.state → c.Met s)
    (hback : ∀ org region, holds l' = some (.org org region) → holds l = some (.org org region))
    (hstill : ∀ c, holds l = some c → c.Met s ∨ holds l' = some c)
    (hsmooth : holds l' ≠ none → Skyr.Api.smooth env call l' = true) :
    Kept env ⟨s, v.traces.set i ⟨call, l', running⟩⟩ := by
  have hnew : ∀ c, holds l' = some c → Claim.Backed ⟨s, v.traces.set i ⟨call, l', running⟩⟩ c :=
    fun c hc => .inr ⟨_, mem_set_of_getElem? hi _, hc⟩
  refine h.carry horgs (fun k qid region hk => (hrepos k qid region hk).imp id (hnew _))
    (fun region n hn => ?_) (fun j a org region hj ha => ?_) (fun c hc => ?_) fun tr htr hne => ?_
  · rcases htaken region n hn with hn | ⟨⟨region', hl⟩, hnone⟩
    · exact .inl hn
    refine .inr ⟨i, _, region', hi, hl, fun a ha => ?_⟩
    rcases getElem?_set_cases ha with ⟨-, rfl⟩ | ⟨hii, -⟩
    · exact hnone
    · exact absurd rfl hii
  · rcases getElem?_set_cases hj with ⟨rfl, rfl⟩ | ⟨-, hj⟩
    · exact ⟨_, hi, hback org region ha⟩
    · exact ⟨a, hj, ha⟩
  · rcases hc with hc | hc
    · exact .inl (hmet c hc)
    rcases (exists_mem_iff_other hi).1 hc with hc | hc
    · exact .inr ((exists_mem_set_iff_other hi).2 (.inl hc))
    · exact (hstill c hc).elim .inl (hnew c)
  rcases mem_or_eq_of_mem_set htr with htr | rfl
  · exact h.smooth tr htr hne
  · exact hsmooth hne

/-- A step that leaves the claims alone and takes nothing away: the request holds what it held. -/
theorem quiet (hgddb : s.gddb = v.state.gddb)
    (htaken : ∀ region n, (s.udb region).Taken n → (v.state.udb region).Taken n)
    (hmet : ∀ c : Claim, c.Met v.state → c.Met s) {l' : Log} (hholds : holds l' = holds l)
    (hsmooth : holds l ≠ none → Skyr.Api.smooth env call l = true →
      Skyr.Api.smooth env call l' = true) :
    Kept env ⟨s, v.traces.set i ⟨call, l', running⟩⟩ := by
  refine h.moved hi (by rw [hgddb]) (fun k qid region hk => .inl (hgddb ▸ hk))
    (fun region n hn => .inl (htaken region n hn)) hmet (fun org region hl => hholds ▸ hl)
    (fun c hc => .inr (hholds.trans hc)) fun hne => ?_
  rw [hholds] at hne
  exact hsmooth hne (h.smooth _ (mem_of_getElem? hi) hne)

/-- A step that makes what the request holds the name of, or finds it made. -/
theorem made {c : Claim}
    (hl : holds l = some c) (he : holds (e :: l) = none) (hgddb : s.gddb = v.state.gddb)
    (htaken : ∀ region n, (s.udb region).Taken n →
      (v.state.udb region).Taken n ∨ ∃ region', c = .org ⟨n⟩ region')
    (hmet : ∀ c : Claim, c.Met v.state → c.Met s) (hmade : c.Met s) :
    Kept env ⟨s, v.traces.set i ⟨call, e :: l, running⟩⟩ := by
  refine h.moved hi (by rw [hgddb]) (fun k qid region hk => .inl (hgddb ▸ hk))
    (fun region n hn => (htaken region n hn).imp id fun ⟨region', hc⟩ => ⟨⟨region', hc ▸ hl⟩, he⟩)
    hmet (fun org region hc => ?_) (fun c' hc' => .inl ?_) (absurd he)
  · cases he.symm.trans hc
  · cases hl.symm.trans hc'
    exact hmade

/-- A claim of the name of a user or an organization. -/
theorem claimOrg
    (hl : holds l = none) {org : OrgId} {region : RegionId}
    (hfree : v.state.gddb.orgs (nameHash org.str) = none)
    (hproof : call.proofParses env = true) :
    Kept env ⟨v.state.withOrg org region,
      v.traces.set i ⟨call, ⟨.reserveOrg org region, .ok ()⟩ :: l, running⟩⟩ := by
  have hrow : ∀ k row, v.state.gddb.orgs k = some row → k ≠ nameHash org.str := by
    intro k row hk heq
    rw [heq, hfree] at hk
    cases hk
  have hstill : ∀ c, (∃ tr ∈ v.traces, holds tr.log = some c) →
      ∃ tr ∈ v.traces.set i ⟨call, ⟨.reserveOrg org region, .ok ()⟩ :: l, running⟩,
        holds tr.log = some c :=
    fun c hc => (exists_mem_set_iff_other hi).2
      (.inl (((exists_mem_iff_other hi).1 hc).resolve_right
        fun hl' : holds l = some c => nomatch hl.symm.trans hl'))
  refine ⟨fun region' n hn => ?_, fun tr htr org' region' horg => ?_,
    fun j k a b org' region' hj hk ha hb => ?_, fun k org' region' hk => ?_,
    fun k qid region' hk => ?_, fun tr htr hne => ?_⟩
  · have hold := h.covered region' n hn
    change (Function.update v.state.gddb.orgs (nameHash org.str) _ (nameHash n)).isSome = true
    rw [update_of_ne (hrow _ _ (Option.eq_some_of_isSome hold))]
    exact hold
  · rcases mem_or_eq_of_mem_set htr with htr | rfl
    · obtain ⟨hold, hfree'⟩ := h.held tr htr org' region' horg
      refine ⟨?_, hfree'⟩
      change Function.update v.state.gddb.orgs (nameHash org.str) _ (nameHash org'.str) = _
      rw [update_of_ne (hrow _ _ hold)]
      exact hold
    cases horg
    refine ⟨update_self _ _ _, fun hn => ?_⟩
    have hold := h.covered region org.str hn
    rw [hfree] at hold
    cases hold
  · -- whoever held the name before would have had it claimed
    have hold : ∀ (j : ℕ) (a : Trace Resp Call), v.traces[j]? = some a →
        ¬ holds a.log = some (.org org region) := by
      intro j a hj ha
      have hrow' := (h.held a (mem_of_getElem? hj) _ _ ha).1
      rw [hfree] at hrow'
      cases hrow'
    rcases getElem?_set_cases hj with ⟨hji, rfl⟩ | ⟨-, hj'⟩
    · cases ha
      rcases getElem?_set_cases hk with ⟨hki, -⟩ | ⟨-, hk'⟩
      · exact hji.trans hki.symm
      · exact absurd hb (hold k b hk')
    rcases getElem?_set_cases hk with ⟨-, rfl⟩ | ⟨-, hk'⟩
    · cases hb
      exact absurd ha (hold j a hj')
    · exact h.alone j k a b org' region' hj' hk' ha hb
  · change Function.update v.state.gddb.orgs (nameHash org.str) _ k = _ at hk
    by_cases hkey : k = nameHash org.str
    · rw [hkey, update_self] at hk
      cases hk
      exact .inr ⟨_, mem_set_of_getElem? hi _, rfl⟩
    · rw [update_of_ne hkey] at hk
      exact (h.orgs k org' region' hk).imp id (hstill _)
  · exact (h.repos k qid region' hk).imp id (hstill _)
  rcases mem_or_eq_of_mem_set htr with htr | rfl
  · exact h.smooth tr htr hne
  · exact hproof

/-- A claim of the name of a repository. -/
theorem claimRepo
    (hl : holds l = none) {qid : RepoQid} {region : RegionId} :
    Kept env ⟨v.state.withRepo qid region,
      v.traces.set i ⟨call, ⟨.reserveRepo qid region, .ok ()⟩ :: l, running⟩⟩ := by
  refine h.moved hi rfl (fun k qid' region' hk => ?_) (fun _ _ hn => .inl hn) (fun c hc => ?_)
    (fun org region' horg => ?_) (fun c hc => ?_) fun _ => rfl
  · change Function.update v.state.gddb.repos (nameHash qid.toString) _ k = _ at hk
    by_cases hkey : k = nameHash qid.toString
    · rw [hkey, update_self] at hk
      cases hk
      exact .inr rfl
    · rw [update_of_ne hkey] at hk
      exact .inl hk
  · cases c <;> exact hc
  · cases horg
  · cases hl.symm.trans hc

end

/-! ### Requests one by one -/

theorem reserve_cases {reply : Reply} {taken : Bool} {insert : Stores → Stores}
    (h : Plain reply) :
    (reserve reply taken insert s = (.ok (), insert s) ∧ taken = false) ∨
      ∃ err, reserve reply taken insert s = (.error err, s) := by
  cases reply with
  | done cut =>
    cases taken with
    | true => exact .inr ⟨_, rfl⟩
    | false => exact .inl ⟨rfl, rfl⟩
  | error applied m =>
  have happlied : applied = false := h.resolve_left nofun
  rw [happlied]
  exact .inr ⟨_, rfl⟩

variable {α : Type}

theorem onUdb_applied {reply : Reply} (h : reply.applied = true) (region : RegionId)
    (f : Udb.Store → α × Udb.Store) (s : Stores) :
    (onUdb reply region f s).2 = s.withUdb region (f (s.udb region)).2 := by
  cases reply with
  | done cut => rfl
  | error applied m => exact if_pos h

theorem onUdb_cases (reply : Reply) (region : RegionId)
    (f : Udb.Store → α × Udb.Store) (s : Stores) :
    (onUdb reply region f s).2 = s.withUdb region (f (s.udb region)).2 ∨
      (onUdb reply region f s).2 = s := by
  cases reply with
  | done cut => exact .inl rfl
  | error applied m =>
  cases applied with
  | true => exact .inl rfl
  | false => exact .inr rfl

theorem answer_state (reply : Reply) (f : Stores → α) (s : Stores) :
    (reply.answer (fun _ s => (f s, s)) s).2 = s := by
  cases reply with
  | done cut => rfl
  | error applied m => exact ite_self _

section

variable (h : Kept env v) (hi : v.traces[i]? = some ⟨call, l, true⟩)

include h hi

/-- A statement of the user database that touches no name. -/
theorem quietUdb (region : RegionId)
    {f : Udb.Store → Udb.Store} (hf : ∀ u, Udb.Store.SameNames u (f u)) (reply : Reply)
    (hholds : holds (e :: l) = holds l)
    (hsmooth : Skyr.Api.smooth env call (e :: l) = Skyr.Api.smooth env call l) :
    Kept env ⟨(onUdb reply region (fun u => ((), f u)) v.state).2,
      v.traces.set i ⟨call, e :: l, running⟩⟩ := by
  have hsmooth' : holds l ≠ none → Skyr.Api.smooth env call l = true →
      Skyr.Api.smooth env call (e :: l) = true := fun _ hl => hsmooth.trans hl
  rcases onUdb_cases reply region (fun u => ((), f u)) v.state with hs | hs
  · have hnames : ∀ r, Udb.Store.SameNames (v.state.udb r)
        ((v.state.withUdb region (f (v.state.udb region))).udb r) := by
      intro r
      change Udb.Store.SameNames (v.state.udb r) (Function.update v.state.udb region _ r)
      by_cases hr : r = region
      · rw [hr, update_self]
        exact hf _
      · rw [update_of_ne hr]
        exact ⟨rfl, rfl, rfl⟩
    rw [hs]
    refine h.quiet (s := v.state.withUdb region _) hi rfl (fun r n => ((hnames r).taken n).1)
      (fun c hc => ?_) hholds hsmooth'
    cases c with
    | org org r => exact ((hnames r).has org.str).2 hc
    | repo qid r => exact hc
  · rw [hs]
    exact h.quiet hi rfl (fun _ _ hn => hn) (fun _ hc => hc) hholds hsmooth'

/-- A request that leaves the stores as they are. -/
theorem same (hs : s = v.state)
    (hholds : holds (e :: l) = holds l)
    (hsmooth : holds l ≠ none → Skyr.Api.smooth env call l = true →
      Skyr.Api.smooth env call (e :: l) = true) :
    Kept env ⟨s, v.traces.set i ⟨call, e :: l, running⟩⟩ := by
  rw [hs]
  exact h.quiet hi rfl (fun _ _ hn => hn) (fun _ hc => hc) hholds hsmooth

/-- A script that makes what the request holds the name of. -/
theorem madeUdb {name : String}
    {region : RegionId} (hl : holds l = some (.org ⟨name⟩ region)) (he : holds (e :: l) = none)
    {u : Udb.Store} (hu : Udb.Store.Makes (v.state.udb region) u name) :
    Kept env ⟨v.state.withUdb region u, v.traces.set i ⟨call, e :: l, running⟩⟩ := by
  have hself : (v.state.withUdb region u).udb region = u := update_self _ _ _
  have hother : ∀ r, r ≠ region → (v.state.withUdb region u).udb r = v.state.udb r :=
    fun r hr => update_of_ne hr _ _
  refine h.made hi hl he rfl (fun r n hn => ?_) (fun c hc => ?_) ?_
  · by_cases hr : r = region
    · rw [hr, hself] at hn
      rw [hr]
      refine (hu.taken n hn).imp id fun heq => ⟨region, ?_⟩
      rw [heq]
    · rw [hother r hr] at hn
      exact .inl hn
  · cases c with
    | repo qid r => exact hc
    | org org r =>
    change Udb.Store.Has ((v.state.withUdb region u).udb r) org.str
    by_cases hr : r = region
    · rw [hr, hself]
      exact hu.keeps org.str (hr ▸ hc)
    · rw [hother r hr]
      exact hc
  change Udb.Store.Has ((v.state.withUdb region u).udb region) name
  rw [hself]
  exact hu.has

/-- **Every request keeps the claims in order.** -/
theorem ask {o : Op} {a : Ans o}
    (hnext : Next l o) (hserved : Served env v.state call l o a) :
    Kept env ⟨(act o a v.state).2,
      v.traces.set i ⟨call, ⟨o, (act o a v.state).1⟩ :: l, running⟩⟩ := by
  cases o with
  | lookupOrg | orgContainsMember => exact h.same hi (answer_state _ _ _) rfl fun _ hl => hl
  | receive region => exact h.same hi rfl rfl fun _ hl => hl
  | connectIas | connectCdb | send | now =>
    exact h.same hi rfl rfl fun hne hl => Bool.and_eq_true_iff.2 ⟨hserved hne, hl⟩
  | setFullname region username fullname =>
    exact h.quietUdb hi region (fun _ => sameNames_setFullname username fullname) a rfl rfl
  | addPubkey region username fingerprint =>
    exact h.quietUdb hi region (fun _ => sameNames_addPubkey username fingerprint) a rfl rfl
  | setCredential region username fingerprint credential =>
    exact h.quietUdb hi region
      (fun _ => sameNames_setCredential username fingerprint credential) a rfl rfl
  | reserveOrg org region =>
    change Kept env ⟨(reserve a (v.state.gddb.orgs (nameHash org.str)).isSome
      (·.withOrg org region) v.state).2, v.traces.set i ⟨call, ⟨.reserveOrg org region,
        (reserve a (v.state.gddb.orgs (nameHash org.str)).isSome
          (·.withOrg org region) v.state).1⟩ :: l, running⟩⟩
    rcases reserve_cases (s := v.state) hserved.1 with ⟨hr, hfree⟩ | ⟨err, hr⟩
    · rw [hr]
      exact h.claimOrg hi hnext (Option.isSome_eq_false_iff.1 hfree |> Option.isNone_iff_eq_none.1)
        hserved.2
    · rw [hr]
      exact h.same hi rfl rfl fun hne _ => absurd hnext hne
  | reserveRepo qid region =>
    change Kept env ⟨(reserve a (v.state.gddb.repos (nameHash qid.toString)).isSome
      (·.withRepo qid region) v.state).2, v.traces.set i ⟨call, ⟨.reserveRepo qid region,
        (reserve a (v.state.gddb.repos (nameHash qid.toString)).isSome
          (·.withRepo qid region) v.state).1⟩ :: l, running⟩⟩
    rcases reserve_cases (s := v.state) hserved with ⟨hr, -⟩ | ⟨err, hr⟩
    · rw [hr]
      exact h.claimRepo hi hnext
    · rw [hr]
      exact h.same hi rfl rfl fun hne _ => absurd hnext hne
  | register region username email =>
    have hne : holds l ≠ none := fun hnone => nomatch hnone.symm.trans hnext
    have hfree := (h.held _ (mem_of_getElem? hi) _ _ hnext).2
    change Kept env ⟨(onUdb a region (·.register username email) v.state).2, _⟩
    rw [onUdb_applied (hserved hne)]
    exact h.madeUdb hi hnext rfl (register_makes email hfree).2
  | createOrg region name creator =>
    have hne : holds l ≠ none := fun hnone => nomatch hnone.symm.trans hnext
    have hfree := (h.held _ (mem_of_getElem? hi) _ _ hnext).2
    change Kept env ⟨(onUdb a region (·.createOrg name creator) v.state).2, _⟩
    rw [onUdb_applied (hserved hne).1]
    exact h.madeUdb hi hnext rfl (createOrg_makes hfree (hserved hne).2).2
  | findRepository region qid =>
    have hne : holds l ≠ none := fun hnone => nomatch hnone.symm.trans hnext
    have hdone := hserved hne
    cases a with
    | error applied m => cases hdone
    | done cut =>
    change Kept env ⟨v.state, v.traces.set i
      ⟨call, ⟨.findRepository region qid, .ok (v.state.cdb region qid)⟩ :: l, running⟩⟩
    cases hfound : v.state.cdb region qid with
    | true =>
      exact h.made hi hnext rfl rfl (fun _ _ hn => .inl hn) (fun _ hc => hc) hfound
    | false => exact h.same hi rfl rfl fun _ hl => hl
  | setRepository region qid =>
  have hne : holds l ≠ none := fun hnone => nomatch hnone.symm.trans hnext
  have hs : (act (.setRepository region qid) a v.state).2 =
      v.state.withRepository region qid := by
    have happlied := hserved hne
    cases a with
    | done cut => rfl
    | error applied m => exact if_pos happlied
  rw [hs]
  refine h.made hi hnext rfl rfl (fun _ _ hn => .inl hn) (fun c hc => ?_) ?_
  · cases c with
    | org org r => exact hc
    | repo q r =>
    change Function.update v.state.cdb region _ r q = true
    by_cases hr : r = region
    · rw [hr, update_self]
      by_cases hqid : q = qid
      · rw [hqid, update_self]
      · rw [update_of_ne hqid, ← hr]
        exact hc
    · rw [update_of_ne hr]
      exact hc
  · change Function.update v.state.cdb region _ region qid = true
    rw [update_self, update_self]

end

/-- One step of the machine. -/
theorem step {v' : PoolView Resp Stores Call} (h : Kept env v)
    (hstep : (api env).Step (fun _ => Next) (served env) v v') : Kept env v' := by
  cases hstep with
  | @ask i call l o a running hi hnext hserved => exact h.ask hi hnext hserved
  | outside e => exact nomatch e
  | start c running _ =>
    refine h.carry rfl (fun _ _ _ hk => .inl hk) (fun _ _ hn => .inl hn)
      (fun j a org region hj ha => ?_)
      (fun c hc => hc.imp id fun ⟨tr, htr, hc⟩ => ⟨tr, mem_append_left _ htr, hc⟩)
      fun tr htr hne => ?_
    · rcases getElem?_concat_cases hj with hj | ⟨-, rfl⟩
      · exact ⟨a, hj, ha⟩
      · cases ha
    rcases mem_append.1 htr with htr | htr
    · exact h.smooth tr htr hne
    · rw [mem_singleton.1 htr] at hne
      exact absurd rfl hne
  | @idle i call l b running hi hb =>
    exact h.quiet hi rfl (fun _ _ hn => hn) (fun _ hc => hc) rfl fun _ hl => hl

end Kept

/-! ## Runs -/

/-- **No name is lost.**  From stores that fit together, in every run in which requests that hold
a name are served and not cut short, every name that is claimed has its user, organization or
repository in its region, or the request that claimed it is still at work on that. -/
theorem names_kept (env : Env) {s : Stores} (hs : s.Consistent) {es : List (api env).Event}
    (hserved : (api env).Meets (served env) ⟨s, []⟩ es) (huncut : Uncut env ⟨s, []⟩ es) :
    (∀ k org region, ((api env).run ⟨s, []⟩ es).state.gddb.orgs k = some (org, region) →
      (((api env).run ⟨s, []⟩ es).state.udb region).Has org.str ∨
        ∃ th ∈ ((api env).run ⟨s, []⟩ es).threads, th.running = true ∧
          holds th.log = some (.org org region)) ∧
    ∀ k qid region, ((api env).run ⟨s, []⟩ es).state.gddb.repos k = some (qid, region) →
      ((api env).run ⟨s, []⟩ es).state.cdb region qid = true ∨
        ∃ th ∈ ((api env).run ⟨s, []⟩ es).threads, th.running = true ∧
          holds th.log = some (.repo qid region) := by
  have hbody : ∀ call, (body env call).obeys Next (fun _ _ => True) [] := fun call =>
    always_mono (ends_body env call) fun _ _ _ => trivial
  have hkept : Kept env ((api env).run ⟨s, []⟩ es).view :=
    (Machine.invariant (M := api env) (P := fun _ => Next) hbody (fun _ _ h hstep => h.step hstep)
      (fun _ hth => absurd hth not_mem_nil) (hs.kept env) hserved).1
  have hfinishes : Machine.Finishes (fun _ => Next) (fun call => Ends env call)
      ((api env).run ⟨s, []⟩ es) :=
    Machine.Finishes.run (M := api env) (ends_body env)
      (fun c err l hl hne => absurd hne hl) (fun _ hth => absurd hth not_mem_nil) huncut
  -- a request that holds a name has not come to its end
  have hrunning : ∀ th ∈ ((api env).run ⟨s, []⟩ es).threads, holds th.log ≠ none →
      th.running = true := by
    intro th hth hne
    have hsmooth := hkept.smooth th.trace (mem_map_of_mem hth) hne
    have hend := hfinishes th hth
    obtain ⟨call, l, p⟩ := th
    cases p with
    | ret | fail => exact absurd (hsmooth.symm.trans (hend hne)) nofun
    | ask | choose => rfl
  have hwork : ∀ c, (∃ tr ∈ ((api env).run ⟨s, []⟩ es).view.traces, holds tr.log = some c) →
      ∃ th ∈ ((api env).run ⟨s, []⟩ es).threads, th.running = true ∧ holds th.log = some c := by
    rintro c ⟨tr, htr, hc⟩
    obtain ⟨th, hth, rfl⟩ := mem_map.1 htr
    have hne : holds th.log ≠ none := fun hnone => nomatch hnone.symm.trans hc
    exact ⟨th, hth, hrunning th hth hne, hc⟩
  exact ⟨fun k org region hk => (hkept.orgs k org region hk).imp id (hwork _),
    fun k qid region hk => (hkept.repos k qid region hk).imp id (hwork _)⟩

namespace Regions

def eu : RegionId := ⟨"eu"⟩

def us : RegionId := ⟨"us"⟩

/-- Two regions; every proof is valid. -/
def env : Env where
  availableRegions := [eu, us]
  verify _ _ _ _ := .ok ⟨"ssh-ed25519 AAAA", none, 0⟩
  signs _ := true
  base64 _ := none
  fingerprint _ := some "SHA256:abc"

abbrev Events := List (api env).Event

def initial : Pool Resp String Stores Call := ⟨.empty, []⟩

/-- Everything works. -/
def calm : (o : Op) → Ans o
  | .connectIas _ | .connectCdb _ | .send _ | .receive _ => .ok ()
  | .now => (0 : ℕ)
  | .lookupOrg _ | .reserveOrg .. | .reserveRepo .. | .orgContainsMember .. => .done none
  | .register .. | .setFullname .. | .addPubkey .. | .setCredential .. => .done none
  | .createOrg .. | .findRepository .. | .setRepository .. => .done none

/-- The `i`-th request takes `n` turns. -/
def turns (i n : ℕ) : Events := List.replicate n (.turn i ⟨calm, false⟩)

def signsUp (username : String) (proof : Json) : Call :=
  .signup username (username ++ "@example.com") proof "eu" none

/-- A signature. -/
def signature : Json := .str "-----BEGIN SSH SIGNATURE-----"

def alice : AuthenticatedUser := ⟨"alice", eu⟩

/-- Alice signs up. -/
def signedUp : Events := .start (signsUp "alice" signature) :: turns 0 8

theorem consistent_empty : Stores.empty.Consistent :=
  ⟨fun _ _ h => (h.elim nofun nofun), nofun, nofun⟩

/-- The program is about to make an organization. -/
def makesOrg : Work Unit → Bool
  | .ask (.createOrg ..) _ => true
  | _ => false

theorem admits_calm {y : Pool Resp String Stores Call} {i : ℕ}
    (h : (y.threads[i]?.all fun th => th.call.proofParses env && th.call.proofVerifies env 0 &&
      !makesOrg th.prog) = true) : (api env).Admits (served env) y (.turn i ⟨calm, false⟩) := by
  intro th o k hth hprog
  rw [hth, Option.all_some, Bool.and_eq_true, Bool.and_eq_true, hprog] at h
  obtain ⟨⟨hparses, hverifies⟩, horg⟩ := h
  cases o with
  | reserveOrg => exact ⟨.inl rfl, hparses⟩
  | reserveRepo => exact .inl rfl
  | now => exact fun _ => hverifies
  | createOrg => cases horg
  | connectIas | connectCdb | send | register | findRepository | setRepository => exact fun _ => rfl
  | lookupOrg | receive | orgContainsMember | setFullname | addPubkey | setCredential =>
    exact fun _ => trivial

theorem meets_signedUp : (api env).Meets (served env) initial signedUp := by
  refine ⟨trivial, ?_, ?_, ?_, ?_, ?_, ?_, ?_, ?_, trivial⟩ <;> exact admits_calm (by decide +kernel)

theorem uncut_signedUp : Uncut env initial signedUp :=
  ⟨nofun, nofun, nofun, nofun, nofun, nofun, nofun, nofun, nofun, trivial⟩

/-- After that the name is claimed, and the user is there. -/
theorem names_kept_signedUp :
    ((api env).run initial signedUp).state.gddb.orgs (nameHash "alice") = some (⟨"alice"⟩, eu) ∧
      (((api env).run initial signedUp).state.udb eu).Has "alice" := by
  have hrow : ((api env).run initial signedUp).state.gddb.orgs (nameHash "alice") =
      some (⟨"alice"⟩, eu) := by decide +kernel
  have hkept := names_kept env consistent_empty meets_signedUp uncut_signedUp
  refine ⟨hrow, (hkept.1 _ _ _ hrow).resolve_right ?_⟩
  rintro ⟨th, hth, hrunning, -⟩
  have hall : (((api env).run initial signedUp).threads.all fun th => !th.running) = true := by
    decide +kernel
  have hth := all_eq_true.1 hall th hth
  rw [hrunning] at hth
  cases hth

/-- Alice makes an organization in another region than the home region; somebody asks for the name
of Bob without any proof; and then Bob signs up. -/
def lostNames : Events :=
  signedUp ++ .start (.createOrganization (some alice) "acme" (some "us")) :: turns 1 6 ++
    .start (signsUp "bob" (.bool true)) :: turns 2 6 ++
    .start (signsUp "bob" signature) :: turns 3 6

/-- The text with which a request has failed. -/
def failure : Work Unit → Option String
  | .fail e => some e
  | _ => none

/-- **Names are lost although everything works**: both names are claimed, nothing of that name
exists in any of the two regions, no request is in progress, and Bob is refused. -/
theorem names_lost :
    let y := (api env).run initial lostNames
    y.state.gddb.orgs (nameHash "acme") = some (⟨"acme"⟩, us) ∧
      y.state.gddb.orgs (nameHash "bob") = some (⟨"bob"⟩, eu) ∧
      (∀ region ∈ [eu, us], ∀ name ∈ ["acme", "bob"], ¬ (y.state.udb region).Has name) ∧
      (y.threads.all fun th => !th.running) = true ∧
      (y.threads.map fun th => failure th.prog) =
        [none, some "User not found",
          some "Invalid proof: expected a string (SSH signature) or object (WebAuthn payload)",
          some "Username already taken"] := by
  decide +kernel

end Regions

end Skyr.Api
