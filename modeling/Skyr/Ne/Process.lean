import Skyr.Lib.Amid
import Skyr.Re.World

/-!
# The notification engine

A worker of the notification engine takes a notification from the queue, claims it in the
deduplication store, looks up the members of the organization it concerns, puts it into the batch
of each member's address, and acknowledges the delivery.  A claim that is already taken means that
the notification has been dealt with: the delivery is acknowledged and nothing else is done.

The directory of organizations and users does not change here; every lookup may fail.
-/

namespace Skyr.Ne

open Re (NotificationRequest NotificationEventType)

/-! ## Notifications -/

def asKeyStr : NotificationEventType → String
  | .opened => "opened"
  | .closed => "closed"

def idempotencyKey (q : NotificationRequest) : String :=
  toString q.incidentId ++ ":" ++ asKeyStr q.eventType

/-- The organization an entity belongs to. -/
def extractOrgId (entityQid : String) : Option String :=
  match DeploymentQid.parse entityQid.toList with
  | .ok qid => some qid.environment.repo.org.str
  | .error _ =>
    match ResourceQid.parse entityQid.toList with
    | .ok qid => some qid.environment.repo.org.str
    | .error _ => none

/-! ## The directory -/

structure Directory where
  /-- The members of an organization. -/
  orgs : String → Option (List String)
  users : String → Option String

namespace Directory

/-- The members of an organization; the name of a user stands for an organization of this user
alone. -/
def members (D : Directory) (org : String) : List String :=
  match D.orgs org with
  | some names => names
  | none => if (D.users org).isSome then [org] else []

/-- The addresses of some users, as far as they have one. -/
def emails (D : Directory) (names : List String) : List String :=
  (names.filterMap D.users).filter (· ≠ "")

/-- Where a notification belongs: the address of each member of its organization. -/
def addresses (D : Directory) (q : NotificationRequest) : List String :=
  match extractOrgId q.entityQid with
  | none => []
  | some org => D.emails (D.members org)

end Directory

/-! ## Requests -/

inductive ClaimOutcome
  | claimed
  | alreadyClaimed
deriving DecidableEq

inductive QueryError
  | notFound
  | failed (m : String)
deriving DecidableEq

inductive Op
  | tryClaim (key : String)
  | release (key : String)
  | getOrg (name : String)
  | listMembers (name : String)
  | getUser (name : String)
  /-- Put a notification into the batch of an address. -/
  | enqueue (recipient : String) (q : NotificationRequest)
  | ack (q : NotificationRequest)
  | nack (q : NotificationRequest) (requeue : Bool)

@[reducible] def Resp : Op → Type
  | .tryClaim _ => Except String ClaimOutcome
  | .release _ => Except String Unit
  | .getOrg _ => Except QueryError Unit
  | .listMembers _ => Except String (List String)
  | .getUser _ => Except QueryError String
  | .enqueue .. => Unit
  | .ack _ => Except String Unit
  | .nack .. => Except String Unit

/-- The deduplication store, everything that was ever put into a batch, and how deliveries were
settled. -/
structure State where
  claims : String → Bool
  batched : List (String × NotificationRequest)
  acked : List NotificationRequest
  deadLettered : List NotificationRequest

namespace State

def empty : State := ⟨fun _ => false, [], [], []⟩

def withClaim (s : State) (key : String) (taken : Bool) : State :=
  { s with claims := Function.update s.claims key taken }

def batch (s : State) (recipient : String) (q : NotificationRequest) : State :=
  { s with batched := (recipient, q) :: s.batched }

def settled (s : State) (q : NotificationRequest) : State := { s with acked := q :: s.acked }

def dropped (s : State) (q : NotificationRequest) (requeue : Bool) : State :=
  if requeue then s else { s with deadLettered := q :: s.deadLettered }

end State

@[reducible] def Ans : Op → Type
  | .enqueue .. => Unit
  | _ => Reply

/-- A lookup; it may fail for other reasons than that there is nothing to be found. -/
def lookup {α : Type} (reply : Reply) (found : Option α) : Except QueryError α :=
  match reply, found with
  | .done _, some a => .ok a
  | .done _, none => .error .notFound
  | .error _ m, _ => .error (.failed m)

def claim (key : String) (s : State) : ClaimOutcome × State :=
  if s.claims key then (.alreadyClaimed, s) else (.claimed, s.withClaim key true)

def act (D : Directory) : (o : Op) → Ans o → State → Resp o × State
  | .tryClaim key, reply, s => reply.answer (fun _ s => claim key s) s
  | .release key, reply, s => reply.answer (fun _ s => ((), s.withClaim key false)) s
  | .getOrg name, reply, s => (lookup reply ((D.orgs name).map fun _ => ()), s)
  | .listMembers name, reply, s => reply.answer (fun _ s => ((D.orgs name).getD [], s)) s
  | .getUser name, reply, s => (lookup reply (D.users name), s)
  | .enqueue recipient q, _, s => ((), s.batch recipient q)
  | .ack q, reply, s => reply.answer (fun _ s => ((), s.settled q)) s
  | .nack q requeue, reply, s => reply.answer (fun _ s => ((), s.dropped q requeue)) s

def sem (D : Directory) : Sem Resp State := ⟨Ans, act D⟩

/-! ## Programs -/

abbrev Work (α : Type) := Prog Resp String α

namespace Work

def tryClaim (key : String) : Work (Except String ClaimOutcome) := .ask (.tryClaim key) .ret

def release (key : String) : Work (Except String Unit) := .ask (.release key) .ret

def getOrg (name : String) : Work (Except QueryError Unit) := .ask (.getOrg name) .ret

def listMembers (name : String) : Work (Except String (List String)) :=
  .ask (.listMembers name) .ret

def getUser (name : String) : Work (Except QueryError String) := .ask (.getUser name) .ret

def enqueue (recipient : String) (q : NotificationRequest) : Work Unit :=
  .ask (.enqueue recipient q) .ret

/-- An error here ends the processing of the delivery. -/
def settle : Except String Unit → Work Unit
  | .ok _ => .ret ()
  | .error m => .fail m

def ackOrLog (q : NotificationRequest) : Work Unit := .ask (.ack q) settle

def nackOrLog (q : NotificationRequest) (requeue : Bool) : Work Unit :=
  .ask (.nack q requeue) settle

end Work

inductive ResolveError
  | invalidEntityQid
  | orgNotFound (org : String)
  | udb (m : String)
deriving DecidableEq

/-- The addresses of the members; one without a record or an address is passed over. -/
def resolveMembers : List String → List String → Work (Except ResolveError (List String))
  | [], recipients => pure (.ok recipients)
  | name :: names, recipients => do
    match ← Work.getUser name with
    | .ok email =>
      if email = "" then resolveMembers names recipients
      else resolveMembers names (recipients ++ [email])
    | .error .notFound => resolveMembers names recipients
    | .error (.failed m) => pure (.error (.udb m))

/-- Any failure to find the organization leads to the user of that name. -/
def resolveRecipients (entityQid : String) : Work (Except ResolveError (List String)) :=
  match extractOrgId entityQid with
  | none => pure (.error .invalidEntityQid)
  | some org => do
    match ← Work.getOrg org with
    | .ok _ =>
      match ← Work.listMembers org with
      | .ok names => resolveMembers names []
      | .error m => pure (.error (.udb m))
    | .error _ =>
      match ← Work.getUser org with
      | .ok _ => resolveMembers [org] []
      | .error .notFound => pure (.error (.orgNotFound org))
      | .error (.failed m) => pure (.error (.udb m))

inductive ProcessOutcome
  | enqueued
  | requeued
  | deadLettered

/-- What is done once the claim is taken. -/
def processClaimed (q : NotificationRequest) : Work ProcessOutcome := do
  match ← resolveRecipients q.entityQid with
  | .ok recipients =>
    recipients.forM fun recipient => Work.enqueue recipient q
    Work.ackOrLog q
    pure .enqueued
  | .error .invalidEntityQid =>
    Work.nackOrLog q false
    pure .deadLettered
  | .error (.orgNotFound _) =>
    Work.ackOrLog q
    pure .enqueued
  | .error (.udb _) =>
    -- an error of the release is only logged
    let _ ← Work.release (idempotencyKey q)
    Work.nackOrLog q true
    pure .requeued

def processDelivery (q : NotificationRequest) : Work ProcessOutcome := do
  match ← Work.tryClaim (idempotencyKey q) with
  | .ok .claimed => processClaimed q
  | .ok .alreadyClaimed =>
    Work.ackOrLog q
    pure .enqueued
  | .error _ =>
    Work.nackOrLog q true
    pure .requeued

/-- The workers: any number of deliveries are processed at the same time, and a claim may
expire. -/
def workers (D : Directory) : Machine Resp String State NotificationRequest String where
  sem := sem D
  body q := do
    let _ ← processDelivery q
    pure ()
  outside key s := s.withClaim key false

end Skyr.Ne
