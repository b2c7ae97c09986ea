import Skyr.Re.Thresholds
import Skyr.Sdb.Store
import Skyr.World

/-!
# What the reporting engine asks for

The programs of the reporting engine work on the status database, the queue of notifications, the
routing index, and two things in memory: the failures counted so far, and when each entity was last
heard of.  A request that leaves the process may fail, with or without having been carried out.
-/

namespace Skyr.Re

/-! ## Requests -/

inductive NotificationEventType
  | opened
  | closed
deriving DecidableEq

/-- What is put on the notification queue. -/
structure NotificationRequest where
  incidentId : ℕ
  eventType : NotificationEventType
  entityQid : String
  category : IncidentCategory
  openedAt : ℕ
  closedAt : Option ℕ
  summary : Option String
deriving DecidableEq

/-- What is remembered of the last report of an entity. -/
structure HeartbeatEntry where
  lastReportAt : ℕ
  operationalState : Option String
  volatile : Bool
  watchdogOpen : Bool
deriving DecidableEq

/-- A request. -/
inductive Op
  | sdb (o : Sdb.Statement)
  | enqueue (request : NotificationRequest)
  /-- Maintain the routing index for a report about a resource; see `Re.Routing`. -/
  | maintainIndex (qid : ResourceQid) (timestamp : ℕ) (terminal : Bool)
  | recordAndCheck (entityQid : String) (category : IncidentCategory) (rule : ThresholdRule)
      (reportAt now : ℕ)
  | forgetEntity (entityQid : String)
  /-- Set or remove what is remembered of an entity. -/
  | heartbeat (entityQid : String) (entry : Option HeartbeatEntry)
  /-- Read what is remembered of all entities. -/
  | snapshot
  | markWatchdogOpen (entityQid : String)

/-- What is replied. -/
@[reducible] def Resp : Op → Type
  | .sdb o => Except String o.Result
  | .enqueue _ => Except String Unit
  | .maintainIndex .. => Except String Unit
  | .recordAndCheck .. => Bool
  | .forgetEntity _ => Unit
  | .heartbeat .. => Unit
  | .snapshot => String → Option HeartbeatEntry
  | .markWatchdogOpen _ => Unit

/-! ## The state -/

/-- The status database, the notifications published so far, and the memory of the engine. -/
structure State where
  sdb : Sdb.Store
  notifications : List NotificationRequest
  tracker : ThresholdTracker
  heartbeats : String → Option HeartbeatEntry

/-- A state with another database. -/
def State.withStore (s : State) (store : Sdb.Store) : State := { s with sdb := store }

def HeartbeatEntry.withWatchdogOpen (entry : HeartbeatEntry) : HeartbeatEntry :=
  { entry with watchdogOpen := true }

/-- A state in which other things are remembered of an entity. -/
def State.withHeartbeat (s : State) (entityQid : String) (entry : Option HeartbeatEntry) : State :=
  { s with heartbeats := Function.update s.heartbeats entityQid entry }

/-- What the surroundings decide. -/
@[reducible] def Ans : Op → Type
  | .sdb _ | .enqueue _ | .maintainIndex .. => Reply
  | .recordAndCheck .. | .forgetEntity _ | .heartbeat .. | .snapshot | .markWatchdogOpen _ => Unit

/-- What requests do. -/
def act : (o : Op) → Ans o → State → Resp o × State
  | .sdb o, reply, s =>
    reply.answer (fun _ s => ((o.exec s.sdb).1, s.withStore (o.exec s.sdb).2)) s
  | .enqueue request, reply, s =>
    reply.answer (fun _ s => ((), { s with notifications := request :: s.notifications })) s
  | .maintainIndex .., reply, s => reply.answer (fun _ s => ((), s)) s
  | .recordAndCheck e c rule reportAt now, _, s =>
    ((s.tracker.recordAndCheck e c rule reportAt now).1,
      { s with tracker := (s.tracker.recordAndCheck e c rule reportAt now).2 })
  | .forgetEntity e, _, s => ((), { s with tracker := s.tracker.forgetEntity e })
  | .heartbeat e entry, _, s => ((), s.withHeartbeat e entry)
  | .snapshot, _, s => (s.heartbeats, s)
  | .markWatchdogOpen e, _, s =>
    ((), s.withHeartbeat e ((s.heartbeats e).map HeartbeatEntry.withWatchdogOpen))

def sem : Sem Resp State := ⟨Ans, act⟩

/-- A turn in which everything is carried out. -/
def fineTurn : sem.Turn where
  ans o :=
    match o with
    | .sdb _ | .enqueue _ | .maintainIndex .. => Reply.done none
    | .recordAndCheck .. | .forgetEntity _ | .heartbeat .. | .snapshot | .markWatchdogOpen _ => ()
  flip := false

/-- A turn in which nothing is carried out. -/
def lostTurn : sem.Turn where
  ans o :=
    match o with
    | .sdb _ | .enqueue _ | .maintainIndex .. => Reply.error false "timeout"
    | .recordAndCheck .. | .forgetEntity _ | .heartbeat .. | .snapshot | .markWatchdogOpen _ => ()
  flip := false

/-! ## Programs -/

abbrev Work (α : Type) := Prog Resp String α

namespace Work

/-- A request that may fail; an error ends the program. -/
def orFail {α : Type} : Except String α → Work α
  | .ok a => .ret a
  | .error e => .fail e

/-- A statement. -/
def sdb (o : Sdb.Statement) : Work o.Result := .ask (.sdb o) orFail

def enqueue (request : NotificationRequest) : Work Unit := .ask (.enqueue request) orFail

def maintainIndex (qid : ResourceQid) (timestamp : ℕ) (terminal : Bool) : Work Unit :=
  .ask (.maintainIndex qid timestamp terminal) orFail

def recordAndCheck (entityQid : String) (category : IncidentCategory) (rule : ThresholdRule)
    (reportAt now : ℕ) : Work Bool :=
  .ask (.recordAndCheck entityQid category rule reportAt now) .ret

def forgetEntity (entityQid : String) : Work Unit := .ask (.forgetEntity entityQid) .ret

def heartbeat (entityQid : String) (entry : Option HeartbeatEntry) : Work Unit :=
  .ask (.heartbeat entityQid entry) .ret

def snapshot : Work (String → Option HeartbeatEntry) := .ask .snapshot .ret

def markWatchdogOpen (entityQid : String) : Work Unit := .ask (.markWatchdogOpen entityQid) .ret

end Work

end Skyr.Re
