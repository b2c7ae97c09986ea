import Skyr.Lib.Threads
import Skyr.De.Worker
import Skyr.Rte.Ownership

/-!
# Everything at once

The parts put together.  Any number of jobs are in progress at the same time: iterations of
deployment engine workers, pushes and requests that make a deployment desired, teardowns of
environments, deletions of refs.  Each of them is a program, and at every turn one of them sends
one statement or message; a process may die at any point.  So it is with the handlers of the
transition engines: a worker takes a message from a queue and handles it request by request.

The queues keep the order of the messages of one resource and nothing else, and a message may stay
in them for as long as it likes.  A message is gone when its worker is done with it and has
acknowledged it; otherwise it goes back to the front, and what the worker has done by then is done.
No two workers handle messages of one resource at the same time (`Site.apart`).

What a deployment engine worker remembers from one iteration to the next is not tracked: an
iteration may begin with any memory.
-/

namespace Skyr

variable [SclData]

/-! ## The jobs -/

inductive Job
  | iterate (fuel : ℕ) (wk : De.Worker)
  /-- A push or an API request for a deployment. -/
  | makeDesired (q : DeploymentQid)
  | tearDown (env : EnvironmentQid)
  /-- A ref that pointed to `oldCommit` is deleted. -/
  | deleteRef (env : EnvironmentQid) (oldCommit : ObjId)

namespace Job

/-- The program that carries out a job. -/
def body : Job → M Unit
  | iterate fuel wk => De.workAndReport fuel wk >>= fun _ => pure ()
  | makeDesired q => Cdb.DeploymentClient.makeDesired q
  | tearDown env => Cdb.tearDownEnvironment env
  | deleteRef env oldCommit => Cdb.deleteRef env oldCommit

end Job

/-! ## The transition engines -/

/-- A message that is being handled. -/
structure Handler where
  region : RegionId
  message : Message
  rest : M Unit
  handles : rest.issues Rte.Handles

/-- The lane of a message: its queue and its resource. -/
def laneOf (e : RegionId × Message) : RegionId × ResourceRef := (e.1, e.2.resource)

namespace Handler

/-- The message, with the region of its queue. -/
def entry (h : Handler) : RegionId × Message := (h.region, h.message)

def lane (h : Handler) : RegionId × ResourceRef := laneOf h.entry

/-- A worker begins with a message.  `plugins` are the plugins of each region. -/
def start (plugins : RegionId → List ModuleId) (e : RegionId × Message) : Handler where
  region := e.1
  message := e.2
  rest := Rte.workerLoopIteration ⟨e.1, plugins e.1⟩ e.2
  handles := Rte.workerLoopIteration_handles _ _

/-- One turn of the worker. -/
def step (t : World.sem.Turn) (h : Handler) (w : World) : Handler × World :=
  ({ h with rest := (h.rest.step World.sem t w).1, handles := Prog.issues_step _ h.handles t w },
    (h.rest.step World.sem t w).2)

end Handler

/-- The surroundings of the engines, and the messages that are being handled. -/
structure Site extends World where
  handlers : List Handler
  apart : (handlers.map Handler.lane).Nodup

/-- Nothing is being handled yet. -/
def World.site (w : World) : Site := ⟨w, [], List.nodup_nil⟩

/-- What happens to the queues. -/
inductive Handling
  | take (position : ℕ)
  /-- The worker of the `i`-th message that is being handled takes a turn. -/
  | turn (i : ℕ) (t : World.sem.Turn)
  /-- The worker of the `i`-th message is done with it, or dies. -/
  | leave (i : ℕ) (acked : Bool)

namespace Site

variable (plugins : RegionId → List ModuleId)

/-- A message of the lane is being handled, or further to the front. -/
def waits (s : Site) (position : ℕ) (lane : RegionId × ResourceRef) : Prop :=
  lane ∈ s.handlers.map Handler.lane ∨ lane ∈ (s.rtq.take position).map laneOf

instance (s : Site) (position : ℕ) (lane : RegionId × ResourceRef) :
    Decidable (s.waits position lane) :=
  inferInstanceAs (Decidable (_ ∨ _))

/-- A worker takes a message, unless the message has to wait. -/
def take (position : ℕ) (s : Site) : Site :=
  match s.rtq[position]? with
  | none => s
  | some e =>
    if h : s.waits position (laneOf e) then s
    else
      { s with
        rtq := s.rtq.eraseIdx position
        handlers := s.handlers ++ [.start plugins e]
        apart := by
          rw [List.map_append, List.map_singleton, ← List.concat_eq_append, List.nodup_concat]
          exact ⟨fun hmem => h (.inl hmem), s.apart⟩ }

def turn (i : ℕ) (t : World.sem.Turn) (s : Site) : Site :=
  match h : s.handlers[i]? with
  | none => s
  | some handler =>
    { toWorld := (handler.step t s.toWorld).2
      handlers := s.handlers.set i (handler.step t s.toWorld).1
      apart := by
        have hlane : (s.handlers.map Handler.lane)[i]? = some (handler.step t s.toWorld).1.lane := by
          rw [List.getElem?_map, h]
          rfl
        obtain ⟨hi, hlane⟩ := List.getElem?_eq_some_iff.1 hlane
        rw [List.map_set, ← hlane, List.set_getElem_self hi]
        exact s.apart }

def leave (i : ℕ) (acked : Bool) (s : Site) : Site :=
  match s.handlers[i]? with
  | none => s
  | some handler =>
    { s with
      rtq := if acked then s.rtq else handler.entry :: s.rtq
      handlers := s.handlers.eraseIdx i
      apart := s.apart.sublist ((List.eraseIdx_sublist _ _).map _) }

def handle : Handling → Site → Site
  | .take position => take plugins position
  | .turn i t => turn i t
  | .leave i acked => leave i acked

/-- The jobs act on the surroundings. -/
def sem : Sem Resp Site where
  Ans := Ans
  act o a s := ((World.act o a s.toWorld).1, { s with toWorld := (World.act o a s.toWorld).2 })

end Site

/-- The engines, the git server and the API, over the databases and queues they share. -/
def cluster (plugins : RegionId → List ModuleId) : Machine Resp String Site Job Handling where
  sem := Site.sem
  body := Job.body
  outside := Site.handle plugins

/-! ## What a handler leaves alone -/

section Handle

variable {plugins : RegionId → List ModuleId}

/-- A handler neither publishes nor touches the configuration database. -/
theorem Handler.step_leaves (t : World.sem.Turn) (h : Handler) (w : World) :
    (h.step t w).2.cdb = w.cdb ∧ (h.step t w).2.rtq = w.rtq := by
  obtain ⟨region, m, rest, handles⟩ := h
  cases rest with
  | ret | fail | choose => exact ⟨rfl, rfl⟩
  | ask o k =>
  cases o with
  | cdb | enqueue => exact handles.1.elim
  | _ => exact ⟨rfl, rfl⟩

namespace Site

variable (s : Site)

theorem turn_cdb (i : ℕ) (t : World.sem.Turn) : (s.turn i t).cdb = s.cdb := by
  rw [turn]
  split
  · rfl
  · exact (Handler.step_leaves ..).1

@[simp] theorem handle_cdb (e : Handling) : (s.handle plugins e).cdb = s.cdb := by
  cases e with
  | take position =>
    change (s.take plugins position).cdb = s.cdb
    rw [take]
    split
    · rfl
    · split <;> rfl
  | turn i t => exact s.turn_cdb i t
  | leave i acked =>
  change (s.leave i acked).cdb = s.cdb
  rw [leave]
  split <;> rfl

end Site

end Handle

/-- A cooperative turn of a job. -/
def Site.calm : Site.sem.Turn := ⟨Skyr.calm.ans, Skyr.calm.flip⟩

end Skyr
