import Skyr.Re.World

/-!
# The batches of notifications, and how the engine stops

Workers put notifications into the batch of a recipient.  A batch is due when nothing has been put
into it for a while, or when its first notification is as old as the cap.  The flusher takes the
batches that are due, and at the end all of them.  Each of these holds the lock of the state for as
long as it looks at it, so a run is a sequence of them; the times are read before the lock is taken
and may come in any order.

The workers themselves wait for a delivery or for the word to stop.  The word reaches only those that
are waiting at that moment, and when both are there it depends on which of the two is looked at
first.  It is given twice, once with the signal and once by the main task.  Sending the mails is
left out.
-/

namespace Skyr.Ne

open Re (NotificationRequest)

/-! ## Batches -/

structure BatcherConfig where
  quiet : ℕ
  cap : ℕ
  maxBatchSize : ℕ

structure Batch where
  quietDeadline : ℕ
  capDeadline : ℕ
  events : List NotificationRequest

/-- The batches by recipient, and those that were flushed, the first one first. -/
structure Batcher where
  batches : String → Option Batch
  flushed : String → List (List NotificationRequest)

inductive Batcher.Action where
  | enqueue (recipient : String) (event : NotificationRequest) (now : ℕ)
  | scan (now : ℕ)

namespace Batcher

def new : Batcher := ⟨fun _ => none, fun _ => []⟩

variable (config : BatcherConfig)

/-- Put an event into the batch of a recipient.  A batch that is full is due at once. -/
def enqueue (b : Batcher) (recipient : String) (event : NotificationRequest) (now : ℕ) : Batcher :=
  let batch := (b.batches recipient).getD ⟨now + config.quiet, now + config.cap, []⟩
  let events := batch.events ++ [event]
  { b with
    batches := Function.update b.batches recipient (some
      ⟨if config.maxBatchSize ≤ events.length then now else now + config.quiet,
        batch.capDeadline, events⟩) }

/-- Take the batches that are due and send them; an empty one is not sent. -/
def drain (b : Batcher) (due : Batch → Bool) : Batcher where
  batches r := (b.batches r).filter (!due ·)
  flushed r := b.flushed r ++
    (((b.batches r).filter due).toList.map Batch.events).filter (!·.isEmpty)

def drainDue (b : Batcher) (now : ℕ) : Batcher :=
  b.drain fun batch => batch.quietDeadline ≤ now || batch.capDeadline ≤ now

def drainAll (b : Batcher) : Batcher := b.drain fun _ => true

def step (b : Batcher) : Action → Batcher
  | .enqueue recipient event now => b.enqueue config recipient event now
  | .scan now => b.drainDue now

def run (b : Batcher) (actions : List Action) : Batcher := actions.foldl (step config) b

/-- What was put into the batches of a recipient, in this order. -/
def enqueued (r : String) (actions : List Action) : List NotificationRequest :=
  actions.flatMap fun
    | .enqueue recipient event _ => if recipient = r then [event] else []
    | .scan _ => []

/-- What was flushed to a recipient, and then what is in the batch. -/
def total (b : Batcher) (r : String) : List NotificationRequest :=
  (b.flushed r).flatten ++ (b.batches r).elim [] Batch.events

variable {config} {b : Batcher} {r : String}

theorem total_drain (due : Batch → Bool) : (b.drain due).total r = b.total r := by
  cases hb : b.batches r with
  | none => simp [total, drain, hb]
  | some batch => cases hdue : due batch <;>
      simp [total, drain, hb, Option.filter, hdue, List.flatten_filter_not_isEmpty]

theorem total_enqueue (recipient : String) (event : NotificationRequest) (now : ℕ) :
    (b.enqueue config recipient event now).total r =
      b.total r ++ if recipient = r then [event] else [] := by
  by_cases hr : recipient = r
  · subst hr
    cases hb : b.batches recipient <;> simp [total, enqueue, hb]
  · simp [total, enqueue, Function.update_of_ne (Ne.symm hr), hr]

theorem total_run (actions : List Action) :
    (b.run config actions).total r = b.total r ++ enqueued r actions := by
  induction actions generalizing b with
  | nil => simp [run, enqueued]
  | cons a actions ih =>
  have hstep : (b.step config a).total r = b.total r ++ enqueued r [a] := by
    cases a with
    | enqueue recipient event now => simp [step, total_enqueue, enqueued]
    | scan now => simp [step, drainDue, total_drain, enqueued]
  have hrun := ih (b := b.step config a)
  rw [hstep, List.append_assoc] at hrun
  simpa [run, enqueued] using hrun

/-- **Whatever is put in and however often the flusher looks, at the end every notification has been
flushed to its recipient once and in order.  A look at or after the cap of a batch takes the batch,
and putting more into it does not move its cap.** -/
theorem flushed_once (config : BatcherConfig) (actions : List Action) :
    (∀ r, (((new.run config actions).drainAll).flushed r).flatten = enqueued r actions) ∧
      ∀ r batch, (new.run config actions).batches r = some batch →
        (∀ now, batch.capDeadline ≤ now →
          ((new.run config actions).drainDue now).batches r = none) ∧
        ∀ recipient event now,
          (((new.run config actions).enqueue config recipient event now).batches
          r).map Batch.capDeadline = some batch.capDeadline := by
  refine ⟨fun r => ?_, fun r batch hb => ⟨fun now hcap => ?_, fun recipient event now => ?_⟩⟩
  · have hrun : ((new.run config actions).drainAll).total r = new.total r ++ enqueued r actions :=
      (total_drain _).trans (total_run actions)
    simpa [total, new, drainAll, drain] using hrun
  · simp [drainDue, drain, hb, hcap, Option.filter]
  by_cases hr : r = recipient
  · simp [enqueue, ← hr, hb]
  · simp [enqueue, hr, hb]

/-- A notification, given the time it was requested at. -/
def notice (at_ : ℕ) : NotificationRequest := ⟨at_, .opened, "", .crash, 0, none, none⟩

/-- Three notifications for two recipients. -/
def notices : List Action :=
  [.enqueue "a" (notice 0) 0, .enqueue "b" (notice 1) 8, .enqueue "a" (notice 2) 9]

/-- The second one for `a` pushes the quiet deadline back to 19, past the cap at 15. -/
theorem flushed_at_cap :
    (((new.run ⟨10, 15, 5⟩ notices).batches "a").map Batch.quietDeadline) = some 19 ∧
      ((new.run ⟨10, 15, 5⟩ notices).drainDue 15).batches "a" = none ∧
      (((new.run ⟨10, 15, 5⟩ notices).drainDue 15).batches "b").isSome :=
  ⟨by decide, ((flushed_once ⟨10, 15, 5⟩ notices).2 "a" _ rfl).1 15 (by decide), by decide⟩

end Batcher

/-! ## Workers and the word to stop -/

/-- Where a worker is in its loop: before it waits, waiting (with the word to stop or without it),
at work on a delivery, or done. -/
inductive WorkerPhase
  | between
  | waiting (notified : Bool)
  | processing
  | stopped
deriving DecidableEq

/-- What `notify_waiters` does: the word is lost on whoever is not waiting. -/
def WorkerPhase.notify : WorkerPhase → WorkerPhase
  | .waiting _ => .waiting true
  | p => p

/-- Whether the next word will be heard, or is not needed any more. -/
def WorkerPhase.Listening (p : WorkerPhase) : Prop := p = .stopped ∨ ∃ notified, p = .waiting notified

theorem WorkerPhase.Listening.notify {p : WorkerPhase} (h : p.Listening) :
    p.notify = .waiting true ∨ p.notify = .stopped := by
  rcases h with rfl | ⟨_, rfl⟩
  · exact .inr rfl
  · exact .inl rfl

/-- The workers, how many deliveries the broker has handed to each and it has not taken yet, the
task that started them, whether the signal was delivered, and which workers have taken a delivery
since. -/
structure Engine (ι : Type) where
  workers : ι → WorkerPhase
  queue : ι → ℕ
  main : WorkerPhase
  signalled : Bool
  late : ι → Bool

namespace Engine

variable {ι : Type} [DecidableEq ι]

inductive Action (ι : Type)
  | signal
  /-- The main task waits for the word, or for a worker that has stopped. -/
  | listen
  /-- The main task passes the word on. -/
  | drain
  | arrive (i : ι)
  | wait (i : ι)
  /-- A waiting worker looks at the two things it waits for, in one or the other order. -/
  | poll (i : ι) (wordFirst : Bool)
  | finish (i : ι)
  /-- The consumer of a worker is closed or fails. -/
  | close (i : ι)

def start : Engine ι := ⟨fun _ => .between, fun _ => 0, .between, false, fun _ => false⟩

def set (x : Engine ι) (i : ι) (p : WorkerPhase) : Engine ι :=
  { x with workers := Function.update x.workers i p }

/-- What can happen next.  A worker that has got the word may still take a delivery, if it looks at
the deliveries first. -/
inductive Step (x : Engine ι) : Action ι → Engine ι → Prop
  | signal : x.Step .signal
      { x with workers := fun i => (x.workers i).notify, main := x.main.notify, signalled := true }
  | listen : x.main = .between → x.Step .listen { x with main := .waiting false }
  | drain (h : x.main = .waiting true ∨ x.main = .waiting false ∧ ∃ i, x.workers i = .stopped) :
      x.Step .drain { x with workers := fun i => (x.workers i).notify, main := .stopped }
  | arrive {i : ι} : x.Step (.arrive i)
      { x with queue := Function.update x.queue i (x.queue i + 1) }
  | wait {i : ι} : x.workers i = .between → x.Step (.wait i) (x.set i (.waiting false))
  | deliver {i : ι} {notified : Bool} (wordFirst : Bool) : x.workers i = .waiting notified →
      0 < x.queue i → (notified && wordFirst) = false → x.Step (.poll i wordFirst)
      { x.set i .processing with
        queue := Function.update x.queue i (x.queue i - 1)
        late := Function.update x.late i (x.late i || x.signalled) }
  | stop {i : ι} (wordFirst : Bool) : x.workers i = .waiting true →
      wordFirst = true ∨ x.queue i = 0 → x.Step (.poll i wordFirst) (x.set i .stopped)
  | finish {i : ι} : x.workers i = .processing → x.Step (.finish i) (x.set i .between)
  | close {i : ι} {notified : Bool} : x.workers i = .waiting notified →
      x.Step (.close i) (x.set i .stopped)

/-- What runs lead to whose steps are all of a kind. -/
inductive Reached (P : Engine ι → Action ι → Prop) : Engine ι → Prop
  | start : Reached P start
  | step {x y : Engine ι} {a : Action ι} : Reached P x → x.Step a y → P x a → Reached P y

/-- The last word that is given finds the worker waiting or done.  Between the two words the worker
does not get its turn unless it has heard the first one, and when it has the word it looks at it
first if there is a delivery as well. -/
def Heard (i : ι) (x : Engine ι) : Action ι → Prop
  | .signal => x.main = .stopped → (x.workers i).Listening
  | .drain => x.signalled = true → (x.workers i).Listening
  | .poll j wordFirst => j = i → x.signalled = true →
      (x.main ≠ .stopped → x.workers i = .waiting true) ∧
      (x.workers i = .waiting true → wordFirst = true ∨ x.queue i = 0)
  | _ => True

end Engine

end Skyr.Ne
