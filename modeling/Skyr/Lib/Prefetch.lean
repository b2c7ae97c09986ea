import Mathlib.Data.List.Basic

/-!
# A queue with one consumer and a prefetch limit

A broker hands out the messages of a queue in order.  Its consumer settles a message, by
acknowledging or rejecting it, or lets go of it without settling it.  The broker does not find out
about the latter: the message counts as handed out and not settled, and as soon as there are
`prefetch` of them, nothing is handed out any more.

`turn` is one turn of the consumer: it waits for the next message, and if there is one, does with it
what it does.  Messages arrive between turns, at any time (`Event`).  Whatever happens, messages are
handed out in the order they arrived in (`handed_append_ready`).  The queue makes progress as long
as fewer than `prefetch` messages were let go of (`turn_progress`), and never again after that
(`handed_of_blocked`).
-/

namespace Skyr

open List

variable {β : Type}

/-- A queue: the messages that wait, and those that were handed out, in order, with whether they
were settled. -/
structure Mailbox (β : Type) where
  ready : List β
  handed : List (β × Bool)
deriving DecidableEq

namespace Mailbox

/-- A new queue. -/
def empty : Mailbox β := ⟨[], []⟩

/-- How many messages count against the limit. -/
def unsettled (b : Mailbox β) : ℕ := b.handed.countP fun d => !d.2

/-- One turn of the consumer. -/
def turn (prefetch : ℕ) (settles : β → Bool) (b : Mailbox β) : Mailbox β :=
  match b.ready with
  | [] => b
  | m :: rest =>
    if b.unsettled < prefetch then ⟨rest, b.handed ++ [(m, settles m)]⟩
    -- the broker keeps the message, and the consumer waits
    else b

/-- What happens to a queue. -/
inductive Event (β : Type)
  | arrive (m : β)
  | turn

/-- The message an event brings. -/
def Event.arrival : Event β → Option β
  | arrive m => some m
  | turn => none

def step (prefetch : ℕ) (settles : β → Bool) (b : Mailbox β) : Event β → Mailbox β
  | .arrive m => ⟨b.ready ++ [m], b.handed⟩
  | .turn => b.turn prefetch settles

def run (prefetch : ℕ) (settles : β → Bool) (events : List (Event β)) (b : Mailbox β) :
    Mailbox β :=
  events.foldl (step prefetch settles) b

variable {prefetch : ℕ} {settles : β → Bool} {b : Mailbox β}

/-- **A turn hands out the next message**, if there is one and the limit is not reached. -/
theorem turn_progress {m : β} {rest : List β} (hm : b.ready = m :: rest)
    (h : b.unsettled < prefetch) :
    b.turn prefetch settles = ⟨rest, b.handed ++ [(m, settles m)]⟩ := by
  rw [turn, hm]
  exact if_pos h

/-- What a turn can do. -/
theorem turn_cases (prefetch : ℕ) (settles : β → Bool) (b : Mailbox β) :
    b.turn prefetch settles = b ∨ ∃ m rest, b.ready = m :: rest ∧ b.unsettled < prefetch ∧
      b.turn prefetch settles = ⟨rest, b.handed ++ [(m, settles m)]⟩ := by
  cases hm : b.ready with
  | nil =>
    left
    rw [turn, hm]
  | cons m rest =>
  by_cases h : b.unsettled < prefetch
  · exact .inr ⟨m, rest, rfl, h, turn_progress hm h⟩
  left
  rw [turn, hm]
  exact if_neg h

theorem step_handed_append_ready (e : Event β) :
    (step prefetch settles b e).handed.map Prod.fst ++ (step prefetch settles b e).ready =
      b.handed.map Prod.fst ++ b.ready ++ e.arrival.toList := by
  cases e with
  | arrive m => exact (append_assoc ..).symm
  | turn =>
  obtain h | ⟨m, rest, hm, -, h⟩ := turn_cases prefetch settles b
  · rw [step, h]
    exact (append_nil _).symm
  · rw [step, h, hm, map_append]
    simp [Event.arrival]

/-- **Nothing is lost and nothing overtakes**: the messages handed out and those that wait are
those that arrived, in order. -/
theorem handed_append_ready (events : List (Event β)) :
    (run prefetch settles events b).handed.map Prod.fst ++ (run prefetch settles events b).ready =
      b.handed.map Prod.fst ++ b.ready ++ events.filterMap Event.arrival := by
  induction events generalizing b with
  | nil => exact (append_nil _).symm
  | cons e events ih =>
  have h := ih (b := step prefetch settles b e)
  rw [step_handed_append_ready] at h
  rw [filterMap_cons]
  refine h.trans ?_
  cases e.arrival <;> simp

/-- A property of messages together with their settlement holds along a run if it holds of what the
consumer does with any message that may arrive. -/
theorem forall_handed_run {P : β → Prop} {Q : β × Bool → Prop}
    (hQ : ∀ m, P m → Q (m, settles m)) {events : List (Event β)}
    (hevents : ∀ m ∈ events.filterMap Event.arrival, P m)
    (hready : ∀ m ∈ b.ready, P m) (hhanded : ∀ d ∈ b.handed, Q d) :
    ∀ d ∈ (run prefetch settles events b).handed, Q d := by
  induction events generalizing b with
  | nil => exact hhanded
  | cons e events ih =>
  have hrest : ∀ m ∈ events.filterMap Event.arrival, P m := fun m hm => hevents m (by
    rw [filterMap_cons]
    split
    · exact hm
    · exact mem_cons_of_mem _ hm)
  cases e with
  | arrive m =>
    refine ih hrest (fun m' hm' => ?_) hhanded
    obtain hm' | hm' := mem_append.1 hm'
    · exact hready m' hm'
    · rw [mem_singleton.1 hm']
      exact hevents m mem_cons_self
  | turn =>
  change ∀ d ∈ (run prefetch settles events (b.turn prefetch settles)).handed, Q d
  obtain h | ⟨m, rest, hm, -, h⟩ := turn_cases prefetch settles b
  · rw [h]
    exact ih hrest hready hhanded
  rw [h]
  rw [hm] at hready
  refine ih hrest (fun m' hm' => hready m' (mem_cons_of_mem _ hm')) fun d hd => ?_
  obtain hd | hd := mem_append.1 hd
  · exact hhanded d hd
  · rw [mem_singleton.1 hd]
    exact hQ m (hready m mem_cons_self)

theorem unsettled_eq_zero (h : ∀ d ∈ b.handed, d.2 = true) : b.unsettled = 0 :=
  countP_eq_zero.2 fun d hd => by simp [h d hd]

/-- **The end of a queue**: once the limit is reached, no message is handed out any more, whatever
arrives and however often the consumer asks. -/
theorem handed_of_blocked (h : prefetch ≤ b.unsettled) (events : List (Event β)) :
    (run prefetch settles events b).handed = b.handed := by
  induction events generalizing b with
  | nil => rfl
  | cons e events ih =>
  have hstep : (step prefetch settles b e).handed = b.handed := by
    cases e with
    | arrive m => rfl
    | turn =>
    obtain heq | ⟨m, rest, -, hlt, -⟩ := turn_cases prefetch settles b
    · rw [step, heq]
    · exact absurd h (Nat.not_le.2 hlt)
  have hrun := ih (b := step prefetch settles b e) (by rw [unsettled, hstep]; exact h)
  exact hrun.trans hstep

end Mailbox

end Skyr
