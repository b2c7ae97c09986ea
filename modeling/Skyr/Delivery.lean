import Skyr.Lib.Prefetch
import Skyr.Rq
import Skyr.Rtq.Wire
import Skyr.World

/-!
# Workers and their queues

A worker of the reporting engine or of the transition engine has a queue of its own, with a prefetch
of one.  It waits for a delivery, decodes it, processes the message and settles the delivery: it
acknowledges it, or rejects it when processing fails.  If the delivery does not decode, the
worker's turn ends there with an error that is logged, and the delivery is let go of: it is
neither acknowledged nor rejected.

So a single delivery that does not decode is the end of the queue (`Mailbox.handed_of_blocked`).
For a report about a resource with an unusual name this is what happens, since the text of such a
resource does not parse (`odd_report_blocks_the_queue`).  Which messages are read back as they were,
and that deliveries that decode are handed out and settled in turn, is `queues_reliable`.
-/

namespace Skyr

variable [SclData]

/-! ## Queues -/

/-- What is on a queue: a JSON text, or bytes that are none. -/
abbrev Text := Option (JValue Json)

/-- The messages of a queue, and how they are written and read. -/
structure Channel (M : Type) where
  encode : M → Text
  decode : Text → Option M

/-- Two things are left open about payloads: how deeply they are nested, and what is read from the
text of one. -/
def reportQueue [Timestamps] (payloadDepth : Json → ℕ) (reread : Json → Option Json) :
    Channel Rq.Report where
  encode r := some r.toJson
  decode text := (JValue.read payloadDepth text).bind (Rq.Report.ofJson reread)

def transitionQueue (payloadDepth : Json → ℕ) (reread : Json → Option Json) :
    Channel Message where
  encode m := some m.toJson
  decode text := (JValue.read payloadDepth text).bind (Message.ofJson reread)

namespace Channel

variable {M : Type} (c : Channel M)

/-- What becomes of a delivery in one iteration of a worker's loop, given how processing ends. -/
def workerLoopIteration (process : M → Except String Unit) (text : Text) : Option Settlement :=
  match c.decode text with
  -- the error is returned with the delivery in hand
  | none => none
  | some m =>
    match process m with
    | .ok _ => some .ack
    | .error _ => some (.nack false)

/-- Whether a delivery is settled. -/
def settles (process : M → Except String Unit) (text : Text) : Bool :=
  (c.workerLoopIteration process text).isSome

/-- A delivery is settled if and only if it decodes. -/
theorem settles_iff {process : M → Except String Unit} {text : Text} :
    c.settles process text ↔ (c.decode text).isSome := by
  rw [settles, workerLoopIteration]
  cases c.decode text with
  | none => rfl
  | some m => cases h : process m <;> simp [h]

/-- The messages that are good are exactly those that are decoded as they were encoded.  In any run,
with any number of deliveries allowed to be unsettled but none, the deliveries so far were settled
if and only if they decode; and if so, the next message is handed out in the next turn. -/
structure Reliable (good : M → Prop) : Prop where
  decode_encode : ∀ m, c.decode (c.encode m) = some m ↔ good m
  settled : ∀ (prefetch : ℕ) (process : M → Except String Unit)
    (events : List (Mailbox.Event Text)),
    let b := Mailbox.run prefetch (c.settles process) events .empty
    (∀ d ∈ b.handed, d.2 = true) ↔ ∀ d ∈ b.handed, (c.decode d.1).isSome
  handed : ∀ (prefetch : ℕ) (process : M → Except String Unit)
    (events : List (Mailbox.Event Text)), 0 < prefetch →
    let b := Mailbox.run prefetch (c.settles process) events .empty
    (∀ d ∈ b.handed, (c.decode d.1).isSome) →
      ∀ text rest, b.ready = text :: rest →
        b.turn prefetch (c.settles process) = ⟨rest, b.handed ++ [(text, (c.decode text).isSome)]⟩

variable {c}

/-- What is handed out is settled if and only if it decodes. -/
theorem settled_run (prefetch : ℕ) (process : M → Except String Unit)
    (events : List (Mailbox.Event Text)) :
    ∀ d ∈ (Mailbox.run prefetch (c.settles process) events .empty).handed,
      d.2 = (c.decode d.1).isSome := by
  refine Mailbox.forall_handed_run (P := fun _ => True) (fun text _ => ?_) (fun _ _ => trivial)
    (fun _ _ => trivial) fun d hd => absurd hd List.not_mem_nil
  exact Bool.eq_iff_iff.2 c.settles_iff

theorem Reliable.of_decode {good : M → Prop}
    (h : ∀ m, c.decode (c.encode m) = some m ↔ good m) : c.Reliable good where
  decode_encode := h
  settled prefetch process events := by
    refine forall₂_congr fun d hd => ?_
    rw [settled_run prefetch process events d hd]
  handed prefetch process events hprefetch := by
    intro b hdecode text rest hready
    have hhanded : ∀ d ∈ b.handed, d.2 = true := fun d hd =>
      (settled_run prefetch process events d hd).trans (hdecode d hd)
    have hsettles : c.settles process text = (c.decode text).isSome :=
      Bool.eq_iff_iff.2 c.settles_iff
    rw [Mailbox.turn_progress hready (by rw [Mailbox.unsettled_eq_zero hhanded]; exact hprefetch),
      hsettles]

end Channel

/-! ## Depth -/

section Depth

variable (payloadDepth : Json → ℕ)

namespace Rq

/-- The entity parses from its text, and the metrics are not nested too deeply and are read as they
were written. -/
structure Report.Sendable (reread : Json → Option Json) (r : Report) : Prop where
  entity : r.entityQid.Readable
  metrics : r.metrics.Lossless reread
  depth : ∀ f ∈ r.metrics.extra, payloadDepth f.2 ≤ 124

theorem EntityQid.depth_toJson (e : EntityQid) : e.toJson.depth payloadDepth = 1 := by
  cases e <;> rfl

theorem EntityExtension.depth_toJson (e : EntityExtension) : e.toJson.depth payloadDepth = 1 := by
  cases e <;> rfl

end Rq

theorem Outcome.depth_toJson (o : Outcome) : o.toJson.depth payloadDepth = 1 := by cases o <;> rfl

variable {payloadDepth}

theorem Rq.Metrics.depth_toJson_le {m : Rq.Metrics} {n : ℕ} :
    m.toJson.depth payloadDepth ≤ n + 2 ↔ ∀ f ∈ m.extra, payloadDepth f.2 ≤ n := by
  obtain ⟨wallTimeMs, extra⟩ := m
  cases extra with
  | nil => exact iff_of_true (Nat.le_add_left 1 (n + 1)) fun f hf => absurd hf List.not_mem_nil
  | cons f extra =>
  rw [← JValue.depthFields_payloads_le]
  change 1 + max 0 (max (1 + JValue.depthFields payloadDepth _) 0) ≤ n + 2 ↔ _
  omega

theorem Rq.Report.depth_toJson_le [Timestamps] {r : Rq.Report} :
    r.toJson.depth payloadDepth ≤ JValue.maxDepth ↔
      ∀ f ∈ r.metrics.extra, payloadDepth f.2 ≤ 124 := by
  rw [← Rq.Metrics.depth_toJson_le]
  change 1 + max (r.entityQid.toJson.depth payloadDepth) (max 0
    (max (r.outcome.toJson.depth payloadDepth) (max (r.metrics.toJson.depth payloadDepth)
      (max (r.extension.toJson.depth payloadDepth) 0)))) ≤ 127 ↔ _
  rw [Rq.EntityQid.depth_toJson, Outcome.depth_toJson, Rq.EntityExtension.depth_toJson]
  omega

theorem SourceTrace.depth_field (t : SourceTrace) :
    JValue.depthFields payloadDepth (SourceTrace.field t) ≤ 2 := by
  have hframes : JValue.depthAll payloadDepth (t.map SourceFrame.toJson) ≤ 1 :=
    JValue.depthAll_map_le fun _ _ => Nat.le_refl 1
  rw [SourceTrace.field]
  split
  · exact Nat.zero_le 2
  · change max (1 + JValue.depthAll payloadDepth _) 0 ≤ 2
    omega

/-- Apart from the payload, a message has three levels of brackets. -/
theorem Message.depth_toJson_le {m : Message} :
    m.toJson.depth payloadDepth ≤ JValue.maxDepth ↔ ∀ p ∈ m.inputs, payloadDepth p ≤ 126 := by
  have hresource (r : ResourceRef) : r.toJson.depth payloadDepth = 1 := rfl
  have hdeps : JValue.depthAll payloadDepth (m.dependencies.map ResourceRef.toJson) ≤ 1 :=
    JValue.depthAll_map_le fun _ _ => Nat.le_refl 1
  cases m with
  | create m | restore m | adopt m =>
    have htrace : JValue.depthFields payloadDepth (SourceTrace.field m.sourceTrace) ≤ 2 :=
      SourceTrace.depth_field _
    rw [dependencies] at hdeps
    rw [toJson, JValue.depth, JValue.depthFields_append, JValue.maxDepth]
    simp only [JValue.depthFields, JValue.depth, hresource, inputs, Option.mem_some, forall_eq']
    omega
  | destroy m | check m =>
  simp only [toJson, JValue.depthFields, JValue.depth, hresource, JValue.maxDepth]
  refine iff_of_true (by omega) fun p hp => absurd hp (Option.not_mem_none p)

end Depth

/-! ## The two queues -/

/-- A message that is nested too deeply is not read at all. -/
theorem decode_encode_iff {M : Type} {payloadDepth : Json → ℕ} {v : JValue Json} {m : M}
    {ofJson : JValue Json → Option M} :
    (JValue.read payloadDepth (some v)).bind ofJson = some m ↔
      v.depth payloadDepth ≤ JValue.maxDepth ∧ ofJson v = some m := by
  simp only [Option.bind_eq_some_iff, JValue.read_eq_some, and_assoc, exists_and_left,
    exists_eq_left']

theorem Rq.Report.decode_encode_iff [Timestamps] (payloadDepth : Json → ℕ)
    (reread : Json → Option Json) (r : Rq.Report) :
    (reportQueue payloadDepth reread).decode ((reportQueue payloadDepth reread).encode r) =
      some r ↔ r.Sendable payloadDepth reread := by
  rw [reportQueue, Skyr.decode_encode_iff, depth_toJson_le, ofJson_toJson]
  exact ⟨fun h => ⟨h.2.1, h.2.2, h.1⟩, fun h => ⟨h.depth, h.entity, h.metrics⟩⟩

/-- **Both queues are reliable** for the messages that can be read back: a report about an entity
that parses from its text, a transition message whose environments and regions were parsed, and
payloads that are not nested too deeply and are read as they were written. -/
theorem queues_reliable [Timestamps] (payloadDepth : Json → ℕ) (reread : Json → Option Json) :
    (reportQueue payloadDepth reread).Reliable (Rq.Report.Sendable payloadDepth reread) ∧
      (transitionQueue payloadDepth reread).Reliable fun m =>
        m.Sendable reread ∧ ∀ p ∈ m.inputs, payloadDepth p ≤ 126 := by
  refine ⟨.of_decode (Rq.Report.decode_encode_iff payloadDepth reread), .of_decode fun m => ?_⟩
  rw [transitionQueue, decode_encode_iff, Message.depth_toJson_le, Message.ofJson_toJson]
  exact and_comm

end Skyr

/-! ## A report that blocks its queue -/

namespace Skyr.Delivery

local instance : SclData := .nat

local instance : Timestamps where
  print t := String.ofList (List.replicate t '0')
  parse s := some s.length
  parse_print t := by rw [String.length_ofList, List.length_replicate]

/-- The first report about a resource that was created. -/
def created (name : String) : Rq.Report :=
  .ofEngine 0 0 (.resource ⟨⟨⟨⟨"Acme"⟩, ⟨"Shop"⟩⟩, ⟨"main"⟩⟩, ⟨⟨"stockholm"⟩, "Std/Random.Int", name⟩⟩
    .success .live false false)

/-- The queue of the examples; payloads are numbers. -/
def queue : Channel Rq.Report := reportQueue (fun _ => 0) some

/-- **A report may block its queue.**  The transition engine reports on a resource `a::b`, which a
program can create.  The report does not decode.  With a prefetch of one, the next report, which
would decode, is not handed out, whatever happens. -/
theorem odd_report_blocks_the_queue :
    queue.decode (queue.encode (created "a::b")) = none ∧
      queue.decode (queue.encode (created "seed")) = some (created "seed") ∧
      ∀ process events,
        let b := Mailbox.run 1 (queue.settles process)
          ([.arrive (queue.encode (created "a::b")), .arrive (queue.encode (created "seed")),
            .turn] ++ events) .empty
        b.handed = [(queue.encode (created "a::b"), false)] := by
  have hbad : queue.decode (queue.encode (created "a::b")) = none := by with_unfolding_all rfl
  have hgood : queue.decode (queue.encode (created "seed")) = some (created "seed") := by
    refine (Rq.Report.decode_encode_iff ..).2 ⟨?_, fun f hf => absurd hf List.not_mem_nil,
      fun f hf => absurd hf List.not_mem_nil⟩
    decide +kernel
  refine ⟨hbad, hgood, fun process events => ?_⟩
  have hsettles : queue.settles process (queue.encode (created "a::b")) = false := by
    rw [Channel.settles, Channel.workerLoopIteration, hbad]
    rfl
  have hrun : Mailbox.run 1 (queue.settles process)
      [.arrive (queue.encode (created "a::b")), .arrive (queue.encode (created "seed")), .turn]
      .empty = ⟨[queue.encode (created "seed")], [(queue.encode (created "a::b"), false)]⟩ := by
    rw [← hsettles]
    rfl
  rw [Mailbox.run, List.foldl_append]
  change (Mailbox.run 1 (queue.settles process) events
    (Mailbox.run 1 (queue.settles process) _ .empty)).handed = _
  rw [hrun]
  exact Mailbox.handed_of_blocked (Nat.le_refl 1) events

end Skyr.Delivery
