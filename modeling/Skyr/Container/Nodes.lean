import Skyr.Container.Subnets
import Skyr.Lib.Threads
import Skyr.Overlay.Gossip
import Skyr.World

/-!
# Worker nodes

The orchestrator registers worker nodes, and removes them when they ask for it or when they have
not been heard of for a while.  A registered node has a record in the registry, with the range of
addresses for its pods; the allocator of ranges is in the memory of the orchestrator.

Every operation is a program that asks the registry, the allocator and the clock, one request at a
time; any number of operations are in progress at once (`orchestrator`).  A statement of the
registry may fail, and then it may or may not have been carried out.

What the orchestrator tells new nodes about the others is left out, and so are the stored
tombstones, which serve only for that.
-/

namespace Skyr.Container

open Overlay (PeerEntry)

/-- The record of a node. -/
structure Node where
  name : String
  address : String
  /-- The range of addresses for its pods; old records have none. -/
  podCidr : Option Ipv4Net
  overlayEndpoint : String
  overlayVersionMicros : ℕ
deriving DecidableEq

inductive NodeError
  | redis (m : String)
  | notFound (name : String)
deriving DecidableEq

def NodeError.message : NodeError → String
  | redis m => "failed to execute query: " ++ m
  | notFound name => "node not found: " ++ name

/-! ## Requests -/

inductive Op
  | get (name : String)
  | register (node : Node)
  | unregister (name : String)
  | allocate (name : String) (prefixLen : ℕ)
  | seed (name : String) (subnet : Ipv4Net)
  | release (name : String)
  | now
  | announce (entry : PeerEntry)

@[reducible] def Resp : Op → Type
  | .get _ => Except NodeError Node
  | .register _ => Except NodeError Unit
  | .unregister _ => Except NodeError Unit
  | .allocate .. => Except String Ipv4Net
  | .seed .. => Except String Unit
  | .release _ => Unit
  | .now => ℕ
  | .announce _ => Unit

@[reducible] def Ans : Op → Type
  | .get _ | .register _ | .unregister _ => Reply
  | .now => ℕ
  | _ => Unit

structure State where
  allocator : SubnetAllocator
  nodes : String → Option Node
  /-- Every gossip entry that was made, the last one first. -/
  minted : List PeerEntry

namespace State

/-- Nothing is registered. -/
def new (clusterCidr : Ipv4Net) : State := ⟨.new clusterCidr, fun _ => none, []⟩

/-- The range of a registered node. -/
def range (s : State) (name : String) : Option Ipv4Net := (s.nodes name).bind Node.podCidr

def withNode (s : State) (name : String) (node : Option Node) : State :=
  { s with nodes := Function.update s.nodes name node }

def withAllocator (s : State) (v : SubnetAllocator) : State := { s with allocator := v }

def mint (s : State) (entry : PeerEntry) : State := { s with minted := entry :: s.minted }

end State

/-- Read a record. -/
def lookup (reply : Reply) (name : String) (s : State) : Except NodeError Node :=
  match reply with
  | .error _ m => .error (.redis m)
  | .done _ =>
    match s.nodes name with
    | some node => .ok node
    | none => .error (.notFound name)

/-- A statement of the registry. -/
def statement (reply : Reply) (f : State → State) (s : State) : Except NodeError Unit × State :=
  let (answer, s) := reply.answer (fun _ s => ((), f s)) s
  (answer.mapError .redis, s)

def act : (o : Op) → Ans o → State → Resp o × State
  | .get name, reply, s => (lookup reply name s, s)
  | .register node, reply, s => statement reply (·.withNode node.name (some node)) s
  | .unregister name, reply, s => statement reply (·.withNode name none) s
  | .allocate name prefixLen, _, s =>
    let (r, v) := s.allocator.allocate name prefixLen
    (r, s.withAllocator v)
  | .seed name subnet, _, s =>
    let (r, v) := s.allocator.seed name subnet
    (r, s.withAllocator v)
  | .release name, _, s => ((), s.withAllocator (s.allocator.release name))
  | .now, t, s => (t, s)
  | .announce entry, _, s => ((), s.mint entry)

def sem : Sem Resp State := ⟨Ans, act⟩

/-! ## Programs -/

abbrev Work (α : Type) := Prog Resp String α

namespace Work

def get (name : String) : Work (Except NodeError Node) := .ask (.get name) .ret

def register (node : Node) : Work (Except NodeError Unit) := .ask (.register node) .ret

def unregister (name : String) : Work (Except NodeError Unit) := .ask (.unregister name) .ret

def allocate (name : String) (prefixLen : ℕ) : Work (Except String Ipv4Net) :=
  .ask (.allocate name prefixLen) .ret

def seed (name : String) (subnet : Ipv4Net) : Work (Except String Unit) :=
  .ask (.seed name subnet) .ret

def release (name : String) : Work Unit := .ask (.release name) .ret

def now : Work ℕ := .ask .now .ret

def announce (entry : PeerEntry) : Work Unit := .ask (.announce entry) .ret

end Work

structure RegisterNodeRequest where
  nodeName : String
  conduitAddress : String
  /-- A number of 32 bits, of which 8 are used. -/
  podNetmask : ℕ
  /-- The host of the conduit address, if that is an IP address. -/
  overlayEndpoint : Option String
deriving DecidableEq

structure RegisterNodeResponse where
  success : Bool
  error : String
  podCidr : Option Ipv4Net
deriving DecidableEq

namespace RegisterNodeRequest

variable (request : RegisterNodeRequest)

def endpoint : String := request.overlayEndpoint.getD ""

/-- The record that is written. -/
def node (cidr : Ipv4Net) (version : ℕ) : Node :=
  ⟨request.nodeName, request.conduitAddress, some cidr, request.endpoint, version⟩

/-- The entry for the new node. -/
def entry (orchestrator : String) (version : ℕ) : PeerEntry :=
  ⟨request.nodeName, request.endpoint, version, false, orchestrator⟩

end RegisterNodeRequest

/-- The range that is recorded, if a record was read; any error is taken for its absence. -/
def recorded (r : Except NodeError Node) : Option Ipv4Net := r.toOption.bind Node.podCidr

/-- The range for a node: the one it has had, or a new one. -/
def choosePodCidr (request : RegisterNodeRequest) (existing : Except NodeError Node) :
    Work (Except String Ipv4Net) :=
  match recorded existing with
  | some cidr => do
    -- that the allocator refuses is only logged
    let _ ← Work.seed request.nodeName cidr
    pure (.ok cidr)
  | none => Work.allocate request.nodeName (request.podNetmask % 256)

def registerNode (orchestrator : String) (request : RegisterNodeRequest) :
    Work RegisterNodeResponse := do
  let existing ← Work.get request.nodeName
  match ← choosePodCidr request existing with
  | .error e => pure ⟨false, e, none⟩
  | .ok cidr =>
    let version ← Work.now
    match ← Work.register (request.node cidr version) with
    | .ok _ =>
      if request.endpoint ≠ "" then
        Work.announce (request.entry orchestrator version)
      pure ⟨true, "", some cidr⟩
    | .error e =>
      Work.release request.nodeName
      pure ⟨false, e.message, none⟩

/-- The entry for a node that is gone. -/
def tombstone (orchestrator : String) (node : Node) (version : ℕ) : PeerEntry :=
  ⟨node.name, node.overlayEndpoint, version, true, orchestrator⟩

def publishTombstone (orchestrator : String) (node : Node) : Work Unit := do
  let now ← Work.now
  Work.announce (tombstone orchestrator node now)

/-- Remove a node: first its range is released, then its record is removed.  The result says
whether it was. -/
def removeNode (orchestrator name : String) : Work Bool := do
  let departing ← Work.get name
  Work.release name
  match ← Work.unregister name with
  | .error _ => pure false
  | .ok _ =>
    match departing with
    | .ok node => publishTombstone orchestrator node
    | .error _ => pure ()
    pure true

def evictNode (orchestrator name : String) : Work Unit := do
  let _ ← removeNode orchestrator name
  pure ()

def unregisterNode (orchestrator name : String) : Work Bool := removeNode orchestrator name

/-! ## The orchestrator -/

/-- Which nodes are evicted is left open. -/
inductive Call
  | register (request : RegisterNodeRequest)
  | unregister (name : String)
  | evict (name : String)

namespace Call

/-- The node in question. -/
def name : Call → String
  | register request => request.nodeName
  | unregister name | evict name => name

def removes : Call → Bool
  | register _ => false
  | unregister _ | evict _ => true

end Call

def body (orchestrator : String) : Call → Work Unit
  | .register request => do
    let _ ← registerNode orchestrator request
    pure ()
  | .unregister name => do
    let _ ← unregisterNode orchestrator name
    pure ()
  | .evict name => evictNode orchestrator name

/-- Any number of operations at the same time. -/
def orchestrator (hostname : String) : Machine Resp String State Call Empty where
  sem := sem
  body := body hostname
  outside := nofun

abbrev Log := Prog.Log Resp

/-! ## What an operation asks next -/

/-- The registration has settled on a range. -/
inductive Chosen (c : Ipv4Net) : Log → Prop
  | seeded {n : String} {r : Except String Unit} {l : Log} : Chosen c (⟨.seed n c, r⟩ :: l)
  | allocated {n : String} {p : ℕ} {l : Log} : Chosen c (⟨.allocate n p, .ok c⟩ :: l)

/-- The requests of an operation, by what it has asked before. -/
inductive Next (hostname : String) : Call → Log → Op → Prop
  | get (call : Call) : Next hostname call [] (.get call.name)
  | seed {request : RegisterNodeRequest} {r : Except NodeError Node} {c : Ipv4Net}
      (hr : recorded r = some c) :
      Next hostname (.register request) [⟨.get request.nodeName, r⟩] (.seed request.nodeName c)
  | allocate {request : RegisterNodeRequest} {r : Except NodeError Node} (hr : recorded r = none) :
      Next hostname (.register request) [⟨.get request.nodeName, r⟩]
        (.allocate request.nodeName (request.podNetmask % 256))
  | version {request : RegisterNodeRequest} {c : Ipv4Net} {l : Log} (hl : Chosen c l) :
      Next hostname (.register request) l .now
  | register {request : RegisterNodeRequest} {c : Ipv4Net} {l : Log} {t : ℕ} (hl : Chosen c l) :
      Next hostname (.register request) (⟨.now, t⟩ :: l) (.register (request.node c t))
  | announce {request : RegisterNodeRequest} {c : Ipv4Net} {l : Log} {t : ℕ}
      (hendpoint : request.endpoint ≠ "") :
      Next hostname (.register request) (⟨.register (request.node c t), .ok ()⟩ :: l)
        (.announce (request.entry hostname t))
  | rollback {request : RegisterNodeRequest} {node : Node} {e : NodeError} {l : Log} :
      Next hostname (.register request) (⟨.register node, .error e⟩ :: l)
        (.release request.nodeName)
  | release {call : Call} (hcall : call.removes = true) {r : Except NodeError Node} :
      Next hostname call [⟨.get call.name, r⟩] (.release call.name)
  | unregister {call : Call} (hcall : call.removes = true) {r : Except NodeError Node} :
      Next hostname call [⟨.release call.name, ()⟩, ⟨.get call.name, r⟩] (.unregister call.name)
  | departure {call : Call} (hcall : call.removes = true) {node : Node} :
      Next hostname call
        [⟨.unregister call.name, .ok ()⟩, ⟨.release call.name, ()⟩, ⟨.get call.name, .ok node⟩] .now
  | tombstone {call : Call} (hcall : call.removes = true) {node : Node} {t : ℕ} :
      Next hostname call
        [⟨.now, t⟩, ⟨.unregister call.name, .ok ()⟩, ⟨.release call.name, ()⟩,
          ⟨.get call.name, .ok node⟩]
        (.announce (tombstone hostname node t))

/-- The rest of a registration, once the range is chosen. -/
theorem obeys_chosen {hostname : String} {request : RegisterNodeRequest} {c : Ipv4Net} {l : Log}
    (hl : Chosen c l) :
    Prog.obeys (Next hostname (.register request))
      (do
        let version ← Work.now
        match ← Work.register (request.node c version) with
        | .ok _ =>
          if request.endpoint ≠ "" then
            Work.announce (request.entry hostname version)
          pure (⟨true, "", some c⟩ : RegisterNodeResponse)
        | .error e =>
          Work.release request.nodeName
          pure ⟨false, e.message, none⟩) (fun _ _ => True) l := by
  refine ⟨.version hl, fun t _ => ⟨.register hl, fun r _ => ?_⟩⟩
  cases r with
  | error e => exact ⟨.rollback, fun _ _ => trivial⟩
  | ok _ =>
  by_cases hendpoint : request.endpoint ≠ ""
  · simp only [if_pos hendpoint]
    exact ⟨.announce hendpoint, fun _ _ => trivial⟩
  · simp only [if_neg hendpoint]
    trivial

theorem obeys_registerNode (hostname : String) (request : RegisterNodeRequest) :
    (body hostname (.register request)).obeys (Next hostname (.register request))
      (fun _ _ => True) [] := by
  refine Prog.always_bind.2 (Prog.always_mono (Q := fun _ _ => True) ?_ fun r l _ => ?_)
  · refine ⟨.get (.register request), fun existing _ => ?_⟩
    change Prog.obeys _ (choosePodCidr request existing >>= _) _ _
    unfold choosePodCidr
    cases hr : recorded existing with
    | some c => exact ⟨.seed hr, fun r _ => obeys_chosen .seeded⟩
    | none =>
    refine ⟨.allocate hr, fun r _ => ?_⟩
    cases r with
    | error e => trivial
    | ok c => exact obeys_chosen .allocated
  · cases r <;> trivial

theorem obeys_removeNode (hostname : String) (call : Call) (hcall : call.removes = true) :
    (removeNode hostname call.name).obeys (Next hostname call) (fun _ _ => True) [] := by
  refine ⟨.get call, fun departing _ =>
    ⟨.release hcall, fun _ _ => ⟨.unregister hcall, fun r _ => ?_⟩⟩⟩
  cases r with
  | error e => trivial
  | ok _ =>
  cases departing with
  | error e => trivial
  | ok node => exact ⟨.departure hcall, fun t _ => ⟨.tombstone hcall, fun _ _ => trivial⟩⟩

/-- Every operation keeps to its order. -/
theorem obeys_body (hostname : String) (call : Call) :
    (body hostname call).obeys (Next hostname call) (fun _ _ => True) [] := by
  cases call with
  | register request => exact obeys_registerNode hostname request
  | unregister name =>
    refine Prog.always_bind.2 (Prog.always_mono
      (obeys_removeNode hostname (.unregister name) rfl) fun r l _ => ?_)
    cases r <;> trivial
  | evict name =>
  refine Prog.always_bind.2 (Prog.always_mono
    (obeys_removeNode hostname (.evict name) rfl) fun r l _ => ?_)
  cases r <;> trivial

/-! ## Operations on one node -/

/-- No two operations on one node are busy. -/
def Alone (busy : Trace Resp Call → Bool) (traces : List (Trace Resp Call)) : Prop :=
  ∀ (i j : ℕ) (a b : Trace Resp Call), traces[i]? = some a → traces[j]? = some b →
    busy a = true → busy b = true → a.call.name = b.call.name → i = j

section Alone

variable {busy : Trace Resp Call → Bool} {traces : List (Trace Resp Call)} {i : ℕ}
  {tr tr' : Trace Resp Call}

theorem Alone.set (h : Alone busy traces) (hi : traces[i]? = some tr) (hcall : tr'.call = tr.call)
    (hbusy : busy tr' = true → busy tr = true) : Alone busy (traces.set i tr') := by
  -- whoever is at a place had the same call before, and was busy if it is
  have hback : ∀ (j : ℕ) (a : Trace Resp Call), (traces.set i tr')[j]? = some a → busy a = true →
      ∃ b : Trace Resp Call, traces[j]? = some b ∧ busy b = true ∧ b.call = a.call := by
    intro j a hj hbusy'
    rcases List.getElem?_set_cases hj with ⟨rfl, rfl⟩ | ⟨-, hj⟩
    · exact ⟨tr, hi, hbusy hbusy', hcall.symm⟩
    · exact ⟨a, hj, hbusy', rfl⟩
  intro j k a b hj hk ha hb hname
  obtain ⟨a', hj', ha', hca⟩ := hback j a hj ha
  obtain ⟨b', hk', hb', hcb⟩ := hback k b hk hb
  exact h j k a' b' hj' hk' ha' hb' (by rw [hca, hcb, hname])

theorem Alone.start (h : Alone busy traces)
    (hcall : ∀ tr ∈ traces, busy tr = true → tr.call.name ≠ tr'.call.name) :
    Alone busy (traces ++ [tr']) := by
  intro j k a b hj hk ha hb hname
  rcases List.getElem?_concat_cases hj with hj' | ⟨rfl, rfl⟩ <;>
    rcases List.getElem?_concat_cases hk with hk' | ⟨rfl, rfl⟩
  · exact h j k a b hj' hk' ha hb hname
  · exact absurd hname (hcall a (List.mem_of_getElem? hj') ha)
  · exact absurd hname.symm (hcall b (List.mem_of_getElem? hk') hb)
  · rfl

end Alone

end Skyr.Container
