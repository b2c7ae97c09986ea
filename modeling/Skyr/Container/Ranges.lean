import Skyr.Container.Nodes

/-!
# The ranges of registered nodes

A node that is removed gives back its range before its record is removed.  So there is a time at
which it is registered while its range is free, and another node may be given the same one; if the
record cannot be removed, both stay registered (`Collision.same_range`).  The same comes of a
record that is written although the registry reports an error, and of a registration that fails
when the node is already registered: in both cases the range is released.

Where this is ruled out, and operations on one node do not overlap, the ranges of registered nodes
are disjoint (`ranges_disjoint`).
-/

namespace Skyr.Container

open SubnetAllocator Function

open Machine List

/-! ## Conditions -/

/-- What has just been released. -/
def released : Log → Option String
  | ⟨.release n, _⟩ :: _ => some n
  | _ => none

/-- The call has released the range of a node, and is about to remove its record. -/
def pending (n : String) (tr : Trace Resp Call) : Bool :=
  released tr.log == some n && tr.call.removes

/-- No node is on its way out. -/
def NoneLeaving (v : PoolView Resp State Call) : Prop := ∀ tr ∈ v.traces, ∀ n, pending n tr = false

/-- What is required of single requests. -/
def Calm (v : PoolView Resp State Call) : (o : Op) → Ans o → Prop
  | .allocate .., _ => NoneLeaving v
  | .seed .., _ => NoneLeaving v
  | .register node, reply =>
    reply.isDone = true ∨ reply.applied = false ∧ v.state.nodes node.name = none
  | .unregister _, reply => reply.applied = true
  | _, _ => True

/-- The conditions: operations on one node do not overlap; no range is given away while a node is
on its way out; a record is written unless the registry reports that it was not, and then the node
is not registered; a record is removed when it should be. -/
def careful (hostname : String) : (orchestrator hostname).Conditions where
  start v call := ∀ tr ∈ v.traces, tr.running = true → tr.call.name ≠ call.name
  ask v _ _ o a := Calm v o a
  outside _ _ := True

/-! ## The state -/

/-- The ranges of registered nodes are disjoint, and the allocator knows all of them except for
those of nodes on their way out. -/
structure Separate (s : State) (leaving : String → Prop) : Prop where
  valid : s.allocator.Valid
  held : ∀ n c, s.range n = some c → s.allocator.allocated n = some c ∨ leaving n
  /-- A range that has been given away does not touch the range of another node, even if that one
  is on its way out. -/
  apart : ∀ n m c d, s.range n = some c → s.allocator.allocated m = some d → m ≠ n → c.Disjoint d
  disjoint : ∀ n m c d, s.range n = some c → s.range m = some d → m ≠ n → c.Disjoint d
  inside : ∀ n c, s.range n = some c → ∀ x ∈ c, x ∈ s.allocator.clusterCidr

variable {s : State} {leaving leaving' : String → Prop} {n m : String} {c : Ipv4Net}

theorem Separate.mono (h : Separate s leaving) (hl : ∀ n, leaving n → leaving' n) :
    Separate s leaving' :=
  ⟨h.valid, fun n c hn => (h.held n c hn).imp_right (hl n), h.apart, h.disjoint, h.inside⟩

theorem Separate.mint (h : Separate s leaving) (entry : Overlay.PeerEntry) :
    Separate (s.mint entry) leaving :=
  ⟨h.valid, h.held, h.apart, h.disjoint, h.inside⟩

theorem range_withNode_self (node : Option Node) :
    (s.withNode n node).range n = node.bind Node.podCidr := by
  change (Function.update s.nodes n node n).bind _ = _
  rw [update_self]

theorem range_withNode_ne (hne : m ≠ n) (node : Option Node) :
    (s.withNode n node).range m = s.range m := by
  change (Function.update s.nodes n node m).bind _ = _
  rw [update_of_ne hne]
  rfl

section

variable (h : Separate s leaving)

include h

/-- While no node is on its way out, a range may be given away. -/
theorem Separate.extends (hnone : ∀ n, ¬ leaving n)
    {v : SubnetAllocator} (hv : SubnetAllocator.Extends n s.allocator v) :
    Separate (s.withAllocator v) leaving := by
  have hheld : ∀ n c, s.range n = some c → v.allocated n = some c :=
    fun n c hn => hv.keeps n c ((h.held n c hn).resolve_right (hnone n))
  refine ⟨hv.valid, fun n c hn => .inl (hheld n c hn), fun n m c d hn hm hne => ?_, h.disjoint,
    fun n c hn => ?_⟩
  · exact hv.valid.disjoint (hheld n c hn) hm hne.symm
  change ∀ x ∈ c, x ∈ v.clusterCidr
  rw [hv.clusterCidr]
  exact h.inside n c hn

/-- The record of a node is written with the range that it has been given. -/
theorem Separate.register (node : Node) (hnode : node.podCidr = some c)
    (hc : s.allocator.allocated node.name = some c) :
    Separate (s.withNode node.name (some node)) leaving := by
  have hself : (s.withNode node.name (some node)).range node.name = some c :=
    (range_withNode_self _).trans hnode
  refine ⟨h.valid, fun n d hn => ?_, fun n m d e hn hm hne => ?_, fun n m d e hn hm hne => ?_,
    fun n d hn => ?_⟩
  · by_cases hname : n = node.name
    · rw [hname, hself] at hn
      cases hn
      exact .inl (hname ▸ hc)
    · rw [range_withNode_ne hname] at hn
      exact h.held n d hn
  · by_cases hname : n = node.name
    · rw [hname, hself] at hn
      cases hn
      exact h.valid.disjoint hc hm (hname ▸ hne.symm)
    · rw [range_withNode_ne hname] at hn
      exact h.apart n m d e hn hm hne
  · by_cases hname : n = node.name
    · have hm' : m ≠ node.name := hname ▸ hne
      rw [hname, hself] at hn
      cases hn
      rw [range_withNode_ne hm'] at hm
      exact (h.apart m node.name e c hm hc hm'.symm).symm
    rw [range_withNode_ne hname] at hn
    by_cases hmname : m = node.name
    · rw [hmname, hself] at hm
      cases hm
      exact h.apart n node.name d c hn hc (hmname ▸ hne)
    · rw [range_withNode_ne hmname] at hm
      exact h.disjoint n m d e hn hm hne
  by_cases hname : n = node.name
  · rw [hname, hself] at hn
    cases hn
    exact h.valid.inside _ _ hc
  · rw [range_withNode_ne hname] at hn
    exact h.inside n d hn

theorem Separate.unregister (n : String) :
    Separate (s.withNode n none) fun m => leaving m ∧ m ≠ n := by
  have hother : ∀ m d, (s.withNode n none).range m = some d → m ≠ n ∧ s.range m = some d := by
    intro m d hm
    by_cases hmn : m = n
    · rw [hmn, range_withNode_self] at hm
      cases hm
    · rw [range_withNode_ne hmn] at hm
      exact ⟨hmn, hm⟩
  refine ⟨h.valid, fun m d hm => ?_, fun m k d e hm => h.apart m k d e (hother m d hm).2,
    fun m k d e hm hk => h.disjoint m k d e (hother m d hm).2 (hother k e hk).2,
    fun m d hm => h.inside m d (hother m d hm).2⟩
  obtain ⟨hmn, hm⟩ := hother m d hm
  exact (h.held m d hm).imp_right fun hl => ⟨hl, hmn⟩

/-- The range of a node on its way out is given back. -/
theorem Separate.release (n : String) :
    Separate (s.withAllocator (s.allocator.release n)) fun m => leaving m ∨ m = n := by
  obtain ⟨hvalid, hcidr, halloc⟩ := release_spec h.valid n
  refine ⟨hvalid, fun m d hm => ?_, fun m k d e hm hk => ?_, h.disjoint, fun m d hm => ?_⟩
  · by_cases hmn : m = n
    · exact .inr (.inr hmn)
    refine (h.held m d hm).imp (fun hheld => ?_) .inl
    change (s.allocator.release n).allocated m = some d
    rw [halloc, update_of_ne hmn]
    exact hheld
  · change (s.allocator.release n).allocated k = some e at hk
    rw [halloc] at hk
    by_cases hkn : k = n
    · rw [hkn, update_self] at hk
      cases hk
    · rw [update_of_ne hkn] at hk
      exact h.apart m k d e hm hk
  change ∀ x ∈ d, x ∈ (s.allocator.release n).clusterCidr
  rw [hcidr]
  exact h.inside m d hm

/-- The range of a node that is not registered is given back. -/
theorem Separate.rollback (hn : s.nodes n = none) :
    Separate (s.withAllocator (s.allocator.release n)) leaving := by
  have hrel := h.release n
  refine ⟨hrel.valid, fun m d hm => ?_, hrel.apart, hrel.disjoint, hrel.inside⟩
  refine (hrel.held m d hm).imp_right fun hl => hl.resolve_right ?_
  rintro rfl
  change (s.nodes m).bind Node.podCidr = some d at hm
  rw [hn] at hm
  cases hm

end

/-! ## Single operations

What one request of an operation does to the ranges, given what the operation has read before. -/

/-- The range that has just been read. -/
def lastRead : Log → Option Ipv4Net
  | [⟨.get _, r⟩] => recorded r
  | _ => none

/-- The range that a registration is going to write. -/
def choice : Log → Option Ipv4Net
  | ⟨.seed _ c, _⟩ :: _ => some c
  | ⟨.allocate _ _, .ok c⟩ :: _ => some c
  | ⟨.now, _⟩ :: ⟨.seed _ c, _⟩ :: _ => some c
  | ⟨.now, _⟩ :: ⟨.allocate _ _, .ok c⟩ :: _ => some c
  | _ => none

/-- The record could not be written. -/
def writeFailed : Log → Bool
  | ⟨.register _, .error _⟩ :: _ => true
  | _ => false

/-- What an operation in progress can rely on. -/
structure Knows (s : State) (call : Call) (l : Log) : Prop where
  read : ∀ c, lastRead l = some c → s.range call.name = some c
  chosen : ∀ c, choice l = some c → s.allocator.allocated call.name = some c
  failed : writeFailed l = true → s.nodes call.name = none

theorem Chosen.choice_now {l : Log} (h : Chosen c l) (t : ℕ) :
    choice l = some c ∧ choice (⟨.now, t⟩ :: l) = some c := by
  cases h <;> exact ⟨rfl, rfl⟩

/-- What concerns the other nodes stays as it is. -/
def Leaves (n : String) (s t : State) : Prop :=
  ∀ m, m ≠ n → t.nodes m = s.nodes m ∧
    ∀ c, s.allocator.allocated m = some c → t.allocator.allocated m = some c

theorem Knows.other {t : State} {call : Call} {l : Log} (h : Knows s call l)
    (hleaves : Leaves n s t) (hne : call.name ≠ n) : Knows t call l := by
  obtain ⟨hnodes, halloc⟩ := hleaves call.name hne
  refine ⟨fun c hc => ?_, fun c hc => halloc c (h.chosen c hc), fun hl => hnodes.trans (h.failed hl)⟩
  rw [State.range, hnodes]
  exact h.read c hc

theorem leaves_refl (n : String) (s : State) : Leaves n s s := fun _ _ => ⟨rfl, fun _ h => h⟩

theorem leaves_withNode (n : String) (node : Option Node) (s : State) :
    Leaves n s (s.withNode n node) :=
  fun _ hne => ⟨update_of_ne hne _ _, fun _ h => h⟩

theorem leaves_extends {v : SubnetAllocator} (h : SubnetAllocator.Extends m s.allocator v)
    (n : String) : Leaves n s (s.withAllocator v) :=
  fun k _ => ⟨rfl, fun c hc => h.keeps k c hc⟩

theorem leaves_release (h : s.allocator.Valid) (n : String) :
    Leaves n s (s.withAllocator (s.allocator.release n)) := by
  refine fun m hne => ⟨rfl, fun c hc => ?_⟩
  change (s.allocator.release n).allocated m = some c
  rw [(release_spec h n).2.2, update_of_ne hne]
  exact hc

section Request

variable {hostname : String} {v : PoolView Resp State Call} {call : Call} {l : Log}
  {others : String → Prop}

/-- A node on its way out, by this call or another one. -/
abbrev Leaving (others : String → Prop) (call : Call) (l : Log) (n : String) : Prop :=
  others n ∨ pending n ⟨call, l, true⟩ = true

/-- What holds after a request: the ranges are separate, the call knows what it should, and other
nodes are left alone. -/
structure After (others : String → Prop) (s t : State) (call : Call) (l : Log) : Prop where
  separate : Separate t (Leaving others call l)
  knows : Knows t call l
  leaves : Leaves call.name s t

/-- A request after which the call is not about to remove a record. -/
theorem Separate.keep {l' : Log} (h : Separate s (Leaving others call l))
    (hl : ∀ n, pending n ⟨call, l, true⟩ = false) : Separate s (Leaving others call l') :=
  h.mono fun n hn => hn.imp_right fun hp => absurd hp (by rw [hl n]; decide)

theorem after_get {reply : Reply} (h : Separate s (Leaving others call [])) :
    After others s s call [⟨.get call.name, lookup reply call.name s⟩] := by
  refine ⟨h.keep fun _ => rfl, ⟨fun c hc => ?_, nofun, nofun⟩, leaves_refl _ s⟩
  cases reply with
  | error applied m => cases hc
  | done cut =>
  rw [lookup] at hc
  rw [State.range]
  cases hnode : s.nodes call.name with
  | none =>
    rw [hnode] at hc
    cases hc
  | some node =>
  rw [hnode] at hc
  exact hc

theorem after_allocate {request : RegisterNodeRequest} (p : ℕ)
    (h : Separate s (Leaving others (.register request) l))
    (hnone : ∀ n, ¬ Leaving others (.register request) l n) :
    After others s (s.withAllocator (s.allocator.allocate request.nodeName p).2) (.register request)
      (⟨.allocate request.nodeName p, (s.allocator.allocate request.nodeName p).1⟩ :: l) := by
  have hkeep : ∀ n, pending n ⟨.register request, l, true⟩ = false :=
    fun n => Bool.eq_false_iff.2 fun hp => hnone n (.inr hp)
  rcases allocate_spec h.valid request.nodeName p with
    ⟨e, heq⟩ | ⟨c, w, heq, hchange, hc, -⟩
  · rw [heq]
    exact ⟨h.keep hkeep, ⟨nofun, nofun, nofun⟩, leaves_refl _ s⟩
  have hext := hchange.extends h.valid
  rw [heq]
  refine ⟨(h.extends hnone hext).keep hkeep, ⟨nofun, fun d hd => ?_, nofun⟩, leaves_extends hext _⟩
  cases hd
  exact hc

theorem after_register {request : RegisterNodeRequest} {t : ℕ} {reply : Reply}
    (h : Separate s (Leaving others (.register request) (⟨.now, t⟩ :: l)))
    (hc : s.allocator.allocated request.nodeName = some c)
    (hreply : reply.isDone = true ∨ reply.applied = false ∧ s.nodes request.nodeName = none) :
    After others s (act (.register (request.node c t)) reply s).2 (.register request)
      (⟨.register (request.node c t), (act (.register (request.node c t)) reply s).1⟩ ::
        ⟨.now, t⟩ :: l) := by
  cases reply with
  | done cut =>
    exact ⟨(h.register (request.node c t) rfl hc).keep fun _ => rfl,
      ⟨nofun, nofun, nofun⟩, leaves_withNode _ _ s⟩
  | error applied m =>
  obtain ⟨happlied, hnodes⟩ := hreply.resolve_left nofun
  obtain rfl : applied = false := happlied
  exact ⟨h.keep fun _ => rfl, ⟨nofun, nofun, fun _ => hnodes⟩, leaves_refl _ s⟩

/-- **One request** keeps the ranges separate. -/
theorem after_request (h : Separate s (Leaving others call l)) (hknows : Knows s call l) {o : Op}
    (hnext : Next hostname call l o) {a : Ans o} (hcalm : Calm v o a) (hs : v.state = s)
    (hnone : NoneLeaving v → ∀ n, ¬ Leaving others call l n) :
    After others s (act o a s).2 call (⟨o, (act o a s).1⟩ :: l) := by
  cases hnext with
  | get => exact after_get h
  | @seed request r c hr =>
    have hrange := hknows.read c hr
    have halloc : s.allocator.allocated request.nodeName = some c :=
      (h.held _ c hrange).resolve_right (hnone hcalm _)
    have hact : act (.seed request.nodeName c) () s = (.ok (), s) := by
      change ((s.allocator.seed request.nodeName c).1,
        s.withAllocator (s.allocator.seed request.nodeName c).2) = _
      rw [seed_of_allocated halloc]
      rfl
    rw [show act (.seed request.nodeName c) a s = _ from hact]
    refine ⟨h.keep fun _ => rfl, ⟨nofun, fun d hd => ?_, nofun⟩, leaves_refl _ s⟩
    cases hd
    exact halloc
  | allocate hr => exact after_allocate _ h (hnone hcalm)
  | version hl =>
    refine ⟨h.keep fun _ => ?_, ⟨nofun, fun d hd => ?_, nofun⟩, leaves_refl _ s⟩
    · cases hl <;> rfl
    · obtain ⟨hbefore, hafter⟩ := hl.choice_now a
      exact hknows.chosen d (hbefore.trans (hafter.symm.trans hd))
  | register hl =>
    subst hs
    exact after_register h (hknows.chosen _ (hl.choice_now _).2) hcalm
  | announce | tombstone =>
    exact ⟨(h.mint _).keep fun _ => rfl, ⟨nofun, nofun, nofun⟩, leaves_refl _ s⟩
  | rollback =>
    exact ⟨(h.rollback (hknows.failed rfl)).keep fun _ => rfl, ⟨nofun, nofun, nofun⟩,
      leaves_release h.valid _⟩
  | release hcall =>
    refine ⟨(h.release call.name).mono fun n hn => ?_, ⟨nofun, nofun, nofun⟩,
      leaves_release h.valid _⟩
    rcases hn with (hn | hn) | rfl
    · exact .inl hn
    · cases hn
    right
    change (some call.name == some call.name && call.removes) = true
    rw [hcall, beq_self_eq_true]
    rfl
  | unregister hcall =>
    have hstate : (act (.unregister call.name) a s).2 = s.withNode call.name none := by
      cases a with
      | done cut => rfl
      | error applied m =>
      obtain rfl : applied = true := hcalm
      rfl
    rw [hstate]
    refine ⟨(h.unregister call.name).mono fun n hn => ?_, ⟨nofun, nofun, nofun⟩,
      leaves_withNode _ _ s⟩
    refine .inl (hn.1.resolve_right fun hp => ?_)
    change (some call.name == some n && call.removes) = true at hp
    rw [hcall, Bool.and_true, beq_iff_eq] at hp
    exact hn.2 (Option.some.inj hp).symm
  | departure => exact ⟨h.keep fun _ => rfl, ⟨nofun, nofun, nofun⟩, leaves_refl _ s⟩

end Request

/-! ## All operations -/

/-- The ranges are separate, and every operation in progress knows what it should. -/
structure Orderly (v : PoolView Resp State Call) : Prop where
  separate : Separate v.state fun n => ∃ tr ∈ v.traces, pending n tr = true
  alone : Alone Trace.running v.traces
  knows : ∀ tr ∈ v.traces, tr.running = true → Knows v.state tr.call tr.log

/-- **Every step** keeps the order. -/
theorem Orderly.step {hostname : String} {v v' : PoolView Resp State Call} (h : Orderly v)
    (hstep : (orchestrator hostname).Step (Next hostname) (careful hostname) v v') :
    Orderly v' := by
  cases hstep with
  | outside e => exact nomatch e
  | start call running hcall =>
    refine ⟨h.separate.mono fun n ⟨tr, htr, hp⟩ => ⟨tr, mem_append_left _ htr, hp⟩,
      h.alone.start hcall, fun tr htr hrun => ?_⟩
    rcases mem_append.1 htr with htr | htr
    · exact h.knows tr htr hrun
    · rw [mem_singleton.1 htr]
      exact ⟨nofun, nofun, nofun⟩
  | @idle i call l b running hi hb =>
    refine ⟨h.separate.mono fun n hn => ?_, h.alone.set hi rfl hb, fun tr htr hrun => ?_⟩
    · exact (exists_mem_set_iff_other hi).2 ((exists_mem_iff_other hi).1 hn)
    rcases mem_or_eq_of_mem_set htr with htr | rfl
    · exact h.knows tr htr hrun
    · exact h.knows ⟨call, l, b⟩ (mem_of_getElem? hi) (hb hrun)
  | @ask i call l o a running hi hnext hcalm =>
  have hmem := mem_of_getElem? hi
  have hseparate : Separate v.state (Leaving
      (fun n => ∃ j a, j ≠ i ∧ v.traces[j]? = some a ∧ pending n a = true) call l) :=
    h.separate.mono fun n hn => (exists_mem_iff_other hi).1 hn
  have hafter := after_request hseparate (h.knows _ hmem rfl) hnext hcalm rfl
    fun hnone n hn => by
      obtain ⟨tr, htr, hp⟩ := (exists_mem_iff_other hi).2 hn
      rw [hnone tr htr n] at hp
      cases hp
  refine ⟨hafter.separate.mono fun n hn => (exists_mem_set_iff_other hi).2 hn,
    h.alone.set hi rfl fun _ => rfl, fun tr htr hrun => ?_⟩
  obtain ⟨j, hj⟩ := mem_iff_getElem?.1 htr
  rcases getElem?_set_cases hj with ⟨-, rfl⟩ | ⟨hji, hj⟩
  · exact hafter.knows
  · refine (h.knows tr (mem_of_getElem? hj) hrun).other hafter.leaves fun hname => ?_
    exact hji (h.alone j i tr _ hj hi hrun rfl hname)

/-- The registry and the allocator agree, as they do when the orchestrator starts. -/
structure State.Consistent (s : State) : Prop where
  valid : s.allocator.Valid
  held : ∀ n c, s.range n = some c → s.allocator.allocated n = some c

theorem State.Consistent.orderly (h : s.Consistent) :
    Orderly (⟨s, []⟩ : PoolView Resp State Call) := by
  refine ⟨⟨h.valid, fun n c hn => .inl (h.held n c hn), fun n m c d hn hm hne => ?_,
    fun n m c d hn hm hne => ?_, fun n c hn => h.valid.inside n c (h.held n c hn)⟩, nofun, nofun⟩
  · exact h.valid.disjoint (h.held n c hn) hm hne.symm
  · exact h.valid.disjoint (h.held n c hn) (h.held m d hm) hne.symm

/-- **The ranges of registered nodes are disjoint and inside the range of the cluster**, whatever
operations are in progress, if they meet the conditions; and the allocator never takes the range of
a registered node for free unless the node is on its way out. -/
theorem ranges_disjoint (hostname : String) (s : State) (hs : s.Consistent)
    (es : List (orchestrator hostname).Event)
    (hes : (orchestrator hostname).Meets (careful hostname) ⟨s, []⟩ es) :
    let y := (orchestrator hostname).run ⟨s, []⟩ es
    (∀ n m c d, n ≠ m → y.state.range n = some c → y.state.range m = some d → c.Disjoint d) ∧
      (∀ n c, y.state.range n = some c → ∀ x ∈ c, x ∈ y.state.allocator.clusterCidr) ∧
      ∀ n c, y.state.range n = some c → (∀ tr ∈ y.view.traces, pending n tr = false) →
        ∀ x ∈ c, y.state.allocator.owner x = some n := by
  intro y
  obtain ⟨horderly, -⟩ := Machine.invariant (J := Orderly) (obeys_body hostname)
    (fun _ _ h hstep => h.step hstep) (y := ⟨s, []⟩) nofun hs.orderly hes
  have hsep := horderly.separate
  refine ⟨fun n m c d hne hn hm => hsep.disjoint n m c d hn hm hne.symm, hsep.inside,
    fun n c hn hleaving => ?_⟩
  refine hsep.valid.owned n c ((hsep.held n c hn).resolve_right ?_)
  rintro ⟨tr, htr, hp⟩
  rw [hleaving tr htr] at hp
  cases hp

namespace Collision

/-- The range 10.42.0.0/16. -/
def cluster : Ipv4Net := ⟨10 * 2 ^ 24 + 42 * 2 ^ 16, 16⟩

def request (name : String) : RegisterNodeRequest := ⟨name, "http://" ++ name ++ ":50054", 24, none⟩

abbrev Events := List (orchestrator "scope").Event

def initial : Pool Resp String State Call := ⟨.new cluster, []⟩

/-- A turn in which a request is carried out, or fails without having been carried out. -/
def turn (fine : Bool) : sem.Turn where
  ans o :=
    match o with
    | .get _ | .register _ | .unregister _ =>
      if fine then Reply.done none else Reply.error false "timeout"
    | .now => (5 : ℕ)
    | .allocate .. | .seed .. | .release _ | .announce _ => ()
  flip := false

/-- The `i`-th call takes `n` turns. -/
def turns (i n : ℕ) : Events := List.replicate n (.turn i (turn true))

/-- Node `a` is registered and unregistered, and then node `b` is registered. -/
def oneByOne : Events :=
  .start (.register (request "a")) :: turns 0 4 ++ .start (.unregister "a") :: turns 1 5 ++
    .start (.register (request "b")) :: turns 2 4

theorem consistent_new : (State.new cluster).Consistent :=
  ⟨valid_new cluster, fun _ _ h => (nomatch h)⟩

theorem noneLeaving_of_all {v : PoolView Resp State Call}
    (h : v.traces.all (fun tr => (released tr.log).isNone) = true) : NoneLeaving v := by
  intro tr htr n
  have htr := all_eq_true.1 h tr htr
  rw [pending, Option.isNone_iff_eq_none.1 htr]
  rfl

theorem alone_of_all {v : PoolView Resp State Call} {n : String}
    (h : v.traces.all (fun tr => !tr.running) = true) :
    ∀ tr ∈ v.traces, tr.running = true → tr.call.name ≠ n := by
  intro tr htr hrun
  have htr := all_eq_true.1 h tr htr
  rw [hrun] at htr
  cases htr

theorem meets_oneByOne : (orchestrator "scope").Meets (careful "scope") initial oneByOne :=
  ⟨alone_of_all rfl, admits_ask rfl trivial,
    admits_ask rfl (noneLeaving_of_all rfl), admits_ask rfl trivial,
    admits_ask rfl (.inl rfl), alone_of_all rfl, admits_ask rfl trivial,
    admits_ask rfl trivial, admits_ask rfl rfl, admits_ask rfl trivial,
    admits_ask rfl trivial, alone_of_all rfl, admits_ask rfl trivial,
    admits_ask rfl (noneLeaving_of_all rfl), admits_ask rfl trivial,
    admits_ask rfl (.inl rfl), trivial⟩

/-- After that only `b` is registered, and the allocator knows it. -/
theorem ranges_oneByOne :
    let y := (orchestrator "scope").run initial oneByOne
    y.state.range "b" = some ⟨cluster.addr, 24⟩ ∧ y.state.range "a" = none ∧
      y.state.allocator.owner cluster.addr = some "b" := by
  have hb : ((orchestrator "scope").run initial oneByOne).state.range "b" =
      some ⟨cluster.addr, 24⟩ := by decide +kernel
  refine ⟨hb, by decide +kernel, ?_⟩
  exact (ranges_disjoint "scope" (.new cluster) consistent_new oneByOne meets_oneByOne).2.2 "b" _ hb
    (by decide +kernel) _ (by decide +kernel)

/-- The removal of `a` has released its range when `b` is registered; then the record of `a` cannot
be removed. -/
def overlapping : Events :=
  .start (.register (request "a")) :: turns 0 4 ++ .start (.unregister "a") :: turns 1 2 ++
    .start (.register (request "b")) :: turns 2 4 ++ [.turn 1 (turn false)]

/-- Both nodes are registered with the same range, and no call is in progress. -/
theorem same_range :
    let y := (orchestrator "scope").run initial overlapping
    y.state.range "a" = some ⟨cluster.addr, 24⟩ ∧ y.state.range "b" = some ⟨cluster.addr, 24⟩ ∧
      (y.view.traces.all fun tr => !tr.running) = true ∧
      -- and before that the allocator takes the range of `a` for free
      ((orchestrator "scope").run initial (overlapping.take 8)).state.range "a" =
        some ⟨cluster.addr, 24⟩ ∧
      ((orchestrator "scope").run initial (overlapping.take 8)).state.allocator.owner
        cluster.addr = none := by
  decide +kernel

end Collision

end Skyr.Container
