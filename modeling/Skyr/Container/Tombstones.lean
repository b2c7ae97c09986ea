import Skyr.Container.Nodes

/-!
# Tombstones

The gossip entries for a node are stamped by the clock: an entry for a live node when it is being
registered, a tombstone after its record has been removed.  A node that is registered again between
the removal of its record and the stamping of the tombstone has the older stamp, and is taken for
gone by everybody (`Comeback.shut_out`).  A clock that does not move forward has the same effect.

Where operations on one node do not overlap and the clock moves forward between them, the newest
entry for a node is that of a live one exactly when the node is registered; and this is what the
other nodes believe, in whatever order the entries have come to them (`newest_entry`).
-/

namespace Skyr.Container

open List Machine

open Overlay (PeerEntry KnownPeers)

/-! ## Conditions -/

/-- A registration with this log makes no further request. -/
def registrationDone (request : RegisterNodeRequest) : Log → Bool
  | ⟨.allocate .., .error _⟩ :: _ => true
  | ⟨.register _, .ok _⟩ :: _ => request.endpoint == ""
  | ⟨.announce _, _⟩ :: _ => true
  | ⟨.release _, _⟩ :: _ => true
  | _ => false

/-- A removal with this log makes no further request. -/
def removalDone : Log → Bool
  | ⟨.unregister _, .error _⟩ :: _ => true
  | [⟨.unregister _, .ok _⟩, _, ⟨.get _, .error _⟩] => true
  | ⟨.announce _, _⟩ :: _ => true
  | _ => false

/-- The call has made all its requests. -/
def finished (call : Call) (l : Log) : Bool :=
  match call with
  | .register request => registrationDone request l
  | .unregister _ | .evict _ => removalDone l

/-- A node has an address in the overlay network. -/
def HasEndpoint : Call → Prop
  | .register request => request.endpoint ≠ ""
  | _ => True

/-- What is required of single requests. -/
def Timely (s : State) (call : Call) : (o : Op) → Ans o → Prop
  | .get _, reply => call.removes = true → reply.isDone = true
  | .register _, reply => reply.isDone = true ∨ reply.applied = false
  | .unregister _, reply => reply.isDone = true ∨ reply.applied = false
  | .now, t => ∀ e ∈ s.minted, e.nodeName = call.name → e.lastSeenMicros < t
  | _, _ => True

/-- The conditions: an operation on a node is begun when all earlier ones on that node have come to
their end; nodes have an address in the overlay network; statements of the registry do what they
report, and the record of a node to be removed can be read; and every reading of the clock is later
than what the entries for the node have been stamped with. -/
def timely (hostname : String) : (orchestrator hostname).Conditions where
  start v call := HasEndpoint call ∧
    ∀ tr ∈ v.traces, tr.call.name = call.name → finished tr.call tr.log = true
  ask v call _ o a := Timely v.state call o a
  outside _ _ := True

/-! ## The entries of a node -/

/-- The entries for a node, the last one first. -/
def State.entries (s : State) (n : String) : List PeerEntry :=
  s.minted.filter fun e => e.nodeName == n

def State.registered (s : State) (n : String) : Bool := (s.nodes n).isSome

/-- The last entry for the node is that of a live one exactly when the node is registered. -/
def Agrees (s : State) (n : String) : Prop :=
  (s.entries n).head?.any (!·.tombstone) = s.registered n

/-- Every entry has a later stamp than those made before. -/
def Increasing (s : State) (n : String) : Prop :=
  (s.entries n).Pairwise fun e e' => e'.lastSeenMicros < e.lastSeenMicros

variable {s t : State} {n m : String} {e : PeerEntry}

theorem entries_mint_self (h : e.nodeName = n) : (s.mint e).entries n = e :: s.entries n :=
  filter_cons_of_pos (by rw [h, beq_self_eq_true])

theorem entries_mint_ne (h : e.nodeName ≠ n) : (s.mint e).entries n = s.entries n :=
  filter_cons_of_neg (by rwa [beq_iff_eq])

theorem mem_entries : e ∈ s.entries n ↔ e ∈ s.minted ∧ e.nodeName = n := by
  rw [State.entries, mem_filter, beq_iff_eq]

theorem registered_withNode_self (node : Option Node) :
    (s.withNode n node).registered n = node.isSome := by
  change (Function.update s.nodes n node n).isSome = _
  rw [Function.update_self]

/-- What concerns the other nodes stays as it is. -/
def Spares (n : String) (s t : State) : Prop :=
  ∀ m, m ≠ n → t.nodes m = s.nodes m ∧ t.entries m = s.entries m

theorem spares_refl (n : String) (s : State) : Spares n s s := fun _ _ => ⟨rfl, rfl⟩

theorem spares_withNode (n : String) (node : Option Node) (s : State) :
    Spares n s (s.withNode n node) := fun _ hm => ⟨Function.update_of_ne hm _ _, rfl⟩

theorem spares_mint (h : e.nodeName = n) (s : State) : Spares n s (s.mint e) :=
  fun _ hm => ⟨rfl, entries_mint_ne fun he => hm (he.symm.trans h)⟩

/-! ## Single operations

An operation changes a record and then makes the entry that tells of it.  Between the two its node
is in a gap, which only this operation closes. -/

/-- The node has just been registered, and the entry that tells of it is still to be made. -/
def registrationGap : Log → Bool
  | ⟨.register _, .ok _⟩ :: _ => true
  | _ => false

/-- The node has just been removed, and the entry that tells of it is still to be made. -/
def removalGap : Log → Bool
  | [⟨.unregister _, .ok _⟩, _, ⟨.get _, .ok _⟩] => true
  | [⟨.now, _⟩, ⟨.unregister _, .ok _⟩, _, ⟨.get _, .ok _⟩] => true
  | _ => false

def gap (call : Call) (l : Log) : Bool :=
  bif call.removes then removalGap l else registrationGap l

/-- The stamp of the entry that is to be made. -/
def stamp : Log → Option ℕ
  | ⟨.now, t⟩ :: _ => some t
  | ⟨.register node, .ok _⟩ :: _ => some node.overlayVersionMicros
  | _ => none

/-- The record of the node that is being removed. -/
def departing : Log → Option Node
  | [⟨.get _, .ok node⟩] => some node
  | [⟨.release _, _⟩, ⟨.get _, .ok node⟩] => some node
  | [⟨.unregister _, .ok _⟩, _, ⟨.get _, .ok node⟩] => some node
  | [⟨.now, _⟩, ⟨.unregister _, .ok _⟩, _, ⟨.get _, .ok node⟩] => some node
  | _ => none

/-- There was no record. -/
def foundNothing : Log → Bool
  | [⟨.get _, .error _⟩] => true
  | [⟨.release _, _⟩, ⟨.get _, .error _⟩] => true
  | _ => false

/-- What an operation in progress can rely on. -/
structure Expects (s : State) (call : Call) (l : Log) : Prop where
  later : ∀ t, stamp l = some t → ∀ e ∈ s.entries call.name, e.lastSeenMicros < t
  departs : ∀ node, departing l = some node → node.name = call.name
  absent : call.removes = true → foundNothing l = true ∨ removalGap l = true →
    s.nodes call.name = none
  present : call.removes = false → registrationGap l = true → s.registered call.name = true

theorem Expects.other {call : Call} {l : Log} (h : Expects s call l) (hspares : Spares n s t)
    (hne : call.name ≠ n) : Expects t call l := by
  obtain ⟨hnodes, hentries⟩ := hspares call.name hne
  refine ⟨fun u hu => ?_, h.departs, fun hcall hl => hnodes.trans (h.absent hcall hl),
    fun hcall hl => ?_⟩
  · rw [hentries]
    exact h.later u hu
  · rw [State.registered, hnodes]
    exact h.present hcall hl

/-- What holds between the requests of an operation, as far as its node is concerned. -/
structure Settling (s : State) (call : Call) (l : Log) : Prop where
  agrees : gap call l = true ∨ Agrees s call.name
  expects : Expects s call l
  increasing : Increasing s call.name
  named : ∀ node, s.nodes call.name = some node → node.name = call.name

section Request

variable {hostname : String} {call : Call} {l : Log}

/-- A new entry is later than the others. -/
theorem increasing_mint (h : Increasing s n) (hname : e.nodeName = n)
    (he : ∀ a ∈ s.entries n, a.lastSeenMicros < e.lastSeenMicros) : Increasing (s.mint e) n := by
  rw [Increasing, entries_mint_self hname]
  exact pairwise_cons.2 ⟨he, h⟩

theorem agrees_mint (hname : e.nodeName = n) (hreg : s.registered n = !e.tombstone) :
    Agrees (s.mint e) n := by
  rw [Agrees, entries_mint_self hname]
  exact hreg.symm

theorem gap_of_removes (hcall : call.removes = true) : gap call l = removalGap l := by
  rw [gap, hcall]
  rfl

variable {reply : Reply}

theorem settling_get (h : Settling s call [])
    (hreply : call.removes = true → reply.isDone = true) :
    Settling s call [⟨.get call.name, lookup reply call.name s⟩] := by
  have hagrees : Agrees s call.name := by
    refine h.agrees.resolve_left ?_
    cases call <;> exact nofun
  refine ⟨.inr hagrees, ⟨nofun, fun node hnode => ?_, fun hcall hl => ?_, nofun⟩, h.increasing,
    h.named⟩
  · cases reply with
    | error applied m => cases hnode
    | done cut =>
    refine h.named node ?_
    rw [lookup] at hnode
    cases hread : s.nodes call.name with
    | none =>
      rw [hread] at hnode
      cases hnode
    | some node' =>
    rw [hread] at hnode
    exact hnode
  cases reply with
  | error applied m => cases hreply hcall
  | done cut =>
  rw [lookup] at hl
  cases hread : s.nodes call.name with
  | none => rfl
  | some node' =>
  rw [hread] at hl
  rcases hl with hl | hl <;> cases hl

/-- A request that changes neither records nor entries, and is not followed by an announcement. -/
theorem Settling.quiet {x : Σ o, Resp o} (h : Settling s call l) (hgap : gap call l = false)
    (hnodes : t.nodes = s.nodes) (hminted : t.minted = s.minted)
    (hexpects : Expects s call (x :: l)) : Settling t call (x :: l) := by
  obtain ⟨v, nodes, minted⟩ := s
  obtain ⟨v', nodes', minted'⟩ := t
  obtain rfl : nodes' = nodes := hnodes
  obtain rfl : minted' = minted := hminted
  have hagrees := h.agrees.resolve_left (by rw [hgap]; exact nofun)
  exact ⟨.inr hagrees, ⟨hexpects.later, hexpects.departs, hexpects.absent, hexpects.present⟩,
    h.increasing, h.named⟩

theorem settling_register {request : RegisterNodeRequest} {c : Ipv4Net} {u : ℕ}
    (h : Settling s (.register request) (⟨.now, u⟩ :: l))
    (hreply : reply.isDone = true ∨ reply.applied = false) :
    Settling (act (.register (request.node c u)) reply s).2 (.register request)
      (⟨.register (request.node c u), (act (.register (request.node c u)) reply s).1⟩ ::
        ⟨.now, u⟩ :: l) := by
  cases reply with
  | error applied m =>
    obtain rfl : applied = false := hreply.resolve_left nofun
    exact h.quiet rfl rfl rfl ⟨nofun, nofun, nofun, nofun⟩
  | done cut =>
  refine ⟨.inl rfl, ⟨fun v hv => ?_, nofun, nofun, fun _ _ => registered_withNode_self _⟩,
    h.increasing, fun node hnode => ?_⟩
  · cases hv
    exact h.expects.later u rfl
  change Function.update s.nodes request.nodeName (some (request.node c u)) request.nodeName =
    some node at hnode
  rw [Function.update_self] at hnode
  cases hnode
  rfl

theorem settling_unregister (hcall : call.removes = true) {r : Except NodeError Node}
    (h : Settling s call [⟨.release call.name, ()⟩, ⟨.get call.name, r⟩])
    (hreply : reply.isDone = true ∨ reply.applied = false) :
    Settling (act (.unregister call.name) reply s).2 call
      [⟨.unregister call.name, (act (.unregister call.name) reply s).1⟩,
        ⟨.release call.name, ()⟩, ⟨.get call.name, r⟩] := by
  have hgap : gap call [⟨.release call.name, ()⟩, ⟨.get call.name, r⟩] = false :=
    gap_of_removes hcall
  cases reply with
  | error applied m =>
    obtain rfl : applied = false := hreply.resolve_left nofun
    exact h.quiet hgap rfl rfl ⟨nofun, nofun, fun _ hl => hl.elim nofun nofun, nofun⟩
  | done cut =>
  have hnone : (s.withNode call.name none).nodes call.name = none := Function.update_self _ _ _
  have hnamed : ∀ node, (s.withNode call.name none).nodes call.name = some node →
      node.name = call.name := by
    intro node hnode
    rw [hnone] at hnode
    cases hnode
  cases r with
  | ok node =>
    refine ⟨.inl (gap_of_removes hcall), ⟨nofun, fun node' hnode => ?_, fun _ _ => hnone, nofun⟩,
      h.increasing, hnamed⟩
    cases hnode
    exact h.expects.departs node rfl
  | error e =>
  -- there was no record, and so nothing has changed
  have hagrees := h.agrees.resolve_left (by rw [hgap]; exact nofun)
  have hsame : (s.withNode call.name none).registered call.name = s.registered call.name := by
    rw [State.registered, hnone, State.registered, h.expects.absent hcall (.inl rfl)]
  exact ⟨.inr (hagrees.trans hsame.symm),
    ⟨nofun, nofun, fun _ hl => hl.elim nofun nofun, nofun⟩, h.increasing, hnamed⟩

variable {o : Op}

/-- **One request** leaves the node settled, or on its way to be. -/
theorem settling_request (h : Settling s call l) (hnext : Next hostname call l o)
    {a : Ans o} (ha : Timely s call o a) :
    Settling (act o a s).2 call (⟨o, (act o a s).1⟩ :: l) := by
  have hentries : ∀ u : ℕ, (∀ e ∈ s.minted, e.nodeName = call.name → e.lastSeenMicros < u) →
      ∀ e ∈ s.entries call.name, e.lastSeenMicros < u := by
    intro u hu e he
    exact hu e (mem_entries.1 he).1 (mem_entries.1 he).2
  cases hnext with
  | get => exact settling_get h ha
  | seed | allocate | rollback => exact h.quiet rfl rfl rfl ⟨nofun, nofun, nofun, nofun⟩
  | version hl =>
    refine h.quiet ?_ rfl rfl ⟨fun u hu => ?_, fun node hnode => ?_, nofun, nofun⟩
    · cases hl <;> rfl
    · cases hu
      exact hentries _ ha
    · cases hl <;> cases hnode
  | register => exact settling_register h ha
  | announce =>
    have hlater := h.expects.later _ rfl
    exact ⟨.inr (agrees_mint rfl (h.expects.present rfl rfl)), ⟨nofun, nofun, nofun, nofun⟩,
      increasing_mint h.increasing rfl hlater, h.named⟩
  | @release _ hcall r =>
    refine h.quiet (gap_of_removes hcall) rfl rfl ⟨nofun, fun node hnode => ?_, fun _ hl => ?_,
      fun hreg => ?_⟩
    · cases r with
      | ok node' => exact h.expects.departs node hnode
      | error e => cases hnode
    · refine h.expects.absent hcall ?_
      cases r with
      | ok node' => exact hl.elim nofun nofun
      | error e => exact .inl rfl
    · exact nofun
  | unregister hcall => exact settling_unregister hcall h ha
  | @departure _ hcall node =>
    refine ⟨.inl (gap_of_removes hcall), ⟨fun u hu => ?_, fun node' hnode => ?_, fun _ _ => ?_,
      nofun⟩, h.increasing, h.named⟩
    · cases hu
      exact hentries _ ha
    · cases hnode
      exact h.expects.departs node rfl
    · exact h.expects.absent hcall (.inr rfl)
  | @tombstone _ hcall node u =>
  have hname : (tombstone hostname node u).nodeName = call.name := h.expects.departs node rfl
  refine ⟨.inr (agrees_mint hname ?_), ⟨nofun, nofun, fun _ hl => hl.elim nofun nofun, nofun⟩,
    increasing_mint h.increasing hname (h.expects.later u rfl), h.named⟩
  rw [State.registered, h.expects.absent hcall (.inr rfl)]
  rfl

/-- Nothing else is touched. -/
theorem spares_request (h : Settling s call l) (hnext : Next hostname call l o)
    (a : Ans o) : Spares call.name s (act o a s).2 := by
  have hstatement : ∀ (reply : Reply) (node : Option Node),
      Spares call.name s (statement reply (·.withNode call.name node) s).2 := by
    intro reply node
    cases reply with
    | done cut => exact spares_withNode _ _ s
    | error applied m =>
    cases applied with
    | true => exact spares_withNode _ _ s
    | false => exact spares_refl _ s
  cases hnext with
  | register | unregister => exact hstatement a _
  | @announce request _ _ u =>
    exact spares_mint (e := request.entry hostname u) (n := request.nodeName) rfl s
  | @tombstone _ _ node u =>
    exact spares_mint (e := tombstone hostname node u) (h.expects.departs node rfl) s
  | _ => exact spares_refl _ s

theorem unfinished_of_next (hnext : Next hostname call l o) : finished call l = false := by
  cases hnext with
  | get => cases call <;> rfl
  | version hl => cases hl <;> rfl
  | announce hendpoint => exact beq_false_of_ne hendpoint
  | release hcall | unregister hcall | departure hcall | tombstone hcall =>
    cases call with | register => cases hcall | _ => rfl
  | _ => rfl

theorem unfinished_of_gap (hcall : HasEndpoint call) (h : gap call l = true) :
    finished call l = false := by
  have hremoval : ∀ l, removalGap l = true → removalDone l = false := by
    intro l hl
    unfold removalGap at hl
    split at hl
    · rfl
    · rfl
    · cases hl
  cases call with
  | register request =>
    change registrationGap l = true at h
    unfold registrationGap at h
    split at h
    · exact beq_false_of_ne hcall
    · cases h
  | unregister | evict => exact hremoval l h

end Request

/-! ## All operations

The gap between a record and the entry that tells of it is open only while an operation on the node
is in progress. -/

/-- Every node is told of as it should be, or an operation is about to see to that. -/
structure Told (v : PoolView Resp State Call) : Prop where
  agrees : ∀ n, (∃ tr ∈ v.traces, tr.call.name = n ∧ gap tr.call tr.log = true) ∨ Agrees v.state n
  increasing : ∀ n, Increasing v.state n
  named : ∀ n node, v.state.nodes n = some node → node.name = n
  alone : Alone (fun tr => !finished tr.call tr.log) v.traces
  endpoints : ∀ tr ∈ v.traces, HasEndpoint tr.call
  expects : ∀ tr ∈ v.traces, finished tr.call tr.log = false → Expects v.state tr.call tr.log

theorem Spares.agrees (h : Spares n s t) (hm : m ≠ n) (hagrees : Agrees s m) : Agrees t m := by
  obtain ⟨hnodes, hentries⟩ := h m hm
  rw [Agrees, hentries, State.registered, hnodes]
  exact hagrees

theorem Spares.increasing (h : Spares n s t) (hm : m ≠ n) (hinc : Increasing s m) :
    Increasing t m := by
  rw [Increasing, (h m hm).2]
  exact hinc

/-- What is known of the node of a call that is not finished. -/
theorem Told.settling {v : PoolView Resp State Call} (h : Told v) {i : ℕ}
    {tr : Trace Resp Call} (hi : v.traces[i]? = some tr) (hbusy : finished tr.call tr.log = false) :
    Settling v.state tr.call tr.log := by
  refine ⟨(h.agrees tr.call.name).imp_left ?_, h.expects tr (mem_of_getElem? hi) hbusy,
    h.increasing _, h.named _⟩
  rintro ⟨tr', htr', hname, hgap⟩
  obtain ⟨j, hj⟩ := mem_iff_getElem?.1 htr'
  have hbusy' := unfinished_of_gap (h.endpoints tr' htr') hgap
  obtain rfl : j = i := h.alone j i tr' tr hj hi (congrArg not hbusy') (congrArg not hbusy) hname
  rw [hi] at hj
  cases hj
  exact hgap

/-- **Every step** keeps this. -/
theorem Told.step {hostname : String} {v v' : PoolView Resp State Call} (h : Told v)
    (hstep : (orchestrator hostname).Step (Next hostname) (timely hostname) v v') : Told v' := by
  cases hstep with
  | outside e => exact nomatch e
  | start call running hcall =>
    refine ⟨fun n => (h.agrees n).imp_left ?_, h.increasing, h.named, h.alone.start ?_,
      fun tr htr => ?_, fun tr htr hbusy => ?_⟩
    · rintro ⟨tr, htr, hgap⟩
      exact ⟨tr, mem_append_left _ htr, hgap⟩
    · intro tr htr hbusy hname
      rw [hcall.2 tr htr hname] at hbusy
      cases hbusy
    · rcases mem_append.1 htr with htr | htr
      · exact h.endpoints tr htr
      · rw [mem_singleton.1 htr]
        exact hcall.1
    rcases mem_append.1 htr with htr | htr
    · exact h.expects tr htr hbusy
    · rw [mem_singleton.1 htr]
      exact ⟨nofun, nofun, fun _ hl => hl.elim nofun nofun, nofun⟩
  | @idle i call l b running hi hb =>
    have hmem := mem_of_getElem? hi
    refine ⟨fun n => (h.agrees n).imp_left fun hgap => ?_, h.increasing, h.named,
      h.alone.set hi rfl id, fun tr htr => ?_, fun tr htr hbusy => ?_⟩
    · exact (exists_mem_set_iff_other hi).2 ((exists_mem_iff_other hi).1 hgap)
    · rcases mem_or_eq_of_mem_set htr with htr | rfl
      · exact h.endpoints tr htr
      · exact h.endpoints ⟨call, l, b⟩ hmem
    rcases mem_or_eq_of_mem_set htr with htr | rfl
    · exact h.expects tr htr hbusy
    · exact h.expects ⟨call, l, b⟩ hmem hbusy
  | @ask i call l o a running hi hnext ha =>
  have hmem := mem_of_getElem? hi
  have hbusy := unfinished_of_next hnext
  have hbefore := h.settling hi hbusy
  have hafter := settling_request hbefore hnext ha
  have hspares := spares_request hbefore hnext a
  refine ⟨fun n => ?_, fun n => ?_, fun n node hnode => ?_, h.alone.set hi rfl ?_,
    fun tr htr => ?_, fun tr htr hbusy' => ?_⟩
  · by_cases hn : n = call.name
    · subst hn
      exact hafter.agrees.imp_left fun hgap => (exists_mem_set_iff_other hi).2 (.inr ⟨rfl, hgap⟩)
    refine (h.agrees n).imp (fun hgap => ?_) (hspares.agrees hn)
    refine (exists_mem_set_iff_other hi).2 (((exists_mem_iff_other hi).1 hgap).imp_right ?_)
    exact fun hgap => absurd hgap.1.symm hn
  · by_cases hn : n = call.name
    · subst hn
      exact hafter.increasing
    · exact hspares.increasing hn (h.increasing n)
  · by_cases hn : n = call.name
    · subst hn
      exact hafter.named node hnode
    · exact h.named n node ((hspares n hn).1.symm.trans hnode)
  · exact fun _ => congrArg not hbusy
  · rcases mem_or_eq_of_mem_set htr with htr | rfl
    · exact h.endpoints tr htr
    · exact h.endpoints ⟨call, l, true⟩ hmem
  obtain ⟨j, hj⟩ := mem_iff_getElem?.1 htr
  rcases getElem?_set_cases hj with ⟨-, rfl⟩ | ⟨hji, hj⟩
  · exact hafter.expects
  · refine (h.expects tr (mem_of_getElem? hj) hbusy').other hspares fun hname => hji ?_
    exact h.alone j i tr _ hj hi (congrArg not hbusy') (congrArg not hbusy) hname

/-- Every registered node has been told of, and no other one, as is the case at the beginning. -/
structure State.Announced (s : State) : Prop where
  agrees : ∀ n, Agrees s n
  increasing : ∀ n, Increasing s n
  named : ∀ n node, s.nodes n = some node → node.name = n

theorem State.Announced.told (h : s.Announced) : Told (⟨s, []⟩ : PoolView Resp State Call) :=
  ⟨fun n => .inr (h.agrees n), h.increasing, h.named, nofun, nofun, nofun⟩

/-- No entry for the node has a later stamp. -/
def State.IsNewest (s : State) (n : String) (e : PeerEntry) : Prop :=
  e ∈ s.entries n ∧ ∀ a ∈ s.entries n, a.lastSeenMicros ≤ e.lastSeenMicros

/-- The last entry is the newest one. -/
theorem head_of_isNewest (h : Increasing s n) (he : s.IsNewest n e) :
    (s.entries n).head? = some e := by
  cases hentries : s.entries n with
  | nil =>
    have hmem := he.1
    rw [hentries] at hmem
    exact absurd hmem not_mem_nil
  | cons a es =>
  rw [Increasing, hentries] at h
  rw [State.IsNewest, hentries] at he
  rcases mem_cons.1 he.1 with rfl | hmem
  · rfl
  · have hlt := (pairwise_cons.1 h).1 e hmem
    exact absurd (he.2 a mem_cons_self) (Nat.not_le.2 hlt)

theorem isNewest_head (h : Increasing s n) (he : (s.entries n).head? = some e) :
    e ∈ s.entries n ∧ ∀ a ∈ s.entries n, a = e ∨ a.lastSeenMicros < e.lastSeenMicros := by
  cases hentries : s.entries n with
  | nil =>
    rw [hentries] at he
    cases he
  | cons b es =>
  rw [hentries] at he
  cases he
  rw [Increasing, hentries] at h
  refine ⟨mem_cons_self, fun a ha => ?_⟩
  exact (mem_cons.1 ha).imp_right ((pairwise_cons.1 h).1 a)

/-- What a node believes that has received all entries, in any order. -/
theorem isLive_mergeAll (h : Increasing s n) (hagrees : Agrees s n) {self : String}
    (hself : n ≠ self) (hn : n ≠ "") {es : List PeerEntry} (hes : es.Perm s.minted) :
    (KnownPeers.new.mergeAll self es).isLive n = s.registered n := by
  rw [KnownPeers.isLive, ← hagrees]
  cases hhead : (s.entries n).head? with
  | none =>
    have hempty : ∀ e ∈ es, e.nodeName ≠ n := by
      intro e he hname
      have hmem := mem_entries.2 ⟨hes.mem_iff.1 he, hname⟩
      rw [head?_eq_none_iff.1 hhead] at hmem
      exact absurd hmem not_mem_nil
    rw [KnownPeers.get_mergeAll_of_notMem hempty]
    rfl
  | some e =>
  obtain ⟨hmem, hnewest⟩ := isNewest_head h hhead
  obtain ⟨hminted, hname⟩ := mem_entries.1 hmem
  rw [KnownPeers.get_mergeAll hself hn (hes.mem_iff.2 hminted) hname
    (fun a ha hname => hnewest a (mem_entries.2 ⟨hes.mem_iff.1 ha, hname⟩))
    fun st hst => nomatch KnownPeers.get_new.symm.trans hst]
  rfl

/-- **The newest entry for a node is that of a live node exactly when the node is registered**,
whenever no operation on it is in progress; and so a node that has received all entries, in any
order, takes exactly the registered ones for live. -/
theorem newest_entry (hostname : String) (s : State) (hs : s.Announced)
    (es : List (orchestrator hostname).Event)
    (hes : (orchestrator hostname).Meets (timely hostname) ⟨s, []⟩ es) (n : String)
    (hdone : ∀ tr ∈ ((orchestrator hostname).run ⟨s, []⟩ es).view.traces, tr.call.name = n →
      finished tr.call tr.log = true) :
    let t := ((orchestrator hostname).run ⟨s, []⟩ es).state
    (∀ e, t.IsNewest n e → (e.tombstone = false ↔ t.registered n = true)) ∧
      (t.registered n = true → ∃ e, t.IsNewest n e) ∧
      ∀ self es, n ≠ self → n ≠ "" → es.Perm t.minted →
        (KnownPeers.new.mergeAll self es).isLive n = t.registered n := by
  intro t
  obtain ⟨htold, -⟩ := Machine.invariant (J := Told) (obeys_body hostname)
    (fun _ _ h hstep => h.step hstep) (y := ⟨s, []⟩) nofun hs.told hes
  have hinc : Increasing t n := htold.increasing n
  have hagrees : Agrees t n := by
    refine (htold.agrees n).resolve_left ?_
    rintro ⟨tr, htr, hname, hgap⟩
    have hbusy := unfinished_of_gap (htold.endpoints tr htr) hgap
    rw [hdone tr htr hname] at hbusy
    cases hbusy
  refine ⟨fun e he => ?_, fun hreg => ?_, fun self es hself hn hperm =>
    isLive_mergeAll hinc hagrees hself hn hperm⟩
  · rw [← hagrees, head_of_isNewest hinc he]
    simp
  rw [← hagrees] at hreg
  cases hhead : (t.entries n).head? with
  | none =>
    rw [hhead] at hreg
    cases hreg
  | some e =>
  obtain ⟨hmem, hnewest⟩ := isNewest_head hinc hhead
  refine ⟨e, hmem, fun a ha => ?_⟩
  rcases hnewest a ha with rfl | hlt
  · exact Nat.le_refl _
  · exact hlt.le

namespace Comeback

def request : RegisterNodeRequest := ⟨"a", "http://10.0.0.1:50054", 24, some "10.0.0.1"⟩

abbrev Events := List (orchestrator "scope").Event

def initial : Pool Resp String State Call := ⟨.new ⟨10 * 2 ^ 24 + 42 * 2 ^ 16, 16⟩, []⟩

/-- A turn in which everything goes well, with what the clock shows. -/
def turn (time : ℕ) : sem.Turn where
  ans o :=
    match o with
    | .get _ | .register _ | .unregister _ => Reply.done none
    | .now => time
    | .allocate .. | .seed .. | .release _ | .announce _ => ()
  flip := false

/-- The `i`-th call takes `n` turns. -/
def turns (i n time : ℕ) : Events := List.replicate n (.turn i (turn time))

/-- A node is registered, evicted and registered again. -/
def oneByOne : Events :=
  .start (.register request) :: turns 0 5 1 ++ .start (.evict "a") :: turns 1 5 2 ++
    .start (.register request) :: turns 2 5 3

theorem announced_new : initial.state.Announced := ⟨fun _ => rfl, fun _ => List.Pairwise.nil, nofun⟩

theorem finished_of_all {v : PoolView Resp State Call} {n : String}
    (h : v.traces.all (fun tr => finished tr.call tr.log) = true) :
    ∀ tr ∈ v.traces, tr.call.name = n → finished tr.call tr.log = true :=
  fun tr htr _ => all_eq_true.1 h tr htr

theorem later_of_all {s : State} {n : String} {time : ℕ}
    (h : s.minted.all (fun e => decide (e.lastSeenMicros < time)) = true) :
    ∀ e ∈ s.minted, e.nodeName = n → e.lastSeenMicros < time :=
  fun e he _ => of_decide_eq_true (all_eq_true.1 h e he)

theorem hasEndpoint_request : HasEndpoint (.register request) := by
  change request.endpoint ≠ ""
  decide

theorem meets_oneByOne : (orchestrator "scope").Meets (timely "scope") initial oneByOne :=
  ⟨⟨hasEndpoint_request, finished_of_all rfl⟩, admits_ask rfl nofun,
    admits_ask rfl trivial, admits_ask rfl (later_of_all rfl),
    admits_ask rfl (.inl rfl), admits_ask rfl trivial,
    ⟨trivial, finished_of_all rfl⟩, admits_ask rfl fun _ => rfl,
    admits_ask rfl trivial, admits_ask rfl (.inl rfl),
    admits_ask rfl (later_of_all rfl), admits_ask rfl trivial,
    ⟨hasEndpoint_request, finished_of_all rfl⟩, admits_ask rfl nofun,
    admits_ask rfl trivial, admits_ask rfl (later_of_all rfl),
    admits_ask rfl (.inl rfl), admits_ask rfl trivial, trivial⟩

/-- The node is registered, and a node that has received the entries backwards knows it. -/
theorem newest_oneByOne :
    let t := ((orchestrator "scope").run initial oneByOne).state
    t.registered "a" = true ∧ (KnownPeers.new.mergeAll "b" t.minted).isLive "a" = true := by
  have hreg : ((orchestrator "scope").run initial oneByOne).state.registered "a" = true := by
    decide +kernel
  refine ⟨hreg, ?_⟩
  have hlive := (newest_entry "scope" _ announced_new oneByOne meets_oneByOne "a"
    (finished_of_all (by decide +kernel))).2.2 "b" _ (by decide) (by decide) (List.Perm.refl _)
  exact hlive.trans hreg

/-- The node is registered again after its record has been removed, and before the tombstone is
stamped. -/
def overlapping : Events :=
  .start (.register request) :: turns 0 5 1 ++ .start (.evict "a") :: turns 1 3 2 ++
    .start (.register request) :: turns 2 5 3 ++ turns 1 2 4

/-- The node is registered, no call is in progress, and the newest entry for it is a tombstone, so
that the other nodes take it for gone. -/
theorem shut_out :
    let y := (orchestrator "scope").run initial overlapping
    y.state.registered "a" = true ∧ (y.view.traces.all fun tr => !tr.running) = true ∧
      (y.state.entries "a").map (fun e => (e.lastSeenMicros, e.tombstone)) =
        [(4, true), (3, false), (1, false)] ∧
      (KnownPeers.new.mergeAll "b" y.state.minted).isLive "a" = false ∧
      (KnownPeers.new.mergeAll "b" y.state.minted.reverse).isLive "a" = false := by
  decide +kernel

end Comeback

end Skyr.Container
