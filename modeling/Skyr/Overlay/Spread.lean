import Mathlib.Data.Finset.Prod
import Skyr.Overlay.Gossip

/-!
# How entries spread

A node that receives entries merges them into its table, and sends those that are in the table
afterwards on to a few random peers.  An entry that the node had before is in its table, too; so it
is sent on once more, and in a cluster of three nodes it goes round forever (`Ring.forever`).

Besides pushing, nodes compare their tables from time to time: one sends a digest, and the other
one answers with what is newer.  Messages may be lost, and arrive in any order.  Every node drops old
tombstones after a while; what it then gets once more is new to it.

Where a node that receives what it already has knows nobody to send it to, and none receives again
what it has dropped, every node sends every entry on at most once, and the number of messages is
bounded (`gossip_terminates`).
-/

namespace Skyr.Overlay

open List Function

/-- A message with entries. -/
structure Push where
  fromNode : String
  target : String
  entries : List PeerEntry

/-- A node is going to send on what it has received. -/
structure Fanout where
  node : String
  fromNode : String
  entries : List PeerEntry
  /-- All of it was new to the node.  The code does not look at this. -/
  news : Bool

structure Question where
  node : String
  peer : String
  digest : KnownPeers.PeerDigest

structure Answer where
  node : String
  peer : String
  delta : List PeerEntry

structure Cluster where
  tables : String → KnownPeers
  /-- What a node has received before its network is ready. -/
  buffered : String → Option (List PeerEntry)
  pushes : List Push
  fanouts : List Fanout
  questions : List Question
  answers : List Answer
  /-- How many messages the nodes have pushed so far. -/
  sent : ℕ
  /-- Which node has sent on an entry with which name and stamp. -/
  forwarded : List (String × String × ℕ)
  /-- Which node has dropped a tombstone with which name and stamp. -/
  dropped : List (String × String × ℕ)

def PeerEntry.id (e : PeerEntry) : String × ℕ := (e.nodeName, e.lastSeenMicros)

inductive Event
  | deliver (i : ℕ)
  | lose (i : ℕ)
  /-- Entries are sent on, to peers in this order. -/
  | fanout (i : ℕ) (order : List String)
  | question (node peer : String)
  | answer (i : ℕ)
  | merge (i : ℕ)
  | ready (node : String)
  /-- A node drops the tombstones that are older than the time to live. -/
  | collect (node : String) (now ttl : ℕ)

/-- How many peers an entry is sent to. -/
def effectiveFanout (fanout : ℕ) : ℕ := if fanout = 0 then 3 else fanout

namespace Cluster

variable (nodes : Finset String) (size : ℕ) (c : Cluster)

/-- Everything in it is new to the node. -/
def isNews (k : KnownPeers) (entries : List PeerEntry) : Bool :=
  entries.all (fun e => !k.has e) && decide (entries.map PeerEntry.id).Nodup

/-- A node merges entries, and is going to send on what it finds in its table then. -/
def accept (node fromNode : String) (entries : List PeerEntry) : Cluster :=
  let (changed, k) := KnownPeers.receive node entries (c.tables node)
  { c with
    tables := Function.update c.tables node k
    fanouts := c.fanouts ++
      if changed = [] then [] else [⟨node, fromNode, changed, isNews (c.tables node) changed⟩] }

/-- The peers that entries may be sent to: neither the node itself nor the sender. -/
def audience (f : Fanout) : List String :=
  (c.tables f.node).livePeers.filter fun n => n != f.node && n != f.fromNode

/-- The peers that entries are sent to. -/
def targets (f : Fanout) (order : List String) : List String :=
  (if order.isPerm (c.audience f) then order else c.audience f).take (effectiveFanout size)

def gossipPeers (p : Push) : Cluster :=
  if p.target ∈ nodes then
    match c.buffered p.target with
    | some entries =>
      { c with buffered := Function.update c.buffered p.target (some (entries ++ p.entries)) }
    | none => c.accept p.target p.fromNode p.entries
  else c

def reactiveFanout (f : Fanout) (order : List String) : Cluster :=
  let targets := c.targets size f order
  { c with
    pushes := c.pushes ++ targets.map fun target => ⟨f.node, target, f.entries⟩
    sent := c.sent + targets.length
    forwarded := c.forwarded ++ if targets = [] then [] else f.entries.map fun e => (f.node, e.id) }

/-- The network is ready, and what was received before is merged. -/
def networkReady (node : String) : Cluster :=
  match c.buffered node with
  | none => c
  | some entries =>
    { c with
      tables := Function.update c.tables node ((c.tables node).mergeAll node entries)
      buffered := Function.update c.buffered node none }

def tombstoneGc (node : String) (now ttl : ℕ) : Cluster :=
  { c with
    tables := Function.update c.tables node ((c.tables node).gcTombstones now ttl)
    dropped := c.dropped ++ ((c.tables node).expired now ttl).map fun x => (node, x) }

def reply (q : Question) : Answer :=
  ⟨q.node, q.peer, if q.peer ∈ nodes ∧ c.buffered q.peer = none then
    (c.tables q.peer).deltaFor q.digest q.peer else []⟩

def step : Event → Cluster
  | .deliver i =>
    match c.pushes[i]? with
    | some p => gossipPeers nodes { c with pushes := c.pushes.eraseIdx i } p
    | none => c
  | .lose i => { c with pushes := c.pushes.eraseIdx i }
  | .fanout i order =>
    match c.fanouts[i]? with
    | some f => reactiveFanout size { c with fanouts := c.fanouts.eraseIdx i } f order
    | none => c
  | .question node peer =>
    if node ∈ nodes ∧ peer ∈ (c.tables node).livePeers ∧ peer ≠ node then
      { c with questions := ⟨node, peer, (c.tables node).digest⟩ :: c.questions }
    else c
  | .answer i =>
    match c.questions[i]? with
    | some q =>
      { c with
        questions := c.questions.eraseIdx i
        answers := reply nodes c q :: c.answers }
    | none => c
  | .merge i =>
    match c.answers[i]? with
    | some a => accept { c with answers := c.answers.eraseIdx i } a.node a.peer a.delta
    | none => c
  | .ready node => c.networkReady node
  | .collect node now ttl => c.tombstoneGc node now ttl

def run (es : List Event) : Cluster := es.foldl (step nodes size) c

/-! ## Conditions -/

/-- The node has not dropped a tombstone that is as new as one of the entries. -/
def Unseen (node : String) (entries : List PeerEntry) : Prop :=
  ∀ e ∈ entries, ∀ t, (node, e.nodeName, t) ∈ c.dropped → t < e.lastSeenMicros

/-- Something that a node already had is sent to nobody, and what it has dropped does not come
back. -/
def Admits : Event → Prop
  | .fanout i _ => ∀ f, c.fanouts[i]? = some f → f.news = false → c.audience f = []
  | .deliver i => ∀ p, c.pushes[i]? = some p → c.buffered p.target = none →
      c.Unseen p.target p.entries
  | .merge i => ∀ a, c.answers[i]? = some a → c.Unseen a.node a.delta
  | _ => True

def Meets : Cluster → List Event → Prop
  | _, [] => True
  | c, e :: es => Admits c e ∧ Meets (step nodes size c e) es

/-- Nothing has been sent on yet. -/
structure Fresh : Prop where
  fanouts : c.fanouts = []
  questions : c.questions = []
  answers : c.answers = []
  sent : c.sent = 0
  forwarded : c.forwarded = []
  dropped : c.dropped = []

/-- The names and stamps there are. -/
def stamps : Finset (String × ℕ) :=
  nodes.biUnion (fun v => ((c.tables v).digest ++
    ((c.buffered v).getD []).map PeerEntry.id).toFinset) ∪
  (c.pushes.flatMap fun p => p.entries.map PeerEntry.id).toFinset

/-! ## What is in circulation -/

/-- What nodes have sent on, and what they are going to send on as news. -/
def history : List (String × String × ℕ) :=
  c.forwarded ++ (c.fanouts.filter Fanout.news).flatMap fun f => f.entries.map fun e => (f.node, e.id)

/-- All stamps are in `U`. -/
structure Within (U : Finset (String × ℕ)) : Prop where
  tables : ∀ v ∈ nodes, ∀ n st, (c.tables v).get n = some st → (n, st.lastSeenMicros) ∈ U
  buffered : ∀ v ∈ nodes, ∀ es, c.buffered v = some es → ∀ e ∈ es, e.id ∈ U
  pushes : ∀ p ∈ c.pushes, ∀ e ∈ p.entries, e.id ∈ U
  fanouts : ∀ f ∈ c.fanouts, f.node ∈ nodes ∧ f.entries ≠ [] ∧ ∀ e ∈ f.entries, e.id ∈ U
  questions : ∀ q ∈ c.questions, q.node ∈ nodes
  answers : ∀ a ∈ c.answers, a.node ∈ nodes ∧ ∀ e ∈ a.delta, e.id ∈ U

/-- The table has an entry for the node that is not older. -/
def Knows (x : String × String × ℕ) : Prop :=
  ∃ st, (c.tables x.1).get x.2.1 = some st ∧ x.2.2 ≤ st.lastSeenMicros

/-- The node has had an entry that is not older, and has dropped it. -/
def Dropped (x : String × String × ℕ) : Prop := ∃ t, (x.1, x.2.1, t) ∈ c.dropped ∧ x.2.2 ≤ t

/-- Nothing is sent on twice, and what was sent on is in the tables or was dropped. -/
structure Once (U : Finset (String × ℕ)) : Prop where
  nodup : c.history.Nodup
  range : ∀ x ∈ c.history, x ∈ nodes ×ˢ U
  knows : ∀ x ∈ c.history, c.Knows x ∨ c.Dropped x
  sent : c.sent ≤ effectiveFanout size * c.forwarded.length

variable {nodes size c} {U : Finset (String × ℕ)}

theorem Within.accept (h : Within nodes c U) {node fromNode : String} {entries : List PeerEntry}
    (hnode : node ∈ nodes) (hentries : ∀ e ∈ entries, e.id ∈ U) :
    Within nodes (c.accept node fromNode entries) U := by
  obtain ⟨hgrown, hsub, -⟩ := KnownPeers.receive_spec node entries (c.tables node)
  refine ⟨fun v hv n st hst => ?_, h.buffered, h.pushes, fun f hf => ?_, h.questions, h.answers⟩
  · change (Function.update c.tables node _ v).get n = some st at hst
    by_cases hvn : v = node
    · subst hvn
      rw [update_self] at hst
      rcases hgrown.origin n st hst with hst | ⟨e, he, rfl, rfl⟩
      · exact h.tables v hv n st hst
      · exact hentries e he
    · rw [update_of_ne hvn] at hst
      exact h.tables v hv n st hst
  rcases mem_append.1 hf with hf | hf
  · exact h.fanouts f hf
  split at hf
  · exact absurd hf not_mem_nil
  next hne =>
  rw [mem_singleton.1 hf]
  exact ⟨hnode, hne, fun e he => hentries e (hsub.subset he)⟩

/-- Tables may grow. -/
theorem Knows.grown {d : Cluster} {x : String × String × ℕ} {es : List PeerEntry}
    (h : c.Knows x) (hgrown : KnownPeers.Grown es (c.tables x.1) (d.tables x.1)) : d.Knows x := by
  obtain ⟨st, hst, hle⟩ := h
  obtain ⟨st', hst', hnewer⟩ := hgrown.newer _ st hst
  refine ⟨st', hst', ?_⟩
  rcases hnewer with rfl | hlt
  · exact hle
  · exact hle.trans hlt.le

theorem grown_accept (c : Cluster) (node fromNode v : String) (entries : List PeerEntry) :
    KnownPeers.Grown entries (c.tables v) ((c.accept node fromNode entries).tables v) := by
  change KnownPeers.Grown entries (c.tables v) (Function.update c.tables node _ v)
  by_cases hv : v = node
  · subst hv
    rw [update_self]
    exact (KnownPeers.receive_spec v entries (c.tables v)).1
  · rw [update_of_ne hv]
    exact .rfl _ _

/-- What a node is going to send on after it has received entries. -/
theorem history_accept (c : Cluster) (node fromNode : String) (entries : List PeerEntry) :
    let changed := (KnownPeers.receive node entries (c.tables node)).1
    (c.accept node fromNode entries).history = c.history ∨
      isNews (c.tables node) changed = true ∧
        (c.accept node fromNode entries).history =
          c.history ++ changed.map fun e => (node, e.id) := by
  intro changed
  have hfanouts : (c.accept node fromNode entries).fanouts = c.fanouts ++
      if changed = [] then []
      else [⟨node, fromNode, changed, isNews (c.tables node) changed⟩] := rfl
  have hforwarded : (c.accept node fromNode entries).forwarded = c.forwarded := rfl
  rw [history, hfanouts, hforwarded]
  by_cases hempty : changed = []
  · rw [if_pos hempty, append_nil]
    exact .inl rfl
  rw [if_neg hempty, filter_append, flatMap_append, ← append_assoc]
  cases hnews : isNews (c.tables node) changed with
  | false =>
    left
    rw [filter_singleton]
    exact append_nil _
  | true =>
  refine .inr ⟨rfl, ?_⟩
  rw [filter_singleton]
  simp only [cond_true, flatMap_singleton]
  rfl

theorem Once.accept (h : Once nodes size c U) {node fromNode : String} {entries : List PeerEntry}
    (hnode : node ∈ nodes) (hentries : ∀ e ∈ entries, e.id ∈ U) (hunseen : c.Unseen node entries) :
    Once nodes size (c.accept node fromNode entries) U := by
  obtain ⟨-, hsub, hchanged⟩ := KnownPeers.receive_spec node entries (c.tables node)
  have hknows : ∀ x ∈ c.history, (c.accept node fromNode entries).Knows x ∨ c.Dropped x :=
    fun x hx => (h.knows x hx).imp_left
      fun hx => Knows.grown hx (grown_accept c node fromNode x.1 entries)
  rcases history_accept c node fromNode entries with heq | ⟨hnews, heq⟩
  · refine ⟨heq ▸ h.nodup, fun x hx => h.range x (heq ▸ hx), fun x hx => hknows x (heq ▸ hx), h.sent⟩
  rw [isNews, Bool.and_eq_true, all_eq_true, decide_eq_true_iff] at hnews
  have hmap : ((KnownPeers.receive node entries (c.tables node)).1.map
      fun e => (node, e.id)).Nodup := by
    have hpair := hnews.2.map (f := fun x : String × ℕ => (node, x))
      fun _ _ hxy => (Prod.mk.inj hxy).2
    rwa [map_map] at hpair
  refine ⟨?_, fun x hx => ?_, fun x hx => ?_, h.sent⟩
  · rw [heq]
    refine nodup_append.2 ⟨h.nodup, hmap, ?_⟩
    -- what has been sent on before is in the table, and so it is not news, or it was dropped, and
    -- so it does not come back
    rintro x hx _ hx' rfl
    obtain ⟨e, he, rfl⟩ := mem_map.1 hx'
    rcases h.knows _ hx with ⟨st, hst, hle⟩ | ⟨t, ht, hle⟩
    swap
    · exact absurd (hunseen e (hsub.subset he) t ht) (Nat.not_lt.2 hle)
    rcases (hchanged e he).2 with hhas | hlt
    · have hnot := hnews.1 e he
      rw [hhas] at hnot
      cases hnot
    · exact absurd (hlt st hst) (Nat.not_lt.2 hle)
  · rw [heq] at hx
    rcases mem_append.1 hx with hx | hx
    · exact h.range x hx
    · obtain ⟨e, he, rfl⟩ := mem_map.1 hx
      exact Finset.mk_mem_product hnode (hentries e (hsub.subset he))
  rw [heq] at hx
  rcases mem_append.1 hx with hx | hx
  · exact hknows x hx
  obtain ⟨e, he, rfl⟩ := mem_map.1 hx
  obtain ⟨st, hst, hle⟩ := (hchanged e he).1
  refine .inl ⟨st, ?_, hle⟩
  change (Function.update c.tables node _ node).get _ = some st
  rw [update_self]
  exact hst

/-! ## Sending on -/

variable {f : Fanout} {i : ℕ}

theorem history_perm (hi : c.fanouts[i]? = some f) :
    c.history.Perm ((if f.news then f.entries.map fun e => (f.node, e.id) else []) ++
      { c with fanouts := c.fanouts.eraseIdx i }.history) := by
  obtain ⟨hlt, rfl⟩ := List.getElem?_eq_some_iff.1 hi
  have hperm := ((List.getElem_cons_eraseIdx_perm hlt).symm.filter Fanout.news).flatMap_right
    fun f => f.entries.map fun e => (f.node, e.id)
  refine (hperm.append_left c.forwarded).trans ?_
  by_cases hnews : c.fanouts[i].news = true
  · rw [filter_cons_of_pos hnews, flatMap_cons, if_pos hnews]
    exact perm_append_comm_assoc _ _ _
  · rw [filter_cons_of_neg hnews, if_neg hnews]
    exact List.Perm.refl _

/-- What is taken off the list of things to be sent on. -/
theorem Once.erase (h : Once nodes size c U)
    (hi : c.fanouts[i]? = some f) :
    Once nodes size { c with fanouts := c.fanouts.eraseIdx i } U := by
  have hperm := history_perm hi
  have hmem : ∀ x ∈ { c with fanouts := c.fanouts.eraseIdx i }.history, x ∈ c.history :=
    fun x hx => hperm.mem_iff.2 (mem_append_right _ hx)
  exact ⟨(nodup_append.1 (hperm.nodup_iff.1 h.nodup)).2.1, fun x hx => h.range x (hmem x hx),
    fun x hx => h.knows x (hmem x hx), h.sent⟩

theorem targets_of_audience (h : c.audience f = []) (order : List String) :
    c.targets size f order = [] := by
  rw [targets, h]
  split
  · next hperm =>
    rw [(isPerm_iff.1 hperm).eq_nil]
    exact take_nil
  · exact take_nil

theorem Once.fanout (h : Once nodes size c U) (hin : Within nodes c U)
    (hi : c.fanouts[i]? = some f) (hold : f.news = false → c.audience f = [])
    (order : List String) :
    Once nodes size (reactiveFanout size { c with fanouts := c.fanouts.eraseIdx i } f order) U := by
  have herase := h.erase hi
  generalize hd : { c with fanouts := c.fanouts.eraseIdx i } = d at herase
  have htargets : d.targets size f order = c.targets size f order := by
    rw [← hd]
    rfl
  by_cases hempty : c.targets size f order = []
  · have heq : reactiveFanout size d f order = d := by
      rw [reactiveFanout, htargets, hempty]
      simp only [map_nil, append_nil, length_nil, Nat.add_zero, if_pos]
    rw [heq]
    exact herase
  have hnews : f.news = true := by
    cases hf : f.news with
    | true => rfl
    | false => exact absurd (targets_of_audience (hold hf) order) hempty
  have hperm : c.history.Perm (reactiveFanout size d f order).history := by
    have hbase := history_perm hi
    rw [hd, if_pos hnews] at hbase
    refine hbase.trans ?_
    rw [history, history, reactiveFanout, htargets]
    simp only [if_neg hempty]
    rw [append_assoc]
    exact perm_append_comm_assoc _ _ _
  refine ⟨hperm.nodup_iff.1 h.nodup, fun x hx => h.range x (hperm.mem_iff.2 hx), fun x hx => ?_, ?_⟩
  · rw [← hd]
    exact h.knows x (hperm.mem_iff.2 hx)
  have hlen : (c.targets size f order).length ≤ effectiveFanout size := length_take_le _ _
  have hne : 0 < f.entries.length :=
    length_pos_of_ne_nil (hin.fanouts f (mem_of_getElem? hi)).2.1
  have hsent := herase.sent
  rw [reactiveFanout, htargets]
  simp only [if_neg hempty, length_append, length_map]
  calc d.sent + (c.targets size f order).length
      ≤ effectiveFanout size * d.forwarded.length + effectiveFanout size * 1 := by omega
    _ ≤ effectiveFanout size * d.forwarded.length + effectiveFanout size * f.entries.length :=
      Nat.add_le_add_left (Nat.mul_le_mul_left _ hne) _
    _ = effectiveFanout size * (d.forwarded.length + f.entries.length) := by rw [Nat.mul_add]

theorem Within.fanout (h : Within nodes c U) (hi : c.fanouts[i]? = some f)
    (order : List String) :
    Within nodes (reactiveFanout size { c with fanouts := c.fanouts.eraseIdx i } f order) U := by
  refine ⟨h.tables, h.buffered, fun p hp => ?_,
    fun g hg => h.fanouts g ((eraseIdx_sublist _ _).subset hg), h.questions, h.answers⟩
  rcases mem_append.1 hp with hp | hp
  · exact h.pushes p hp
  · obtain ⟨target, -, rfl⟩ := mem_map.1 hp
    exact (h.fanouts f (mem_of_getElem? hi)).2.2

/-! ## Every event

The handlers are put together to what one event of the cluster keeps, and from that follows what any
number of them keep. -/

section

variable (h : Within nodes c U) (h' : Once nodes size c U)

include h h'

theorem gossipPeers_keeps {p : Push} (hp : ∀ e ∈ p.entries, e.id ∈ U)
    (hunseen : c.buffered p.target = none → c.Unseen p.target p.entries) :
    Within nodes (gossipPeers nodes c p) U ∧ Once nodes size (gossipPeers nodes c p) U := by
  rw [gossipPeers]
  by_cases htarget : p.target ∈ nodes
  · rw [if_pos htarget]
    cases hbuf : c.buffered p.target with
    | none => exact ⟨h.accept htarget hp, h'.accept htarget hp (hunseen hbuf)⟩
    | some entries =>
    refine ⟨⟨h.tables, fun v hv es hes => ?_, h.pushes, h.fanouts, h.questions, h.answers⟩,
      h'.nodup, h'.range, h'.knows, h'.sent⟩
    change Function.update c.buffered p.target _ v = some es at hes
    by_cases hvt : v = p.target
    · rw [hvt, update_self] at hes
      cases hes
      intro e he
      exact (mem_append.1 he).elim (h.buffered _ htarget _ hbuf e) (hp e)
    · rw [update_of_ne hvt] at hes
      exact h.buffered v hv es hes
  · rw [if_neg htarget]
    exact ⟨h, h'⟩

theorem networkReady_keeps (node : String) :
    Within nodes (c.networkReady node) U ∧ Once nodes size (c.networkReady node) U := by
  rw [networkReady]
  cases hbuf : c.buffered node with
  | none => exact ⟨h, h'⟩
  | some entries =>
  have hgrown := KnownPeers.grown_mergeAll node entries (c.tables node)
  refine ⟨⟨fun v hv n st hst => ?_, fun v hv es hes => ?_, h.pushes, h.fanouts, h.questions,
    h.answers⟩, h'.nodup, h'.range, fun x hx => ?_, h'.sent⟩
  · change (Function.update c.tables node _ v).get n = some st at hst
    by_cases hvn : v = node
    · subst hvn
      rw [update_self] at hst
      rcases hgrown.origin n st hst with hst | ⟨e, he, rfl, rfl⟩
      · exact h.tables v hv n st hst
      · exact h.buffered v hv _ hbuf e he
    · rw [update_of_ne hvn] at hst
      exact h.tables v hv n st hst
  · change Function.update c.buffered node none v = some es at hes
    by_cases hvn : v = node
    · rw [hvn, update_self] at hes
      cases hes
    · rw [update_of_ne hvn] at hes
      exact h.buffered v hv es hes
  refine (h'.knows x hx).imp_left fun hx => Knows.grown hx (?_ : KnownPeers.Grown entries
    (c.tables x.1) (Function.update c.tables node _ x.1))
  by_cases hxn : x.1 = node
  · rw [hxn, update_self]
    exact hgrown
  · rw [update_of_ne hxn]
    exact .rfl _ _

theorem tombstoneGc_keeps (node : String) (now ttl : ℕ) :
    Within nodes (c.tombstoneGc node now ttl) U ∧
      Once nodes size (c.tombstoneGc node now ttl) U := by
  refine ⟨⟨fun v hv n st hst => ?_, h.buffered, h.pushes, h.fanouts, h.questions, h.answers⟩,
    h'.nodup, h'.range, fun x hx => ?_, h'.sent⟩
  · change (Function.update c.tables node _ v).get n = some st at hst
    by_cases hvn : v = node
    · subst hvn
      rw [update_self] at hst
      exact h.tables v hv n st (KnownPeers.get_of_get_gcTombstones hst)
    · rw [update_of_ne hvn] at hst
      exact h.tables v hv n st hst
  rcases h'.knows x hx with ⟨st, hst, hle⟩ | ⟨t, ht, hle⟩
  swap
  · exact .inr ⟨t, mem_append_left _ ht, hle⟩
  by_cases hxn : x.1 = node
  · subst hxn
    rcases KnownPeers.get_gcTombstones now ttl hst with hkept | hexpired
    · refine .inl ⟨st, ?_, hle⟩
      change (Function.update c.tables x.1 _ x.1).get _ = some st
      rw [update_self]
      exact hkept
    · exact .inr ⟨_, mem_append_right _ (mem_map_of_mem hexpired), hle⟩
  · refine .inl ⟨st, ?_, hle⟩
    change (Function.update c.tables node _ x.1).get _ = some st
    rw [update_of_ne hxn]
    exact hst

/-- **Every event** keeps the stamps, and no entry is sent on twice. -/
theorem step_keeps {e : Event}
    (he : Admits c e) :
    Within nodes (step nodes size c e) U ∧ Once nodes size (step nodes size c e) U := by
  have herase : ∀ i, Within nodes { c with pushes := c.pushes.eraseIdx i } U ∧
      Once nodes size { c with pushes := c.pushes.eraseIdx i } U := fun i =>
    ⟨⟨h.tables, h.buffered, fun p hp => h.pushes p ((eraseIdx_sublist _ _).subset hp),
      h.fanouts, h.questions, h.answers⟩, h'.nodup, h'.range, h'.knows, h'.sent⟩
  cases e with
  | deliver i =>
    rw [step]
    cases hi : c.pushes[i]? with
    | none => exact ⟨h, h'⟩
    | some p =>
      exact gossipPeers_keeps (herase i).1 (herase i).2 (h.pushes p (mem_of_getElem? hi)) (he p hi)
  | lose i => exact herase i
  | fanout i order =>
    rw [step]
    cases hi : c.fanouts[i]? with
    | none => exact ⟨h, h'⟩
    | some f => exact ⟨h.fanout hi order, h'.fanout h hi (he f hi) order⟩
  | question node peer =>
    rw [step]
    split
    · next hask =>
      refine ⟨⟨h.tables, h.buffered, h.pushes, h.fanouts, fun q hq => ?_, h.answers⟩,
        h'.nodup, h'.range, h'.knows, h'.sent⟩
      rcases mem_cons.1 hq with rfl | hq
      · exact hask.1
      · exact h.questions q hq
    · exact ⟨h, h'⟩
  | answer i =>
    rw [step]
    cases hi : c.questions[i]? with
    | none => exact ⟨h, h'⟩
    | some q =>
    refine ⟨⟨h.tables, h.buffered, h.pushes, h.fanouts,
      fun q' hq' => h.questions q' ((eraseIdx_sublist _ _).subset hq'), fun a ha => ?_⟩,
      h'.nodup, h'.range, h'.knows, h'.sent⟩
    rcases mem_cons.1 ha with rfl | ha
    · refine ⟨h.questions q (mem_of_getElem? hi), fun e he => ?_⟩
      rw [reply] at he
      dsimp only at he
      split at he
      · next hpeer =>
        obtain ⟨st, hst, -, heq⟩ := KnownPeers.mem_deltaFor.1 he
        rw [heq]
        exact h.tables _ hpeer.1 _ st hst
      · exact absurd he not_mem_nil
    · exact h.answers a ha
  | merge i =>
    rw [step]
    cases hi : c.answers[i]? with
    | none => exact ⟨h, h'⟩
    | some a =>
    obtain ⟨hnode, hdelta⟩ := h.answers a (mem_of_getElem? hi)
    have hin : Within nodes { c with answers := c.answers.eraseIdx i } U :=
      ⟨h.tables, h.buffered, h.pushes, h.fanouts, h.questions,
        fun b hb => h.answers b ((eraseIdx_sublist _ _).subset hb)⟩
    have honce : Once nodes size { c with answers := c.answers.eraseIdx i } U :=
      ⟨h'.nodup, h'.range, h'.knows, h'.sent⟩
    exact ⟨hin.accept hnode hdelta, honce.accept hnode hdelta (he a hi)⟩
  | ready node => exact networkReady_keeps h h' node
  | collect node now ttl => exact tombstoneGc_keeps h h' node now ttl

theorem run_keeps {es : List Event}
    (hes : Meets nodes size c es) :
    Within nodes (run nodes size c es) U ∧ Once nodes size (run nodes size c es) U := by
  induction es generalizing c with
  | nil => exact ⟨h, h'⟩
  | cons e es ih =>
  obtain ⟨hin, honce⟩ := step_keeps h h' hes.1
  exact ih hin honce hes.2

end

theorem Fresh.within (h : c.Fresh) : Within nodes c (c.stamps nodes) := by
  refine ⟨fun v hv n st hst => ?_, fun v hv es hes e he => ?_, fun p hp e he => ?_, fun f hf => ?_,
    fun q hq => ?_, fun a ha => ?_⟩
  · refine Finset.mem_union_left _ (Finset.mem_biUnion.2 ⟨v, hv, mem_toFinset.2 ?_⟩)
    exact mem_append_left _ (mem_map.2 ⟨⟨n, st⟩, AList.mem_lookup_iff.1 hst, rfl⟩)
  · refine Finset.mem_union_left _ (Finset.mem_biUnion.2 ⟨v, hv, mem_toFinset.2 ?_⟩)
    rw [hes]
    exact mem_append_right _ (mem_map_of_mem he)
  · refine Finset.mem_union_right _ (mem_toFinset.2 (mem_flatMap.2 ⟨p, hp, ?_⟩))
    exact mem_map_of_mem he
  · rw [h.fanouts] at hf
    exact absurd hf not_mem_nil
  · rw [h.questions] at hq
    exact absurd hq not_mem_nil
  · rw [h.answers] at ha
    exact absurd ha not_mem_nil

theorem Fresh.once (h : c.Fresh) (U : Finset (String × ℕ)) : Once nodes size c U := by
  have hhistory : c.history = [] := by
    rw [history, h.forwarded, h.fanouts]
    rfl
  refine ⟨?_, fun x hx => ?_, fun x hx => ?_, ?_⟩
  · rw [hhistory]
    exact nodup_nil
  · rw [hhistory] at hx
    exact absurd hx not_mem_nil
  · rw [hhistory] at hx
    exact absurd hx not_mem_nil
  · rw [h.sent]
    exact Nat.zero_le _

/-- **Gossip comes to an end**: from any tables and any messages under way, if something that a node
already had is sent to nobody and what it has dropped does not come back, no node sends on an entry
with the same name and stamp twice, and the number of messages is bounded. -/
theorem gossip_terminates (nodes : Finset String) (size : ℕ) (c : Cluster) (hc : c.Fresh)
    (es : List Event) (hes : Meets nodes size c es) :
    (run nodes size c es).forwarded.Nodup ∧
      (run nodes size c es).sent ≤
        effectiveFanout size * (nodes.card * (c.stamps nodes).card) := by
  obtain ⟨-, honce⟩ := run_keeps hc.within (hc.once _) hes
  have hnodup : (run nodes size c es).forwarded.Nodup := (nodup_append.1 honce.nodup).1
  refine ⟨hnodup, honce.sent.trans (Nat.mul_le_mul_left _ ?_)⟩
  rw [← Finset.card_product, ← toFinset_card_of_nodup hnodup]
  refine Finset.card_le_card fun x hx => honce.range x ?_
  exact mem_append_left _ (mem_toFinset.1 hx)

end Cluster

namespace Ring

open Cluster

/-- The tombstone of a node `d`. -/
def gone : PeerEntry := ⟨"d", "10.0.0.4", 7, true, "scope"⟩

def peer (n : String) : PeerState := ⟨n ++ ".internal", 1, false, "scope"⟩

/-- A table with these peers. -/
def table (peers : List String) : KnownPeers :=
  peers.foldl (fun k n => k.insert n (peer n)) KnownPeers.new

def tables (members : List String) (v : String) : KnownPeers :=
  table (members.filter (· != v))

/-- A cluster whose nodes know each other; the tombstone is sent to the first one. -/
def cluster (members : List String) : Cluster :=
  ⟨tables members, fun _ => none, [⟨"scope", "a", [gone]⟩], [], [], [], 0, [], []⟩

theorem fresh_cluster (members : List String) : (cluster members).Fresh :=
  ⟨rfl, rfl, rfl, rfl, rfl, rfl⟩

theorem admits_fanout {c : Cluster} {i : ℕ} {f : Fanout} (hi : c.fanouts[i]? = some f)
    (h : f.news = true ∨ c.audience f = []) (order : List String) : c.Admits (.fanout i order) := by
  intro g hg hnews
  rw [hi] at hg
  cases hg
  exact h.resolve_left (by rw [hnews]; decide)

/-- Both nodes learn the tombstone, and then drop it. -/
def twoNodes : List Event :=
  [.deliver 0, .fanout 0 [], .deliver 0, .fanout 0 [], .collect "a" 100 10, .collect "b" 100 10]

theorem unseen_of_dropped {c : Cluster} (h : c.dropped = []) (node : String)
    (entries : List PeerEntry) : c.Unseen node entries := by
  intro e _ t ht
  rw [h] at ht
  exact absurd ht not_mem_nil

theorem meets_twoNodes : Meets {"a", "b"} 3 (cluster ["a", "b"]) twoNodes :=
  ⟨fun _ _ _ => unseen_of_dropped rfl _ _, admits_fanout rfl (.inl (by decide +kernel)) [],
    fun _ _ _ => unseen_of_dropped rfl _ _, admits_fanout rfl (.inl (by decide +kernel)) [],
    trivial, trivial, trivial⟩

theorem terminates_twoNodes :
    (run {"a", "b"} 3 (cluster ["a", "b"]) twoNodes).sent = 1 ∧
      (run {"a", "b"} 3 (cluster ["a", "b"]) twoNodes).dropped = [("a", "d", 7), ("b", "d", 7)] ∧
      (run {"a", "b"} 3 (cluster ["a", "b"]) twoNodes).sent ≤ 3 * (2 * 3) := by
  refine ⟨by decide +kernel, by decide +kernel, ?_⟩
  exact (gossip_terminates {"a", "b"} 3 (cluster ["a", "b"]) (fresh_cluster _) twoNodes
    meets_twoNodes).2.trans (by decide +kernel)

/-- Three nodes, of which each sends the entry to the next one. -/
def three : List String := ["a", "b", "c"]

def next (v : String) : String := if v = "a" then "b" else if v = "b" then "c" else "a"

/-- The table of a node that has the tombstone. -/
def full (v : String) : KnownPeers := ((tables three v).mergeEntry v gone).2

/-- Every node has the tombstone, and it is on its way to `v` once more. -/
structure Circling (v : String) (c : Cluster) : Prop where
  pushes : c.pushes = [⟨next (next v), v, [gone]⟩]
  fanouts : c.fanouts = []
  buffered : c.buffered v = none ∧ c.buffered (next v) = none ∧ c.buffered (next (next v)) = none
  tables : c.tables v = full v ∧ c.tables (next v) = full (next v) ∧
    c.tables (next (next v)) = full (next (next v))

/-- The node finds the tombstone in its table, and sends it to the next one. -/
theorem Circling.round {v : String} {c : Cluster} (h : Circling v c) (hv : v ∈ three) :
    Circling (next v) (run three.toFinset 1 c [.deliver 0, .fanout 0 []]) ∧
      (run three.toFinset 1 c [.deliver 0, .fanout 0 []]).sent = c.sent + 1 := by
  have hfacts : ∀ v ∈ three, v ∈ three.toFinset ∧ next (next (next v)) = v ∧ next v ≠ v ∧
      next (next v) ≠ v ∧ (full v).get "d" = some gone.state ∧
      (full v).livePeers.filter (fun n => n != v && n != next (next v)) = [next v] := by
    decide +kernel
  obtain ⟨hmem, hthird, hne, hne', hget, hlive⟩ := hfacts v hv
  have hmerge : ((full v).mergeEntry v gone).2 = full v := by
    rcases KnownPeers.mergeEntry_cases (full v) v gone with ⟨heq, -⟩ | ⟨-, -, hlt⟩
    · rw [heq]
    · exact absurd (hlt _ hget) (Nat.lt_irrefl _)
  have hhas : (full v).has gone = true := KnownPeers.has_iff.2 ⟨_, hget, rfl, rfl⟩
  have hreceive : KnownPeers.receive v [gone] (full v) = ([gone], full v) := by
    rw [KnownPeers.receive, KnownPeers.receive, hmerge]
    simp only [hhas, if_true]
  -- the message is delivered
  have hdeliver : step three.toFinset 1 c (.deliver 0) =
      { c with
        pushes := []
        tables := Function.update c.tables v (full v)
        fanouts := [⟨v, next (next v), [gone], isNews (full v) [gone]⟩] } := by
    rw [step, h.pushes]
    simp only [getElem?_cons_zero, eraseIdx_cons_zero, gossipPeers, if_pos hmem,
      h.buffered.1, accept, h.tables.1, hreceive, h.fanouts, nil_append]
    rfl
  have htables : ∀ w, Function.update c.tables v (full v) w = c.tables w := by
    intro w
    by_cases hw : w = v
    · rw [hw, update_self, h.tables.1]
    · exact update_of_ne hw _ _
  have hrun : run three.toFinset 1 c [.deliver 0, .fanout 0 []] =
      { c with
        pushes := [⟨v, next v, [gone]⟩]
        tables := Function.update c.tables v (full v)
        fanouts := []
        sent := c.sent + 1
        forwarded := c.forwarded ++ [(v, gone.id)] } := by
    change step three.toFinset 1 (step three.toFinset 1 c (.deliver 0)) (.fanout 0 []) = _
    rw [hdeliver, step]
    have htargets : ∀ news, targets 1
        { c with pushes := [], tables := Function.update c.tables v (full v), fanouts := [] }
        ⟨v, next (next v), [gone], news⟩ [] = [next v] := by
      intro news
      have haudience : audience
          { c with pushes := [], tables := Function.update c.tables v (full v), fanouts := [] }
          ⟨v, next (next v), [gone], news⟩ = [next v] := by
        rw [audience]
        simp only [update_self]
        exact hlive
      rw [targets, haudience]
      rfl
    simp only [getElem?_cons_zero, eraseIdx_cons_zero, reactiveFanout, htargets]
    rfl
  rw [hrun]
  refine ⟨⟨?_, rfl, ?_, ?_⟩, rfl⟩
  · rw [hthird]
  · rw [hthird]
    exact ⟨h.buffered.2.1, h.buffered.2.2, h.buffered.1⟩
  · simp only [htables, hthird]
    exact ⟨h.tables.2.1, h.tables.2.2, h.tables.1⟩

/-- **It never ends**: there is no bound on the number of messages. -/
theorem forever : ¬ ∃ bound, ∀ es, (run three.toFinset 1 (cluster three) es).sent ≤ bound := by
  have hstart : Circling "a" (run three.toFinset 1 (cluster three)
      [.deliver 0, .fanout 0 ["b", "c"], .deliver 0, .fanout 0 [], .deliver 0, .fanout 0 []]) :=
    ⟨rfl, rfl, ⟨rfl, rfl, rfl⟩, rfl, rfl, rfl⟩
  have hmem : ∀ v ∈ three, next v ∈ three := by decide
  have hround : ∀ k, ∃ es v, v ∈ three ∧ Circling v (run three.toFinset 1 (cluster three) es) ∧
      k ≤ (run three.toFinset 1 (cluster three) es).sent := by
    intro k
    induction k with
    | zero => exact ⟨_, "a", by decide, hstart, Nat.zero_le _⟩
    | succ k ih =>
    obtain ⟨es, v, hv, hcircling, hk⟩ := ih
    obtain ⟨hnext, hsent⟩ := hcircling.round hv
    have hrun : run three.toFinset 1 (cluster three) (es ++ [.deliver 0, .fanout 0 []]) =
        run three.toFinset 1 (run three.toFinset 1 (cluster three) es)
          [.deliver 0, .fanout 0 []] := foldl_append
    refine ⟨es ++ [.deliver 0, .fanout 0 []], next v, hmem v hv, ?_, ?_⟩
    · rw [hrun]
      exact hnext
    · rw [hrun, hsent]
      exact Nat.succ_le_succ hk
  rintro ⟨bound, hbound⟩
  obtain ⟨es, -, -, -, hk⟩ := hround (bound + 1)
  exact absurd (hbound es) (Nat.not_le_of_lt hk)

end Ring

end Skyr.Overlay
