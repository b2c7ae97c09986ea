import Mathlib.Data.Finset.Basic
import Mathlib.Data.List.AList

/-!
# Membership tables

The nodes of the overlay network tell each other who is in it.  An entry says that a node is there,
or, as a tombstone, that it is gone; it carries the time at which the orchestrator made it, and of
two entries for one node the newer one counts.

A node forwards what it has received if it finds it in its table after merging it.
-/

namespace Skyr.Overlay

open List

structure PeerEntry where
  nodeName : String
  overlayEndpoint : String
  lastSeenMicros : ℕ
  tombstone : Bool
  source : String
deriving DecidableEq

/-- What a node knows of another one. -/
structure PeerState where
  overlayEndpoint : String
  lastSeenMicros : ℕ
  tombstone : Bool
  source : String
deriving DecidableEq

inductive MergeEffect
  | addFdb (overlayEndpoint : String)
  | removeFdb (overlayEndpoint : String)
  | metadataOnly
deriving DecidableEq

def PeerEntry.state (e : PeerEntry) : PeerState :=
  ⟨e.overlayEndpoint, e.lastSeenMicros, e.tombstone, e.source⟩

/-- A membership table. -/
structure KnownPeers where
  peers : AList fun _ : String => PeerState
deriving DecidableEq

namespace KnownPeers

def new : KnownPeers := ⟨∅⟩

def get (k : KnownPeers) (nodeName : String) : Option PeerState := k.peers.lookup nodeName

def insert (k : KnownPeers) (nodeName : String) (state : PeerState) : KnownPeers :=
  ⟨k.peers.insert nodeName state⟩

/-- What merging does to the forwarding table of the network. -/
def mergeEffect : Option PeerState → PeerState → MergeEffect
  | none, new =>
    if new.tombstone || new.overlayEndpoint == "" then .metadataOnly
    else .addFdb new.overlayEndpoint
  | some existing, new =>
    match !existing.tombstone, !new.tombstone with
    | true, true =>
      if existing.overlayEndpoint ≠ new.overlayEndpoint then .addFdb new.overlayEndpoint
      else .metadataOnly
    | true, false => .removeFdb existing.overlayEndpoint
    | false, true =>
      if new.overlayEndpoint = "" then .metadataOnly else .addFdb new.overlayEndpoint
    | false, false => .metadataOnly

/-- Merge one entry: it must be newer than what is there. -/
def mergeEntry (k : KnownPeers) (selfName : String) (entry : PeerEntry) :
    Option MergeEffect × KnownPeers :=
  if entry.nodeName = selfName then (none, k)
  else if entry.nodeName = "" then (none, k)
  else
    match k.get entry.nodeName with
    | none => (some (mergeEffect none entry.state), k.insert entry.nodeName entry.state)
    | some existing =>
      if entry.lastSeenMicros ≤ existing.lastSeenMicros then (none, k)
      else
        (some (mergeEffect (some existing) entry.state), k.insert entry.nodeName entry.state)

def mergeAll (k : KnownPeers) (selfName : String) (entries : List PeerEntry) : KnownPeers :=
  entries.foldl (fun k entry => (k.mergeEntry selfName entry).2) k

/-- The node is there. -/
def isLive (k : KnownPeers) (nodeName : String) : Bool := (k.get nodeName).any (!·.tombstone)

/-- The entry is in the table, with its stamp. -/
def has (k : KnownPeers) (entry : PeerEntry) : Bool :=
  (k.get entry.nodeName).any fun st =>
    st.lastSeenMicros == entry.lastSeenMicros && st.tombstone == entry.tombstone

/-- Merge entries one after the other, and collect those that are in the table afterwards. -/
def receive (selfName : String) : List PeerEntry → KnownPeers → List PeerEntry × KnownPeers
  | [], k => ([], k)
  | entry :: entries, k =>
    let merged := (k.mergeEntry selfName entry).2
    let (changed, k) := receive selfName entries merged
    (if merged.has entry then entry :: changed else changed, k)

/-- The names of the peers that are there and can be reached. -/
def livePeers (k : KnownPeers) : List String :=
  (k.peers.entries.filter fun p => !p.2.tombstone && p.2.overlayEndpoint != "").map (·.1)

/-- The name and the stamp of every entry. -/
abbrev PeerDigest := List (String × ℕ)

def digest (k : KnownPeers) : PeerDigest :=
  k.peers.entries.map fun p => (p.1, p.2.lastSeenMicros)

/-- The entries that are newer than in the digest of another node. -/
def deltaFor (k : KnownPeers) (digest : PeerDigest) (source : String) : List PeerEntry :=
  (k.peers.entries.filter fun p => (digest.lookup p.1).getD 0 < p.2.lastSeenMicros).map fun p =>
    ⟨p.1, p.2.overlayEndpoint, p.2.lastSeenMicros, p.2.tombstone, source⟩

/-- Tombstones stay until they are older than the time to live. -/
def keeps (now ttl : ℕ) (st : PeerState) : Bool := !st.tombstone || now - ttl ≤ st.lastSeenMicros

def gcTombstones (k : KnownPeers) (now ttl : ℕ) : KnownPeers :=
  ⟨⟨k.peers.entries.filter fun p => keeps now ttl p.2,
    k.peers.nodupKeys.sublist filter_sublist⟩⟩

/-- The name and the stamp of every entry that is dropped then. -/
def expired (k : KnownPeers) (now ttl : ℕ) : List (String × ℕ) :=
  (k.peers.entries.filter fun p => !keeps now ttl p.2).map fun p => (p.1, p.2.lastSeenMicros)

/-! ## The newest entry counts -/

variable {k : KnownPeers} {self n : String} {e : PeerEntry} {st : PeerState}

theorem get_new : new.get n = none := rfl

theorem mem_get {k : KnownPeers} {st : PeerState} :
    k.get n = some st ↔ (⟨n, st⟩ : Sigma fun _ : String => PeerState) ∈ k.peers.entries :=
  AList.mem_lookup_iff

theorem get_of_get_gcTombstones {now ttl : ℕ} (h : (k.gcTombstones now ttl).get n = some st) :
    k.get n = some st :=
  mem_get.2 (mem_of_mem_filter (mem_get.1 h))

/-- An entry is kept or dropped. -/
theorem get_gcTombstones (now ttl : ℕ) (h : k.get n = some st) :
    (k.gcTombstones now ttl).get n = some st ∨ (n, st.lastSeenMicros) ∈ k.expired now ttl := by
  cases hkeep : keeps now ttl st with
  | true => exact .inl (mem_get.2 (mem_filter.2 ⟨mem_get.1 h, hkeep⟩))
  | false =>
    exact .inr (mem_map.2 ⟨_, mem_filter.2 ⟨mem_get.1 h, by rw [hkeep]; rfl⟩, rfl⟩)

theorem get_insert_self : (k.insert n st).get n = some st := AList.lookup_insert _

theorem get_insert_ne {m : String} (hne : m ≠ n) : (k.insert n st).get m = k.get m :=
  AList.lookup_insert_ne hne

/-- A name under which entries are taken. -/
def Foreign (self n : String) : Prop := n ≠ self ∧ n ≠ ""

/-- What merging one entry does: what is there stays, or gives way to a newer entry. -/
theorem mergeEntry_cases (k : KnownPeers) (self : String) (e : PeerEntry) :
    (k.mergeEntry self e = (none, k) ∧ (Foreign self e.nodeName →
      ∃ st, k.get e.nodeName = some st ∧ e.lastSeenMicros ≤ st.lastSeenMicros)) ∨
    (k.mergeEntry self e = (some (mergeEffect (k.get e.nodeName) e.state),
        k.insert e.nodeName e.state) ∧ Foreign self e.nodeName ∧
      ∀ st, k.get e.nodeName = some st → st.lastSeenMicros < e.lastSeenMicros) := by
  rw [mergeEntry]
  split
  · next hself => exact .inl ⟨rfl, fun h => absurd hself h.1⟩
  split
  · next hname => exact .inl ⟨rfl, fun h => absurd hname h.2⟩
  next hself hname =>
  cases hget : k.get e.nodeName with
  | none => exact .inr ⟨rfl, ⟨hself, hname⟩, by simp⟩
  | some st =>
  dsimp only
  split
  · next hle => exact .inl ⟨rfl, fun _ => ⟨st, rfl, hle⟩⟩
  · next hle => exact .inr ⟨rfl, ⟨hself, hname⟩, by simpa using hle⟩

theorem mergeAll_cons (k : KnownPeers) (self : String) (e : PeerEntry) (es : List PeerEntry) :
    k.mergeAll self (e :: es) = (k.mergeEntry self e).2.mergeAll self es := rfl

variable {es : List PeerEntry}

/-- How a table has grown: entries stay or are replaced by newer ones out of a list. -/
structure Grown (es : List PeerEntry) (k k' : KnownPeers) : Prop where
  newer : ∀ n st, k.get n = some st → ∃ st', k'.get n = some st' ∧
    (st' = st ∨ st.lastSeenMicros < st'.lastSeenMicros)
  origin : ∀ n st', k'.get n = some st' → k.get n = some st' ∨
    ∃ e ∈ es, e.nodeName = n ∧ e.state = st'

theorem Grown.rfl (es : List PeerEntry) (k : KnownPeers) : Grown es k k :=
  ⟨fun _ st h => ⟨st, h, .inl (Eq.refl st)⟩, fun _ _ h => .inl h⟩

theorem Grown.trans {k₁ k₂ k₃ : KnownPeers} (h : Grown es k₁ k₂)
    (h' : Grown es k₂ k₃) : Grown es k₁ k₃ := by
  refine ⟨fun n st hst => ?_, fun n st hst => ?_⟩
  · obtain ⟨st', hst', hle⟩ := h.newer n st hst
    obtain ⟨st'', hst'', hle'⟩ := h'.newer n st' hst'
    refine ⟨st'', hst'', ?_⟩
    rcases hle with rfl | hlt
    · exact hle'
    rcases hle' with rfl | hlt'
    · exact .inr hlt
    · exact .inr (Nat.lt_trans hlt hlt')
  rcases h'.origin n st hst with hst | horigin
  · exact h.origin n st hst
  · exact .inr horigin

theorem Grown.mono {es es' : List PeerEntry} {k' : KnownPeers} (h : Grown es k k')
    (hes : es ⊆ es') : Grown es' k k' :=
  ⟨h.newer, fun n st hst => (h.origin n st hst).imp_right fun ⟨e, he, heq⟩ => ⟨e, hes he, heq⟩⟩

theorem grown_mergeEntry (k : KnownPeers) (self : String) (e : PeerEntry) :
    Grown [e] k (k.mergeEntry self e).2 := by
  rcases mergeEntry_cases k self e with ⟨heq, -⟩ | ⟨heq, -, hlt⟩
  · rw [heq]
    exact .rfl _ k
  rw [heq]
  refine ⟨fun n st hst => ?_, fun n st hst => ?_⟩
  · by_cases hn : n = e.nodeName
    · subst hn
      exact ⟨_, get_insert_self, .inr (hlt st hst)⟩
    · exact ⟨st, (get_insert_ne hn).trans hst, .inl rfl⟩
  by_cases hn : n = e.nodeName
  · subst hn
    have hstate : e.state = st := Option.some.inj (get_insert_self.symm.trans hst)
    exact .inr ⟨e, mem_singleton_self e, rfl, hstate⟩
  · exact .inl ((get_insert_ne hn).symm.trans hst)

theorem grown_mergeAll (self : String) (es : List PeerEntry) (k : KnownPeers) :
    Grown es k (k.mergeAll self es) := by
  induction es generalizing k with
  | nil => exact .rfl _ k
  | cons e es ih =>
  have hfirst := (grown_mergeEntry k self e).mono (cons_subset_cons e (nil_subset es))
  exact hfirst.trans ((ih _).mono (subset_cons_self e es))

theorem exists_le_mergeEntry (h : Foreign self e.nodeName) :
    ∃ st, (k.mergeEntry self e).2.get e.nodeName = some st ∧
      e.lastSeenMicros ≤ st.lastSeenMicros := by
  rcases mergeEntry_cases k self e with ⟨heq, hle⟩ | ⟨heq, -⟩
  · rw [heq]
    exact hle h
  · rw [heq]
    exact ⟨e.state, get_insert_self, Nat.le_refl _⟩

/-- No entry that was merged is newer than what is in the table. -/
theorem exists_le_mergeAll (he : e ∈ es) (h : Foreign self e.nodeName) :
    ∃ st, (k.mergeAll self es).get e.nodeName = some st ∧
      e.lastSeenMicros ≤ st.lastSeenMicros := by
  induction es generalizing k with
  | nil => exact absurd he not_mem_nil
  | cons a es ih =>
  rcases mem_cons.1 he with rfl | he
  · obtain ⟨st, hst, hle⟩ := exists_le_mergeEntry h (k := k)
    obtain ⟨st', hst', hnewer⟩ := (grown_mergeAll self es _).newer _ st hst
    refine ⟨st', hst', ?_⟩
    rcases hnewer with rfl | hlt <;> omega
  · exact ih he

/-- **In whatever order entries are merged, the newest one is kept.** -/
theorem get_mergeAll (hself : n ≠ self) (hn : n ≠ "") (he : e ∈ es)
    (hname : e.nodeName = n)
    (hnewest : ∀ a ∈ es, a.nodeName = n → a = e ∨ a.lastSeenMicros < e.lastSeenMicros)
    (hk : ∀ st, k.get n = some st → st.lastSeenMicros < e.lastSeenMicros) :
    (k.mergeAll self es).get n = some e.state := by
  subst hname
  obtain ⟨st, hst, hle⟩ := exists_le_mergeAll (k := k) he ⟨hself, hn⟩
  rw [hst]
  rcases (grown_mergeAll self es k).origin _ st hst with hold | ⟨a, ha, hname, rfl⟩
  · exact absurd (hk st hold) (by omega)
  rcases hnewest a ha hname with rfl | hlt
  · rfl
  · exact absurd hlt (Nat.not_lt.2 hle)

theorem get_mergeAll_of_notMem (h : ∀ e ∈ es, e.nodeName ≠ n) :
    (k.mergeAll self es).get n = k.get n := by
  have hgrown := grown_mergeAll self es k
  have horigin : ∀ st, (k.mergeAll self es).get n = some st → k.get n = some st := by
    intro st hst
    refine (hgrown.origin n st hst).resolve_right ?_
    rintro ⟨e, he, hname, -⟩
    exact h e he hname
  cases hget : k.get n with
  | none => exact Option.eq_none_iff_forall_ne_some.2 fun st hst => by simp [horigin st hst] at hget
  | some st =>
  obtain ⟨st', hst', -⟩ := hgrown.newer n st hget
  rw [hst', ← hget, horigin st' hst']

/-- The entries of a digest, or of an answer to one, are in the table. -/
theorem get_of_mem {p : Σ _ : String, PeerState} (h : p ∈ k.peers.entries) :
    k.get p.1 = some p.2 := AList.mem_lookup_iff.2 h

/-! ## Tables converge

The state a table has for a node is a newest one of those the node has been heard of with.  This
describes it up to what can be seen, and does not depend on the order. -/

/-- What a node has heard of another one: it knew it before, or an entry says so. -/
def Heard (k : KnownPeers) (es : List PeerEntry) (n : String) (st : PeerState) : Prop :=
  k.get n = some st ∨ ∃ e ∈ es, e.nodeName = n ∧ e.state = st

section Newest

variable {γ : Type} {view : PeerState → γ} {H : PeerState → Prop} {r r' : Option PeerState}

/-- Of states with one stamp the same is to be seen. -/
def Consistent (view : PeerState → γ) (H : PeerState → Prop) : Prop :=
  ∀ st st', H st → H st' → st.lastSeenMicros = st'.lastSeenMicros → view st = view st'

/-- A newest one of the states, as far as can be seen. -/
structure Newest (view : PeerState → γ) (H : PeerState → Prop) (r : Option PeerState) : Prop where
  among : ∀ st, r = some st →
    ∃ st', H st' ∧ view st' = view st ∧ st'.lastSeenMicros = st.lastSeenMicros
  newest : ∀ st', H st' → ∃ st, r = some st ∧ st'.lastSeenMicros ≤ st.lastSeenMicros

theorem Newest.unique (h : Newest view H r) (h' : Newest view H r') (hH : Consistent view H) :
    r.map view = r'.map view := by
  rcases r with _ | a <;> rcases r' with _ | b
  · rfl
  · obtain ⟨b', hb', -⟩ := h'.among b rfl
    simpa using h.newest b' hb'
  · obtain ⟨a', ha', -⟩ := h.among a rfl
    simpa using h'.newest a' ha'
  obtain ⟨a', ha', hview, hstamp⟩ := h.among a rfl
  obtain ⟨b', hb', hview', hstamp'⟩ := h'.among b rfl
  have hle : a'.lastSeenMicros ≤ b.lastSeenMicros := by simpa using h'.newest a' ha'
  have hge : b'.lastSeenMicros ≤ a.lastSeenMicros := by simpa using h.newest b' hb'
  rw [Option.map_some, Option.map_some, ← hview, ← hview', hH a' b' ha' hb' (by omega)]

theorem newest_mergeAll (hn : Foreign self n) :
    Newest view (Heard k es n) ((k.mergeAll self es).get n) := by
  refine ⟨fun st hst => ⟨st, (grown_mergeAll self es k).origin n st hst, rfl, rfl⟩, ?_⟩
  rintro st' (hst' | ⟨e, he, rfl, rfl⟩)
  · obtain ⟨st, hst, hle⟩ := (grown_mergeAll self es k).newer n st' hst'
    refine ⟨st, hst, ?_⟩
    rcases hle with rfl | hlt <;> omega
  · exact exists_le_mergeAll he hn

end Newest

theorem get_mergeAll_of_not_foreign (h : ¬ Foreign self n) :
    (k.mergeAll self es).get n = k.get n := by
  induction es generalizing k with
  | nil => rfl
  | cons e es ih =>
  rw [mergeAll_cons, ih]
  rcases mergeEntry_cases k self e with ⟨heq, -⟩ | ⟨heq, hforeign, -⟩
  · rw [heq]
  · rw [heq]
    exact get_insert_ne fun hn => h (hn ▸ hforeign)

theorem lookup_digest (k : KnownPeers) (n : String) :
    k.digest.lookup n = (k.get n).map (·.lastSeenMicros) := by
  rw [digest, get, AList.lookup]
  induction k.peers.entries with
  | nil => rfl
  | cons p l ih =>
  obtain ⟨m, st⟩ := p
  by_cases hm : n = m
  · subst hm
    simp
  · rw [map_cons, lookup_cons, beq_false_of_ne hm, dlookup_cons_ne _ _ hm, ih]

theorem mem_deltaFor {digest : PeerDigest} {source : String} :
    e ∈ k.deltaFor digest source ↔ ∃ st, k.get e.nodeName = some st ∧
      (digest.lookup e.nodeName).getD 0 < st.lastSeenMicros ∧
      e = ⟨e.nodeName, st.overlayEndpoint, st.lastSeenMicros, st.tombstone, source⟩ := by
  rw [deltaFor, mem_map]
  constructor
  · rintro ⟨p, hp, rfl⟩
    obtain ⟨hmem, hlt⟩ := mem_filter.1 hp
    exact ⟨p.2, get_of_mem hmem, of_decide_eq_true hlt, rfl⟩
  rintro ⟨st, hst, hlt, heq⟩
  exact ⟨⟨e.nodeName, st⟩, mem_filter.2 ⟨AList.mem_lookup_iff.1 hst, decide_eq_true hlt⟩,
    heq.symm⟩

/-- Who a node has an entry from is not part of what the entry says. -/
def content (st : PeerState) : String × ℕ × Bool :=
  (st.overlayEndpoint, st.lastSeenMicros, st.tombstone)

/-- What either table says of a node. -/
def Either (k k' : KnownPeers) (n : String) (st : PeerState) : Prop :=
  k.get n = some st ∨ k'.get n = some st

variable {k' : KnownPeers}

/-- The answer to a digest brings whatever is newer in the other table. -/
theorem newest_exchange (k : KnownPeers) (source : String) (hn : Foreign self n)
    (hpos : ∀ st, k'.get n = some st → 0 < st.lastSeenMicros) :
    Newest content (Either k k' n)
      ((k.mergeAll self (k'.deltaFor k.digest source)).get n) := by
  have hmerged : Newest id (Heard k (k'.deltaFor k.digest source) n) _ := newest_mergeAll hn
  constructor
  · intro st hst
    obtain ⟨st', hheard, rfl, -⟩ := hmerged.among st hst
    rcases hheard with hold | ⟨e, he, rfl, rfl⟩
    · exact ⟨st', .inl hold, rfl, rfl⟩
    obtain ⟨st, hget, -, heq⟩ := mem_deltaFor.1 he
    rw [heq]
    exact ⟨st, .inr hget, rfl, rfl⟩
  rintro st' (hst' | hst')
  · exact hmerged.newest st' (.inl hst')
  by_cases hlt : (k.digest.lookup n).getD 0 < st'.lastSeenMicros
  · have hsent : (⟨n, st'.overlayEndpoint, st'.lastSeenMicros, st'.tombstone, source⟩ :
        PeerEntry) ∈ k'.deltaFor k.digest source := mem_deltaFor.2 ⟨st', hst', hlt, rfl⟩
    exact hmerged.newest (PeerEntry.state _) (.inr ⟨_, hsent, rfl, rfl⟩)
  -- what is not sent is not newer than what is there
  have hpos := hpos st' hst'
  rw [lookup_digest] at hlt
  cases hget : k.get n with
  | none => simp [hget] at hlt; omega
  | some old =>
  obtain ⟨st, hst, hle⟩ := hmerged.newest old (.inl hget)
  exact ⟨st, hst, by simp [hget] at hlt; omega⟩

theorem Newest.either {p : KnownPeers} (h : Newest content (Either k k' n) (p.get n))
    {r : Option PeerState} (hr : Newest content (Either k' p n) r) :
    Newest content (Either k k' n) r := by
  constructor
  · intro st hst
    obtain ⟨st', hst' | hst', hview, hstamp⟩ := hr.among st hst
    · exact ⟨st', .inr hst', hview, hstamp⟩
    · obtain ⟨st'', hst'', hview', hstamp'⟩ := h.among st' hst'
      exact ⟨st'', hst'', hview'.trans hview, hstamp'.trans hstamp⟩
  intro st' hst'
  obtain ⟨st, hst, hle⟩ := h.newest st' hst'
  obtain ⟨top, htop, hle'⟩ := hr.newest st (.inr hst)
  exact ⟨top, htop, Nat.le_trans hle hle'⟩

/-- **Tables converge.**  Merging the same entries in another order and number leads to the same
table, that of the newest entries; and when each of two nodes has merged the other's answer to its
digest, no matter which of them first, the tables say the same of every third node. -/
theorem gossip_converges {γ : Type} (view : PeerState → γ) (self : String) (k : KnownPeers)
    (es es' : List PeerEntry) (hsame : ∀ e, e ∈ es ↔ e ∈ es')
    (hview : ∀ n, Consistent view (Heard k es n)) (a b : String) (ka kb : KnownPeers)
    (hpos : ∀ n st, Either ka kb n st → 0 < st.lastSeenMicros)
    (hcontent : ∀ n, Consistent content (Either ka kb n)) :
    (∀ n, ((k.mergeAll self es).get n).map view = ((k.mergeAll self es').get n).map view) ∧
    (∀ n, Foreign self n → Newest id (Heard k es n) ((k.mergeAll self es).get n)) ∧
    ∀ ka' k₁, ka' = ka.mergeAll a (kb.deltaFor ka.digest b) → k₁ = ka ∨ k₁ = ka' →
      ∀ n, n ≠ "" → n ≠ a → n ≠ b → (ka'.get n).map content =
        ((kb.mergeAll b (k₁.deltaFor kb.digest a)).get n).map content := by
  refine ⟨fun n => ?_, fun n => newest_mergeAll, ?_⟩
  · by_cases hn : Foreign self n
    · have hheard : Heard k es' n = Heard k es n := by
        funext st
        simp only [Heard, hsame]
      exact (newest_mergeAll hn).unique (hheard ▸ newest_mergeAll hn) (hview n)
    · rw [get_mergeAll_of_not_foreign hn, get_mergeAll_of_not_foreign hn]
  rintro _ k₁ rfl hk₁ n hn ha hb
  have hposa : ∀ st, ka.get n = some st → 0 < st.lastSeenMicros := fun st h => hpos n st (.inl h)
  have hfirst := newest_exchange ka b ⟨ha, hn⟩ fun st h => hpos n st (.inr h)
  refine hfirst.unique ?_ (hcontent n)
  rcases hk₁ with rfl | rfl
  · have hsecond := newest_exchange kb a ⟨hb, hn⟩ hposa
    exact ⟨fun st hst => (hsecond.among st hst).imp fun _ h => ⟨h.1.symm, h.2⟩,
      fun st hst => hsecond.newest st hst.symm⟩
  refine hfirst.either (newest_exchange kb a ⟨hb, hn⟩ fun st hst => ?_)
  obtain ⟨st', hst', -, hstamp⟩ := hfirst.among st hst
  exact hstamp ▸ hpos n st' hst'

/-- An entry for a node `c`, its tombstone, and an entry for a node `d`. -/
def arrival : PeerEntry := ⟨"c", "10.0.0.3", 1, false, ""⟩

def departure : PeerEntry := ⟨"c", "10.0.0.3", 2, true, ""⟩

def neighbour : PeerEntry := ⟨"d", "10.0.0.4", 5, false, ""⟩

/-- Tables of two nodes: one knows `d` and has missed the departure of `c`. -/
def behind : KnownPeers := (new.insert "c" arrival.state).insert "d" neighbour.state

def ahead : KnownPeers := new.insert "c" departure.state

theorem either_behind_ahead {n : String} {st : PeerState} (h : Either behind ahead n st) :
    st ∈ [arrival.state, departure.state, neighbour.state] := by
  rcases h with h | h
  · by_cases hd : n = "d"
    · subst hd
      rw [behind, get_insert_self] at h
      simp [← Option.some.inj h]
    rw [behind, get_insert_ne hd] at h
    by_cases hc : n = "c"
    · subst hc
      rw [get_insert_self] at h
      simp [← Option.some.inj h]
    · rw [get_insert_ne hc] at h
      cases h
  · by_cases hc : n = "c"
    · subst hc
      rw [ahead, get_insert_self] at h
      simp [← Option.some.inj h]
    · rw [ahead, get_insert_ne hc] at h
      cases h

/-- The tombstone counts, whether it comes first or last, and after an exchange both nodes have
it. -/
theorem newcomer_converges :
    ((new.mergeAll "a" [arrival, departure]).get "c").map content =
      ((new.mergeAll "a" [departure, arrival]).get "c").map content ∧
    ((behind.mergeAll "a" (ahead.deltaFor behind.digest "b")).get "c").map content =
      ((ahead.mergeAll "b" (behind.deltaFor ahead.digest "a")).get "c").map content := by
  have hstamps : ∀ st ∈ [arrival.state, departure.state, neighbour.state],
      ∀ st' ∈ [arrival.state, departure.state, neighbour.state],
        st.lastSeenMicros = st'.lastSeenMicros → content st = content st' := by decide
  have hpos : ∀ st ∈ [arrival.state, departure.state, neighbour.state], 0 < st.lastSeenMicros := by
    decide
  have hheard : ∀ n st, Heard new [arrival, departure] n st →
      st ∈ [arrival.state, departure.state, neighbour.state] := by
    rintro n st (h | ⟨e, he, -, rfl⟩)
    · cases h
    · simp only [mem_cons, not_mem_nil, or_false] at he
      rcases he with rfl | rfl <;> simp
  obtain ⟨hsame, -, hexchange⟩ := gossip_converges content "a" new [arrival, departure]
    [departure, arrival] (fun e => by simp [or_comm])
    (fun n st st' h h' => hstamps st (hheard n st h) st' (hheard n st' h')) "a" "b" behind ahead
    (fun n st h => hpos st (either_behind_ahead h))
    fun n st st' h h' => hstamps st (either_behind_ahead h) st' (either_behind_ahead h')
  exact ⟨hsame "c", hexchange _ behind rfl (.inl rfl) "c" (by decide) (by decide) (by decide)⟩

/-! ## The forwarding table

An effect belongs to the entry of one node, but it acts on an endpoint, which two nodes may share.
-/

/-- The endpoint of a live node. -/
def endpoint (p : Option PeerState) : Option String :=
  (p.filter fun p => !p.tombstone && p.overlayEndpoint != "").map (·.overlayEndpoint)

def existingEndpoint (k : KnownPeers) (nodeName : String) : Option String :=
  endpoint (k.get nodeName)

/-- Carry an effect out on the forwarding table, the set of the endpoints that frames are sent to.
Names resolve and the commands succeed.  An endpoint that was given up goes first. -/
def carryOut (priorEndpoint : Option String) (fdb : Finset String) : MergeEffect → Finset String
  | .addFdb new =>
    Insert.insert new (match priorEndpoint with
      | some old => if old ≠ new then fdb.erase old else fdb
      | none => fdb)
  | .removeFdb old => fdb.erase old
  | .metadataOnly => fdb

def applyMergeEffect (selfName : String) (known : KnownPeers × Finset String) (entry : PeerEntry) :
    KnownPeers × Finset String :=
  match known.1.mergeEntry selfName entry with
  | (none, k) => (k, known.2)
  | (some effect, k) =>
    (k, carryOut (known.1.existingEndpoint entry.nodeName) known.2 effect)

/-- The forwarding table has the endpoints of the live nodes. -/
def Forwards (known : KnownPeers × Finset String) : Prop :=
  ∀ ep, ep ∈ known.2 ↔ ep ≠ "" ∧ ∃ n st, known.1.get n = some st ∧ st.tombstone = false ∧
    st.overlayEndpoint = ep

/-- If an entry takes its endpoint from a live node, no other live node has that endpoint, and the
node is not left without one. -/
def Untangled (k : KnownPeers) (e : PeerEntry) : Prop :=
  ∀ st, k.get e.nodeName = some st → st.lastSeenMicros < e.lastSeenMicros →
    ∀ old, k.existingEndpoint e.nodeName = some old →
      e.tombstone = true ∨ e.overlayEndpoint ≠ old →
      (∀ m, m ≠ e.nodeName → k.existingEndpoint m ≠ some old) ∧
      (e.tombstone = false → e.overlayEndpoint ≠ "")

/-- Every entry meets the condition when it is merged. -/
def UntangledRun (self : String) : KnownPeers → List PeerEntry → Prop
  | _, [] => True
  | k, e :: es => Untangled k e ∧ UntangledRun self (k.mergeEntry self e).2 es

theorem endpoint_some (st : PeerState) : endpoint (some st) =
    if st.tombstone = false ∧ st.overlayEndpoint ≠ "" then some st.overlayEndpoint else none := by
  by_cases h : st.tombstone = false ∧ st.overlayEndpoint ≠ "" <;> simp [endpoint, Option.filter, h]

theorem endpoint_eq_some {p : Option PeerState} {ep : String} :
    endpoint p = some ep ↔
      ep ≠ "" ∧ ∃ st, p = some st ∧ st.tombstone = false ∧ st.overlayEndpoint = ep := by
  cases p with
  | none => simp [endpoint]
  | some st => grind [endpoint_some]

theorem forwards_iff {fdb : Finset String} :
    Forwards (k, fdb) ↔ ∀ ep, ep ∈ fdb ↔ ∃ n, k.existingEndpoint n = some ep := by
  simp only [Forwards, existingEndpoint, endpoint_eq_some, exists_and_left]

/-- What an effect leaves: the new endpoint, and the others without the old one. -/
theorem mem_carryOut {old : Option PeerState} {new : PeerState} {fdb : Finset String}
    (hold : ∀ ep, endpoint old = some ep → ep ∈ fdb) (hempty : "" ∉ fdb)
    (hnew : ∀ ep, endpoint old = some ep → new.tombstone = false → new.overlayEndpoint ≠ "")
    (ep : String) :
    ep ∈ carryOut (endpoint old) fdb (mergeEffect old new) ↔
      endpoint (some new) = some ep ∨ ep ∈ fdb ∧ endpoint old ≠ some ep := by
  cases old with
  | none =>
    have hnone : endpoint none = none := rfl
    rw [mergeEffect]
    split <;> grind [carryOut, endpoint_some]
  | some st =>
  rw [mergeEffect, endpoint_some, endpoint_some] at *
  cases hst : st.tombstone <;> cases hlive : new.tombstone
  · simp only [Bool.not_false]
    split <;> grind [carryOut]
  · grind [carryOut]
  · simp only [Bool.not_false, Bool.not_true]
    split <;> grind [carryOut]
  · grind [carryOut]

theorem forwards_applyMergeEffect {known : KnownPeers × Finset String} (h : Forwards known)
    (hu : Untangled known.1 e) : Forwards (applyMergeEffect self known e) := by
  obtain ⟨k, fdb⟩ := known
  rw [applyMergeEffect]
  rcases mergeEntry_cases k self e with ⟨heq, -⟩ | ⟨heq, -, hlt⟩
  · rw [heq]
    exact h
  rw [heq]
  have hempty : "" ∉ fdb := fun hmem => ((h "").1 hmem).1 rfl
  rw [forwards_iff] at h ⊢
  have hself : (k.insert e.nodeName e.state).existingEndpoint e.nodeName =
      endpoint (some e.state) := congrArg endpoint get_insert_self
  have hne : ∀ m, m ≠ e.nodeName →
      (k.insert e.nodeName e.state).existingEndpoint m = k.existingEndpoint m :=
    fun m hm => congrArg endpoint (get_insert_ne hm)
  have hu : ∀ old, k.existingEndpoint e.nodeName = some old →
      endpoint (some e.state) ≠ some old →
      (∀ m, m ≠ e.nodeName → k.existingEndpoint m ≠ some old) ∧
      (e.tombstone = false → e.overlayEndpoint ≠ "") := by
    intro old hold hchanged
    obtain ⟨hne, st, hst, -⟩ := endpoint_eq_some.1 hold
    refine hu st hst (hlt st hst) old hold (Decidable.or_iff_not_imp_left.2 fun htomb hep => ?_)
    exact hchanged (endpoint_eq_some.2 ⟨hne, _, rfl, eq_false_of_ne_true htomb, hep⟩)
  intro ep
  refine (mem_carryOut (fun ep hep => (h ep).2 ⟨_, hep⟩) hempty
    (fun old hold hlive => ?_) ep).trans ?_
  · by_cases hchanged : endpoint (some e.state) = some old
    · obtain ⟨hne, _, heq, -, rfl⟩ := endpoint_eq_some.1 hchanged
      cases heq
      exact hne
    · exact (hu old hold hchanged).2 hlive
  constructor
  · rintro (hq | ⟨hmem, hp⟩)
    · exact ⟨_, hself.trans hq⟩
    · obtain ⟨n, hn⟩ := (h ep).1 hmem
      exact ⟨n, (hne n fun heq => hp (heq ▸ hn)).trans hn⟩
  rintro ⟨n, hn⟩
  by_cases hn' : n = e.nodeName
  · subst hn'
    exact .inl (hself.symm.trans hn)
  rw [hne n hn'] at hn
  refine or_iff_not_imp_left.2 fun hq => ⟨(h ep).2 ⟨n, hn⟩, fun hp => ?_⟩
  exact (hu ep hp hq).1 n hn' hn

/-- **The forwarding table has the endpoints of the live nodes**, after any run in which each entry
leaves the endpoints of other nodes alone. -/
theorem forwards_run (self : String) (es : List PeerEntry) (h : UntangledRun self new es) :
    Forwards (es.foldl (applyMergeEffect self) (new, ∅)) := by
  suffices hrun : ∀ known : KnownPeers × Finset String, Forwards known →
      UntangledRun self known.1 es → Forwards (es.foldl (applyMergeEffect self) known) from
    hrun _ (by simp [Forwards, get_new]) h
  clear h
  induction es with
  | nil => exact fun _ h _ => h
  | cons e es ih =>
  intro known hknown h
  refine ih _ (forwards_applyMergeEffect hknown h.1) ?_
  have hfst : (applyMergeEffect self known e).1 = (known.1.mergeEntry self e).2 := by
    rw [applyMergeEffect]
    split <;> simp [*]
  rw [hfst]
  exact h.2

theorem moved_node_forwarded :
    Forwards ([⟨"b", "10.0.0.2", 1, false, ""⟩, ⟨"b", "10.0.0.3", 2, false, ""⟩].foldl
      (applyMergeEffect "a") (new, ∅)) := by
  refine forwards_run "a" _ ⟨fun st h => by simp [get_new] at h, fun st _ _ old _ _ => ⟨?_, ?_⟩,
    trivial⟩
  · intro m hm
    have hget : (new.mergeEntry "a" ⟨"b", "10.0.0.2", 1, false, ""⟩).2.get m = none :=
      get_insert_ne hm
    simp [existingEndpoint, hget, endpoint]
  · decide

/-- Two nodes share an endpoint; when one of them leaves, frames are no longer sent to the
other. -/
theorem shared_endpoint_forgotten :
    ¬ Forwards ([⟨"b", "10.0.0.2", 1, false, ""⟩, ⟨"c", "10.0.0.2", 1, false, ""⟩,
      ⟨"b", "10.0.0.2", 2, true, ""⟩].foldl (applyMergeEffect "a") (new, ∅)) := by
  intro h
  have hmem := (h "10.0.0.2").2
    ⟨by decide, "c", ⟨"10.0.0.2", 1, false, ""⟩, by decide +kernel, rfl, rfl⟩
  revert hmem
  decide +kernel

/-! ## Receiving -/

theorem has_iff : k.has e = true ↔ ∃ st, k.get e.nodeName = some st ∧
    st.lastSeenMicros = e.lastSeenMicros ∧ st.tombstone = e.tombstone := by
  rw [has, Option.any_eq_true]
  simp only [Bool.and_eq_true, beq_iff_eq]

/-- An entry that is in a table was there before, or is newer than what was there. -/
theorem Grown.has {k' : KnownPeers} (h : Grown es k k')
    (he : k'.has e = true) :
    k.has e = true ∨ ∀ st, k.get e.nodeName = some st → st.lastSeenMicros < e.lastSeenMicros := by
  obtain ⟨st', hst', hstamp, htomb⟩ := has_iff.1 he
  cases hget : k.get e.nodeName with
  | none => exact .inr nofun
  | some st =>
  obtain ⟨st'', hst'', hle⟩ := h.newer _ st hget
  rw [hst'] at hst''
  cases hst''
  rcases hle with rfl | hlt
  · exact .inl (has_iff.2 ⟨_, hget, hstamp, htomb⟩)
  refine .inr fun st₀ hst₀ => ?_
  cases hst₀
  exact hstamp ▸ hlt

/-- **What is forwarded** is in the table afterwards, or something newer is; and it was there
before, or is newer than what was there. -/
theorem receive_spec (self : String) (es : List PeerEntry) (k : KnownPeers) :
    Grown es k (receive self es k).2 ∧ (receive self es k).1.Sublist es ∧
      ∀ e ∈ (receive self es k).1,
        (∃ st, (receive self es k).2.get e.nodeName = some st ∧
          e.lastSeenMicros ≤ st.lastSeenMicros) ∧
        (k.has e = true ∨
          ∀ st, k.get e.nodeName = some st → st.lastSeenMicros < e.lastSeenMicros) := by
  induction es generalizing k with
  | nil => exact ⟨.rfl _ k, List.Sublist.refl _, fun _ h => absurd h not_mem_nil⟩
  | cons a es ih =>
  have hmerge := grown_mergeEntry k self a
  obtain ⟨hgrown, hsub, hchanged⟩ := ih (k.mergeEntry self a).2
  have hfirst : Grown (a :: es) k (k.mergeEntry self a).2 :=
    hmerge.mono (cons_subset_cons a (nil_subset es))
  refine ⟨hfirst.trans (hgrown.mono (subset_cons_self a es)), ?_, fun e he => ?_⟩
  · rw [receive]
    simp only
    split
    · exact hsub.cons_cons a
    · exact hsub.cons a
  have hcases : (e = a ∧ (k.mergeEntry self a).2.has a = true) ∨
      e ∈ (receive self es (k.mergeEntry self a).2).1 := by
    rw [receive] at he
    simp only at he
    split at he
    · next ha => exact (mem_cons.1 he).imp_left fun h => ⟨h, ha⟩
    · exact .inr he
  rcases hcases with ⟨rfl, ha⟩ | he
  · refine ⟨?_, hmerge.has ha⟩
    obtain ⟨st, hst, hstamp, -⟩ := has_iff.1 ha
    obtain ⟨st', hst', hle⟩ := hgrown.newer _ st hst
    refine ⟨st', hst', ?_⟩
    rcases hle with rfl | hlt
    · exact Nat.le_of_eq hstamp.symm
    · exact hstamp ▸ Nat.le_of_lt hlt
  obtain ⟨hafter, hbefore⟩ := hchanged e he
  refine ⟨hafter, ?_⟩
  rcases hbefore with hhas | hlt
  · exact hmerge.has hhas
  refine .inr fun st hst => ?_
  obtain ⟨st', hst', hle⟩ := hmerge.newer _ st hst
  have hst'lt := hlt st' hst'
  rcases hle with rfl | hle
  · exact hst'lt
  · exact Nat.lt_trans hle hst'lt

end KnownPeers

end Skyr.Overlay
