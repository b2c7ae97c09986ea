import Skyr.Container.Addresses

/-!
# Hosts

A host resource has a virtual address and a name under which it is found on every node.  The
allocator, the registry and the name records are shared by all environments, and their key is the
name of the host and nothing else.

So two environments that use the same name share an address, and when one of them deletes its host
the address and the name record of the other are gone (`Tenants.same_name`).  Hosts with different
names are kept apart, through any sequence of operations (`host_isolation`).
-/

namespace Skyr.Container

open Function VipAllocator

/-! ## The plugin -/

/-- What is kept of a host resource: its input and its outputs. -/
structure Host where
  name : String
  hostname : String
  vip : ℕ
deriving DecidableEq

/-- The part of the plugin that has to do with hosts. -/
structure HostPlugin where
  vips : VipAllocator
  /-- The addresses as they are stored in the registry. -/
  registry : String → Option ℕ
  /-- The name records of each node. -/
  dns : String → String → Option ℕ

/-- What happens to an operation outside of the plugin: whether the registry can be written, and
which nodes a broadcast reaches.  Neither makes the operation fail. -/
structure Surroundings where
  stored : Bool
  reached : String → Bool

namespace HostPlugin

def new (serviceCidr : Ipv4Net) : HostPlugin :=
  ⟨.new serviceCidr, fun _ => none, fun _ _ => none⟩

def store (p : HostPlugin) (env : Surroundings) (hostname : String) (vip : Option ℕ) :
    HostPlugin :=
  if env.stored then { p with registry := Function.update p.registry hostname vip } else p

/-- Set or remove a name record on all nodes that are reached. -/
def broadcastDns (p : HostPlugin) (env : Surroundings) (hostname : String) (vip : Option ℕ) :
    HostPlugin :=
  { p with dns := fun node =>
      if env.reached node then Function.update (p.dns node) hostname vip else p.dns node }

def withVips (p : HostPlugin) (vips : VipAllocator) : HostPlugin := { p with vips := vips }

def hostnameOf (name : String) : String := name ++ ".internal"

def createHost (p : HostPlugin) (env : Surroundings) (name : String) :
    Except String Host × HostPlugin :=
  let hostname := hostnameOf name
  match p.vips.allocate hostname with
  | .error e => (.error ("VIP allocation failed: " ++ e), p)
  | .ok (vip, vips) =>
    (.ok ⟨name, hostname, vip⟩,
      ((p.withVips vips).store env hostname (some vip)).broadcastDns env hostname (some vip))

def deleteHost (p : HostPlugin) (env : Surroundings) (hostname : String) : HostPlugin :=
  if hostname = "" then p
  else
    let p := p.broadcastDns env hostname none
    (p.withVips (p.vips.release hostname)).store env hostname none

/-- A host whose name has changed is deleted and created anew. -/
def updateHost (p : HostPlugin) (env : Surroundings) (prev : Host) (name : String) :
    Except String Host × HostPlugin :=
  if prev.name ≠ name then (p.deleteHost env prev.hostname).createHost env name else (.ok prev, p)

end HostPlugin

/-! ## Operations -/

/-- A host resource: its environment and its name there. -/
abbrev HostKey := String × String

structure HostState where
  plugin : HostPlugin
  hosts : HostKey → Option Host

inductive HostOp
  | create (key : HostKey) (name : String)
  | update (key : HostKey) (name : String)
  | delete (key : HostKey)

def HostOp.key : HostOp → HostKey
  | create key _ | update key _ | delete key => key

namespace HostState

def new (serviceCidr : Ipv4Net) : HostState := ⟨.new serviceCidr, fun _ => none⟩

def setHost (s : HostState) (p : HostPlugin) (key : HostKey) (host : Option Host) : HostState :=
  ⟨p, Function.update s.hosts key host⟩

/-- What the plugin returned is kept; a failure leaves the resource as it was. -/
def settle (s : HostState) (key : HostKey) : Except String Host × HostPlugin → HostState
  | (.ok host, p) => s.setHost p key (some host)
  | (.error _, p) => { s with plugin := p }

/-- An operation.  Only what is not there is created, and only what is there is updated or
deleted. -/
def step (s : HostState) (env : Surroundings) : HostOp → HostState
  | .create key name =>
    match s.hosts key with
    | some _ => s
    | none => s.settle key (s.plugin.createHost env name)
  | .update key name =>
    match s.hosts key with
    | some prev => s.settle key (s.plugin.updateHost env prev name)
    | none => s
  | .delete key =>
    match s.hosts key with
    | some host => s.setHost (s.plugin.deleteHost env host.hostname) key none
    | none => s

def run (s : HostState) (ops : List (Surroundings × HostOp)) : HostState :=
  ops.foldl (fun s op => s.step op.1 op.2) s

/-- No other host has the name that is asked for. -/
def Distinct (s : HostState) : HostOp → Prop
  | .create key name | .update key name =>
    ∀ key' host, s.hosts key' = some host → key' ≠ key → host.name ≠ name
  | .delete _ => True

/-- In every operation the name that is asked for is free. -/
def Meets : HostState → List (Surroundings × HostOp) → Prop
  | _, [] => True
  | s, op :: ops => s.Distinct op.2 ∧ Meets (s.step op.1 op.2) ops

/-! ## Isolation

The invariant is about names and addresses together.  An operation that asks for a free name keeps
it, and leaves all that belongs to other names alone. -/

theorem hostnameOf_inj {a b : String} (h : HostPlugin.hostnameOf a = HostPlugin.hostnameOf b) :
    a = b := by
  have hlist := congrArg String.toList h
  simp only [HostPlugin.hostnameOf, String.toList_append] at hlist
  exact String.toList_inj.1 (List.append_cancel_right hlist)

theorem hostnameOf_ne_empty (name : String) : HostPlugin.hostnameOf name ≠ "" := by
  intro h
  have hlist := congrArg (fun s => s.toList.length) h
  simp [HostPlugin.hostnameOf] at hlist

/-- Every host has its address, and no two hosts have the same name. -/
structure Inv (s : HostState) : Prop where
  valid : s.plugin.vips.Valid
  held : ∀ key host, s.hosts key = some host →
    host.hostname = HostPlugin.hostnameOf host.name ∧
      s.plugin.vips.get host.hostname = some host.vip
  names : ∀ key key' host host', s.hosts key = some host → s.hosts key' = some host' →
    host.name = host'.name → key = key'

variable {s : HostState} {env : Surroundings}

theorem inv_new (cidr : Ipv4Net) : (new cidr).Inv :=
  ⟨valid_new cidr, fun _ _ h => (nomatch h), fun _ _ _ _ h => (nomatch h)⟩

/-- What there is of a host name outside of the resources. -/
structure Kept (p q : HostPlugin) (hostname : String) : Prop where
  vip : q.vips.get hostname = p.vips.get hostname
  registry : q.registry hostname = p.registry hostname
  dns : ∀ node, q.dns node hostname = p.dns node hostname

variable {hostname : String}

theorem Kept.trans {p q r : HostPlugin} (hpq : Kept p q hostname)
    (hqr : Kept q r hostname) : Kept p r hostname :=
  ⟨hqr.vip.trans hpq.vip, hqr.registry.trans hpq.registry,
    fun node => (hqr.dns node).trans (hpq.dns node)⟩

variable (p : HostPlugin)

theorem kept_store {hostname' : String} (vip : Option ℕ)
    (hne : hostname' ≠ hostname) : Kept p (p.store env hostname vip) hostname' := by
  rw [HostPlugin.store]
  split
  · exact ⟨rfl, update_of_ne hne _ _, fun _ => rfl⟩
  · exact ⟨rfl, rfl, fun _ => rfl⟩

theorem kept_broadcastDns {hostname' : String} (vip : Option ℕ)
    (hne : hostname' ≠ hostname) : Kept p (p.broadcastDns env hostname vip) hostname' := by
  refine ⟨rfl, rfl, fun node => ?_⟩
  change (if env.reached node then Function.update (p.dns node) hostname vip else p.dns node)
    hostname' = p.dns node hostname'
  split
  · exact update_of_ne hne _ _
  · rfl

/-- Storing and broadcasting leave the allocator as it is. -/
theorem vips_store (hostname : String) (vip : Option ℕ) :
    (p.store env hostname vip).vips = p.vips := by
  rw [HostPlugin.store]
  split <;> rfl

variable {name : String}

theorem createHost_spec {p q : HostPlugin} {r : Except String Host}
    (hp : p.vips.Valid) (h : p.createHost env name = (r, q)) :
    q.vips.Valid ∧ (∀ hostname, hostname ≠ HostPlugin.hostnameOf name → Kept p q hostname) ∧
      ∀ host, r = .ok host → host.name = name ∧ host.hostname = HostPlugin.hostnameOf name ∧
        q.vips.get host.hostname = some host.vip := by
  rw [HostPlugin.createHost] at h
  cases halloc : p.vips.allocate (HostPlugin.hostnameOf name) with
  | error e =>
    rw [halloc] at h
    cases h
    exact ⟨hp, fun _ _ => ⟨rfl, rfl, fun _ => rfl⟩, fun _ hr => nomatch hr⟩
  | ok r =>
  obtain ⟨vip, vips⟩ := r
  rw [halloc] at h
  cases h
  obtain ⟨hget, hothers, hvalid⟩ := allocate_spec hp halloc
  have hvips : (((p.withVips vips).store env (HostPlugin.hostnameOf name)
      (some vip)).broadcastDns env (HostPlugin.hostnameOf name) (some vip)).vips = vips :=
    vips_store _ _ _
  refine ⟨?_, fun hostname hne => ?_, ?_⟩
  · rw [hvips]
    exact hvalid
  · have hfirst : Kept p (p.withVips vips) hostname := ⟨hothers hostname hne, rfl, fun _ => rfl⟩
    exact (hfirst.trans (kept_store _ _ hne)).trans (kept_broadcastDns _ _ hne)
  rintro _ ⟨⟩
  refine ⟨rfl, rfl, ?_⟩
  rw [hvips]
  exact hget

theorem deleteHost_spec (env : Surroundings) (p : HostPlugin) (hp : p.vips.Valid)
    (hne : hostname ≠ "") :
    (p.deleteHost env hostname).vips = p.vips.release hostname ∧
      (p.deleteHost env hostname).vips.Valid ∧
      ∀ hostname', hostname' ≠ hostname → Kept p (p.deleteHost env hostname) hostname' := by
  rw [HostPlugin.deleteHost, if_neg hne]
  have hvips : (((p.broadcastDns env hostname none).withVips
      (p.vips.release hostname)).store env hostname none).vips = p.vips.release hostname :=
    vips_store _ _ _
  refine ⟨hvips, ?_, fun hostname' hne' => ?_⟩
  · change VipAllocator.Valid (HostPlugin.vips (((p.broadcastDns env hostname none).withVips
      (p.vips.release hostname)).store env hostname none))
    rw [hvips]
    exact valid_release hp hostname
  have hreleased : Kept (p.broadcastDns env hostname none)
      ((p.broadcastDns env hostname none).withVips (p.vips.release hostname)) hostname' :=
    ⟨get_release_ne hne', rfl, fun _ => rfl⟩
  exact ((kept_broadcastDns p none hne').trans hreleased).trans (kept_store _ _ hne')

/-- What an operation on one host does: its new host, if it has one, has its address, and nothing
is done to other host names. -/
structure Effect (s t : HostState) (key : HostKey) : Prop where
  valid : t.plugin.vips.Valid
  hosts : ∀ key', key' ≠ key → t.hosts key' = s.hosts key'
  held : ∀ host, t.hosts key = some host → host.hostname = HostPlugin.hostnameOf host.name ∧
    t.plugin.vips.get host.hostname = some host.vip
  name : ∀ host, t.hosts key = some host →
    ∀ key' host', key' ≠ key → s.hosts key' = some host' → host'.name ≠ host.name
  kept : ∀ key' host', key' ≠ key → s.hosts key' = some host' →
    Kept s.plugin t.plugin host'.hostname

variable {key : HostKey}

theorem Effect.inv {t : HostState} (h : Effect s t key) (hs : s.Inv) : t.Inv := by
  refine ⟨h.valid, fun key' host hhost => ?_, fun key₁ key₂ host₁ host₂ h₁ h₂ hname => ?_⟩
  · by_cases hkey : key' = key
    · rw [hkey] at hhost
      exact h.held host hhost
    rw [h.hosts key' hkey] at hhost
    obtain ⟨hname, hget⟩ := hs.held key' host hhost
    exact ⟨hname, (h.kept key' host hkey hhost).vip.trans hget⟩
  by_cases hkey₁ : key₁ = key
  · by_cases hkey₂ : key₂ = key
    · rw [hkey₁, hkey₂]
    rw [hkey₁] at h₁
    rw [h.hosts key₂ hkey₂] at h₂
    exact absurd hname.symm (h.name host₁ h₁ key₂ host₂ hkey₂ h₂)
  rw [h.hosts key₁ hkey₁] at h₁
  by_cases hkey₂ : key₂ = key
  · rw [hkey₂] at h₂
    exact absurd hname (h.name host₂ h₂ key₁ host₁ hkey₁ h₁)
  · rw [h.hosts key₂ hkey₂] at h₂
    exact hs.names key₁ key₂ host₁ host₂ h₁ h₂ hname

theorem effect_refl (hs : s.Inv) (key : HostKey) : Effect s s key := by
  refine ⟨hs.valid, fun _ _ => rfl, hs.held key, fun host hhost key' host' hne hhost' hname => ?_,
    fun _ _ _ _ => ⟨rfl, rfl, fun _ => rfl⟩⟩
  exact hne (hs.names key' key host' host hhost' hhost hname)

/-- The hostnames of other hosts differ from the one of a name that is free. -/
theorem hostname_ne (hs : s.Inv) {key' : HostKey} {host' : Host}
    (hhost' : s.hosts key' = some host') (hne : host'.name ≠ name) :
    host'.hostname ≠ HostPlugin.hostnameOf name := by
  rw [(hs.held key' host' hhost').1]
  exact fun h => hne (hostnameOf_inj h)

/-- A host is created, where the others were left alone before. -/
theorem effect_create (hs : s.Inv) {p : HostPlugin}
    (hp : p.vips.Valid)
    (hkept : ∀ key' host', key' ≠ key → s.hosts key' = some host' → Kept s.plugin p host'.hostname)
    (hfree : ∀ key' host, s.hosts key' = some host → key' ≠ key → host.name ≠ name)
    {host : Host} {q : HostPlugin} (hcreate : p.createHost env name = (.ok host, q)) :
    Effect s (s.setHost q key (some host)) key := by
  obtain ⟨hvalid, hothers, hhost⟩ := createHost_spec hp hcreate
  obtain ⟨hname, hhostname, hget⟩ := hhost host rfl
  have hself : (s.setHost q key (some host)).hosts key = some host := update_self _ _ _
  refine ⟨hvalid, fun key' hne => update_of_ne hne _ _, fun host₁ h₁ => ?_,
    fun host₁ h₁ key' host' hne hhost' => ?_, fun key' host' hne hhost' => ?_⟩
  · cases hself.symm.trans h₁
    exact ⟨by rw [hhostname, hname], hget⟩
  · cases hself.symm.trans h₁
    rw [hname]
    exact hfree key' host' hhost' hne
  · exact (hkept key' host' hne hhost').trans
      (hothers _ (hostname_ne hs hhost' (hfree key' host' hhost' hne)))

/-- Deleting the host of one key leaves the others alone. -/
theorem kept_delete (hs : s.Inv) (env : Surroundings) {host : Host}
    (hkey : s.hosts key = some host) :
    (s.plugin.deleteHost env host.hostname).vips = s.plugin.vips.release host.hostname ∧
      (s.plugin.deleteHost env host.hostname).vips.Valid ∧
      ∀ key' host', key' ≠ key → s.hosts key' = some host' →
        Kept s.plugin (s.plugin.deleteHost env host.hostname) host'.hostname := by
  have hhostname := (hs.held key host hkey).1
  have hne : host.hostname ≠ "" := by
    rw [hhostname]
    exact hostnameOf_ne_empty host.name
  obtain ⟨hvips, hvalid, hothers⟩ := deleteHost_spec env s.plugin hs.valid hne
  refine ⟨hvips, hvalid, fun key' host' hne' hhost' => hothers _ ?_⟩
  rw [hhostname]
  exact hostname_ne hs hhost' fun hname => hne' (hs.names key' key host' host hhost' hkey hname)

/-- Every operation that asks for a name that is free. -/
theorem effect_step (hs : s.Inv) (env : Surroundings) {op : HostOp} (hop : s.Distinct op) :
    Effect s (s.step env op) op.key := by
  cases op with
  | create key name =>
    change Effect s (match s.hosts key with
      | some _ => s
      | none => s.settle key (s.plugin.createHost env name)) key
    cases hkey : s.hosts key with
    | some host => exact effect_refl hs key
    | none =>
    cases hcreate : s.plugin.createHost env name with
    | mk r p =>
    cases r with
    | ok host =>
      exact effect_create hs hs.valid (fun _ _ _ _ => ⟨rfl, rfl, fun _ => rfl⟩) hop hcreate
    | error e =>
    obtain ⟨hvalid, hothers, -⟩ := createHost_spec hs.valid hcreate
    refine ⟨hvalid, fun _ _ => rfl, fun host h => ?_, fun host h => ?_,
      fun key' host' hne hhost' => ?_⟩
    · cases hkey.symm.trans h
    · cases hkey.symm.trans h
    · exact hothers _ (hostname_ne hs hhost' (hop key' host' hhost' hne))
  | update key name =>
    change Effect s (match s.hosts key with
      | some prev => s.settle key (s.plugin.updateHost env prev name)
      | none => s) key
    cases hkey : s.hosts key with
    | none => exact effect_refl hs key
    | some prev =>
    change Effect s (s.settle key (if prev.name ≠ name then
      (s.plugin.deleteHost env prev.hostname).createHost env name else (.ok prev, s.plugin))) key
    by_cases hname : prev.name = name
    · have hsame : s.setHost s.plugin key (some prev) = s := by
        rw [setHost, ← hkey, update_eq_self]
      rw [if_neg (not_not_intro hname)]
      change Effect s (s.setHost s.plugin key (some prev)) key
      rw [hsame]
      exact effect_refl hs key
    rw [if_pos hname]
    obtain ⟨hvips, hvalid, hkept⟩ := kept_delete hs env hkey
    cases hcreate : (s.plugin.deleteHost env prev.hostname).createHost env name with
    | mk r p =>
    cases r with
    | ok host => exact effect_create hs hvalid hkept hop hcreate
    | error e =>
    -- the address that was just given back is there to be taken
    obtain ⟨r, hr⟩ := allocate_release (hs.held key prev hkey).2
      (HostPlugin.hostnameOf name)
    rw [HostPlugin.createHost, hvips, hr] at hcreate
    cases hcreate
  | delete key =>
  change Effect s (match s.hosts key with
    | some host => s.setHost (s.plugin.deleteHost env host.hostname) key none
    | none => s) key
  cases hkey : s.hosts key with
  | none => exact effect_refl hs key
  | some host =>
  obtain ⟨-, hvalid, hkept⟩ := kept_delete hs env hkey
  have hself : (s.setHost (s.plugin.deleteHost env host.hostname) key none).hosts key = none :=
    update_self _ _ _
  refine ⟨hvalid, fun key' hne => update_of_ne hne _ _, fun host h => ?_, fun host h => ?_, hkept⟩
  · cases hself.symm.trans h
  · cases hself.symm.trans h

theorem inv_run (hs : s.Inv) {ops : List (Surroundings × HostOp)} (hops : s.Meets ops) :
    (s.run ops).Inv := by
  induction ops generalizing s with
  | nil => exact hs
  | cons op ops ih => exact ih ((effect_step hs op.1 hops.1).inv hs) hops.2

end HostState

/-- **Host isolation.**  After any sequence of operations each of which asks for a name that no
other host has, hosts of different environments have different addresses; and one more such
operation leaves every host of every other environment, its address and its name records as they
are. -/
theorem host_isolation (serviceCidr : Ipv4Net) (ops : List (Surroundings × HostOp))
    (hops : (HostState.new serviceCidr).Meets ops) :
    let s := (HostState.new serviceCidr).run ops
    (∀ key key' host host', s.hosts key = some host → s.hosts key' = some host' →
      key.1 ≠ key'.1 → host.vip ≠ host'.vip) ∧
    ∀ env op, s.Distinct op → ∀ key host, key.1 ≠ op.key.1 → s.hosts key = some host →
      (s.step env op).hosts key = some host ∧
        (s.step env op).plugin.vips.get host.hostname = some host.vip ∧
        (s.step env op).plugin.registry host.hostname = s.plugin.registry host.hostname ∧
        ∀ node, (s.step env op).plugin.dns node host.hostname =
          s.plugin.dns node host.hostname := by
  intro s
  have hs : s.Inv := HostState.inv_run (HostState.inv_new serviceCidr) hops
  refine ⟨fun key key' host host' hhost hhost' hne hvip => ?_,
    fun env op hop key host hne hhost => ?_⟩
  · obtain ⟨hhostname, hget⟩ := hs.held key host hhost
    obtain ⟨hhostname', hget'⟩ := hs.held key' host' hhost'
    rw [hvip] at hget
    have heq := hs.valid.inj _ _ _ hget hget'
    rw [hhostname, hhostname'] at heq
    have hkey := hs.names key key' host host' hhost hhost' (HostState.hostnameOf_inj heq)
    exact hne (congrArg Prod.fst hkey)
  have heffect := HostState.effect_step hs env hop
  have hkey : key ≠ op.key := fun h => hne (congrArg Prod.fst h)
  have hkept := heffect.kept key host hkey hhost
  exact ⟨(heffect.hosts key hkey).trans hhost,
    hkept.vip.trans (hs.held key host hhost).2, hkept.registry, hkept.dns⟩

/-! ## Two tenants -/

namespace Tenants

def range : Ipv4Net := ⟨10 * 2 ^ 24 + 43 * 2 ^ 16, 16⟩

/-- Everything works. -/
def calm : Surroundings := ⟨true, fun _ => true⟩

def acme : HostKey := ("Acme/Shop::main", "web")

def evil : HostKey := ("Evil/Shop::main", "web")

def after (ops : List HostOp) : HostState := (HostState.new range).run (ops.map (calm, ·))

/-- Two tenants with different names; one of them deletes its host. -/
theorem different_names :
    let s := after [.create acme "web", .create evil "api"]
    let t := s.step calm (.delete acme)
    (s.hosts acme).map (·.vip) ≠ (s.hosts evil).map (·.vip) ∧
      t.plugin.vips.get "api.internal" = (s.hosts evil).map (·.vip) := by
  have hmeets : (HostState.new range).Meets
      ([.create acme "web", .create evil "api"].map (calm, ·)) := by
    refine ⟨fun _ _ h => (nomatch h), fun key host hhost hne => ?_, trivial⟩
    have hkey : key = acme := by
      by_contra hkey
      have hnone : ((HostState.new range).step calm (.create acme "web")).hosts key = none :=
        update_of_ne hkey _ _
      exact nomatch hnone.symm.trans hhost
    rw [hkey] at hhost
    have hself : ((HostState.new range).step calm (.create acme "web")).hosts acme =
        some ⟨"web", "web.internal", range.network + 1⟩ := by decide +kernel
    cases hself.symm.trans hhost
    decide
  obtain ⟨hvips, hframe⟩ := host_isolation range _ hmeets
  have hacme : (after [.create acme "web", .create evil "api"]).hosts acme =
      some ⟨"web", "web.internal", range.network + 1⟩ := by decide +kernel
  have hevil : (after [.create acme "web", .create evil "api"]).hosts evil =
      some ⟨"api", "api.internal", range.network + 2⟩ := by decide +kernel
  refine ⟨fun h => hvips acme evil _ _ hacme hevil (by decide) ?_, ?_⟩
  · rw [hacme, hevil] at h
    exact Option.some.inj h
  · rw [hevil]
    exact (hframe calm (.delete acme) trivial evil _ (by decide) hevil).2.1

/-- **Two tenants with the same name** have the same address; and when one of them deletes its
host, the address of the other is free and its name record gone, although the host is still
there. -/
theorem same_name :
    let s := after [.create acme "web", .create evil "web"]
    let t := s.step calm (.delete evil)
    (s.hosts acme).map (·.vip) = some (range.network + 1) ∧
      (s.hosts evil).map (·.vip) = some (range.network + 1) ∧
      (t.hosts acme).map (·.vip) = some (range.network + 1) ∧
      t.plugin.vips.get "web.internal" = none ∧ t.plugin.vips.freePool = [range.network + 1] ∧
      s.plugin.dns "node-1" "web.internal" = some (range.network + 1) ∧
      t.plugin.dns "node-1" "web.internal" = none := by
  decide +kernel

end Tenants

end Skyr.Container
