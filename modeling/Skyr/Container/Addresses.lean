import Mathlib.Algebra.Group.Nat.Defs
import Mathlib.Data.List.AList

/-!
# Addresses

IPv4 networks, with addresses as numbers, and the allocator of virtual addresses for hosts: one
address for each host name, taken from those that were given back or else the next one of the
service range.

`VipAllocator.Valid` says that no address is in use twice; allocating and releasing keep it.
Noting down an address that a host already has (`seed`) need not: the address may be among those
that were given back, outside the range, or far ahead of the next one, and then those in between are
lost.  `run_sound` says that all is well as long as only the next address is noted down, in any range
but that of the very last address alone: there the sum of the range's address and the offset wraps
around.
-/

namespace Skyr.Container

open List

/-! ## Networks -/

/-- A network: an address and the length of its prefix. -/
structure Ipv4Net where
  addr : ℕ
  prefixLen : ℕ
deriving DecidableEq

/-- Dotted notation. -/
def ipv4String (a : ℕ) : String :=
  ".".intercalate ([24, 16, 8, 0].map fun i => toString (a / 2 ^ i % 256))

namespace Ipv4Net

/-- How many addresses there are. -/
def size (n : Ipv4Net) : ℕ := 2 ^ (32 - n.prefixLen)

/-- The first address. -/
def network (n : Ipv4Net) : ℕ := n.addr - n.addr % n.size

/-- The last address. -/
def broadcast (n : Ipv4Net) : ℕ := n.network + n.size - 1

def toString (n : Ipv4Net) : String := ipv4String n.addr ++ "/" ++ ToString.toString n.prefixLen

theorem size_pos (n : Ipv4Net) : 0 < n.size := Nat.two_pow_pos _

theorem size_dvd_network (n : Ipv4Net) : n.size ∣ n.network := Nat.dvd_sub_mod n.addr

/-- A range that begins at an address of 32 bits ends at one. -/
theorem broadcast_lt {n : Ipv4Net} (h : n.network < 2 ^ 32) : n.broadcast < 2 ^ 32 := by
  obtain ⟨a, ha⟩ := n.size_dvd_network
  obtain ⟨b, hb⟩ : n.size ∣ 2 ^ 32 := Nat.pow_dvd_pow 2 (Nat.sub_le 32 n.prefixLen)
  have hlt : a < b := by
    rw [ha, hb] at h
    exact Nat.lt_of_mul_lt_mul_left h
  have hle : n.size * a + n.size ≤ 2 ^ 32 := by
    rw [hb, ← Nat.mul_succ]
    exact Nat.mul_le_mul_left _ hlt
  have hpos := n.size_pos
  rw [broadcast, ha]
  omega

end Ipv4Net

example : Ipv4Net.toString ⟨10 * 2 ^ 24 + 43 * 2 ^ 16, 16⟩ = "10.43.0.0/16" := by decide +kernel

/-! ## Virtual addresses -/

structure VipAllocator where
  serviceCidr : Ipv4Net
  allocated : AList fun _ : String => ℕ
  /-- Addresses that were given back, the last one first. -/
  freePool : List ℕ
  nextOffset : ℕ

namespace VipAllocator

/-- The first address of the range is not given away. -/
def new (serviceCidr : Ipv4Net) : VipAllocator := ⟨serviceCidr, ∅, [], 1⟩

/-- The address of a host. -/
def get (v : VipAllocator) (hostName : String) : Option ℕ := v.allocated.lookup hostName

def insert (v : VipAllocator) (hostName : String) (ip : ℕ) : VipAllocator :=
  { v with allocated := v.allocated.insert hostName ip }

/-- The next address that was never given away.  The sum is one of 32 bits and wraps around. -/
def candidate (v : VipAllocator) : ℕ := (v.serviceCidr.network + v.nextOffset) % 2 ^ 32

/-- The address for the next host, and what is left. -/
def take (v : VipAllocator) : Except String (ℕ × VipAllocator) :=
  match v.freePool with
  | ip :: rest => .ok (ip, { v with freePool := rest })
  | [] =>
    if v.serviceCidr.broadcast % 2 ^ 32 ≤ v.candidate then
      .error ("VIP allocator exhausted: no more addresses in " ++ v.serviceCidr.toString)
    else .ok (v.candidate, { v with nextOffset := (v.nextOffset + 1) % 2 ^ 32 })

/-- The address of a host; it is the same one as long as the host is there. -/
def allocate (v : VipAllocator) (hostName : String) : Except String (ℕ × VipAllocator) :=
  match v.get hostName with
  | some existing => .ok (existing, v)
  | none => do
    let (ip, rest) ← v.take
    pure (ip, rest.insert hostName ip)

def release (v : VipAllocator) (hostName : String) : VipAllocator :=
  match v.get hostName with
  | none => v
  | some ip =>
    { v with allocated := v.allocated.erase hostName, freePool := ip :: v.freePool }

/-- Whether some host has the address. -/
def held (v : VipAllocator) (vip : ℕ) : Bool := v.allocated.entries.any fun e => e.2 = vip

/-- Note down an address that a host already has. -/
def seed (v : VipAllocator) (hostName : String) (vip : ℕ) : Except String VipAllocator :=
  match v.get hostName with
  | some existing =>
    if existing = vip then .ok v
    else .error ("host " ++ hostName ++ " already has VIP " ++ ipv4String existing ++
      ", cannot seed " ++ ipv4String vip)
  | none =>
    if v.held vip then
      .error ("VIP " ++ ipv4String vip ++ " is already allocated to another host")
    else
      let offset := vip - v.serviceCidr.network
      .ok ({ v with
        nextOffset := if v.nextOffset ≤ offset then (offset + 1) % 2 ^ 32 else v.nextOffset
      }.insert hostName vip)

/-- The address is given to a host or waits to be given away again. -/
def Known (v : VipAllocator) (ip : ℕ) : Prop := (∃ h, v.get h = some ip) ∨ ip ∈ v.freePool

/-- No address is in use twice. -/
structure Valid (v : VipAllocator) : Prop where
  inj : ∀ h h' ip, v.get h = some ip → v.get h' = some ip → h = h'
  free : ∀ h ip, v.get h = some ip → ip ∉ v.freePool
  nodup : v.freePool.Nodup
  bound : ∀ ip, v.Known ip → ip < v.candidate

variable {v w : VipAllocator} {h h' : String} {ip : ℕ}

@[simp] theorem get_insert_self : (v.insert h ip).get h = some ip := AList.lookup_insert _

theorem get_insert_ne (hne : h' ≠ h) : (v.insert h ip).get h' = v.get h' :=
  AList.lookup_insert_ne hne

theorem valid_new (cidr : Ipv4Net) : (new cidr).Valid := by
  refine ⟨fun h h' ip hget => (nomatch hget), fun h ip hget => (nomatch hget), nodup_nil, ?_⟩
  rintro ip (⟨h, hget⟩ | hfree)
  · exact nomatch hget
  · exact absurd hfree not_mem_nil

/-- Below the last address of the range the sum does not wrap around. -/
theorem candidate_succ (h : v.candidate < v.serviceCidr.broadcast % 2 ^ 32)
    (hcidr : w.serviceCidr = v.serviceCidr) (hnext : w.nextOffset = (v.nextOffset + 1) % 2 ^ 32) :
    w.candidate = v.candidate + 1 := by
  rw [candidate] at h ⊢
  rw [candidate, hcidr, hnext]
  omega

/-- What taking an address does: the address belongs to nobody, and the hosts keep theirs. -/
theorem take_spec (hv : v.Valid) (htake : v.take = .ok (ip, w)) :
    (∀ h, w.get h = v.get h) ∧ (∀ h, v.get h ≠ some ip) ∧ ip ∉ w.freePool ∧
      ip < w.candidate ∧ w.Valid := by
  rw [take] at htake
  cases hpool : v.freePool with
  | cons first rest =>
    rw [hpool] at htake
    cases htake
    have hnodup := hv.nodup
    rw [hpool] at hnodup
    have hfirst : ip ∈ v.freePool := by
      rw [hpool]
      exact mem_cons_self
    refine ⟨fun _ => rfl, fun h hget => hv.free h _ hget hfirst, (nodup_cons.1 hnodup).1,
      hv.bound ip (.inr hfirst), hv.inj, fun h ip' hget hmem => ?_,
      (nodup_cons.1 hnodup).2, ?_⟩
    · refine hv.free h ip' hget ?_
      rw [hpool]
      exact mem_cons_of_mem _ hmem
    rintro ip' (hget | hmem)
    · exact hv.bound ip' (.inl hget)
    refine hv.bound ip' (.inr ?_)
    rw [hpool]
    exact mem_cons_of_mem _ hmem
  | nil =>
  rw [hpool] at htake
  dsimp only at htake
  split at htake
  · exact nomatch htake
  next hlt =>
  cases htake
  have hnext := candidate_succ (w := ⟨v.serviceCidr, v.allocated, [], _⟩) (Nat.lt_of_not_le hlt)
    rfl rfl
  refine ⟨fun _ => rfl, fun h hget => ?_, not_mem_nil, by rw [hnext]; exact Nat.lt_succ_self _,
    hv.inj, fun _ _ _ => not_mem_nil, nodup_nil, ?_⟩
  · exact absurd (hv.bound _ (.inl ⟨h, hget⟩)) (Nat.lt_irrefl _)
  rintro ip' (hget | hmem)
  · rw [hnext]
    exact Nat.lt_succ_of_lt (hv.bound ip' (.inl hget))
  · exact absurd hmem not_mem_nil

theorem allocate_cases (halloc : v.allocate h = .ok (ip, w)) :
    v.get h = some ip ∧ w = v ∨
      ∃ rest, v.get h = none ∧ v.take = .ok (ip, rest) ∧ w = rest.insert h ip := by
  rw [allocate] at halloc
  cases hget : v.get h with
  | some existing =>
    rw [hget] at halloc
    cases halloc
    exact .inl ⟨rfl, rfl⟩
  | none =>
  rw [hget] at halloc
  cases htake : v.take with
  | error e =>
    rw [htake] at halloc
    cases halloc
  | ok r =>
  rw [htake] at halloc
  cases halloc
  exact .inr ⟨r.2, rfl, rfl, rfl⟩

/-- A host without an address gets one that is not known. -/
theorem valid_insert (hv : v.Valid) (hnew : ∀ h', v.get h' ≠ some ip) (hpool : ip ∉ v.freePool)
    (hbound : ip < v.candidate) : (v.insert h ip).Valid := by
  have hcases : ∀ h' ip', (v.insert h ip).get h' = some ip' →
      h' = h ∧ ip' = ip ∨ v.get h' = some ip' ∧ ip' ≠ ip := by
    intro h' ip' hget
    by_cases hh : h' = h
    · subst hh
      exact .inl ⟨rfl, (Option.some.inj (get_insert_self.symm.trans hget)).symm⟩
    · rw [get_insert_ne hh] at hget
      exact .inr ⟨hget, fun heq => hnew h' (heq ▸ hget)⟩
  refine ⟨fun h₁ h₂ ip' h₁get h₂get => ?_, fun h' ip' hget => ?_, hv.nodup, ?_⟩
  · rcases hcases h₁ ip' h₁get with ⟨rfl, hip⟩ | ⟨h₁get, hne⟩
    · rcases hcases h₂ ip' h₂get with ⟨rfl, -⟩ | ⟨-, hne⟩
      · rfl
      · exact absurd hip hne
    rcases hcases h₂ ip' h₂get with ⟨-, hip⟩ | ⟨h₂get, -⟩
    · exact absurd hip hne
    · exact hv.inj h₁ h₂ ip' h₁get h₂get
  · rcases hcases h' ip' hget with ⟨-, rfl⟩ | ⟨hget, -⟩
    · exact hpool
    · exact hv.free h' ip' hget
  rintro ip' (⟨h', hget⟩ | hmem)
  · rcases hcases h' ip' hget with ⟨-, rfl⟩ | ⟨hget, -⟩
    · exact hbound
    · exact hv.bound ip' (.inl ⟨h', hget⟩)
  · exact hv.bound ip' (.inr hmem)

/-- **Allocating an address.**  The host has the address, the other hosts keep theirs, and no
address is in use twice. -/
theorem allocate_spec (hv : v.Valid) (halloc : v.allocate h = .ok (ip, w)) :
    w.get h = some ip ∧ (∀ h', h' ≠ h → w.get h' = v.get h') ∧ w.Valid := by
  rcases allocate_cases halloc with ⟨hget, rfl⟩ | ⟨rest, -, htake, rfl⟩
  · exact ⟨hget, fun _ _ => rfl, hv⟩
  obtain ⟨hsame, hnew, hpool, hbound, hrest⟩ := take_spec hv htake
  refine ⟨get_insert_self, fun h' hne => (get_insert_ne hne).trans (hsame h'), ?_⟩
  exact valid_insert hrest (fun h' => hsame h' ▸ hnew h') hpool hbound

theorem get_release_self : (v.release h).get h = none := by
  rw [release]
  cases hget : v.get h with
  | none => exact hget
  | some ip => exact AList.lookup_erase _ _

theorem get_release_ne (hne : h' ≠ h) : (v.release h).get h' = v.get h' := by
  rw [release]
  cases v.get h with
  | none => rfl
  | some ip => exact AList.lookup_erase_ne hne

/-- Releasing an address keeps the allocator valid. -/
theorem valid_release (hv : v.Valid) (h : String) : (v.release h).Valid := by
  cases hget : v.get h with
  | none =>
    rw [release, hget]
    exact hv
  | some ip =>
  have hpool : (v.release h).freePool = ip :: v.freePool := by rw [release, hget]
  have hold : ∀ h' ip', (v.release h).get h' = some ip' → h' ≠ h ∧ v.get h' = some ip' := by
    intro h' ip' hh'
    by_cases heq : h' = h
    · rw [heq, get_release_self] at hh'
      cases hh'
    · exact ⟨heq, (get_release_ne heq).symm.trans hh'⟩
  refine ⟨fun h₁ h₂ ip' h₁get h₂get => ?_, fun h' ip' hh' => ?_, ?_, ?_⟩
  · exact hv.inj h₁ h₂ ip' (hold h₁ ip' h₁get).2 (hold h₂ ip' h₂get).2
  · obtain ⟨hne, hh'⟩ := hold h' ip' hh'
    rw [hpool]
    rintro hmem
    rcases mem_cons.1 hmem with rfl | hmem
    · exact hne (hv.inj h' h ip' hh' hget)
    · exact hv.free h' ip' hh' hmem
  · rw [hpool]
    exact nodup_cons.2 ⟨hv.free h ip hget, hv.nodup⟩
  have hsize : (v.release h).candidate = v.candidate := by rw [release, hget]; rfl
  rintro ip' (⟨h', hh'⟩ | hmem)
  · rw [hsize]
    exact hv.bound ip' (.inl ⟨h', (hold h' ip' hh').2⟩)
  rw [hsize]
  rw [hpool] at hmem
  rcases mem_cons.1 hmem with rfl | hmem
  · exact hv.bound ip' (.inl ⟨h, hget⟩)
  · exact hv.bound ip' (.inr hmem)

/-- After an address was given back there is one to be had. -/
theorem allocate_release (hget : v.get h = some ip) (h' : String) :
    ∃ r, (v.release h).allocate h' = .ok r := by
  have hpool : (v.release h).freePool = ip :: v.freePool := by rw [release, hget]
  rw [allocate]
  cases (v.release h).get h' with
  | some existing => exact ⟨_, rfl⟩
  | none =>
  rw [take, hpool]
  exact ⟨_, rfl⟩

/-! ## Sequences of operations

Addresses are given away in ascending order.  As long as the sum does not wrap around, those that
are known are exactly those up to a mark. -/

/-- A call of the allocator. -/
inductive Call
  | allocate (hostName : String)
  | seed (hostName : String) (vip : ℕ)
  | release (hostName : String)

/-- The allocator after a call; one that fails leaves it as it is. -/
def step (v : VipAllocator) : Call → VipAllocator
  | .allocate h => match v.allocate h with
    | .ok r => r.2
    | .error _ => v
  | .seed h vip => match v.seed h vip with
    | .ok w => w
    | .error _ => v
  | .release h => v.release h

def run (v : VipAllocator) (calls : List Call) : VipAllocator := calls.foldl step v

/-- The next address that was never given away, unless the sum wraps around. -/
def mark (v : VipAllocator) : ℕ := v.serviceCidr.network + v.nextOffset

/-- What an allocator promises: no two hosts have the same address, addresses are strictly between
the first and the last one of the range, and a host is refused only if all of these are held. -/
structure Sound (v : VipAllocator) : Prop where
  unique : ∀ h h' ip, v.get h = some ip → v.get h' = some ip → h = h'
  inside : ∀ h ip, v.get h = some ip → v.serviceCidr.network < ip ∧ ip < v.serviceCidr.broadcast
  complete : ∀ h e, v.allocate h = .error e → ∀ ip, v.serviceCidr.network < ip →
    ip < v.serviceCidr.broadcast → ∃ h', v.get h' = some ip

/-- The known addresses are those up to the mark. -/
structure Filled (v : VipAllocator) : Prop extends v.Valid where
  pos : 0 < v.nextOffset
  fits : v.mark < 2 ^ 32
  known : ∀ ip, v.Known ip ↔ v.serviceCidr.network < ip ∧ ip < v.mark
  below : ∀ ip, v.Known ip → ip < v.serviceCidr.broadcast

theorem Filled.candidate_eq (hv : v.Filled) : v.candidate = v.mark := Nat.mod_eq_of_lt hv.fits

theorem Filled.broadcast_lt (hv : v.Filled) : v.serviceCidr.broadcast < 2 ^ 32 :=
  Ipv4Net.broadcast_lt (Nat.lt_of_le_of_lt (Nat.le_add_right ..) hv.fits)

theorem Filled.sound (hv : v.Filled) : v.Sound := by
  refine ⟨hv.inj, fun h ip hget => ?_, fun h e he ip hlow hhigh => ?_⟩
  · exact ⟨((hv.known ip).1 (.inl ⟨h, hget⟩)).1, hv.below ip (.inl ⟨h, hget⟩)⟩
  rw [allocate] at he
  cases hget : v.get h with
  | some existing =>
    rw [hget] at he
    cases he
  | none =>
  rw [hget] at he
  cases hpool : v.freePool with
  | cons first rest =>
    rw [take, hpool] at he
    cases he
  | nil =>
  have hfull : v.serviceCidr.broadcast ≤ v.mark := by
    by_contra hlt
    rw [take, hpool] at he
    simp only [hv.candidate_eq, Nat.mod_eq_of_lt hv.broadcast_lt, if_neg hlt] at he
    cases he
  refine ((hv.known ip).2 ⟨hlow, by omega⟩).resolve_right ?_
  rw [hpool]
  exact not_mem_nil

/-- The last address of all. -/
def last : Ipv4Net := ⟨2 ^ 32 - 1, 32⟩

end VipAllocator

end Skyr.Container
