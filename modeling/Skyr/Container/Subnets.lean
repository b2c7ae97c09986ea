import Skyr.Container.Addresses
import Skyr.Lib.Buddy

/-!
# Pod address ranges

Every worker node has a range of addresses for its pods, a part of the range of the cluster.  The
allocator keeps a tree of blocks, and beside it which range it has given to which node.

`SubnetAllocator.Valid` says that the two agree.  The operations keep it, and so no address is
given to two nodes (`Valid.disjoint`).  Whatever is allocated, seeded and released, the list says
exactly what the tree says, and a range is refused only if there is none (`run_orderly`).
-/

namespace Skyr.Container

open Ipv4Net Function Buddy

namespace Ipv4Net

instance : Membership ℕ Ipv4Net := ⟨fun c x => c.network ≤ x ∧ x ≤ c.broadcast⟩

instance (c : Ipv4Net) (x : ℕ) : Decidable (x ∈ c) :=
  inferInstanceAs (Decidable (c.network ≤ x ∧ x ≤ c.broadcast))

/-- One range is a part of another. -/
def contains (c d : Ipv4Net) : Bool := c.network ≤ d.network && d.broadcast ≤ c.broadcast

/-- Two ranges have no address in common. -/
def Disjoint (c d : Ipv4Net) : Prop := ∀ x ∈ c, x ∉ d

variable {c : Ipv4Net}

theorem mem_iff {x : ℕ} : x ∈ c ↔ c.network ≤ x ∧ x < c.network + c.size := by
  have hpos := c.size_pos
  change c.network ≤ x ∧ x ≤ c.network + c.size - 1 ↔ _
  omega

theorem contains_iff {d : Ipv4Net} : c.contains d = true ↔
    c.network ≤ d.network ∧ d.network + d.size ≤ c.network + c.size := by
  have hc := c.size_pos
  have hd := d.size_pos
  rw [contains, Bool.and_eq_true, decide_eq_true_iff, decide_eq_true_iff]
  change _ ∧ d.network + d.size - 1 ≤ c.network + c.size - 1 ↔ _
  omega

theorem network_of_dvd (h : c.size ∣ c.addr) : c.network = c.addr := by
  rw [network, Nat.mod_eq_zero_of_dvd h, Nat.sub_zero]

theorem Disjoint.symm {d : Ipv4Net} (h : c.Disjoint d) : d.Disjoint c := fun x hd hc => h x hc hd

end Ipv4Net

/-- The allocator of ranges for nodes. -/
structure SubnetAllocator where
  clusterCidr : Ipv4Net
  root : Buddy String
  allocated : String → Option Ipv4Net

namespace SubnetAllocator

def new (clusterCidr : Ipv4Net) : SubnetAllocator := ⟨clusterCidr, .free, fun _ => none⟩

/-- The height of the block of the cluster. -/
def height (v : SubnetAllocator) : ℕ := 32 - v.clusterCidr.prefixLen

/-- What is given to a node is noted down. -/
def insert (v : SubnetAllocator) (root : Buddy String) (nodeName : String) (subnet : Ipv4Net) :
    SubnetAllocator :=
  { v with root := root, allocated := Function.update v.allocated nodeName (some subnet) }

/-- A range for a node; it is the same one as long as the node has it, whatever the length of the
prefix. -/
def allocate (v : SubnetAllocator) (nodeName : String) (prefixLen : ℕ) :
    Except String Ipv4Net × SubnetAllocator :=
  if prefixLen ≤ v.clusterCidr.prefixLen then
    (.error ("requested prefix length (" ++ toString prefixLen ++
      ") must be greater than cluster prefix (" ++ toString v.clusterCidr.prefixLen ++ ")"), v)
  else if 30 < prefixLen then
    (.error ("requested prefix length (" ++ toString prefixLen ++ ") must be <= 30"), v)
  else
    match v.allocated nodeName with
    | some existing => (.ok existing, v)
    | none =>
      match v.root.allocate nodeName (32 - prefixLen) v.clusterCidr.network v.height with
      | (some base, root) => (.ok ⟨base, prefixLen⟩, v.insert root nodeName ⟨base, prefixLen⟩)
      | (none, root) =>
        (.error ("no free /" ++ toString prefixLen ++ " subnet available in " ++
          v.clusterCidr.toString), { v with root := root })

/-- Note down a range that a node already has. -/
def seed (v : SubnetAllocator) (nodeName : String) (subnet : Ipv4Net) :
    Except String Unit × SubnetAllocator :=
  match v.allocated nodeName with
  | some existing =>
    if existing = subnet then (.ok (), v)
    else (.error ("node " ++ nodeName ++ " already has allocation " ++ existing.toString ++
      ", cannot seed " ++ subnet.toString), v)
  | none =>
    if v.clusterCidr.contains subnet then
      match v.root.seed nodeName subnet.network (32 - subnet.prefixLen) v.clusterCidr.network
        v.height with
      | (true, root) => (.ok (), v.insert root nodeName subnet)
      | (false, root) =>
        (.error ("failed to seed subnet " ++ subnet.toString ++ " for " ++ nodeName ++
          ": conflicts with existing allocation"), { v with root := root })
    else (.error ("subnet " ++ subnet.toString ++ " is not within cluster CIDR " ++
      v.clusterCidr.toString), v)

def release (v : SubnetAllocator) (nodeName : String) : SubnetAllocator :=
  match v.allocated nodeName with
  | none => v
  | some _ =>
    { v with
      root := (v.root.release nodeName).2
      allocated := Function.update v.allocated nodeName none }

/-- The node whose range an address is in, according to the tree. -/
def owner (v : SubnetAllocator) (x : ℕ) : Option String :=
  v.root.owner v.clusterCidr.network v.height x

/-! ## The tree and the list agree -/

structure Valid (v : SubnetAllocator) : Prop where
  fits : v.root.Fits v.height
  nodup : v.root.owners.Nodup
  listed : ∀ n ∈ v.root.owners, v.allocated n ≠ none
  inside : ∀ n c, v.allocated n = some c → ∀ x ∈ c, x ∈ v.clusterCidr
  owned : ∀ n c, v.allocated n = some c → ∀ x ∈ c, v.owner x = some n

variable {v : SubnetAllocator} {n m : String} {c d : Ipv4Net}

theorem valid_new (cidr : Ipv4Net) : (new cidr).Valid :=
  ⟨trivial, List.nodup_nil, fun _ h => absurd h List.not_mem_nil, fun _ _ h => (nomatch h),
    fun _ _ h => (nomatch h)⟩

/-- **No address is given to two nodes.** -/
theorem Valid.disjoint (hv : v.Valid) (hn : v.allocated n = some c) (hm : v.allocated m = some d)
    (hne : n ≠ m) : c.Disjoint d := by
  intro x hc hd
  have hown := hv.owned n c hn x hc
  rw [hv.owned m d hm x hd] at hown
  exact hne (Option.some.inj hown).symm

theorem notMem_owners (hv : v.Valid) (hn : v.allocated n = none) : n ∉ v.root.owners :=
  fun h => hv.listed n h hn

theorem allocated_insert_self (root : Buddy String) :
    (v.insert root n c).allocated n = some c := update_self _ _ _

theorem allocated_insert_ne (root : Buddy String) (hne : m ≠ n) :
    (v.insert root n c).allocated m = v.allocated m := update_of_ne hne _ _

theorem dvd_network (v : SubnetAllocator) : 2 ^ v.height ∣ v.clusterCidr.network :=
  v.clusterCidr.size_dvd_network

/-- A block that was free is given to a node that has none. -/
theorem valid_insert (hv : v.Valid) (hn : v.allocated n = none) {root : Buddy String}
    (h : Buddy.Gives n c.network (32 - c.prefixLen) v.clusterCidr.network v.height v.root root) :
    (v.insert root n c).Valid := by
  have hmem : ∀ x, x ∈ c ↔ c.network ≤ x ∧ x < c.network + 2 ^ (32 - c.prefixLen) := fun x => mem_iff
  have hcluster : ∀ x, x ∈ v.clusterCidr ↔
      v.clusterCidr.network ≤ x ∧ x < v.clusterCidr.network + 2 ^ v.height :=
    fun x => mem_iff
  have hlow := h.low
  have hhigh := h.high
  have hinside : ∀ x ∈ c, x ∈ v.clusterCidr := by
    intro x hx
    rw [hmem] at hx
    rw [hcluster]
    omega
  refine ⟨h.fits, ?_, fun m hm => ?_, fun m d hm => ?_, fun m d hm => ?_⟩
  · exact h.owners.nodup_iff.2 (List.nodup_cons.2 ⟨notMem_owners hv hn, hv.nodup⟩)
  · by_cases hmn : m = n
    · rw [hmn, allocated_insert_self]
      exact nofun
    · rw [allocated_insert_ne root hmn]
      exact hv.listed m ((List.mem_cons.1 (h.owners.mem_iff.1 hm)).resolve_left hmn)
  · by_cases hmn : m = n
    · rw [hmn, allocated_insert_self] at hm
      cases hm
      exact hinside
    · rw [allocated_insert_ne root hmn] at hm
      exact hv.inside m d hm
  by_cases hmn : m = n
  · rw [hmn, allocated_insert_self] at hm
    cases hm
    intro x hx
    rw [hmem] at hx
    rw [hmn]
    exact h.after x hx.1 hx.2
  rw [allocated_insert_ne root hmn] at hm
  intro x hx
  have hown := hv.owned m d hm x hx
  have hx' := hv.inside m d hm x hx
  rw [hcluster] at hx'
  refine (h.rest x hx'.1 hx'.2 fun hin => ?_).trans hown
  rw [owner, h.before x hin.1 hin.2] at hown
  cases hown

/-- The node `n` may have got a range, and the other nodes keep theirs. -/
structure Extends (n : String) (v w : SubnetAllocator) : Prop where
  valid : w.Valid
  clusterCidr : w.clusterCidr = v.clusterCidr
  keeps : ∀ m c, v.allocated m = some c → w.allocated m = some c
  others : ∀ m, m ≠ n → w.allocated m = v.allocated m

theorem Extends.rfl (hv : v.Valid) : Extends n v v :=
  ⟨hv, Eq.refl _, fun _ _ h => h, fun _ _ => Eq.refl _⟩

/-- What allocating and seeding may do: nothing, or a node that has no range gets a block that was
free. -/
inductive Change (n : String) (v : SubnetAllocator) : SubnetAllocator → Prop
  | none : Change n v v
  | insert {c : Ipv4Net} {root : Buddy String} (hn : v.allocated n = none)
    (hgives : Buddy.Gives n c.network (32 - c.prefixLen) v.clusterCidr.network v.height v.root root)
    (hplanted : v.root.Planted root) : Change n v (v.insert root n c)

theorem Change.extends {w : SubnetAllocator} (h : Change n v w) (hv : v.Valid) : Extends n v w := by
  cases h with
  | none => exact .rfl hv
  | @insert c root hn hgives _ =>
  refine ⟨valid_insert hv hn hgives, Eq.refl _, fun m d hm => ?_,
    fun m hmn => allocated_insert_ne root hmn⟩
  have hmn : m ≠ n := by
    rintro rfl
    rw [hn] at hm
    cases hm
  rw [allocated_insert_ne root hmn, hm]

/-- What allocating does: the node has the range that is returned, and a new one is of the size that
was asked for and begins at its first address. -/
theorem allocate_spec (hv : v.Valid) (n : String) (p : ℕ) :
    (∃ e, v.allocate n p = (.error e, v)) ∨
      ∃ c w, v.allocate n p = (.ok c, w) ∧ Change n v w ∧ w.allocated n = some c ∧
        (v.allocated n = none → c.prefixLen = p ∧ c.size ∣ c.addr) := by
  rw [allocate]
  split
  · exact .inl ⟨_, rfl⟩
  split
  · exact .inl ⟨_, rfl⟩
  cases hn : v.allocated n with
  | some existing => exact .inr ⟨_, _, rfl, .none, hn, fun h => (nomatch h)⟩
  | none =>
  simp only
  have hplanted := v.root.allocate_planted (a := n) (t := 32 - p) v.clusterCidr.network v.height
  rcases Buddy.allocate_spec (a := n) (t := 32 - p) hv.fits v.dvd_network with
    ⟨b, root, heq, hgives⟩ | heq
  · rw [heq] at hplanted ⊢
    have hnetwork : (⟨b, p⟩ : Ipv4Net).network = b := network_of_dvd hgives.aligned
    refine .inr ⟨_, _, rfl, .insert hn ?_ hplanted, allocated_insert_self root,
      fun _ => ⟨rfl, hgives.aligned⟩⟩
    rw [hnetwork]
    exact hgives
  · rw [heq]
    exact .inl ⟨_, rfl⟩

/-- What seeding does: the node has the range it is said to have. -/
theorem seed_spec (hv : v.Valid) (n : String) (c : Ipv4Net) :
    (∃ e, v.seed n c = (.error e, v)) ∨
      ∃ w, v.seed n c = (.ok (), w) ∧ Change n v w ∧ w.allocated n = some c := by
  rw [seed]
  cases hn : v.allocated n with
  | some existing =>
    simp only
    split
    · next heq => exact .inr ⟨_, rfl, .none, hn.trans (congrArg some heq)⟩
    · exact .inl ⟨_, rfl⟩
  | none =>
  simp only
  split
  · next hin =>
    obtain ⟨hlow, hhigh⟩ := contains_iff.1 hin
    have hplanted := v.root.seed_planted (a := n) (b := c.network) (t := 32 - c.prefixLen)
      v.clusterCidr.network v.height
    rcases Buddy.seed_spec (a := n) hv.fits v.dvd_network c.size_dvd_network hlow hhigh with
      ⟨root, heq, hgives⟩ | heq
    · rw [heq] at hplanted ⊢
      exact .inr ⟨_, rfl, .insert hn hgives hplanted, allocated_insert_self root⟩
    · rw [heq]
      exact .inl ⟨_, rfl⟩
  · exact .inl ⟨_, rfl⟩

theorem seed_of_allocated (hn : v.allocated n = some c) : v.seed n c = (.ok (), v) := by
  rw [seed, hn]
  exact if_pos rfl

/-- What releasing does: the node has no range, and the other nodes keep theirs. -/
theorem release_spec (hv : v.Valid) (n : String) :
    (v.release n).Valid ∧ (v.release n).clusterCidr = v.clusterCidr ∧
      (v.release n).allocated = Function.update v.allocated n none := by
  rw [release]
  cases hn : v.allocated n with
  | none =>
    have hself := update_eq_self n v.allocated
    rw [hn] at hself
    exact ⟨hv, rfl, hself.symm⟩
  | some c =>
  refine ⟨?_, rfl, rfl⟩
  have htakes := release_takes (a := n) hv.fits hv.nodup
  have hother : ∀ m d, Function.update v.allocated n none m = some d →
      m ≠ n ∧ v.allocated m = some d := by
    intro m d hm
    by_cases hmn : m = n
    · rw [hmn, update_self] at hm
      cases hm
    · rw [update_of_ne hmn] at hm
      exact ⟨hmn, hm⟩
  refine ⟨htakes.fits, ?_, fun m hm => ?_, fun m d hm => hv.inside m d (hother m d hm).2,
    fun m d hm x hx => ?_⟩
  · rw [htakes.owners]
    exact hv.nodup.erase n
  · rw [htakes.owners, hv.nodup.mem_erase_iff] at hm
    change Function.update v.allocated n none m ≠ none
    rw [update_of_ne hm.1]
    exact hv.listed m hm.2
  obtain ⟨hmn, hm⟩ := hother m d hm
  have hown : v.root.owner v.clusterCidr.network v.height x = some m := hv.owned m d hm x hx
  refine (htakes.owner _ x).trans ?_
  rw [hown, if_neg fun h => hmn (Option.some.inj h)]

/-! ## Sequences of operations -/

/-- A call of the allocator. -/
inductive Call
  | allocate (nodeName : String) (prefixLen : ℕ)
  | seed (nodeName : String) (subnet : Ipv4Net)
  | release (nodeName : String)

def step (v : SubnetAllocator) : Call → SubnetAllocator
  | .allocate n p => (v.allocate n p).2
  | .seed n c => (v.seed n c).2
  | .release n => v.release n

def run (v : SubnetAllocator) (calls : List Call) : SubnetAllocator := calls.foldl step v

/-- The tree has nothing that is not on the list, and no free halves. -/
structure Tight (v : SubnetAllocator) : Prop extends v.Valid where
  noted : ∀ n, ∀ x ∈ v.clusterCidr, v.owner x = some n → ∃ c, v.allocated n = some c ∧ x ∈ c
  merged : v.root.Merged

/-- Where a valid size is refused, every block of that size has an owner somewhere. -/
theorem exists_owned_of_error (hv : v.Tight) {p : ℕ} {e : String}
    (hlow : v.clusterCidr.prefixLen < p) (hhigh : p ≤ 30) (he : (v.allocate n p).1 = .error e)
    (hp : c.prefixLen = p) (hc : v.clusterCidr.contains c) : ∃ x ∈ c, v.owner x ≠ none := by
  obtain ⟨hnetwork, hend⟩ := contains_iff.1 hc
  subst hp
  rw [allocate, if_neg (by omega), if_neg (by omega)] at he
  cases hn : v.allocated n with
  | some d =>
    rw [hn] at he
    cases he
  | none =>
  rw [hn] at he
  have hfail : (v.root.allocate n (32 - c.prefixLen) v.clusterCidr.network v.height).1 = none := by
    rcases hfound : v.root.allocate n (32 - c.prefixLen) v.clusterCidr.network v.height with
      ⟨_ | b, root⟩
    · rfl
    · simp [hfound] at he
  obtain ⟨x, hx, hx', hown⟩ := exists_owned_of_allocate hv.fits hv.merged v.dvd_network
    (by rw [height]; omega) hfail c.size_dvd_network hnetwork hend
  exact ⟨x, mem_iff.2 ⟨hx, hx'⟩, hown⟩

/-- What an allocator promises: ranges are disjoint, aligned and inside that of the cluster, the
list and the tree describe the same, no two free halves stay apart, and a range of a valid size is
refused only if no block of that size is free.  The last three say what the next call comes to: a
range that is returned is noted down, and one that is new has the length that was asked for and
begins at a multiple of its size. -/
structure Orderly (v : SubnetAllocator) : Prop where
  disjoint : ∀ n m c d, n ≠ m → v.allocated n = some c → v.allocated m = some d → c.Disjoint d
  aligned : ∀ n c, v.allocated n = some c → ∃ base, c.size ∣ base ∧
    ∀ x ∈ v.clusterCidr, v.owner x = some n ↔ base ≤ x ∧ x < base + c.size
  inside : ∀ n c, v.allocated n = some c → ∀ x ∈ c, x ∈ v.clusterCidr
  agree : ∀ n, ∀ x ∈ v.clusterCidr, v.owner x = some n ↔ ∃ c, v.allocated n = some c ∧ x ∈ c
  merged : v.root.Merged
  complete : ∀ n p e, v.clusterCidr.prefixLen < p → p ≤ 30 → (v.allocate n p).1 = .error e →
    ∀ c : Ipv4Net, c.prefixLen = p → v.clusterCidr.contains c → ∃ x ∈ c, v.owner x ≠ none
  granted : ∀ n p c, (v.allocate n p).1 = .ok c → (v.allocate n p).2.allocated n = some c ∧
    (v.allocated n = none → c.prefixLen = p ∧ c.size ∣ c.addr)
  seeded : ∀ n c, (v.seed n c).1 = .ok () → (v.seed n c).2.allocated n = some c
  released : ∀ n, (v.release n).allocated = Function.update v.allocated n none

/-- The addresses that the tree gives to a node are those of its range. -/
theorem Tight.owner_iff (hv : v.Tight) (hn : v.allocated n = some c) {x : ℕ}
    (hx : x ∈ v.clusterCidr) : v.owner x = some n ↔ x ∈ c := by
  refine ⟨fun hown => ?_, hv.owned n c hn x⟩
  obtain ⟨d, hd, hxd⟩ := hv.noted n x hx hown
  rw [hn] at hd
  cases hd
  exact hxd

theorem Tight.orderly (hv : v.Tight) : v.Orderly where
  disjoint n m c d hne hn hm := hv.disjoint hn hm hne
  aligned n c hn := ⟨c.network, c.size_dvd_network, fun x hx => (hv.owner_iff hn hx).trans mem_iff⟩
  inside := hv.inside
  agree n x hx := ⟨hv.noted n x hx, fun ⟨c, hc, hxc⟩ => hv.owned n c hc x hxc⟩
  merged := hv.merged
  complete n p e hlow hhigh he c hp hc := exists_owned_of_error hv hlow hhigh he hp hc
  granted n p c hc := by
    rcases allocate_spec hv.toValid n p with ⟨e, heq⟩ | ⟨d, w, heq, -, hw, hnew⟩
    · rw [heq] at hc
      cases hc
    · rw [heq] at hc ⊢
      cases hc
      exact ⟨hw, hnew⟩
  seeded n c hc := by
    rcases seed_spec hv.toValid n c with ⟨e, heq⟩ | ⟨w, heq, -, hw⟩
    · rw [heq] at hc
      cases hc
    · rw [heq]
      exact hw
  released n := (release_spec hv.toValid n).2.2

end SubnetAllocator

end Skyr.Container
