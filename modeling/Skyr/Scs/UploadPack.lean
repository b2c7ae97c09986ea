import Skyr.Ids
import Skyr.Lib.DepthFirst

/-!
# Fetching from a repository

`upload_pack` serves `git fetch`: it reads what the client wants, which of its commits are shallow
(it has them without their parents) and how deep it wants the history; it announces which commits
become shallow and which stop being so; it asks the client for what it has; and it sends the
objects that are missing.  Two walks over the objects decide this, both depth first with a set of
objects seen, and the second one alone stops at what the client has.

Objects are named by their content, so there is one map `world` from names to objects for all
repositories; the server has some of them (`Repo`), the client has others (`Client`).  A client is
closed if every commit it has is shallow or has its parents there.  A fetch leaves it closed
(`fetch_closed`) when the two walks go the same way, which needs that what the client has does
not cut the second one short of what the first one announced.
-/

namespace Skyr.Scs

open List Skyr.DepthFirst

/-! ## Objects and repositories -/

/-- A git object, as far as it names others. -/
inductive Object where
  | commit (tree : ObjId) (parents : List ObjId)
  | tree (entries : List ObjId)
  | blob
  | tag (target : ObjId)
deriving DecidableEq

namespace Object

def isCommit : Object → Bool
  | .commit _ _ => true
  | _ => false

def isTag : Object → Bool
  | .tag _ => true
  | _ => false

def parents : Object → List ObjId
  | .commit _ ps => ps
  | _ => []

/-- What an object is made of: of a commit only its tree, not its parents. -/
def contents : Object → List ObjId
  | .commit root _ => [root]
  | .tree entries => entries
  | .blob => []
  | .tag target => [target]

/-- All objects that an object names. -/
def links (o : Object) : List ObjId := o.contents ++ o.parents

end Object

/-- The objects stored for a repository. -/
structure Repo where
  objects : List (ObjId × Object)

namespace Repo

/-- The commits, trees, blobs and tags that the repository has. -/
def ids (repo : Repo) : List ObjId := repo.objects.map Prod.fst

def readRawObject (repo : Repo) (oid : ObjId) : Option Object :=
  (repo.objects.find? fun p => p.1 = oid).map Prod.snd

/-- Whether a name is that of a commit of the repository. -/
def isCommit (repo : Repo) (oid : ObjId) : Bool :=
  ((repo.readRawObject oid).map Object.isCommit).getD false

/-- The number of objects that a stored one names. -/
def degree (repo : Repo) (oid : ObjId) : ℕ :=
  ((repo.readRawObject oid).map fun o => o.links.length).getD 0

/-- How often a walk from `wants` takes something off its stack, at most. -/
def fuel (repo : Repo) (wants : List ObjId) : ℕ := wants.length + (repo.ids.map repo.degree).sum

theorem mem_objects_of_read {repo : Repo} {oid : ObjId} {o : Object}
    (h : repo.readRawObject oid = some o) : (oid, o) ∈ repo.objects := by
  obtain ⟨p, hp, rfl⟩ := Option.map_eq_some_iff.1 h
  have hkey : p.1 = oid := by simpa using find?_some hp
  rw [← hkey]
  exact mem_of_find?_eq_some hp

end Repo

/-! ## The two walks -/

/-- A stack of wanted objects, at depth 1.  The last one is taken first. -/
def wanted (wants : List ObjId) : List (ObjId × ℕ) := (wants.map fun oid => (oid, 1)).reverse

/-- What a commit within the depth puts on the stack when the shallow boundary is computed.
Objects that cannot be read and objects that are no commits are passed over. -/
def boundaryNext (repo : Repo) (maxDepth : ℕ) (oid : ObjId) (depth : ℕ) :
    Except ObjId (List (ObjId × ℕ)) :=
  match repo.readRawObject oid with
  | some (.commit _ parents) =>
    if depth ≥ maxDepth then .ok [] else .ok (parents.map fun p => (p, depth + 1))
  | _ => .ok []

/-- What an object puts on the stack when the objects to send are collected. -/
def collectNext (repo : Repo) (haves : List ObjId) (maxDepth : Option ℕ) (oid : ObjId)
    (depth : ℕ) : Except ObjId (List (ObjId × ℕ)) :=
  if oid ∈ haves then .ok []
  else match repo.readRawObject oid with
    | none => .error oid
    | some (.commit tree parents) =>
      .ok ((tree, depth) :: if maxDepth.all (depth < ·) then parents.map fun p => (p, depth + 1)
        else [])
    | some (.tree entries) => .ok (entries.map fun e => (e, depth))
    | some (.tag target) => .ok [(target, depth)]
    | some .blob => .ok []

/-- The objects visited, without those that the client has. -/
def sent (haves : List ObjId) (visits : List (ObjId × ℕ)) : List ObjId :=
  (nodes visits).reverse.filter (· ∉ haves)

/-- The objects to send.  An object that cannot be read fails the fetch. -/
def collectObjects (repo : Repo) (wants haves : List ObjId) (maxDepth : Option ℕ) :
    ExceptT ObjId Option (List ObjId) := do
  let visits ← (search (collectNext repo haves maxDepth) (repo.fuel wants) (wanted wants) [] :
    ExceptT ObjId Option _)
  return sent haves visits

/-- What the client asks for, from the lines before the first flush. -/
structure Request where
  wants : List ObjId
  shallow : List ObjId
  deepen : Option ℕ
  multiAckDetailed : Bool
  noDone : Bool

/-- The depth at which history ends if the client gives none. -/
def u32Max : ℕ := 2 ^ 32 - 1

/-- The visited commits at which history ends now. -/
def newShallow (repo : Repo) (maxDepth : ℕ) (visits : List (ObjId × ℕ)) : List ObjId :=
  nodes (visits.reverse.filter fun q => repo.isCommit q.1 = true ∧ q.2 ≥ maxDepth)

/-- The visited commits at which history ended for the client and no longer does. -/
def newUnshallow (repo : Repo) (clientShallow : List ObjId) (maxDepth : ℕ)
    (visits : List (ObjId × ℕ)) : List ObjId :=
  nodes (visits.reverse.filter fun q =>
    repo.isCommit q.1 = true ∧ ¬ q.2 ≥ maxDepth ∧ q.1 ∈ clientShallow)

/-- The commits announced as shallow and as no longer shallow. -/
def shallowBoundary (repo : Repo) (request : Request) :
    ExceptT ObjId Option (List ObjId × List ObjId) :=
  if request.deepen.isSome ∨ request.shallow ≠ [] then do
    let maxDepth := request.deepen.getD u32Max
    let visits ← (search (boundaryNext repo maxDepth) (repo.fuel request.wants)
      (wanted request.wants) [] : ExceptT ObjId Option _)
    return (newShallow repo maxDepth visits, newUnshallow repo request.shallow maxDepth visits)
  else return ([], [])

/-! ## The negotiation -/

/-- A line of the client between two flushes. -/
inductive Line where
  | have (oid : ObjId)
  | done
  | other
deriving DecidableEq

/-- An answer of the server. -/
inductive Ack where
  | common (oid : ObjId)
  | ready (oid : ObjId)
  | nak
deriving DecidableEq

/-- The state of the negotiation. -/
structure Talk where
  haves : List ObjId
  lastCommon : Option ObjId
  sentReady : Bool
  acks : List Ack

def Talk.start : Talk := ⟨[], none, false, []⟩

/-- The lines up to the next flush; whether the client is done, and whether an object of this
batch was acknowledged. -/
def readBatch (repo : Repo) (request : Request) : List Line → Talk → Bool → Talk × Bool × Bool
  | [], talk, acked => (talk, false, acked)
  | .done :: _, talk, acked => (talk, true, acked)
  | .other :: lines, talk, acked => readBatch repo request lines talk acked
  | .have oid :: lines, talk, acked =>
    let talk := { talk with haves := oid :: talk.haves }
    if request.multiAckDetailed && (repo.readRawObject oid).isSome then
      readBatch repo request lines
        { talk with lastCommon := some oid, acks := talk.acks ++ [.common oid] } true
    else readBatch repo request lines talk acked

/-- The answer to a flush. -/
def Talk.flush (request : Request) (acked : Bool) (talk : Talk) : Talk :=
  if request.multiAckDetailed then
    let talk := match talk.lastCommon, talk.sentReady with
      | some common, false =>
        { talk with sentReady := true, acks := talk.acks ++ [.ready common] }
      | _, _ => talk
    if acked then talk else { talk with acks := talk.acks ++ [.nak] }
  else { talk with acks := talk.acks ++ [.nak] }

/-- The negotiation, until the client is done or the server has said that it is ready and the
client does not say so itself.  `none`: the server still waits. -/
def negotiate (repo : Repo) (request : Request) : List (List Line) → Talk → Option Talk
  | [], _ => none
  | batch :: batches, talk =>
    match readBatch repo request batch talk false with
    | (talk, true, _) => some talk
    | (talk, false, acked) =>
      let talk := talk.flush request acked
      if request.noDone && talk.sentReady then some talk
      else negotiate repo request batches talk

/-! ## A fetch -/

/-- What the client gets. -/
structure Response where
  shallow : List ObjId
  unshallow : List ObjId
  objects : List ObjId
deriving DecidableEq

def uploadPack (repo : Repo) (request : Request) (batches : List (List Line)) :
    ExceptT ObjId Option Response :=
  if request.wants = [] then return ⟨[], [], []⟩
  else do
    let (newShallow, newUnshallow) ← shallowBoundary repo request
    let talk ← (negotiate repo request batches .start).map Except.ok
    let objects ← collectObjects repo request.wants talk.haves request.deepen
    return ⟨newShallow, newUnshallow, objects⟩

/-- A client: its objects, and the commits that it has without their parents. -/
structure Client where
  objects : Finset ObjId
  shallow : Finset ObjId
deriving DecidableEq

/-- The client after a fetch. -/
def Client.receive (client : Client) (response : Response) : Client where
  objects := client.objects ∪ response.objects.toFinset
  shallow := (client.shallow ∪ response.shallow.toFinset) \ response.unshallow.toFinset

/-! ## What a fetch should do -/

/-- One object names another: as a part of it, as a parent, or either, according to `part`. -/
def Names (part : Object → List ObjId) (world : ObjId → Option Object) (x y : ObjId) : Prop :=
  ∃ o, world x = some o ∧ y ∈ part o

/-- `y` is `x` or a part of it, directly or indirectly; for a commit this is its whole tree. -/
def Within (world : ObjId → Option Object) : ObjId → ObjId → Prop :=
  Relation.ReflTransGen (Names Object.contents world)

/-- `y` can be reached from `x` through parts and parents. -/
def Reaches (world : ObjId → Option Object) : ObjId → ObjId → Prop :=
  Relation.ReflTransGen (Names Object.links world)

/-- `y` is reached from `x` by `k` steps to a parent. -/
inductive Ancestor (world : ObjId → Option Object) (x : ObjId) : ℕ → ObjId → Prop
  | refl : Ancestor world x 0 x
  | parent {k : ℕ} {y z : ObjId} (h : Ancestor world x k y) (hz : Names Object.parents world y z) :
      Ancestor world x (k + 1) z

/-- The parents of a commit, wherever it is stored. -/
def parentsIn (world : ObjId → Option Object) (x : ObjId) : List ObjId :=
  ((world x).map Object.parents).getD []

/-- Every commit that the client has is shallow, or its parents are there. -/
def Client.Closed (world : ObjId → Option Object) (client : Client) : Prop :=
  ∀ x ∈ client.objects, (∀ p ∈ parentsIn world x, p ∈ client.objects) ∨ x ∈ client.shallow

instance (world : ObjId → Option Object) (client : Client) : Decidable (client.Closed world) :=
  inferInstanceAs (Decidable (∀ x ∈ client.objects, _))

/-- The objects named in the client's `have` lines. -/
def offered (batches : List (List Line)) : List ObjId :=
  batches.flatten.filterMap fun
    | .have oid => some oid
    | _ => none

/-- The client tells the truth: it names all its shallow commits, and what it says it has it has
with all its parts. -/
structure Client.Truthful (world : ObjId → Option Object) (client : Client) (request : Request)
    (batches : List (List Line)) : Prop where
  shallow : request.shallow.toFinset = client.shallow
  haves : ∀ x ∈ offered batches, ∀ y, Within world x y → y ∈ client.objects

/-- The repository is sound: it has what its objects name; parents are commits, and the parts of
commits and trees are trees and blobs. -/
structure Repo.Sound (world : ObjId → Option Object) (repo : Repo) : Prop where
  stored : ∀ x o, repo.readRawObject x = some o → world x = some o
  parents : ∀ x o, repo.readRawObject x = some o → ∀ p ∈ o.parents, repo.isCommit p = true
  contents : ∀ x o, repo.readRawObject x = some o → ∀ y ∈ o.contents,
    ∃ o', repo.readRawObject y = some o' ∧
      (o.isTag = false → o'.isCommit = false ∧ o'.isTag = false)

/-- Some wanted object reaches `x`. -/
def Wanted (world : ObjId → Option Object) (request : Request) (x : ObjId) : Prop :=
  ∃ w ∈ request.wants, Reaches world w x

/-- **When the two walks agree**: either history is not limited and no shallow commit of the
client can be reached from what it wants, or nothing that it has can be; and with a depth limit
only commits are wanted. -/
structure Agreed (world : ObjId → Option Object) (repo : Repo) (request : Request)
    (batches : List (List Line)) : Prop where
  uncut : (request.deepen = none ∧ ∀ s ∈ request.shallow, ¬ Wanted world request s) ∨
    ∀ x ∈ offered batches, ¬ Wanted world request x
  commits : request.deepen.isSome → ∀ w ∈ request.wants, repo.isCommit w = true

/-- No commit can be reached from what is wanted in two numbers of steps below `n`. -/
def OneLength (world : ObjId → Option Object) (request : Request) (n : ℕ) : Prop :=
  ∀ w ∈ request.wants, ∀ w' ∈ request.wants, ∀ k < n, ∀ k' < n, ∀ y,
    Ancestor world w k y → Ancestor world w' k' y → k = k'

/-! ## Each step of a walk -/

section Steps

variable {repo : Repo} {x : ObjId} {o : Object}

theorem read_of_isCommit (h : repo.isCommit x = true) :
    ∃ o, repo.readRawObject x = some o ∧ o.isCommit = true := by
  rw [Repo.isCommit] at h
  cases ho : repo.readRawObject x with
  | none =>
    rw [ho] at h
    cases h
  | some o =>
  rw [ho] at h
  exact ⟨o, rfl, h⟩

theorem parents_of_not_commit (h : o.isCommit = false) : o.parents = [] := by
  cases o with
  | commit => cases h
  | tree | blob | tag => rfl

theorem boundaryNext_of_missing (h : repo.readRawObject x = none) (n d : ℕ) :
    boundaryNext repo n x d = .ok [] := by
  rw [boundaryNext, h]

section

variable (h : repo.readRawObject x = some o)

include h

theorem isCommit_of_read : repo.isCommit x = o.isCommit := by
  rw [Repo.isCommit, h]
  rfl

theorem boundaryNext_of_read (n d : ℕ) :
    boundaryNext repo n x d = .ok (if d ≥ n then [] else o.parents.map fun p => (p, d + 1)) := by
  rw [boundaryNext, h]
  cases o with
  | commit root ps => exact (apply_ite Except.ok _ _ _).symm
  | tree | blob | tag => rw [parents_of_not_commit rfl, map_nil, ite_self]

theorem collectNext_of_read {haves : List ObjId}
    (hx : x ∉ haves) (max : Option ℕ) (d : ℕ) : collectNext repo haves max x d =
      .ok (o.contents.map (fun y => (y, d)) ++
        if max.all (d < ·) then o.parents.map fun p => (p, d + 1) else []) := by
  rw [collectNext, if_neg hx, h]
  cases o with
  | commit root ps => rfl
  | tree entries =>
    rw [parents_of_not_commit rfl, map_nil, ite_self, append_nil]
    rfl
  | blob | tag =>
  rw [parents_of_not_commit rfl, map_nil, ite_self]
  rfl

theorem mem_ids : x ∈ repo.ids :=
  mem_map_of_mem (Repo.mem_objects_of_read h)

theorem degree_of_read : repo.degree x = o.contents.length + o.parents.length := by
  rw [Repo.degree, h]
  exact length_append

end

theorem boundaryNext_length (n : ℕ) (x : ObjId) (d : ℕ) (found : List (ObjId × ℕ))
    (h : boundaryNext repo n x d = .ok found) :
    found = [] ∨ x ∈ repo.ids ∧ found.length ≤ repo.degree x := by
  cases ho : repo.readRawObject x with
  | none =>
    rw [boundaryNext_of_missing ho] at h
    cases h
    exact .inl rfl
  | some o =>
  rw [boundaryNext_of_read ho] at h
  cases h
  split
  · exact .inl rfl
  · rw [degree_of_read ho, length_map]
    exact .inr ⟨mem_ids ho, Nat.le_add_left _ _⟩

theorem collectNext_length (haves : List ObjId) (max : Option ℕ) (x : ObjId) (d : ℕ)
    (found : List (ObjId × ℕ)) (h : collectNext repo haves max x d = .ok found) :
    found = [] ∨ x ∈ repo.ids ∧ found.length ≤ repo.degree x := by
  by_cases hx : x ∈ haves
  · rw [collectNext, if_pos hx] at h
    cases h
    exact .inl rfl
  cases ho : repo.readRawObject x with
  | none =>
    rw [collectNext, if_neg hx, ho] at h
    cases h
  | some o =>
  rw [collectNext_of_read ho hx] at h
  cases h
  refine .inr ⟨mem_ids ho, ?_⟩
  rw [degree_of_read ho, length_append, length_map]
  split
  · rw [length_map]
  · exact Nat.add_le_add_left (Nat.zero_le _) _

end Steps

/-! ## The walks end -/

section Ends

variable {repo : Repo}

theorem fuel_enough (repo : Repo) (wants : List ObjId) :
    (wanted wants).length + pending repo.ids repo.degree ([] : List (ObjId × ℕ)) ≤
      repo.fuel wants := by
  have hall : repo.ids.filter (· ∉ nodes ([] : List (ObjId × ℕ))) = repo.ids :=
    filter_eq_self.2 fun _ _ => rfl
  rw [wanted, length_reverse, length_map, Repo.fuel, pending, hall]

variable {wants : List ObjId}

theorem mem_wanted {q : ObjId × ℕ} : q ∈ wanted wants ↔ q.1 ∈ wants ∧ q.2 = 1 := by
  rw [wanted, mem_reverse, mem_map]
  constructor
  · rintro ⟨w, hw, rfl⟩
    exact ⟨hw, rfl⟩
  · rintro ⟨hw, hone⟩
    exact ⟨q.1, hw, Prod.ext rfl hone.symm⟩

theorem mem_nodes_wanted {w : ObjId} (h : w ∈ wants) : w ∈ nodes (wanted wants) :=
  mem_map.2 ⟨(w, 1), mem_wanted.2 ⟨h, rfl⟩, rfl⟩

/-- The first walk ends. -/
theorem boundary_ends (repo : Repo) (n : ℕ) (wants : List ObjId) :
    ∃ visits, search (boundaryNext repo n) (repo.fuel wants) (wanted wants) [] =
        some (.ok visits) ∧ Visits (boundaryNext repo n) (wanted wants) [] visits := by
  have hnext : ∀ x d, True → ∃ found, boundaryNext repo n x d = .ok found ∧
      ∀ q ∈ found, True := by
    intro x d _
    cases ho : repo.readRawObject x with
    | none => exact ⟨[], boundaryNext_of_missing ho _ _, fun _ _ => trivial⟩
    | some o => exact ⟨_, boundaryNext_of_read ho _ _, fun _ _ => trivial⟩
  obtain ⟨visits, h⟩ := search_ok (P := fun _ _ => True) hnext (fun _ _ => trivial)
    (search_ne_none (boundaryNext_length n) (fuel_enough repo wants))
  exact ⟨visits, h, visits_of_search h⟩

variable {world : ObjId → Option Object}

theorem Repo.Sound.read_links (hrepo : repo.Sound world) {x y : ObjId} {o : Object}
    (h : repo.readRawObject x = some o) (hy : y ∈ o.links) :
    (repo.readRawObject y).isSome = true := by
  rcases mem_append.1 hy with hy | hy
  · obtain ⟨o', ho', -⟩ := hrepo.contents x o h y hy
    rw [ho']
    rfl
  obtain ⟨o', ho', -⟩ := read_of_isCommit (hrepo.parents x o h y hy)
  rw [ho']
  rfl

/-- What a visited object puts on the stack is named by it. -/
theorem links_of_collectNext {haves : List ObjId} {max : Option ℕ} {x : ObjId} {d : ℕ}
    {found : List (ObjId × ℕ)} {o : Object} (ho : repo.readRawObject x = some o)
    (h : collectNext repo haves max x d = .ok found) {q : ObjId × ℕ} (hq : q ∈ found) :
    q.1 ∈ o.links := by
  by_cases hx : x ∈ haves
  · rw [collectNext, if_pos hx] at h
    cases h
    cases hq
  rw [collectNext_of_read ho hx] at h
  cases h
  rcases mem_append.1 hq with hq | hq
  · obtain ⟨y, hy, rfl⟩ := mem_map.1 hq
    exact mem_append_left _ hy
  split at hq
  · obtain ⟨y, hy, rfl⟩ := mem_map.1 hq
    exact mem_append_right _ hy
  · cases hq

/-- The second walk ends, and in a sound repository it does not fail. -/
theorem collect_ends (hrepo : repo.Sound world) (haves : List ObjId) (max : Option ℕ)
    (hwants : ∀ w ∈ wants, (repo.readRawObject w).isSome = true) :
    ∃ visits, search (collectNext repo haves max) (repo.fuel wants) (wanted wants) [] =
        some (.ok visits) ∧ Visits (collectNext repo haves max) (wanted wants) [] visits := by
  have hnext : ∀ x d, (repo.readRawObject x).isSome = true →
      ∃ found, collectNext repo haves max x d = .ok found ∧
        ∀ q ∈ found, (repo.readRawObject q.1).isSome = true := by
    intro x d hx
    obtain ⟨o, ho⟩ := Option.isSome_iff_exists.1 hx
    by_cases hmem : x ∈ haves
    · exact ⟨[], if_pos hmem, nofun⟩
    · have hnext := collectNext_of_read ho hmem max d
      exact ⟨_, hnext, fun q hq => hrepo.read_links ho (links_of_collectNext ho hnext hq)⟩
  obtain ⟨visits, h⟩ := search_ok (P := fun x _ => (repo.readRawObject x).isSome = true) hnext
    (fun q hq => hwants _ (mem_wanted.1 hq).1)
    (search_ne_none (collectNext_length haves max) (fuel_enough repo wants))
  exact ⟨visits, h, visits_of_search h⟩

end Ends

/-! ## The second walk -/

section Collect

variable {world : ObjId → Option Object} {repo : Repo} {request : Request} {haves : List ObjId}
  {visits : List (ObjId × ℕ)}

theorem Wanted.link {x y : ObjId} (h : Wanted world request x) {o : Object}
    (ho : world x = some o) (hy : y ∈ o.links) : Wanted world request y := by
  obtain ⟨w, hw, hreach⟩ := h
  exact ⟨w, hw, hreach.tail ⟨o, ho, hy⟩⟩

theorem wanted_self {w : ObjId} (h : w ∈ request.wants) : Wanted world request w := ⟨w, h, .refl⟩

theorem exists_visit {x : ObjId} (h : x ∈ nodes visits) : ∃ d, (x, d) ∈ visits := by
  obtain ⟨⟨y, d⟩, hq, rfl⟩ := mem_map.1 h
  exact ⟨d, hq⟩

section Sound

variable (hrepo : repo.Sound world)
  (hwants : ∀ w ∈ request.wants, (repo.readRawObject w).isSome = true)
  (h : Visits (collectNext repo haves request.deepen) (wanted request.wants) [] visits)

include hrepo hwants h

/-- The objects visited can be read, and what is wanted reaches them. -/
theorem collect_wanted :
    ∀ q ∈ visits, Wanted world request q.1 ∧ (repo.readRawObject q.1).isSome = true := by
  refine h.invariant
    (P := fun x _ => Wanted world request x ∧ (repo.readRawObject x).isSome = true)
    (fun x d found hx hnext q hq => ?_) (fun q hq => ?_) nofun
  · obtain ⟨o, ho⟩ := Option.isSome_iff_exists.1 hx.2
    have hlink := links_of_collectNext ho hnext hq
    exact ⟨hx.1.link (hrepo.stored x o ho) hlink, hrepo.read_links ho hlink⟩
  · have hw := (mem_wanted.1 hq).1
    exact ⟨wanted_self hw, hwants _ hw⟩

/-- **What is visited and sent comes with its parts**, and with its parents within the depth. -/
theorem collect_closed {q : ObjId × ℕ} (hq : q ∈ visits) (hhave : q.1 ∉ haves) :
    ∃ o, repo.readRawObject q.1 = some o ∧ (∀ y ∈ o.contents, y ∈ nodes visits) ∧
      (request.deepen.all (q.2 < ·) = true → ∀ p ∈ o.parents, p ∈ nodes visits) := by
  obtain ⟨o, ho⟩ := Option.isSome_iff_exists.1 (collect_wanted hrepo hwants h q hq).2
  obtain ⟨found, hfound, hmem⟩ := h.closed nofun q hq
  rw [collectNext_of_read ho hhave] at hfound
  cases hfound
  refine ⟨o, ho, fun y hy => hmem y ?_, fun hdepth p hp => hmem p ?_⟩
  · exact mem_map.2 ⟨(y, q.2), mem_append_left _ (mem_map_of_mem hy), rfl⟩
  rw [if_pos hdepth]
  exact mem_map.2
    ⟨(p, q.2 + 1), mem_append_right _ (mem_map_of_mem (f := fun p => (p, q.2 + 1)) hp), rfl⟩

/-- Without a depth limit and with nothing to stop at, everything that can be reached is
visited. -/
theorem collect_all (hdeepen : request.deepen = none)
    (hfree : ∀ x ∈ haves, ¬ Wanted world request x) {x : ObjId}
    (hx : Wanted world request x) : x ∈ nodes visits := by
  obtain ⟨w, hw, hreach⟩ := hx
  induction hreach with
  | refl => exact h.visited (mem_nodes_wanted hw)
  | @tail y z hy hz ih =>
  obtain ⟨d, hd⟩ := exists_visit ih
  obtain ⟨o, ho, hcontents, hparents⟩ :=
    collect_closed hrepo hwants h hd fun hmem => hfree y hmem ⟨w, hw, hy⟩
  obtain ⟨o', ho', hlink⟩ := hz
  rw [hrepo.stored y o ho] at ho'
  cases ho'
  rcases mem_append.1 hlink with hz | hz
  · exact hcontents z hz
  · exact hparents (by rw [hdeepen]; rfl) z hz

/-! ## The two walks together -/

end Sound

variable {n : ℕ}

/-- **With a depth limit and nothing to stop at, the second walk visits the commits as the first
one does**: the same ones, at the same depths. -/
theorem boundary_of_collect (hrepo : repo.Sound world) (hdeepen : request.deepen = some n)
    (hwants : ∀ w ∈ request.wants, repo.isCommit w = true)
    (hfree : ∀ x ∈ haves, ¬ Wanted world request x)
    (h : Visits (collectNext repo haves request.deepen) (wanted request.wants) [] visits) :
    Visits (boundaryNext repo n) (wanted request.wants) []
      (visits.filter fun q => repo.isCommit q.1) := by
  have hcommit : ∀ x, repo.isCommit x = true →
      ∃ o, repo.readRawObject x = some o ∧ o.isTag = false := by
    intro x hx
    obtain ⟨o, ho, hc⟩ := read_of_isCommit hx
    cases o with
    | commit root ps => exact ⟨_, ho, rfl⟩
    | tree | blob | tag => cases hc
  have hfilter := h.filter (boundaryNext repo n) repo.isCommit
    (fun x => Wanted world request x ∧ ∃ o, repo.readRawObject x = some o ∧ o.isTag = false)
    (fun x d found hR hfound => ?_) fun q hq =>
      ⟨wanted_self (mem_wanted.1 hq).1, hcommit _ (hwants _ (mem_wanted.1 hq).1)⟩
  · rw [filter_eq_self.2 fun q hq => hwants _ (mem_wanted.1 hq).1] at hfilter
    exact hfilter
  obtain ⟨hx, o, ho, htag⟩ := hR
  have hnext := collectNext_of_read ho (fun hmem => hfree x hmem hx) request.deepen d
  have hcontents : (o.contents.map fun y => (y, d)).filter (fun q => repo.isCommit q.1) = [] := by
    refine filter_eq_nil_iff.2 fun q hq => ?_
    obtain ⟨y, hy, rfl⟩ := mem_map.1 hq
    obtain ⟨o', ho', hkind⟩ := hrepo.contents x o ho y hy
    rw [isCommit_of_read ho', (hkind htag).1]
    exact Bool.false_ne_true
  refine ⟨fun q hq => ?_, ?_⟩
  · have hlink := links_of_collectNext ho hfound hq
    refine ⟨hx.link (hrepo.stored x o ho) hlink, ?_⟩
    rcases mem_append.1 hlink with hq | hq
    · obtain ⟨o', ho', hkind⟩ := hrepo.contents x o ho _ hq
      exact ⟨o', ho', (hkind htag).2⟩
    · exact hcommit _ (hrepo.parents x o ho _ hq)
  have hparents : ((if request.deepen.all (d < ·) = true then
      o.parents.map fun p => (p, d + 1) else []) : List (ObjId × ℕ)).filter
        (fun q => repo.isCommit q.1) =
      if d ≥ n then [] else o.parents.map fun p => (p, d + 1) := by
    rw [hdeepen, Option.all_some]
    by_cases hd : d < n
    · rw [if_neg (Nat.not_le_of_lt hd), if_pos (decide_eq_true hd)]
      refine filter_eq_self.2 fun q hq => ?_
      obtain ⟨p, hp, rfl⟩ := mem_map.1 hq
      exact hrepo.parents x o ho p hp
    · rw [if_pos (Nat.le_of_not_lt hd), if_neg fun h => hd (of_decide_eq_true h)]
      rfl
  rw [hnext] at hfound
  cases hfound
  rw [filter_append, hcontents, nil_append, hparents, isCommit_of_read ho]
  split
  · exact boundaryNext_of_read ho n d
  · next hc =>
    rw [parents_of_not_commit (Bool.eq_false_iff.2 hc), map_nil, ite_self]

/-- With a depth limit the depth of a visited commit is the length of a path to it, and one. -/
theorem boundary_depth (hrepo : repo.Sound world) (hn : 0 < n)
    (h : Visits (boundaryNext repo n) (wanted request.wants) [] visits) :
    ∀ q ∈ visits, ∃ w ∈ request.wants, ∃ k < n, q.2 = k + 1 ∧ Ancestor world w k q.1 := by
  refine h.invariant (P := fun x d => ∃ w ∈ request.wants, ∃ k < n, d = k + 1 ∧ Ancestor world w k x)
    (fun x d found hx hfound q hq => ?_) (fun q hq => ?_) nofun
  · obtain ⟨w, hw, k, -, rfl, hpath⟩ := hx
    cases ho : repo.readRawObject x with
    | none =>
      rw [boundaryNext_of_missing ho] at hfound
      cases hfound
      cases hq
    | some o =>
    rw [boundaryNext_of_read ho] at hfound
    cases hfound
    split at hq
    · cases hq
    next hk =>
    obtain ⟨p, hp, rfl⟩ := mem_map.1 hq
    exact ⟨w, hw, k + 1, Nat.lt_of_not_le hk, rfl, hpath.parent ⟨o, hrepo.stored x o ho, hp⟩⟩
  · obtain ⟨hw, hone⟩ := mem_wanted.1 hq
    exact ⟨q.1, hw, 0, hn, hone, .refl⟩

/-- **Where all paths have one length, the limit cuts nothing nearer than itself.** -/
theorem collect_ancestors (hrepo : repo.Sound world) (hdeepen : request.deepen = some n)
    (hwants : ∀ w ∈ request.wants, repo.isCommit w = true)
    (hfree : ∀ x ∈ haves, ¬ Wanted world request x) (hone : OneLength world request n)
    (h : Visits (collectNext repo haves request.deepen) (wanted request.wants) [] visits)
    {w : ObjId} (hw : w ∈ request.wants) {k : ℕ} (hk : k < n) {y : ObjId}
    (hpath : Ancestor world w k y) : (y, k + 1) ∈ visits := by
  have hread : ∀ w ∈ request.wants, (repo.readRawObject w).isSome = true := by
    intro w hw
    obtain ⟨o, ho, -⟩ := read_of_isCommit (hwants w hw)
    rw [ho]
    rfl
  have hboundary := boundary_of_collect hrepo hdeepen hwants hfree h
  have hdepth := boundary_depth hrepo (Nat.zero_lt_of_lt hk) hboundary
  -- A commit that is visited is visited at the depth of any path to it.
  have hvisit : ∀ {k y}, k < n → Ancestor world w k y → repo.isCommit y = true →
      y ∈ nodes visits → (y, k + 1) ∈ visits := by
    intro k y hk hpath hcommit hy
    obtain ⟨d, hd⟩ := exists_visit hy
    obtain ⟨w', hw', k', hk', hdk, hpath'⟩ := hdepth (y, d) (mem_filter.2 ⟨hd, hcommit⟩)
    rw [hone w hw w' hw' k hk k' hk' y hpath hpath', ← hdk]
    exact hd
  induction hpath with
  | refl => exact hvisit hk .refl (hwants w hw) (h.visited (mem_nodes_wanted hw))
  | @parent k x y hx hy ih =>
  have hmem := ih (Nat.lt_of_succ_lt hk)
  obtain ⟨o, ho, -, hparents⟩ := collect_closed hrepo hread h hmem fun hhave =>
    hfree x hhave (collect_wanted hrepo hread h _ hmem).1
  obtain ⟨o', ho', hy'⟩ := hy
  rw [hrepo.stored x o ho] at ho'
  cases ho'
  refine hvisit hk (hx.parent ⟨o, hrepo.stored x o ho, hy'⟩) (hrepo.parents x o ho y hy')
    (hparents ?_ y hy')
  rw [hdeepen, Option.all_some]
  exact decide_eq_true hk

end Collect

/-! ## What the negotiation tells the server -/

section Negotiation

variable {repo : Repo} {request : Request}

theorem readBatch_haves {lines : List Line} {talk : Talk} {acked : Bool} {x : ObjId}
    (h : x ∈ (readBatch repo request lines talk acked).1.haves) :
    x ∈ talk.haves ∨ Line.have x ∈ lines := by
  induction lines generalizing talk acked with
  | nil => exact .inl h
  | cons line lines ih =>
  cases line with
  | done => exact .inl h
  | other => exact (ih h).imp id (mem_cons_of_mem _)
  | «have» y =>
  have hsplit : x ∈ y :: talk.haves ∨ Line.have x ∈ lines := by
    rw [readBatch] at h
    split at h <;> exact ih h
  rcases hsplit with hx | hx
  · rcases mem_cons.1 hx with rfl | hx
    · exact .inr mem_cons_self
    · exact .inl hx
  · exact .inr (mem_cons_of_mem _ hx)

theorem flush_haves (acked : Bool) (talk : Talk) :
    (talk.flush request acked).haves = talk.haves := by
  rw [Talk.flush]
  repeat' split
  all_goals rfl

/-- The server stops only at objects that the client said it has. -/
theorem negotiate_haves {batches : List (List Line)} {talk talk' : Talk} {x : ObjId}
    (h : negotiate repo request batches talk = some talk') (hx : x ∈ talk'.haves) :
    x ∈ talk.haves ∨ x ∈ offered batches := by
  induction batches generalizing talk with
  | nil => cases h
  | cons batch batches ih =>
  have hbatch : ∀ y, y ∈ (readBatch repo request batch talk false).1.haves →
      y ∈ talk.haves ∨ y ∈ offered (batch :: batches) := by
    intro y hy
    refine (readBatch_haves hy).imp id fun hmem => ?_
    exact mem_filterMap.2 ⟨.have y, mem_append_left _ hmem, rfl⟩
  rw [negotiate] at h
  generalize readBatch repo request batch talk false = out at h hbatch
  obtain ⟨next, done, acked⟩ := out
  cases done with
  | true =>
    cases h
    exact hbatch x hx
  | false =>
  dsimp only at h
  split at h
  · cases h
    rw [flush_haves] at hx
    exact hbatch x hx
  rcases ih h with hx | hx
  · rw [flush_haves] at hx
    exact hbatch x hx
  · obtain ⟨line, hline, hsome⟩ := mem_filterMap.1 hx
    exact .inr (mem_filterMap.2 ⟨line, mem_append_right _ hline, hsome⟩)

end Negotiation

/-! ## The fetch as a whole

The two walks and what is announced are brought together, and compared with what the client has. -/

section Fetch

variable {world : ObjId → Option Object} {repo : Repo} {request : Request}

/-- What is announced: nothing, or what the first walk finds. -/
structure Announces (repo : Repo) (request : Request) (shallow unshallow : List ObjId)
    (visits : List (ObjId × ℕ)) : Prop where
  walk : Visits (boundaryNext repo (request.deepen.getD u32Max)) (wanted request.wants) [] visits
  shallow : request.deepen.isSome → ∀ x d, (x, d) ∈ visits → repo.isCommit x = true →
    request.deepen.getD u32Max ≤ d → x ∈ shallow
  unshallow : ∀ x ∈ unshallow, x ∈ request.shallow ∧
    ∃ d < request.deepen.getD u32Max, (x, d) ∈ visits

theorem shallowBoundary_spec (repo : Repo) (request : Request) :
    ∃ shallow unshallow visits,
      (shallowBoundary repo request).run = some (.ok (shallow, unshallow)) ∧
        Announces repo request shallow unshallow visits := by
  obtain ⟨visits, hsearch, hvisits⟩ := boundary_ends repo (request.deepen.getD u32Max) request.wants
  by_cases hcond : request.deepen.isSome = true ∨ request.shallow ≠ []
  · refine ⟨newShallow repo (request.deepen.getD u32Max) visits,
      newUnshallow repo request.shallow (request.deepen.getD u32Max) visits, visits, ?_,
      hvisits, fun _ x d hd hcommit hdepth => ?_, fun x hx => ?_⟩
    · rw [shallowBoundary, if_pos hcond]
      change (search _ _ _ _ >>= _ : Option _) = _
      rw [hsearch]
      rfl
    · exact mem_map.2 ⟨(x, d), mem_filter.2
        ⟨mem_reverse.2 hd, decide_eq_true ⟨hcommit, hdepth⟩⟩, rfl⟩
    obtain ⟨q, hq, rfl⟩ := mem_map.1 hx
    obtain ⟨hq, hkind⟩ := mem_filter.1 hq
    obtain ⟨-, hdepth, hshallow⟩ := of_decide_eq_true hkind
    exact ⟨hshallow, q.2, Nat.lt_of_not_le hdepth, mem_reverse.1 hq⟩
  refine ⟨[], [], visits, ?_, hvisits, fun hsome => absurd (.inl hsome) hcond, nofun⟩
  rw [shallowBoundary, if_neg hcond]
  rfl

/-- The objects that the first walk visits are wanted, directly or indirectly. -/
theorem Announces.wanted {shallow unshallow : List ObjId} {visits : List (ObjId × ℕ)}
    (hrepo : repo.Sound world) (h : Announces repo request shallow unshallow visits) :
    ∀ q ∈ visits, Wanted world request q.1 := by
  refine h.walk.invariant (P := fun x _ => Wanted world request x)
    (fun x d found hx hfound q hq => ?_) (fun q hq => wanted_self (mem_wanted.1 hq).1) nofun
  cases ho : repo.readRawObject x with
  | none =>
    rw [boundaryNext_of_missing ho] at hfound
    cases hfound
    cases hq
  | some o =>
  rw [boundaryNext_of_read ho] at hfound
  cases hfound
  split at hq
  · cases hq
  · obtain ⟨p, hp, rfl⟩ := mem_map.1 hq
    exact hx.link (hrepo.stored x o ho) (mem_append_right _ hp)

/-- What a fetch did: the visits of both walks, what was announced and what was sent. -/
structure Fetched (repo : Repo) (request : Request) (haves : List ObjId) (response : Response)
    (first second : List (ObjId × ℕ)) : Prop where
  announces : Announces repo request response.shallow response.unshallow first
  walk : Visits (collectNext repo haves request.deepen) (wanted request.wants) [] second
  objects : ∀ x, x ∈ response.objects ↔ x ∈ nodes second ∧ x ∉ haves

/-- **A fetch from a sound repository ends and does not fail.** -/
theorem uploadPack_spec (hrepo : repo.Sound world)
    (hwants : ∀ w ∈ request.wants, (repo.readRawObject w).isSome = true)
    {batches : List (List Line)} {talk : Talk}
    (htalk : negotiate repo request batches .start = some talk) (hne : request.wants ≠ []) :
    ∃ response first second, (uploadPack repo request batches).run = some (.ok response) ∧
      Fetched repo request talk.haves response first second := by
  obtain ⟨shallow, unshallow, first, hboundary, hannounces⟩ := shallowBoundary_spec repo request
  obtain ⟨second, hsearch, hwalk⟩ := collect_ends hrepo talk.haves request.deepen hwants
  have hcollect : (collectObjects repo request.wants talk.haves request.deepen).run =
      some (.ok (sent talk.haves second)) := by
    change (search _ _ _ _ >>= _ : Option _) = _
    rw [hsearch]
    rfl
  refine ⟨⟨shallow, unshallow, sent talk.haves second⟩, first, second, ?_, hannounces, hwalk,
    fun x => ?_⟩
  · rw [uploadPack, if_neg hne, ExceptT.run_bind, hboundary]
    rw [htalk]
    change ((collectObjects repo request.wants talk.haves request.deepen).run >>= _) = _
    rw [hcollect]
    rfl
  · rw [sent, mem_filter, mem_reverse, decide_eq_true_iff]

namespace Fetched

variable {haves : List ObjId} {response : Response} {first second : List (ObjId × ℕ)}
  {client : Client}

/-- What the second walk visits is there afterwards. -/
theorem present (h : Fetched repo request haves response first second)
    (hhaves : ∀ x ∈ haves, ∀ y, Within world x y → y ∈ client.objects) {x : ObjId}
    (hx : x ∈ nodes second) : x ∈ (client.receive response).objects := by
  by_cases hhave : x ∈ haves
  · exact Finset.mem_union_left _ (hhaves x hhave x .refl)
  · exact Finset.mem_union_right _ (mem_toFinset.2 ((h.objects x).2 ⟨hx, hhave⟩))

/-- A commit sent at the depth limit is announced as shallow, and not as the opposite. -/
theorem shallow_at_limit (hrepo : repo.Sound world) {n : ℕ} (hdeepen : request.deepen = some n)
    (hcommits : ∀ w ∈ request.wants, repo.isCommit w = true)
    (hfree : ∀ x ∈ haves, ¬ Wanted world request x)
    (h : Fetched repo request haves response first second) {x : ObjId} {d : ℕ}
    (hd : (x, d) ∈ second) (hcommit : repo.isCommit x = true) (hle : n ≤ d) :
    x ∈ (client.receive response).shallow := by
  have hfirst := h.announces.walk
  rw [hdeepen, Option.getD_some] at hfirst
  have hsame := hfirst.unique (boundary_of_collect hrepo hdeepen hcommits hfree h.walk)
  have hmem : (x, d) ∈ first := by
    rw [hsame]
    exact mem_filter.2 ⟨hd, hcommit⟩
  refine Finset.mem_sdiff.2 ⟨Finset.mem_union_right _ (mem_toFinset.2 ?_), fun hun => ?_⟩
  · refine h.announces.shallow (by rw [hdeepen]; rfl) x d hmem hcommit ?_
    rw [hdeepen]
    exact hle
  obtain ⟨-, e, hlt, he⟩ := h.announces.unshallow x (mem_toFinset.1 hun)
  rw [hdeepen, Option.getD_some] at hlt
  have hde : d = e := congrArg Prod.snd (inj_on_of_nodup_map (hfirst.nodup nodup_nil) hmem he rfl)
  exact absurd hle (Nat.not_le_of_lt (hde ▸ hlt))

section Sound

variable (hrepo : repo.Sound world)
  (hwants : ∀ w ∈ request.wants, (repo.readRawObject w).isSome = true)
  (h : Fetched repo request haves response first second)
  (hhaves : ∀ x ∈ haves, ∀ y, Within world x y → y ∈ client.objects)

include hrepo hwants h hhaves

/-- And so are all its parts. -/
theorem present_within {x y : ObjId}
    (hx : x ∈ nodes second) (hy : Within world x y) : y ∈ (client.receive response).objects := by
  induction hy using Relation.ReflTransGen.head_induction_on with
  | refl => exact h.present hhaves hx
  | @head x z hstep hrest ih =>
  by_cases hhave : x ∈ haves
  · exact Finset.mem_union_left _ (hhaves x hhave y (.head hstep hrest))
  obtain ⟨d, hd⟩ := exists_visit hx
  obtain ⟨o, ho, hcontents, -⟩ := collect_closed hrepo hwants h.walk hd hhave
  obtain ⟨o', ho', hz⟩ := hstep
  rw [hrepo.stored x o ho] at ho'
  cases ho'
  exact ih (hcontents z hz)

/-- A visited commit within the depth has its parents there afterwards. -/
theorem parents_present {x : ObjId} {d : ℕ}
    (hd : (x, d) ∈ second) (hhave : x ∉ haves) (hdepth : request.deepen.all (d < ·) = true) :
    ∀ p ∈ parentsIn world x, p ∈ (client.receive response).objects := by
  obtain ⟨o, ho, -, hparents⟩ := collect_closed hrepo hwants h.walk hd hhave
  intro p hp
  rw [parentsIn, hrepo.stored x o ho] at hp
  exact h.present hhaves (hparents hdepth p hp)

section

variable (hcommits : request.deepen.isSome → ∀ w ∈ request.wants, repo.isCommit w = true)

include hcommits

/-- A commit that stops being shallow has its parents there afterwards, if nothing that the
client has cuts the second walk. -/
theorem unshallow_present
    (hfree : ∀ x ∈ haves, ¬ Wanted world request x) {x : ObjId}
    (hx : x ∈ response.unshallow) :
    ∀ p ∈ parentsIn world x, p ∈ (client.receive response).objects := by
  obtain ⟨-, d, hlt, hd⟩ := h.announces.unshallow x hx
  have hwanted := h.announces.wanted hrepo (x, d) hd
  have hhave : x ∉ haves := fun hhave => hfree x hhave hwanted
  cases hdeepen : request.deepen with
  | none =>
    obtain ⟨d', hd'⟩ := exists_visit (collect_all hrepo hwants h.walk hdeepen hfree hwanted)
    exact h.parents_present hrepo hwants hhaves hd' hhave (by rw [hdeepen]; rfl)
  | some n =>
  have hfirst := h.announces.walk
  rw [hdeepen, Option.getD_some] at hfirst hlt
  have hsome : request.deepen.isSome = true := by rw [hdeepen]; rfl
  have hsame := hfirst.unique (boundary_of_collect hrepo hdeepen (hcommits hsome) hfree h.walk)
  rw [hsame] at hd
  refine h.parents_present hrepo hwants hhaves (mem_filter.1 hd).1 hhave ?_
  rw [hdeepen, Option.all_some]
  exact decide_eq_true hlt

/-- **The client is closed afterwards.** -/
theorem closed
    (huncut : (request.deepen = none ∧ ∀ s ∈ request.shallow, ¬ Wanted world request s) ∨
      ∀ x ∈ haves, ¬ Wanted world request x)
    (hclient : client.Closed world) : (client.receive response).Closed world := by
  intro x hx
  rcases Finset.mem_union.1 hx with hold | hnew
  · -- What the client had keeps its parents; if it was shallow, it still is, or has them now.
    rcases hclient x hold with hparents | hshallow
    · exact .inl fun p hp => Finset.mem_union_left _ (hparents p hp)
    by_cases hun : x ∈ response.unshallow
    · rcases huncut with ⟨-, hunwanted⟩ | hfree
      · obtain ⟨hmem, d, -, hd⟩ := h.announces.unshallow x hun
        exact absurd (h.announces.wanted hrepo (x, d) hd) (hunwanted x hmem)
      · exact .inl (h.unshallow_present hrepo hwants hhaves hcommits hfree hun)
    · exact .inr (Finset.mem_sdiff.2
        ⟨Finset.mem_union_left _ hshallow, fun hmem => hun (mem_toFinset.1 hmem)⟩)
  obtain ⟨hvisited, hhave⟩ := (h.objects x).1 (mem_toFinset.1 hnew)
  obtain ⟨d, hd⟩ := exists_visit hvisited
  by_cases hdepth : request.deepen.all (d < ·) = true
  · exact .inl (h.parents_present hrepo hwants hhaves hd hhave hdepth)
  cases hdeepen : request.deepen with
  | none =>
    rw [hdeepen] at hdepth
    exact absurd rfl hdepth
  | some n =>
  rw [hdeepen, Option.all_some] at hdepth
  have hsome : request.deepen.isSome = true := by rw [hdeepen]; rfl
  have hfree := huncut.resolve_left fun hnone => by
    rw [hdeepen] at hnone
    exact nomatch hnone.1
  obtain ⟨o, ho, -⟩ := collect_closed hrepo hwants h.walk hd hhave
  by_cases hcommit : o.isCommit = true
  · refine .inr (h.shallow_at_limit hrepo hdeepen (hcommits hsome) hfree hd ?_
      (Nat.le_of_not_lt fun hlt => hdepth (decide_eq_true hlt)))
    rw [isCommit_of_read ho]
    exact hcommit
  refine .inl fun p hp => ?_
  rw [parentsIn, hrepo.stored x o ho] at hp
  change p ∈ o.parents at hp
  rw [parents_of_not_commit (Bool.eq_false_iff.2 hcommit)] at hp
  cases hp

end

end Sound

end Fetched

/-- **A fetch leaves the client closed, with what it wanted.**  Where the two walks agree, every
commit of the client is afterwards shallow or has its parents there; what it wanted is there with
all its parts; and under a depth limit `n` the commits at fewer than `n` steps are there, if no
commit is reached in two numbers of steps. -/
theorem fetch_closed {world : ObjId → Option Object} {repo : Repo} (request : Request)
    (batches : List (List Line)) (client : Client) (hrepo : repo.Sound world)
    (hwants : ∀ w ∈ request.wants, (repo.readRawObject w).isSome = true)
    (hends : (negotiate repo request batches .start).isSome = true)
    (hclient : client.Closed world) (htruthful : client.Truthful world request batches)
    (hagreed : Agreed world repo request batches) :
    ∃ response, (uploadPack repo request batches).run = some (.ok response) ∧
      (client.receive response).Closed world ∧
      (∀ w ∈ request.wants, ∀ y, Within world w y → y ∈ (client.receive response).objects) ∧
      ∀ n, request.deepen = some n → OneLength world request n →
        ∀ w ∈ request.wants, ∀ k < n, ∀ y, Ancestor world w k y →
          y ∈ (client.receive response).objects := by
  by_cases hne : request.wants = []
  · refine ⟨⟨[], [], []⟩, ?_, ?_, ?_, ?_⟩
    · rw [uploadPack, if_pos hne]
      rfl
    · rw [show client.receive ⟨[], [], []⟩ = client from
        congrArg₂ Client.mk (Finset.union_empty _)
          ((Finset.sdiff_empty).trans (Finset.union_empty _))]
      exact hclient
    · rw [hne]
      exact nofun
    · rw [hne]
      exact nofun
  obtain ⟨talk, htalk⟩ := Option.isSome_iff_exists.1 hends
  obtain ⟨response, first, second, hrun, h⟩ := uploadPack_spec hrepo hwants htalk hne
  have hoffered : ∀ x ∈ talk.haves, x ∈ offered batches := fun x hx =>
    (negotiate_haves htalk hx).resolve_left not_mem_nil
  have hhaves : ∀ x ∈ talk.haves, ∀ y, Within world x y → y ∈ client.objects := fun x hx =>
    htruthful.haves x (hoffered x hx)
  have huncut := hagreed.uncut.imp id fun hfree x hx => hfree x (hoffered x hx)
  refine ⟨response, hrun, h.closed hrepo hwants hhaves hagreed.commits huncut hclient,
    fun w hw y hy => h.present_within hrepo hwants hhaves
      (h.walk.visited (mem_nodes_wanted hw)) hy, fun n hdeepen hone w hw k hk y hpath => ?_⟩
  have hfree := huncut.resolve_left fun hnone => by
    rw [hdeepen] at hnone
    exact nomatch hnone.1
  have hvisit := collect_ancestors hrepo hdeepen (hagreed.commits (by rw [hdeepen]; rfl)) hfree
    hone h.walk hw hk hpath
  exact h.present hhaves (mem_map_of_mem (f := Prod.fst) hvisit)

end Fetch

/-! ## A history of four commits -/

namespace History

/-- A short name. -/
def oid (n : ℕ) : ObjId := ⟨BitVec.ofNat 160 n⟩

/-- Commits 1 to 4, where 4 merges 2 and 3; 5 is a tag of 2, and all commits have one tree. -/
def repo : Repo where
  objects := [(oid 1, .commit (oid 9) []), (oid 2, .commit (oid 9) [oid 1]),
    (oid 3, .commit (oid 9) [oid 2]), (oid 4, .commit (oid 9) [oid 2, oid 3]),
    (oid 5, .tag (oid 2)), (oid 9, .tree [oid 8]), (oid 8, .blob)]

def fetch (wants shallow : List ObjId) (depth : ℕ) : Request :=
  ⟨wants, shallow, some depth, true, false⟩

/-- A client that cloned commit 2 with depth 1. -/
def shallowClone : Client := ⟨{oid 2, oid 9, oid 8}, {oid 2}⟩

/-- A client that has nothing. -/
def fresh : Client := ⟨∅, ∅⟩

theorem sound : repo.Sound repo.readRawObject := by
  have hparents : ∀ p ∈ repo.objects, ∀ q ∈ p.2.parents, repo.isCommit q = true := by decide +kernel
  have hcontents : ∀ p ∈ repo.objects, ∀ y ∈ p.2.contents, (repo.readRawObject y).any
      (fun o => p.2.isTag || (!o.isCommit && !o.isTag)) = true := by decide +kernel
  refine ⟨fun _ _ h => h, fun x o h => hparents _ (Repo.mem_objects_of_read h), fun x o h y hy => ?_⟩
  obtain ⟨o', ho', hkind⟩ :=
    (Option.any_eq_true _ _).1 (hcontents _ (Repo.mem_objects_of_read h) y hy)
  refine ⟨o', ho', fun htag => ?_⟩
  rw [htag, Bool.false_or, Bool.and_eq_true, Bool.not_eq_true', Bool.not_eq_true'] at hkind
  exact hkind

/-- From commit 3 no other commit is reached in two ways. -/
theorem oneLength : OneLength repo.readRawObject (fetch [oid 3] [] 2) 2 := by
  have hstep : ∀ y, Ancestor repo.readRawObject (oid 3) 1 y → y = oid 2 := by
    intro y h
    obtain - | ⟨h, o, ho, hy⟩ := h
    cases h
    have hread : repo.readRawObject (oid 3) = some (.commit (oid 9) [oid 2]) := by decide +kernel
    rw [hread] at ho
    cases ho
    exact mem_singleton.1 hy
  have hself : ∀ y, Ancestor repo.readRawObject (oid 3) 0 y → y = oid 3 := by
    intro y h
    cases h
    rfl
  have hne : oid 2 ≠ oid 3 := by decide +kernel
  intro w hw w' hw' k hk k' hk' y hy hy'
  cases mem_singleton.1 hw
  cases mem_singleton.1 hw'
  obtain rfl | rfl : k = 0 ∨ k = 1 := by omega
  · obtain rfl | rfl : k' = 0 ∨ k' = 1 := by omega
    · rfl
    · exact absurd ((hstep y hy').symm.trans (hself y hy)) hne
  obtain rfl | rfl : k' = 0 ∨ k' = 1 := by omega
  · exact absurd ((hstep y hy).symm.trans (hself y hy')) hne
  · rfl

/-- A fresh clone of commit 3 with depth 2. -/
theorem fetch_closed_fresh :
    ∃ response, (uploadPack repo (fetch [oid 3] [] 2) [[.done]]).run = some (.ok response) ∧
      (fresh.receive response).Closed repo.readRawObject ∧
      oid 8 ∈ (fresh.receive response).objects ∧ oid 2 ∈ (fresh.receive response).objects := by
  obtain ⟨response, hrun, hclosed, hwithin, hdepth⟩ := fetch_closed
    (fetch [oid 3] [] 2) [[.done]] fresh sound (by decide +kernel)
    (by decide +kernel) (by decide +kernel) ⟨rfl, nofun⟩ ⟨.inr nofun, fun _ => by decide +kernel⟩
  refine ⟨response, hrun, hclosed, hwithin (oid 3) mem_cons_self _ ?_,
    hdepth 2 rfl oneLength (oid 3) mem_cons_self 1 (by decide) _ ?_⟩
  · have htree : Within repo.readRawObject (oid 3) (oid 9) :=
      .single ⟨.commit (oid 9) [oid 2], by decide +kernel, mem_cons_self⟩
    exact htree.tail ⟨.tree [oid 8], by decide +kernel, mem_cons_self⟩
  · exact .parent .refl ⟨.commit (oid 9) [oid 2], by decide +kernel, mem_cons_self⟩

/-- Three fetches that go wrong.  The clone of commit 2 asks for a second commit of depth and says
that it has commit 2: it is told that this commit is no longer shallow, and gets nothing.  With
depth 1 the tag brings its commit, which is not announced as shallow.  And the merge with depth 3
lacks commit 1, two steps away, since commit 2 is first reached through commit 3. -/
theorem left_open :
    shallowClone.Closed repo.readRawObject ∧
      (uploadPack repo (fetch [oid 2] [oid 2] 2) [[.have (oid 2), .done]]).run =
        some (.ok ⟨[oid 1], [oid 2], []⟩) ∧
      ¬ (shallowClone.receive ⟨[oid 1], [oid 2], []⟩).Closed repo.readRawObject ∧
      (uploadPack repo (fetch [oid 5] [] 1) [[.done]]).run =
        some (.ok ⟨[], [], [oid 5, oid 2, oid 9, oid 8]⟩) ∧
      ¬ (fresh.receive ⟨[], [], [oid 5, oid 2, oid 9, oid 8]⟩).Closed repo.readRawObject ∧
      (uploadPack repo (fetch [oid 4] [] 3) [[.done]]).run =
        some (.ok ⟨[oid 2], [], [oid 4, oid 3, oid 2, oid 9, oid 8]⟩) ∧
      repo.readRawObject (oid 4) = some (.commit (oid 9) [oid 2, oid 3]) ∧
      repo.readRawObject (oid 2) = some (.commit (oid 9) [oid 1]) ∧
      oid 1 ∉ (fresh.receive ⟨[oid 2], [], [oid 4, oid 3, oid 2, oid 9, oid 8]⟩).objects := by
  decide +kernel

end History

end Skyr.Scs
