import Mathlib.Data.Fintype.Basic
import Skyr.Udb

/-!
# Members of organizations

Who belongs to an organization is kept twice, in a set of the organization and in a set of the user.
Here any number of additions and removals run side by side, each command of the store is one step,
and an operation may end after any of its commands.  An organization is made in one step, with its
creator for a member.
-/

namespace Skyr.Udb

open Function

inductive OrgQueryError
  | notFound
  | userNotFound
  | alreadyMember

/-- An addition or removal, by the command that it is about to send. -/
inductive Membership
  | orgExists (org username : String)
  | userExists (org username : String)
  | isMember (org username : String)
  | addMember (org username : String)
  | addOrg (org username : String)
  | removeMember (org username : String)
  | removeOrg (org username : String)

namespace Membership

def add (org username : String) : Membership := .orgExists org username

def remove (org username : String) : Membership := .removeMember org username

/-- What a command does to the store, and how the operation goes on. -/
def send (s : Store) : Membership → Store × Except OrgQueryError (Option Membership)
  | orgExists o u =>
    (s, if (s.orgs o).isSome then .ok (some (.userExists o u)) else .error .notFound)
  | userExists o u =>
    (s, if (s.users u).isSome then .ok (some (.isMember o u)) else .error .userNotFound)
  | isMember o u =>
    (s, if u ∈ s.members o then .error .alreadyMember else .ok (some (.addMember o u)))
  | addMember o u =>
    ({ s with members := update s.members o ((s.members o).union [u]) }, .ok (some (.addOrg o u)))
  | addOrg o u =>
    ({ s with userOrgs := update s.userOrgs u ((s.userOrgs u).union [o]) }, .ok none)
  | removeMember o u =>
    ({ s with members := update s.members o ((s.members o).filter (· ≠ u)) },
      .ok (some (.removeOrg o u)))
  | removeOrg o u =>
    ({ s with userOrgs := update s.userOrgs u ((s.userOrgs u).filter (· ≠ o)) }, .ok none)

/-- The operation is to change the set of an organization next. -/
def opens : Membership → Option (String × String)
  | addMember o u | removeMember o u => some (o, u)
  | _ => none

/-- The operation has changed the set of an organization, and the one of a user is next. -/
def closes : Membership → Option (String × String)
  | addOrg o u | removeOrg o u => some (o, u)
  | _ => none

end Membership

/-- The two sets of a pair say the same. -/
def Store.Agrees (s : Store) (o u : String) : Prop := u ∈ s.members o ↔ o ∈ s.userOrgs u

def Store.SameAt (s s' : Store) (o u : String) : Prop :=
  (u ∈ s.members o ↔ u ∈ s'.members o) ∧ (o ∈ s.userOrgs u ↔ o ∈ s'.userOrgs u)

/-- The store and the operations in progress. -/
structure Members (ι : Type) where
  store : Store
  tasks : ι → Option Membership

namespace Members

variable {ι : Type} [DecidableEq ι]

/-- What happens next: an organization is made, or an operation begins, sends its command, or ends
without going on. -/
inductive Action (ι : Type)
  | create (org creator : String)
  | add (i : ι) (org username : String)
  | remove (i : ι) (org username : String)
  | send (i : ι)
  | crash (i : ι)

def step (x : Members ι) : Action ι → Members ι
  | .create o u => { x with store := (x.store.createOrg o u).2 }
  | .add i o u => { x with tasks := update x.tasks i ((x.tasks i).or (some (.add o u))) }
  | .remove i o u => { x with tasks := update x.tasks i ((x.tasks i).or (some (.remove o u))) }
  | .send i =>
    match x.tasks i with
    | none => x
    | some t => ⟨(t.send x.store).1, update x.tasks i (t.send x.store).2.toOption.join⟩
  | .crash i => { x with tasks := update x.tasks i none }

/-- Nobody else is between the two sets of a pair when one is changed, and an operation does not end
there. -/
def Apart (x : Members ι) : Action ι → Prop
  | .create o u => ∀ j, ∀ t ∈ x.tasks j, (o, u) ∉ t.closes
  | .send i => ∀ t ∈ x.tasks i, ∀ p ∈ t.opens, ∀ j, ∀ t' ∈ x.tasks j, p ∉ t'.closes
  | .crash i => ∀ t ∈ x.tasks i, t.closes = none
  | _ => True

instance [Fintype ι] (x : Members ι) : ∀ a, Decidable (x.Apart a)
  | .create o u => inferInstanceAs (Decidable (∀ j, ∀ t ∈ x.tasks j, (o, u) ∉ t.closes))
  | .send i => inferInstanceAs
    (Decidable (∀ t ∈ x.tasks i, ∀ p ∈ t.opens, ∀ j, ∀ t' ∈ x.tasks j, p ∉ t'.closes))
  | .crash i => inferInstanceAs (Decidable (∀ t ∈ x.tasks i, t.closes = none))
  | .add .. | .remove .. => inferInstanceAs (Decidable True)

inductive Reached : Members ι → Prop
  | start {s : Store} : (∀ o u, s.Agrees o u) → Reached ⟨s, fun _ => none⟩
  | step {x : Members ι} {a : Action ι} : Reached x → x.Apart a → Reached (x.step a)

/-- The operation that is between the two sets of a pair. -/
def between (o u : String) (v : Option Membership) : Option Membership :=
  v.bind fun t => if t.closes = some (o, u) then some t else none

/-- At most one operation is between the two sets of a pair.  If there is none the sets agree, and
otherwise the operation has done its part. -/
def Settled (x : Members ι) (o u : String) : Prop :=
  (∀ i, between o u (x.tasks i) = none) ∧ x.store.Agrees o u ∨
    ∃ i t, (∀ j, between o u (x.tasks j) = if j = i then some t else none) ∧
      (u ∈ x.store.members o ↔ t = .addOrg o u)

variable {x : Members ι} {o u : String} {i : ι} {t : Membership} {v : Option Membership}

theorem between_eq_none (h : ∀ t ∈ v, (o, u) ∉ t.closes) : between o u v = none := by
  cases v with
  | none => rfl
  | some t => exact if_neg (h t rfl)

theorem Settled.agrees (h : x.Settled o u) (hnone : ∀ i, between o u (x.tasks i) = none) :
    x.store.Agrees o u := by
  rcases h with ⟨-, hagrees⟩ | ⟨i, t, htasks, -⟩
  · exact hagrees
  · cases (hnone i).symm.trans ((htasks i).trans (if_pos rfl))

theorem Settled.frame (h : x.Settled o u) {s : Store} (hs : s.SameAt x.store o u)
    (hv : between o u v = between o u (x.tasks i)) : Settled ⟨s, update x.tasks i v⟩ o u := by
  have htasks j : between o u (update x.tasks i v j) = between o u (x.tasks j) := by
    by_cases hj : j = i
    · rw [hj, update_self, hv]
    · rw [update_of_ne hj]
  simpa only [Settled, Store.Agrees, htasks, hs.1, hs.2] using h

theorem mem_union_singleton {l : List String} {b c : String} : c ∈ l.union [b] ↔ c ∈ l ∨ c = b :=
  List.mem_union_iff.trans (by simp)

theorem mem_insert_at {f : String → List String} {a b c d : String} :
    c ∈ update f a ((f a).union [b]) d ↔ c ∈ f d ∨ d = a ∧ c = b := by
  by_cases hd : d = a
  · simp [hd, mem_union_singleton]
  · simp [hd]

theorem mem_erase_at {f : String → List String} {a b c d : String} :
    c ∈ update f a ((f a).filter (· ≠ b)) d ↔ c ∈ f d ∧ ¬(d = a ∧ c = b) := by
  by_cases hd : d = a <;> simp [hd]

theorem send_frame (hopens : t.opens ≠ some (o, u)) (hcloses : t.closes ≠ some (o, u)) (s : Store) :
    (t.send s).1.SameAt s o u := by
  cases t with
  | addMember o' u' | removeMember o' u' =>
    have hne : ¬(o = o' ∧ u = u') := fun h => hopens (by rw [h.1, h.2]; rfl)
    simp only [Store.SameAt, Membership.send, mem_insert_at, mem_erase_at, hne]
    simp
  | addOrg o' u' | removeOrg o' u' =>
    have hne : ¬(u = u' ∧ o = o') := fun h => hcloses (by rw [h.1, h.2]; rfl)
    simp only [Store.SameAt, Membership.send, mem_insert_at, mem_erase_at, hne]
    simp
  | _ => exact ⟨.rfl, .rfl⟩

/-- A command that does not open the pair. -/
theorem Settled.send (h : x.Settled o u) (ht : x.tasks i = some t) (hopens : t.opens ≠ some (o, u))
    (hv : between o u v = none) : Settled ⟨(t.send x.store).1, update x.tasks i v⟩ o u := by
  by_cases hcloses : t.closes = some (o, u)
  · have hi : between o u (x.tasks i) = some t := by simp [between, ht, hcloses]
    rcases h with ⟨hnone, -⟩ | ⟨i', t', htasks, hmem⟩
    · cases hi.symm.trans (hnone i)
    · obtain rfl : i = i' := by
        by_contra hne
        rw [htasks i, if_neg hne] at hi
        cases hi
      rw [htasks i, if_pos rfl] at hi
      cases hi
      refine .inl ⟨fun j => ?_, ?_⟩
      · by_cases hj : j = i
        · simp [hj, hv]
        · simp [hj, htasks]
      · cases t <;> cases hcloses <;> simp_all [Store.Agrees, Membership.send, mem_union_singleton]
  · refine h.frame (send_frame hopens hcloses x.store) (hv.trans ?_)
    simp [between, ht, hcloses]

/-- A command that opens the pair, when nobody is between its sets. -/
theorem settled_opened (hnone : ∀ j, between o u (x.tasks j) = none) {s : Store}
    (hcloses : t.closes = some (o, u)) (hm : u ∈ s.members o ↔ t = .addOrg o u) :
    Settled ⟨s, update x.tasks i (some t)⟩ o u := by
  refine .inr ⟨i, t, fun j => ?_, hm⟩
  by_cases hj : j = i
  · simp [hj, between, hcloses]
  · simp [hj, hnone]

/-- An organization is made with both sets of its creator changed at once, or nothing is. -/
theorem createOrg_sets (s : Store) (org creator : String) :
    ∃ P : Prop, ∀ o u, (u ∈ (s.createOrg org creator).2.members o ↔
        u ∈ s.members o ∨ P ∧ o = org ∧ u = creator) ∧
      (o ∈ (s.createOrg org creator).2.userOrgs u ↔
        o ∈ s.userOrgs u ∨ P ∧ o = org ∧ u = creator) := by
  unfold Store.createOrg
  split
  · exact ⟨False, by simp⟩
  split
  · exact ⟨False, by simp⟩
  · refine ⟨True, fun o u => ?_⟩
    simp only [Store.withOrg, Store.withNamespace, mem_insert_at]
    tauto

theorem Settled.step (h : x.Settled o u) {a : Action ι} (ha : x.Apart a) :
    (x.step a).Settled o u := by
  cases a with
  | create o' u' =>
    obtain ⟨P, hP⟩ := createOrg_sets x.store o' u'
    by_cases hne : o = o' ∧ u = u'
    · obtain ⟨rfl, rfl⟩ := hne
      have hnone j := between_eq_none (ha j)
      refine .inl ⟨hnone, ?_⟩
      simpa [Store.Agrees, Members.step, hP] using or_congr (h.agrees hnone) .rfl
    · simpa [Settled, Members.step, Store.Agrees, hP, hne] using h
  | add i o' u' | remove i o' u' =>
    refine h.frame ⟨.rfl, .rfl⟩ ?_
    cases x.tasks i <;> rfl
  | crash i =>
    refine h.frame ⟨.rfl, .rfl⟩ ?_
    cases ht : x.tasks i with
    | none => rfl
    | some t => simp [between, ha t ht]
  | send i =>
    cases ht : x.tasks i with
    | none => simpa [Members.step, ht] using h
    | some t =>
      have hstep : x.step (.send i) =
          ⟨(t.send x.store).1, update x.tasks i (t.send x.store).2.toOption.join⟩ := by
        simp [Members.step, ht]
      rw [hstep]
      by_cases hopens : t.opens = some (o, u)
      · have hnone j := between_eq_none (ha t ht _ hopens j)
        cases t with
        | addMember | removeMember =>
          cases hopens
          exact settled_opened hnone rfl (by simp [Membership.send, mem_union_singleton])
        | _ => cases hopens
      · refine h.send ht hopens ?_
        cases t with
        | addMember | removeMember => exact if_neg hopens
        | addOrg | removeOrg => rfl
        | _ =>
          simp only [Membership.send]
          split <;> rfl

theorem Reached.settled (h : Reached x) (o u : String) : x.Settled o u := by
  induction h with
  | start hs => exact .inl ⟨fun _ => rfl, hs o u⟩
  | step _ ha ih => exact ih.step ha

/-- **While nobody comes in between, the sets of every pair agree that no operation is about to make
agree.** -/
theorem sets_agree (h : Reached x) (hnone : ∀ i, ∀ t ∈ x.tasks i, (o, u) ∉ t.closes) :
    x.store.Agrees o u :=
  (h.settled o u).agrees fun i => between_eq_none (hnone i)

/-- Everybody has an account, and there is no organization yet. -/
def people : Store := { Store.empty with users := fun _ => some ⟨none, none⟩ }

/-- Two users are added to an organization side by side: each set of the one is followed by the same
set of the other. -/
def joined : Members Bool :=
  [.create "acme" "ada", .add true "acme" "bob", .add false "acme" "cleo", .send true, .send false,
    .send true, .send false, .send true, .send false, .send true, .send false,
    .send true].foldl step ⟨people, fun _ => none⟩

/-- The first addition is done, the second one is between its two sets. -/
theorem joined_agree : (joined.tasks false).bind Membership.closes = some ("acme", "cleo") ∧
    joined.store.members "acme" = ["ada", "bob", "cleo"] ∧
    joined.store.userOrgs "cleo" = [] ∧ joined.store.Agrees "acme" "bob" := by
  have hrun := Reached.start (ι := Bool) (s := people) (by simp [Store.Agrees, people, Store.empty])
    |>.step (a := .create "acme" "ada") (by decide +kernel)
    |>.step (a := .add true "acme" "bob") trivial
    |>.step (a := .add false "acme" "cleo") trivial
    |>.step (a := .send true) (by decide +kernel)
    |>.step (a := .send false) (by decide +kernel)
    |>.step (a := .send true) (by decide +kernel)
    |>.step (a := .send false) (by decide +kernel)
    |>.step (a := .send true) (by decide +kernel)
    |>.step (a := .send false) (by decide +kernel)
    |>.step (a := .send true) (by decide +kernel)
    |>.step (a := .send false) (by decide +kernel)
    |>.step (a := .send true) (by decide +kernel)
  exact ⟨by decide +kernel, by decide +kernel, by decide +kernel,
    sets_agree (x := joined) hrun (by decide +kernel)⟩

/-! ### Repeating an addition

An addition that failed is begun again.  It asks the organization's set alone whether there is
something left to do, so it makes up for a failure only where the two sets have stayed together. -/

/-- An addition from its beginning to its end, with nobody else doing anything. -/
def addAlone (x : Members ι) (i : ι) (o u : String) : Members ι :=
  (Action.add i o u :: List.replicate 5 (.send i)).foldl step x

theorem addAlone_spec (hfree : x.tasks i = none) (horg : (x.store.orgs o).isSome)
    (huser : (x.store.users u).isSome) (hagrees : x.store.Agrees o u) :
    (x.addAlone i o u).tasks = x.tasks ∧ u ∈ (x.addAlone i o u).store.members o ∧
      o ∈ (x.addAlone i o u).store.userOrgs u := by
  by_cases hmem : u ∈ x.store.members o
  -- The addition is refused, and there is nothing left to do.
  · have horg' := hagrees.1 hmem
    simp [addAlone, Members.step, Membership.add, Membership.send, hfree, horg, huser, hmem, horg',
      Except.toOption, update_eq_self_iff]
  · simp [addAlone, Members.step, Membership.add, Membership.send, hfree, horg, huser, hmem,
      Except.toOption, mem_union_singleton, update_eq_self_iff]

/-- **Members of organizations.**  Whatever additions, removals and creations run side by side, and
wherever they end early: if nobody else is between the two sets of a pair when one is changed, and
no operation ends there, then whenever no operation is in progress the two sets of every pair agree,
and an addition that is begun again ends with the user in both. -/
theorem idle_consistent (h : Reached x) (hidle : ∀ i, x.tasks i = none) :
    (∀ o u, x.store.Agrees o u) ∧
    ∀ i o u, (x.store.orgs o).isSome → (x.store.users u).isSome →
      (x.addAlone i o u).tasks = x.tasks ∧ u ∈ (x.addAlone i o u).store.members o ∧
        o ∈ (x.addAlone i o u).store.userOrgs u := by
  have hagrees o u : x.store.Agrees o u :=
    (h.settled o u).agrees fun i => by rw [hidle i]; rfl
  exact ⟨hagrees, fun i o u horg huser => addAlone_spec (hidle i) horg huser (hagrees o u)⟩

/-- An addition ends before it has changed anything, next to a removal that goes through. -/
def givenUp : Members Bool :=
  [.create "acme" "ada", .add true "acme" "bob", .remove false "acme" "ada", .send true,
    .send false, .send true, .crash true, .send false].foldl step ⟨people, fun _ => none⟩

theorem givenUp_repeated : (∀ i, givenUp.tasks i = none) ∧
    givenUp.store.members "acme" = [] ∧ givenUp.store.Agrees "acme" "ada" ∧
    "bob" ∈ (givenUp.addAlone true "acme" "bob").store.members "acme" ∧
    "acme" ∈ (givenUp.addAlone true "acme" "bob").store.userOrgs "bob" := by
  have hrun := Reached.start (ι := Bool) (s := people) (by simp [Store.Agrees, people, Store.empty])
    |>.step (a := .create "acme" "ada") (by decide +kernel)
    |>.step (a := .add true "acme" "bob") trivial
    |>.step (a := .remove false "acme" "ada") trivial
    |>.step (a := .send true) (by decide +kernel)
    |>.step (a := .send false) (by decide +kernel)
    |>.step (a := .send true) (by decide +kernel)
    |>.step (a := .crash true) (by decide +kernel)
    |>.step (a := .send false) (by decide +kernel)
  have hidle : ∀ i, givenUp.tasks i = none := by decide +kernel
  obtain ⟨hagrees, hrepeated⟩ := idle_consistent (x := givenUp) hrun hidle
  exact ⟨hidle, by decide +kernel, hagrees "acme" "ada",
    (hrepeated true "acme" "bob" (by decide +kernel) (by decide +kernel)).2⟩

/-- An addition ends between its two sets. -/
def halfway : Members Bool :=
  [.create "acme" "ada", .add true "acme" "bob", .send true, .send true, .send true, .send true,
    .crash true].foldl step ⟨people, fun _ => none⟩

/-- A removal goes through while an addition is between its two sets. -/
def overtaken : Members Bool :=
  [.create "acme" "ada", .add true "acme" "bob", .send true, .send true, .send true, .send true,
    .remove false "acme" "bob", .send false, .send false,
    .send true].foldl step ⟨people, fun _ => none⟩

/-- The addition that ended halfway is refused when it is begun again, and the sets stay as they
are.  Without any failure, two operations that overtake each other leave the sets apart as well. -/
theorem halfway_stays_apart :
    (∀ i, halfway.tasks i = none) ∧ ¬halfway.store.Agrees "acme" "bob" ∧
    ((halfway.addAlone true "acme" "bob").tasks true = none ∧
      "acme" ∉ (halfway.addAlone true "acme" "bob").store.userOrgs "bob") ∧
    (∀ i, overtaken.tasks i = none) ∧ ¬overtaken.store.Agrees "acme" "bob" := by
  unfold Store.Agrees
  decide +kernel

end Members

end Skyr.Udb
