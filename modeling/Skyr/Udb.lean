import Skyr.Lib.Split

/-!
# The user database of a region

Every region has its own store of users and organizations, which share one space of names.  A user
is registered, and an organization is made, by a script that the store carries out whole: it looks
whether the name is taken and then writes.  Which checks the client makes before a script are part
of the model (`validateUsername`, `validateEmail`, `validateOrgname`); that they accept whatever
the edge accepts is proved where the edge is modelled.
-/

namespace Skyr.Udb

open Function

/-- What a name stands for. -/
inductive Holder
  | user
  | org
deriving DecidableEq

/-- The record of a user.  There is one as soon as one field is written. -/
structure UserRow where
  email : Option String
  fullname : Option String
deriving DecidableEq

structure Credential where
  publicKey : String
  credentialId : Option String
  signCount : ℕ
deriving DecidableEq

structure Store where
  namespaces : String → Option Holder
  users : String → Option UserRow
  /-- The creator of an organization. -/
  orgs : String → Option String
  members : String → List String
  userOrgs : String → List String
  /-- The fingerprints of a user's keys. -/
  pubkeys : String → List String
  /-- By user and fingerprint. -/
  credentials : String → String → Option Credential

namespace Store

def empty : Store :=
  ⟨fun _ => none, fun _ => none, fun _ => none, fun _ => [], fun _ => [], fun _ => [],
    fun _ _ => none⟩

variable (s : Store)

/-- The e-mail address of a user. -/
def email (username : String) : Option String := (s.users username).bind UserRow.email

/-- The fields of a user that are there already stay. -/
def withEmail (username email : String) : Store :=
  { s with
    users := Function.update s.users username
      (some ⟨some email, (s.users username).bind UserRow.fullname⟩) }

def withNamespace (name : String) (holder : Holder) : Store :=
  { s with namespaces := Function.update s.namespaces name (some holder) }

def withOrg (name creator : String) : Store :=
  { s with
    orgs := Function.update s.orgs name (some creator)
    members := Function.update s.members name ((s.members name).union [creator])
    userOrgs := Function.update s.userOrgs creator ((s.userOrgs creator).union [name]) }

/-- The script that registers a user.  0: done; 1: the name is taken; 2: the user is there. -/
def register (username email : String) : ℕ × Store :=
  if (s.namespaces username).isSome then (1, s)
  else if (s.email username).isSome then (2, s)
  else (0, (s.withEmail username email).withNamespace username .user)

/-- The script that makes an organization.  0: done; 1: the name is taken; 2: there is no such
user. -/
def createOrg (name creator : String) : ℕ × Store :=
  if (s.namespaces name).isSome then (1, s)
  else if (s.users creator).isNone then (2, s)
  else (0, (s.withNamespace name .org).withOrg name creator)

def setFullname (username fullname : String) : Store :=
  { s with users := Function.update s.users username (some ⟨s.email username, some fullname⟩) }

def addPubkey (username fingerprint : String) : Store :=
  { s with
    pubkeys := Function.update s.pubkeys username ((s.pubkeys username).union [fingerprint]) }

def setCredential (username fingerprint : String) (credential : Credential) : Store :=
  { s with
    credentials := Function.update s.credentials username
      (Function.update (s.credentials username) fingerprint (some credential)) }

/-- There is such a user or such an organization. -/
def Has (name : String) : Prop :=
  (s.namespaces name = some .user ∧ (s.email name).isSome) ∨
    (s.namespaces name = some .org ∧ (s.orgs name).isSome)

instance (name : String) : Decidable (s.Has name) := inferInstanceAs (Decidable (_ ∨ _))

/-- A script would refuse the name. -/
def Taken (name : String) : Prop := (s.namespaces name).isSome ∨ (s.email name).isSome

instance (name : String) : Decidable (s.Taken name) := inferInstanceAs (Decidable (_ ∨ _))

/-! ### What the operations do to names -/

variable {s} {t : Store}

/-- The operation has not touched any name. -/
structure SameNames (s t : Store) : Prop where
  namespaces : t.namespaces = s.namespaces
  email : t.email = s.email
  orgs : t.orgs = s.orgs

theorem SameNames.taken (h : SameNames s t) (name : String) : t.Taken name ↔ s.Taken name := by
  rw [Taken, Taken, h.namespaces, h.email]

theorem SameNames.has (h : SameNames s t) (name : String) : t.Has name ↔ s.Has name := by
  rw [Has, Has, h.namespaces, h.email, h.orgs]

theorem sameNames_setFullname (username fullname : String) :
    SameNames s (s.setFullname username fullname) := by
  refine ⟨rfl, funext fun name => ?_, rfl⟩
  change (Function.update s.users username _ name).bind UserRow.email = s.email name
  by_cases hname : name = username
  · rw [hname, update_self]
    rfl
  · rw [update_of_ne hname]
    rfl

theorem sameNames_addPubkey (username fingerprint : String) :
    SameNames s (s.addPubkey username fingerprint) := ⟨rfl, rfl, rfl⟩

theorem sameNames_setCredential (username fingerprint : String) (credential : Credential) :
    SameNames s (s.setCredential username fingerprint credential) := ⟨rfl, rfl, rfl⟩

/-- The operation has made an entity of this name, and touched no other name. -/
structure Makes (s t : Store) (name : String) : Prop where
  has : t.Has name
  taken : ∀ m, t.Taken m → s.Taken m ∨ m = name
  keeps : ∀ m, s.Has m → t.Has m

variable {name : String}

/-- What has an entity is taken. -/
theorem Has.taken (h : s.Has name) : s.Taken name := by
  rcases h with ⟨h, -⟩ | ⟨h, -⟩ <;> exact .inl (by rw [h]; rfl)

/-- It is enough to look at the other names. -/
theorem makes_of_ne (hfree : ¬ s.Taken name) (hhas : t.Has name)
    (hns : ∀ m, m ≠ name → t.namespaces m = s.namespaces m)
    (hemail : ∀ m, m ≠ name → t.email m = s.email m) (horgs : ∀ m, m ≠ name → t.orgs m = s.orgs m) :
    Makes s t name := by
  refine ⟨hhas, fun m hm => ?_, fun m hm => ?_⟩
  · by_cases hne : m = name
    · exact .inr hne
    · rw [Taken, hns m hne, hemail m hne] at hm
      exact .inl hm
  have hne : m ≠ name := fun heq => hfree (heq ▸ hm.taken)
  rw [Has, hns m hne, hemail m hne, horgs m hne]
  exact hm

/-- **The script registers a user whose name is free.** -/
theorem register_makes {username : String} (email : String) (h : ¬ s.Taken username) :
    (s.register username email).1 = 0 ∧ Makes s (s.register username email).2 username := by
  obtain ⟨hns, hemail⟩ := not_or.1 h
  rw [register, if_neg hns, if_neg hemail]
  refine ⟨rfl, makes_of_ne h (.inl ⟨update_self _ _ _, ?_⟩)
    (fun m hm => update_of_ne hm _ _) (fun m hm => ?_) fun m _ => rfl⟩
  · change ((Function.update s.users username _ username).bind UserRow.email).isSome = true
    rw [update_self]
    rfl
  change (Function.update s.users username _ m).bind UserRow.email = s.email m
  rw [update_of_ne hm]
  rfl

/-- **The script makes an organization whose name is free**, if the creator is there. -/
theorem createOrg_makes {creator : String} (h : ¬ s.Taken name)
    (hcreator : (s.users creator).isSome = true) :
    (s.createOrg name creator).1 = 0 ∧ Makes s (s.createOrg name creator).2 name := by
  have hns := (not_or.1 h).1
  have hsome : ¬ (s.users creator).isNone = true := by
    rw [Option.isNone_iff_eq_none]
    intro hnone
    rw [hnone] at hcreator
    cases hcreator
  rw [createOrg, if_neg hns, if_neg hsome]
  refine ⟨rfl, makes_of_ne h (.inr ⟨update_self _ _ _, ?_⟩)
    (fun m hm => update_of_ne hm _ _) (fun m _ => rfl)
    fun m hm => update_of_ne hm _ _⟩
  change (Function.update s.orgs name (some creator) name).isSome = true
  rw [update_self]
  rfl

end Store

/-! ## Checks before the scripts -/

def validateUsername (username : String) : Except String Unit :=
  if username.toList = [] then .error "username must not be empty"
  else if ':' ∈ username.toList then .error "username must not contain ':'"
  else .ok ()

def validateOrgname (name : String) : Except String Unit :=
  if name.toList = [] then .error "organization name must not be empty"
  else if ':' ∈ name.toList then .error "organization name must not contain ':'"
  else .ok ()

def validateEmail (email : String) : Except String Unit :=
  match splitOnce ['@'] email.toList with
  | none => .error "email must contain '@'"
  | some (localPart, domain) =>
    if localPart = [] then .error "email local part must not be empty"
    else if domain = [] ∨ '.' ∉ domain then .error "email domain must contain at least one '.'"
    else .ok ()

end Skyr.Udb
