import Skyr.Lib.Lowercase
import Skyr.World

/-!
# Public name records

The plugin for name records keeps every record under a name made of the name of the record, the
environment, the repository, the organization and the zone.  The three in the middle are made into
labels: capital letters become small, other characters become hyphens, and hyphens at the ends are
dropped.

The labels can be told from the name of a record, whatever name the record has (`labels_of_key`).
So environments with different labels cannot touch each other's records (`dns_isolation`); but
different environments may well have the same labels (`Zones.same_labels`).
-/

namespace Skyr.Dns

open List

open Casing (lowercase Plain)

/-! ## Records -/

/-- What can be wrong with a request. -/
inductive Error
  | invalidDeploymentQid (qid : String) (e : ParseIdError)
  | invalidInput (field : String)
  | unsupportedResourceType (typ : String)
  | store (msg : String)

inductive RecordKind
  | a
  | aaaa
  | cname
  | txt
  | mx
  | srv
deriving DecidableEq

namespace RecordKind

def all : List RecordKind := [a, aaaa, cname, txt, mx, srv]

/-- The type of the resource. -/
def resourceType : RecordKind → String
  | a => "Std/DNS.ARecord"
  | aaaa => "Std/DNS.AAAARecord"
  | cname => "Std/DNS.CNAMERecord"
  | txt => "Std/DNS.TXTRecord"
  | mx => "Std/DNS.MXRecord"
  | srv => "Std/DNS.SRVRecord"

def ofType (typ : String) : Option RecordKind := all.find? fun k => k.resourceType == typ

/-- The word for it in the keys of the store. -/
def word : RecordKind → String
  | a => "a"
  | aaaa => "aaaa"
  | cname => "cname"
  | txt => "txt"
  | mx => "mx"
  | srv => "srv"

end RecordKind

structure MXExchange where
  priority : UInt16
  host : String
deriving DecidableEq

structure SRVTarget where
  priority : UInt16
  weight : UInt16
  port : UInt16
  target : String
deriving DecidableEq

/-- What is stored. -/
inductive RecordData
  | addresses (addresses : List String) (ttlSeconds : ℕ)
  | target (target : String) (ttlSeconds : ℕ)
  | values (values : List String) (ttlSeconds : ℕ)
  | exchanges (exchanges : List MXExchange) (ttlSeconds : ℕ)
  | records (records : List SRVTarget) (ttlSeconds : ℕ)
deriving DecidableEq

/-- The inputs of a resource, as far as they have the right form. -/
structure Inputs where
  name : Option String
  ttl : Option ℤ
  addresses : List String
  target : Option String
  values : List String
  exchanges : List MXExchange
  records : List SRVTarget

namespace Inputs

def extractTtlSeconds (i : Inputs) : ℕ :=
  match i.ttl with
  | none => 1
  | some millis => (max 1 (min (Int.tdiv millis 1000) (2 ^ 32 - 1))).toNat

def extractName (i : Inputs) : Except Error String :=
  match i.name with
  | some name => .ok name
  | none => .error (.invalidInput "name")

def extractTarget (i : Inputs) : Except Error String :=
  match i.target with
  | some target => .ok target
  | none => .error (.invalidInput "target")

/-- The data of a record. -/
def data (i : Inputs) : RecordKind → Except Error RecordData
  | .a | .aaaa => .ok (.addresses i.addresses i.extractTtlSeconds)
  | .cname => do
    let target ← i.extractTarget
    pure (.target target i.extractTtlSeconds)
  | .txt => .ok (.values i.values i.extractTtlSeconds)
  | .mx => .ok (.exchanges i.exchanges i.extractTtlSeconds)
  | .srv => .ok (.records i.records i.extractTtlSeconds)

end Inputs

/-! ## Names -/

section Names

variable [Casing]

/-- Without the hyphens at the ends. -/
def trimHyphens (s : List Char) : List Char :=
  ((s.dropWhile (· == '-')).reverse.dropWhile (· == '-')).reverse

def normalizeDnsLabel (s : String) : List Char :=
  lowercase (trimHyphens (s.toList.map fun c => if c.isAlphanum then c else '-'))

/-- The part of a name that an environment has for itself. -/
def labels (env : EnvironmentQid) : List Char :=
  '.' :: normalizeDnsLabel env.environment.str ++ '.' :: normalizeDnsLabel env.repo.repo.str ++
    '.' :: normalizeDnsLabel env.repo.org.str

def fqdn (zone name : String) (env : EnvironmentQid) : List Char :=
  lowercase (name.toList ++ labels env ++ '.' :: zone.toList)

/-- The key of a record in the store. -/
def recordKey (kind : RecordKind) (fqdn : List Char) : List Char :=
  "dns:".toList ++ kind.word.toList ++ ':' :: lowercase fqdn

end Names

/-! ## The plugin -/

/-- The records. -/
abbrev Store := List Char → Option RecordData

/-- What is done to the store. -/
inductive Write
  | set (key : List Char) (data : RecordData)
  | del (key : List Char)

namespace Write

def key : Write → List Char
  | set key _ | del key => key

def exec : Write → Store → Store
  | set key data, s => Function.update s key (some data)
  | del key, s => Function.update s key none

theorem exec_of_ne {w : Write} {k : List Char} (h : k ≠ w.key) (s : Store) : w.exec s k = s k := by
  cases w <;> exact Function.update_of_ne h _ _

end Write

/-- What is asked of the plugin.  It does not look at the former inputs and outputs. -/
inductive Request
  | create (deploymentQid : String) (id : ResourceId) (inputs : Inputs)
  | update (deploymentQid : String) (id : ResourceId) (inputs : Inputs)
  | delete (deploymentQid : String) (id : ResourceId) (inputs : Inputs)

def Request.deploymentQid : Request → String
  | create qid _ _ | update qid _ _ | delete qid _ _ => qid

/-- What becomes of a resource: the outputs are its name and some of its inputs. -/
structure Resource where
  inputs : Inputs
  fqdn : List Char

/-- The environment a request is made in. -/
def environmentOf (deploymentQid : String) : Except Error EnvironmentQid :=
  match DeploymentQid.parse deploymentQid.toList with
  | .ok qid => .ok qid.environment
  | .error e => .error (.invalidDeploymentQid deploymentQid e)

def kindOf (id : ResourceId) : Except Error RecordKind :=
  match RecordKind.ofType id.typ with
  | some kind => .ok kind
  | none => .error (.unsupportedResourceType id.typ)

section Plugin

variable [Casing]

def dispatch (zone : String) (env : EnvironmentQid) (id : ResourceId) (inputs : Inputs) :
    Except Error (Write × Option Resource) := do
  let kind ← kindOf id
  let name ← inputs.extractName
  let data ← inputs.data kind
  let fqdn := fqdn zone name env
  pure (.set (recordKey kind fqdn) data, some ⟨inputs, fqdn⟩)

def deleteRecord (zone : String) (env : EnvironmentQid) (id : ResourceId) (inputs : Inputs) :
    Except Error (Write × Option Resource) := do
  let kind ← kindOf id
  let name ← inputs.extractName
  pure (.del (recordKey kind (fqdn zone name env)), none)

/-- What a request does to the store, and its answer.  An update writes the new record and lets
the old one be. -/
def handle (zone : String) : Request → Except Error (Write × Option Resource)
  | .create qid id inputs | .update qid id inputs => do
    let env ← environmentOf qid
    dispatch zone env id inputs
  | .delete qid id inputs => do
    let env ← environmentOf qid
    deleteRecord zone env id inputs

/-- A request; the store may fail, with or without having done what it was told. -/
def step (zone : String) (s : Store) (reply : Reply) (r : Request) :
    Except Error (Option Resource) × Store :=
  match handle zone r with
  | .error e => (.error e, s)
  | .ok (w, resource) =>
    let (answer, s) := reply.answer (fun _ s => ((), w.exec s)) s
    ((answer.mapError .store).map fun _ => resource, s)

/-- Requests one after the other. -/
def run (zone : String) (s : Store) (rs : List (Reply × Request)) : Store :=
  rs.foldl (fun s r => (step zone s r.1 r.2).2) s

end Plugin

/-! ## Isolation -/

/-- A character of a label. -/
def IsLabel (c : Char) : Prop := Plain c ∧ c ≠ '.'

instance (c : Char) : Decidable (IsLabel c) :=
  inferInstanceAs (Decidable ((c.toNat < 128 ∧ c.toLower = c) ∧ c ≠ '.'))

variable {c : Char}

theorem ascii_of_isAlphanum (h : c.isAlphanum = true) : c.toNat < 128 := by
  delta Char.isAlphanum Char.isAlpha Char.isUpper Char.isLower at h
  simp only [Char.isDigit,
    Bool.or_eq_true, Bool.and_eq_true, decide_eq_true_eq, ge_iff_le, UInt32.le_iff_toNat_le] at h
  have hletters : 'Z'.val.toNat = 90 ∧ 'z'.val.toNat = 122 ∧ '9'.val.toNat = 57 := by decide
  change c.val.toNat < 128
  omega

theorem isLabel_toLower (h : c.isAlphanum = true ∨ c = '-') :
    c.toNat < 128 ∧ IsLabel c.toLower := by
  have hascii : c.toNat < 128 := by
    rcases h with h | rfl
    · exact ascii_of_isAlphanum h
    · decide
  have hall : ∀ n < 128, (Char.ofNat n).isAlphanum = true ∨ Char.ofNat n = '-' →
      IsLabel (Char.ofNat n).toLower := by decide +kernel
  have hc := hall c.toNat hascii
  rw [Char.ofNat_toNat] at hc
  exact ⟨hascii, hc h⟩

theorem mem_trimHyphens {s : List Char} (h : c ∈ trimHyphens s) : c ∈ s := by
  rw [trimHyphens, mem_reverse] at h
  have h' := (dropWhile_sublist _).subset h
  exact (dropWhile_sublist _).subset (mem_reverse.1 h')

section Labels

variable [Casing]

theorem mem_lowerIn_ascii {s before after : List Char} (hs : ∀ c ∈ s, c.toNat < 128) {d : Char}
    (hd : d ∈ Casing.lowerIn before s after) : ∃ c ∈ s, d = c.toLower := by
  induction s generalizing before with
  | nil => exact absurd hd not_mem_nil
  | cons c cs ih =>
  have hc := hs c mem_cons_self
  have hsigma : c ≠ 'Σ' := by
    rintro rfl
    exact absurd hc (by decide)
  rw [Casing.lowerIn, Casing.lowerAt, if_neg hsigma, Casing.ascii c hc] at hd
  rcases mem_cons.1 hd with rfl | hd
  · exact ⟨c, mem_cons_self, rfl⟩
  · obtain ⟨d', hd', heq⟩ := ih (fun c hc => hs c (mem_cons_of_mem _ hc)) hd
    exact ⟨d', mem_cons_of_mem _ hd', heq⟩

/-- A label has small letters, digits and hyphens, and no dot. -/
theorem mem_normalizeDnsLabel {s : String} {d : Char} (hd : d ∈ normalizeDnsLabel s) :
    IsLabel d := by
  have hs : ∀ c ∈ trimHyphens (s.toList.map fun c => if c.isAlphanum then c else '-'),
      c.isAlphanum = true ∨ c = '-' := by
    intro c hc
    obtain ⟨b, -, rfl⟩ := mem_map.1 (mem_trimHyphens hc)
    split
    · next hb => exact .inl hb
    · exact .inr rfl
  obtain ⟨c, hc, rfl⟩ := mem_lowerIn_ascii (fun c hc => (isLabel_toLower (hs c hc)).1) hd
  exact (isLabel_toLower (hs c hc)).2

theorem plain_labels (env : EnvironmentQid) : ∀ c ∈ labels env, Plain c := by
  have hdot : Plain '.' := by unfold Plain; decide
  intro c hc
  simp only [labels, mem_append, mem_cons, cons_append] at hc
  rcases hc with rfl | (hc | rfl | hc) | rfl | hc
  all_goals first | exact hdot | exact (mem_normalizeDnsLabel hc).1

end Labels

/-- What follows the last dot. -/
theorem append_dot_inj {a a' b b' : List Char} (hb : '.' ∉ b) (hb' : '.' ∉ b')
    (h : a ++ '.' :: b = a' ++ '.' :: b') : a = a' ∧ b = b' := by
  have hsplit : rsplitOnce ['.'] (a ++ '.' :: b) = some (a, b) := by
    simpa using rsplitOnce_singleton (a := a) hb
  have hsplit' : rsplitOnce ['.'] (a' ++ '.' :: b') = some (a', b') := by
    simpa using rsplitOnce_singleton (a := a') hb'
  rw [h, hsplit'] at hsplit
  exact (Prod.mk.inj (Option.some.inj hsplit)).imp Eq.symm Eq.symm

section Isolation

variable [Casing] {env : EnvironmentQid}

theorem labels_of_append {env' : EnvironmentQid} {r r' : List Char}
    (h : r ++ labels env = r' ++ labels env') : labels env = labels env' := by
  have hdot : ∀ s, '.' ∉ normalizeDnsLabel s := fun s hs => (mem_normalizeDnsLabel hs).2 rfl
  simp only [labels, ← append_assoc] at h ⊢
  obtain ⟨h, horg⟩ := append_dot_inj (hdot _) (hdot _) h
  obtain ⟨h, hrepo⟩ := append_dot_inj (hdot _) (hdot _) h
  obtain ⟨-, henv⟩ := append_dot_inj (hdot _) (hdot _) h
  rw [horg, hrepo, henv]

theorem recordKey_inj {kind kind' : RecordKind} {f f' : List Char}
    (h : recordKey kind f = recordKey kind' f') : lowercase f = lowercase f' := by
  have hword : ∀ k : RecordKind, ':' ∉ k.word.toList := by
    intro k
    cases k <;> decide
  have hsplit : ∀ (k : RecordKind) (f : List Char),
      splitOnce [':'] (k.word.toList ++ ':' :: lowercase f) = some (k.word.toList, lowercase f) :=
    fun k f => by simpa using splitOnce_singleton (b := lowercase f) (hword k)
  delta recordKey at h
  rw [append_assoc, append_assoc] at h
  have hrest := hsplit kind f
  rw [append_cancel_left h, hsplit kind' f'] at hrest
  exact (Prod.mk.inj (Option.some.inj hrest)).2.symm

/-- **The labels can be told from the key of a record**, whatever the name of the record. -/
theorem labels_of_key {zone name name' : String} {env' : EnvironmentQid}
    {kind kind' : RecordKind}
    (h : recordKey kind (fqdn zone name env) = recordKey kind' (fqdn zone name' env')) :
    labels env = labels env' := by
  have hlower := recordKey_inj h
  rw [fqdn, fqdn, Casing.lowercase_lowercase, Casing.lowercase_lowercase] at hlower
  obtain ⟨r, r', hr⟩ := Casing.lowercase_plain_end (plain_labels env) (plain_labels env') hlower
  exact labels_of_append hr

omit [Casing] in
theorem ok_of_bind {α β : Type} {x : Except Error α} {f : α → Except Error β} {b : β}
    (h : x >>= f = .ok b) : ∃ a, x = .ok a ∧ f a = .ok b := by
  cases x with
  | error e => cases h
  | ok a => exact ⟨a, rfl, h⟩

variable {zone : String}

variable {env : EnvironmentQid} {id : ResourceId} {inputs : Inputs} {w : Write}
  {resource : Option Resource}

theorem key_of_dispatch (h : dispatch zone env id inputs = .ok (w, resource)) :
    ∃ kind name, w.key = recordKey kind (fqdn zone name env) := by
  obtain ⟨kind, -, h⟩ := ok_of_bind h
  obtain ⟨name, -, h⟩ := ok_of_bind h
  obtain ⟨data, -, h⟩ := ok_of_bind h
  cases h
  exact ⟨kind, name, rfl⟩

theorem key_of_deleteRecord (h : deleteRecord zone env id inputs = .ok (w, resource)) :
    ∃ kind name, w.key = recordKey kind (fqdn zone name env) := by
  obtain ⟨kind, -, h⟩ := ok_of_bind h
  obtain ⟨name, -, h⟩ := ok_of_bind h
  cases h
  exact ⟨kind, name, rfl⟩

/-- Every request writes under a name of its own environment. -/
theorem key_of_handle {r : Request}
    (h : handle zone r = .ok (w, resource)) :
    ∃ env, environmentOf r.deploymentQid = .ok env ∧
      ∃ kind name, w.key = recordKey kind (fqdn zone name env) := by
  cases r with
  | create | update =>
    obtain ⟨env, henv, h⟩ := ok_of_bind h
    exact ⟨env, henv, key_of_dispatch h⟩
  | delete qid id inputs =>
  obtain ⟨env, henv, h⟩ := ok_of_bind h
  exact ⟨env, henv, key_of_deleteRecord h⟩

/-- The labels of the environment a request is made in, if it is made in any. -/
def labelsOf (r : Request) : Option (List Char) :=
  (environmentOf r.deploymentQid).toOption.map labels

theorem step_other {r : Request}
    (h : labelsOf r ≠ some (labels env)) (reply : Reply) (s : Store) (kind : RecordKind)
    (name : String) :
    (step zone s reply r).2 (recordKey kind (fqdn zone name env)) =
      s (recordKey kind (fqdn zone name env)) := by
  rw [step]
  split
  · rfl
  next w resource hhandle =>
  obtain ⟨env', henv', kind', name', hkey⟩ := key_of_handle hhandle
  have hne : recordKey kind (fqdn zone name env) ≠ w.key := by
    rw [hkey]
    intro heq
    refine h ?_
    rw [labelsOf, henv', labels_of_key heq]
    rfl
  cases reply with
  | done cut => exact Write.exec_of_ne hne s
  | error applied msg =>
  cases applied with
  | true => exact Write.exec_of_ne hne s
  | false => rfl

/-- **Environments with other labels do not touch the records of an environment**: however many
records they create, update and delete, and whether or not the store fails. -/
theorem dns_isolation (zone : String) (env : EnvironmentQid) (rs : List (Reply × Request))
    (h : ∀ r ∈ rs, labelsOf r.2 ≠ some (labels env)) (s : Store) (kind : RecordKind)
    (name : String) :
    run zone s rs (recordKey kind (fqdn zone name env)) =
      s (recordKey kind (fqdn zone name env)) := by
  induction rs generalizing s with
  | nil => rfl
  | cons r rs ih =>
  exact (ih (fun r hr => h r (mem_cons_of_mem _ hr)) _).trans
    (step_other (h r mem_cons_self) r.1 s kind name)

/-- **Environments with the same labels do**: whoever deletes or creates a record of one has deleted
or overwritten the record of that name of the other. -/
theorem step_same_labels {env env' : EnvironmentQid} (hlabels : labels env' = labels env)
    {qid : String} (henv : environmentOf qid = .ok env') {id : ResourceId} {kind : RecordKind}
    (hkind : kindOf id = .ok kind) {inputs : Inputs} {name : String}
    (hname : inputs.extractName = .ok name) (s : Store) (cut : Option (ℕ × String)) :
    (step zone s (.done cut) (.delete qid id inputs)).2 (recordKey kind (fqdn zone name env)) =
        none ∧
      ∀ data, inputs.data kind = .ok data →
        (step zone s (.done cut) (.create qid id inputs)).2
          (recordKey kind (fqdn zone name env)) = some data := by
  have hfqdn : fqdn zone name env' = fqdn zone name env := by rw [fqdn, fqdn, hlabels]
  have hdelete : handle zone (.delete qid id inputs) =
      .ok (.del (recordKey kind (fqdn zone name env)), none) := by
    simp [handle, deleteRecord, henv, hkind, hname, hfqdn, bind, Except.bind, pure, Except.pure]
  refine ⟨?_, fun data hdata => ?_⟩
  · simp [step, hdelete, Reply.answer, Write.exec]
  · have hcreate : handle zone (.create qid id inputs) =
        .ok (.set (recordKey kind (fqdn zone name env)) data,
          some ⟨inputs, fqdn zone name env⟩) := by
      simp [handle, dispatch, henv, hkind, hname, hdata, hfqdn, bind, Except.bind, pure,
        Except.pure]
    simp [step, hcreate, Reply.answer, Write.exec]

end Isolation

namespace Zones

/-- The letters of ASCII alone. -/
local instance : Casing where
  lowerOf c := [c.toLower]
  finalSigma _ _ := false
  ascii _ _ := rfl
  stable c d hc hd := by
    obtain rfl := List.mem_singleton.1 hd
    by_cases hupper : c.isUpper = true
    · have hall : ∀ n < 128, (Char.ofNat n).toLower ≠ 'Σ' ∧
          (Char.ofNat n).toLower.toLower = (Char.ofNat n).toLower := by decide +kernel
      have hc := hall c.toNat
        (ascii_of_isAlphanum (by delta Char.isAlphanum Char.isAlpha; rw [hupper]; rfl))
      rw [Char.ofNat_toNat] at hc
      exact ⟨hc.1, congrArg (fun c => [c]) hc.2⟩
    have hsame : c.toLower = c := by
      exact dif_neg fun h => hupper (decide_eq_true h)
    rw [hsame, hsame]
    exact ⟨hc, rfl⟩
  sigma := by decide

/-- Three branches of one repository. -/
def branch (name : String) : EnvironmentQid := ⟨⟨⟨"acme"⟩, ⟨"shop"⟩⟩, ⟨name⟩⟩

def slash : String :=
  "acme/shop::feature/x@00000000000000000000000000000000000000aa.0000000000000001"

def hyphen : String :=
  "acme/shop::feature-x@00000000000000000000000000000000000000bb.0000000000000002"

/-- A record with the same name in each of them. -/
def www : ResourceId := ⟨⟨"eu"⟩, "Std/DNS.ARecord", "www"⟩

def inputs (address : String) : Inputs := ⟨some "www", none, [address], none, [], [], []⟩

def wwwKey (name : String) : List Char := recordKey .a (fqdn "skyr.dev" "www" (branch name))

theorem dns_isolation_main :
    run "skyr.dev" (fun _ => some (.addresses ["10.0.0.3"] 1))
        [(.done none, .create slash www (inputs "10.0.0.1")),
          (.done none, .delete hyphen www (inputs "10.0.0.1"))]
        (wwwKey "main") = some (.addresses ["10.0.0.3"] 1) :=
  dns_isolation "skyr.dev" (branch "main") _ (by decide +kernel) _ .a "www"

/-- A branch called `feature/x` overwrites and deletes the record of a branch called
`feature-x`. -/
theorem same_labels :
    (environmentOf slash).toOption = some (branch "feature/x") ∧
      (environmentOf hyphen).toOption = some (branch "feature-x") ∧
      run "skyr.dev" (fun _ => none) [(.done none, .create hyphen www (inputs "10.0.0.2"))]
        (wwwKey "feature-x") = some (.addresses ["10.0.0.2"] 1) ∧
      run "skyr.dev" (fun _ => none)
        [(.done none, .create hyphen www (inputs "10.0.0.2")),
          (.done none, .create slash www (inputs "10.0.0.1"))]
        (wwwKey "feature-x") = some (.addresses ["10.0.0.1"] 1) ∧
      run "skyr.dev" (fun _ => none)
        [(.done none, .create hyphen www (inputs "10.0.0.2")),
          (.done none, .delete slash www (inputs "10.0.0.1"))]
        (wwwKey "feature-x") = none := by
  decide +kernel

end Zones

end Skyr.Dns
