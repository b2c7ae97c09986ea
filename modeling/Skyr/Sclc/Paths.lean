import Skyr.Sclc.Eval

/-!
# Paths

A path value has a text, the package it belongs to, and the hash of what is there.  There are two
ways to make one.  A path literal is resolved segment by segment, against the root of the package
or the directory of its module (`resolveWithContext`).  The functions of `Std/Path` take the text of
a path apart at its slashes, drop empty segments and `.`, carry out `..`, and put the rest together
again (`normalizeSegments`).

The two agree on what the text of a path looks like as long as segments of literals do: a slash, and
between slashes components that are not empty and not `.` or `..` (`Canonical`).  Such a text comes
out of everything `Std/Path` does, and reading it back gives the same path (`paths_canonical`).
Segments may be quoted, however, and then they may be empty or have slashes in them.  The parts of
such a segment are not looked at, so that a literal may lead out of its package
(`quoted_segment_escapes`).
-/

namespace Skyr.Sclc

open List

/-! ## Packages -/

/-- What is found in a package. -/
inductive PackageEntity
  | file (hash : String)
  | dir (hash : String)

def PackageEntity.hash : PackageEntity → String
  | file h => h
  | dir h => h

/-- Looking up a path, relative to the root of a package. -/
abbrev PackageLookup := String → Except String (Option PackageEntity)

/-- The packages that are registered. -/
abbrev Packages := PackageId → Option PackageLookup

def nullHash : String := ObjId.toString ⟨0⟩

/-- A text without the slash in front. -/
def relative (path : String) : String :=
  match path.toList with
  | '/' :: rest => String.ofList rest
  | _ => path

/-- The hash of what is at a path, if the package is registered; an error if nothing is there. -/
def resolvePathHash (ps : Packages) (resolvedPath : String) (package : PackageId) :
    Except Unit (Option String) :=
  match ps package with
  | none => .ok none
  | some lookup =>
    match lookup (relative resolvedPath) with
    | .ok (some e) => .ok (some e.hash)
    | .ok none | .error _ => .error ()

/-! ## Segments -/

def normalizeStep (out : List String) (s : String) : Option (List String) :=
  if s = "" ∨ s = "." then some out
  else if s = ".." then if out = [] then none else some out.dropLast
  else some (out ++ [s])

/-- Carries out `.` and `..`.  There is no result if `..` leads out of the root. -/
def normalizeSegments (raw : List String) : Option (List String) := raw.foldlM normalizeStep []

def segmentsToPathStr (segs : List String) : String :=
  if segs = [] then "/" else "/" ++ "/".intercalate segs

def splitPathStr (s : String) : List String := (s.toList.splitOn '/').map String.ofList

/-! ## Literals -/

/-- A token of a segment. -/
inductive PathSegmentToken
  | symbol (s : String)
  /-- A text in quotes, with its escapes decoded. -/
  | quoted (s : String)
  | dot

def PathSegmentToken.text : PathSegmentToken → String
  | symbol s => s
  | quoted s => s
  | dot => "."

/-- What follows a slash: at least one token, without anything in between. -/
structure PathLink where
  first : PathSegmentToken
  rest : List PathSegmentToken

def PathLink.value (l : PathLink) : String :=
  (l.first :: l.rest).foldl (fun text t => text ++ t.text) ""

/-- How a path literal begins. -/
inductive PathStart
  | root
  | here
  | up

def PathStart.segments : PathStart → List String
  | root => []
  | here => ["."]
  | up => [".."]

/-- A path literal. -/
structure PathExpr where
  start : PathStart
  links : List PathLink

def PathExpr.segments (e : PathExpr) : List String :=
  e.start.segments ++ e.links.map PathLink.value

/-- One segment of a literal: `.` does nothing, and `..` at the root does nothing either. -/
def resolveStep (components : List String) (segment : String) : List String :=
  if segment = "." then components
  else if segment = ".." then components.dropLast
  else components ++ [segment]

/-- Where a literal begins: in the directory of the module, if its first segment says so. -/
def startComponents (module : ModuleId) (segments : List String) : List String :=
  if segments.head? = some "." ∨ segments.head? = some ".." then module.path.dropLast else []

/-- The text of a literal in a module. -/
def resolveWithContext (module : ModuleId) (segments : List String) : String :=
  "/" ++ "/".intercalate (segments.foldl resolveStep (startComponents module segments))

/-- The value of a literal.  If nothing is there, it has the null hash. -/
def pathValue (ps : Packages) (module : ModuleId) (segments : List String) : PathValue where
  path := resolveWithContext module segments
  package := module.package
  hash :=
    match resolvePathHash ps (resolveWithContext module segments) module.package with
    | .ok (some h) => h
    | .ok none | .error _ => nullHash

/-- The check of a literal when its module is loaded, from some component on: every component but
the last has to be a directory, and the last has to exist. -/
def validateFrom (lookup : PackageLookup) (before : List String) : List String → Bool
  | [] => true
  | c :: rest =>
    match lookup ("/".intercalate (before ++ [c])) with
    | .ok none => false
    | .ok (some (.file _)) => rest.isEmpty
    | .ok (some (.dir _)) => validateFrom lookup (before ++ [c]) rest
    | .error _ => true

def validatePath (lookup : PackageLookup) (resolved : String) : Bool :=
  if relative resolved = "" then true
  else validateFrom lookup [] (splitPathStr (relative resolved))

/-! ## `Std/Path` -/

/-- How a function of `Std/Path` ends. -/
inductive LookupOutcome
  | found (p : PathValue)
  | missing (path : String)
  | root
  | invalid

def lookupPath (ps : Packages) (path : String) (package : PackageId) : LookupOutcome :=
  match resolvePathHash ps path package with
  | .ok (some h) => .found ⟨path, package, h⟩
  | .ok none => .found ⟨path, package, nullHash⟩
  | .error _ => .missing path

namespace PathValue

/-- There is no result if the segment leads out of the root. -/
def join (ps : Packages) (base : PathValue) (segment : String) : Option LookupOutcome :=
  (normalizeSegments (splitPathStr base.path ++ splitPathStr segment)).map fun segs =>
    lookupPath ps (segmentsToPathStr segs) base.package

def segments (p : PathValue) : List String := (splitPathStr p.path).filter (· ≠ "")

def parent (ps : Packages) (input : PathValue) : LookupOutcome :=
  if input.segments = [] then .root
  else lookupPath ps (segmentsToPathStr input.segments.dropLast) input.package

def fromStr (ps : Packages) (anchor : PathValue) (s : String) : LookupOutcome :=
  if s.toList.head? = some '/' then
    match normalizeSegments (splitPathStr s) with
    | some segs => lookupPath ps (segmentsToPathStr segs) anchor.package
    | none => .invalid
  else .invalid

end PathValue

/-! ## Components -/

/-- What may stand between the slashes of a path. -/
structure Component (s : String) : Prop where
  ne_empty : s ≠ ""
  ne_dot : s ≠ "."
  ne_dotDot : s ≠ ".."
  no_slash : '/' ∉ s.toList

/-- An absolute path, all of whose components are proper ones. -/
def Canonical (path : String) : Prop :=
  ∃ segs, (∀ s ∈ segs, Component s) ∧ path = segmentsToPathStr segs

variable {s : String}

theorem Component.normalizeStep_eq (h : Component s) (out : List String) :
    normalizeStep out s = some (out ++ [s]) := by
  rw [normalizeStep, if_neg (not_or.2 ⟨h.ne_empty, h.ne_dot⟩), if_neg h.ne_dotDot]

variable {segs : List String}

theorem foldlM_normalizeStep (h : ∀ s ∈ segs, Component s)
    (out : List String) : segs.foldlM normalizeStep out = some (out ++ segs) := by
  induction segs generalizing out with
  | nil => rw [append_nil]; rfl
  | cons s segs ih =>
  obtain ⟨hs, hsegs⟩ := forall_mem_cons.1 h
  rw [foldlM_cons, hs.normalizeStep_eq]
  exact (ih hsegs _).trans (by rw [append_assoc]; rfl)

/-- Normalising keeps components and makes nothing else of texts without slashes. -/
theorem component_of_normalizeStep {out out' : List String}
    (hs : '/' ∉ s.toList) (hout : ∀ c ∈ out, Component c)
    (h : normalizeStep out s = some out') : ∀ c ∈ out', Component c := by
  rw [normalizeStep] at h
  split at h
  · cases h
    exact hout
  rename_i hplain
  split at h
  · split at h
    · exact nomatch h
    · cases h
      exact fun c hc => hout c (mem_of_mem_dropLast hc)
  rename_i hup
  cases h
  intro c hc
  obtain hc | hc := mem_append.1 hc
  · exact hout c hc
  · rw [mem_singleton.1 hc]
    exact ⟨fun h => hplain (.inl h), fun h => hplain (.inr h), hup, hs⟩

theorem component_of_foldlM {raw out out' : List String} (hraw : ∀ s ∈ raw, '/' ∉ s.toList)
    (hout : ∀ c ∈ out, Component c) (h : raw.foldlM normalizeStep out = some out') :
    ∀ c ∈ out', Component c := by
  induction raw generalizing out with
  | nil =>
    cases h
    exact hout
  | cons s raw ih =>
  obtain ⟨hs, hraw⟩ := forall_mem_cons.1 hraw
  rw [foldlM_cons] at h
  obtain ⟨mid, hmid, h⟩ := Option.bind_eq_some_iff.1 h
  exact ih hraw (component_of_normalizeStep hs hout hmid) h

theorem component_of_normalizeSegments {raw segs : List String}
    (hraw : ∀ s ∈ raw, '/' ∉ s.toList) (h : normalizeSegments raw = some segs) :
    ∀ c ∈ segs, Component c :=
  component_of_foldlM hraw (by simp) h

/-! ## Texts -/

theorem notMem_of_mem_splitOn {α : Type} [BEq α] [LawfulBEq α] {x : α} {s p : List α}
    (hp : p ∈ s.splitOn x) : x ∉ p := by
  induction s generalizing p with
  | nil =>
    rw [mem_singleton.1 hp]
    exact not_mem_nil
  | cons c s ih =>
  rw [splitOn_cons_eq_if_modifyHead] at hp
  split at hp
  · obtain rfl | hp := mem_cons.1 hp
    · exact not_mem_nil
    · exact ih hp
  rename_i hc
  cases hs : s.splitOn x with
  | nil => exact absurd hs (splitOn_ne_nil x s)
  | cons q qs =>
  rw [hs] at hp
  rw [hs] at ih
  obtain rfl | hp := mem_cons.1 hp
  · intro hx
    obtain rfl | hx := mem_cons.1 hx
    · exact hc (BEq.refl x)
    · exact ih mem_cons_self hx
  · exact ih (mem_cons_of_mem _ hp)

theorem no_slash_of_mem_splitPathStr {text : String} (hs : s ∈ splitPathStr text) :
    '/' ∉ s.toList := by
  obtain ⟨p, hp, rfl⟩ := mem_map.1 hs
  rw [String.toList_ofList]
  exact notMem_of_mem_splitOn hp

theorem splitPathStr_root : splitPathStr "/" = ["", ""] := by decide +kernel

theorem splitPathStr_slash (h : ∀ s ∈ segs, Component s) (hne : segs ≠ []) :
    splitPathStr ("/" ++ "/".intercalate segs) = "" :: segs := by
  have hslash : ∀ l ∈ segs.map String.toList, '/' ∉ l := by
    intro l hl
    obtain ⟨s, hs, rfl⟩ := mem_map.1 hl
    exact (h s hs).no_slash
  have htext : ("/" ++ "/".intercalate segs).toList =
      [] ++ '/' :: ['/'].intercalate (segs.map String.toList) := by
    rw [String.toList_append, String.toList_intercalate]
    rfl
  rw [splitPathStr, htext, splitOn_append_cons_self_of_not_mem not_mem_nil,
    splitOn_intercalate _ hslash (by simpa using hne), map_cons, map_map]
  congr 1
  rw [show String.ofList ∘ String.toList = id from funext fun _ => String.ofList_toList]
  exact map_id segs

/-- **The text of a canonical path is read back.** -/
theorem normalizeSegments_text (h : ∀ s ∈ segs, Component s) :
    normalizeSegments (splitPathStr (segmentsToPathStr segs)) = some segs := by
  rw [segmentsToPathStr]
  split
  · rename_i hnil
    rw [hnil, splitPathStr_root]
    rfl
  rename_i hne
  rw [splitPathStr_slash h hne]
  exact foldlM_normalizeStep h []

theorem segments_text (h : ∀ s ∈ segs, Component s) :
    (splitPathStr (segmentsToPathStr segs)).filter (· ≠ "") = segs := by
  rw [segmentsToPathStr]
  split
  · rename_i hnil
    rw [hnil, splitPathStr_root]
    rfl
  rename_i hne
  rw [splitPathStr_slash h hne, filter_cons_of_neg (by simp)]
  exact filter_eq_self.2 fun s hs => decide_eq_true (h s hs).ne_empty

theorem head_segmentsToPathStr (segs : List String) :
    (segmentsToPathStr segs).toList.head? = some '/' := by
  rw [segmentsToPathStr]
  split
  · rfl
  · rw [String.toList_append]
    rfl

theorem relative_slash (s : String) : relative ("/" ++ s) = s := by
  have h : ("/" ++ s).toList = '/' :: s.toList := by
    rw [String.toList_append]
    rfl
  rw [relative, h]
  exact String.ofList_toList

theorem relative_segmentsToPathStr (segs : List String) :
    relative (segmentsToPathStr segs) = "/".intercalate segs := by
  rw [segmentsToPathStr]
  split
  · rename_i hnil
    rw [hnil]
    exact relative_slash ""
  · exact relative_slash _

/-! ## Regular literals -/

/-- The segments of a literal are not empty and have no slashes.  Those without quotes are always
like this. -/
def PathExpr.Regular (e : PathExpr) : Prop :=
  ∀ l ∈ e.links, l.value ≠ "" ∧ '/' ∉ l.value.toList

theorem component_of_resolveStep {components : List String}
    (hs : s ≠ "" ∧ '/' ∉ s.toList) (h : ∀ c ∈ components, Component c) :
    ∀ c ∈ resolveStep components s, Component c := by
  rw [resolveStep]
  split
  · exact h
  split
  · exact fun c hc => h c (mem_of_mem_dropLast hc)
  rename_i hdot hup
  intro c hc
  obtain hc | hc := mem_append.1 hc
  · exact h c hc
  · rw [mem_singleton.1 hc]
    exact ⟨hs.1, hdot, hup, hs.2⟩

theorem component_of_foldl {segments components : List String}
    (hs : ∀ s ∈ segments, s ≠ "" ∧ '/' ∉ s.toList) (h : ∀ c ∈ components, Component c) :
    ∀ c ∈ segments.foldl resolveStep components, Component c := by
  induction segments generalizing components with
  | nil => exact h
  | cons s segments ih =>
  obtain ⟨hs, hsegments⟩ := forall_mem_cons.1 hs
  exact ih hsegments (component_of_resolveStep hs h)

theorem PathStart.mem_segments (p : PathStart) : ∀ s ∈ p.segments, s ≠ "" ∧ '/' ∉ s.toList := by
  cases p <;> decide

variable {e : PathExpr}

theorem PathExpr.Regular.segments (h : e.Regular) : ∀ s ∈ e.segments, s ≠ "" ∧ '/' ∉ s.toList := by
  intro s hs
  obtain hs | hs := mem_append.1 hs
  · exact e.start.mem_segments s hs
  · obtain ⟨l, hl, rfl⟩ := mem_map.1 hs
    exact h l hl

theorem canonical_resolveWithContext {module : ModuleId}
    (hmodule : ∀ s ∈ module.path, Component s) (he : e.Regular) :
    Canonical (resolveWithContext module e.segments) := by
  have hstart : ∀ c ∈ startComponents module e.segments, Component c := by
    rw [startComponents]
    split
    · exact fun c hc => hmodule c (mem_of_mem_dropLast hc)
    · simp
  refine ⟨_, component_of_foldl he.segments hstart, ?_⟩
  rw [resolveWithContext, segmentsToPathStr]
  split
  · rename_i hnil
    rw [hnil]
    rfl
  · rfl

/-! ## Chains -/

/-- The paths a program makes from literals with `join`, `parent` and `fromStr`, where literals are
restricted by `admitted`. -/
inductive Made (ps : Packages) (admitted : ModuleId → PathExpr → Prop) : PathValue → Prop
  | literal {module : ModuleId} {e : PathExpr} (h : admitted module e) :
    Made ps admitted (pathValue ps module e.segments)
  | join {base q : PathValue} (hbase : Made ps admitted base) {segment : String}
    (h : base.join ps segment = some (.found q)) : Made ps admitted q
  | parent {p q : PathValue} (hp : Made ps admitted p) (h : p.parent ps = .found q) :
    Made ps admitted q
  | fromStr {anchor q : PathValue} (hanchor : Made ps admitted anchor) {s : String}
    (h : anchor.fromStr ps s = .found q) : Made ps admitted q

/-- A path that is what looking it up gives. -/
structure PathValue.Settled (ps : Packages) (p : PathValue) : Prop where
  canonical : Canonical p.path
  found : lookupPath ps p.path p.package = .found p

variable {ps : Packages}

/-- What is found at a canonical path is settled. -/
theorem settled_of_lookupPath {package : PackageId}
    {q : PathValue} (hsegs : ∀ s ∈ segs, Component s)
    (h : lookupPath ps (segmentsToPathStr segs) package = .found q) : q.Settled ps := by
  have hq : q.path = segmentsToPathStr segs ∧ q.package = package := by
    rw [lookupPath] at h
    split at h
    · cases h
      exact ⟨rfl, rfl⟩
    · cases h
      exact ⟨rfl, rfl⟩
    · exact nomatch h
  refine ⟨⟨segs, hsegs, hq.1⟩, ?_⟩
  rw [hq.1, hq.2]
  exact h

/-- A literal that may be written: its module has a proper name, its segments are regular, and the
check when its module was loaded found something there. -/
structure PathExpr.Sound (ps : Packages) (module : ModuleId) (e : PathExpr) : Prop where
  ofModule : ∀ s ∈ module.path, Component s
  regular : e.Regular
  exists_ : resolvePathHash ps (resolveWithContext module e.segments) module.package ≠ .error ()

theorem PathExpr.Sound.settled {module : ModuleId}
    (h : e.Sound ps module) : (pathValue ps module e.segments).Settled ps := by
  refine ⟨canonical_resolveWithContext h.ofModule h.regular, ?_⟩
  have hexists := h.exists_
  rw [lookupPath, pathValue]
  cases hr : resolvePathHash ps (resolveWithContext module e.segments) module.package with
  | error u => exact absurd hr hexists
  | ok o => cases o <;> rfl

theorem Made.settled {q : PathValue}
    (h : Made ps (fun module e => e.Sound ps module) q) : q.Settled ps := by
  induction h with
  | literal h => exact h.settled
  | join _ h ih =>
    obtain ⟨segs, hsegs, h⟩ := Option.map_eq_some_iff.1 h
    refine settled_of_lookupPath (component_of_normalizeSegments (fun s hs => ?_) hsegs) h
    exact (mem_append.1 hs).elim no_slash_of_mem_splitPathStr no_slash_of_mem_splitPathStr
  | parent _ h ih =>
    obtain ⟨segs, hsegs, htext⟩ := ih.canonical
    rw [PathValue.parent] at h
    split at h
    · exact nomatch h
    · rw [PathValue.segments, htext, segments_text hsegs] at h
      exact settled_of_lookupPath (fun s hs => hsegs s (mem_of_mem_dropLast hs)) h
  | fromStr _ h ih =>
  rw [PathValue.fromStr] at h
  split at h
  · split at h
    · rename_i segs hsegs
      refine settled_of_lookupPath (component_of_normalizeSegments (fun s hs => ?_) hsegs) h
      exact no_slash_of_mem_splitPathStr hs
    · exact nomatch h
  · exact nomatch h

/-- **Paths stay in their package.**  The text of a path made from sound literals is a slash and
proper components, what is looked up for it are these components, and reading the text back gives
the same path. -/
theorem paths_canonical (ps : Packages) (q : PathValue)
    (hq : Made ps (fun module e => e.Sound ps module) q) :
    (∃ segs, (∀ s ∈ segs, Component s) ∧ q.path = segmentsToPathStr segs ∧
        relative q.path = "/".intercalate segs) ∧
      q.fromStr ps q.path = .found q := by
  obtain ⟨⟨segs, hsegs, htext⟩, hfound⟩ := hq.settled
  constructor
  · refine ⟨segs, hsegs, htext, ?_⟩
    rw [htext, relative_segmentsToPathStr]
  rw [PathValue.fromStr, htext, if_pos (head_segmentsToPathStr segs), normalizeSegments_text hsegs]
  rw [htext] at hfound
  exact hfound

/-! ## Examples -/

/-- A module at the root of a package. -/
def mainModule : ModuleId := ⟨["Acme", "Shop"], ["Main"]⟩

/-- The literal `./assets/logo.png`. -/
def logo : PathExpr :=
  ⟨.here, [⟨.symbol "assets", []⟩, ⟨.symbol "logo", [.dot, .symbol "png"]⟩]⟩

/-- A package with a file that the literals of the examples lead to. -/
def assets : Packages := fun _ => some fun path =>
  .ok (if path = "assets/logo.png" then some (.file "f1")
    else if path = "assets" then some (.dir "d1") else none)

theorem logo_settled :
    (pathValue assets mainModule logo.segments).fromStr assets "/assets/logo.png" =
      .found ⟨"/assets/logo.png", ["Acme", "Shop"], "f1"⟩ := by
  have hmodule : ∀ s ∈ mainModule.path, Component s := by
    intro s hs
    rw [mem_singleton.1 hs]
    exact ⟨by decide, by decide, by decide, by decide⟩
  have hregular : logo.Regular := by
    intro l hl
    simp only [logo, mem_cons, not_mem_nil, or_false] at hl
    obtain rfl | rfl := hl <;> decide +kernel
  have hvalue : pathValue assets mainModule logo.segments =
      ⟨"/assets/logo.png", ["Acme", "Shop"], "f1"⟩ := by decide +kernel
  have h := (paths_canonical assets _ (.literal ⟨hmodule, hregular, by decide +kernel⟩)).2
  rw [hvalue] at h ⊢
  exact h

/-- The literal `/"../secret"`. -/
def secret : PathExpr := ⟨.root, [⟨.quoted "../secret", []⟩]⟩

/-- A directory of a file system, next to which there is a file. -/
def checkout : PackageLookup := fun path =>
  .ok (if path = ".." then some (.dir "d0")
    else if path = "../secret" then some (.file "f0") else none)

/-- **A quoted segment may lead out of the package.**  The literal passes the check when its module
is loaded, its value names a file that is not in the package, and reading its text back fails. -/
theorem quoted_segment_escapes :
    let q := pathValue (fun _ => some checkout) mainModule secret.segments
    validatePath checkout q.path = true ∧ q = ⟨"/../secret", ["Acme", "Shop"], "f0"⟩ ∧
      ¬ Canonical q.path ∧ q.fromStr (fun _ => some checkout) q.path = .invalid := by
  have hq : pathValue (fun _ => some checkout) mainModule secret.segments =
      ⟨"/../secret", ["Acme", "Shop"], "f0"⟩ := by decide +kernel
  rw [hq]
  refine ⟨by decide +kernel, rfl, ?_, ?_⟩
  · rintro ⟨segs, hsegs, h⟩
    have hnormal := normalizeSegments_text hsegs
    have hnone : normalizeSegments (splitPathStr "/../secret") = none := by decide +kernel
    rw [← h, hnone] at hnormal
    exact nomatch hnormal
  · with_unfolding_all rfl

end Skyr.Sclc
