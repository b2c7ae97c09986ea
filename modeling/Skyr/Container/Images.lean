import Mathlib.Data.List.DropRight
import Skyr.Dns
import Skyr.Ids.RoundTrip

/-!
# Image names

An image is pushed under a path of four components: a few digits of a hash, and the names of the
organization, the repository and the image in kebab case.  A registry takes components made of words
of lowercase letters and digits, with single hyphens between them.

What the conversion has written is at any time nothing, or a component, or a component and a hyphen
(`Written`).  It stays nothing as long as no letter or digit of ASCII has been read, so a name
without any, such as the organization `_`, gives an empty component (`Underscore.empty_component`);
only such names spoil the path (`qualify_components`).
-/

namespace Skyr.Container

/-- What SHA-1 gives. -/
abbrev Digest := Vector UInt8 20

open List

/-! ## The conversion -/

/-- How many hexadecimal digits of the hash stand in front. -/
def hashPrefixLen : ℕ := 8

def pushSeparator (out : List Char) : List Char :=
  if out ≠ [] ∧ out.getLast? ≠ some '-' then out ++ ['-'] else out

/-- A word starts at a capital `c` between these two. -/
def isBoundary (prev next : Option Char) : Bool :=
  match prev with
  | none => false
  | some p =>
    if p.isLower || p.isDigit then true
    else if p.isUpper then next.any Char.isLower
    else false

/-- A turn of the loop: what is written after `c`. -/
def kebabStep (prev : Option Char) (c : Char) (next : Option Char) (out : List Char) : List Char :=
  if c = '_' ∨ c = '-' ∨ c = ' ' ∨ c = '.' then pushSeparator out
  else if ¬c.isAlphanum then out
  else if c.isUpper then
    (if isBoundary prev next then pushSeparator out else out) ++ [c.toLower]
  else out ++ [c]

/-- The loop over the rest of a name. -/
def kebabFrom : Option Char → List Char → List Char → List Char
  | _, [], out => out
  | prev, c :: cs, out => kebabFrom (some c) cs (kebabStep prev c cs.head? out)

def toKebab (s : String) : List Char :=
  (kebabFrom none s.toList []).rdropWhile (· == '-')

/-- The digits in front. -/
def hashPrefix (digest : Digest) : List Char :=
  ((digest.toList.take ((hashPrefixLen + 1) / 2)).flatMap fun byte => hexChars 2 byte.toNat).take
    hashPrefixLen

/-- The path of an image; `sha1` is the hash function. -/
def qualify (sha1 : String → Digest) (org repo name : String) : String :=
  String.ofList (['/'].intercalate [hashPrefix (sha1 s!"{org}/{repo}/{name}"), toKebab org,
    toKebab repo, toKebab name])

/-! ## Components -/

/-- A letter of a word. -/
def isWordChar (c : Char) : Bool := c.isLower || c.isDigit

def IsWord (w : List Char) : Prop := w ≠ [] ∧ ∀ c ∈ w, isWordChar c

/-- A component that a registry takes: words with single hyphens between them. -/
inductive IsComponent : List Char → Prop
  | word {w : List Char} : IsWord w → IsComponent w
  | hyphen {s w : List Char} : IsComponent s → IsWord w → IsComponent (s ++ '-' :: w)

def hasAlphanum (s : String) : Bool := s.toList.any Char.isAlphanum

variable {s w out : List Char} {c : Char}

theorem ne_of_isWordChar (h : isWordChar c) : c ≠ '-' ∧ c ≠ '/' := by
  constructor <;> (rintro rfl; exact absurd h (by decide))

theorem isWord_concat (h : ∀ d ∈ w, isWordChar d) (hc : isWordChar c) : IsWord (w ++ [c]) :=
  ⟨by simp, forall_mem_append.2 ⟨h, forall_mem_singleton.2 hc⟩⟩

namespace IsComponent

theorem ne_nil (h : IsComponent s) : s ≠ [] := by
  cases h with
  | word hw => exact hw.1
  | hyphen => simp

theorem push (h : IsComponent s) (hc : isWordChar c) : IsComponent (s ++ [c]) := by
  cases h with
  | word hw => exact .word (isWord_concat hw.2 hc)
  | hyphen hs hw =>
  rw [append_assoc]
  exact .hyphen hs (isWord_concat hw.2 hc)

theorem notMem (h : IsComponent s) : '/' ∉ s := by
  induction h with
  | word hw => exact fun hmem => (ne_of_isWordChar (hw.2 _ hmem)).2 rfl
  | @hyphen s w _ hw ih =>
  have hword : '/' ∉ w := fun hmem => (ne_of_isWordChar (hw.2 _ hmem)).2 rfl
  simp [ih, hword]

/-- There is no hyphen to be trimmed. -/
theorem trim (h : IsComponent s) : s.rdropWhile (· == '-') = s := by
  rw [rdropWhile_eq_self_iff]
  intro hne heq
  have hlast : ∀ w (hne : w ≠ []), IsWord w → w.getLast hne ≠ '-' :=
    fun w hne hw => (ne_of_isWordChar (hw.2 _ (getLast_mem hne))).1
  cases h with
  | word hw => exact hlast _ hne hw (beq_iff_eq.1 heq)
  | hyphen _ hw =>
  rw [getLast_append_of_ne_nil _ (cons_ne_nil _ _), getLast_cons hw.1] at heq
  exact hlast _ hw.1 hw (beq_iff_eq.1 heq)

end IsComponent

theorem isComponent_hashPrefix (digest : Digest) : IsComponent (hashPrefix digest) := by
  refine .word ⟨ne_nil_of_length_pos ?_, fun c hc => ?_⟩
  · simp [hashPrefix, hashPrefixLen, length_flatMap, length_hexChars, map_const']
  obtain ⟨byte, -, hc⟩ := mem_flatMap.1 (mem_of_mem_take hc)
  have hhex := all_isHexLower_hexChars _ _ c hc
  delta isWordChar Char.isLower
  simp only [isHexLower, Bool.or_eq_true, Bool.and_eq_true, decide_eq_true_eq] at hhex ⊢
  exact hhex.symm.imp_left fun h => ⟨h.1, UInt32.le_trans h.2 (by decide)⟩

/-! ## The loop -/

/-- What the loop may have written, after it has read a letter or digit of ASCII or before. -/
inductive Written : Bool → List Char → Prop
  | nothing : Written false []
  | component {s : List Char} : IsComponent s → Written true s
  | hyphen {s : List Char} : IsComponent s → Written true (s ++ ['-'])

theorem isWordChar_toLower (h : c.isAlphanum = true) : isWordChar c.toLower := by
  have hall : ∀ n < 128, (Char.ofNat n).isAlphanum = true → isWordChar (Char.ofNat n).toLower := by
    decide +kernel
  have hc := hall c.toNat (Dns.ascii_of_isAlphanum h)
  rw [Char.ofNat_toNat] at hc
  exact hc h

namespace Written

variable {read : Bool}

theorem push (h : Written read out) (hc : isWordChar c) : Written true (out ++ [c]) := by
  refine .component ?_
  cases h with
  | nothing => exact .word (isWord_concat (by simp) hc)
  | component hs => exact hs.push hc
  | hyphen hs =>
  rw [append_assoc]
  exact .hyphen hs (isWord_concat (w := []) (by simp) hc)

theorem pushSeparator (h : Written read out) : Written read (pushSeparator out) := by
  rw [Container.pushSeparator]
  split
  · rename_i hcond
    cases h with
    | nothing => exact absurd rfl hcond.1
    | component hs => exact .hyphen hs
    | hyphen hs => exact absurd getLast?_concat hcond.2
  · exact h

theorem kebabStep (h : Written read out) (prev : Option Char) (c : Char) (next : Option Char) :
    Written (read || c.isAlphanum) (kebabStep prev c next out) := by
  rw [Container.kebabStep]
  split
  · rename_i hsep
    have hc : c.isAlphanum = false := by rcases hsep with rfl | rfl | rfl | rfl <;> decide
    rw [hc, Bool.or_false]
    exact h.pushSeparator
  split
  · rename_i hc
    rw [Bool.eq_false_iff.2 hc, Bool.or_false]
    exact h
  rename_i hc
  have hc := not_not.1 hc
  rw [hc, Bool.or_true]
  split
  · have hlower := isWordChar_toLower hc
    split
    · exact h.pushSeparator.push hlower
    · exact h.push hlower
  rename_i hupper
  change (c.isUpper || c.isLower || c.isDigit) = true at hc
  rw [Bool.eq_false_iff.2 hupper] at hc
  exact h.push hc

theorem kebabFrom (h : Written read out) (prev : Option Char) (s : List Char) :
    Written (read || s.any Char.isAlphanum) (kebabFrom prev s out) := by
  induction s generalizing prev out read with
  | nil => rwa [any_nil, Bool.or_false]
  | cons c s ih =>
  rw [any_cons, ← Bool.or_assoc]
  exact ih (h.kebabStep prev c s.head?) (some c)

end Written

/-- A name becomes a component if it has a letter or a digit, and nothing if it has none. -/
theorem toKebab_spec (s : String) :
    hasAlphanum s = true ∧ IsComponent (toKebab s) ∨ hasAlphanum s = false ∧ toKebab s = [] := by
  have hwritten := Written.nothing.kebabFrom none s.toList
  rw [Bool.false_or] at hwritten
  rw [hasAlphanum, toKebab]
  generalize s.toList.any Char.isAlphanum = read, kebabFrom none s.toList [] = out at hwritten ⊢
  cases hwritten with
  | nothing => exact .inr ⟨rfl, rfl⟩
  | component hs => exact .inl ⟨rfl, hs.trim.symm ▸ hs⟩
  | hyphen hs =>
  rw [rdropWhile_concat_pos _ _ _ rfl, hs.trim]
  exact .inl ⟨rfl, hs⟩

theorem isComponent_toKebab {s : String} : IsComponent (toKebab s) ↔ hasAlphanum s = true := by
  rcases toKebab_spec s with ⟨h, hs⟩ | ⟨h, hs⟩ <;> rw [h]
  · exact iff_of_true hs rfl
  · exact iff_of_false (fun hs' => hs'.ne_nil hs) nofun

theorem splitOn_qualify (sha1 : String → Digest) (org repo name : String) :
    (qualify sha1 org repo name).toList.splitOn '/' =
      [hashPrefix (sha1 s!"{org}/{repo}/{name}"), toKebab org, toKebab repo, toKebab name] := by
  have hslash : ∀ s, '/' ∉ toKebab s := fun s => by
    rcases toKebab_spec s with ⟨-, hs⟩ | ⟨-, hs⟩
    · exact hs.notMem
    · simp [hs]
  rw [qualify, String.toList_ofList, splitOn_intercalate '/' ?_ (cons_ne_nil _ _)]
  simp [(isComponent_hashPrefix _).notMem, hslash]

/-- **The path of an image is one a registry takes exactly if the names of the organization, the
repository and the image have each a letter or a digit of ASCII.** -/
theorem qualify_components (sha1 : String → Digest) (org repo name : String) :
    (∀ part ∈ (qualify sha1 org repo name).toList.splitOn '/', IsComponent part) ↔
      hasAlphanum org ∧ hasAlphanum repo ∧ hasAlphanum name := by
  rw [splitOn_qualify]
  simp [isComponent_hashPrefix, isComponent_toKebab]

/-- The organization `_`, whose name is accepted. -/
theorem Underscore.empty_component :
    ¬∃ sha1 : String → Digest, ∀ (org : OrgId) (repo : RepoId) (name : String),
      org.Parsed → repo.Parsed →
        ∀ part ∈ (qualify sha1 org.str repo.str name).toList.splitOn '/', IsComponent part := by
  rintro ⟨sha1, h⟩
  have hpath := h ⟨"_"⟩ ⟨"Web"⟩ "server" ⟨['_'], rfl⟩ ⟨['W', 'e', 'b'], rfl⟩
  rw [splitOn_qualify] at hpath
  have hempty : toKebab "_" = [] := by decide
  exact (hpath _ (mem_cons_of_mem _ mem_cons_self)).ne_nil hempty

end Skyr.Container
