import Skyr.Lsp

/-!
# String literals

A string is printed with its quotes, braces, backslashes and line breaks escaped.  The lexer reads a
literal cluster by cluster up to a brace or quote that is not escaped, and the parser decodes the
text in between.  What was printed is read back, as long as no character of the source joins a
delimiter in a cluster (`consumeString_encodeString`).
-/

namespace Skyr.Sclc

open Skyr.Lsp (Grapheme)

/-- What a character after a backslash stands for.  An escape that is not known stays. -/
def decodeEscape : Char → List Char
  | 'n' => ['\n']
  | 'r' => ['\r']
  | 't' => ['\t']
  | '\\' => ['\\']
  | '\x7b' => ['\x7b']
  | '"' => ['"']
  | other => ['\\', other]

def decodeString : List Char → List Char
  | [] => []
  | c :: cs =>
    if c ≠ '\\' then c :: decodeString cs
    else
      match cs with
      | [] => ['\\']
      | d :: cs => decodeEscape d ++ decodeString cs

def encodeChar : Char → List Char
  | '\n' => ['\\', 'n']
  | '\r' => ['\\', 'r']
  | '\t' => ['\\', 't']
  | '\\' => ['\\', '\\']
  | '\x7b' => ['\\', '\x7b']
  | '"' => ['\\', '"']
  | other => [other]

def encodeString (s : List Char) : List Char := s.flatMap encodeChar

inductive StringToken
  | strBegin (raw : List Char)
  | strCont (raw : List Char)
  | strEnd (raw : List Char)
  | strSimple (raw : List Char)
  | unknown (text : List Char)

/-- Read on to a brace or quote that is not escaped: the text before it, which of the two it is, and
what follows. -/
def consumeString (escaped : Bool) (raw : List Char) :
    List Grapheme → Option (List Char × Char × List Grapheme)
  | [] => none
  | g :: gs =>
    if escaped then consumeString false (raw ++ g.chars) gs
    else if g.chars = ['\\'] then consumeString true (raw ++ g.chars) gs
    else if g.chars = ['\x7b'] then some (raw, '\x7b', gs)
    else if g.chars = ['"'] then some (raw, '"', gs)
    else consumeString false (raw ++ g.chars) gs

def consumeStringFromQuote (gs : List Grapheme) : StringToken × List Grapheme :=
  match consumeString false [] gs with
  | none => (.unknown ['"'], [])
  | some (raw, d, gs) => (if d = '"' then .strSimple raw else .strBegin raw, gs)

def consumeStringAfterInterp (gs : List Grapheme) : StringToken × List Grapheme :=
  match consumeString false [] gs with
  | none => (.unknown ['\x7d'], [])
  | some (raw, d, gs) => (if d = '"' then .strEnd raw else .strCont raw, gs)

/-! ### What was printed is read back -/

theorem decodeString_encodeChar (c : Char) (cs : List Char) :
    decodeString (encodeChar c ++ cs) = c :: decodeString cs := by
  unfold encodeChar
  split
  all_goals try rfl
  next hc => exact (decodeString.eq_def _).trans (if_pos ‹¬c = '\\'›)

theorem decodeString_encodeString (s : List Char) : decodeString (encodeString s) = s := by
  induction s with
  | nil => rfl
  | cons c s ih => exact (decodeString_encodeChar c _).trans (congrArg _ ih)

/-- The lexer, if every character were a cluster. -/
def scan : Bool → List Char → List Char → Option (List Char × Char × List Char)
  | _, _, [] => none
  | true, raw, c :: cs => scan false (raw ++ [c]) cs
  | false, raw, c :: cs =>
    if c = '\x7b' ∨ c = '"' then some (raw, c, cs) else scan (c = '\\') (raw ++ [c]) cs

theorem scan_encodeString {d : Char} (hd : d = '\x7b' ∨ d = '"') (s rest raw : List Char) :
    scan false raw (encodeString s ++ d :: rest) = some (raw ++ encodeString s, d, rest) := by
  induction s generalizing raw with
  | nil => simp [encodeString, scan, hd]
  | cons c s ih =>
    have hcons : encodeString (c :: s) = encodeChar c ++ encodeString s := rfl
    rw [hcons, List.append_assoc, ← List.append_assoc raw, ← ih]
    unfold encodeChar
    split
    all_goals simp_all [scan]

def isDelimiter (c : Char) : Bool := c = '\\' || c = '\x7b' || c = '"'

def Separate (gs : List Grapheme) : Prop := ∀ g ∈ gs, ∀ c ∈ g.chars, isDelimiter c → g.chars = [c]

def text (gs : List Grapheme) : List Char := gs.flatMap Grapheme.chars

theorem scan_append {l : List Char} (hl : ∀ c ∈ l, isDelimiter c = false) (raw cs : List Char) :
    scan false raw (l ++ cs) = scan false (raw ++ l) cs := by
  induction l generalizing raw with
  | nil => simp
  | cons c l ih =>
    have hc := hl c (by simp)
    have ih := ih (fun d hd => hl d (by simp [hd])) (raw ++ [c])
    simp_all [scan, isDelimiter]

theorem consumeString_eq_scan {gs : List Grapheme} (hgs : Separate gs) (escaped : Bool)
    (raw : List Char) :
    (consumeString escaped raw gs).map (fun r => (r.1, r.2.1, text r.2.2)) =
      scan escaped raw (text gs) := by
  induction gs generalizing escaped raw with
  | nil => cases escaped <;> rfl
  | cons g gs ih =>
    have ih := ih fun g' hg' => hgs g' (by simp [hg'])
    have htext : text (g :: gs) = g.chars ++ text gs := rfl
    by_cases hd : ∃ c ∈ g.chars, isDelimiter c
    · obtain ⟨c, hc, hdel⟩ := hd
      have hchars := hgs g (by simp) c hc hdel
      cases escaped with
      | true => simp [consumeString, htext, hchars, scan, ih]
      | false =>
        obtain (rfl | rfl) | rfl : (c = '\\' ∨ c = '\x7b') ∨ c = '"' := by
          simpa [isDelimiter] using hdel
        all_goals simp [consumeString, htext, hchars, scan, ih]
    · have hplain : ∀ c ∈ g.chars, isDelimiter c = false := by simpa using hd
      have hne c (hc : isDelimiter c = true) : g.chars ≠ [c] := fun hchars => by
        simp [hplain c (by simp [hchars])] at hc
      cases escaped with
      | true =>
        obtain ⟨c, l, hchars⟩ := List.exists_cons_of_ne_nil g.ne_nil
        have hl : ∀ d ∈ l, isDelimiter d = false := fun d hd => hplain d (by simp [hchars, hd])
        simp [consumeString, htext, hchars, scan, ih, scan_append hl]
      | false =>
        have h1 := hne '\\' rfl
        have h2 := hne '\x7b' rfl
        have h3 := hne '"' rfl
        simp [consumeString, h1, h2, h3, htext, ih, scan_append hplain]

/-- **A printed text up to the quote or brace after it is read back, at the start of a literal and
after an interpolation.** -/
theorem consumeString_encodeString {gs : List Grapheme} (hgs : Separate gs) {s rest : List Char}
    {d : Char} (hd : d = '\x7b' ∨ d = '"') (htext : text gs = encodeString s ++ d :: rest) :
    ∃ raw gs', decodeString raw = s ∧ text gs' = rest ∧
      consumeStringFromQuote gs = (if d = '"' then .strSimple raw else .strBegin raw, gs') ∧
      consumeStringAfterInterp gs = (if d = '"' then .strEnd raw else .strCont raw, gs') := by
  have hscan := consumeString_eq_scan hgs false []
  rw [htext, scan_encodeString hd, Option.map_eq_some_iff] at hscan
  obtain ⟨⟨raw, d', gs'⟩, hconsume, hr⟩ := hscan
  simp only [Prod.mk.injEq, List.nil_append] at hr
  obtain ⟨rfl, rfl, rfl⟩ := hr
  refine ⟨_, gs', decodeString_encodeString s, rfl, ?_, ?_⟩
  · simp [consumeStringFromQuote, hconsume]
  · simp [consumeStringAfterInterp, hconsume]

def quoted : List Grapheme := ['\\', '"', '"', '+'].map fun c => ⟨[c], by simp⟩

theorem quoted_read_back : ∃ raw gs', decodeString raw = ['"'] ∧ text gs' = ['+'] ∧
    consumeStringFromQuote quoted = (.strSimple raw, gs') ∧
    consumeStringAfterInterp quoted = (.strEnd raw, gs') :=
  consumeString_encodeString (by simp [Separate, quoted]) (.inr rfl) rfl

end Skyr.Sclc
