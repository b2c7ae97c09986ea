import Mathlib.Data.List.DropRight
import Mathlib.Tactic.Common

/-!
# Positions in an editor

The lexer counts lines and grapheme clusters from 1, and begins a line after a line feed, with a
carriage return before it or not.  An editor counts lines and UTF-16 units from 0, and begins a line
after a lone carriage return as well.  Positions are passed between the two by adding or taking 1.

What an editor finds at a position is `offsetOf`.  It finds the two ends of a token where they are,
and the compiler finds the token at the positions on it, exactly if no lone carriage return comes
before the end of the token, and on the lines of both ends every cluster before them is one unit
(`range_iff`).  An emoji before a token moves it (`Emoji.not_covered`).
-/

namespace Skyr.Lsp

open List

/-! ## The two ways of counting -/

/-- A grapheme cluster.  A line break, of whichever kind, is a cluster of its own. -/
structure Grapheme where
  chars : List Char
  ne_nil : chars ≠ []

namespace Grapheme

/-- A line break for the lexer. -/
def isNewline (g : Grapheme) : Bool := g.chars == ['\n'] || g.chars == ['\r', '\n']

def isReturn (g : Grapheme) : Bool := g.chars == ['\r']

/-- Its length in UTF-16 units: one for a character, and another from U+10000 on. -/
def units (g : Grapheme) : ℕ := g.chars.length + g.chars.countP fun c => 65536 ≤ c.toNat

end Grapheme

/-- A position of the compiler, counted from 1, or of an editor, counted from 0. -/
structure Position where
  line : ℕ
  character : ℕ

instance : LT Position :=
  ⟨fun p q => p.line < q.line ∨ p.line = q.line ∧ p.character < q.character⟩

instance (p q : Position) : Decidable (p < q) :=
  inferInstanceAs (Decidable (p.line < q.line ∨ p.line = q.line ∧ p.character < q.character))

structure Span where
  start : Position
  stop : Position

def advancePosition (p : Position) (g : Grapheme) : Position :=
  if g.isNewline then ⟨p.line + 1, 1⟩ else ⟨p.line, p.character + 1⟩

/-- Where the lexer is after these. -/
def positionAfter (gs : List Grapheme) : Position := gs.foldl advancePosition ⟨1, 1⟩

/-- The span of a token after `pre`: the lexer's position before its first cluster, and the one
after its last. -/
def tokenSpan (pre token : List Grapheme) : Span :=
  ⟨positionAfter pre, positionAfter (pre ++ token)⟩

def toLspPosition (p : Position) : Position := ⟨p.line - 1, p.character - 1⟩

def toLspRange (span : Span) : Span := ⟨toLspPosition span.start, toLspPosition span.stop⟩

def toSclcPosition (p : Position) : Position := ⟨p.line + 1, p.character + 1⟩

/-- Units in a text. -/
def units : List Grapheme → ℕ
  | [] => 0
  | g :: gs => g.units + units gs

def editorAdvance (p : Position) (g : Grapheme) : Position :=
  if g.isNewline || g.isReturn then ⟨p.line + 1, 0⟩ else ⟨p.line, p.character + g.units⟩

/-- How many units an editor at `p` reads up to the position `x`, which stands for the end of its
line if the line is shorter. -/
def offsetOf (x : Position) : Position → List Grapheme → ℕ
  | _, [] => 0
  | p, g :: gs =>
    if x < editorAdvance p g then if g.isNewline || g.isReturn then 0 else x.character - p.character
    else g.units + offsetOf x (editorAdvance p g) gs

/-- An editor finds the token in its range. -/
def Covers (pre token post : List Grapheme) : Prop :=
  let range := toLspRange (tokenSpan pre token)
  let text := pre ++ token ++ post
  offsetOf range.start ⟨0, 0⟩ text = units pre ∧
    offsetOf range.stop ⟨0, 0⟩ text = units (pre ++ token)

/-- The compiler finds the token at every position that is on it in an editor. -/
def Finds (pre token post : List Grapheme) : Prop :=
  ∀ x, units pre ≤ offsetOf x ⟨0, 0⟩ (pre ++ token ++ post) →
    offsetOf x ⟨0, 0⟩ (pre ++ token ++ post) < units (pre ++ token) →
      ¬toSclcPosition x < (tokenSpan pre token).start ∧
        toSclcPosition x < (tokenSpan pre token).stop

/-- Both count alike up to here: no lone carriage return, and single units on the last line. -/
def Plain (gs : List Grapheme) : Prop :=
  (∀ g ∈ gs, g.isReturn = false) ∧ ∀ g ∈ gs.rtakeWhile (!·.isNewline), g.units = 1

/-! ## Reading a position -/

variable {x p : Position} {gs : List Grapheme}

theorem Position.lt_def {p q : Position} :
    p < q ↔ p.line < q.line ∨ p.line = q.line ∧ p.character < q.character := Iff.rfl

theorem Grapheme.units_pos (g : Grapheme) : 0 < g.units :=
  Nat.add_pos_left (length_pos_of_ne_nil g.ne_nil) _

theorem lt_foldl_editorAdvance (h : x < p) : x < gs.foldl editorAdvance p := by
  induction gs generalizing p with
  | nil => exact h
  | cons g gs ih =>
  refine ih ?_
  rw [Position.lt_def] at h
  rw [editorAdvance]
  split <;> (rw [Position.lt_def]; dsimp only; omega)

/-- A position is found before the end of `gs` if it comes before the position there. -/
theorem offsetOf_lt_iff (post : List Grapheme) (h : ¬x < p) :
    offsetOf x p (gs ++ post) < units gs ↔ x < gs.foldl editorAdvance p := by
  induction gs generalizing p with
  | nil => simp [units, h]
  | cons g gs ih =>
  have hpos := g.units_pos
  have hunits : units (g :: gs) = g.units + units gs := rfl
  rw [cons_append, offsetOf, foldl_cons]
  split
  · rename_i hlt
    refine iff_of_true ?_ (lt_foldl_editorAdvance hlt)
    split
    · omega
    · rename_i hend
      rw [editorAdvance, if_neg hend, Position.lt_def] at hlt
      rw [Position.lt_def] at h
      dsimp only at hlt
      omega
  · rename_i hlt
    rw [hunits, Nat.add_lt_add_iff_left]
    exact ih hlt

theorem offsetOf_foldl (post : List Grapheme) :
    offsetOf (gs.foldl editorAdvance p) p (gs ++ post) = units gs := by
  induction gs generalizing p with
  | nil =>
    cases post with
    | nil => rfl
    | cons g post =>
    have hpos := g.units_pos
    have hlt : p < editorAdvance p g := by
      rw [editorAdvance]
      split <;> (rw [Position.lt_def]; dsimp only; omega)
    change offsetOf p p (g :: post) = 0
    rw [offsetOf, if_pos hlt, Nat.sub_self, ite_self]
  | cons g gs ih =>
  have hle : ¬gs.foldl editorAdvance (editorAdvance p g) < editorAdvance p g := fun h => by
    have hself : _ < gs.foldl editorAdvance _ := lt_foldl_editorAdvance h
    rw [Position.lt_def] at hself
    omega
  rw [cons_append, offsetOf, foldl_cons, if_neg hle, ih]
  rfl

/-! ## The two compared -/

/-- A lone carriage return is a line the lexer does not count, and a cluster counts for no more
characters than it has units. -/
theorem positionAfter_spec (gs : List Grapheme) :
    let e := gs.foldl editorAdvance ⟨0, 0⟩
    ∃ l c, positionAfter gs = ⟨l + 1, c + 1⟩ ∧ l ≤ e.line ∧
      (l = e.line ↔ ∀ g ∈ gs, g.isReturn = false) ∧ (l = e.line → c ≤ e.character ∧
        (c = e.character ↔ ∀ g ∈ gs.rtakeWhile (!·.isNewline), g.units = 1)) := by
  induction gs using reverseRecOn with
  | nil => exact ⟨0, 0, rfl, by simp⟩
  | append_singleton gs g ih =>
  obtain ⟨l, c, hpos, hle, hline, hchar⟩ := ih
  rw [positionAfter] at hpos
  simp only [positionAfter, foldl_concat, hpos, advancePosition, editorAdvance, forall_mem_append,
    forall_mem_singleton, ← hline]
  cases hnew : g.isNewline with
  | true =>
    have hret : g.isReturn = false := by
      rw [Grapheme.isNewline, Bool.or_eq_true, beq_iff_eq, beq_iff_eq] at hnew
      rcases hnew with h | h <;> rw [Grapheme.isReturn, h] <;> decide
    refine ⟨l + 1, 0, by simp, ?_⟩
    rw [rtakeWhile_concat_neg _ _ _ (by simp [hnew])]
    simp [hret, hle]
  | false =>
  refine ⟨l, c + 1, by simp, ?_⟩
  cases hret : g.isReturn with
  | true => simp [Nat.le_succ_of_le hle, (Nat.lt_succ_of_le hle).ne]
  | false =>
  have hunits := g.units_pos
  rw [rtakeWhile_concat_pos _ _ _ (by simp [hnew])]
  simp only [forall_mem_append, forall_mem_singleton]
  refine ⟨hle, by simp, fun heq => ?_⟩
  obtain ⟨hcle, hceq⟩ := hchar heq
  rw [← hceq]
  simp only [Bool.or_self, Bool.false_eq_true, if_false]
  omega

theorem not_lt_origin : ¬x < ⟨0, 0⟩ := by simp [Position.lt_def]

theorem offsetOf_toLspPosition (gs post : List Grapheme) :
    offsetOf (toLspPosition (positionAfter gs)) ⟨0, 0⟩ (gs ++ post) = units gs ↔ Plain gs := by
  obtain ⟨l, c, hpos, hle, hline, hchar⟩ := positionAfter_spec gs
  rw [hpos, Plain, ← hline]
  constructor
  · intro heq
    have hge := mt (offsetOf_lt_iff post not_lt_origin).2 heq.not_lt
    rw [Position.lt_def, toLspPosition] at hge
    dsimp only at hge
    have hl : l = (gs.foldl editorAdvance ⟨0, 0⟩).line := by omega
    obtain ⟨hcle, hceq⟩ := hchar hl
    exact ⟨hl, hceq.1 (by omega)⟩
  · rintro ⟨rfl, hunits⟩
    obtain rfl := (hchar rfl).2.2 hunits
    exact offsetOf_foldl post

theorem Plain.offsetOf_lt_iff (h : Plain gs) (post : List Grapheme) :
    offsetOf x ⟨0, 0⟩ (gs ++ post) < units gs ↔ toSclcPosition x < positionAfter gs := by
  obtain ⟨l, c, hpos, hle, hline, hchar⟩ := positionAfter_spec gs
  obtain rfl := hline.2 h.1
  obtain rfl := (hchar rfl).2.2 h.2
  rw [Lsp.offsetOf_lt_iff post not_lt_origin, hpos]
  simp [Position.lt_def, toSclcPosition]

/-- **The editor's range covers the token, and the compiler finds the token at the editor's
positions on it, exactly if the text is plain up to both its ends.** -/
theorem range_iff (pre token post : List Grapheme) :
    Covers pre token post ∧ Finds pre token post ↔ Plain pre ∧ Plain (pre ++ token) := by
  have hcovers : Covers pre token post ↔ Plain pre ∧ Plain (pre ++ token) := by
    rw [← offsetOf_toLspPosition pre (token ++ post), ← offsetOf_toLspPosition _ post,
      ← append_assoc]
    rfl
  rw [hcovers]
  refine and_iff_left_of_imp fun hplain x hstart hstop => ⟨fun hlt => ?_, ?_⟩
  · rw [append_assoc] at hstart
    exact absurd ((hplain.1.offsetOf_lt_iff _).2 hlt) hstart.not_gt
  · exact (hplain.2.offsetOf_lt_iff post).1 hstop

/-- A symbol behind an emoji. -/
theorem Emoji.not_covered :
    ¬∀ pre token post : List Grapheme, token ≠ [] →
      Covers pre token post ∧ Finds pre token post := by
  intro h
  have hcovers := (h [⟨['😀'], by decide⟩] [⟨['a'], by decide⟩] [] (by simp)).1
  exact absurd hcovers.1 (by decide)

end Skyr.Lsp
