import Mathlib.Data.List.Basic

/-!
# Lower case

Lower case of a text, as Unicode has it: every character has a lower case of its own, of one or
more characters, except for the capital sigma, which has two, and which one it is depends on what
stands around it.  The tables are a parameter (`Casing`), with the few facts about them that
matter.

A text of small letters, digits and punctuation is its own lower case, whatever stands around it
(`lowerIn_plain`); and how long the lower case of a text is does not depend on what stands around it
(`length_lowerIn`).  So the end of a text can be told from its lower case.
-/

/-- The tables of Unicode. -/
class Casing where
  /-- The lower case of a character, the capital sigma apart. -/
  lowerOf : Char → List Char
  /-- Between these two texts, of which the first one is given backwards, a sigma ends a word. -/
  finalSigma : List Char → List Char → Bool
  ascii : ∀ c, c.toNat < 128 → lowerOf c = [c.toLower]
  stable : ∀ c d, c ≠ 'Σ' → d ∈ lowerOf c → d ≠ 'Σ' ∧ lowerOf d = [d]
  sigma : lowerOf 'σ' = ['σ'] ∧ lowerOf 'ς' = ['ς']

namespace Casing

open List

variable [Casing]

/-- The lower case of one character between two texts. -/
def lowerAt (before : List Char) (c : Char) (after : List Char) : List Char :=
  if c = 'Σ' then [if finalSigma before after then 'ς' else 'σ'] else lowerOf c

/-- The lower case of a text between two others. -/
def lowerIn (before : List Char) : List Char → List Char → List Char
  | [], _ => []
  | c :: cs, after => lowerAt before c (cs ++ after) ++ lowerIn (c :: before) cs after

/-- The lower case of a text. -/
def lowercase (s : List Char) : List Char := lowerIn [] s []

theorem lowerIn_append (s t before after : List Char) :
    lowerIn before (s ++ t) after =
      lowerIn before s (t ++ after) ++ lowerIn (s.reverse ++ before) t after := by
  induction s generalizing before with
  | nil => rfl
  | cons c cs ih =>
  rw [cons_append, lowerIn, lowerIn, ih, append_assoc, append_assoc, reverse_cons, append_assoc]
  rfl

/-- How long it is does not depend on what stands around it. -/
theorem length_lowerIn (s before before' after after' : List Char) :
    (lowerIn before s after).length = (lowerIn before' s after').length := by
  induction s generalizing before before' with
  | nil => rfl
  | cons c cs ih =>
  have hhead : (lowerAt before c (cs ++ after)).length =
      (lowerAt before' c (cs ++ after')).length := by
    rw [lowerAt, lowerAt]
    split <;> rfl
  rw [lowerIn, lowerIn, length_append, length_append, hhead, ih]

variable {s : List Char}

/-- A text of characters that are their own lower case. -/
theorem lowerIn_of_forall (h : ∀ c ∈ s, c ≠ 'Σ' ∧ lowerOf c = [c])
    (before after : List Char) : lowerIn before s after = s := by
  induction s generalizing before with
  | nil => rfl
  | cons c cs ih =>
  obtain ⟨hsigma, hc⟩ := h c mem_cons_self
  rw [lowerIn, ih (fun d hd => h d (mem_cons_of_mem _ hd)), lowerAt, if_neg hsigma, hc]
  rfl

/-- An ASCII character that is not a capital letter. -/
def Plain (c : Char) : Prop := c.toNat < 128 ∧ c.toLower = c

theorem Plain.lower {c : Char} (h : Plain c) : c ≠ 'Σ' ∧ lowerOf c = [c] := by
  refine ⟨?_, (ascii c h.1).trans (by rw [h.2])⟩
  rintro rfl
  exact absurd h.1 (by decide)

theorem lowerIn_plain (h : ∀ c ∈ s, Plain c) (before after : List Char) :
    lowerIn before s after = s :=
  lowerIn_of_forall (fun c hc => (h c hc).lower) before after

theorem mem_lowerIn {before after : List Char} {d : Char} (hd : d ∈ lowerIn before s after) :
    d ≠ 'Σ' ∧ lowerOf d = [d] := by
  induction s generalizing before with
  | nil => exact absurd hd not_mem_nil
  | cons c cs ih =>
  rcases mem_append.1 hd with hd | hd
  · rw [lowerAt] at hd
    split at hd
    · rw [mem_singleton.1 hd]
      split
      · exact ⟨by decide, sigma.2⟩
      · exact ⟨by decide, sigma.1⟩
    · next hc => exact stable c d hc hd
  · exact ih hd

/-- Lower case is its own lower case. -/
theorem lowercase_lowercase (s : List Char) : lowercase (lowercase s) = lowercase s :=
  lowerIn_of_forall (fun _ hd => mem_lowerIn hd) [] []

/-- **The end of a text is seen in its lower case**, if it is plain and followed by something that is
the same for both. -/
theorem lowercase_plain_end {s' t t' u : List Char} (ht : ∀ c ∈ t, Plain c)
    (ht' : ∀ c ∈ t', Plain c) (h : lowercase (s ++ t ++ u) = lowercase (s' ++ t' ++ u)) :
    ∃ r r', r ++ t = r' ++ t' := by
  rw [lowercase, lowercase, lowerIn_append, lowerIn_append (s' ++ t')] at h
  have hfront := (append_inj' h (length_lowerIn _ _ _ _ _)).1
  rw [lowerIn_append, lowerIn_append, lowerIn_plain ht, lowerIn_plain ht'] at hfront
  exact ⟨_, _, hfront⟩

end Casing
