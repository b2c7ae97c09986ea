import Skyr.Sclc.Props

/-!
# Forward chaining

`ProvenSet.withPropositions` is meant to derive all consequences of the propositions it is given.
What they are can be said without it: `Derived` is the least set that has the propositions and is
closed under modus ponens.  The set is read up to the equality test of propositions, as the code
does.

The derivation keeps only atoms and negations as proven.  An implication that is derived is put
among those that wait, or fires at once, and nothing is ever derived *from* it.  So what comes out
is the closure under the steps whose premise is an atom or a negation (`proven_least`), whatever
the order the propositions come in.  Where no antecedent is itself an implication, as in all that
the checker emits, this is the full closure (`isProven_iff_entailed`).
-/

namespace Skyr.Sclc

open List

namespace Proposition

/-- Whether a proposition is an atom or a negation. -/
def isLiteral : Proposition → Bool
  | implies _ _ => false
  | _ => true

theorem eq_refl (p : Proposition) : p.eq p = true := by
  induction p with
  | isTrue | refinesTo => simp [eq]
  | not p ih => exact ih
  | implies p q ihp ihq => simp [eq, ihp, ihq]

theorem eq_trans {p q r : Proposition} (h : p.eq q = true) (h' : q.eq r = true) :
    p.eq r = true := by
  induction p generalizing q r with
  | isTrue i =>
    cases q with
    | isTrue j => cases r <;> simp_all [eq]
    | _ => exact nomatch h
  | refinesTo i t =>
    cases q with
    | refinesTo j u => cases r <;> simp_all [eq]
    | _ => exact nomatch h
  | not p ih =>
    cases q with
    | not q =>
      cases r with
      | not r => exact ih h h'
      | _ => exact nomatch h'
    | _ => exact nomatch h
  | implies p p' ih ih' =>
  cases q with
  | implies q q' =>
    cases r with
    | implies r r' =>
      simp only [eq, Bool.and_eq_true] at h h' ⊢
      exact ⟨ih h.1 h'.1, ih' h.2 h'.2⟩
    | _ => exact nomatch h'
  | _ => exact nomatch h

theorem isLiteral_eq_of_eq {p q : Proposition} (h : p.eq q = true) : p.isLiteral = q.isLiteral := by
  cases p <;> cases q <;> first | rfl | exact nomatch h

/-! ## What follows -/

/-- The least set that has the propositions of `Γ` and is closed under modus ponens, where the
premise is one of `premise`. -/
inductive Derived (premise : Proposition → Prop) (Γ : List Proposition) : Proposition → Prop
  | added {p : Proposition} (h : p ∈ Γ) : Derived premise Γ p
  | modusPonens {p p' q : Proposition} (himp : Derived premise Γ (implies p q))
    (hp : Derived premise Γ p') (heq : p.eq p' = true) (hpremise : premise p') :
    Derived premise Γ q

/-- The proposition follows by modus ponens. -/
def Entailed (Γ : List Proposition) (p : Proposition) : Prop :=
  ∃ q, p.eq q = true ∧ Derived (fun _ => True) Γ q

/-- The proposition follows by steps of modus ponens whose premises are atoms and negations. -/
def EntailedByLiterals (Γ : List Proposition) (p : Proposition) : Prop :=
  ∃ q, p.eq q = true ∧ Derived (fun r => r.isLiteral = true) Γ q

variable {p : Proposition} {Γ : List Proposition}

theorem Derived.mono {P Q : Proposition → Prop} (hPQ : ∀ p, P p → Q p) {Δ : List Proposition}
    (hΓ : ∀ p ∈ Γ, p ∈ Δ) (h : Derived P Γ p) : Derived Q Δ p := by
  induction h with
  | added h => exact .added (hΓ _ h)
  | modusPonens _ _ heq hpremise ihimp ihp => exact .modusPonens ihimp ihp heq (hPQ _ hpremise)

theorem EntailedByLiterals.entailed (h : EntailedByLiterals Γ p) : Entailed Γ p := by
  obtain ⟨q, heq, hq⟩ := h
  exact ⟨q, heq, hq.mono (fun _ _ => trivial) fun _ h => h⟩

theorem entailedByLiterals_perm {Δ : List Proposition} (h : Γ.Perm Δ) :
    EntailedByLiterals Γ p ↔ EntailedByLiterals Δ p := by
  constructor
  · rintro ⟨q, heq, hq⟩
    exact ⟨q, heq, hq.mono (fun _ h => h) fun _ hr => h.mem_iff.1 hr⟩
  · rintro ⟨q, heq, hq⟩
    exact ⟨q, heq, hq.mono (fun _ h => h) fun _ hr => h.mem_iff.2 hr⟩

/-- No implication in the proposition has an implication for its antecedent. -/
def Curried : Proposition → Prop
  | implies p q => p.isLiteral = true ∧ q.Curried
  | _ => True

/-- Where no antecedent is an implication, nothing follows from an implication. -/
theorem entailedByLiterals_of_curried (h : ∀ p ∈ Γ, p.Curried)
    (hp : Entailed Γ p) : EntailedByLiterals Γ p := by
  obtain ⟨q, heq, hq⟩ := hp
  refine ⟨q, heq, ?_⟩
  have key : Derived (fun r => r.isLiteral = true) Γ q ∧ q.Curried := by
    clear heq
    induction hq with
    | added hmem => exact ⟨.added hmem, h _ hmem⟩
    | modusPonens _ _ heq _ ihimp ihp =>
    obtain ⟨himp, hcurried⟩ := ihimp
    refine ⟨.modusPonens himp ihp.1 heq ?_, hcurried.2⟩
    rw [← isLiteral_eq_of_eq heq]
    exact hcurried.1
  exact key.1

end Proposition

open Proposition

namespace ProvenSet

variable {s : ProvenSet} {p : Proposition}

theorem isProven_iff_exists : s.isProven p = true ↔ ∃ q ∈ s.proven, p.eq q = true := by
  simp [isProven]

variable {p q : Proposition}

theorem isProven_congr (h : p.eq q = true) (hq : s.isProven q = true) : s.isProven p = true := by
  obtain ⟨r, hr, heq⟩ := isProven_iff_exists.1 hq
  exact isProven_iff_exists.2 ⟨r, hr, eq_trans h heq⟩

@[simp] theorem isProven_record : (s.record p).isProven q = (s.isProven q || q.eq p) := by
  simp [isProven, record]

@[simp] theorem isProven_await {p q r : Proposition} :
    (s.await p q).isProven r = s.isProven r := rfl

/-! ## Nothing else is derived -/

/-- What is proven follows from `Γ`, and so do the implications that wait. -/
structure Sound (Γ : List Proposition) (s : ProvenSet) : Prop where
  proven : ∀ p ∈ s.proven, p.isLiteral = true ∧ Derived (fun r => r.isLiteral = true) Γ p
  implications : ∀ a ∈ s.implications, Derived (fun r => r.isLiteral = true) Γ (.implies a.1 a.2)
  waiting : ∀ a ∈ s.implications, s.isProven a.1 = false

variable {Γ : List Proposition}

theorem sound_empty : Sound Γ empty := ⟨nofun, nofun, nofun⟩

theorem Sound.await (h : s.Sound Γ)
    (hpq : Derived (fun r => r.isLiteral = true) Γ (.implies p q)) (hp : ¬s.isProven p = true) :
    (s.await p q).Sound Γ := by
  refine ⟨h.proven, fun a ha => ?_, fun a ha => ?_⟩
  · rcases mem_append.1 ha with ha | ha
    · exact h.implications a ha
    · rw [mem_singleton.1 ha]
      exact hpq
  rw [isProven_await]
  rcases mem_append.1 ha with ha | ha
  · exact h.waiting a ha
  · rw [mem_singleton.1 ha]
    exact Bool.eq_false_iff.2 hp

section

variable (h : s.Sound Γ) (hlit : p.isLiteral = true)
  (hp : Derived (fun r => r.isLiteral = true) Γ p)

include h hlit hp

theorem Sound.record : (s.record p).Sound Γ := by
  refine ⟨fun q hq => ?_, fun a ha => h.implications a (mem_filter.1 ha).1, fun a ha => ?_⟩
  · rcases mem_append.1 hq with hq | hq
    · exact h.proven q hq
    · rw [mem_singleton.1 hq]
      exact ⟨hlit, hp⟩
  obtain ⟨hmem, hne⟩ := mem_filter.1 ha
  rw [isProven_record, h.waiting a hmem, Bool.false_or]
  simpa using hne

theorem Sound.consequents : ∀ q ∈ s.consequents p, Derived (fun r => r.isLiteral = true) Γ q := by
  intro q hq
  obtain ⟨a, ha, rfl⟩ := mem_map.1 hq
  obtain ⟨hmem, heq⟩ := mem_filter.1 ha
  exact .modusPonens (h.implications a hmem) hp heq hlit

end

/-- A premise that is proven can be used. -/
theorem Sound.fire (h : s.Sound Γ)
    (hpq : Derived (fun r => r.isLiteral = true) Γ (.implies p q)) (hp : s.isProven p = true) :
    Derived (fun r => r.isLiteral = true) Γ q := by
  obtain ⟨p', hp', heq⟩ := isProven_iff_exists.1 hp
  obtain ⟨hlit, hderived⟩ := h.proven p' hp'
  exact .modusPonens hpq hderived heq hlit

theorem isLiteral_of_not_implies (h : ∀ q r, p = .implies q r → False) : p.isLiteral = true := by
  cases p with
  | implies q r => exact (h q r rfl).elim
  | _ => rfl

theorem Sound.withPropositions (h : s.Sound Γ) {props : List Proposition}
    (hprops : ∀ p ∈ props, Derived (fun r => r.isLiteral = true) Γ p) :
    (s.withPropositions props).Sound Γ := by
  induction s, props using ProvenSet.withPropositions.induct with
  | case1 s =>
    rw [ProvenSet.withPropositions]
    exact h
  | case2 s p q agenda hproven ih =>
    rw [ProvenSet.withPropositions, if_pos hproven]
    obtain ⟨hpq, hrest⟩ := forall_mem_cons.1 hprops
    exact ih h (forall_mem_cons.2 ⟨h.fire hpq hproven, hrest⟩)
  | case3 s p q agenda hproven ih =>
    rw [ProvenSet.withPropositions, if_neg hproven]
    obtain ⟨hpq, hrest⟩ := forall_mem_cons.1 hprops
    exact ih (h.await hpq hproven) hrest
  | case4 s p agenda hnot hproven ih =>
    rw [ProvenSet.withPropositions.eq_3 _ _ _ hnot, if_pos hproven]
    exact ih h (forall_mem_cons.1 hprops).2
  | case5 s p agenda hnot hproven ih =>
  rw [ProvenSet.withPropositions.eq_3 _ _ _ hnot, if_neg hproven]
  obtain ⟨hp, hrest⟩ := forall_mem_cons.1 hprops
  have hlit := isLiteral_of_not_implies hnot
  exact ih (h.record hlit hp) (forall_mem_append.2 ⟨h.consequents hlit hp, hrest⟩)

/-! ## Nothing is forgotten -/

/-- Where a derived proposition is to be found: on the agenda, among what is proven, or, for an
implication, among those that wait, or it has fired and its consequent is to be found. -/
def Accounted (s : ProvenSet) (agenda : List Proposition) : Proposition → Prop
  | .implies p q => .implies p q ∈ agenda ∨ (p, q) ∈ s.implications ∨
      (s.isProven p = true ∧ s.Accounted agenda q)
  | p => p ∈ agenda ∨ s.isProven p = true

variable {agenda : List Proposition}

theorem accounted_of_mem (h : p ∈ agenda) : s.Accounted agenda p := by
  cases p <;> exact .inl h

theorem accounted_of_isProven
    (hlit : p.isLiteral = true) (h : s.isProven p = true) : s.Accounted agenda p := by
  cases p with
  | implies p q => exact nomatch hlit
  | _ => exact .inr h

/-- What is accounted for stays so, if what was on the agenda and what was waiting does. -/
theorem Accounted.step {s s' : ProvenSet} {agenda' : List Proposition}
    (hagenda : ∀ p ∈ agenda, s'.Accounted agenda' p)
    (hproven : ∀ p, s.isProven p = true → s'.isProven p = true)
    (hwaiting : ∀ a ∈ s.implications, s'.Accounted agenda' (.implies a.1 a.2))
    (h : s.Accounted agenda p) : s'.Accounted agenda' p := by
  induction p with
  | implies p q _ ih =>
    rcases h with h | h | ⟨hp, hq⟩
    · exact hagenda _ h
    · exact hwaiting _ h
    · exact .inr (.inr ⟨hproven p hp, ih hq⟩)
  | _ =>
  rcases h with h | h
  · exact hagenda _ h
  · exact accounted_of_isProven rfl (hproven _ h)

theorem Accounted.withPropositions
    (h : s.Accounted agenda p) : (s.withPropositions agenda).Accounted [] p := by
  induction s, agenda using ProvenSet.withPropositions.induct with
  | case1 s =>
    rw [ProvenSet.withPropositions]
    exact h
  | case2 s p q agenda hproven ih =>
    rw [ProvenSet.withPropositions, if_pos hproven]
    refine ih (h.step (forall_mem_cons.2 ⟨?_, fun r hr => ?_⟩) (fun _ h => h) fun a ha => ?_)
    · exact .inr (.inr ⟨hproven, accounted_of_mem mem_cons_self⟩)
    · exact accounted_of_mem (mem_cons_of_mem _ hr)
    · exact .inr (.inl ha)
  | case3 s p q agenda hproven ih =>
    rw [ProvenSet.withPropositions, if_neg hproven]
    refine ih (h.step (forall_mem_cons.2 ⟨?_, fun r hr => accounted_of_mem hr⟩)
      (fun r hr => ?_) fun a ha => ?_)
    · exact .inr (.inl (mem_append_right _ (mem_singleton_self _)))
    · exact hr
    · exact .inr (.inl (mem_append_left _ ha))
  | case4 s p agenda hnot hproven ih =>
    rw [ProvenSet.withPropositions.eq_3 _ _ _ hnot, if_pos hproven]
    refine ih (h.step (forall_mem_cons.2 ⟨?_, fun r hr => accounted_of_mem hr⟩)
      (fun _ h => h) fun a ha => .inr (.inl ha))
    exact accounted_of_isProven (isLiteral_of_not_implies hnot) hproven
  | case5 s p agenda hnot hproven ih =>
  rw [ProvenSet.withPropositions.eq_3 _ _ _ hnot, if_neg hproven]
  refine ih (h.step (forall_mem_cons.2 ⟨?_, fun r hr => ?_⟩) (fun q hq => ?_) fun a ha => ?_)
  · refine accounted_of_isProven (isLiteral_of_not_implies hnot) ?_
    simp [eq_refl]
  · exact accounted_of_mem (mem_append_right _ hr)
  · simp [hq]
  -- The implications that waited for `p` have fired, and their consequents are on the agenda.
  by_cases hap : a.1.eq p = true
  · refine .inr (.inr ⟨by simp [hap], accounted_of_mem (mem_append_left _ ?_)⟩)
    exact mem_map_of_mem (mem_filter.2 ⟨ha, hap⟩)
  · exact .inr (.inl (mem_filter.2 ⟨ha, by simpa using hap⟩))

/-- Nothing that follows by way of atoms and negations is left out of a set that is closed. -/
theorem accounted_of_derived (hs : s.Sound Γ)
    (hΓ : ∀ p ∈ Γ, s.Accounted [] p)
    (h : Derived (fun r => r.isLiteral = true) Γ p) : s.Accounted [] p := by
  induction h with
  | added h => exact hΓ _ h
  | @modusPonens p p' q _ _ heq hlit ihimp ihp =>
  have hp' : s.isProven p' = true := by
    cases p' with
    | implies _ _ => exact nomatch hlit
    | _ => exact ihp.resolve_left not_mem_nil
  have hp : s.isProven p = true := isProven_congr heq hp'
  rcases ihimp with h | h | ⟨_, hq⟩
  · exact absurd h not_mem_nil
  · exact absurd hp (Bool.eq_false_iff.1 (hs.waiting _ h))
  · exact hq

/-- The atoms and negations that are proven are those that follow from the list by way of atoms and
negations. -/
theorem isProven_iff (l : List Proposition) (hlit : p.isLiteral = true) :
    (empty.withPropositions l).isProven p = true ↔ EntailedByLiterals l p := by
  have hsound : (empty.withPropositions l).Sound l :=
    Sound.withPropositions sound_empty fun _ h => .added h
  constructor
  · intro h
    obtain ⟨q, hq, heq⟩ := isProven_iff_exists.1 h
    exact ⟨q, heq, (hsound.proven q hq).2⟩
  rintro ⟨q, heq, hq⟩
  have haccounted := accounted_of_derived hsound
    (fun r hr => Accounted.withPropositions (accounted_of_mem hr)) hq
  refine isProven_congr heq ?_
  cases q with
  | implies _ _ => exact nomatch (isLiteral_eq_of_eq heq).symm.trans hlit
  | _ => exact haccounted.resolve_left not_mem_nil

/-- **The proven atoms and negations are the least set that has the given ones and is closed under
modus ponens** over the implications that were given or derived, in whatever order the propositions
come. -/
theorem proven_least {Γ l : List Proposition} (hl : l.Perm Γ) (hlit : p.isLiteral = true) :
    (empty.withPropositions l).isProven p = true ↔ EntailedByLiterals Γ p := by
  rw [isProven_iff l hlit, entailedByLiterals_perm hl]

/-- The inner implication is derived before its antecedent comes. -/
theorem proven_least_nested :
    (empty.withPropositions [.isTrue 0, .implies (.isTrue 0) (.implies (.not (.isTrue 1))
      (.isTrue 2)), .not (.isTrue 1)]).isProven (.isTrue 2) = true ∧
    EntailedByLiterals [.implies (.isTrue 0) (.implies (.not (.isTrue 1)) (.isTrue 2)), .isTrue 0,
      .not (.isTrue 1)] (.isTrue 2) := by
  have hproven : (empty.withPropositions [.isTrue 0, .implies (.isTrue 0)
      (.implies (.not (.isTrue 1)) (.isTrue 2)), .not (.isTrue 1)]).isProven (.isTrue 2) = true := by
    simp [withPropositions, isProven, empty, await, record, consequents, Proposition.eq]
  exact ⟨hproven, (proven_least (.swap _ _ _) rfl).1 hproven⟩

/-- **Where no antecedent is an implication, forward chaining proves all atoms and negations that
follow**, in whatever order the propositions come. -/
theorem isProven_iff_entailed {Γ l : List Proposition} (h : ∀ p ∈ Γ, p.Curried) (hl : l.Perm Γ)
    (hlit : p.isLiteral = true) : (empty.withPropositions l).isProven p = true ↔ Entailed Γ p := by
  rw [isProven_iff l hlit, entailedByLiterals_perm hl]
  exact ⟨fun hp => hp.entailed, entailedByLiterals_of_curried h⟩

theorem isProven_iff_entailed_chain :
    (empty.withPropositions [.isTrue 0, .implies (.isTrue 0) (.isTrue 1)]).isProven (.isTrue 1) ↔
      Entailed [.implies (.isTrue 0) (.isTrue 1), .isTrue 0] (.isTrue 1) :=
  isProven_iff_entailed (by simp [Curried, isLiteral]) (.swap _ _ _) rfl

end ProvenSet

end Skyr.Sclc
