import Mathlib.Algebra.GroupWithZero.Nat
import Skyr.Lib.Fuel
import Skyr.Lib.Ordered
import Skyr.Sclc.Ty

/-!
# Propositions and refinement

Where a branch depends on a test, the checker knows more about the values in it than their types
say.  It keeps this knowledge as *propositions* about origins: that the boolean which originated
somewhere is true, or that the type which originated somewhere may be replaced by a narrower one.
Checking an expression emits propositions, most of them implications that wait for a test to be
decided; entering a branch adds what the test is assumed to be, and everything that follows is
derived at once.

What comes out of this is a `ProvenSet`, and of it a map from origins to types.  Looking up a
variable applies the map: `refineType` goes through the variable's type and replaces every node
whose origin is in the map, and then goes on *in the replacement*.  Nothing but the map itself can
stop it, so the model has a fuel argument.
-/

namespace Skyr.Sclc

open Option

open List

/-! ## Propositions -/

inductive Proposition
  | isTrue (id : ℕ)
  /-- The type of this origin can be replaced by the given one. -/
  | refinesTo (id : ℕ) (ty : Ty ℕ)
  | not (p : Proposition)
  | implies (p q : Proposition)

namespace Proposition

/-- The equality test on propositions.  Of a replacement it looks at the origin only. -/
def eq : Proposition → Proposition → Bool
  | isTrue i, isTrue j => i == j
  | refinesTo i t, refinesTo j u => i == j && t.id == u.id
  | not p, not q => p.eq q
  | implies p q, implies p' q' => p.eq p' && q.eq q'
  | _, _ => false

/-- The number of nodes. -/
def size : Proposition → ℕ
  | isTrue _ | refinesTo _ _ => 1
  | not p => p.size + 1
  | implies p q => p.size + q.size + 1

/-- The replacement a proposition allows, if it is one. -/
def replacement : Proposition → Option (ℕ × Ty ℕ)
  | refinesTo i t => some (i, t)
  | _ => none

theorem size_pos (p : Proposition) : 0 < p.size := by cases p <;> simp [size]

end Proposition

/-- What is proven in a scope. -/
structure ProvenSet where
  proven : List Proposition
  /-- The implications whose antecedent is not proven yet. -/
  implications : List (Proposition × Proposition)
  /-- The replacements that are proven; for each origin the last one counts, which stands first. -/
  refinesTo : List (ℕ × Ty ℕ)

namespace ProvenSet

/-- Nothing is proven at the start. -/
def empty : ProvenSet := ⟨[], [], []⟩

def isProven (s : ProvenSet) (p : Proposition) : Bool := s.proven.any p.eq

/-- What a proposition implies. -/
def consequents (s : ProvenSet) (p : Proposition) : List Proposition :=
  (s.implications.filter fun a => a.1.eq p).map Prod.snd

/-- Note a proposition that is not an implication as proven.  What it implies is no longer
waiting. -/
def record (s : ProvenSet) (p : Proposition) : ProvenSet where
  proven := s.proven ++ [p]
  implications := s.implications.filter fun a => !a.1.eq p
  refinesTo := p.replacement.toList ++ s.refinesTo

/-- Let an implication wait for its antecedent. -/
def await (s : ProvenSet) (p q : Proposition) : ProvenSet :=
  ⟨s.proven, s.implications ++ [(p, q)], s.refinesTo⟩

/-- The size of the consequents that are waiting. -/
def weight (s : ProvenSet) : ℕ := (s.implications.map fun a => a.2.size).sum

theorem weight_await (s : ProvenSet) (p q : Proposition) :
    (s.await p q).weight = s.weight + q.size := by
  simp [weight, await]

theorem weight_record (s : ProvenSet) (p : Proposition) :
    (s.record p).weight + ((s.consequents p).map Proposition.size).sum = s.weight := by
  rw [weight, weight, consequents, record]
  dsimp only
  induction s.implications with
  | nil => rfl
  | cons a as ih =>
    cases h : a.1.eq p <;> simp [h] at ih ⊢ <;> omega

/-- Derive what follows from some propositions, one after the other.  The consequents of a
proposition come before the propositions behind it. -/
def withPropositions (s : ProvenSet) : List Proposition → ProvenSet
  | [] => s
  | .implies p q :: agenda =>
    if s.isProven p then s.withPropositions (q :: agenda)
    else (s.await p q).withPropositions agenda
  | p :: agenda =>
    if s.isProven p then s.withPropositions agenda
    else (s.record p).withPropositions (s.consequents p ++ agenda)
termination_by agenda => s.weight + (agenda.map Proposition.size).sum
decreasing_by
  · simp only [List.map_cons, List.sum_cons, Proposition.size]
    omega
  · have := p.size_pos
    simp only [weight_await, List.map_cons, List.sum_cons, Proposition.size]
    omega
  · have := p.size_pos
    simp only [List.map_cons, List.sum_cons]
    omega
  have := p.size_pos
  have := s.weight_record p
  simp only [List.map_append, List.sum_append, List.map_cons, List.sum_cons]
  omega

end ProvenSet

/-! ## Refinement -/

namespace Ty

/-- The types a type is made of, one level down. -/
def children {ι : Type} : Ty ι → List (Ty ι)
  | any _ | never _ | prim _ _ | exception _ _ | var _ _ => []
  | optional _ t | list _ t | isoRec _ _ t => [t]
  | dict _ k v => [k, v]
  | record _ fs => fs.map Prod.snd
  | fn _ tps ps r => tps.map Prod.snd ++ (ps ++ [r])

/-- Refine the types a type is made of; every node keeps its origin. -/
def refineChildren (refine : Ty ℕ → Option (Ty ℕ)) : Ty ℕ → Option (Ty ℕ)
  | optional i t => optional i <$> refine t
  | list i t => list i <$> refine t
  | dict i k v => do
    let k ← refine k
    dict i k <$> refine v
  | record i fs => record i <$> fs.mapM fun f => (f.1, ·) <$> refine f.2
  | fn i tps ps r => do
    let tps ← tps.mapM fun b => (b.1, ·) <$> refine b.2
    let ps ← ps.mapM refine
    fn i tps ps <$> refine r
  | isoRec i x b => isoRec i x <$> refine b
  | t => some t

/-- What holds of a type if it holds of its parts holds of every type. -/
theorem children_induction {P : Ty ℕ → Prop} (step : ∀ t, (∀ c ∈ t.children, P c) → P t)
    (t : Ty ℕ) : P t := by
  induction t using Ty.ind with
  | optional i t ih | list i t ih | isoRec i x t ih =>
    exact step _ fun c hc => mem_singleton.1 hc ▸ ih
  | dict i k v ihk ihv =>
    refine step _ fun c hc => ?_
    rcases mem_pair.1 hc with rfl | rfl
    · exact ihk
    · exact ihv
  | record i fs ih =>
    refine step _ fun c hc => ?_
    obtain ⟨f, hf, rfl⟩ := mem_map.1 hc
    exact ih f hf
  | fn i tps ps r ihtps ihps ihr =>
    refine step _ fun c hc => ?_
    rcases mem_append.1 hc with hc | hc
    · obtain ⟨b, hb, rfl⟩ := mem_map.1 hc
      exact ihtps b hb
    rcases mem_append.1 hc with hc | hc
    · exact ihps c hc
    · exact mem_singleton.1 hc ▸ ihr
  | _ => exact step _ nofun

/-- The same node, made of related types. -/
inductive Congruent (R : Ty ℕ → Ty ℕ → Prop) : Ty ℕ → Ty ℕ → Prop
  | leaf {t : Ty ℕ} (h : t.children = []) : Congruent R t t
  | optional (i : ℕ) {t t' : Ty ℕ} (h : R t t') : Congruent R (.optional i t) (.optional i t')
  | list (i : ℕ) {t t' : Ty ℕ} (h : R t t') : Congruent R (.list i t) (.list i t')
  | dict (i : ℕ) {k k' v v' : Ty ℕ} (hk : R k k') (hv : R v v') :
    Congruent R (.dict i k v) (.dict i k' v')
  | record (i : ℕ) {fs fs' : List (String × Ty ℕ)} (h : Entries R fs fs') :
    Congruent R (.record i fs) (.record i fs')
  | fn (i : ℕ) {tps tps' : List (ℕ × Ty ℕ)} {ps ps' : List (Ty ℕ)} {r r' : Ty ℕ}
    (htps : Entries R tps tps') (hps : List.Forall₂ R ps ps') (hr : R r r') :
    Congruent R (.fn i tps ps r) (.fn i tps' ps' r')
  | isoRec (i x : ℕ) {b b' : Ty ℕ} (h : R b b') : Congruent R (.isoRec i x b) (.isoRec i x b')

/-- Every part of the first node is related to one of the second. -/
theorem Congruent.exists_child {R : Ty ℕ → Ty ℕ → Prop} {t t' : Ty ℕ} (h : Congruent R t t') :
    ∀ c ∈ t.children, ∃ c', R c c' := by
  intro c hc
  cases h with
  | leaf h =>
    rw [h] at hc
    exact nomatch hc
  | optional i hu | list i hu | isoRec i x hu =>
    rw [mem_singleton.1 hc]
    exact ⟨_, hu⟩
  | dict i hk hv =>
    rcases mem_pair.1 hc with rfl | rfl
    · exact ⟨_, hk⟩
    · exact ⟨_, hv⟩
  | record i hfs =>
    obtain ⟨f, hf, rfl⟩ := mem_map.1 hc
    obtain ⟨g, -, hg⟩ := forall₂_exists_left hfs.flip hf
    exact ⟨_, hg.2⟩
  | fn i htps hps hr =>
  rcases mem_append.1 hc with hc | hc
  · obtain ⟨b, hb, rfl⟩ := mem_map.1 hc
    obtain ⟨g, -, hg⟩ := forall₂_exists_left htps.flip hb
    exact ⟨_, hg.2⟩
  rcases mem_append.1 hc with hc | hc
  · obtain ⟨g, -, hg⟩ := forall₂_exists_left hps.flip hc
    exact ⟨_, hg⟩
  · rw [mem_singleton.1 hc]
    exact ⟨_, hr⟩

theorem forall₂_of_mapM {α β : Type} {f : α → Option β} :
    ∀ {l : List α} {bs : List β}, l.mapM f = some bs → List.Forall₂ (fun a b => f a = some b) l bs
  | [], _, h => by
    cases h
    exact .nil
  | a :: l, bs, h => by
    rw [mapM_cons] at h
    obtain ⟨b, hb, h⟩ := bind_eq_some_iff.1 h
    obtain ⟨bs', hbs, h⟩ := bind_eq_some_iff.1 h
    cases h
    exact .cons hb (forall₂_of_mapM hbs)

theorem entries_of_mapM {κ : Type} {f : Ty ℕ → Option (Ty ℕ)} {l m : List (κ × Ty ℕ)}
    (h : (l.mapM fun p => (p.1, ·) <$> f p.2) = some m) : Entries (fun t t' => f t = some t') l m :=
  (forall₂_of_mapM h).imp fun p q hpq => by
    obtain ⟨t', ht', rfl⟩ := map_eq_some_iff.1 hpq
    exact ⟨rfl, ht'⟩

theorem congruent_of_refineChildren {f : Ty ℕ → Option (Ty ℕ)} {t t' : Ty ℕ}
    (h : t.refineChildren f = some t') : Congruent (fun t t' => f t = some t') t t' := by
  cases t with
  | optional i t =>
    obtain ⟨u, hu, rfl⟩ := map_eq_some_iff.1 h
    exact .optional i hu
  | list i t =>
    obtain ⟨u, hu, rfl⟩ := map_eq_some_iff.1 h
    exact .list i hu
  | isoRec i x b =>
    obtain ⟨u, hu, rfl⟩ := map_eq_some_iff.1 h
    exact .isoRec i x hu
  | dict i k v =>
    obtain ⟨k', hk, h⟩ := bind_eq_some_iff.1 h
    obtain ⟨v', hv, rfl⟩ := map_eq_some_iff.1 h
    exact .dict i hk hv
  | record i fs =>
    obtain ⟨fs', hfs, rfl⟩ := map_eq_some_iff.1 h
    exact .record i (entries_of_mapM hfs)
  | fn i tps ps r =>
    obtain ⟨tps', htps, h⟩ := bind_eq_some_iff.1 h
    obtain ⟨ps', hps, h⟩ := bind_eq_some_iff.1 h
    obtain ⟨r', hr, rfl⟩ := map_eq_some_iff.1 h
    exact .fn i (entries_of_mapM htps) (forall₂_of_mapM hps) hr
  | _ =>
  cases h
  exact .leaf rfl

end Ty

namespace ProvenSet

/-- Replace what the map replaces, in the replacements too. -/
def refineTypeInner (s : ProvenSet) : ℕ → Ty ℕ → Option (Ty ℕ)
  | 0, _ => none
  | n + 1, t =>
    match s.refinesTo.lookup t.id with
    | some r => s.refineTypeInner n r
    | none => t.refineChildren (s.refineTypeInner n)

/-- Apply the proven replacements to a type. -/
def refineType (s : ProvenSet) (n : ℕ) (t : Ty ℕ) : Option (Ty ℕ) :=
  if s.refinesTo.isEmpty then some t else s.refineTypeInner n t

/-- Refining the type comes to a result. -/
def RefineHalts (s : ProvenSet) (t : Ty ℕ) : Prop := ∃ n r, s.refineType n t = some r

theorem below_refineChildren {f g : Ty ℕ → Option (Ty ℕ)} (h : ∀ t, Below (f t) (g t)) (t : Ty ℕ) :
    Below (t.refineChildren f) (t.refineChildren g) := by
  cases t with
  | optional i t | list i t | isoRec i x t => exact (h t).map _
  | dict i k v => exact (h k).bind fun _ => (h v).map _
  | record i fs => exact (Below.mapM fun f _ => (h f.2).map _).map _
  | fn i tps ps r =>
    exact (Below.mapM fun b _ => (h b.2).map _).bind fun _ =>
      (Below.mapM fun p _ => h p).bind fun _ => (h r).map _
  | _ => exact Below.refl _

variable {s : ProvenSet}

theorem refineTypeInner_mono {n m : ℕ} (hn : n ≤ m) (t : Ty ℕ) :
    Below (s.refineTypeInner n t) (s.refineTypeInner m t) := by
  induction n generalizing m t with
  | zero => exact nofun
  | succ n ih =>
  obtain ⟨m, rfl⟩ := Nat.exists_eq_add_of_le' hn
  have hm : n ≤ m + n := Nat.le_add_left n m
  rw [show m + (n + 1) = (m + n) + 1 from rfl, refineTypeInner, refineTypeInner]
  split
  · exact ih hm _
  · exact below_refineChildren (ih hm) t

theorem exists_mapM {α β : Type} {f : α → Option β} {l : List α} (h : ∀ a ∈ l, ∃ b, f a = some b) :
    ∃ bs, l.mapM f = some bs := by
  induction l with
  | nil => exact ⟨[], rfl⟩
  | cons a l ih =>
  obtain ⟨⟨b, hb⟩, hl⟩ := forall_mem_cons.1 h
  obtain ⟨bs, hbs⟩ := ih hl
  exact ⟨b :: bs, by rw [mapM_cons, hb, hbs]; rfl⟩

theorem refineChildren_isSome {f : Ty ℕ → Option (Ty ℕ)} {t : Ty ℕ}
    (h : ∀ c ∈ t.children, ∃ r, f c = some r) : ∃ r, t.refineChildren f = some r := by
  cases t with
  | optional i t | list i t | isoRec i x t =>
    obtain ⟨r, hr⟩ := h t mem_cons_self
    exact ⟨_, by rw [Ty.refineChildren, hr]; rfl⟩
  | dict i k v =>
    obtain ⟨k', hk⟩ := h k mem_cons_self
    obtain ⟨v', hv⟩ := h v (mem_cons_of_mem _ mem_cons_self)
    exact ⟨_, by rw [Ty.refineChildren, hk, hv]; rfl⟩
  | record i fs =>
    obtain ⟨fs', hfs⟩ := exists_mapM (f := fun p : String × Ty ℕ => (p.1, ·) <$> f p.2) (l := fs)
      fun p hp => by
        obtain ⟨r, hr⟩ := h p.2 (mem_map_of_mem hp)
        exact ⟨_, by rw [hr]; rfl⟩
    exact ⟨_, by rw [Ty.refineChildren, hfs]; rfl⟩
  | fn i tps ps r =>
    obtain ⟨tps', htps⟩ := exists_mapM (f := fun b : ℕ × Ty ℕ => (b.1, ·) <$> f b.2) (l := tps)
      fun b hb => by
        obtain ⟨r, hr⟩ := h b.2 (mem_append_left _ (mem_map_of_mem hb))
        exact ⟨_, by rw [hr]; rfl⟩
    obtain ⟨ps', hps⟩ := exists_mapM (f := f) (l := ps) fun p hp =>
      h p (mem_append_right _ (mem_append_left _ hp))
    obtain ⟨r', hr⟩ := h r (mem_append_right _ (mem_append_right _ mem_cons_self))
    exact ⟨_, by rw [Ty.refineChildren, htps, hps, hr]; rfl⟩
  | _ => exact ⟨_, rfl⟩

/-- Finitely many types have one amount of fuel in common. -/
theorem exists_fuel_of_children {l : List (Ty ℕ)}
    (h : ∀ c ∈ l, ∃ n r, s.refineTypeInner n c = some r) :
    ∃ n, ∀ c ∈ l, ∃ r, s.refineTypeInner n c = some r := by
  induction l with
  | nil => exact ⟨0, nofun⟩
  | cons c l ih =>
  obtain ⟨⟨n, r, hr⟩, hl⟩ := forall_mem_cons.1 h
  obtain ⟨m, hm⟩ := ih hl
  refine ⟨max n m, forall_mem_cons.2 ⟨⟨r, ?_⟩, fun c' hc' => ?_⟩⟩
  · exact refineTypeInner_mono (Nat.le_max_left n m) c r hr
  · obtain ⟨r', hr'⟩ := hm c' hc'
    exact ⟨r', refineTypeInner_mono (Nat.le_max_right n m) c' r' hr'⟩

/-- A node is refined if what is to be refined in its place is. -/
theorem refineTypeInner_halts {t : Ty ℕ}
    (hkey : ∀ r, s.refinesTo.lookup t.id = some r → ∃ n r', s.refineTypeInner n r = some r')
    (hchildren : ∀ c ∈ t.children, ∃ n r', s.refineTypeInner n c = some r') :
    ∃ n r', s.refineTypeInner n t = some r' := by
  cases h : s.refinesTo.lookup t.id with
  | some r =>
    obtain ⟨n, r', hr⟩ := hkey r h
    refine ⟨n + 1, r', ?_⟩
    rw [refineTypeInner, h]
    exact hr
  | none =>
  obtain ⟨n, hn⟩ := exists_fuel_of_children hchildren
  obtain ⟨r', hr⟩ := refineChildren_isSome hn
  refine ⟨n + 1, r', ?_⟩
  rw [refineTypeInner, h]
  exact hr

end ProvenSet

end Skyr.Sclc
