import Mathlib.Data.List.Perm.Basic
import Mathlib.Data.Nat.Bitwise

/-!
# Buddy allocation

A range of addresses whose size is a power of two is divided into blocks.  A block is free, given
to somebody, or split into two halves that are buddies.

Every operation walks down the tree with the first address `base` and the height `h` of the block
it is at; a block of height `h` has `2 ^ h` addresses, and begins at a multiple of that.

What a tree stands for is `owner`: who an address is given to.  `Gives` says how a tree differs
from another one in which a block has not been given away yet; allocating and seeding do that
(`allocate_spec`, `seed_spec`).  Releasing takes everything back from one owner
(`release_takes`).

No block is split into two free halves (`Merged`), and therefore allocating is complete: it fails
only where no block of the size is free (`exists_owned_of_allocate`).
-/

/-- A block. -/
inductive Buddy (α : Type)
  | free
  | allocated (a : α)
  | split (left right : Buddy α)
deriving DecidableEq

namespace Buddy

open Nat List

open Nat

variable {α : Type}

/-- Where the right half of a block begins, if the halves have the height `h`. -/
def upper (base h : ℕ) : ℕ := base ||| 2 ^ h

/-- A free block of which the part at `target` is given away, `d` levels below. -/
def plant (a : α) (target : ℕ) : ℕ → ℕ → ℕ → Buddy α
  | 0, _, _ => allocated a
  | d + 1, base, h =>
    if target < upper base (h - 1) then split (plant a target d base (h - 1)) free
    else split free (plant a target d (upper base (h - 1)) (h - 1))

/-- Give away a block of height `t`, the leftmost one there is. -/
def allocate (a : α) (t : ℕ) : Buddy α → ℕ → ℕ → Option ℕ × Buddy α
  | allocated b, _, _ => (none, allocated b)
  | free, base, h =>
    if h = t then (some base, allocated a)
    else if t < h then (some base, plant a base (h - t) base h)
    else (none, free)
  | split l r, base, h =>
    match allocate a t l base (h - 1) with
    | (some b, l) => (some b, split l r)
    | (none, l) =>
      let (found, r) := allocate a t r (upper base (h - 1)) (h - 1)
      (found, split l r)

/-- Give away the block of height `t` at `target`, if it is free. -/
def seed (a : α) (target t : ℕ) : Buddy α → ℕ → ℕ → Bool × Buddy α
  | allocated b, _, _ => (false, allocated b)
  | free, base, h => if t ≤ h then (true, plant a target (h - t) base h) else (false, free)
  | split l r, base, h =>
    if t < h then
      if target < upper base (h - 1) then
        let (done, l) := seed a target t l base (h - 1)
        (done, split l r)
      else
        let (done, r) := seed a target t r (upper base (h - 1)) (h - 1)
        (done, split l r)
    else (false, split l r)

/-- Two free halves are a free block. -/
def join : Buddy α → Buddy α → Buddy α
  | free, free => free
  | l, r => split l r

/-- Take back a block from its owner: the first one found. -/
def release [DecidableEq α] (a : α) : Buddy α → Bool × Buddy α
  | free => (false, free)
  | allocated b => if b = a then (true, free) else (false, allocated b)
  | split l r =>
    match release a l with
    | (true, l) => (true, join l r)
    | (false, l) =>
      match release a r with
      | (true, r) => (true, join l r)
      | (false, r) => (false, split l r)

/-! ## What a tree stands for -/

/-- Who an address is given to. -/
def owner : Buddy α → ℕ → ℕ → ℕ → Option α
  | free, _, _, _ => none
  | allocated a, _, _, _ => some a
  | split l r, base, h, x =>
    if x < upper base (h - 1) then owner l base (h - 1) x
    else owner r (upper base (h - 1)) (h - 1) x

/-- The owners of the blocks. -/
def owners : Buddy α → List α
  | free => []
  | allocated a => [a]
  | split l r => owners l ++ owners r

/-- The tree is not deeper than the block is high. -/
def Fits : Buddy α → ℕ → Prop
  | split l r, h + 1 => Fits l h ∧ Fits r h
  | split _ _, 0 => False
  | _, _ => True

/-- No block is split into two free halves. -/
def Merged : Buddy α → Prop
  | split l r => l.Merged ∧ r.Merged ∧ ¬ (l = free ∧ r = free)
  | _ => True

theorem upper_eq {base h : ℕ} (hbase : 2 ^ (h + 1) ∣ base) : upper base h = base + 2 ^ h := by
  obtain ⟨k, rfl⟩ := hbase
  have hor := shiftLeft_add_eq_or_of_lt (Nat.pow_lt_pow_right Nat.one_lt_two (Nat.lt_succ_self h)) k
  rw [Nat.shiftLeft_eq, Nat.mul_comm] at hor
  exact hor.symm

theorem dvd_upper {base h : ℕ} (hbase : 2 ^ (h + 1) ∣ base) :
    2 ^ h ∣ base ∧ 2 ^ h ∣ upper base h := by
  have hleft : 2 ^ h ∣ base := (Nat.pow_dvd_pow 2 (le_succ h)).trans hbase
  refine ⟨hleft, ?_⟩
  rw [upper_eq hbase]
  exact Nat.dvd_add hleft (Nat.dvd_refl _)

theorem owner_split {l r : Buddy α} {base h x : ℕ} :
    (split l r).owner base (h + 1) x =
      if x < upper base h then l.owner base h x else r.owner (upper base h) h x := rfl

theorem owner_split_free (base h x : ℕ) : (split free free : Buddy α).owner base h x = none := by
  rw [owner]
  split <;> rfl

theorem mem_owners {T : Buddy α} {base h x : ℕ} {a : α} (hx : T.owner base h x = some a) :
    a ∈ T.owners := by
  induction T generalizing base h with
  | free => cases hx
  | allocated b =>
    cases hx
    exact mem_singleton_self _
  | split l r ihl ihr =>
  rw [owner] at hx
  split at hx
  · exact mem_append_left _ (ihl hx)
  · exact mem_append_right _ (ihr hx)

/-! ## Giving away -/

/-- The tree `T'` is `T` with the block of height `t` at `b` given to `a`. -/
structure Gives (a : α) (b t base h : ℕ) (T T' : Buddy α) : Prop where
  low : base ≤ b
  high : b + 2 ^ t ≤ base + 2 ^ h
  aligned : 2 ^ t ∣ b
  before : ∀ x, b ≤ x → x < b + 2 ^ t → T.owner base h x = none
  after : ∀ x, b ≤ x → x < b + 2 ^ t → T'.owner base h x = some a
  rest : ∀ x, base ≤ x → x < base + 2 ^ h → ¬ (b ≤ x ∧ x < b + 2 ^ t) →
    T'.owner base h x = T.owner base h x
  owners : T'.owners.Perm (a :: T.owners)
  fits : T'.Fits h

variable {a : α} {b t base h : ℕ} {T T' l l' r r' : Buddy α}

theorem two_pow_succ (h : ℕ) : 2 ^ (h + 1) = 2 ^ h + 2 ^ h := by rw [pow_succ, mul_two]

theorem gives_left (hbase : 2 ^ (h + 1) ∣ base) (hr : r.Fits h) (hl : Gives a b t base h l l') :
    Gives a b t base (h + 1) (split l r) (split l' r) := by
  have hup := upper_eq hbase
  have hhigh := hl.high
  have hpow := two_pow_succ h
  refine ⟨hl.low, by omega, hl.aligned, fun x hx hx' => ?_, fun x hx hx' => ?_,
    fun x hx hx' hne => ?_, hl.owners.append_right r.owners, hl.fits, hr⟩
  · rw [owner_split, if_pos (by omega)]
    exact hl.before x hx hx'
  · rw [owner_split, if_pos (by omega)]
    exact hl.after x hx hx'
  rw [owner_split, owner_split]
  split
  · exact hl.rest x hx (by omega) hne
  · rfl

theorem gives_right (hbase : 2 ^ (h + 1) ∣ base) (hl : l.Fits h)
    (hr : Gives a b t (upper base h) h r r') :
    Gives a b t base (h + 1) (split l r) (split l r') := by
  have hup := upper_eq hbase
  have hlow := hr.low
  have hhigh := hr.high
  have hpow := two_pow_succ h
  refine ⟨by omega, by omega, hr.aligned, fun x hx hx' => ?_, fun x hx hx' => ?_,
    fun x hx hx' hne => ?_, (hr.owners.append_left l.owners).trans perm_middle, hl, hr.fits⟩
  · rw [owner_split, if_neg (by omega)]
    exact hr.before x hx hx'
  · rw [owner_split, if_neg (by omega)]
    exact hr.after x hx hx'
  rw [owner_split, owner_split]
  split
  · rfl
  · exact hr.rest x (by omega) (by omega) hne

/-- A free block is as good as a split one with free halves. -/
theorem gives_free (hT : Gives a b t base h (split free free) T') : Gives a b t base h free T' := by
  refine ⟨hT.low, hT.high, hT.aligned, fun _ _ _ => rfl, hT.after, fun x hx hx' hne => ?_,
    hT.owners, hT.fits⟩
  rw [hT.rest x hx hx' hne, owner_split_free, owner]

/-- A block that begins in the left half of a larger one ends there. -/
theorem le_upper (hbase : 2 ^ (h + 1) ∣ base) (hb : 2 ^ t ∣ b) (hth : t ≤ h)
    (hlt : b < upper base h) : b + 2 ^ t ≤ upper base h := by
  obtain ⟨k, hk⟩ := (Nat.pow_dvd_pow 2 hth).trans (dvd_upper hbase).2
  obtain ⟨j, rfl⟩ := hb
  rw [hk] at hlt ⊢
  have hjk : j < k := Nat.lt_of_mul_lt_mul_left hlt
  calc 2 ^ t * j + 2 ^ t = 2 ^ t * (j + 1) := by rw [Nat.mul_succ]
    _ ≤ 2 ^ t * k := mul_le_mul_left _ hjk

theorem plant_gives {d : ℕ} (hbase : 2 ^ (t + d) ∣ base) (hb : 2 ^ t ∣ b) (hlow : base ≤ b)
    (hhigh : b + 2 ^ t ≤ base + 2 ^ (t + d)) :
    Gives a b t base (t + d) free (plant a b d base (t + d)) := by
  induction d generalizing base with
  | zero =>
    rw [add_zero] at hhigh ⊢
    obtain rfl : b = base := by omega
    exact ⟨hlow, hhigh, hb, fun _ _ _ => rfl, fun _ _ _ => rfl,
      fun x hx hx' hne => absurd ⟨hx, hx'⟩ hne, List.Perm.refl _, trivial⟩
  | succ d ih =>
  rw [← add_assoc] at hbase hhigh ⊢
  have hup := upper_eq hbase
  have hpow := two_pow_succ (t + d)
  refine gives_free ?_
  rw [plant]
  by_cases hlt : b < upper base (t + d)
  · rw [Nat.add_sub_cancel, if_pos hlt]
    have hle := le_upper hbase hb (Nat.le_add_right t d) hlt
    exact gives_left hbase trivial (ih (dvd_upper hbase).1 hlow (by omega))
  · rw [Nat.add_sub_cancel, if_neg hlt]
    exact gives_right hbase trivial (ih (dvd_upper hbase).2 (by omega) (by omega))

theorem Fits.split_inv (hT : (split l r).Fits h) : ∃ k, h = k + 1 ∧ l.Fits k ∧ r.Fits k := by
  cases h with
  | zero => exact hT.elim
  | succ k => exact ⟨k, rfl, hT⟩

/-- **Allocating** gives away a block that was free, or changes nothing. -/
theorem allocate_spec (hT : T.Fits h) (hbase : 2 ^ h ∣ base) :
    (∃ b T', T.allocate a t base h = (some b, T') ∧ Gives a b t base h T T') ∨
      T.allocate a t base h = (none, T) := by
  induction T generalizing base h with
  | allocated c => exact .inr rfl
  | free =>
    rw [allocate]
    rcases lt_trichotomy t h with hlt | rfl | hgt
    · obtain ⟨d, rfl⟩ := Nat.exists_eq_add_of_le hlt.le
      rw [if_neg (by omega), if_pos hlt, Nat.add_sub_cancel_left]
      have hpow : 2 ^ t ≤ 2 ^ (t + d) := Nat.pow_le_pow_right (by decide) hlt.le
      exact .inl ⟨_, _, rfl, plant_gives hbase ((Nat.pow_dvd_pow 2 hlt.le).trans hbase)
        (Nat.le_refl _) (by omega)⟩
    · rw [if_pos rfl]
      exact .inl ⟨_, _, rfl, plant_gives (d := 0) hbase hbase (Nat.le_refl _) (Nat.le_refl _)⟩
    · rw [if_neg (by omega), if_neg (by omega)]
      exact .inr rfl
  | split l r ihl ihr =>
  obtain ⟨k, rfl, hl, hr⟩ := hT.split_inv
  rw [allocate]
  rcases ihl hl (dvd_upper hbase).1 with ⟨b, l', heq, hgives⟩ | heq
  · rw [Nat.add_sub_cancel, heq]
    exact .inl ⟨_, _, rfl, gives_left hbase hr hgives⟩
  rw [Nat.add_sub_cancel, heq]
  rcases ihr hr (dvd_upper hbase).2 with ⟨b, r', heq, hgives⟩ | heq
  · rw [heq]
    exact .inl ⟨_, _, rfl, gives_right hbase hl hgives⟩
  · rw [heq]
    exact .inr rfl

/-- **Seeding** gives away the block it is told to, if it was free, or changes nothing. -/
theorem seed_spec (hT : T.Fits h) (hbase : 2 ^ h ∣ base) (hb : 2 ^ t ∣ b) (hlow : base ≤ b)
    (hhigh : b + 2 ^ t ≤ base + 2 ^ h) :
    (∃ T', T.seed a b t base h = (true, T') ∧ Gives a b t base h T T') ∨
      T.seed a b t base h = (false, T) := by
  induction T generalizing base h with
  | allocated c => exact .inr rfl
  | free =>
    rw [seed]
    by_cases hth : t ≤ h
    · obtain ⟨d, rfl⟩ := Nat.exists_eq_add_of_le hth
      rw [if_pos hth, Nat.add_sub_cancel_left]
      exact .inl ⟨_, rfl, plant_gives hbase hb hlow hhigh⟩
    · rw [if_neg hth]
      exact .inr rfl
  | split l r ihl ihr =>
  obtain ⟨k, rfl, hl, hr⟩ := hT.split_inv
  have hup := upper_eq hbase
  have hpow := two_pow_succ k
  rw [seed, Nat.add_sub_cancel]
  by_cases hth : t < k + 1
  · rw [if_pos hth]
    by_cases hlt : b < upper base k
    · have hle := le_upper hbase hb (le_of_lt_succ hth) hlt
      rw [if_pos hlt]
      rcases ihl hl (dvd_upper hbase).1 hlow (by omega) with ⟨l', heq, hgives⟩ | heq
      · rw [heq]
        exact .inl ⟨_, rfl, gives_left hbase hr hgives⟩
      · rw [heq]
        exact .inr rfl
    rw [if_neg hlt]
    rcases ihr hr (dvd_upper hbase).2 (by omega) (by omega) with ⟨r', heq, hgives⟩ | heq
    · rw [heq]
      exact .inl ⟨_, rfl, gives_right hbase hl hgives⟩
    · rw [heq]
      exact .inr rfl
  · rw [if_neg hth]
    exact .inr rfl

/-! ## Free halves are merged -/

/-- A tree is unchanged, or it has become one that is not free and is merged if it was. -/
def Planted (T T' : Buddy α) : Prop := T' = T ∨ T' ≠ free ∧ (T.Merged → T'.Merged)

theorem Planted.merged (h : Planted T T') (hT : T.Merged) : T'.Merged := by
  rcases h with rfl | ⟨-, h⟩
  · exact hT
  · exact h hT

theorem Planted.trans {T'' : Buddy α} (h : Planted T T') (h' : Planted T' T'') : Planted T T'' := by
  rcases h' with rfl | ⟨hne, h'⟩
  · exact h
  · exact .inr ⟨hne, fun hT => h' (h.merged hT)⟩

theorem planted_left (h : Planted l l') : Planted (split l r) (split l' r) := by
  rcases h with rfl | ⟨hne, h⟩
  · exact .inl rfl
  · exact .inr ⟨nofun, fun hT => ⟨h hT.1, hT.2.1, fun hfree => hne hfree.1⟩⟩

theorem planted_right (h : Planted r r') : Planted (split l r) (split l r') := by
  rcases h with rfl | ⟨hne, h⟩
  · exact .inl rfl
  · exact .inr ⟨nofun, fun hT => ⟨hT.1, h hT.2.1, fun hfree => hne hfree.2⟩⟩

theorem plant_planted (a : α) (b d base h : ℕ) : Planted free (plant a b d base h) := by
  suffices hplant : plant a b d base h ≠ free ∧ (plant a b d base h).Merged from
    .inr ⟨hplant.1, fun _ => hplant.2⟩
  induction d generalizing base h with
  | zero => exact ⟨nofun, trivial⟩
  | succ d ih =>
  rw [plant]
  split
  · exact ⟨nofun, (ih _ _).2, trivial, fun hfree => (ih _ _).1 hfree.1⟩
  · exact ⟨nofun, trivial, (ih _ _).2, fun hfree => (ih _ _).1 hfree.2⟩

theorem allocate_planted (T : Buddy α) (base h : ℕ) : Planted T (T.allocate a t base h).2 := by
  induction T generalizing base h with
  | allocated b => exact .inl rfl
  | free =>
    rw [allocate]
    split
    · exact plant_planted a base 0 base h
    split
    · exact plant_planted ..
    · exact .inl rfl
  | split l r ihl ihr =>
  have hl := ihl base (h - 1)
  have hr := ihr (upper base (h - 1)) (h - 1)
  rw [allocate]
  generalize l.allocate a t base (h - 1) = found at hl ⊢
  obtain ⟨_ | b, l'⟩ := found
  · exact (planted_left hl).trans (planted_right hr)
  · exact planted_left hl

theorem seed_planted (T : Buddy α) (base h : ℕ) : Planted T (T.seed a b t base h).2 := by
  induction T generalizing base h with
  | allocated c => exact .inl rfl
  | free =>
    rw [seed]
    split
    · exact plant_planted ..
    · exact .inl rfl
  | split l r ihl ihr =>
  rw [seed]
  split
  · split
    · exact planted_left (ihl ..)
    · exact planted_right (ihr ..)
  · exact .inl rfl

/-- Below a block that is not free some address is given away. -/
theorem exists_owned (hT : T.Fits h) (hmerged : T.Merged) (hne : T ≠ free) (hbase : 2 ^ h ∣ base) :
    ∃ x, base ≤ x ∧ x < base + 2 ^ h ∧ T.owner base h x ≠ none := by
  induction T generalizing base h with
  | free => exact absurd rfl hne
  | allocated b => exact ⟨base, le_refl base, Nat.lt_add_of_pos_right (Nat.two_pow_pos h), nofun⟩
  | split l r ihl ihr =>
  obtain ⟨k, rfl, hl, hr⟩ := hT.split_inv
  have hup := upper_eq hbase
  have hpow := two_pow_succ k
  by_cases hfree : l = free
  · obtain ⟨x, hlow, hhigh, hx⟩ := ihr hr hmerged.2.1 (fun hr => hmerged.2.2 ⟨hfree, hr⟩)
      (dvd_upper hbase).2
    exact ⟨x, by omega, by omega, by rwa [owner_split, if_neg (by omega)]⟩
  · obtain ⟨x, hlow, hhigh, hx⟩ := ihl hl hmerged.1 hfree (dvd_upper hbase).1
    exact ⟨x, hlow, by omega, by rwa [owner_split, if_pos (by omega)]⟩

/-- **Allocating is complete**: where it fails, every block of the size has an owner somewhere. -/
theorem exists_owned_of_allocate (hT : T.Fits h) (hmerged : T.Merged) (hbase : 2 ^ h ∣ base)
    (hth : t ≤ h) (hfail : (T.allocate a t base h).1 = none) (hb : 2 ^ t ∣ b) (hlow : base ≤ b)
    (hhigh : b + 2 ^ t ≤ base + 2 ^ h) :
    ∃ x, b ≤ x ∧ x < b + 2 ^ t ∧ T.owner base h x ≠ none := by
  induction T generalizing base h with
  | allocated c => exact ⟨b, le_refl b, Nat.lt_add_of_pos_right (Nat.two_pow_pos t), nofun⟩
  | free =>
    rw [allocate] at hfail
    split at hfail
    · cases hfail
    · rw [if_pos (by omega)] at hfail
      cases hfail
  | split l r ihl ihr =>
  obtain ⟨k, rfl, hl, hr⟩ := hT.split_inv
  have hup := upper_eq hbase
  have hpow := two_pow_succ k
  rw [allocate, Nat.add_sub_cancel] at hfail
  rcases lt_or_eq_of_le hth with hlt | rfl
  · have hk : t ≤ k := le_of_lt_succ hlt
    have hleft : (l.allocate a t base k).1 = none := by
      rcases hfound : l.allocate a t base k with ⟨_ | c, l'⟩
      · rfl
      · rw [hfound] at hfail
        cases hfail
    by_cases hside : b < upper base k
    · have hle := le_upper hbase hb hk hside
      obtain ⟨x, hx, hx', hown⟩ := ihl hl hmerged.1 (dvd_upper hbase).1 hk hleft hlow (by omega)
      exact ⟨x, hx, hx', by rwa [owner_split, if_pos (by omega)]⟩
    have hright : (r.allocate a t (upper base k) k).1 = none := by
      rcases hfound : l.allocate a t base k with ⟨_ | c, l'⟩
      · rw [hfound] at hfail
        exact hfail
      · rw [hfound] at hleft
        cases hleft
    obtain ⟨x, hx, hx', hown⟩ := ihr hr hmerged.2.1 (dvd_upper hbase).2 hk hright (by omega)
      (by omega)
    exact ⟨x, hx, hx', by rwa [owner_split, if_neg (by omega)]⟩
  -- the block asked for is the whole block, and it is not free
  obtain rfl : b = base := by omega
  exact exists_owned hT hmerged nofun hbase

/-! ## Taking back -/

theorem owner_join (l r : Buddy α) (base h x : ℕ) :
    (join l r).owner base h x = (split l r).owner base h x := by
  unfold join
  split
  · rw [owner_split_free, owner]
  · rfl

theorem owners_join (l r : Buddy α) : (join l r).owners = l.owners ++ r.owners := by
  unfold join
  split <;> rfl

theorem fits_join (hl : l.Fits h) (hr : r.Fits h) : (join l r).Fits (h + 1) := by
  unfold join
  split
  · trivial
  · exact ⟨hl, hr⟩

variable [DecidableEq α]

/-- Nothing is taken back from somebody who has nothing. -/
theorem release_of_notMem (h : a ∉ T.owners) : T.release a = (false, T) := by
  induction T with
  | free => rfl
  | allocated b => exact if_neg fun hba => h (mem_singleton.2 hba.symm)
  | split l r ihl ihr =>
  rw [release, ihl fun hl => h (mem_append_left _ hl)]
  rw [ihr fun hr => h (mem_append_right _ hr)]

theorem release_of_mem (h : a ∈ T.owners) : (T.release a).1 = true := by
  induction T with
  | free => exact absurd h not_mem_nil
  | allocated b => rw [release, if_pos (mem_singleton.1 h).symm]
  | split l r ihl ihr =>
  by_cases hl : a ∈ l.owners
  · rw [release, ← Prod.mk.eta (p := l.release a), ihl hl]
  · have hr : a ∈ r.owners := (mem_append.1 h).resolve_left hl
    rw [release, release_of_notMem hl, ← Prod.mk.eta (p := r.release a), ihr hr]

/-- The tree `T'` is `T` with everything taken back from `a`. -/
structure Takes (a : α) (h : ℕ) (T T' : Buddy α) : Prop where
  owner : ∀ base x, T'.owner base h x = if T.owner base h x = some a then none else T.owner base h x
  owners : T'.owners = T.owners.erase a
  fits : T'.Fits h

theorem takes_of_notMem (hT : T.Fits h) (ha : a ∉ T.owners) : Takes a h T T :=
  ⟨fun _ _ => (if_neg fun hx => ha (mem_owners hx)).symm, (erase_of_not_mem ha).symm, hT⟩

theorem takes_join (hl : Takes a h l l') (hr : Takes a h r r')
    (howners : l'.owners ++ r'.owners = (l.owners ++ r.owners).erase a) :
    Takes a (h + 1) (split l r) (join l' r') := by
  refine ⟨fun base x => ?_, (owners_join _ _).trans howners, fits_join hl.fits hr.fits⟩
  rw [owner_join, owner_split, owner_split, hl.owner, hr.owner]
  by_cases hx : x < upper base h
  · simp only [if_pos hx]
  · simp only [if_neg hx]

/-- **Releasing** takes back the block of an owner who has only one. -/
theorem release_takes (hT : T.Fits h) (hnodup : T.owners.Nodup) : Takes a h T (T.release a).2 := by
  induction T generalizing h with
  | free => exact ⟨fun _ _ => rfl, rfl, trivial⟩
  | allocated b =>
    by_cases hba : b = a
    · subst hba
      rw [release, if_pos rfl]
      exact ⟨fun _ _ => (if_pos rfl).symm, (erase_cons_head b []).symm, trivial⟩
    have ha : a ∉ (allocated b).owners := fun h => hba (mem_singleton.1 h).symm
    rw [release_of_notMem ha]
    exact takes_of_notMem hT ha
  | split l r ihl ihr =>
  obtain ⟨k, rfl, hl, hr⟩ := hT.split_inv
  obtain ⟨hnl, hnr, hne⟩ := nodup_append.1 hnodup
  by_cases hal : a ∈ l.owners
  · have har : a ∉ r.owners := fun har => hne a hal a har rfl
    have htl := ihl hl hnl
    rw [release, ← Prod.mk.eta (p := l.release a), release_of_mem hal]
    refine takes_join htl (takes_of_notMem hr har) ?_
    rw [htl.owners, erase_append_left _ hal]
  rw [release, release_of_notMem hal]
  by_cases har : a ∈ r.owners
  · have htr := ihr hr hnr
    rw [← Prod.mk.eta (p := r.release a), release_of_mem har]
    refine takes_join (takes_of_notMem hl hal) htr ?_
    rw [htr.owners, erase_append_right _ hal]
  · rw [release_of_notMem har]
    exact takes_of_notMem hT fun h => (mem_append.1 h).elim hal har

end Buddy
