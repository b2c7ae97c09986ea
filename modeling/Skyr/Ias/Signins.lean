import Skyr.Udb

/-!
# The signature counter of a credential

A WebAuthn sign-in reads the stored counter, compares it with the one it was given, verifies the
signature and then overwrites the stored one.  An SSH sign-in with the same key writes the record
anew.  Any number of them run side by side here, and each command of the store is one step.
-/

namespace Skyr.Ias

open Function Udb

/-- A sign-in, by the command that it is about to send. -/
inductive Signin
  /-- Look for the credential of an assertion, whose signature `verifies` for some keys. -/
  | webauthn (credentialId : String) (signCount : ℕ) (verifies : String → Bool)
  | updateSignCount (credential : Credential) (signCount : ℕ)
  | ssh (publicKey : String)
  | clearId
  | clearSignCount

/-- What a command does to the record, and how the sign-in goes on. -/
def Signin.send (c : Credential) : Signin → Credential × Option Signin
  | webauthn id n verifies =>
    (c, if c.credentialId ≠ some id then none
      else if (0 < n ∨ 0 < c.signCount) ∧ n ≤ c.signCount then none
      else if verifies c.publicKey then some (.updateSignCount c n) else none)
  | updateSignCount _ n => ({ c with signCount := n }, none)
  | ssh publicKey => ({ c with publicKey }, some .clearId)
  | clearId => ({ c with credentialId := none }, some .clearSignCount)
  | clearSignCount => ({ c with signCount := 0 }, none)

/-- A counter that is about to be stored has passed the comparison. -/
def Signin.Compared : Signin → Prop
  | updateSignCount c n => c.signCount < n ∨ n = 0 ∧ c.signCount = 0
  | _ => True

/-- The record, the sign-ins in progress, and the counters of those that were accepted. -/
structure Signins (ι : Type) where
  credential : Credential
  tasks : ι → Option Signin
  accepted : List ℕ

namespace Signins

variable {ι : Type} [DecidableEq ι]

/-- A sign-in begins, sends its command, or ends without going on. -/
inductive Action (ι : Type)
  | webauthn (i : ι) (credentialId : String) (signCount : ℕ) (verifies : String → Bool)
  | ssh (i : ι) (publicKey : String)
  | send (i : ι)
  | crash (i : ι)

def step (x : Signins ι) : Action ι → Signins ι
  | .webauthn i id n verifies =>
    { x with tasks := update x.tasks i ((x.tasks i).or (some (.webauthn id n verifies))) }
  | .ssh i key => { x with tasks := update x.tasks i ((x.tasks i).or (some (.ssh key))) }
  | .send i =>
    match x.tasks i with
    | none => x
    | some t => ⟨(t.send x.credential).1, update x.tasks i (t.send x.credential).2,
        match t with
        | .updateSignCount _ n => n :: x.accepted
        | _ => x.accepted⟩
  | .crash i => { x with tasks := update x.tasks i none }

/-- What runs lead to whose steps are all of a kind. -/
inductive Reached (P : Signins ι → Action ι → Prop) : Signins ι → Prop
  | start (c : Credential) : Reached P ⟨c, fun _ => none, []⟩
  | step {x : Signins ι} {a : Action ι} : Reached P x → P x a → Reached P (x.step a)

/-- A counter is overwritten only while it is the one that was compared, and cleared only if it is
zero. -/
def Undisturbed (x : Signins ι) : Action ι → Prop
  | .send i =>
    match x.tasks i with
    | some (.updateSignCount c _) => x.credential.signCount = c.signCount
    | some .clearSignCount => x.credential.signCount = 0
    | _ => True
  | _ => True

/-- The accepted counters are below the stored one and do not repeat. -/
structure Sound (x : Signins ι) : Prop where
  nodup : (x.accepted.filter (0 < ·)).Nodup
  le : ∀ n ∈ x.accepted, n ≤ x.credential.signCount
  compared : ∀ i, ∀ t ∈ x.tasks i, t.Compared

variable {x : Signins ι}

theorem Sound.compared_update (h : x.Sound) {i : ι} {v : Option Signin}
    (hv : ∀ t ∈ v, t.Compared) : ∀ j, ∀ t ∈ update x.tasks i v j, t.Compared :=
  (forall_update_iff x.tasks fun _ v => ∀ t ∈ v, t.Compared).2 ⟨hv, fun j _ => h.compared j⟩

theorem Sound.step (h : x.Sound) {a : Action ι} (ha : x.Undisturbed a) :
    x.credential.signCount ≤ (x.step a).credential.signCount ∧ (x.step a).Sound := by
  cases a with
  | webauthn i | ssh i =>
    refine ⟨le_rfl, h.nodup, h.le, h.compared_update (i := i) fun t hv => ?_⟩
    cases ht : x.tasks i with
    | none =>
      rw [ht] at hv
      cases hv
      trivial
    | some t' =>
    rw [ht] at hv
    exact h.compared i t (ht ▸ hv)
  | crash i => exact ⟨le_rfl, h.nodup, h.le, h.compared_update nofun⟩
  | send i =>
  cases ht : x.tasks i with
  | none => simpa [Signins.step, ht] using h
  | some t =>
  simp only [Undisturbed, ht] at ha
  simp only [Signins.step, ht]
  cases t with
  | webauthn id n verifies =>
    refine ⟨le_rfl, h.nodup, h.le, h.compared_update fun t hv => ?_⟩
    simp only [Signin.send, Option.mem_def] at hv
    split_ifs at hv
    cases hv
    simp only [Signin.Compared]
    omega
  | updateSignCount c n =>
    have hcompared : c.signCount < n ∨ n = 0 ∧ c.signCount = 0 := h.compared i _ ht
    have hle : x.credential.signCount ≤ n := by omega
    refine ⟨hle, ?_, fun m hm => ?_, h.compared_update nofun⟩
    · by_cases hn : 0 < n
      · have hnew : n ∉ x.accepted := fun hm => by have := h.le n hm; omega
        simpa [hn, hnew] using h.nodup
      · simpa [hn] using h.nodup
    rcases List.mem_cons.1 hm with rfl | hm
    · exact le_rfl
    · exact (h.le m hm).trans hle
  | ssh | clearId =>
    refine ⟨le_rfl, h.nodup, h.le, h.compared_update fun t hv => ?_⟩
    cases hv
    trivial
  | clearSignCount =>
  have ha : x.credential.signCount ≤ 0 := ha.le
  exact ⟨ha, h.nodup, fun m hm => (h.le m hm).trans ha, h.compared_update nofun⟩

/-- **While no sign-in comes between the comparison and the update of another, the counter does not
decrease and no positive one is accepted twice.** -/
theorem counters_increase (h : Reached Undisturbed x) : (x.accepted.filter (0 < ·)).Nodup ∧
    ∀ a, x.Undisturbed a → x.credential.signCount ≤ (x.step a).credential.signCount := by
  have hsound : x.Sound := by
    induction h with
    | start => exact ⟨.nil, by simp, by simp⟩
    | step _ ha ih => exact (ih.step ha).2
  exact ⟨hsound.nodup, fun a ha => (hsound.step ha).1⟩

/-- Two sign-ins.  While the first one is verified an SSH sign-in writes the key, and it ends before
it clears anything. -/
theorem signins_count : ∃ x : Signins Bool, x.accepted = [6, 5] ∧
    (x.accepted.filter (0 < ·)).Nodup := by
  have hrun := Reached.start (P := Undisturbed (ι := Bool)) ⟨"key", some "id", 4⟩
    |>.step (a := .webauthn true "id" 5 fun _ => true) trivial
    |>.step (a := .send true) trivial
    |>.step (a := .ssh false "key") trivial
    |>.step (a := .send false) trivial
    |>.step (a := .send true) rfl
    |>.step (a := .crash false) trivial
    |>.step (a := .webauthn true "id" 6 fun _ => true) trivial
    |>.step (a := .send true) trivial
    |>.step (a := .send true) rfl
  exact ⟨_, rfl, (counters_increase hrun).1⟩

/-- Two copies of an assertion are compared before either of them is stored. -/
theorem copy_accepted : ¬∀ x : Signins Bool, Reached (fun _ _ => True) x →
    (x.accepted.filter (0 < ·)).Nodup := by
  intro h
  have hrun := Reached.start (P := fun (_ : Signins Bool) _ => True) ⟨"key", some "id", 4⟩
    |>.step (a := .webauthn true "id" 5 fun _ => true) trivial
    |>.step (a := .webauthn false "id" 5 fun _ => true) trivial
    |>.step (a := .send true) trivial |>.step (a := .send false) trivial
    |>.step (a := .send true) trivial |>.step (a := .send false) trivial
  exact absurd (h _ hrun) (by decide)

end Signins

end Skyr.Ias
