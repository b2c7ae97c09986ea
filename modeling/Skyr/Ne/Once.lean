import Skyr.Ne.Process

/-!
# Every member is notified once

The claim is taken before the work is done.  So a worker that stops after it has won the claim, and
before it has settled the delivery, leaves behind a claim with nothing done for it, and the next
delivery is acknowledged without more ado.  The same comes of a release that fails, of a claim that
is reported to have failed but was made, and of an organization whose lookup fails.

Where none of this happens, and no two members share an address, every notification is in the batch
of each member's address before its delivery is acknowledged, and only once (`notified_once`).  The
proof follows one delivery among all others: deliveries of other notifications do not touch what
concerns this one (`Core`), and of deliveries of the same notification only one is in progress at a
time.
-/

namespace Skyr.Ne

open Prog List

open Re (NotificationRequest)

abbrev Log := Prog.Log Resp

/-! ## Conditions -/

/-- A delivery that has won the claim has gone on to settle the message, or has released the
claim. -/
def Concluded (q : NotificationRequest) (l : Log) : Prop :=
  ⟨.tryClaim (idempotencyKey q), .ok .claimed⟩ ∈ l →
    ⟨.release (idempotencyKey q), .ok ()⟩ ∈ l ∨ (∃ r, ⟨.ack q, r⟩ ∈ l) ∨ ∃ r, ⟨.nack q false, r⟩ ∈ l

/-- A claim that is reported to have failed was not made, and the lookup of an organization that
exists does not fail. -/
def Honest (D : Directory) : (o : Op) → Ans o → Prop
  | .tryClaim _, reply => ∀ m, reply ≠ .error true m
  | .getOrg name, reply => (D.orgs name).isSome → ∃ cut, reply = .done cut
  | _, _ => True

/-- The conditions.  A delivery is begun when all earlier ones with its key are deliveries of the
same notification, have ended, and are concluded; the surroundings are honest; no claim expires. -/
def orderly (D : Directory) : (workers D).Conditions where
  start v q := ∀ tr ∈ v.traces, idempotencyKey tr.call = idempotencyKey q →
    tr.call = q ∧ tr.running = false ∧ Concluded q tr.log
  ask _ _ _ o a := Honest D o a
  outside _ _ := False

/-! ## What concerns one notification -/

/-- What there is of a notification: its claim, whether a delivery was acknowledged, and how often
it was put into each batch. -/
structure Core where
  claimed : Bool
  acked : Bool
  counts : String → ℕ

namespace Core

/-- Nothing has been done. -/
def fresh : Core := ⟨false, false, fun _ => 0⟩

/-- The claim is held, and some batches have been filled. -/
def sending (sent : List String) : Core := ⟨true, false, fun a => sent.count a⟩

variable (c : Core) (addresses : List String)

structure Done : Prop where
  claimed : c.claimed = true
  all : ∀ a ∈ addresses, 0 < c.counts a
  once : ∀ a, c.counts a ≤ 1

structure Safe : Prop where
  all : c.acked = true → ∀ a ∈ addresses, 0 < c.counts a
  once : ∀ a, c.counts a ≤ 1

variable {c addresses}

theorem Done.safe (h : c.Done addresses) : c.Safe addresses := ⟨fun _ => h.all, h.once⟩

theorem safe_fresh : fresh.Safe addresses := ⟨nofun, fun _ => Nat.zero_le 1⟩

theorem safe_sending {sent : List String} (h : sent.Nodup) : (sending sent).Safe addresses :=
  ⟨nofun, fun a => nodup_iff_count_le_one.1 h a⟩

theorem done_sending (h : addresses.Nodup) : (sending addresses).Done addresses :=
  ⟨rfl, fun _ ha => count_pos_iff.2 ha, fun a => nodup_iff_count_le_one.1 h a⟩

end Core

variable {D : Directory} {q : NotificationRequest}

def core (q : NotificationRequest) (s : State) : Core :=
  ⟨s.claims (idempotencyKey q), decide (q ∈ s.acked), fun a => s.batched.count (a, q)⟩

/-- The request can change what there is of a notification. -/
def Concerns (q : NotificationRequest) : Op → Prop
  | .tryClaim key => key = idempotencyKey q
  | .release key => key = idempotencyKey q
  | .enqueue _ q' => q' = q
  | .ack q' => q' = q
  | _ => False

theorem core_withClaim {key : String} (h : key ≠ idempotencyKey q) (s : State) (taken : Bool) :
    core q (s.withClaim key taken) = core q s := by
  change Core.mk (Function.update s.claims key taken (idempotencyKey q)) _ _ = _
  rw [Function.update_of_ne fun heq => h heq.symm]
  rfl

theorem core_withClaim_self (s : State) (taken : Bool) :
    core q (s.withClaim (idempotencyKey q) taken) = { core q s with claimed := taken } := by
  change Core.mk (Function.update s.claims (idempotencyKey q) taken (idempotencyKey q)) _ _ = _
  rw [Function.update_self]
  rfl

theorem core_batch_self (s : State) (a : String) :
    core q (s.batch a q) =
      { core q s with counts := fun b => (core q s).counts b + if a = b then 1 else 0 } := by
  change Core.mk _ _ (fun b => ((a, q) :: s.batched).count (b, q)) = Core.mk _ _ _
  congr 1
  funext b
  rw [count_cons]
  simp only [beq_iff_eq, Prod.mk.injEq, and_true]
  rfl

theorem core_answer {α : Type} {f : Option (ℕ × String) → State → α × State}
    (hf : ∀ cut s, core q (f cut s).2 = core q s) (reply : Reply) (s : State) :
    core q (reply.answer f s).2 = core q s := by
  cases reply with
  | done cut => exact hf cut s
  | error applied m =>
  cases applied with
  | true => exact hf _ s
  | false => rfl

/-- The other requests leave it alone. -/
theorem core_act {o : Op} (h : ¬ Concerns q o) (a : Ans o) (s : State) :
    core q (act D o a s).2 = core q s := by
  cases o with
  | tryClaim key =>
    refine core_answer (fun _ s => ?_) a s
    rw [claim]
    split
    · rfl
    · exact core_withClaim h s true
  | release key => exact core_answer (fun _ s => core_withClaim h s false) a s
  | getOrg | getUser => rfl
  | listMembers name => exact core_answer (fun _ _ => rfl) a s
  | enqueue recipient q' =>
    change Core.mk _ _ (fun b => ((recipient, q') :: s.batched).count (b, q)) = core q s
    have hne : ∀ b, ((recipient, q') == (b, q)) = false := by
      intro b
      have hq : q' ≠ q := h
      simp [hq]
    simp only [count_cons, hne]
    rfl
  | ack q' =>
    refine core_answer (fun _ s => ?_) a s
    change Core.mk _ (decide (q ∈ q' :: s.acked)) _ = core q s
    have hne : q ≠ q' := fun heq => h heq.symm
    simp only [mem_cons, hne, false_or]
    rfl
  | nack q' requeue =>
  refine core_answer (fun _ s => ?_) a s
  rw [State.dropped]
  split <;> rfl

/-! ## One delivery -/

section Delivery

/-- What there is of a notification, and how far the delivery has come. -/
def own (q : NotificationRequest) (x : State × Log) : Core × Log := (core q x.1, x.2)

/-- The others have not touched what concerns the notification. -/
def Sharing (q : NotificationRequest) (x y : State × Log) : Prop := own q y = own q x

instance (q : NotificationRequest) : Std.Refl (Sharing q) := ⟨fun _ => rfl⟩

instance (q : NotificationRequest) : IsTrans (State × Log) (Sharing q) :=
  ⟨fun _ _ _ hxy hyz => Eq.trans hyz hxy⟩

/-- What holds all along: nothing was lost or done twice, and when the delivery is concluded the
next one can begin. -/
def Sound (D : Directory) (q : NotificationRequest) (x : Core × Log) : Prop :=
  x.1.Safe (D.addresses q) ∧ (Concluded q x.2 → x.1 = .fresh ∨ x.1.Done (D.addresses q))

/-- A triple for one delivery; what it speaks of is the core and the log. -/
abbrev Follows {α : Type} (D : Directory) (q : NotificationRequest) (I : Core × Log → Prop)
    (p : Work α) (T : α → Core × Log → Prop) : Prop :=
  p.leads (sem D).logged (Honest D) (Sharing q) (fun x => Sound D q (own q x))
    (fun x => I (own q x)) fun a x => T a (own q x)

theorem stable_own (I : Core × Log → Prop) : Prog.Stable (Sharing q) fun x => I (own q x) :=
  stable_of_eq (own q) I

variable {α : Type} {T : α → Core × Log → Prop} {I : Core × Log → Prop}

/-- A request, and what it brings about for each reply. -/
theorem follows_ask {o : Op} {k : Resp o → Work α}
    {J : Resp o → Core × Log → Prop} (hI : ∀ x, I x → Sound D q x)
    (h : ∀ s l a, I (core q s, l) → Honest D o a →
      J (act D o a s).1 (core q (act D o a s).2, ⟨o, (act D o a s).1⟩ :: l))
    (hk : ∀ r, Follows D q (J r) (k r) T) : Follows D q I (.ask o k) T :=
  leads_ask (stable_own I) (fun _ hx => hI _ hx) fun x a hx ha => hk _ _ (h x.1 x.2 a hx ha)

theorem follows_ret {a : α}
    (hI : ∀ x, I x → Sound D q x) (h : ∀ x, I x → T a x) : Follows D q I (.ret a) T :=
  leads_ret (fun _ hx => hI _ hx) fun _ hx => h _ hx

theorem follows_settle (hI : ∀ x, I x → Sound D q x)
    (r : Except String Unit) : Follows D q I (Work.settle r) fun _ => I := by
  cases r with
  | ok u => exact follows_ret hI fun _ hx => hx
  | error m => exact fun x hx => ⟨hI _ hx, nofun⟩

/-- The entries of a log that conclude a delivery. -/
def Settles : (Σ o, Resp o) → Prop
  | ⟨.release _, .ok _⟩ => True
  | ⟨.ack _, _⟩ => True
  | ⟨.nack _ false, _⟩ => True
  | _ => False

/-- The claim has been won and the delivery is not settled. -/
structure Underway (q : NotificationRequest) (l : Log) : Prop where
  won : ⟨.tryClaim (idempotencyKey q), .ok .claimed⟩ ∈ l
  unsettled : ∀ e ∈ l, ¬ Settles e

theorem Underway.not_concluded {l : Log} (h : Underway q l) : ¬ Concluded q l := by
  intro hl
  rcases hl h.won with hrel | ⟨r, hack⟩ | ⟨r, hnack⟩
  · exact h.unsettled _ hrel trivial
  · exact h.unsettled _ hack trivial
  · exact h.unsettled _ hnack trivial

theorem Underway.cons {l : Log} {e : Σ o, Resp o} (h : Underway q l) (he : ¬ Settles e) :
    Underway q (e :: l) := by
  refine ⟨mem_cons_of_mem _ h.won, fun e' he' => ?_⟩
  rcases mem_cons.1 he' with rfl | he'
  · exact he
  · exact h.unsettled e' he'

/-- The claim has been won, and the notification was sent to some addresses. -/
structure Working (q : NotificationRequest) (sent : List String) (x : Core × Log) : Prop where
  core : x.1 = .sending sent
  underway : Underway q x.2

variable {x : Core × Log}

theorem Working.sound {sent : List String} (hsent : sent.Nodup)
    (h : Working q sent x) : Sound D q x := by
  refine ⟨?_, fun hx => absurd hx h.underway.not_concluded⟩
  rw [h.core]
  exact Core.safe_sending hsent

theorem done_sound (h : x.1.Done (D.addresses q)) : Sound D q x := ⟨h.safe, fun _ => .inr h⟩

/-- Acknowledging what is done. -/
theorem follows_ack :
    Follows D q (fun x => x.1.Done (D.addresses q)) (Work.ackOrLog q)
      fun _ x => x.1.Done (D.addresses q) := by
  refine follows_ask (J := fun _ x => x.1.Done (D.addresses q)) (fun x hx => done_sound hx)
    (fun s l a hs _ => ?_) (follows_settle fun x hx => done_sound hx)
  have hsettled : (core q (s.settled q)).Done (D.addresses q) := ⟨hs.claimed, hs.all, hs.once⟩
  cases a with
  | done cut => exact hsettled
  | error applied m =>
  cases applied with
  | true => exact hsettled
  | false => exact hs

/-- Refusing a delivery changes nothing about the notification. -/
theorem follows_nack {I : Core → Prop} (requeue : Bool)
    (hI : ∀ x : Core × Log, I x.1 → Sound D q x) :
    Follows D q (fun x => I x.1) (Work.nackOrLog q requeue) fun _ x => I x.1 := by
  refine follows_ask (J := fun _ x => I x.1) hI (fun s l a hs _ => ?_) (follows_settle hI)
  have hcore : core q (act D (.nack q requeue) a s).2 = core q s :=
    core_act (o := .nack q requeue) (fun h => h) a s
  rw [hcore]
  exact hs

/-! ### Looking up the members -/

/-- What was resolved is right. -/
def Resolved (D : Directory) (q : NotificationRequest) :
    Except ResolveError (List String) → Prop
  | .ok recipients => recipients = D.addresses q
  | .error (.udb _) => True
  | .error _ => D.addresses q = []

theorem working_sound (h : Working q [] x) : Sound D q x := h.sound nodup_nil

/-- A lookup while nothing has been sent yet. -/
theorem follows_lookup {o : Op} {k : Resp o → Work α}
    {A : Resp o → Prop} (ho : ¬ Concerns q o) (hnew : ∀ r, ¬ Settles ⟨o, r⟩)
    (hA : ∀ s a, Honest D o a → A (act D o a s).1)
    (hk : ∀ r, A r → Follows D q (Working q []) (k r) T) :
    Follows D q (Working q []) (.ask o k) T := by
  refine follows_ask (J := fun r x => Working q [] x ∧ A r) (fun x hx => working_sound hx)
    (fun s l a hs ha => ⟨⟨?_, hs.underway.cons (hnew _)⟩, hA s a ha⟩) fun r x hx => hk r hx.2 x hx.1
  exact (core_act ho a s).trans hs.core

/-- What the reply to a lookup tells. -/
def Says {α : Type} (found : Option α) : Except QueryError α → Prop
  | .ok a => found = some a
  | .error .notFound => found = none
  | .error (.failed _) => True

theorem says_lookup (reply : Reply) (found : Option α) : Says found (lookup reply found) := by
  cases reply with
  | done cut => cases found <;> rfl
  | error applied m => trivial

theorem follows_getUser {k : Except QueryError String → Work α}
    (name : String)
    (hk : ∀ r, Says (D.users name) r → Follows D q (Working q []) (k r) T) :
    Follows D q (Working q []) (.ask (.getUser name) k) T :=
  follows_lookup (fun h => h) (fun _ h => h) (fun _ a _ => says_lookup a _) hk

theorem follows_resolveMembers (names recipients : List String)
    (hq : recipients ++ D.emails names = D.addresses q) :
    Follows D q (Working q []) (resolveMembers names recipients)
      fun r x => Working q [] x ∧ Resolved D q r := by
  induction names generalizing recipients with
  | nil =>
    refine follows_ret (fun x hx => working_sound hx) fun x hx => ⟨hx, ?_⟩
    exact (append_nil recipients).symm.trans hq
  | cons name names ih =>
  refine follows_getUser name fun r hr => ?_
  rcases r with (_ | m) | email
  · refine ih recipients ?_
    rw [← hq, Directory.emails, Directory.emails, filterMap_cons_none hr]
  · exact follows_ret (fun x hx => working_sound hx) fun x hx => ⟨hx, trivial⟩
  have hcons : D.emails (name :: names) = [email].filter (· ≠ "") ++ D.emails names := by
    rw [Directory.emails, filterMap_cons_some hr, Directory.emails, ← filter_append]
    rfl
  change Follows D q _ (if email = "" then resolveMembers names recipients
    else resolveMembers names (recipients ++ [email])) _
  by_cases hempty : email = ""
  · rw [if_pos hempty]
    refine ih recipients ?_
    rw [← hq, hcons, hempty]
    rfl
  rw [if_neg hempty]
  refine ih (recipients ++ [email]) ?_
  rw [← hq, hcons, filter_cons_of_pos (by simpa using hempty), append_assoc]
  rfl

/-- The lookup of an organization tells whether there is one. -/
theorem follows_getOrg {k : Except QueryError Unit → Work α}
    (org : String)
    (hfound : ∀ names, D.orgs org = some names → Follows D q (Working q []) (k (.ok ())) T)
    (hnone : ∀ e, D.orgs org = none → Follows D q (Working q []) (k (.error e)) T) :
    Follows D q (Working q []) (.ask (.getOrg org) k) T := by
  refine follows_lookup (A := fun r => Says ((D.orgs org).map fun _ => ()) r ∧
      ∀ names, D.orgs org = some names → r = .ok ())
    (fun h => h) (fun r h => h) (fun s a ha => ⟨says_lookup a _, fun names hnames => ?_⟩)
    fun r hr => ?_
  · obtain ⟨cut, rfl⟩ : ∃ cut, a = .done cut := ha (by rw [hnames]; rfl)
    change lookup (.done cut) ((D.orgs org).map fun _ => ()) = .ok ()
    rw [hnames]
    rfl
  cases horg : D.orgs org with
  | some names =>
    rw [hr.2 names horg]
    exact hfound names horg
  | none =>
  have hsays := hr.1
  rw [horg] at hsays
  cases r with
  | ok u => exact nomatch hsays
  | error e => exact hnone e horg

theorem follows_resolveRecipients :
    Follows D q (Working q []) (resolveRecipients q.entityQid)
      fun r x => Working q [] x ∧ Resolved D q r := by
  have hret : ∀ e : ResolveError, Resolved D q (.error e) →
      Follows D q (Working q []) (.ret (.error e)) fun r x => Working q [] x ∧ Resolved D q r :=
    fun e he => follows_ret (fun x hx => working_sound hx) fun x hx => ⟨hx, he⟩
  rw [resolveRecipients]
  cases horg : extractOrgId q.entityQid with
  | none =>
    refine hret _ ?_
    change D.addresses q = []
    rw [Directory.addresses, horg]
  | some org =>
  have haddr : D.addresses q = D.emails (D.members org) := by rw [Directory.addresses, horg]
  refine follows_getOrg org (fun names hnames => ?_) fun e hnone => ?_
  · refine follows_lookup (A := fun r => ∀ names', r = .ok names' → names' = names)
      (fun h => h) (fun r h => h) (fun s a _ => ?_) fun r hr => ?_
    · cases a with
      | done cut =>
        rintro _ ⟨⟩
        rw [hnames]
        rfl
      | error applied m => exact nofun
    cases r with
    | error m => exact hret _ trivial
    | ok names' =>
    cases hr names' rfl
    refine follows_resolveMembers names [] ?_
    rw [haddr, Directory.members, hnames]
    rfl
  refine follows_getUser org fun r hr => ?_
  rcases r with (_ | m) | email
  · refine hret _ ?_
    have husers : D.users org = none := hr
    change D.addresses q = []
    rw [haddr, Directory.members, hnone, husers]
    rfl
  · exact hret _ trivial
  refine follows_resolveMembers [org] [] ?_
  have husers : D.users org = some email := hr
  rw [haddr, Directory.members, hnone, husers]
  rfl

/-! ### The whole delivery

A delivery claims its notification, sends it to one address after the other, and concludes.  It may
stop anywhere, and what it leaves is one of the states that the next delivery can begin in. -/

/-- The notification is still to be sent to some addresses. -/
def Pending (D : Directory) (q : NotificationRequest) (rest : List String) (x : Core × Log) :
    Prop :=
  ∃ sent, Working q sent x ∧ sent ++ rest = D.addresses q

theorem pending_sound (hD : (D.addresses q).Nodup) {rest : List String}
    (h : Pending D q rest x) : Sound D q x := by
  obtain ⟨sent, hx, hall⟩ := h
  rw [← hall] at hD
  exact hx.sound hD.of_append_left

theorem follows_enqueue (hD : (D.addresses q).Nodup) (a : String) (rest : List String) :
    Follows D q (Pending D q (a :: rest)) (Work.enqueue a q) fun _ => Pending D q rest := by
  refine follows_ask (J := fun _ => Pending D q rest) (fun x hx => pending_sound hD hx)
    (fun s l _ hs _ => ?_) fun r => follows_ret (fun x hx => pending_sound hD hx) fun x hx => hx
  obtain ⟨sent, hx, hall⟩ := hs
  refine ⟨sent ++ [a], ⟨?_, hx.underway.cons fun h => h⟩, ?_⟩
  · have hcore : core q s = .sending sent := hx.core
    change core q (s.batch a q) = .sending (sent ++ [a])
    rw [core_batch_self, hcore]
    refine congrArg (Core.mk true false) (funext fun b => ?_)
    change sent.count b + (if a = b then 1 else 0) = (sent ++ [a]).count b
    rw [count_append, count_singleton]
    simp only [beq_iff_eq]
  · rw [append_assoc]
    exact hall

/-- The notification goes to one address after the other. -/
theorem follows_enqueue_all (hD : (D.addresses q).Nodup) :
    Follows D q (Working q []) ((D.addresses q).forM fun recipient => Work.enqueue recipient q)
      fun _ x => x.1.Done (D.addresses q) := by
  have hloop : Follows D q (Pending D q (D.addresses q))
      ((D.addresses q).forM fun recipient => Work.enqueue recipient q) fun _ => Pending D q [] :=
    leads_forM (I := fun rest x => Pending D q rest (own q x))
      (fun _ hx => pending_sound hD hx) (follows_enqueue hD) (D.addresses q)
  intro x hx
  refine always_mono (hloop x ⟨[], hx, rfl⟩) fun r y hy => ⟨hy.1, fun u hu => ?_⟩
  obtain ⟨sent, hsent, hall⟩ := hy.2 u hu
  rw [append_nil] at hall
  rw [hsent.core, hall]
  exact Core.done_sending hD

theorem fresh_sound (h : x.1 = .fresh) : Sound D q x := ⟨h ▸ Core.safe_fresh, fun _ => .inl h⟩

/-- The claim was given up, or it was tried to give it up. -/
def GivenUp (q : NotificationRequest) (x : Core × Log) : Prop :=
  x.1 = .fresh ∨ (∃ claimed, x.1 = { Core.fresh with claimed := claimed }) ∧ Underway q x.2

theorem givenUp_sound (h : GivenUp q x) : Sound D q x := by
  rcases h with h | ⟨⟨claimed, h⟩, hopen⟩
  · exact fresh_sound h
  refine ⟨?_, fun hx => absurd hx hopen.not_concluded⟩
  rw [h]
  exact ⟨nofun, fun _ => Nat.zero_le 1⟩

theorem follows_release :
    Follows D q (Working q []) (Work.release (idempotencyKey q)) fun _ => GivenUp q := by
  refine follows_ask (J := fun _ => GivenUp q) (fun x hx => working_sound hx)
    (fun s l a hs _ => ?_) fun r => follows_ret (fun x hx => givenUp_sound hx) fun x hx => hx
  have hcore : core q s = .sending [] := hs.core
  have hreleased : core q (s.withClaim (idempotencyKey q) false) = .fresh := by
    rw [core_withClaim_self, hcore]
    rfl
  cases a with
  | done cut => exact .inl hreleased
  | error applied m =>
  refine .inr ⟨?_, hs.underway.cons fun h => h⟩
  cases applied with
  | true => exact ⟨false, hreleased⟩
  | false => exact ⟨true, hcore⟩

/-- Returning a delivery to the queue concludes nothing. -/
theorem follows_requeue : Follows D q (GivenUp q) (Work.nackOrLog q true) fun _ => GivenUp q := by
  refine follows_ask (J := fun _ => GivenUp q) (fun x hx => givenUp_sound hx)
    (fun s l a hs _ => ?_) (follows_settle fun x hx => givenUp_sound hx)
  have hcore : core q (act D (.nack q true) a s).2 = core q s :=
    core_act (o := .nack q true) (fun h => h) a s
  rcases hs with hs | ⟨⟨claimed, hs⟩, hopen⟩
  · exact .inl (hcore.trans hs)
  · exact .inr ⟨⟨claimed, hcore.trans hs⟩, hopen.cons fun h => h⟩

/-- From the claim to the end. -/
theorem follows_processClaimed (hD : (D.addresses q).Nodup) :
    Follows D q (Working q []) (processClaimed q) fun _ x => Sound D q x := by
  -- without addresses there is nothing to do
  have hnothing : D.addresses q = [] → ∀ x, Working q [] x → x.1.Done (D.addresses q) := by
    intro h x hx
    rw [hx.core, h]
    exact Core.done_sending nodup_nil
  have hdone : ∀ (p : Work Unit) (outcome : ProcessOutcome),
      Follows D q (fun x => x.1.Done (D.addresses q)) p (fun _ x => x.1.Done (D.addresses q)) →
      Follows D q (fun x => x.1.Done (D.addresses q)) (p >>= fun _ => pure outcome)
        fun _ x => Sound D q x := fun p outcome hp =>
    leads_bind hp fun _ => follows_ret (fun x hx => done_sound hx) fun x hx => done_sound hx
  refine leads_bind follows_resolveRecipients fun r x hx => ?_
  rcases r with (_ | org | m) | recipients
  · exact hdone _ _ (follows_nack (I := (·.Done (D.addresses q))) false fun x hx => done_sound hx) x
      (hnothing hx.2 _ hx.1)
  · exact hdone _ _ follows_ack x (hnothing hx.2 _ hx.1)
  · refine leads_bind follows_release (fun _ => leads_bind follows_requeue fun _ => ?_) x hx.1
    exact follows_ret (fun x hx => givenUp_sound hx) fun x hx => givenUp_sound hx
  · obtain ⟨hworking, rfl⟩ := hx
    exact leads_bind (follows_enqueue_all hD) (fun _ => hdone _ _ follows_ack) x hworking

/-- Nothing has been done for the notification, or everything. -/
def Idle (D : Directory) (q : NotificationRequest) (c : Core) : Prop :=
  c = .fresh ∨ c.Done (D.addresses q)

theorem idle_sound (h : Idle D q x.1) : Sound D q x := by
  rcases h with h | h
  · exact fresh_sound h
  · exact done_sound h

/-- What the reply to the claim brings about. -/
def AfterClaim (D : Directory) (q : NotificationRequest) (x : Core × Log) :
    Except String ClaimOutcome → Prop
  | .ok .claimed => Working q [] x
  | .ok .alreadyClaimed => x.1.Done (D.addresses q)
  | .error _ => Idle D q x.1

/-- **One delivery.**  Begun when nothing has been done for its notification, or everything, a
delivery loses nothing and does nothing twice, wherever it stops; and if it is concluded then again
nothing has been done or everything. -/
theorem follows_processDelivery (hD : (D.addresses q).Nodup) :
    Follows D q (fun x => Idle D q x.1 ∧ x.2 = []) (processDelivery q)
      fun _ x => Sound D q x := by
  refine follows_ask (o := .tryClaim (idempotencyKey q)) (J := fun r x => AfterClaim D q x r)
    (fun x hx => idle_sound hx.1) (fun s l a hs ha => ?_) fun r => ?_
  · obtain ⟨hidle, rfl⟩ := hs
    have hhonest : ∀ m, a ≠ .error true m := ha
    cases a with
    | error applied m =>
      cases applied with
      | true => exact absurd rfl (hhonest m)
      | false => exact hidle
    | done cut =>
    change AfterClaim D q (core q (claim (idempotencyKey q) s).2,
      [⟨.tryClaim (idempotencyKey q), .ok (claim (idempotencyKey q) s).1⟩])
      (.ok (claim (idempotencyKey q) s).1)
    cases hclaims : s.claims (idempotencyKey q) with
    | true =>
      rw [claim, hclaims]
      rcases hidle with hfresh | hdone
      · have hfalse : s.claims (idempotencyKey q) = false := congrArg Core.claimed hfresh
        exact nomatch hclaims.symm.trans hfalse
      · exact hdone
    | false =>
    rw [claim, hclaims]
    rcases hidle with hfresh | hdone
    · refine ⟨?_, mem_cons_self, fun e he => ?_⟩
      · change core q (s.withClaim (idempotencyKey q) true) = _
        rw [core_withClaim_self, show core q s = .fresh from hfresh]
        rfl
      · rw [mem_singleton.1 he]
        exact fun h => h
    · have htrue : s.claims (idempotencyKey q) = true := hdone.claimed
      exact nomatch hclaims.symm.trans htrue
  rcases r with m | (_ | _)
  · change Follows D q (fun x => Idle D q x.1)
      (Work.nackOrLog q true >>= fun _ => pure ProcessOutcome.requeued) _
    refine leads_bind (follows_nack (I := Idle D q) true fun x hx => idle_sound hx) fun _ => ?_
    exact follows_ret (fun x hx => idle_sound hx) fun x hx => idle_sound hx
  · exact follows_processClaimed hD
  change Follows D q (fun x => x.1.Done (D.addresses q))
    (Work.ackOrLog q >>= fun _ => pure ProcessOutcome.enqueued) _
  refine leads_bind follows_ack fun _ => ?_
  exact follows_ret (fun x hx => done_sound hx) fun x hx => done_sound hx

end Delivery

/-! ## All deliveries

Deliveries with other keys never concern the notification, so the statement about one delivery
carries over to a pool of them. -/

section Runs

/-- A delivery of a notification with another key does not concern this one. -/
theorem spares_processDelivery {q' : NotificationRequest}
    (hne : idempotencyKey q' ≠ idempotencyKey q) :
    ((workers D).body q').issues fun o => ¬ Concerns q o := by
  have hq : q' ≠ q := fun h => hne (congrArg idempotencyKey h)
  have hsettle : ∀ r : Except String Unit, (Work.settle r).issues fun o => ¬ Concerns q o := by
    rintro (m | u) <;> trivial
  have hmembers : ∀ names recipients,
      (resolveMembers names recipients).issues fun o => ¬ Concerns q o := by
    intro names
    induction names with
    | nil => exact fun _ => trivial
    | cons name names ih =>
    refine fun recipients => ⟨fun h => h, fun r => ?_⟩
    rcases r with (_ | m) | email
    · exact ih recipients
    · trivial
    change (if email = "" then resolveMembers names recipients
      else resolveMembers names (recipients ++ [email])).issues _
    split
    · exact ih recipients
    · exact ih _
  have hresolve : (resolveRecipients q'.entityQid).issues fun o => ¬ Concerns q o := by
    rw [resolveRecipients]
    cases extractOrgId q'.entityQid with
    | none => trivial
    | some org =>
    refine ⟨fun h => h, fun r => ?_⟩
    cases r with
    | ok u =>
      refine ⟨fun h => h, fun r => ?_⟩
      cases r with
      | ok names => exact hmembers names []
      | error m => trivial
    | error e =>
    refine ⟨fun h => h, fun r => ?_⟩
    rcases r with (_ | m) | email
    · trivial
    · trivial
    · exact hmembers [org] []
  refine issues_bind ⟨hne, fun r => ?_⟩ fun _ => trivial
  rcases r with m | (_ | _)
  · exact ⟨fun h => h, fun r => issues_bind (hsettle r) fun _ => trivial⟩
  · change (processClaimed q').issues _
    refine issues_bind hresolve fun r => ?_
    rcases r with (_ | org | m) | recipients
    · exact ⟨fun h => h, fun r => issues_bind (hsettle r) fun _ => trivial⟩
    · exact ⟨hq, fun r => issues_bind (hsettle r) fun _ => trivial⟩
    · exact ⟨hne, fun _ => ⟨fun h => h, fun r => issues_bind (hsettle r) fun _ => trivial⟩⟩
    · exact issues_bind (issues_forM fun a _ => ⟨hq, fun _ => trivial⟩) fun _ =>
        ⟨hq, fun r => issues_bind (hsettle r) fun _ => trivial⟩
  · exact ⟨hq, fun r => issues_bind (hsettle r) fun _ => trivial⟩

abbrev Workers := Pool Resp String State NotificationRequest

/-- Deliveries of notifications with other keys never concern this one. -/
def Apart (q : NotificationRequest) (y : Workers) : Prop :=
  ∀ th ∈ y.threads, idempotencyKey th.call ≠ idempotencyKey q →
    th.prog.issues fun o => ¬ Concerns q o

/-- The rest of a delivery keeps everything sound. -/
abbrev Continues (D : Directory) (q : NotificationRequest) (s : State)
    (th : Thread Resp String NotificationRequest) : Prop :=
  th.prog.among (sem D).logged (Honest D) (Sharing q) (fun x => Sound D q (own q x))
    (fun _ x => Sound D q (own q x)) (s, th.log)

inductive Phase (D : Directory) (q : NotificationRequest) (y : Workers) : Prop
  | foreign (th : Thread Resp String NotificationRequest) (hth : th ∈ y.threads)
      (hkey : idempotencyKey th.call = idempotencyKey q)
      (hcalls : ∀ th ∈ y.threads, idempotencyKey th.call = idempotencyKey q → th.call ≠ q)
  /-- No delivery has been begun. -/
  | unseen (hkeys : ∀ th ∈ y.threads, idempotencyKey th.call ≠ idempotencyKey q)
      (hfresh : core q y.state = .fresh)
  /-- The `i`-th call is the latest delivery. -/
  | latest (i : ℕ) (th : Thread Resp String NotificationRequest) (hi : y.threads[i]? = some th)
      (hcall : th.call = q) (hprog : Continues D q y.state th)
      (hothers : ∀ j th', j ≠ i → y.threads[j]? = some th' →
        idempotencyKey th'.call = idempotencyKey q → th'.call = q ∧ th'.running = false)

variable {y : Workers}

variable {th : Thread Resp String NotificationRequest}

variable (t : (workers D).sem.Turn)

/-- A turn of a call that never concerns the notification. -/
theorem stepThread_apart
    (s : State) (h : th.prog.issues fun o => ¬ Concerns q o) :
    ((workers D).stepThread t th s).1.prog.issues (fun o => ¬ Concerns q o) ∧
      core q ((workers D).stepThread t th s).2 = core q s := by
  obtain ⟨c, l, p⟩ := th
  cases p with
  | ret | fail => exact ⟨h, rfl⟩
  | choose k => exact ⟨h _, rfl⟩
  | ask o k => exact ⟨h.2 _, core_act h.1 _ s⟩

theorem stepThread_call (th : Thread Resp String NotificationRequest)
    (s : State) : ((workers D).stepThread t th s).1.call = th.call := by
  obtain ⟨c, l, p⟩ := th
  cases p <;> rfl

/-- A call that has ended does nothing. -/
theorem stepThread_ended
    (s : State) (h : th.running = false) : (workers D).stepThread t th s = (th, s) := by
  obtain ⟨c, l, p⟩ := th
  cases p with
  | ret | fail => rfl
  | ask | choose => exact nomatch h

theorem Apart.step (h : Apart q y) (e : (workers D).Event) : Apart q ((workers D).step y e) := by
  refine Machine.every_thread (M := workers D)
    (J := fun th => idempotencyKey th.call ≠ idempotencyKey q →
      th.prog.issues fun o => ¬ Concerns q o)
    (fun c hne => spares_processDelivery (D := D) hne) (fun t th s hth hne => ?_)
    (fun th m _ _ => trivial) h [e]
  rw [stepThread_call] at hne
  exact (stepThread_apart t s (hth hne)).1

theorem continues_later {s s' : State}
    (h : Continues D q s th) (hcore : core q s' = core q s) : Continues D q s' th :=
  among_later (stable_own _) (fun _ => stable_own _) h (congrArg (fun c => (c, th.log)) hcore)

namespace Phase

/-- One call moves on. -/
theorem set (h : Phase D q y) {j : ℕ} {th th' : Thread Resp String NotificationRequest}
    {s' : State} (hj : y.threads[j]? = some th) (hcall : th'.call = th.call)
    (hapart : idempotencyKey th.call ≠ idempotencyKey q → core q s' = core q y.state)
    (hended : th.running = false → th'.running = false ∧ core q s' = core q y.state)
    (hturn : th.call = q → Continues D q y.state th → Continues D q s' th') :
    Phase D q ⟨s', y.threads.set j th'⟩ := by
  have hmem : ∀ th₁ ∈ y.threads.set j th', ∃ th₂ ∈ y.threads, th₁.call = th₂.call := by
    intro th₁ h₁
    rcases mem_or_eq_of_mem_set h₁ with h₁ | rfl
    · exact ⟨th₁, h₁, rfl⟩
    · exact ⟨th, mem_of_getElem? hj, hcall⟩
  cases h with
  | foreign th₀ hth₀ hkey hcalls =>
    have hcalls' : ∀ th₁ ∈ y.threads.set j th',
        idempotencyKey th₁.call = idempotencyKey q → th₁.call ≠ q := by
      intro th₁ h₁
      obtain ⟨th₂, h₂, heq⟩ := hmem th₁ h₁
      rw [heq]
      exact hcalls th₂ h₂
    rcases mem_set_or_eq hj hth₀ th' with hth₀ | rfl
    · exact .foreign th₀ hth₀ hkey hcalls'
    · exact .foreign th' (mem_set_of_getElem? hj th') (hcall ▸ hkey) hcalls'
  | unseen hkeys hfresh =>
    refine .unseen (fun th₁ h₁ => ?_) ((hapart (hkeys th (mem_of_getElem? hj))).trans hfresh)
    obtain ⟨th₂, h₂, heq⟩ := hmem th₁ h₁
    rw [heq]
    exact hkeys th₂ h₂
  | latest i th₀ hi hcall₀ hprog hothers =>
  by_cases hji : j = i
  · subst hji
    rw [hi] at hj
    cases hj
    have hlt : j < y.threads.length := (List.getElem?_eq_some_iff.1 hi).1
    refine .latest j th' (List.getElem?_set_self hlt) (hcall.trans hcall₀)
      (hturn hcall₀ hprog) fun k th₁ hk h₁ => ?_
    rcases getElem?_set_cases h₁ with ⟨hkj, -⟩ | ⟨-, h₁⟩
    · exact absurd hkj hk
    · exact hothers k th₁ hk h₁
  have hcore : core q s' = core q y.state := by
    by_cases hkey : idempotencyKey th.call = idempotencyKey q
    · exact (hended (hothers j th hji hj hkey).2).2
    · exact hapart hkey
  refine .latest i th₀ ((getElem?_set_ne hji).trans hi) hcall₀
    (continues_later hprog hcore) fun k th₁ hk h₁ hkey => ?_
  rcases getElem?_set_cases h₁ with ⟨rfl, rfl⟩ | ⟨-, h₁⟩
  · rw [hcall] at hkey ⊢
    obtain ⟨hq, hrun⟩ := hothers k th hk hj hkey
    exact ⟨hq, (hended hrun).1⟩
  · exact hothers k th₁ hk h₁ hkey

/-- A delivery is begun. -/
theorem start (hD : (D.addresses q).Nodup) (h : Phase D q y) (c : NotificationRequest)
    (hc : (orderly D).start y.view c) : Phase D q ((workers D).step y (.start c)) := by
  have hview : ∀ th ∈ y.threads, idempotencyKey th.call = idempotencyKey c →
      th.call = c ∧ th.running = false ∧ Concluded c th.log :=
    fun th hth => hc th.trace (mem_map_of_mem hth)
  have hmem : ∀ th ∈ y.threads ++ [⟨c, [], (workers D).body c⟩], th ∈ y.threads ∨ th.call = c := by
    intro th hth
    rcases mem_append.1 hth with hth | hth
    · exact .inl hth
    · rw [mem_singleton.1 hth]
      exact .inr rfl
  -- the delivery is the first of its notification, or the next one
  have hbegin : c = q → Idle D q (core q y.state) → (∀ th ∈ y.threads,
      idempotencyKey th.call = idempotencyKey q → th.call = q ∧ th.running = false) →
      Phase D q ((workers D).step y (.start c)) := by
    rintro rfl hidle hearlier
    refine .latest y.threads.length _ getElem?_concat_length rfl ?_ fun j th hj hth => ?_
    · refine always_mono (leads_bind (follows_processDelivery hD)
        (fun _ => follows_ret (T := fun _ x => Sound D c x) (fun x hx => hx) fun x hx => hx)
        (y.state, []) ⟨hidle, rfl⟩) fun r x hx => hx.1
    rcases getElem?_concat_cases hth with hth | ⟨hj', -⟩
    · exact hearlier th (mem_of_getElem? hth)
    · exact absurd hj' hj
  cases h with
  | foreign th₀ hth₀ hkey₀ hcalls =>
    refine .foreign th₀ (mem_append_left _ hth₀) hkey₀ fun th hth hkey => ?_
    rcases hmem th hth with hth | hth
    · exact hcalls th hth hkey
    rw [hth] at hkey ⊢
    rw [← (hview th₀ hth₀ (hkey₀.trans hkey.symm)).1]
    exact hcalls th₀ hth₀ hkey₀
  | unseen hkeys hfresh =>
    by_cases hkey : idempotencyKey c = idempotencyKey q
    · by_cases hcq : c = q
      · exact hbegin hcq (.inl hfresh) fun th hth hth' => absurd hth' (hkeys th hth)
      refine .foreign _ (mem_append_right _ mem_cons_self) hkey fun th hth hth' => ?_
      rcases hmem th hth with hth | hth
      · exact absurd hth' (hkeys th hth)
      · rw [hth]
        exact hcq
    refine .unseen (fun th hth => ?_) hfresh
    rcases hmem th hth with hth | hth
    · exact hkeys th hth
    · rw [hth]
      exact hkey
  | latest i th₀ hi hcall hprog hothers =>
  have hth₀ : th₀ ∈ y.threads := mem_of_getElem? hi
  by_cases hkey : idempotencyKey c = idempotencyKey q
  · obtain ⟨hc₀, -, hconcluded⟩ := hview th₀ hth₀ (by rw [hcall, hkey])
    have hcq : c = q := hc₀.symm.trans hcall
    subst hcq
    refine hbegin rfl ((among_now hprog).2 hconcluded) fun th hth hth' => ?_
    obtain ⟨hq, hrun, -⟩ := hview th hth hth'
    exact ⟨hq, hrun⟩
  have hlt : i < y.threads.length := (List.getElem?_eq_some_iff.1 hi).1
  refine .latest i th₀ ((List.getElem?_append_left hlt).trans hi) hcall hprog
    fun j th hj hth hth' => ?_
  rcases getElem?_concat_cases hth with hth | ⟨-, rfl⟩
  · exact hothers j th hj hth hth'
  · exact absurd hth' hkey

/-- Every step that meets the conditions. -/
theorem step (hD : (D.addresses q).Nodup) (hapart : Apart q y) (h : Phase D q y)
    (e : (workers D).Event) (he : (workers D).Admits (orderly D) y e) :
    Phase D q ((workers D).step y e) := by
  cases e with
  | start c => exact h.start hD c he
  | outside key => exact he.elim
  | turn j t =>
    cases hj : y.threads[j]? with
    | none =>
      rw [Machine.step, hj]
      exact h
    | some th =>
    rw [Machine.step_turn hj]
    refine h.set hj (stepThread_call t th y.state) (fun hne => ?_) (fun hrun => ?_)
      fun hcall hprog => ?_
    · exact (stepThread_apart t y.state (hapart th (mem_of_getElem? hj) hne)).2
    · rw [stepThread_ended t y.state hrun]
      exact ⟨hrun, rfl⟩
    · exact Machine.among_turn (M := workers D) hprog t fun o k hk => he th o k hj hk
  | stop j m =>
  rw [Machine.step]
  cases hj : y.threads[j]? with
  | none => exact h
  | some th =>
  refine h.set hj rfl (fun _ => rfl) (fun _ => ⟨rfl, rfl⟩) fun hcall hprog => ?_
  exact among_now (J := fun x => Sound D q (own q x)) hprog

end Phase

/-- **Every member is notified once.**  In a run that meets the conditions, over a directory in
which no two members share an address, a notification whose delivery has been acknowledged was put
into the batch of each member's address; and no notification is put into a batch twice. -/
theorem notified_once (D : Directory) (hD : ∀ q, (D.addresses q).Nodup)
    (es : List (workers D).Event) (hes : (workers D).Meets (orderly D) ⟨.empty, []⟩ es) :
    let y := (workers D).run ⟨.empty, []⟩ es
    ∀ th ∈ y.threads, (th.call ∈ y.state.acked →
        ∀ a ∈ D.addresses th.call, (a, th.call) ∈ y.state.batched) ∧
      ∀ a, y.state.batched.count (a, th.call) ≤ 1 := by
  intro y th hth
  obtain ⟨-, hphase⟩ := Machine.keeps (J := fun y => Apart th.call y ∧ Phase D th.call y)
    (fun y e h he => ⟨h.1.step e, h.2.step (hD _) h.1 e he⟩)
    ⟨fun _ h => absurd h not_mem_nil, .unseen (fun _ h => absurd h not_mem_nil) rfl⟩ hes
  have hsafe : (core th.call y.state).Safe (D.addresses th.call) := by
    cases hphase with
    | foreign th₀ hth₀ hkey hcalls => exact absurd rfl (hcalls th hth rfl)
    | unseen hkeys hfresh => exact absurd rfl (hkeys th hth)
    | latest i th₀ hi hcall hprog hothers => exact (among_now hprog).1
  refine ⟨fun hacked a ha => ?_, hsafe.once⟩
  exact count_pos_iff.1 (hsafe.all (decide_eq_true hacked) a ha)

end Runs

/-! ## Runs -/

namespace Members

/-- An organization with two members. -/
def directory (ada bob : String) : Directory where
  orgs name := if name = "Acme" then some ["ada", "bob"] else none
  users name := if name = "ada" then some ada else if name = "bob" then some bob else none

def opened : NotificationRequest :=
  ⟨7, .opened, "Acme/Shop::main::stockholm:Std/Random.Int:seed", .crash, 5, none,
    some "out of memory"⟩

/-- A turn in which a request is carried out, or fails without having been carried out. -/
def turn (D : Directory) (fine : Bool) : (sem D).Turn where
  ans o :=
    match o with
    | .enqueue .. => ()
    | .tryClaim _ | .release _ | .getOrg _ | .listMembers _ | .getUser _ | .ack _ | .nack .. =>
      if fine then Reply.done none else Reply.error false "timeout"
  flip := false

def turns (D : Directory) (i n : ℕ) : List (workers D).Event :=
  List.replicate n (.turn i (turn D true))

def initial : Workers := ⟨.empty, []⟩

abbrev acme : Directory := directory "ada@acme" "bob@acme"

theorem nodup_addresses (q : NotificationRequest) : (acme.addresses q).Nodup := by
  rw [Directory.addresses]
  cases extractOrgId q.entityQid with
  | none => exact nodup_nil
  | some org =>
  change (acme.emails (acme.members org)).Nodup
  have hone : ∀ name, (acme.emails [name]).Nodup := by
    intro name
    refine List.Nodup.filter _ ?_
    cases hname : acme.users name with
    | none =>
      rw [filterMap_cons_none hname]
      exact nodup_nil
    | some email =>
    rw [filterMap_cons_some hname]
    exact nodup_singleton email
  by_cases horg : org = "Acme"
  · rw [horg]
    decide
  rw [Directory.members, show acme.orgs org = none from if_neg horg]
  change (acme.emails (if (acme.users org).isSome then [org] else [])).Nodup
  split
  · exact hone org
  · exact nodup_nil

theorem meets_turns (D : Directory) (i n : ℕ) (y : Workers) :
    (workers D).Meets (orderly D) y (turns D i n) := by
  induction n generalizing y with
  | zero => trivial
  | succ n ih =>
  refine ⟨fun th o k _ _ => ?_, ih _⟩
  cases o with
  | tryClaim key => exact nofun
  | getOrg name => exact fun _ => ⟨none, rfl⟩
  | _ => trivial

/-- A notification is delivered, and delivered once more. -/
theorem delivered_twice :
    let y := (workers acme).run initial
      (.start opened :: turns acme 0 8 ++ .start opened :: turns acme 1 2)
    acme.addresses opened = ["ada@acme", "bob@acme"] ∧ y.state.acked = [opened, opened] ∧
      (∀ a ∈ acme.addresses opened, (a, opened) ∈ y.state.batched) ∧
      ∀ a, y.state.batched.count (a, opened) ≤ 1 := by
  have hmeets : (workers acme).Meets (orderly acme) initial
      (.start opened :: turns acme 0 8 ++ .start opened :: turns acme 1 2) := by
    refine Machine.meets_append.2 ⟨⟨nofun, meets_turns acme 0 8 _⟩, ⟨?_, meets_turns acme 1 2 _⟩⟩
    intro tr htr _
    have htraces : ((workers acme).run initial (.start opened :: turns acme 0 8)).view.traces =
        [⟨opened, ⟨.ack opened, .ok ()⟩ :: ((workers acme).run initial
          (.start opened :: turns acme 0 7)).view.traces.flatMap (·.log), false⟩] := by
      with_unfolding_all rfl
    rw [htraces, mem_singleton] at htr
    rw [htr]
    exact ⟨rfl, rfl, fun _ => .inr (.inl ⟨.ok (), mem_cons_self⟩)⟩
  have hacked : ((workers acme).run initial (.start opened :: turns acme 0 8 ++
      .start opened :: turns acme 1 2)).state.acked = [opened, opened] := by decide +kernel
  have hcall : ∃ th ∈ ((workers acme).run initial (.start opened :: turns acme 0 8 ++
      .start opened :: turns acme 1 2)).threads, th.call = opened :=
    ⟨_, mem_cons_self, by with_unfolding_all rfl⟩
  obtain ⟨th, hth, hcall⟩ := hcall
  have honce := notified_once acme nodup_addresses _ hmeets th hth
  rw [hcall] at honce
  refine ⟨by decide +kernel, hacked, honce.1 ?_, honce.2⟩
  exact hacked ▸ mem_cons_self

/-- **Notifications are lost and doubled.**  A worker is stopped after it has won the claim, and the
next delivery is acknowledged although nobody was notified.  The lookup of the organization fails,
there is no user of its name, and the delivery is acknowledged.  Two members share an address, and
the notification comes twice. -/
theorem lost_and_doubled :
    let crashed := (workers acme).run initial
      (.start opened :: turns acme 0 1 ++ [.stop 0 "crash", .start opened] ++ turns acme 1 2)
    let unread := (workers acme).run initial
      (.start opened :: turns acme 0 1 ++ .turn 0 (turn acme false) :: turns acme 0 2)
    let shared := directory "team@acme" "team@acme"
    let doubled := (workers shared).run initial (.start opened :: turns shared 0 8)
    (opened ∈ crashed.state.acked ∧ crashed.state.batched = []) ∧
      (opened ∈ unread.state.acked ∧ unread.state.batched = []) ∧
      doubled.state.batched.count ("team@acme", opened) = 2 := by
  decide +kernel

end Members

end Skyr.Ne
