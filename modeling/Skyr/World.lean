import Skyr.Lib.Prog
import Skyr.Cdb.Store
import Skyr.Rtq

/-!
# The world the engines run in

Everything an engine does to its surroundings is a request of type `Op`: a statement sent to a
database, a message published or settled, a call of a plugin, of the compiler, of the status
database, a look at the clock.  The engines are programs over these requests (`M`); this file says
what a request does.

Whatever an engine cannot know is decided by the surroundings when the request is made (`Ans`).

* A database statement or a publication is carried out and answered (`Reply.done`), or it fails —
  and then it may or may not have been carried out (`Reply.error applied`).  A query's stream of
  rows may break in the middle.
* A plugin, the compiler and the resolution of cross-repository dependencies answer what they
  like.  An evaluation, on the other hand, is a function of the program and the context.

Log lines never influence what an engine does next and are left out.
-/

namespace Skyr

variable [SclData]

/-! ## Requests -/

/-- A call of a plugin, on behalf of a deployment. -/
inductive PluginCall
  | createResource (deploymentQid : String) (id : ResourceId) (inputs : Record)
  | updateResource (deploymentQid : String) (id : ResourceId)
      (prevInputs prevOutputs inputs : Record)
  | deleteResource (deploymentQid : String) (id : ResourceId) (inputs outputs : Record)
  | check (deploymentQid : String) (id : ResourceId) (resource : Resource)

/-- What a successful plugin call returns. -/
@[reducible] def PluginCall.Result : PluginCall → Type
  | deleteResource _ _ _ _ => Unit
  | _ => Resource

/-- How a delivery is settled. -/
inductive Settlement
  | ack
  | nack (requeue : Bool)
deriving DecidableEq

/-- What the dependencies declared in `Package.scle` resolve to.  Branch and tag pins have an
owner, hash pins are orphans. -/
structure Resolution where
  /-- The commit of every dependency. -/
  key : List (RepoQid × ObjId)
  owners : List (RepoQid × DeploymentQid)
  orphans : List (RepoQid × ObjId)
  hasVolatilePins : Bool

/-- Without a manifest, or without dependencies in it. -/
def Resolution.none : Resolution := ⟨[], [], [], false⟩

/-- What the compiler returns. -/
inductive Compiled
  /-- The rendered diagnostics, at least one of which is an error. -/
  | errors (message : String)
  | program (p : Program)

/-- A request. -/
inductive Op
  | cdb (o : Cdb.Op)
  | rdb (region : RegionId) (o : Rdb.Op)
  | enqueue (region : RegionId) (m : Message)
  /-- Settle the delivery being handled. -/
  | settle (s : Settlement)
  | plugin (module_ : ModuleId) (call : PluginCall)
  /-- Read `Package.scle` and resolve every dependency it declares. -/
  | resolveAll (qid : DeploymentQid)
  | compile (qid : DeploymentQid) (key : List (RepoQid × ObjId))
  | eval (p : Program) (ctx : EvalCtx)
  | consecutiveFailureCount (qid : DeploymentQid)
  | deploymentHasOpenCrash (qid : DeploymentQid)
  | resourceHasOpenCrash (resource : ResourceRef)
  | report (region : RegionId) (r : Report)
  /-- The time, in milliseconds. -/
  | now

/-- The reply to a request. -/
@[reducible] def Resp : Op → Type
  | .cdb o => Except String o.Result
  | .rdb _ o => Except String o.Result
  | .enqueue _ _ => Except String Unit
  | .settle _ => Except String Unit
  | .plugin _ call => Except String call.Result
  | .resolveAll _ => Except String Resolution
  | .compile _ _ => Except String Compiled
  | .eval _ _ => Evaluation
  | .consecutiveFailureCount _ => Option ℕ
  | .deploymentHasOpenCrash _ => Bool
  | .resourceHasOpenCrash _ => Bool
  | .report _ _ => Except String Unit
  | .now => ℕ

/-- Engine code: a program over requests that fails with a message. -/
abbrev M (α : Type) : Type := Prog Resp String α

namespace M

/-- Go on with a successful reply; an error ends the program. -/
def ofExcept {α : Type} : Except String α → M α
  | .ok a => .ret a
  | .error e => .fail e

def cdb (o : Cdb.Op) : M o.Result := .ask (.cdb o) ofExcept

def rdb (region : RegionId) (o : Rdb.Op) : M o.Result := .ask (.rdb region o) ofExcept

def enqueue (region : RegionId) (m : Message) : M Unit := .ask (.enqueue region m) ofExcept

def settle (s : Settlement) : M Unit := .ask (.settle s) ofExcept

def plugin (module_ : ModuleId) (call : PluginCall) : M call.Result :=
  .ask (.plugin module_ call) ofExcept

def resolveAll (qid : DeploymentQid) : M Resolution := .ask (.resolveAll qid) ofExcept

def compile (qid : DeploymentQid) (key : List (RepoQid × ObjId)) : M Compiled :=
  .ask (.compile qid key) ofExcept

def eval (p : Program) (ctx : EvalCtx) : M Evaluation := .ask (.eval p ctx) .ret

def consecutiveFailureCount (qid : DeploymentQid) : M (Option ℕ) :=
  .ask (.consecutiveFailureCount qid) .ret

def deploymentHasOpenCrash (qid : DeploymentQid) : M Bool :=
  .ask (.deploymentHasOpenCrash qid) .ret

def resourceHasOpenCrash (resource : ResourceRef) : M Bool :=
  .ask (.resourceHasOpenCrash resource) .ret

def report (region : RegionId) (r : Report) : M Unit := .ask (.report region r) ofExcept

def now : M ℕ := .ask .now .ret

/-- The rows of a stream; a broken stream is an error. -/
def ofRows {α : Type} (rows : Rows α) : M (List α) :=
  match rows.error with
  | none => .ret rows.items
  | some e => .fail e

end M

/-! ## The state of the world -/

/-- The surroundings of the engines. -/
structure World where
  cdb : Cdb.Store
  /-- One resource database per region. -/
  rdb : RegionId → Rdb.Store
  /-- The transition messages published, oldest first, with the region of their queue. -/
  rtq : List (RegionId × Message)
  pluginCalls : List (ModuleId × PluginCall)
  /-- The settlements of deliveries so far, oldest first. -/
  settlements : List Settlement
  /-- The reports published so far, oldest first. -/
  reports : List (RegionId × Report)
  /-- The evaluations so far, oldest first, with the deployment they were for. -/
  evaluations : List (DeploymentQid × Evaluation)
  /-- The time, in milliseconds. -/
  now : ℕ

/-- A world in which nothing has happened yet. -/
def World.empty : World := ⟨.empty, fun _ => .empty, [], [], [], [], [], 0⟩

/-- What becomes of a statement or a publication. -/
inductive Reply
  /-- Carried out; `cut` is where the stream of results breaks, if it does. -/
  | done (cut : Option (ℕ × String))
  /-- Failed, after or without having been carried out. -/
  | error (applied : Bool) (msg : String)
deriving DecidableEq

/-- The statement was carried out, and the reply says so. -/
def Reply.isDone : Reply → Bool
  | .done _ => true
  | .error _ _ => false

/-- The statement was carried out, whatever the reply says. -/
def Reply.applied : Reply → Bool
  | .done _ => true
  | .error applied _ => applied

omit [SclData] in
theorem Reply.applied_of_isDone {reply : Reply} (h : reply.isDone) : reply.applied := by
  cases reply with
  | done cut => rfl
  | error applied msg => cases h

/-- Answer a statement according to the reply. -/
def Reply.answer {α σ : Type} (reply : Reply) (exec : Option (ℕ × String) → σ → α × σ) (s : σ) :
    Except String α × σ :=
  match reply with
  | .done cut => (.ok (exec cut s).1, (exec cut s).2)
  | .error applied msg => (.error msg, if applied then (exec none s).2 else s)

/-- What the surroundings decide about a request. -/
@[reducible] def Ans : Op → Type
  | .cdb _ => Reply
  | .rdb _ _ => Reply
  | .enqueue _ _ => Reply
  | .settle _ => Reply
  | .plugin _ call => Except String call.Result
  | .resolveAll _ => Except String Resolution
  | .compile _ _ => Except String Compiled
  | .eval _ _ => Unit
  | .consecutiveFailureCount _ => Option ℕ
  | .deploymentHasOpenCrash _ => Bool
  | .resourceHasOpenCrash _ => Bool
  | .report _ _ => Reply
  | .now => ℕ

namespace World

def setRdb (w : World) (region : RegionId) (s : Rdb.Store) : World :=
  { w with rdb := Function.update w.rdb region s }

/-- Carry out a request. -/
def act : (o : Op) → Ans o → World → Resp o × World
  | .cdb o, reply, w =>
    let r := Reply.answer reply (fun cut => Cdb.Store.exec cut o) w.cdb
    (r.1, { w with cdb := r.2 })
  | .rdb region o, reply, w =>
    let r := Reply.answer reply (fun cut => Rdb.Store.exec cut o) (w.rdb region)
    (r.1, w.setRdb region r.2)
  | .enqueue region m, reply, w =>
    let r := Reply.answer reply (fun _ q => ((), q ++ [(region, m)])) w.rtq
    (r.1, { w with rtq := r.2 })
  | .settle s, reply, w =>
    let r := Reply.answer reply (fun _ q => ((), q ++ [s])) w.settlements
    (r.1, { w with settlements := r.2 })
  | .plugin module_ call, ans, w =>
    (ans, { w with pluginCalls := w.pluginCalls ++ [(module_, call)] })
  | .resolveAll _, ans, w => (ans, w)
  | .compile _ _, ans, w => (ans, w)
  | .eval p ctx, _, w =>
    (p.eval ctx, { w with evaluations := w.evaluations ++ [(ctx.localOwner, p.eval ctx)] })
  | .consecutiveFailureCount _, ans, w => (ans, w)
  | .deploymentHasOpenCrash _, ans, w => (ans, w)
  | .resourceHasOpenCrash _, ans, w => (ans, w)
  | .report region r, reply, w =>
    let a := Reply.answer reply (fun _ q => ((), q ++ [(region, r)])) w.reports
    (a.1, { w with reports := a.2 })
  | .now, (elapsed : ℕ), w =>
    let t : ℕ := w.now + elapsed
    (t, { w with now := t })

/-- The world, as the meaning of requests. -/
def sem : Sem Resp World where
  Ans := Ans
  act := act

/-- The world after a statement has been carried out in the resource database of `region`. -/
def afterRdb (region : RegionId) (o : Rdb.Op) (w : World) : World :=
  w.setRdb region (Rdb.Store.exec none o (w.rdb region)).2

/-- The world after a statement has been carried out in the configuration database. -/
def afterCdb (o : Cdb.Op) (w : World) : World :=
  { w with cdb := (Cdb.Store.exec none o w.cdb).2 }

@[simp] theorem setRdb_self (w : World) (region : RegionId) :
    w.setRdb region (w.rdb region) = w := by
  rw [setRdb, Function.update_eq_self]

@[simp] theorem rdb_setRdb_self (w : World) (region : RegionId) (s : Rdb.Store) :
    (w.setRdb region s).rdb region = s := by
  change Function.update w.rdb region s region = s
  rw [Function.update_self]

@[simp] theorem rdb_setRdb_ne (w : World) {region region' : RegionId} (h : region' ≠ region)
    (s : Rdb.Store) : (w.setRdb region s).rdb region' = w.rdb region' := by
  change Function.update w.rdb region s region' = w.rdb region'
  rw [Function.update_of_ne h]

end World

/-! ## Walking through a program

`Always P p Q w` is `Prog.always` for the world, with nothing assumed of the surroundings.  One
rule per kind of request follows. -/

/-- Nothing is assumed of the surroundings. -/
abbrev anything : (o : Op) → World.sem.Ans o → Prop := fun _ _ => True

/-- Whatever the surroundings do, every request of `p` is made in a world where `P` allows it, and
`p` ends in `Q`. -/
abbrev Always {α : Type} (P : World → Op → Prop) (p : M α) (Q : Except String α → World → Prop)
    (w : World) : Prop :=
  p.always World.sem anything P Q w

theorem Rdb.Store.exec_snd (cut : Option (ℕ × String)) (o : Rdb.Op) (s : Rdb.Store) :
    (Rdb.Store.exec cut o s).2 = (Rdb.Store.exec none o s).2 := by
  cases o <;> rfl

omit [SclData] in
theorem Cdb.Store.exec_snd (cut : Option (ℕ × String)) (o : Cdb.Op) (s : Cdb.Store) :
    (Cdb.Store.exec cut o s).2 = (Cdb.Store.exec none o s).2 := by
  cases o <;> rfl

/-- Whatever is replied to a statement of the resource database, it has been carried out or it has
not. -/
theorem World.act_rdb_snd (region : RegionId) (o : Rdb.Op) (reply : Reply) (w : World) :
    (World.act (.rdb region o) reply w).2 =
      if reply.applied then w.afterRdb region o else w := by
  cases reply with
  | done cut =>
    rw [World.afterRdb, ← Rdb.Store.exec_snd cut]
    rfl
  | error applied msg =>
  cases applied with
  | true => rfl
  | false => exact w.setRdb_self region

/-- The same for the configuration database. -/
theorem World.act_cdb_snd (o : Cdb.Op) (reply : Reply) (w : World) :
    (World.act (.cdb o) reply w).2 = if reply.applied then w.afterCdb o else w := by
  cases reply with
  | done cut =>
    rw [World.afterCdb, ← Cdb.Store.exec_snd cut]
    rfl
  | error applied msg =>
  cases applied with
  | true | false => rfl

variable {w : World}

/-- What holds before a statement and would hold after it holds whatever becomes of it. -/
theorem World.act_rdb_keeps {T : World → Prop} {region : RegionId} {o : Rdb.Op}
    (h : T w) (h' : T (w.afterRdb region o)) (reply : Reply) :
    T (World.act (.rdb region o) reply w).2 := by
  rw [World.act_rdb_snd]
  split
  · exact h'
  · exact h

theorem World.act_cdb_keeps {T : World → Prop} {o : Cdb.Op} (h : T w)
    (h' : T (w.afterCdb o)) (reply : Reply) : T (World.act (.cdb o) reply w).2 := by
  rw [World.act_cdb_snd]
  split
  · exact h'
  · exact h

section Pure

variable {α : Type} {σ : Type} {S : Sem Resp σ} {ok : (o : Op) → S.Ans o → Prop}
  {P : σ → Op → Prop} {s : σ}

/-- Sequencing, when all that matters in between is an invariant. -/
theorem always_then {β : Type} {p : M α} {f : α → M β} {I : σ → Prop}
    {Q : Except String β → σ → Prop} (hp : p.always S ok P (fun _ s' => I s') s)
    (hf : ∀ a s', I s' → (f a).always S ok P Q s') (he : ∀ e s', I s' → Q (.error e) s') :
    (p >>= f).always S ok P Q s :=
  Prog.always_bind.2 (Prog.always_mono hp fun r s' h => match r with
    | .ok a => hf a s' h
    | .error e => he e s' h)

theorem always_ofExcept {r : Except String α} {Q : Except String α → σ → Prop} :
    (M.ofExcept r).always S ok P Q s ↔ Q r s := by
  cases r <;> rfl

theorem always_ofRows {rows : Rows α} {Q : Except String (List α) → σ → Prop}
    (hok : rows.error = none → Q (.ok rows.items) s) (herr : ∀ e, Q (.error e) s) :
    (M.ofRows rows).always S ok P Q s := by
  rw [M.ofRows]
  split
  · next h => exact hok h
  · next e _ => exact herr e

end Pure

section Rules

variable {α : Type} {P : World → Op → Prop} {w : World}

/-- A continuation that has nothing left to ask. -/
theorem always_bind_iff {β : Type} {p : M α} {f : α → M β}
    (hf : ∀ a w', Always P (f a) (fun _ _ => True) w') :
    Always P (p >>= f) (fun _ _ => True) w ↔ Always P p (fun _ _ => True) w := by
  refine Prog.always_bind.trans ⟨fun h => Prog.always_mono h fun _ _ _ => trivial,
    fun h => Prog.always_mono h fun r w' _ => ?_⟩
  cases r with
  | ok a => exact hf a w'
  | error e => trivial

variable {A : Op → Prop}

theorem issues_ofExcept (r : Except String α) : (M.ofExcept r).issues A := by cases r <;> trivial

theorem issues_ofRows (rows : Rows α) : (M.ofRows rows).issues A := by
  rw [M.ofRows]
  cases rows.error <;> trivial

theorem issues_rdb {region : RegionId} {o : Rdb.Op} (h : A (.rdb region o)) :
    (M.rdb region o).issues A := ⟨h, issues_ofExcept⟩

theorem issues_cdb {o : Cdb.Op} (h : A (.cdb o)) : (M.cdb o).issues A := ⟨h, issues_ofExcept⟩

/-- A statement of the resource database may be carried out or not, whatever is replied, except
that it was carried out if the reply says so. -/
theorem always_rdb {region : RegionId} {o : Rdb.Op} {Q : Except String o.Result → World → Prop}
    (hP : P w (.rdb region o))
    (hok : ∀ cut, Q (.ok (Rdb.Store.exec cut o (w.rdb region)).1) (w.afterRdb region o))
    (herr : ∀ e, Q (.error e) w ∧ Q (.error e) (w.afterRdb region o)) :
    Always P (M.rdb region o) Q w := by
  refine ⟨hP, fun reply _ => ?_⟩
  refine always_ofExcept.2 ?_
  cases reply with
  | done cut =>
    have h := hok cut
    rw [World.afterRdb, ← Rdb.Store.exec_snd cut] at h
    exact h
  | error applied msg =>
  cases applied with
  | true => exact (herr msg).2
  | false =>
  have h := (herr msg).1
  rw [← w.setRdb_self region] at h
  exact h

theorem always_plugin {module_ : ModuleId} {call : PluginCall}
    {Q : Except String call.Result → World → Prop} (hP : P w (.plugin module_ call))
    (h : ∀ r, Q r { w with pluginCalls := w.pluginCalls ++ [(module_, call)] }) :
    Always P (M.plugin module_ call) Q w :=
  ⟨hP, fun r _ => always_ofExcept.2 (h r)⟩

/-- The same for the configuration database. -/
theorem always_cdb {o : Cdb.Op} {Q : Except String o.Result → World → Prop}
    (hP : P w (.cdb o))
    (hok : ∀ cut, Q (.ok (Cdb.Store.exec cut o w.cdb).1) (w.afterCdb o))
    (herr : ∀ e, Q (.error e) w ∧ Q (.error e) (w.afterCdb o)) :
    Always P (M.cdb o) Q w := by
  refine ⟨hP, fun reply _ => ?_⟩
  refine always_ofExcept.2 ?_
  cases reply with
  | done cut =>
    have h := hok cut
    rw [World.afterCdb, ← Cdb.Store.exec_snd cut] at h
    exact h
  | error applied msg =>
  cases applied with
  | true => exact (herr msg).2
  | false => exact (herr msg).1

end Rules

/-! ## A cooperative world

To show that something *can* happen it is enough to look at surroundings that do what they are
asked.  `Surely P p Q w` is `Prog.always` in such surroundings; what always holds surely holds
(`surely_of_always`), and since every statement now has one outcome the rules are equivalences. -/

/-- Statements and publications are carried out, streams do not break, and plugins delete what
they are asked to. -/
def Cooperative : (o : Op) → World.sem.Ans o → Prop
  | .cdb _, reply => reply = .done none
  | .rdb _ _, reply => reply = .done none
  | .enqueue _ _, reply => reply = .done none
  | .settle _, reply => reply = .done none
  | .report _ _, reply => reply = .done none
  | .plugin _ (.deleteResource _ _ _ _), ans => ans = .ok ()
  | _, _ => True

/-- In cooperative surroundings, every request of `p` is made in a world where `P` allows it, and
`p` ends in `Q`. -/
abbrev Surely {α : Type} (P : World → Op → Prop) (p : M α) (Q : Except String α → World → Prop)
    (w : World) : Prop :=
  p.always World.sem Cooperative P Q w

/-- A cooperative turn. -/
def calm : World.sem.Turn where
  ans
    | .cdb _ => .done none
    | .rdb _ _ => .done none
    | .enqueue _ _ => .done none
    | .settle _ => .done none
    | .report _ _ => .done none
    | .plugin _ (.deleteResource _ _ _ _) => .ok ()
    | .plugin _ (.createResource _ _ _) => .error "unavailable"
    | .plugin _ (.updateResource _ _ _ _ _) => .error "unavailable"
    | .plugin _ (.check _ _ _) => .error "unavailable"
    | .resolveAll _ => .ok .none
    | .compile _ _ => .ok (.program .done)
    | .eval _ _ => ()
    | .consecutiveFailureCount _ => none
    | .deploymentHasOpenCrash _ => false
    | .resourceHasOpenCrash _ => false
    | .now => (0 : ℕ)
  flip := true

theorem calm_within : calm.Within Cooperative := by
  intro o
  cases o with
  | plugin module_ call => cases call <;> trivial
  | _ => trivial

section Surely

variable {α : Type} {P : World → Op → Prop} {w : World}

theorem surely_of_always {p : M α} {Q : Except String α → World → Prop} (h : Always P p Q w) :
    Surely P p Q w :=
  Prog.always_of_le (fun _ _ _ => trivial) h

theorem surely_rdb {region : RegionId} {o : Rdb.Op} {Q : Except String o.Result → World → Prop} :
    Surely P (M.rdb region o) Q w ↔ P w (.rdb region o) ∧
      Q (.ok (Rdb.Store.exec none o (w.rdb region)).1) (w.afterRdb region o) := by
  refine and_congr_right fun _ => ⟨fun h => h (.done none) rfl, ?_⟩
  rintro h reply rfl
  exact h

theorem surely_cdb {o : Cdb.Op} {Q : Except String o.Result → World → Prop} :
    Surely P (M.cdb o) Q w ↔ P w (.cdb o) ∧
      Q (.ok (Cdb.Store.exec none o w.cdb).1) (w.afterCdb o) := by
  refine and_congr_right fun _ => ⟨fun h => h (.done none) rfl, ?_⟩
  rintro h reply rfl
  exact h

theorem surely_enqueue {region : RegionId} {m : Message}
    {Q : Except String Unit → World → Prop} :
    Surely P (M.enqueue region m) Q w ↔ P w (.enqueue region m) ∧
      Q (.ok ()) { w with rtq := w.rtq ++ [(region, m)] } := by
  refine and_congr_right fun _ => ⟨fun h => h (.done none) rfl, ?_⟩
  rintro h reply rfl
  exact h

end Surely

/-- Running a statement of the resource database. -/
theorem run_rdb {α : Type} {region : RegionId} {o : Rdb.Op} {f : o.Result → M α}
    {ts : ℕ → World.sem.Turn} :
    (M.rdb region o >>= f).run World.sem ts w =
      match (ts 0).ans (.rdb region o) with
      | .done cut => (f (Rdb.Store.exec cut o (w.rdb region)).1).run World.sem
          (fun n => ts (n + 1)) (w.afterRdb region o)
      | .error applied msg => (.error msg, if applied then w.afterRdb region o else w) := by
  change ((M.ofExcept (World.act (.rdb region o) ((ts 0).ans (.rdb region o)) w).1) >>= f).run
    World.sem _ (World.act (.rdb region o) ((ts 0).ans (.rdb region o)) w).2 = _
  cases (ts 0).ans (.rdb region o) with
  | done cut =>
    rw [World.afterRdb, ← Rdb.Store.exec_snd cut]
    rfl
  | error applied msg =>
  cases applied with
  | true => rfl
  | false => exact congrArg (Prod.mk _) (w.setRdb_self region)

/-- Running a plugin call whose failure is handled. -/
theorem run_plugin {α : Type} {module_ : ModuleId} {call : PluginCall}
    {f : Except String call.Result → M α} {ts : ℕ → World.sem.Turn} :
    ((M.plugin module_ call).attempt >>= f).run World.sem ts w =
      (f ((ts 0).ans (.plugin module_ call))).run World.sem (fun n => ts (n + 1))
        { w with pluginCalls := w.pluginCalls ++ [(module_, call)] } := by
  let ans : Except String call.Result := (ts 0).ans (.plugin module_ call)
  change ((M.ofExcept ans).attempt >>= f).run World.sem _ _ = (f ans).run World.sem _ _
  cases ans <;> rfl

end Skyr
