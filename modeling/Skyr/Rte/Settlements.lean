import Skyr.Rte.Handlers

/-!
# How a delivery is settled

A handler settles the delivery itself wherever it stops early, and the worker acknowledges every
delivery whose handler returns.  So a delivery is settled once on the paths on which its handler
gets to the end, and twice on all others.

`carryOut` is what a message asks for, without the reports and the settlements: it reads the row,
calls the plugin and writes, and fails as soon as something is not as the message wants it or goes
wrong.  The handlers ask the same of the surroundings in the same order (`Tracks`), which is how
the two are compared on each path.
-/

namespace Skyr.Rte

open Prog

variable [SclData]

/-! ## What the messages ask for -/

section CarryOut

variable (ctx : WorkerContext)

/-- There is no row; the plugin creates the resource and the row is written. -/
def carryOutCreate (m : CreateMessage) : M Unit := do
  match ← (resourceClient ctx m.resource).get with
  | some _ => .fail "there is a row"
  | none =>
    match resolvePlugin m.resource.resourceId.typ ctx.plugins with
    | none => .fail (noPlugin m.resource)
    | some plugin =>
      if !checkJsonSize m.inputs maxInputSizeBytes then .fail "the inputs are too large"
      else
        match SclData.fromJson m.inputs with
        | .error e => .fail e
        | .ok inputs =>
          let resource : Resource ← M.plugin plugin (.createResource
            (deploymentQid m.resource.environmentQid m.deploymentId) m.resource.resourceId inputs)
          if outputTooLarge resource.outputs then .fail "the outputs are too large"
          else
            persistResourceState (resourceClient ctx m.resource) resource.inputs
              (deploymentQid m.resource.environmentQid m.deploymentId) resource.outputs
              (some resource.markers) (dependenciesFromRefs m.dependencies) m.sourceTrace

/-- The row of a resource that `owner` owns, with its inputs and outputs. -/
def readOwned (resource : ResourceRef) (owner : String) : M (Rdb.Resource × Record × Record) := do
  match ← (resourceClient ctx resource).get with
  | none => .fail "there is no row"
  | some current =>
    if current.owner ≠ some owner then .fail "somebody else owns it"
    else
      match current.inputs, current.outputs with
      | some inputs, some outputs => pure (current, inputs, outputs)
      | _, _ => .fail "the row is not complete"

def carryOutDestroy (m : DestroyMessage) : M Unit := do
  let (_, inputs, outputs) ← readOwned ctx m.resource
    (deploymentQid m.resource.environmentQid m.deploymentId)
  match resolvePlugin m.resource.resourceId.typ ctx.plugins with
  | none => .fail (noPlugin m.resource)
  | some plugin =>
    let _ ← M.plugin plugin (.deleteResource
      (deploymentQid m.resource.environmentQid m.deploymentId) m.resource.resourceId inputs outputs)
    (resourceClient ctx m.resource).delete

/-- The inputs are brought to the desired ones, by the plugin if they differ, and the row is
written. -/
def carryOutUpdate (p : UpdateParams) : M Unit := do
  let (_, prevInputs, prevOutputs) ← readOwned ctx p.resource p.ownerDeploymentQid
  if !checkJsonSize p.desiredInputs maxInputSizeBytes then .fail "the inputs are too large"
  else
    match SclData.fromJson p.desiredInputs with
    | .error e => .fail e
    | .ok desiredInputs =>
      if prevInputs != desiredInputs then
        match resolvePlugin p.resource.resourceId.typ ctx.plugins with
        | none => .fail (noPlugin p.resource)
        | some plugin =>
          let updated : Resource ← M.plugin plugin (.updateResource p.targetDepQid
            p.resource.resourceId prevInputs prevOutputs desiredInputs)
          if outputTooLarge updated.outputs then .fail "the outputs are too large"
          else
            persistResourceState (resourceClient ctx p.resource) updated.inputs p.targetDepQid
              updated.outputs (some updated.markers) (dependenciesFromRefs p.dependencies)
              p.sourceTrace
      else
        persistResourceState (resourceClient ctx p.resource) prevInputs p.targetDepQid prevOutputs
          none (dependenciesFromRefs p.dependencies) p.sourceTrace

def carryOutCheck (m : CheckMessage) : M Unit := do
  let (current, inputs, outputs) ← readOwned ctx m.resource
    (deploymentQid m.resource.environmentQid m.deploymentId)
  match resolvePlugin m.resource.resourceId.typ ctx.plugins with
  | none => .fail (noPlugin m.resource)
  | some plugin =>
    let checked : Resource ← M.plugin plugin (.check
      (deploymentQid m.resource.environmentQid m.deploymentId) m.resource.resourceId
      ⟨inputs, outputs, current.dependencies, current.markers⟩)
    if outputTooLarge checked.outputs then .fail "the outputs are too large"
    else
      let _ ← (resourceClient ctx m.resource).setOutput checked.outputs

/-- What a message asks for, carried out in full or failing at the first thing that is not as it
should be. -/
def carryOut : Message → M Unit
  | .create m => carryOutCreate ctx m
  | .destroy m => carryOutDestroy ctx m
  | .adopt m => carryOutUpdate ctx (adoptParams m)
  | .restore m => carryOutUpdate ctx (restoreParams m)
  | .check m => carryOutCheck ctx m

end CarryOut

/-! ## Settlements on a path -/

/-- Surroundings that carry settlements out, whatever else they do. -/
def Settling : (o : Op) → World.sem.Ans o → Prop
  | .settle _, reply => reply = .done none
  | _, _ => True

/-- From any state the program returns, and it adds `n` settlements. -/
structure Settles (n : ℕ) (p : M Unit) : Prop where
  always : ∀ w, p.always World.sem Settling (fun _ _ => True)
    (fun r w' => r = .ok () ∧ ∃ l : List Settlement, l.length = n ∧
      w'.settlements = w.settlements ++ l) w

variable {n k : ℕ} {p q t : M Unit}

theorem settles_ret : Settles 0 (.ret ()) :=
  ⟨fun _ => ⟨rfl, [], rfl, (List.append_nil _).symm⟩⟩

theorem Settles.bind (hp : Settles n p) (hq : Settles k q) :
    Settles (n + k) (p >>= fun _ => q) := by
  refine ⟨fun w => always_bind.2 (always_mono (hp.always w) ?_)⟩
  rintro _ w₁ ⟨rfl, l₁, rfl, h₁⟩
  refine always_mono (hq.always w₁) ?_
  rintro _ w₂ ⟨rfl, l₂, rfl, h₂⟩
  exact ⟨rfl, l₁ ++ l₂, List.length_append, by rw [h₂, h₁, List.append_assoc]⟩

theorem settles_settle (s : Settlement) : Settles 1 (M.settle s) := by
  refine ⟨fun w => ⟨trivial, fun a ha => ?_⟩⟩
  obtain rfl : a = .done none := ha
  exact ⟨rfl, [s], rfl, rfl⟩

theorem settles_publishReport (homeRegion : RegionId) (resource : ResourceRef) (outcome : Outcome)
    (state : ResourceOperationalState) (terminal volatile : Bool) :
    Settles 0 (publishReport homeRegion resource outcome state terminal volatile) := by
  refine ⟨fun w => ⟨trivial, fun a _ => ?_⟩⟩
  cases a <;> exact ⟨rfl, [], rfl, (List.append_nil _).symm⟩

theorem settles_reject (homeRegion : RegionId) (resource : ResourceRef)
    (category : IncidentCategory) (error : String) (state : ResourceOperationalState)
    (volatile : Bool) : Settles 1 (reject homeRegion resource category error state volatile) :=
  (settles_publishReport ..).bind (settles_settle _)

def NoSettlement : Op → Prop
  | .settle _ => False
  | _ => True

/-- `p` asks what `t` asks, and none of it is a settlement.  When `t` has returned, `p` settles `n`
times more, and when `t` has failed, once more than that. -/
inductive Tracks (n : ℕ) : M Unit → M Unit → Prop
  | returned {p : M Unit} (h : Settles n p) : Tracks n p (.ret ())
  | failed {p : M Unit} (e : String) (h : Settles (1 + n) p) : Tracks n p (.fail e)
  | ask {o : Op} {k k' : Resp o → M Unit} (ho : NoSettlement o) (h : ∀ r, Tracks n (k r) (k' r)) :
    Tracks n (.ask o k) (.ask o k')
  | choose {k k' : Bool → M Unit} (h : ∀ b, Tracks n (k b) (k' b)) :
    Tracks n (.choose k) (.choose k')

theorem Tracks.stopped {e : String} (h : Settles 1 p) : Tracks 0 p (.fail e) := .failed e h

theorem act_settlements {o : Op} (ho : NoSettlement o) (a : World.sem.Ans o) (w : World) :
    (World.sem.act o a w).2.settlements = w.settlements := by
  cases o with
  | settle => exact ho.elim
  | _ => rfl

/-- On a path, a program that tracks another settles once more exactly if the other fails. -/
theorem Tracks.run (h : Tracks n p t) {ts : ℕ → World.sem.Turn}
    (hts : ∀ i, (ts i).Within Settling) (w : World) :
    ∃ l : List Settlement, (p.run World.sem ts w).2.settlements = w.settlements ++ l ∧
      ((t.run World.sem ts w).1 = .ok () ∧ l.length = n ∨
        (t.run World.sem ts w).1 ≠ .ok () ∧ l.length = 1 + n) := by
  induction h generalizing ts w with
  | returned h =>
    obtain ⟨-, l, hl, hs⟩ := always_run (h.always w) hts
    exact ⟨l, hs, .inl ⟨rfl, hl⟩⟩
  | failed e h =>
    obtain ⟨-, l, hl, hs⟩ := always_run (h.always w) hts
    exact ⟨l, hs, .inr ⟨by rintro ⟨⟩, hl⟩⟩
  | ask ho h ih =>
    obtain ⟨l, hs, hl⟩ := ih _ (fun i => hts (i + 1)) (World.sem.act _ ((ts 0).ans _) w).2
    rw [act_settlements ho] at hs
    exact ⟨l, hs, hl⟩
  | choose h ih => exact ih _ (fun i => hts (i + 1)) w

theorem Tracks.bind (h : Tracks n p t) (hq : Settles k q) :
    Tracks (n + k) (p >>= fun _ => q) t := by
  induction h with
  | returned h => exact .returned (h.bind hq)
  | failed e h => exact .failed e (Nat.add_assoc .. ▸ h.bind hq)
  | ask ho h ih => exact .ask ho ih
  | choose h ih => exact .choose ih

/-- The rule for a part whose error a handler looks at: `t` stops at the error. -/
theorem tracks_attempt {α : Type} {a : M α} (ha : a.issues NoSettlement)
    {f : Except String α → M Unit} {g : α → M Unit} (hok : ∀ x, Tracks n (f (.ok x)) (g x))
    (herr : ∀ e, Settles (1 + n) (f (.error e))) : Tracks n (a.attempt >>= f) (a >>= g) := by
  induction a with
  | ret x => exact hok x
  | fail e => exact .failed e (herr e)
  | ask o k ih => exact .ask ha.1 fun r => ih r (ha.2 r)
  | choose k ih => exact .choose fun b => ih b (ha b)

theorem tracks_last {a : M Unit} (ha : a.issues NoSettlement) {f : Except String Unit → M Unit}
    (hok : Settles n (f (.ok ()))) (herr : ∀ e, Settles (1 + n) (f (.error e))) :
    Tracks n (a.attempt >>= f) a := by
  have h := tracks_attempt ha (fun _ => .returned hok) herr
  rwa [bind_ret] at h

/-! ## The handlers

Each handler is compared with what its message asks for: both ask the same, and where the message
cannot be carried out the handler settles once more. -/

section Handlers

variable {ctx : WorkerContext}

theorem issues_call {module_ : ModuleId} {call : PluginCall} :
    (M.plugin module_ call).issues NoSettlement :=
  ⟨trivial, fun r => issues_ofExcept r⟩

theorem handleCreate_tracks (m : CreateMessage) :
    Tracks 0 (handleCreate ctx m) (carryOutCreate ctx m) := by
  refine tracks_attempt (Rdb.ResourceClient.issues_get trivial) (fun row => ?_) fun e =>
    settles_reject ..
  cases row with
  | some row => exact .stopped (settles_settle _)
  | none =>
  dsimp only [createMissing]
  rcases resolvePlugin m.resource.resourceId.typ ctx.plugins with _ | plugin
  · exact .stopped (settles_reject ..)
  dsimp only
  split
  · exact .stopped (settles_reject ..)
  rcases SclData.fromJson m.inputs with e | inputs
  · exact .stopped (settles_reject ..)
  refine tracks_attempt issues_call (fun resource => ?_) fun e => settles_reject ..
  dsimp only [persistCreated]
  split
  · exact .stopped (settles_reject ..)
  exact tracks_last (issues_persistResourceState (fun _ => trivial) ..)
    (settles_publishReport ..) fun e => settles_reject ..

theorem handleDestroy_tracks (m : DestroyMessage) :
    Tracks 0 (handleDestroy ctx m) (carryOutDestroy ctx m) := by
  rw [carryOutDestroy, readOwned, Prog.bind_assoc]
  refine tracks_attempt (Rdb.ResourceClient.issues_get trivial) (fun row => ?_) fun e =>
    settles_reject ..
  cases row with
  | none => exact .stopped (settles_settle _)
  | some current =>
  dsimp only
  split
  · exact .stopped (settles_settle _)
  rw [destroyOwned]
  rcases current.inputs with _ | inputs
  · exact .stopped (settles_reject ..)
  rcases current.outputs with _ | outputs
  · exact .stopped (settles_reject ..)
  dsimp only [ret_bind, pure_eq]
  rcases resolvePlugin m.resource.resourceId.typ ctx.plugins with _ | plugin
  · exact .stopped (settles_reject ..)
  refine tracks_attempt issues_call (fun _ => ?_) fun e => settles_reject ..
  have hdelete : (resourceClient ctx m.resource).delete.issues NoSettlement :=
    issues_bind (issues_rdb trivial) fun _ => trivial
  exact tracks_last hdelete (settles_publishReport ..) fun e => settles_reject ..

theorem handleCheck_tracks (m : CheckMessage) :
    Tracks 0 (handleCheck ctx m) (carryOutCheck ctx m) := by
  rw [carryOutCheck, readOwned, Prog.bind_assoc]
  refine tracks_attempt (Rdb.ResourceClient.issues_get trivial) (fun row => ?_) fun e =>
    settles_reject ..
  cases row with
  | none => exact .stopped (settles_settle _)
  | some current =>
  dsimp only
  split
  · exact .stopped (settles_settle _)
  rw [checkOwned]
  rcases current.inputs with _ | inputs
  · exact .stopped (settles_reject ..)
  rcases current.outputs with _ | outputs
  · exact .stopped (settles_reject ..)
  dsimp only [ret_bind, pure_eq]
  rcases resolvePlugin m.resource.resourceId.typ ctx.plugins with _ | plugin
  · exact .stopped (settles_reject ..)
  refine tracks_attempt issues_call (fun checked => ?_) fun e => settles_reject ..
  dsimp only
  split
  · exact .stopped (settles_reject ..)
  exact tracks_attempt (issues_setOutput (fun _ => trivial) _)
    (fun _ => .returned (settles_publishReport ..)) fun e => settles_reject ..

/-- Report the success of an update; a stopped one has been reported on. -/
def reportUpdated (p : UpdateParams) : Option Bool → M Unit
  | none => return ()
  | some volatile => publishReport p.homeRegion p.resource .success .live false volatile

theorem handleUpdate_tracks (p : UpdateParams) :
    Tracks 0 (handleUpdate ctx p) (carryOutUpdate ctx p) := by
  have hreject : ∀ category error volatile,
      Settles 1 (p.reject category error volatile >>= reportUpdated p) := by
    intro category error volatile
    rw [UpdateParams.reject, Prog.bind_assoc]
    exact (settles_reject ..).bind settles_ret
  have hdrop : Settles 1 ((do M.settle .ack; return none) >>= reportUpdated p) := by
    rw [Prog.bind_assoc]
    exact (settles_settle _).bind settles_ret
  have hpersist : ∀ inputs outputs markers volatile,
      Tracks 0 (p.persist ctx inputs outputs markers volatile >>= reportUpdated p)
        (persistResourceState (resourceClient ctx p.resource) inputs p.targetDepQid outputs markers
          (dependenciesFromRefs p.dependencies) p.sourceTrace) := by
    intro inputs outputs markers volatile
    rw [UpdateParams.persist, Prog.bind_assoc]
    exact tracks_last (issues_persistResourceState (fun _ => trivial) ..)
      (settles_publishReport ..) fun e => hreject ..
  rw [carryOutUpdate, readOwned, Prog.bind_assoc]
  change Tracks 0 (handleUpdateInputs ctx p >>= reportUpdated p) _
  rw [handleUpdateInputs, Prog.bind_assoc]
  refine tracks_attempt (Rdb.ResourceClient.issues_get trivial) (fun row => ?_) fun e => hreject ..
  cases row with
  | none => exact .stopped hdrop
  | some current =>
  dsimp only
  split
  · exact .stopped hdrop
  rw [UpdateParams.updateOwned]
  rcases current.inputs with _ | prevInputs
  · exact .stopped (hreject ..)
  rcases current.outputs with _ | prevOutputs
  · exact .stopped (hreject ..)
  dsimp only [ret_bind, pure_eq]
  split
  · exact .stopped (hreject ..)
  rcases SclData.fromJson p.desiredInputs with e | desiredInputs
  · exact .stopped (hreject ..)
  dsimp only [UpdateParams.apply]
  split
  · rcases resolvePlugin p.resource.resourceId.typ ctx.plugins with _ | plugin
    · exact .stopped (hreject ..)
    dsimp only
    rw [Prog.bind_assoc]
    refine tracks_attempt issues_call (fun updated => ?_) fun e => hreject ..
    dsimp only
    split
    · exact .stopped (hreject ..)
    · exact hpersist ..
  · exact hpersist ..

theorem workerLoopIteration_tracks (m : Message) :
    Tracks 1 (workerLoopIteration ctx m) (carryOut ctx m) := by
  have handle_tracks : Tracks 0 (handle ctx m) (carryOut ctx m) := by
    cases m with
    | create m => exact handleCreate_tracks m
    | destroy m => exact handleDestroy_tracks m
    | adopt m => exact handleUpdate_tracks _
    | restore m => exact handleUpdate_tracks _
    | check m => exact handleCheck_tracks m
  exact handle_tracks.bind (settles_settle _)

end Handlers

/-- **A delivery is settled once exactly on the paths on which its transition is carried out.**  On
every other path the handler has settled it already when the worker acknowledges it. -/
theorem settled_once_iff (ctx : WorkerContext) (m : Message) (ts : ℕ → World.sem.Turn)
    (hts : ∀ i, (ts i).Within Settling) (w : World) :
    (∃ s, ((workerLoopIteration ctx m).run World.sem ts w).2.settlements = w.settlements ++ [s]) ↔
      ((carryOut ctx m).run World.sem ts w).1 = .ok () := by
  obtain ⟨l, hl, ⟨hok, hlen⟩ | ⟨herr, hlen⟩⟩ := (workerLoopIteration_tracks m).run hts w
  · obtain ⟨s, rfl⟩ := List.length_eq_one_iff.1 hlen
    exact iff_of_true ⟨s, hl⟩ hok
  · refine iff_of_false ?_ herr
    rintro ⟨s, hs⟩
    rw [hl, List.append_cancel_left_eq] at hs
    simp [hs] at hlen

end Skyr.Rte

namespace Skyr.Rte

local instance diceData : SclData := .nat

/-- A transition engine with one plugin. -/
def diceContext : WorkerContext := ⟨⟨"eu"⟩, [⟨["Std"], ["Random"]⟩]⟩

def dice : ResourceRef := ⟨⟨⟨⟨"acme"⟩, ⟨"shop"⟩⟩, ⟨"main"⟩⟩, ⟨"eu"⟩, "Std/Random.Int", "lucky"⟩

/-- Everything works, and the plugin creates what it is asked for. -/
def rolled : World.sem.Turn where
  ans
    | .plugin _ (.createResource _ _ inputs) => .ok ⟨inputs, (7 : ℕ), [], []⟩
    | o => calm.ans o
  flip := true

/-- The resource database does not answer. -/
def unavailable : World.sem.Turn where
  ans
    | .rdb _ _ => .error false "unavailable"
    | o => calm.ans o
  flip := true

theorem rolled_within : rolled.Within Settling := by
  intro o
  cases o <;> trivial

/-- A create that is carried out. -/
theorem create_settled_once :
    ∃ s, ((workerLoopIteration diceContext
      (.create ⟨dice, ⟨⟨1⟩, ⟨1⟩⟩, ⟨"eu"⟩, (1 : ℕ), [], []⟩)).run World.sem (fun _ => rolled)
        .empty).2.settlements = [] ++ [s] :=
  (settled_once_iff diceContext _ _ (fun _ => rolled_within) .empty).2 (by rfl)

/-- A check, while the database does not answer. -/
theorem check_settled_twice :
    ((workerLoopIteration diceContext (.check ⟨dice, ⟨⟨1⟩, ⟨1⟩⟩, ⟨"eu"⟩⟩)).run World.sem
      (fun _ => unavailable) .empty).2.settlements = [.nack false, .ack] := by
  rfl

end Skyr.Rte
