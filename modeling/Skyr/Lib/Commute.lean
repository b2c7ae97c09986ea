import Skyr.Lib.Prog

/-!
# Programs side by side that do not meet

Two programs that are run at the same time can be taken to run one after the other when no request
of the one can tell whether a request of the other has been carried out yet: when all their
requests commute (`Sem.Commute`).  Then whatever holds at the end of the first followed by the
second holds at the end of `Prog.join` (`Prog.always_join`).
-/

/-- The requests of `A` and of `B`, decided within `ok`, can be exchanged: the replies are the same
in either order, and so is the state in the end. -/
def Sem.Commute {Op : Type} {Resp : Op → Type} {σ : Type} (S : Sem Resp σ)
    (ok : (o : Op) → S.Ans o → Prop) (A B : Op → Prop) : Prop :=
  ∀ o o', A o → B o' → ∀ a a', ok o a → ok o' a' → ∀ s,
    (S.act o a (S.act o' a' s).2).1 = (S.act o a s).1 ∧
    (S.act o' a' (S.act o a s).2).1 = (S.act o' a' s).1 ∧
    (S.act o a (S.act o' a' s).2).2 = (S.act o' a' (S.act o a s).2).2

namespace Prog

variable {Op : Type} {Resp : Op → Type} {σ ε α β : Type} {S : Sem Resp σ}
  {ok : (o : Op) → S.Ans o → Prop} {A B : Op → Prop}

/-- Every execution ends in `Q`, whatever is requested on the way. -/
abbrev ends (S : Sem Resp σ) (ok : (o : Op) → S.Ans o → Prop) (p : Prog Resp ε α)
    (Q : Except ε α → σ → Prop) (s : σ) : Prop :=
  p.always S ok (fun _ _ => True) Q s

theorem ends_map {p : Prog Resp ε α} {f : α → β} {Q : Except ε β → σ → Prop} {s : σ}
    (h : p.ends S ok (fun r t => Q (r.map f) t) s) : (f <$> p).ends S ok Q s := by
  rw [map_eq_pure_bind]
  refine always_bind.2 (always_mono h fun r t hr => ?_)
  cases r with
  | ok | error => exact hr

variable (hcomm : S.Commute ok A B) {p : Prog Resp ε α} (hp : p.issues A)
  {Q : Except ε α → Except ε β → σ → Prop} {s : σ}

include hcomm hp

/-- A request that comes after a program can be made before it. -/
theorem ends_hoist {o : Op} (ho : B o) {k : Resp o → Prog Resp ε β}
    (h : p.ends S ok (fun a => (ask o k).ends S ok (Q a)) s) {d : S.Ans o} (hd : ok o d) :
    p.ends S ok (fun a => (k (S.act o d s).1).ends S ok (Q a)) (S.act o d s).2 := by
  induction p generalizing s with
  | ret | fail => exact h.2 d hd
  | choose f ih => exact fun b => ih b (hp b) (h b)
  | ask o' f ih =>
  refine ⟨trivial, fun d' hd' => ?_⟩
  obtain ⟨hreply, hreply', hstate⟩ := hcomm o' o hp.1 ho d' d hd' hd s
  have hrest := ih _ (hp.2 _) (h.2 d' hd')
  rw [hreply', ← hstate] at hrest
  rw [hreply]
  exact hrest

/-- **Programs that commute.**  If one after the other they end in `Q`, so they do side by side. -/
theorem always_join {q : Prog Resp ε β} (hq : q.issues B)
    (h : p.ends S ok (fun a => q.ends S ok (Q a)) s) :
    (p.join q).ends S ok (fun r t => ∃ a b, r = .ok (a, b) ∧ Q a b t) s := by
  induction p generalizing q s with
  | ret | fail =>
    refine ends_map (always_attempt.2 (always_mono h fun b t hb => ?_))
    exact ⟨_, b, rfl, hb⟩
  | choose f ih => exact fun b => ih b (hp b) hq (h b)
  | ask o f ih =>
  -- The second program may come first, so an induction on it is needed as well.
  induction q generalizing s with
  | ret | fail =>
    refine ⟨trivial, fun d hd => ends_map (always_attempt.2 (always_mono (h.2 d hd) ?_))⟩
    exact fun a t ha => ⟨a, _, rfl, ha⟩
  | choose g ihq =>
    exact fun b => ihq b (hq b) (always_mono h fun a t ha => ha b)
  | ask o' g ihq =>
  intro first
  cases first with
  | true => exact ⟨trivial, fun d hd => ih _ (hp.2 _) hq (h.2 d hd)⟩
  | false => exact ⟨trivial, fun d hd => ihq _ (hq.2 _) (ends_hoist hcomm hp hq.1 h hd)⟩

end Prog
