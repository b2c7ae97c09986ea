import Mathlib.Order.Basic

/-!
# Recursion on fuel

A recursive procedure that need not end is written here with a number, its fuel: how deep the
recursive calls may nest.  `none` says that it was not enough.  Fuel is nothing but a bound — what
a procedure answers with some fuel, it answers with any more — and this is proved piece by piece:
`Below x y` says that `y` gives every answer that `x` gives, and each combinator a procedure is
written with has a lemma.
-/

namespace Skyr

/-- `y` answers whatever `x` answers. -/
def Below {α : Type} (x y : Option α) : Prop := ∀ a, x = some a → y = some a

namespace Below

variable {α β ε : Type}

theorem refl (x : Option α) : Below x x := fun _ h => h

theorem bind {x y : Option α} {f g : α → Option β} (h : Below x y) (hf : ∀ a, Below (f a) (g a)) :
    Below (x >>= f) (y >>= g) := by
  intro b hb
  cases x with
  | none => exact nomatch hb
  | some a =>
  rw [h a rfl]
  exact hf a b hb

theorem map {x y : Option α} (f : α → β) (h : Below x y) : Below (f <$> x) (f <$> y) := by
  intro b hb
  cases x with
  | none => exact nomatch hb
  | some a =>
  rw [h a rfl]
  exact hb

/-- Sequencing with errors. -/
theorem bindExcept {x y : ExceptT ε Option α} {f g : α → ExceptT ε Option β}
    (h : Below x.run y.run) (hf : ∀ a, Below (f a).run (g a).run) :
    Below (x >>= f).run (y >>= g).run := by
  refine bind h fun a => ?_
  cases a with
  | error e => exact refl _
  | ok a => exact hf a

variable {l : List α}

/-- A loop whose body may fail. -/
theorem forM {f g : α → ExceptT ε Option Unit}
    (h : ∀ a ∈ l, Below (f a).run (g a).run) : Below (l.forM f).run (l.forM g).run := by
  induction l with
  | nil => exact refl _
  | cons a l ih =>
  obtain ⟨ha, hl⟩ := List.forall_mem_cons.1 h
  exact bindExcept ha fun _ => ih hl

/-- A loop with an accumulator whose body may fail. -/
theorem foldlM {f g : β → α → ExceptT ε Option β}
    (h : ∀ b, ∀ a ∈ l, Below (f b a).run (g b a).run) (b : β) :
    Below (l.foldlM f b).run (l.foldlM g b).run := by
  induction l generalizing b with
  | nil => exact refl _
  | cons a l ih =>
  rw [List.foldlM_cons, List.foldlM_cons]
  exact bindExcept (h b a List.mem_cons_self) fun b =>
    ih (fun b a ha => h b a (List.mem_cons_of_mem _ ha)) b

/-- A loop that collects results. -/
theorem mapM {f g : α → Option β} (h : ∀ a ∈ l, Below (f a) (g a)) :
    Below (l.mapM f) (l.mapM g) := by
  induction l with
  | nil => exact refl _
  | cons a l ih =>
  obtain ⟨ha, hl⟩ := List.forall_mem_cons.1 h
  rw [List.mapM_cons, List.mapM_cons]
  exact bind ha fun _ => bind (ih hl) fun _ => refl _

end Below

end Skyr
