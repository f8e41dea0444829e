import Mathlib.Data.List.Basic

/-!
# `Phxargs.Lib.Simulation`: a computation that can fail against one that cannot

`Simulates E R x b` compares a computation `x` that can fail with the plain value `b`: either `x`
returns a value that stands for `b`, or it fails with an error that `E` admits. The rules follow
the sequence of a program (`Simulates.bind`) and a fold over its inputs (`Simulates.foldlM`).
-/

set_option autoImplicit false

namespace Lib

variable {ε α β γ δ : Type} {E : ε → Prop} {R : α → β → Prop} {S : γ → δ → Prop}

/-- `x` returns what `R` relates to `b`, or it fails as `E` admits. -/
def Simulates (E : ε → Prop) (R : α → β → Prop) (x : Except ε α) (b : β) : Prop :=
  match x with
  | .ok a => R a b
  | .error e => E e

namespace Simulates

@[simp] theorem ok_iff {a : α} {b : β} :
    Simulates E R (.ok a : Except ε α) b ↔ R a b := Iff.rfl

@[simp] theorem error_iff {e : ε} {b : β} :
    Simulates E R (.error e : Except ε α) b ↔ E e := Iff.rfl

/-- A computation that returns. -/
theorem pure {a : α} {b : β} (h : R a b) : Simulates E R (Pure.pure a : Except ε α) b := h

/-- First one computation and then another one. -/
theorem bind {x : Except ε α} {b : β} {f : α → Except ε γ} {d : δ} (hx : Simulates E R x b)
    (hf : ∀ a, R a b → Simulates E S (f a) d) : Simulates E S (x >>= f) d := by
  cases x with
  | error e => exact hx
  | ok a => exact hf a hx

/-- A weaker relation, and more errors. -/
theorem imp {x : Except ε α} {b : β} {E' : ε → Prop} {S : α → δ → Prop} {d : δ}
    (hx : Simulates E R x b) (hE : ∀ e, E e → E' e) (hR : ∀ a, R a b → S a d) :
    Simulates E' S x d := by
  cases x with
  | error e => exact hE e hx
  | ok a => exact hR a hx

/-- **The run rule.** A step that keeps the relation makes the fold keep it. The step may know
what has been processed before it and what follows. Induction on the inputs. -/
theorem foldlM {ι : Type} {f : α → ι → Except ε α} {g : β → ι → β} :
    ∀ (as : List ι) {s : α} {t : β},
      (∀ before a after s', as = before ++ a :: after → R s' (before.foldl g t) →
        Simulates E R (f s' a) (g (before.foldl g t) a)) →
      R s t → Simulates E R (as.foldlM f s) (as.foldl g t) := by
  intro as
  induction as with
  | nil => intro s t _ h; exact h
  | cons a as ih =>
      intro s t hstep h
      rw [List.foldlM_cons, List.foldl_cons]
      refine (hstep [] a as s rfl h).bind fun s' hs' => ih (t := g t a) ?_ hs'
      -- What the rest processes stands behind `a`.
      intro before a' after s'' hsplit hs''
      exact hstep (a :: before) a' after s'' (by rw [hsplit, List.cons_append]) hs''

end Simulates

end Lib
