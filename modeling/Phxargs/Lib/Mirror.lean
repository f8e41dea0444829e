import Phxargs.Lib.Program

/-!
# `Phxargs.Lib.Mirror`: two runs side by side

A map `f` of states forgets or replaces a part of the state. `Mirrors f m m' s` says that `m'` does
from the image of `s` what `m` does from `s`: it has the same result, and it ends in the image of
the state in which `m` ends. With `m' = m` this is noninterference for the part of the state
that `f` changes, in one run of `m`.

There is one rule for each way to build a program. The rule of a `bind` may use where the first
part has ended, and the rule of `forEach` carries an invariant, so conditions on the run on one
side are enough for both.
-/

set_option autoImplicit false

namespace Lib

variable {ε σ σ' τ τ' α β : Type}

/-- A result with its state replaced. -/
def mapState (f : σ → σ') : EStateM.Result ε σ α → EStateM.Result ε σ' α
  | .ok a s => .ok a (f s)
  | .error e s => .error e (f s)

@[simp] theorem mapState_ok (f : σ → σ') (a : α) (s : σ) :
    mapState f (.ok a s : EStateM.Result ε σ α) = .ok a (f s) := rfl

@[simp] theorem mapState_error (f : σ → σ') (e : ε) (s : σ) :
    mapState f (.error e s : EStateM.Result ε σ α) = .error e (f s) := rfl

theorem finalState_mapState (f : σ → σ') (r : EStateM.Result ε σ α) :
    finalState (mapState f r) = f (finalState r) := by
  cases r <;> rfl

/-- From the image of `s`, `m'` does what `m` does from `s`. -/
def Mirrors (f : σ → σ') (m : EStateM ε σ α) (m' : EStateM ε σ' α) (s : σ) : Prop :=
  m' (f s) = mapState f (m s)

namespace Mirrors

variable {f : σ → σ'} {s : σ}

theorem pure (a : α) : Mirrors f (pure a : EStateM ε σ α) (pure a) s := rfl

theorem throw (e : ε) : Mirrors f (throw e : EStateM ε σ α) (throw e) s := rfl

theorem bind {m : EStateM ε σ α} {m' : EStateM ε σ' α} {k : α → EStateM ε σ β}
    {k' : α → EStateM ε σ' β} (hm : Mirrors f m m' s)
    (hk : ∀ a t, m s = .ok a t → Mirrors f (k a) (k' a) t) :
    Mirrors f (m >>= k) (m' >>= k') s := by
  unfold Mirrors at hm hk ⊢
  show EStateM.bind m' k' (f s) = mapState f (EStateM.bind m k s)
  unfold EStateM.bind
  rw [hm]
  cases hrun : m s with
  -- The second part may use where the first one has ended.
  | ok a t => exact hk a t hrun
  | error e t => rfl

/-- Each side continues with the state that it reads. -/
theorem get_bind {k : σ → EStateM ε σ β} {k' : σ' → EStateM ε σ' β}
    (h : Mirrors f (k s) (k' (f s)) s) : Mirrors f (get >>= k) (get >>= k') s := h

theorem set {t : σ} {t' : σ'} (h : t' = f t) :
    Mirrors f (set t : EStateM ε σ PUnit) (set t') s := by
  rw [h]
  rfl

theorem modify {g : σ → σ} {g' : σ' → σ'} (h : g' (f s) = f (g s)) :
    Mirrors f (modify g : EStateM ε σ PUnit) (modify g') s := by
  show EStateM.Result.ok _ (g' (f s)) = .ok _ (f (g s))
  rw [h]

theorem ofExcept (r : Except ε α) : Mirrors f (ofExcept r : EStateM ε σ α) (ofExcept r) s := by
  cases r <;> rfl

/-- Both sides take the same branch. -/
theorem ite {c c' : Prop} [Decidable c] [Decidable c'] {m n : EStateM ε σ α} {m' n' : EStateM ε σ' α}
    (hc : c ↔ c') (hm : c → Mirrors f m m' s) (hn : ¬ c → Mirrors f n n' s) :
    Mirrors f (if c then m else n) (if c' then m' else n') s := by
  by_cases h : c
  · rw [if_pos h, if_pos (hc.mp h)]
    exact hm h
  · rw [if_neg h, if_neg (fun h' => h (hc.mpr h'))]
    exact hn h

/-- A component is mirrored by `g`. -/
theorem focus {get : σ → τ} {set : τ → σ → σ} {get' : σ' → τ'} {set' : τ' → σ' → σ'} {g : τ → τ'}
    {m : EStateM ε τ α} {m' : EStateM ε τ' α} (hget : get' (f s) = g (get s))
    (hset : ∀ t, set' (g t) (f s) = f (set t s)) (h : Mirrors g m m' (get s)) :
    Mirrors f (focus get set m) (focus get' set' m') s := by
  unfold Mirrors at h ⊢
  unfold Lib.focus
  rw [hget, h]
  cases m (get s) with
  | ok a t => exact congrArg (EStateM.Result.ok a) (hset t)
  | error e t => exact congrArg (EStateM.Result.error e) (hset t)

theorem whileDo {cond : σ → Bool} {cond' : σ' → Bool} {body : EStateM ε σ Unit}
    {body' : EStateM ε σ' Unit} (hcond : ∀ s, cond' (f s) = cond s)
    (hbody : ∀ s, Mirrors f body body' s) :
    ∀ n s, Mirrors f (whileDo cond body n) (whileDo cond' body' n) s := by
  intro n
  induction n with
  | zero => exact fun s => rfl
  | succ n ih =>
      intro s
      refine .get_bind (.ite ?_ (fun _ => ?_) fun _ => .pure ())
      · rw [hcond s]
      · exact .bind (hbody s) fun _ t _ => ih t

/-- The rule of `forEach`. `I n` holds where a round starts with `n` rounds left, on the first
side. -/
theorem forEach {next : EStateM ε σ (Option β)} {next' : EStateM ε σ' (Option β)}
    {body : β → EStateM ε σ Bool} {body' : β → EStateM ε σ' Bool} (I : Nat → σ → Prop)
    (hnext : ∀ s, Mirrors f next next' s)
    (hround : ∀ n s x t, I (n + 1) s → next s = .ok (some x) t →
      Mirrors f (body x) (body' x) t ∧ ∀ u, body x t = .ok false u → I n u) :
    ∀ n present s, I n s →
      Mirrors f (forEach next body n present) (forEach next' body' n present) s := by
  intro n
  induction n with
  | zero => exact fun _ _ _ => rfl
  | succ n ih =>
      intro present s hI
      refine .bind (hnext s) ?_
      intro read t hread
      cases read with
      | none => exact .pure present
      | some x =>
          -- The invariant is about the first side only; the second one is its image.
          obtain ⟨hbody, hnextI⟩ := hround n s x t hI hread
          refine .bind hbody ?_
          intro leave u hleave
          cases leave with
          | true => exact .pure true
          | false => exact ih true u (hnextI u hleave)

end Mirrors

end Lib
