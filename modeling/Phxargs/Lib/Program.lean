import Mathlib.Data.List.Basic

/-!
# `Phxargs.Lib.Program`: programs that can exit

A C program that calls `exit` in the middle of a function stops where it stands, and what
it did before stays done. `EStateM ε σ α` is this shape: a run from a state either returns
a value or exits with an `ε`, and both carry the state that the run reached.

The module gives what a verification needs on top of core's `EStateM`:

* `wp m Q E`: the weakest precondition of `m`. `Q` is the condition on a return and `E`
  the condition on an exit. `wp_bind`, `wp_mono` and the rules of the basic operations
  take a `do` block apart without unfolding the monad.
* `focus`: a program over a component, run on the whole state.
* `whileDo`: `while (cond) { body }` with a bound on its rounds. `wp_whileDo` is its
  invariant rule. The rule also shows that the bound is not the reason why the loop stops.
* `forEach`: `for (x = next(); x != NULL; x = next()) { body }` with `break`. `forEachRounds`
  are its rounds, for statements about every step of a run. `wp_forEach` is the invariant
  rule for both together, and `wp_forEach_keeps` the one for the loop alone.
* `Moves R m`: wherever `m` starts, it ends in an `R`-later state, by a return or by an exit.
  For a preorder `R` this is closed under everything that programs are built from.
-/

set_option autoImplicit false

namespace Lib

variable {ε σ τ α β : Type}

/-! ### Results -/

/-- The state that a run reached, by a return or by an exit. -/
def finalState : EStateM.Result ε σ α → σ
  | .ok _ s => s
  | .error _ s => s

/-- The value of a run that exited, `none` for a run that returned. -/
def exitOf : EStateM.Result ε σ α → Option ε
  | .ok _ _ => none
  | .error e _ => some e

@[simp] theorem finalState_ok (a : α) (s : σ) :
    finalState (.ok a s : EStateM.Result ε σ α) = s := rfl

@[simp] theorem finalState_error (e : ε) (s : σ) :
    finalState (.error e s : EStateM.Result ε σ α) = s := rfl

@[simp] theorem exitOf_ok (a : α) (s : σ) :
    exitOf (.ok a s : EStateM.Result ε σ α) = none := rfl

@[simp] theorem exitOf_error (e : ε) (s : σ) :
    exitOf (.error e s : EStateM.Result ε σ α) = some e := rfl

/-! ### Weakest preconditions -/

/-- The weakest precondition of `m`: from `s`, a return of `m` satisfies `Q` and an exit of
`m` satisfies `E`. -/
def wp (m : EStateM ε σ α) (Q : α → σ → Prop) (E : ε → σ → Prop) (s : σ) : Prop :=
  match m s with
  | .ok a s' => Q a s'
  | .error e s' => E e s'

variable {Q Q' : α → σ → Prop} {E E' : ε → σ → Prop} {s : σ}

@[simp] theorem wp_pure (a : α) :
    wp (pure a : EStateM ε σ α) Q E s ↔ Q a s := Iff.rfl

@[simp] theorem wp_bind (m : EStateM ε σ β) (f : β → EStateM ε σ α) :
    wp (m >>= f) Q E s ↔ wp m (fun b s' => wp (f b) Q E s') E s := by
  -- `>>=` is `EStateM.bind` only through the instance, so it is named first.
  show (match EStateM.bind m f s with | .ok a s' => Q a s' | .error e s' => E e s') ↔ _
  unfold wp EStateM.bind
  cases m s <;> rfl

@[simp] theorem wp_get {Q : σ → σ → Prop} :
    wp (get : EStateM ε σ σ) Q E s ↔ Q s s := Iff.rfl

@[simp] theorem wp_set {Q : PUnit → σ → Prop} (t : σ) :
    wp (set t : EStateM ε σ PUnit) Q E s ↔ Q ⟨⟩ t := Iff.rfl

@[simp] theorem wp_modify {Q : PUnit → σ → Prop} (f : σ → σ) :
    wp (modify f : EStateM ε σ PUnit) Q E s ↔ Q ⟨⟩ (f s) := Iff.rfl

@[simp] theorem wp_throw (e : ε) :
    wp (throw e : EStateM ε σ α) Q E s ↔ E e s := Iff.rfl

@[simp] theorem wp_ite (c : Prop) [Decidable c] (m m' : EStateM ε σ α) :
    wp (if c then m else m') Q E s ↔ (if c then wp m Q E s else wp m' Q E s) := by
  split <;> rfl

/-- The rule of consequence. -/
theorem wp_mono {m : EStateM ε σ α} (h : wp m Q E s) (hQ : ∀ a s', Q a s' → Q' a s')
    (hE : ∀ e s', E e s' → E' e s') : wp m Q' E' s := by
  unfold wp at h ⊢
  cases hm : m s with
  | ok a s' => rw [hm] at h; exact hQ a s' h
  | error e s' => rw [hm] at h; exact hE e s' h

/-- The rule of consequence where the condition on an exit stays. -/
theorem wp_mono_return {m : EStateM ε σ α} (h : wp m Q E s) (hQ : ∀ a s', Q a s' → Q' a s') :
    wp m Q' E s :=
  wp_mono h hQ fun _ _ he => he

/-- The rule of consequence for a program that does not exit. -/
theorem wp_mono_noExit {m : EStateM ε σ α} (h : wp m Q (fun _ _ => False) s)
    (hQ : ∀ a s', Q a s' → Q' a s') : wp m Q' E s :=
  wp_mono h hQ fun _ _ he => he.elim

/-- The rule of consequence for a condition on the state alone, the same on a return and on an
exit. -/
theorem wp_mono_state {m : EStateM ε σ α} {P P' : σ → Prop}
    (h : wp m (fun _ s' => P s') (fun _ s' => P s') s) (hP : ∀ s', P s' → P' s') :
    wp m (fun _ s' => P' s') (fun _ s' => P' s') s :=
  wp_mono h (fun _ s' => hP s') fun _ s' => hP s'

/-- Where the run is known to return, the weakest precondition is the condition there. -/
theorem wp_of_ok {m : EStateM ε σ α} {a : α} {s' : σ} (hm : m s = .ok a s') :
    wp m Q E s ↔ Q a s' := by
  unfold wp
  rw [hm]

/-- Where the run is known to exit, the weakest precondition is the condition there. -/
theorem wp_of_error {m : EStateM ε σ α} {e : ε} {s' : σ} (hm : m s = .error e s') :
    wp m Q E s ↔ E e s' := by
  unfold wp
  rw [hm]

/-- A weakest precondition that holds speaks about the run from `s`: the facts of both
conditions may use that `m` ran there. -/
theorem wp_mono_run {m : EStateM ε σ α} (h : wp m Q E s)
    (hQ : ∀ a s', m s = .ok a s' → Q a s' → Q' a s')
    (hE : ∀ e s', m s = .error e s' → E e s' → E' e s') : wp m Q' E' s := by
  unfold wp at h ⊢
  cases hm : m s with
  | ok a s' => rw [hm] at h; exact hQ a s' hm h
  | error e s' => rw [hm] at h; exact hE e s' hm h

/-- Two facts about the same run. -/
theorem wp_and {m : EStateM ε σ α} (h : wp m Q E s) (h' : wp m Q' E' s) :
    wp m (fun a s' => Q a s' ∧ Q' a s') (fun e s' => E e s' ∧ E' e s') s := by
  unfold wp at h h' ⊢
  cases hm : m s with
  | ok a s' => rw [hm] at h h'; exact ⟨h, h'⟩
  | error e s' => rw [hm] at h h'; exact ⟨h, h'⟩

/-- Reading a weakest precondition off the result of the run. -/
theorem wp_finalState {m : EStateM ε σ α} {P : Option ε → σ → Prop}
    (h : wp m (fun _ s' => P none s') (fun e s' => P (some e) s') s) :
    P (exitOf (m s)) (finalState (m s)) := by
  unfold wp at h
  cases hm : m s with
  | ok a s' => rw [hm] at h; exact h
  | error e s' => rw [hm] at h; exact h

/-! ### Components and pure parts -/

/-- Runs a program over the component `get s` and puts the component back, on a return and
on an exit. -/
def focus (get : σ → τ) (set : τ → σ → σ) (m : EStateM ε τ α) : EStateM ε σ α := fun s =>
  match m (get s) with
  | .ok a t => .ok a (set t s)
  | .error e t => .error e (set t s)

@[simp] theorem wp_focus (get : σ → τ) (set : τ → σ → σ) (m : EStateM ε τ α) :
    wp (focus get set m) Q E s
      ↔ wp m (fun a t => Q a (set t s)) (fun e t => E e (set t s)) (get s) := by
  unfold wp focus
  cases m (get s) <;> rfl

@[simp] theorem wp_ofExcept_ok (a : α) :
    wp (ofExcept (.ok a) : EStateM ε σ α) Q E s ↔ Q a s := Iff.rfl

@[simp] theorem wp_ofExcept_error (e : ε) :
    wp (ofExcept (.error e) : EStateM ε σ α) Q E s ↔ E e s := Iff.rfl

/-! ### Loops -/

/-- `while (cond) { body }`, for at most `n` rounds. -/
def whileDo (cond : σ → Bool) (body : EStateM ε σ Unit) : Nat → EStateM ε σ Unit
  | 0 => pure ()
  | n + 1 => do
    if cond (← get) then
      body
      whileDo cond body n
    else
      pure ()

/-- The invariant rule of `whileDo`. Each round keeps `I` and lowers the measure `μ`, and
the condition fails where the measure is `0`. Then the loop ends because its condition is
false, when the bound is at least the measure. -/
theorem wp_whileDo {cond : σ → Bool} {body : EStateM ε σ Unit} (I : σ → Prop) (μ : σ → Nat)
    (hzero : ∀ s, I s → μ s = 0 → cond s = false)
    (hstep : ∀ s, I s → cond s = true → wp body (fun _ s' => I s' ∧ μ s' < μ s) E s) :
    ∀ n s, I s → μ s ≤ n →
      wp (whileDo cond body n) (fun _ s' => I s' ∧ cond s' = false) E s := by
  intro n
  -- On the bound. The measure stays below it, so it cannot run out first.
  induction n with
  | zero =>
      intro s hI hn
      -- No round is left, and by the measure none is needed.
      exact ⟨hI, hzero s hI (by omega)⟩
  | succ n ih =>
      intro s hI hn
      simp only [whileDo, wp_bind, wp_get, wp_ite, wp_pure]
      split
      · rename_i hc
        refine wp_mono_return (hstep s hI hc) ?_
        rintro _ s' ⟨hI', hlt⟩
        exact ih s' hI' (by omega)
      · rename_i hc
        exact ⟨hI, by simpa using hc⟩

/-- `for (x = next(); x != NULL; x = next()) { if (body(x)) break; }`, for at most `n`
elements. The result says whether an element was read; `present` is its value so far. -/
def forEach (next : EStateM ε σ (Option β)) (body : β → EStateM ε σ Bool) :
    Nat → Bool → EStateM ε σ Bool
  | 0, present => pure present
  | n + 1, present => do
    match ← next with
    | none => pure present
    | some x =>
      if ← body x then
        pure true
      else
        forEach next body n true

/-- The rounds of `forEach`: the element that each round reads, and the state in which its
body starts. -/
def forEachRounds (next : EStateM ε σ (Option β)) (body : β → EStateM ε σ Bool) :
    Nat → σ → List (β × σ)
  | 0, _ => []
  | n + 1, s =>
      match next s with
      | .ok (some x) t =>
          match body x t with
          | .ok false u => (x, t) :: forEachRounds next body n u
          | _ => [(x, t)]
      | _ => []

section Rounds

variable {next : EStateM ε σ (Option β)} {body : β → EStateM ε σ Bool} {n : Nat} {s t u : σ}
  {x : β}

theorem forEachRounds_end (hnext : next s = .ok none t) :
    forEachRounds next body (n + 1) s = [] := by
  rw [forEachRounds, hnext]

theorem forEachRounds_continue (hnext : next s = .ok (some x) t) (hbody : body x t = .ok false u) :
    forEachRounds next body (n + 1) s = (x, t) :: forEachRounds next body n u := by
  rw [forEachRounds, hnext]
  show (match body x t with | .ok false u => (x, t) :: forEachRounds next body n u | _ => _) = _
  rw [hbody]

theorem forEachRounds_leave (hnext : next s = .ok (some x) t) (hbody : body x t = .ok true u) :
    forEachRounds next body (n + 1) s = [(x, t)] := by
  rw [forEachRounds, hnext]
  show (match body x t with | .ok false u => (x, t) :: forEachRounds next body n u | _ => _) = _
  rw [hbody]

theorem forEachRounds_exit {e : ε} (hnext : next s = .ok (some x) t)
    (hbody : body x t = .error e u) : forEachRounds next body (n + 1) s = [(x, t)] := by
  rw [forEachRounds, hnext]
  show (match body x t with | .ok false u => (x, t) :: forEachRounds next body n u | _ => _) = _
  rw [hbody]

end Rounds

/-- The invariant rule of `forEach`. `I n` holds where a round starts with `n` rounds left,
and it says that one is left. `P` is the condition of a round. A body that returns has met
it. An exit leaves `E` if all rounds have met it, and `E'` if the round that exits has not. -/
theorem wp_forEach (next : EStateM ε σ (Option β)) (body : β → EStateM ε σ Bool)
    (I : Nat → σ → Prop) (P : β → σ → Prop) (Q : Bool → σ → Prop) (E E' : ε → σ → Prop)
    (hzero : ∀ s, ¬ I 0 s)
    (hround : ∀ n present s, I (n + 1) s → wp next
      (fun read t =>
        match read with
        | none => Q present t
        | some x => wp (body x) (fun leave u => P x t ∧ if leave then Q true u else I n u)
            (fun e u => P x t ∧ E e u ∨ ¬ P x t ∧ E' e u) t)
      (fun _ _ => False) s) :
    ∀ n present s, I n s →
      wp (forEach next body n present)
        (fun present' s' => Q present' s' ∧ ∀ r ∈ forEachRounds next body n s, P r.1 r.2)
        (fun e s' => (∀ r ∈ forEachRounds next body n s, P r.1 r.2) ∧ E e s' ∨
          ¬ (∀ r ∈ forEachRounds next body n s, P r.1 r.2) ∧ E' e s') s := by
  intro n
  induction n with
  -- The invariant says that a round is left.
  | zero => exact fun present s hI => absurd hI (hzero s)
  | succ n ih =>
      intro present s hI
      have hread := hround n present s hI
      rw [forEach, wp_bind]
      unfold wp at hread ⊢
      cases hnext : next s with
      | error e t => rw [hnext] at hread; exact hread.elim
      | ok read t =>
          rw [hnext] at hread
          cases read with
          | none =>
              rw [forEachRounds_end hnext]
              exact ⟨hread, fun r hr => (List.not_mem_nil hr).elim⟩
          | some x =>
              show wp (body x >>= _) _ _ t
              rw [wp_bind]
              replace hread : wp (body x) _ _ t := hread
              unfold wp at hread ⊢
              cases hbody : body x t with
              | error e u =>
                  rw [hbody] at hread
                  rw [forEachRounds_exit hnext hbody, List.forall_mem_singleton]
                  exact hread
              | ok leave u =>
                  rw [hbody] at hread
                  obtain ⟨hP, hrest⟩ := hread
                  cases leave with
                  | true =>
                      rw [forEachRounds_leave hnext hbody, List.forall_mem_singleton]
                      exact ⟨hrest, hP⟩
                  | false =>
                      -- The round has met its condition, so the later rounds decide.
                      rw [forEachRounds_continue hnext hbody, List.forall_mem_cons,
                        and_iff_right hP]
                      exact ih true u hrest

/-- The simple invariant rule of `forEach`: what both parts of a round keep, the loop keeps, and
what both leave by an exit, it leaves by an exit. -/
theorem wp_forEach_keeps {next : EStateM ε σ (Option β)} {body : β → EStateM ε σ Bool}
    {I : σ → Prop} {E : ε → σ → Prop} (hnext : ∀ s, I s → wp next (fun _ t => I t) E s)
    (hbody : ∀ x s, I s → wp (body x) (fun _ t => I t) E s) :
    ∀ n present s, I s → wp (forEach next body n present) (fun _ t => I t) E s := by
  intro n
  induction n with
  | zero => exact fun present s hI => hI
  | succ n ih =>
      intro present s hI
      rw [forEach, wp_bind]
      refine wp_mono_return (hnext s hI) ?_
      intro read t ht
      cases read with
      | none => exact ht
      | some x =>
          show wp (body x >>= _) _ _ t
          rw [wp_bind]
          refine wp_mono_return (hbody x t ht) ?_
          intro leave u hu
          cases leave with
          | true => exact hu
          | false => exact ih true u hu

/-- The states in which `forEach` calls `next`. -/
def forEachCalls (next : EStateM ε σ (Option β)) (body : β → EStateM ε σ Bool) :
    Nat → σ → List σ
  | 0, _ => []
  | n + 1, s =>
      s :: match next s with
        | .ok (some x) t =>
            match body x t with
            | .ok false u => forEachCalls next body n u
            | _ => []
        | _ => []

/-- What holds at the start and after each round that goes on holds at every call of `next`. -/
theorem forEachCalls_forall {next : EStateM ε σ (Option β)} {body : β → EStateM ε σ Bool}
    {I : σ → Prop} (hround : ∀ s x t u, I s → next s = .ok (some x) t → body x t = .ok false u → I u) :
    ∀ n s, I s → ∀ c ∈ forEachCalls next body n s, I c := by
  intro n
  induction n with
  | zero => exact fun s _ => List.forall_mem_nil _
  | succ n ih =>
      intro s hI
      rw [forEachCalls, List.forall_mem_cons]
      refine ⟨hI, ?_⟩
      -- Only a body that returns `false` leads to another call.
      split
      · rename_i x t hnext
        split
        · rename_i u hbody
          exact ih u (hround s x t u hI hnext hbody)
        · exact List.forall_mem_nil _
      · exact List.forall_mem_nil _

/-! ### Programs that move along a relation -/

/-- From every state, `m` ends in a state that is `R`-later. -/
def Moves (R : σ → σ → Prop) (m : EStateM ε σ α) : Prop :=
  ∀ s, wp m (fun _ t => R s t) (fun _ t => R s t) s

namespace Moves

variable {R : σ → σ → Prop}

theorem pure (hrefl : ∀ s, R s s) (a : α) : Moves R (pure a : EStateM ε σ α) := fun s => hrefl s

theorem throw (hrefl : ∀ s, R s s) (e : ε) : Moves R (throw e : EStateM ε σ α) :=
  fun s => hrefl s

theorem get (hrefl : ∀ s, R s s) : Moves R (get : EStateM ε σ σ) := fun s => hrefl s

theorem ofExcept (hrefl : ∀ s, R s s) (r : Except ε α) :
    Moves R (ofExcept r : EStateM ε σ α) := by
  intro s
  cases r with
  | ok a => exact hrefl s
  | error e => exact hrefl s

theorem bind (htrans : ∀ s t u, R s t → R t u → R s u) {m : EStateM ε σ α} {f : α → EStateM ε σ β}
    (hm : Moves R m) (hf : ∀ a, Moves R (f a)) : Moves R (m >>= f) := by
  intro s
  rw [wp_bind]
  refine wp_mono_return (hm s) ?_
  intro a t ht
  -- An exit of the first part has moved already: only a return goes on.
  exact wp_mono_state (hf a t) fun u hu => htrans s t u ht hu

theorem ite (c : Prop) [Decidable c] {m m' : EStateM ε σ α} (hm : Moves R m) (hm' : Moves R m') :
    Moves R (if c then m else m') := by
  split
  · exact hm
  · exact hm'

theorem forEach (hrefl : ∀ s, R s s) (htrans : ∀ s t u, R s t → R t u → R s u)
    {next : EStateM ε σ (Option β)} {body : β → EStateM ε σ Bool} (hnext : Moves R next)
    (hbody : ∀ x, Moves R (body x)) : ∀ n present, Moves R (forEach next body n present) := by
  intro n
  induction n with
  | zero => exact fun present => pure hrefl present
  | succ n ih =>
      intro present
      refine bind htrans hnext ?_
      intro read
      cases read with
      | none => exact pure hrefl present
      | some x =>
          refine bind htrans (hbody x) ?_
          intro leave
          cases leave with
          | false => exact ih true
          | true => exact pure hrefl true

end Moves

end Lib
