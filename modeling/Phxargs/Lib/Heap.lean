import Mathlib.Algebra.Group.Pointwise.Set.Lattice
import Mathlib.Algebra.Order.Group.Multiset

/-!
# `Phxargs.Lib.Heap`: programs with pointers

`malloc`, `load`, `store` and `free` on a heap of blocks, as programs that can exit. A block that has
been freed is not allocated again, so every later access to it shows: it stops the program as
`Stop.invalid`, like any access where nothing was ever allocated.

An assertion is a set of parts of a heap, and `P + Q`, the pointwise sum of Mathlib, holds of a part
that divides into one with `P` and one with `Q`. So `0` is the empty part, sums are reordered as in
every commutative monoid, and `⋃` is the existential quantifier.

`Implements P m r Q` is the judgement. On a part with `P`, the program `m` does what the plain value
`r` says: it exits with the error of `r`, or it returns and leaves a part with `Q`. It makes no
invalid access, and it leaves the rest of the heap alone. Nothing is lost either: a program that
implements something from `0` to `0` has freed what it allocated (`Implements.run_ok`).
-/

set_option autoImplicit false

namespace Lib

open scoped Pointwise

variable {α β γ δ ε ι τ : Type}

/-! ### Heaps -/

/-- The address of a block. -/
abbrev Ptr := Nat

/-- The blocks in the order of their allocation, `none` for a block that has been freed. -/
abbrev Heap (α : Type) := List (Option α)

/-- What stops a program: an `exit`, or an access to an address without a block. -/
inductive Stop (ε : Type) where
  | exit (e : ε)
  | invalid (p : Ptr)
  deriving DecidableEq, Repr

/-- Programs on a heap of blocks `α` that can exit with an `ε`. -/
abbrev HeapM (ε α β : Type) := EStateM (Stop ε) (Heap α) β

/-- Allocates a block. -/
def malloc (a : α) : HeapM ε α Ptr := do
  let h ← get
  set (h ++ [some a])
  return h.length

/-- Reads a block. -/
def load (p : Ptr) : HeapM ε α α := do
  match (← get)[p]? with
  | some (some a) => return a
  | _ => throw (.invalid p)

/-- Reads a block of a certain form. -/
def loadAs (form : α → Option τ) (p : Ptr) : HeapM ε α τ := do
  match form (← load p) with
  | some t => return t
  | none => throw (.invalid p)

/-- Overwrites a block. -/
def store (p : Ptr) (a : α) : HeapM ε α Unit := do
  let _ ← load p
  modify (·.set p (some a))

/-- Frees a block. -/
def free (p : Ptr) : HeapM ε α Unit := do
  let _ ← load p
  modify (·.set p none)

/-- `free`, which accepts a null pointer. -/
def freeOrNull : Option Ptr → HeapM ε α Unit
  | none => pure ()
  | some p => free p

/-- An `exit` inside of a program. -/
def orExit : Except ε β → HeapM ε α β
  | .ok b => pure b
  | .error e => throw (.exit e)

/-! ### The allocated blocks -/

/-- The blocks of a heap whose first address is `p`. -/
def blocksFrom : Ptr → Heap α → Multiset (Ptr × α)
  | _, [] => 0
  | p, none :: h => blocksFrom (p + 1) h
  | p, some a :: h => {(p, a)} + blocksFrom (p + 1) h

/-- The allocated blocks, with their addresses. -/
def blocks (h : Heap α) : Multiset (Ptr × α) := blocksFrom 0 h

theorem blocksFrom_append (h h' : Heap α) (p : Nat) :
    blocksFrom p (h ++ h') = blocksFrom p h + blocksFrom (p + h.length) h' := by
  induction h generalizing p with
  | nil => simp [blocksFrom]
  | cons cell h ih =>
      have hnext : p + (cell :: h).length = p + 1 + h.length := by
        rw [List.length_cons]
        omega
      cases cell with
      | none => rw [List.cons_append, blocksFrom, blocksFrom, ih, hnext]
      | some a => rw [List.cons_append, blocksFrom, blocksFrom, ih, hnext, add_assoc {(p, a)}]

/-- One block and the others. -/
theorem blocksFrom_erase {h : Heap α} {i : Nat} {a : α} (hi : h[i]? = some (some a)) (p : Nat) :
    blocksFrom p h = {(p + i, a)} + blocksFrom p (h.set i none) := by
  induction h generalizing p i with
  | nil => cases hi
  | cons cell h ih =>
      cases i with
      | zero =>
          cases hi
          rfl
      | succ i =>
          rw [List.getElem?_cons_succ] at hi
          have hnext : p + (i + 1) = p + 1 + i := by omega
          cases cell with
          | none => rw [List.set_cons_succ, blocksFrom, blocksFrom, ih hi, hnext]
          | some b => rw [List.set_cons_succ, blocksFrom, blocksFrom, ih hi, hnext, add_left_comm]

/-- A block in the list is one at its address. -/
theorem getElem?_of_mem_blocksFrom {h : Heap α} {p q : Nat} {a : α}
    (hmem : (q, a) ∈ blocksFrom p h) : ∃ i, q = p + i ∧ h[i]? = some (some a) := by
  induction h generalizing p with
  | nil => simp [blocksFrom] at hmem
  | cons cell h ih =>
      have hlater : (q, a) ∈ blocksFrom (p + 1) h → ∃ i, q = p + i ∧ (cell :: h)[i]? = some (some a) := by
        intro hrest
        obtain ⟨i, hq, hi⟩ := ih hrest
        exact ⟨i + 1, by omega, by simpa using hi⟩
      cases cell with
      | none => exact hlater hmem
      | some b =>
          rw [blocksFrom, Multiset.mem_add, Multiset.mem_singleton] at hmem
          rcases hmem with heq | hrest
          · cases heq
            exact ⟨0, rfl, rfl⟩
          · exact hlater hrest

section Accesses

variable {h : Heap α} {p : Ptr} {a : α}

theorem getElem?_of_mem_blocks (hmem : (p, a) ∈ blocks h) : h[p]? = some (some a) := by
  obtain ⟨i, hp, hi⟩ := getElem?_of_mem_blocksFrom hmem
  rw [Nat.zero_add] at hp
  rw [hp]
  exact hi

theorem blocks_append (a : α) : blocks (h ++ [some a]) = {(h.length, a)} + blocks h := by
  rw [blocks, blocksFrom_append, add_comm]
  simp [blocksFrom, blocks]

/-- What is left of a heap when a block is taken out of it. -/
theorem blocks_set_none {R : Multiset (Ptr × α)} (hblocks : blocks h = {(p, a)} + R) :
    blocks (h.set p none) = R := by
  have hp : h[p]? = some (some a) := getElem?_of_mem_blocks (by simp [hblocks])
  have herase := blocksFrom_erase hp 0
  rw [Nat.zero_add] at herase
  exact add_left_cancel (herase.symm.trans hblocks)

theorem blocks_set_some {R : Multiset (Ptr × α)} (hblocks : blocks h = {(p, a)} + R) (b : α) :
    blocks (h.set p (some b)) = {(p, b)} + R := by
  have hp : h[p]? = some (some a) := getElem?_of_mem_blocks (by simp [hblocks])
  have hlt : p < h.length := (List.getElem?_eq_some_iff.mp hp).1
  have herase := blocksFrom_erase (h := h.set p (some b)) (i := p) (a := b) (by simp [hlt]) 0
  rw [Nat.zero_add, List.set_set] at herase
  exact herase.trans (congrArg ({(p, b)} + ·) (blocks_set_none hblocks))

theorem load_run (hmem : (p, a) ∈ blocks h) : (load p : HeapM ε α α) h = .ok a h := by
  show (match h[p]? with
    | some (some a) => (pure a : HeapM ε α α)
    | _ => throw (Stop.invalid p)) h = _
  rw [getElem?_of_mem_blocks hmem]
  rfl

end Accesses

/-! ### Assertions -/

/-- An assertion on a part of a heap. -/
abbrev Assertion (α : Type) := Set (Multiset (Ptr × α))

/-- One block. -/
def pointsTo (p : Ptr) (a : α) : Assertion α := {{(p, a)}}

/-- A block for each of these pointers, with these contents. -/
def pointToAll : List Ptr → List α → Assertion α
  | [], [] => 0
  | p :: ps, a :: as => pointsTo p a + pointToAll ps as
  | _, _ => ∅

/-- A block at a pointer, or nothing and a null pointer. -/
def pointsToOrNull : Option Ptr → Option α → Assertion α
  | none, none => 0
  | some p, some a => pointsTo p a
  | _, _ => ∅

/-- A part with `P`, and a fact. -/
def withFact (φ : Prop) (P : Assertion α) : Assertion α := {F | φ ∧ F ∈ P}

theorem subset_withFact {φ : Prop} (hφ : φ) (P : Assertion α) : P ⊆ withFact φ P :=
  fun _ hF => ⟨hφ, hF⟩

/-- All parts with `P` have this block. -/
def Holds (P : Assertion α) (p : Ptr) (a : α) : Prop := ∀ F ∈ P, (p, a) ∈ F

section Holds

variable {P Q : Assertion α} {p : Ptr} {a : α}

theorem holds_pointsTo (p : Ptr) (a : α) : Holds (pointsTo p a) p a := by
  intro F hF
  rw [Set.mem_singleton_iff.mp hF]
  exact Multiset.mem_singleton_self _

theorem Holds.add_right (h : Holds P p a) (Q : Assertion α) : Holds (P + Q) p a := by
  intro F hF
  obtain ⟨F₁, hF₁, F₂, -, rfl⟩ := Set.mem_add.mp hF
  exact Multiset.mem_add.mpr (.inl (h F₁ hF₁))

theorem Holds.add_left (h : Holds Q p a) (P : Assertion α) : Holds (P + Q) p a := by
  rw [add_comm]
  exact h.add_right P

end Holds

theorem pointToAll_append {ps qs : List Ptr} {as bs : List α} (hlength : ps.length = as.length) :
    pointToAll (ps ++ qs) (as ++ bs) = pointToAll ps as + pointToAll qs bs := by
  induction ps generalizing as with
  | nil =>
      cases as with
      | nil => simp [pointToAll]
      | cons a as => cases hlength
  | cons p ps ih =>
      cases as with
      | nil => cases hlength
      | cons a as =>
          rw [List.cons_append, List.cons_append, pointToAll, pointToAll, ih (by simpa using hlength),
            add_assoc]

/-- The first of the blocks from the `i`-th on. -/
theorem pointToAll_drop {ps : List Ptr} {as : List α} {i : Nat} {p : Ptr} {a : α}
    (hp : ps[i]? = some p) (ha : as[i]? = some a) :
    pointToAll (ps.drop i) (as.drop i)
      = pointsTo p a + pointToAll (ps.drop (i + 1)) (as.drop (i + 1)) := by
  obtain ⟨hps, rfl⟩ := List.getElem?_eq_some_iff.mp hp
  obtain ⟨has, rfl⟩ := List.getElem?_eq_some_iff.mp ha
  rw [List.drop_eq_getElem_cons hps, List.drop_eq_getElem_cons has, pointToAll]

theorem pointToAll_singleton (p : Ptr) (a : α) : pointToAll [p] [a] = pointsTo p a := by
  simp [pointToAll]

theorem holds_pointToAll {ps : List Ptr} {as : List α} {i : Nat} {p : Ptr} {a : α}
    (hp : ps[i]? = some p) (ha : as[i]? = some a) : Holds (pointToAll ps as) p a := by
  induction ps generalizing as i with
  | nil => cases hp
  | cons q ps ih =>
      cases as with
      | nil => cases ha
      | cons b as =>
          cases i with
          | zero =>
              cases hp
              cases ha
              exact (holds_pointsTo _ _).add_right _
          | succ i => exact (ih (by simpa using hp) (by simpa using ha)).add_left _

/-! ### The judgement -/

/-- On a part of a heap with `P`, the program does what `r` says, and leaves a part with `Q`. -/
def Implements (P : Assertion α) (m : HeapM ε α β) (r : Except ε γ) (Q : γ → β → Assertion α) : Prop :=
  ∀ (h : Heap α) (R : Multiset (Ptr × α)), ∀ F ∈ P, blocks h = F + R →
    match r with
    | .ok c => ∃ b h', m h = .ok b h' ∧ ∃ F' ∈ Q c b, blocks h' = F' + R
    | .error e => ∃ h', m h = .error (.exit e) h'

namespace Implements

variable {P P' R : Assertion α} {m : HeapM ε α β} {f : β → HeapM ε α δ} {r : Except ε γ}
  {Q Q' : γ → β → Assertion α} {p : Ptr} {a b : α}

/-! #### Structural rules -/

theorem pure {c : γ} {b : β} (h : P ⊆ Q c b) : Implements P (Pure.pure b : HeapM ε α β) (.ok c) Q :=
  fun heap _ F hF hblocks => ⟨b, heap, rfl, F, h hF, hblocks⟩

theorem exit (P : Assertion α) (e : ε) (Q : γ → β → Assertion α) :
    Implements P (throw (.exit e) : HeapM ε α β) (.error e) Q :=
  fun heap _ _ _ _ => ⟨heap, rfl⟩

/-- The precondition is strengthened, the postcondition weakened. -/
theorem mono (h : Implements P' m r Q) (hP : P ⊆ P') (hQ : ∀ c b, r = .ok c → Q c b ⊆ Q' c b) :
    Implements P m r Q' := by
  intro heap R F hF hblocks
  have hm := h heap R F (hP hF) hblocks
  cases r with
  | error e => exact hm
  | ok c =>
      obtain ⟨b, heap', hrun, F', hF', hblocks'⟩ := hm
      exact ⟨b, heap', hrun, F', hQ c b rfl hF', hblocks'⟩

/-- The precondition is strengthened. -/
theorem of_subset (P' : Assertion α) (hP : P ⊆ P') (h : Implements P' m r Q) : Implements P m r Q :=
  h.mono hP fun _ _ _ => Set.Subset.refl _

/-- The postcondition is weakened. -/
theorem imp (h : Implements P m r Q) (hQ : ∀ c b, r = .ok c → Q c b ⊆ Q' c b) :
    Implements P m r Q' :=
  h.mono (Set.Subset.refl P) hQ

/-- Without an exit, the value is a name for what the postcondition says. -/
theorem result {c : ι} {S : ι → β → Assertion α} (h : Implements P m (.ok c : Except ε ι) S) (c' : γ) :
    Implements P m (.ok c' : Except ε γ) fun _ b => S c b := h

/-- The value, as a part of a larger one. -/
theorem map {g : γ → ι} {S : ι → β → Assertion α} (h : Implements P m r fun c b => S (g c) b) :
    Implements P m (r.map g) S := by
  cases r with
  | error e => exact h
  | ok c => exact h

/-- The parts of the precondition in another order. -/
theorem rearrange (P' : Assertion α) (hP : P = P') (h : Implements P' m r Q) : Implements P m r Q :=
  hP ▸ h

/-- An assertion that no part satisfies. -/
theorem of_false (h : ∀ F, F ∉ P) : Implements P m r Q := fun _ _ F hF => absurd hF (h F)

/-- An existential precondition. -/
theorem iUnion {P : ι → Assertion α} (h : ∀ x, Implements (P x) m r Q) :
    Implements (⋃ x, P x) m r Q := by
  intro heap R F hF hblocks
  obtain ⟨x, hx⟩ := Set.mem_iUnion.mp hF
  exact h x heap R F hx hblocks

/-- An existential precondition, with another part. -/
theorem iUnion_add {P : ι → Assertion α} (h : ∀ x, Implements (P x + R) m r Q) :
    Implements ((⋃ x, P x) + R) m r Q := by
  rw [Set.iUnion_add]
  exact iUnion h

/-- A fact in the precondition, with another part. -/
theorem withFact {φ : Prop} (h : φ → Implements (P + R) m r Q) :
    Implements (Lib.withFact φ P + R) m r Q := by
  intro heap S F hF hblocks
  obtain ⟨F₁, ⟨hφ, hF₁⟩, F₂, hF₂, rfl⟩ := Set.mem_add.mp hF
  exact h hφ heap S _ (Set.add_mem_add hF₁ hF₂) hblocks

/-- The frame rule: what a program does not need, it keeps. -/
theorem frame (h : Implements P m r Q) (R : Assertion α) :
    Implements (P + R) m r fun c b => Q c b + R := by
  intro heap S F hF hblocks
  obtain ⟨F₁, hF₁, F₂, hF₂, rfl⟩ := Set.mem_add.mp hF
  rw [add_assoc] at hblocks
  have hm := h heap (F₂ + S) F₁ hF₁ hblocks
  cases r with
  | error e => exact hm
  | ok c =>
      obtain ⟨b, heap', hrun, F', hF', hblocks'⟩ := hm
      exact ⟨b, heap', hrun, F' + F₂, Set.add_mem_add hF' hF₂, by rw [hblocks', add_assoc]⟩

/-- Two programs in a row. -/
theorem seq {ρ : Except ε ι} {S : ι → β → Assertion α} {T : γ → δ → Assertion α}
    (hm : Implements P m ρ S) (hok : ∀ c b, ρ = .ok c → Implements (S c b) (f b) r T)
    (herror : ∀ e, ρ = .error e → r = .error e) : Implements P (m >>= f) r T := by
  intro heap R F hF hblocks
  have hfirst := hm heap R F hF hblocks
  cases ρ with
  | error e =>
      obtain ⟨heap', hrun⟩ := hfirst
      rw [herror e rfl]
      refine ⟨heap', ?_⟩
      show EStateM.bind m f heap = _
      unfold EStateM.bind
      rw [hrun]
  | ok c =>
      obtain ⟨b, heap', hrun, F', hF', hblocks'⟩ := hfirst
      have hbind : (m >>= f) heap = f b heap' := by
        show EStateM.bind m f heap = _
        unfold EStateM.bind
        rw [hrun]
      rw [hbind]
      exact hok c b rfl heap' R F' hF' hblocks'

/-- Two programs in a row, of which the first does not exit. -/
theorem seqOk {ρ : Except ε ι} {c : ι} {S : ι → β → Assertion α} {T : γ → δ → Assertion α}
    (hm : Implements P m ρ S) (hc : ρ = .ok c) (hok : ∀ b, Implements (S c b) (f b) r T) :
    Implements P (m >>= f) r T := by
  refine hm.seq (fun c' b hc' => ?_) (fun e he => ?_)
  · rw [hc] at hc'
    cases hc'
    exact hok b
  · rw [hc] at he
    cases he

/-- A call on a part of what there is. -/
theorem call {ρ : Except ε ι} {S : ι → β → Assertion α} {T : γ → δ → Assertion α}
    (hm : Implements P m ρ S) (hok : ∀ c b, ρ = .ok c → Implements (S c b + R) (f b) r T)
    (herror : ∀ e, ρ = .error e → r = .error e) : Implements (P + R) (m >>= f) r T :=
  (hm.frame R).seq hok herror

/-- A call that cannot exit. -/
theorem callOk {c : ι} {S : ι → β → Assertion α} {T : γ → δ → Assertion α}
    (hm : Implements P m (.ok c) S) (hok : ∀ b, Implements (S c b + R) (f b) r T) :
    Implements (P + R) (m >>= f) r T :=
  (hm.frame R).seqOk rfl hok

/-! #### The accesses -/

theorem malloc {f : Ptr → HeapM ε α δ} {T : γ → δ → Assertion α}
    (h : ∀ p, Implements (pointsTo p a + P) (f p) r T) :
    Implements P (Lib.malloc a >>= f) r T := by
  intro heap R F hF hblocks
  refine h heap.length (heap ++ [some a]) R ({(heap.length, a)} + F) ?_ ?_
  · exact Set.add_mem_add (Set.mem_singleton _) hF
  · rw [blocks_append, hblocks, add_assoc]

theorem malloc_last {c : γ} {Q : γ → Ptr → Assertion α} (h : ∀ p, pointsTo p a + P ⊆ Q c p) :
    Implements P (Lib.malloc a : HeapM ε α Ptr) (.ok c) Q :=
  malloc (f := Pure.pure) fun p => pure (h p)

theorem load {f : α → HeapM ε α δ} {T : γ → δ → Assertion α} (hp : Holds P p a)
    (h : Implements P (f a) r T) : Implements P (Lib.load p >>= f) r T := by
  intro heap R F hF hblocks
  have hmem : (p, a) ∈ blocks heap := hblocks ▸ Multiset.mem_add.mpr (.inl (hp F hF))
  have hbind : (Lib.load p >>= f) heap = f a heap := by
    show EStateM.bind (Lib.load p) f heap = _
    unfold EStateM.bind
    rw [load_run hmem]
  rw [hbind]
  exact h heap R F hF hblocks

theorem loadAs {form : α → Option τ} {t : τ} {f : τ → HeapM ε α δ} {T : γ → δ → Assertion α}
    (hp : Holds P p a) (ht : form a = some t) (h : Implements P (f t) r T) :
    Implements P (Lib.loadAs form p >>= f) r T := by
  unfold Lib.loadAs
  rw [bind_assoc]
  apply load hp
  rw [ht]
  exact h

theorem store_spec (p : Ptr) (a b : α) :
    Implements (pointsTo p a) (Lib.store p b : HeapM ε α Unit) (.ok ()) fun _ _ => pointsTo p b := by
  refine load (holds_pointsTo p a) ?_
  intro heap R F hF hblocks
  rw [Set.mem_singleton_iff.mp hF] at hblocks
  exact ⟨(), _, rfl, _, Set.mem_singleton _, blocks_set_some hblocks b⟩

theorem free_spec (p : Ptr) (a : α) :
    Implements (pointsTo p a) (Lib.free p : HeapM ε α Unit) (.ok ()) fun _ _ => 0 := by
  refine load (holds_pointsTo p a) ?_
  intro heap R F hF hblocks
  rw [Set.mem_singleton_iff.mp hF] at hblocks
  exact ⟨(), _, rfl, 0, Set.zero_mem_zero, by rw [blocks_set_none hblocks, zero_add]⟩

theorem store {f : Unit → HeapM ε α δ} {T : γ → δ → Assertion α}
    (h : Implements (pointsTo p b + P) (f ()) r T) :
    Implements (pointsTo p a + P) (Lib.store p b >>= f) r T :=
  (store_spec p a b).callOk fun _ => h

theorem free {f : Unit → HeapM ε α δ} {T : γ → δ → Assertion α} (h : Implements P (f ()) r T) :
    Implements (pointsTo p a + P) (Lib.free p >>= f) r T :=
  (free_spec p a).callOk fun _ => by rwa [zero_add]

theorem store_last {c : γ} {Q : γ → Unit → Assertion α} (h : pointsTo p b + P ⊆ Q c ()) :
    Implements (pointsTo p a + P) (Lib.store p b : HeapM ε α Unit) (.ok c) Q := by
  rw [← bind_pure (Lib.store p b)]
  exact store (pure h)

theorem free_last {c : γ} {Q : γ → Unit → Assertion α} (h : P ⊆ Q c ()) :
    Implements (pointsTo p a + P) (Lib.free p : HeapM ε α Unit) (.ok c) Q := by
  rw [← bind_pure (Lib.free p)]
  exact free (pure h)

theorem freeOrNull_spec (p : Option Ptr) (a : Option α) :
    Implements (pointsToOrNull p a) (Lib.freeOrNull p : HeapM ε α Unit) (.ok ()) fun _ _ => 0 := by
  cases p with
  | none =>
      cases a with
      | none => exact pure (Set.Subset.refl _)
      | some a => exact fun _ _ _ hF => hF.elim
  | some p =>
      cases a with
      | none => exact fun _ _ _ hF => hF.elim
      | some a => exact free_spec p a

theorem orExit_ok {ρ : Except ε β} {b : β} {T : γ → δ → Assertion α} (hρ : ρ = .ok b)
    (h : Implements P (f b) r T) : Implements P (Lib.orExit ρ >>= f) r T := by
  rw [hρ]
  exact h

theorem orExit_error {ρ : Except ε β} {e : ε} {T : γ → δ → Assertion α} (hρ : ρ = .error e) :
    Implements P (Lib.orExit ρ >>= f) (.error e) T := by
  rw [hρ]
  exact exit P e T

/-! #### Whole programs -/

/-- What is allocated at the end of a program that starts on the empty heap is what the
postcondition says, and nothing else. -/
theorem run_ok {c : γ} (h : Implements 0 m (.ok c : Except ε γ) Q) :
    ∃ b heap, m [] = .ok b heap ∧ blocks heap ∈ Q c b := by
  obtain ⟨b, heap, hrun, F', hF', hblocks⟩ := h [] 0 0 Set.zero_mem_zero rfl
  rw [add_zero] at hblocks
  exact ⟨b, heap, hrun, hblocks ▸ hF'⟩

theorem run_error {e : ε} (h : Implements 0 m (.error e : Except ε γ) Q) :
    ∃ heap, m [] = .error (.exit e) heap :=
  h [] 0 0 Set.zero_mem_zero rfl

end Implements

end Lib
