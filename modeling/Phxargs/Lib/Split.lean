import Mathlib.Data.List.Basic

/-!
# `Phxargs.Lib.Split`: cutting a list at a delimiter

A `Split d text` is the list `text` as runs that each end in `d`, and what remains behind the
last `d`. Runs and rest do not contain `d`, so the runs are the maximal ones, and an empty run
stands between two delimiters that are next to each other. Every list has exactly one split.
-/

set_option autoImplicit false

namespace Lib

variable {α : Type} {d : α}

/-- A split of `text` at `d`. -/
structure Split (d : α) (text : List α) where
  runs : List (List α)
  last : List α
  runs_free : ∀ run ∈ runs, d ∉ run
  last_free : d ∉ last
  text_eq : (runs.map (· ++ [d])).flatten ++ last = text

namespace Split

/-- The split of the empty list. -/
def nil (d : α) : Split d [] := ⟨[], [], List.forall_mem_nil _, List.not_mem_nil, rfl⟩

/-- One more delimiter in front: an empty run. -/
def consDelim {text : List α} (s : Split d text) : Split d (d :: text) where
  runs := [] :: s.runs
  last := s.last
  runs_free := List.forall_mem_cons.mpr ⟨List.not_mem_nil, s.runs_free⟩
  last_free := s.last_free
  text_eq := congrArg (d :: ·) s.text_eq

/-- Another element in front: it joins the first run, or the rest. -/
def consOther {text : List α} {c : α} (hc : d ≠ c) (s : Split d text) : Split d (c :: text) :=
  match s with
  | ⟨[], last, _, last_free, text_eq⟩ =>
      { runs := []
        last := c :: last
        runs_free := List.forall_mem_nil _
        last_free := fun h => (List.mem_cons.mp h).elim hc last_free
        text_eq := congrArg (c :: ·) text_eq }
  | ⟨run :: runs, last, runs_free, last_free, text_eq⟩ =>
      { runs := (c :: run) :: runs
        last := last
        runs_free := List.forall_mem_cons.mpr
          ⟨fun h => (List.mem_cons.mp h).elim hc (List.forall_mem_cons.mp runs_free).1,
            (List.forall_mem_cons.mp runs_free).2⟩
        last_free := last_free
        text_eq := congrArg (c :: ·) text_eq }

/-- The split of a list. -/
def of [DecidableEq α] (d : α) : (text : List α) → Split d text
  | [] => nil d
  | c :: text => if h : d = c then h ▸ consDelim (of d text) else consOther h (of d text)

/-- What stands in front of the first delimiter is determined. Induction on the first run. -/
theorem append_delim_inj :
    ∀ {a b : List α} {x y : List α}, d ∉ a → d ∉ b → a ++ d :: x = b ++ d :: y → a = b ∧ x = y := by
  intro a
  induction a with
  | nil =>
      intro b x y _ hb h
      cases b with
      | nil => exact ⟨rfl, (List.cons.inj h).2⟩
      | cons c b => exact absurd ((List.cons.inj h).1 ▸ List.mem_cons_self) hb
  | cons c a ih =>
      intro b x y ha hb h
      cases b with
      -- The delimiter stands in `a` where `b` ends.
      | nil => exact absurd ((List.cons.inj h).1 ▸ List.mem_cons_self) ha
      | cons c' b =>
          obtain ⟨rfl, htail⟩ := List.cons.inj h
          obtain ⟨rfl, rfl⟩ := ih (fun hmem => ha (List.mem_cons_of_mem _ hmem))
            (fun hmem => hb (List.mem_cons_of_mem _ hmem)) htail
          exact ⟨rfl, rfl⟩

/-- The parts of a text are determined. Induction on the runs of the first decomposition. -/
theorem parts_unique :
    ∀ {runs runs' : List (List α)} {last last' : List α},
      (∀ run ∈ runs, d ∉ run) → d ∉ last → (∀ run ∈ runs', d ∉ run) → d ∉ last' →
      (runs.map (· ++ [d])).flatten ++ last = (runs'.map (· ++ [d])).flatten ++ last' →
      runs = runs' ∧ last = last' := by
  intro runs
  induction runs with
  | nil =>
      intro runs' last last' _ hlast _ _ h
      cases runs' with
      | nil => exact ⟨rfl, h⟩
      | cons run' runs' =>
          -- The other decomposition has a delimiter, and this one has none.
          refine absurd ?_ hlast
          show d ∈ last
          rw [show last = _ from h]
          simp
  | cons run runs ih =>
      intro runs' last last' hruns hlast hruns' hlast' h
      cases runs' with
      | nil =>
          refine absurd ?_ hlast'
          rw [show last' = _ from h.symm]
          simp
      | cons run' runs' =>
          rw [List.forall_mem_cons] at hruns hruns'
          simp only [List.map_cons, List.flatten_cons, List.append_assoc,
            List.singleton_append] at h
          obtain ⟨rfl, htail⟩ := append_delim_inj hruns.1 hruns'.1 h
          obtain ⟨rfl, rfl⟩ := ih hruns.2 hlast hruns'.2 hlast' htail
          exact ⟨rfl, rfl⟩

/-- A list has one split only. -/
theorem eq {text : List α} (s s' : Split d text) : s = s' := by
  obtain ⟨runs, last, hruns, hlast, htext⟩ := s
  obtain ⟨runs', last', hruns', hlast', htext'⟩ := s'
  obtain ⟨rfl, rfl⟩ := parts_unique hruns hlast hruns' hlast' (htext.trans htext'.symm)
  rfl

/-- There are no more parts than elements. -/
theorem length_le {text : List α} (s : Split d text) : s.runs.length + s.last.length ≤ text.length := by
  -- A run takes its delimiter at least.
  have hruns : ∀ runs : List (List α), runs.length ≤ (runs.map (· ++ [d])).flatten.length := by
    intro runs
    induction runs with
    | nil => exact Nat.le_refl _
    | cons run runs ih =>
        rw [List.map_cons, List.flatten_cons, List.length_append, List.length_append,
          List.length_cons, List.length_singleton]
        omega
  have htext := congrArg List.length s.text_eq
  rw [List.length_append] at htext
  have := hruns s.runs
  omega

/-- Behind the last delimiter, a text ends as its last part does. -/
theorem getLast?_text {text : List α} (s : Split d text) (h : s.last ≠ []) :
    text.getLast? = s.last.getLast? := by
  have htext := congrArg List.getLast? s.text_eq
  rw [List.getLast?_append_of_ne_nil _ h] at htext
  exact htext.symm

/-- Nothing is behind the last delimiter exactly if the text is empty or ends in one. -/
theorem last_eq_nil_iff {text : List α} (s : Split d text) :
    s.last = [] ↔ text = [] ∨ text.getLast? = some d := by
  by_cases hlast : s.last = []
  · have htext := s.text_eq
    rw [hlast, List.append_nil] at htext
    have hends : text = [] ∨ text.getLast? = some d := by
      -- The last run brings its delimiter.
      rcases List.eq_nil_or_concat s.runs with hruns | ⟨runs, run, hruns⟩
      · rw [hruns] at htext
        exact Or.inl htext.symm
      · rw [hruns] at htext
        exact Or.inr (by simp [← htext])
    simp [hlast, hends]
  · have hne : text ≠ [] := by
      intro hempty
      have htext := s.text_eq.trans hempty
      rw [List.append_eq_nil_iff] at htext
      exact hlast htext.2
    have hfree : s.last.getLast? ≠ some d :=
      fun hmem => s.last_free (List.mem_of_getLast? hmem)
    simp [hlast, hne, s.getLast?_text hlast, hfree]

/-- One more element behind the text, other than the delimiter: it joins the rest. -/
def snocOther {text : List α} {c : α} (hc : d ≠ c) (s : Split d text) : Split d (text ++ [c]) where
  runs := s.runs
  last := s.last ++ [c]
  runs_free := s.runs_free
  last_free := by simp [s.last_free, hc]
  text_eq := by rw [← List.append_assoc, s.text_eq]

end Split

end Lib
