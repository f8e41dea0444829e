import Phxargs.Abstract.Plan
import Phxargs.Model.SpaceTokenizer
import Phxargs.Model.Stdio

/-!
# `Phxargs.Proofs.Stdio`: when children leave the parent's input alone

A child that closes its copy, in `exit` or in the `freopen` of `-o`, sets the shared offset to the
position where the parent stood at the fork. If the parent had read ahead, the bytes between are
still in the buffer of the parent, and they come a second time when it refills the buffer.

What decides is the shared offset at the moment of a refill. `Refills` is this condition on one
step: the offset is the position of the parent. `inputRun_delivers_iff` shows that it is exact for
every run. `harmless_refills` names the children that cannot violate it: those that find the shared
offset at their own position when they close their copies, because the parent had used up its buffer
at the fork and has not read since. `reads_eq` is the case that no child closes its copy.
-/

set_option autoImplicit false

namespace Phxargs

variable {content : List UInt8} {block : Nat} {due : List UInt8 → Nat} {s t : InputState}

/-! ### What the parent must be given -/

/-- The `i`-th answer of `getc` to a reader of the whole file: the `i`-th byte, and `EOF`
behind the last one. -/
def fileAnswer (content : List UInt8) (i : Nat) : Option FileByte :=
  content[i]?.map fun b => (i, b)

/-- The answers are the bytes of the file, once each and in order, and then `EOF`. -/
def Delivers (content : List UInt8) (answers : List (Option FileByte)) : Prop :=
  answers = (List.range answers.length).map (fileAnswer content)

instance (content : List UInt8) (answers : List (Option FileByte)) :
    Decidable (Delivers content answers) :=
  inferInstanceAs (Decidable (answers = (List.range answers.length).map (fileAnswer content)))

/-- One more answer. -/
theorem delivers_snoc (answers : List (Option FileByte)) (answer : Option FileByte) :
    Delivers content (answers ++ [answer]) ↔
      Delivers content answers ∧ answer = fileAnswer content answers.length := by
  unfold Delivers
  rw [List.length_append, List.length_singleton, List.range_succ, List.map_append,
    List.map_singleton]
  constructor
  · intro h
    have hsplit := List.append_inj h (by simp)
    exact ⟨hsplit.1, List.singleton_inj.mp hsplit.2⟩
  · intro h
    rw [← h.1, h.2]

/-! ### The conditions on the steps -/

/-- A refill of the parent's buffer finds the shared offset at the position of the parent. -/
def Refills (s : InputState) : InputStep → Prop
  | .getc => s.parent.buffer = [] → s.parent.eof = false → s.offset = s.parent.position
  | .fork _ => True
  | .close _ => True

/-- A child that closes its copy leaves the shared offset where it is. -/
def Harmless (s : InputState) : InputStep → Prop
  | .getc => True
  | .fork _ => True
  | .close child => ∀ file ∈ s.children[child]?, file.position = s.offset

/-- Every step of a run meets a condition on the state before it. -/
def Meets (content : List UInt8) (block : Nat) (due : List UInt8 → Nat)
    (condition : InputState → InputStep → Prop) : InputState → List InputStep → Prop
  | _, [] => True
  | s, step :: steps => condition s step ∧
      ∀ t, s.step content block due step = some t → Meets content block due condition t steps

/-! ### The invariant -/

/-- What holds as long as every refill was in place: the parent stands where the answers end,
and its buffer holds the bytes of the file from there on. -/
structure InPlace (content : List UInt8) (s : InputState) : Prop where
  delivers : Delivers content s.answers
  position : s.parent.eof = false → s.parent.position = s.answers.length
  buffer : ∃ rest, content.drop s.parent.position = s.parent.buffer ++ rest
  ended : s.parent.eof = true → content.length ≤ s.answers.length
  inFile : s.offset ≤ content.length ∧ s.parent.position ≤ content.length ∧
    ∀ file ∈ s.children, file.position ≤ content.length

theorem inPlace_init (content : List UInt8) : InPlace content .init where
  delivers := rfl
  position := fun _ => rfl
  buffer := ⟨content, rfl⟩
  ended := fun h => nomatch h
  inFile := ⟨Nat.zero_le _, Nat.zero_le _, fun _ h => nomatch h⟩

/-! ### What each step does -/

theorem InputState.step_getc (h : s.step content block due .getc = some t) :
    t = { s with
      answers := s.answers ++ [(getc content block s.offset s.parent).1]
      parent := (getc content block s.offset s.parent).2.1
      offset := (getc content block s.offset s.parent).2.2 } := by
  simp only [InputState.step] at h
  split at h
  · cases h
  · cases h
    rfl

theorem InputState.step_fork {childEnd : ChildEnd}
    (h : s.step content block due (.fork childEnd) = some t) :
    t = { s with
      forks := s.forks + 1
      children := if childEnd.closes then s.children ++ [s.parent] else s.children } := by
  simp only [InputState.step] at h
  split at h
  · cases h
  · cases h
    rfl

/-- Only a child that is there can close its copy. -/
theorem InputState.step_close {child : Nat} (h : s.step content block due (.close child) = some t) :
    ∃ file, s.children[child]? = some file ∧
      t = { s with offset := file.position, children := s.children.eraseIdx child } := by
  simp only [InputState.step] at h
  cases hfile : s.children[child]? with
  | none => rw [hfile] at h; cases h
  | some file =>
      rw [hfile] at h
      cases h
      exact ⟨file, rfl, rfl⟩

/-- Answers are only added. -/
theorem step_answers {step : InputStep} (h : s.step content block due step = some t) :
    ∃ l, t.answers = s.answers ++ l := by
  cases step with
  | getc =>
      rw [InputState.step_getc h]
      exact ⟨_, rfl⟩
  | fork childEnd =>
      rw [InputState.step_fork h]
      exact ⟨[], (List.append_nil _).symm⟩
  | close child =>
      obtain ⟨file, -, rfl⟩ := InputState.step_close h
      exact ⟨[], (List.append_nil _).symm⟩

/-- The first step of a run, and the others. -/
theorem InputState.run_cons {step : InputStep} {steps : List InputStep}
    (h : s.run content block due (step :: steps) = some t) :
    ∃ u, s.step content block due step = some u ∧ u.run content block due steps = some t := by
  rw [InputState.run] at h
  cases hstep : s.step content block due step with
  | none =>
      rw [hstep] at h
      cases h
  | some u =>
      rw [hstep] at h
      exact ⟨u, rfl, h⟩

theorem run_answers : ∀ {steps : List InputStep} {s t : InputState},
    s.run content block due steps = some t → ∃ l, t.answers = s.answers ++ l := by
  intro steps
  induction steps with
  | nil =>
      intro s t h
      cases h
      exact ⟨[], (List.append_nil _).symm⟩
  | cons step steps ih =>
      intro s t h
      obtain ⟨u, hstep, hrun⟩ := InputState.run_cons h
      obtain ⟨l, hl⟩ := step_answers hstep
      obtain ⟨l', hl'⟩ := ih hrun
      exact ⟨l ++ l', by rw [hl', hl, List.append_assoc]⟩

/-- A wrong answer stays. -/
theorem delivers_of_append {answers l : List (Option FileByte)}
    (h : Delivers content (answers ++ l)) : Delivers content answers := by
  have htake := congrArg (List.take answers.length) h
  rw [List.take_left, ← List.map_take, List.take_range, List.length_append,
    Nat.min_eq_left (Nat.le_add_right _ _)] at htake
  exact htake

/-! ### One call of `getc` -/

/-- A byte from the buffer is the byte of the file at the position of the parent. -/
theorem fileAnswer_of_drop {n : Nat} {b : UInt8} {rest : List UInt8}
    (h : content.drop n = b :: rest) : fileAnswer content n = some (n, b) := by
  have hget : content[n]? = some b := by
    rw [← Nat.add_zero n, ← List.getElem?_drop, h]
    rfl
  rw [fileAnswer, hget]
  rfl

theorem fileAnswer_of_le {n : Nat} (h : content.length ≤ n) : fileAnswer content n = none := by
  rw [fileAnswer, List.getElem?_eq_none h]
  rfl

/-- The rest of the file behind a byte. -/
theorem drop_succ_of_drop {n : Nat} {b : UInt8} {rest : List UInt8}
    (h : content.drop n = b :: rest) : content.drop (n + 1) = rest := by
  rw [← List.drop_drop, h]
  rfl

theorem lt_length_of_drop {n : Nat} {b : UInt8} {rest : List UInt8}
    (h : content.drop n = b :: rest) : n < content.length := by
  have hlen := congrArg List.length h
  rw [List.length_drop, List.length_cons] at hlen
  omega

/-- An answer from the buffer, or behind the end of the file, is always right. -/
theorem InPlace.getc_buffered (h : InPlace content s)
    (hbuffer : ¬ (s.parent.buffer = [] ∧ s.parent.eof = false)) :
    InPlace content { s with
      answers := s.answers ++ [(getc content block s.offset s.parent).1]
      parent := (getc content block s.offset s.parent).2.1
      offset := (getc content block s.offset s.parent).2.2 } := by
  obtain ⟨hdelivers, hposition, ⟨rest, hrest⟩, hended, hoffset, hparent, hchildren⟩ := h
  cases heof : s.parent.eof with
  | true =>
      have hgetc : getc content block s.offset s.parent = (none, s.parent, s.offset) := by
        rw [getc, heof, if_pos rfl]
      have hend := hended heof
      rw [hgetc]
      refine ⟨(delivers_snoc _ _).mpr ⟨hdelivers, (fileAnswer_of_le hend).symm⟩, ?_, ⟨rest, hrest⟩,
        ?_, hoffset, hparent, hchildren⟩
      · intro hfalse
        exact absurd (heof.symm.trans hfalse) (by decide)
      · intro _
        rw [List.length_append]
        omega
  | false =>
      cases hbuf : s.parent.buffer with
      | nil => exact absurd ⟨hbuf, heof⟩ hbuffer
      | cons b buffer =>
          have hgetc : getc content block s.offset s.parent
              = (some (s.parent.position, b), ⟨buffer, s.parent.position + 1, false⟩, s.offset) := by
            rw [getc, heof, if_neg Bool.false_ne_true, hbuf]
          rw [hbuf, List.cons_append] at hrest
          have hpos := hposition heof
          have hanswer := fileAnswer_of_drop hrest
          have hlt := lt_length_of_drop hrest
          rw [hgetc]
          refine ⟨(delivers_snoc _ _).mpr ⟨hdelivers, ?_⟩, ?_, ⟨rest, drop_succ_of_drop hrest⟩,
            (fun hfalse => nomatch hfalse), hoffset, hlt, hchildren⟩
          · rw [← hpos, hanswer]
          · intro _
            show s.parent.position + 1 = (s.answers ++ [_]).length
            rw [List.length_append, hpos]
            rfl

/-- A refill is right exactly if it is in place. -/
theorem InPlace.getc_refill (h : InPlace content s) (hblock : 0 < block)
    (hbuffer : s.parent.buffer = []) (heof : s.parent.eof = false) :
    (s.offset = s.parent.position → InPlace content { s with
      answers := s.answers ++ [(getc content block s.offset s.parent).1]
      parent := (getc content block s.offset s.parent).2.1
      offset := (getc content block s.offset s.parent).2.2 }) ∧
    (s.offset ≠ s.parent.position →
      ¬ Delivers content (s.answers ++ [(getc content block s.offset s.parent).1])) := by
  obtain ⟨hdelivers, hposition, -, -, hoffset, hparent, hchildren⟩ := h
  have hpos := hposition heof
  obtain ⟨size, rfl⟩ : ∃ size, block = size + 1 := ⟨block - 1, by omega⟩
  cases hchunk : content.drop s.offset with
  | nil =>
      -- The offset is at the end of the file.
      have hend : content.length ≤ s.offset := List.drop_eq_nil_iff.mp hchunk
      have hgetc : getc content (size + 1) s.offset s.parent
          = (none, ⟨[], s.offset, true⟩, s.offset) := by
        simp [getc, heof, hbuffer, hchunk]
      rw [hgetc, delivers_snoc]
      constructor
      · intro heq
        have hlen : content.length ≤ s.answers.length := by omega
        refine ⟨(delivers_snoc _ _).mpr ⟨hdelivers, (fileAnswer_of_le hlen).symm⟩,
          (fun hfalse => nomatch hfalse), ⟨[], ?_⟩, ?_, hoffset, hoffset, hchildren⟩
        · show content.drop s.offset = _
          rw [hchunk]
          rfl
        · intro _
          rw [List.length_append]
          omega
      · intro hne hwrong
        -- Before the end of the file, `EOF` is wrong.
        have hlt : s.answers.length < content.length := by omega
        have hbyte := hwrong.2
        rw [fileAnswer, List.getElem?_eq_getElem hlt] at hbyte
        cases hbyte
  | cons b later =>
      have hlt := lt_length_of_drop hchunk
      have hgetc : getc content (size + 1) s.offset s.parent
          = (some (s.offset, b), ⟨later.take size, s.offset + 1, false⟩,
              s.offset + ((later.take size).length + 1)) := by
        simp [getc, heof, hbuffer, hchunk]
      rw [hgetc, delivers_snoc]
      constructor
      · intro heq
        have hrest := drop_succ_of_drop hchunk
        have hlater := congrArg List.length hrest
        rw [List.length_drop] at hlater
        refine ⟨(delivers_snoc _ _).mpr ⟨hdelivers, ?_⟩, ?_, ⟨later.drop size, ?_⟩,
          (fun hfalse => nomatch hfalse), ?_, hlt, hchildren⟩
        · rw [← hpos, ← heq, fileAnswer_of_drop hchunk]
        · intro _
          show s.offset + 1 = (s.answers ++ [_]).length
          rw [List.length_append, heq, hpos]
          rfl
        · show content.drop (s.offset + 1) = later.take size ++ later.drop size
          rw [hrest, List.take_append_drop]
        · show s.offset + ((later.take size).length + 1) ≤ content.length
          rw [List.length_take]
          omega
      · intro hne hwrong
        -- A byte from another position is wrong.
        have hbyte := hwrong.2
        unfold fileAnswer at hbyte
        obtain ⟨c, -, hc⟩ := Option.map_eq_some_iff.mp hbyte.symm
        have hplace : s.answers.length = s.offset := congrArg Prod.fst hc
        omega

/-! ### Steps and runs -/

/-- A `fork` copies the `FILE` of the parent. -/
theorem InPlace.fork (h : InPlace content s) (childEnd : ChildEnd) :
    InPlace content { s with
      forks := s.forks + 1
      children := if childEnd.closes then s.children ++ [s.parent] else s.children } := by
  obtain ⟨hdelivers, hposition, hbuffer, hended, hoffset, hparent, hchildren⟩ := h
  refine ⟨hdelivers, hposition, hbuffer, hended, hoffset, hparent, ?_⟩
  intro file hfile
  by_cases hcloses : childEnd.closes = true
  · simp only [hcloses, if_true, List.mem_append, List.mem_singleton] at hfile
    obtain hfile | rfl := hfile
    · exact hchildren file hfile
    · exact hparent
  · simp only [hcloses, if_false, Bool.false_eq_true] at hfile
    exact hchildren file hfile

/-- A child that closes its copy moves the shared offset only. -/
theorem InPlace.close (h : InPlace content s) {child : Nat} {file : Stream}
    (hfile : s.children[child]? = some file) :
    InPlace content { s with
      offset := file.position
      children := s.children.eraseIdx child } := by
  obtain ⟨hdelivers, hposition, hbuffer, hended, -, hparent, hchildren⟩ := h
  refine ⟨hdelivers, hposition, hbuffer, hended, ?_, hparent, ?_⟩
  · exact hchildren file (List.mem_of_getElem? hfile)
  · exact fun f hf => hchildren f (List.mem_of_mem_eraseIdx hf)

/-- **The step lemma.** A step keeps everything in place, or it is a refill at another
position and answers wrongly. -/
theorem step_inPlace (hblock : 0 < block) {step : InputStep} (h : InPlace content s)
    (hstep : s.step content block due step = some t) :
    (Refills s step ∧ InPlace content t) ∨ (¬ Refills s step ∧ ¬ Delivers content t.answers) := by
  cases step with
  | getc =>
      rw [InputState.step_getc hstep]
      by_cases hrefill : s.parent.buffer = [] ∧ s.parent.eof = false
      · obtain ⟨hright, hwrong⟩ := h.getc_refill hblock hrefill.1 hrefill.2
        by_cases hoffset : s.offset = s.parent.position
        · exact Or.inl ⟨fun _ _ => hoffset, hright hoffset⟩
        · exact Or.inr ⟨fun hmeets => hoffset (hmeets hrefill.1 hrefill.2), hwrong hoffset⟩
      · exact Or.inl ⟨fun hbuffer heof => absurd ⟨hbuffer, heof⟩ hrefill, h.getc_buffered hrefill⟩
  | fork childEnd =>
      rw [InputState.step_fork hstep]
      exact Or.inl ⟨trivial, h.fork childEnd⟩
  | close child =>
      obtain ⟨file, hfile, rfl⟩ := InputState.step_close hstep
      exact Or.inl ⟨trivial, h.close hfile⟩

/-- The run lemma. Induction on the steps; the first refill that is out of place answers
wrongly, and the answer stays. -/
theorem run_inPlace (hblock : 0 < block) : ∀ {steps : List InputStep} {s t : InputState},
    InPlace content s → s.run content block due steps = some t →
      (Meets content block due Refills s steps ∧ InPlace content t) ∨
        (¬ Meets content block due Refills s steps ∧ ¬ Delivers content t.answers) := by
  intro steps
  induction steps with
  | nil =>
      intro s t h hrun
      cases hrun
      exact Or.inl ⟨trivial, h⟩
  | cons step steps ih =>
      intro s t h hrun
      obtain ⟨u, hstep, hrest⟩ := InputState.run_cons hrun
      -- The first step decides, or the rest of the run does.
      have hmeets : Meets content block due Refills s (step :: steps) ↔
          Refills s step ∧ Meets content block due Refills u steps := by
        rw [Meets, hstep]
        simp
      rw [hmeets]
      obtain ⟨hrefill, hu⟩ | ⟨hrefill, hwrong⟩ := step_inPlace hblock h hstep
      · rw [and_iff_right hrefill]
        exact ih hu hrest
      · obtain ⟨l, hl⟩ := run_answers hrest
        refine Or.inr ⟨fun hm => hrefill hm.1, fun hdelivers => ?_⟩
        rw [hl] at hdelivers
        exact hwrong (delivers_of_append hdelivers)

/-- `getc` keeps the shared offset where the buffer of the caller ends. -/
theorem getc_offset {content : List UInt8} {block offset : Nat} {file : Stream}
    (h : offset = file.position + file.buffer.length) :
    (getc content block offset file).2.2
      = (getc content block offset file).2.1.position
        + (getc content block offset file).2.1.buffer.length := by
  unfold getc
  cases heof : file.eof with
  | true => exact h
  | false =>
      cases hbuffer : file.buffer with
      | cons b buffer =>
          rw [hbuffer, List.length_cons] at h
          show offset = file.position + 1 + buffer.length
          omega
      | nil =>
          cases hchunk : (content.drop offset).take block with
          | nil => rfl
          | cons b buffer =>
              show offset + (buffer.length + 1) = offset + 1 + buffer.length
              omega

/-- Children that find the shared offset at their own position keep it where the parent's
buffer ends. -/
theorem harmless_refills : ∀ {steps : List InputStep} {s : InputState},
    s.offset = s.parent.position + s.parent.buffer.length →
      Meets content block due Harmless s steps → Meets content block due Refills s steps := by
  intro steps
  induction steps with
  | nil => exact fun _ _ => trivial
  | cons step steps ih =>
      intro s hoffset hmeets
      obtain ⟨hharmless, hrest⟩ := hmeets
      constructor
      · cases step with
        | getc =>
            intro hbuffer _
            rw [hoffset, hbuffer]
            rfl
        | fork childEnd => trivial
        | close child => trivial
      · intro t hstep
        refine ih ?_ (hrest t hstep)
        cases step with
        | getc =>
            rw [InputState.step_getc hstep]
            exact getc_offset hoffset
        | fork childEnd =>
            rw [InputState.step_fork hstep]
            exact hoffset
        | close child =>
            obtain ⟨file, hfile, rfl⟩ := InputState.step_close hstep
            exact (hharmless file hfile).trans hoffset

/-! ### Children that keep their copies -/

/-- Without a child that closes its copy, no step can do harm. Induction on the steps. -/
theorem harmless_of_kept : ∀ {steps : List InputStep} {s : InputState}, s.children = [] →
    (∀ childEnd ∈ steps.filterMap InputStep.childEnd?, childEnd.closes = false) →
      Meets content block due Harmless s steps := by
  intro steps
  induction steps with
  | nil => exact fun _ _ => trivial
  | cons step steps ih =>
      intro s hnone hkept
      cases step with
      | getc =>
          refine ⟨trivial, fun t hstep => ih ?_ hkept⟩
          rw [InputState.step_getc hstep]
          exact hnone
      | fork childEnd =>
          rw [List.filterMap_cons_some (f := InputStep.childEnd?) rfl, List.forall_mem_cons] at hkept
          refine ⟨trivial, fun t hstep => ih ?_ hkept.2⟩
          rw [InputState.step_fork hstep]
          simp only [hkept.1, Bool.false_eq_true, if_false]
          exact hnone
      | close child =>
          constructor
          · intro file hfile
            rw [hnone] at hfile
            cases hfile
          · intro t hstep
            obtain ⟨file, hfile, -⟩ := InputState.step_close hstep
            rw [hnone] at hfile
            cases hfile

/-- The bytes of right answers. -/
theorem bytes_of_delivers (h : Delivers content s.answers) :
    s.bytes = content.take s.answers.length := by
  unfold InputState.bytes
  rw [h, List.length_map, List.length_range]
  induction s.answers.length with
  | zero => rfl
  | succ n ih =>
      rw [List.range_succ, List.map_append, List.filterMap_append, ih, List.take_add_one,
        List.map_singleton, fileAnswer]
      cases content[n]? with
      | none => rfl
      | some b => rfl

/-- **An input that the children leave alone.** Where every child keeps its copy, the parent reads
the content of the file. -/
theorem reads_eq {seekable : Bool} {ends : List ChildEnd} {bytes : List UInt8}
    (h : Reads seekable content ends bytes) (hkept : ∀ childEnd ∈ ends, childEnd.closes = false) :
    bytes = content := by
  cases seekable with
  | false => exact h
  | true =>
      obtain ⟨block, due, steps, s, hblock, hrun, hends, rfl⟩ := h
      have hharmless : Meets content block due Harmless .init steps :=
        harmless_of_kept rfl fun childEnd hmem => hkept childEnd (hends.subset hmem)
      have hrefills := harmless_refills rfl hharmless
      obtain ⟨-, hs⟩ := (run_inPlace hblock (inPlace_init content) hrun).resolve_right
        fun hwrong => hwrong.1 hrefills
      rw [bytes_of_delivers hs.delivers]
      cases heof : s.parent.eof with
      | false => exact List.take_append_drop _ _
      | true =>
          rw [List.take_of_length_le (hs.ended heof)]
          exact List.append_nil content

/-- **The parent's input.** In every run over a seekable input, for every block size, every
order of the steps and every choice of the children that close their copies, in `exit` or in the
`freopen` of `-o`, the parent is given the bytes of the file, once each and in order, and then
`EOF`, exactly if every refill of its buffer finds the shared offset at the position of the parent.
It does so if every child that closes its copy finds the shared offset at its own position. -/
theorem inputRun_delivers_iff (content : List UInt8) {block : Nat} (hblock : 0 < block)
    (due : List UInt8 → Nat) {steps : List InputStep} {s : InputState}
    (hrun : InputState.init.run content block due steps = some s) :
    (Delivers content s.answers ↔ Meets content block due Refills .init steps) ∧
    (Meets content block due Harmless .init steps → Delivers content s.answers) := by
  have hiff : Delivers content s.answers ↔ Meets content block due Refills .init steps := by
    rcases run_inPlace hblock (inPlace_init content) hrun with ⟨hmeets, hs⟩ | ⟨hmeets, hwrong⟩
    · exact iff_of_true hs.delivers hmeets
    · exact iff_of_false hwrong hmeets
  exact ⟨hiff, fun h => hiff.mpr (harmless_refills rfl h)⟩

/-- Under `-o` a child that runs its command closes its copy too: here the first one, while `c\n` is
in the buffer of the parent. -/
example : ¬ ∀ due steps t, InputState.init.run [97, 10, 98, 10, 99, 10] 4096 due steps = some t →
    Delivers [97, 10, 98, 10, 99, 10] t.answers := by
  intro h
  exact absurd (h (fun bytes => bytes.length / 4) [.getc, .getc, .getc, .getc, .fork .reopened,
    .close 0, .getc, .getc, .getc] _ rfl) (by decide)

/-! ### The input of the appender mode -/

/-- The number of commands that `appender_mode_run` has executed when it asks the space
tokenizer for the next byte, having given it these. A word is a token only when the byte
behind it has been read. -/
def appenderDue (cmd : Command) (bytes : List UInt8) : Nat :=
  (batches appenderStep cmd (spaceTokenStream none bytes true).tokens).commands.length

/-- `printf 'a\nb\n' > f; phxargs -n 1 c < f`, where `c` cannot be executed: the file has been
read when the first child calls `exit`. -/
theorem inputRun_delivers_short :
    ∃ opts s, xargsCreate System.bare [.optn [49]] 3 [[120], [45, 110], [49], [99]]
        (spaceTokenStream none [97, 10, 98, 10] false) = .ok (opts, s) ∧
      ∃ t, InputState.init.run [97, 10, 98, 10] 4096 (appenderDue s.cmd)
          [.getc, .getc, .getc, .getc, .fork .notExecuted, .close 0, .getc] = some t ∧
        t.answers = [some (0, 97), some (1, 10), some (2, 98), some (3, 10), none] ∧
        Meets [97, 10, 98, 10] 4096 (appenderDue s.cmd) Refills .init
          [.getc, .getc, .getc, .getc, .fork .notExecuted, .close 0, .getc] := by
  obtain ⟨opts, s, hcreate, t, hrun, hanswers⟩ : ∃ opts s,
      xargsCreate System.bare [.optn [49]] 3 [[120], [45, 110], [49], [99]]
        (spaceTokenStream none [97, 10, 98, 10] false) = .ok (opts, s) ∧
      ∃ t, InputState.init.run [97, 10, 98, 10] 4096 (appenderDue s.cmd)
          [.getc, .getc, .getc, .getc, .fork .notExecuted, .close 0, .getc] = some t ∧
        t.answers = [some (0, 97), some (1, 10), some (2, 98), some (3, 10), none] := by
    exact ⟨_, _, rfl, _, rfl, by decide +kernel⟩
  have hdelivers : Delivers [97, 10, 98, 10] t.answers := by
    rw [hanswers]
    decide
  exact ⟨opts, s, hcreate, t, hrun, hanswers,
    (inputRun_delivers_iff _ (by decide) _ hrun).1.mp hdelivers⟩

/-- `printf 'a\nb\nc\n' > f; phxargs -n 1 c < f`, where `c` cannot be executed: the first
child calls `exit` while `c\n` is in the buffer of the parent. The shared offset goes back to
position 4, and the parent reads the third line a second time. -/
theorem thirdLine_delivered_twice :
    ∃ opts s, xargsCreate System.bare [.optn [49]] 3 [[120], [45, 110], [49], [99]]
        (spaceTokenStream none [97, 10, 98, 10, 99, 10] false) = .ok (opts, s) ∧
      ∃ t, InputState.init.run [97, 10, 98, 10, 99, 10] 4096 (appenderDue s.cmd)
          [.getc, .getc, .getc, .getc, .fork .notExecuted, .close 0, .getc, .getc,
            .fork .notExecuted, .getc, .getc] = some t ∧
        t.bytes = [97, 10, 98, 10, 99, 10, 99, 10] ∧
        ¬ Delivers [97, 10, 98, 10, 99, 10] t.answers := by
  exact ⟨_, _, rfl, _, rfl, by decide +kernel, by decide +kernel⟩

end Phxargs
