import Phxargs.Model.Terminal
import Phxargs.Proofs.Programs

/-!
# `Phxargs.Proofs.Prompt`: which command an answer is for

Each question of `-p` takes one line of the terminal, and its answer is the first letter. But the
loop that skips the rest of the line looks at the bytes behind the first one only. If the line is
empty, its newline is this first byte, and the loop goes on through the whole next line. So an empty
line declines one command and takes two lines (`confirmed`).

`OnLine` is what the `FILE` holds in the middle of a line: a part of it has been read ahead, and the
rest is still in the terminal. Where the blocks end does not matter.
-/

set_option autoImplicit false

namespace Phxargs

/-- A line that says yes. -/
def saysYes (line : List UInt8) : Bool := line.head? = some 121 || line.head? = some 89

/-- The answers that some lines give. An empty line takes the next one with it. -/
def confirmed : List (List UInt8) → List Bool
  | [] => []
  | [] :: [] => [false]
  | [] :: _ :: lines => false :: confirmed lines
  | (b :: line) :: lines => saysYes (b :: line) :: confirmed lines

/-- Without an empty line, every line is the answer to a question of its own. -/
theorem confirmed_of_nonempty :
    ∀ {lines : List (List UInt8)}, [] ∉ lines → confirmed lines = lines.map saysYes := by
  intro lines
  induction lines with
  | nil => exact fun _ => rfl
  | cons line lines ih =>
      intro h
      rw [List.mem_cons, not_or] at h
      cases line with
      | nil => exact absurd rfl h.1
      | cons b line => rw [confirmed, ih h.2, List.map_cons]

/-! ### Within a line -/

variable {block : Nat} {file : TtyFile} {line : List UInt8} {lines : List (List UInt8)}

/-- Between two lines. -/
structure BetweenLines (file : TtyFile) (lines : List (List UInt8)) : Prop where
  buffer : file.buffer = []
  eof : file.eof = false
  tty : file.tty = .typed lines

/-- Within a line, of which this part has not been returned yet. -/
structure OnLine (file : TtyFile) (line : List UInt8) (lines : List (List UInt8)) : Prop where
  eof : file.eof = false
  split : (file.buffer = line ++ [NEWLINE] ∧ file.tty = .typed lines) ∨
    ∃ rest, rest ≠ [] ∧ file.buffer ++ rest = line ++ [NEWLINE] ∧ file.tty = rest :: Tty.typed lines

/-- The `FILE` with these bytes in its buffer, in the middle of a line. -/
theorem OnLine.of_read {taken rest : List UInt8} (h : taken ++ rest = line ++ [NEWLINE]) :
    OnLine ⟨taken, false, if rest = [] then .typed lines else rest :: Tty.typed lines⟩ line lines where
  eof := rfl
  split := by
    by_cases hrest : rest = []
    · rw [hrest, List.append_nil] at h
      exact .inl ⟨h, by simp [hrest]⟩
    · exact .inr ⟨rest, hrest, h, by simp [hrest]⟩

/-- A read takes as much of the line as it can. -/
theorem Tty.read_line (hblock : 0 < block) {rest : List UInt8} (hrest : rest ≠ []) (tty : Tty) :
    ∃ b taken later, Tty.read block (rest :: tty) = (b :: taken, if later = [] then tty else later :: tty) ∧
      b :: taken ++ later = rest := by
  obtain ⟨b, rest, rfl⟩ := List.exists_cons_of_ne_nil hrest
  obtain ⟨n, rfl⟩ : ∃ n, block = n + 1 := ⟨block - 1, by omega⟩
  rw [Tty.read]
  by_cases hlength : (b :: rest).length ≤ n + 1
  · rw [if_pos hlength]
    exact ⟨b, rest, [], rfl, List.append_nil _⟩
  · rw [if_neg hlength]
    have hlater : rest.drop n ≠ [] := by
      rw [Ne, List.drop_eq_nil_iff]
      rw [List.length_cons] at hlength
      omega
    refine ⟨b, rest.take n, rest.drop n, ?_, ?_⟩
    · rw [if_neg hlater]
      rfl
    · rw [List.cons_append, List.take_append_drop]

/-- `fgetc` in the middle of a line: the next byte, from the buffer or behind a read. -/
theorem fgetc_onLine (hblock : 0 < block) {b : UInt8} {rest : List UInt8}
    (h : OnLine file line lines) (hline : line ++ [NEWLINE] = b :: rest) :
    ∃ file', fgetc block file = (some b, file') ∧
      (rest = [] → BetweenLines file' lines) ∧
      ∀ line', rest = line' ++ [NEWLINE] → OnLine file' line' lines := by
  obtain ⟨buffer, eof, tty⟩ := file
  obtain rfl : eof = false := h.eof
  rcases h.split with ⟨hbuffer, htty⟩ | ⟨later, hlater, hbuffer, htty⟩
  · obtain rfl : buffer = b :: rest := hbuffer.trans hline
    refine ⟨⟨rest, false, tty⟩, rfl, fun hrest => ⟨hrest, rfl, htty⟩, ?_⟩
    exact fun line' hline' => ⟨rfl, .inl ⟨hline', htty⟩⟩
  · rw [hline] at hbuffer
    cases buffer with
    | cons b' buffer =>
        obtain ⟨rfl, hrest⟩ : b' = b ∧ buffer ++ later = rest := List.cons.inj hbuffer
        refine ⟨⟨buffer, false, tty⟩, rfl, fun hnil => ?_, ?_⟩
        · rw [hnil, List.append_eq_nil_iff] at hrest
          exact absurd hrest.2 hlater
        · exact fun line' hline' => ⟨rfl, .inr ⟨later, hlater, hrest.trans hline', htty⟩⟩
    | nil =>
        -- The buffer is empty in the middle of the line: the next block is read.
        obtain ⟨b', taken, later', hread, hsplit⟩ := Tty.read_line hblock hlater (.typed lines)
        obtain rfl : tty = later :: Tty.typed lines := htty
        rw [← hsplit] at hbuffer
        obtain ⟨rfl, hrest⟩ : b' = b ∧ taken ++ later' = rest := List.cons.inj hbuffer
        refine ⟨⟨taken, false, if later' = [] then .typed lines else later' :: Tty.typed lines⟩, ?_, ?_, ?_⟩
        · simp only [fgetc, hread, Bool.false_eq_true, if_false]
        · intro hnil
          rw [hnil, List.append_eq_nil_iff] at hrest
          exact ⟨hrest.1, rfl, by rw [if_pos hrest.2]⟩
        · exact fun line' hline' => OnLine.of_read (hrest.trans hline')

/-- The loop goes to the end of the line. Induction on the rest of the line. -/
theorem skipLine_onLine (hblock : 0 < block) :
    ∀ (line : List UInt8) {n : Nat} {file : TtyFile}, NEWLINE ∉ line → OnLine file line lines →
      line.length < n → BetweenLines (skipLine block n file) lines := by
  intro line
  induction line with
  | nil =>
      intro n file _ h hn
      obtain ⟨n, rfl⟩ : ∃ m, n = m + 1 := ⟨n - 1, by omega⟩
      obtain ⟨file', hget, hend, -⟩ := fgetc_onLine hblock h rfl
      rw [skipLine, hget]
      simp only [if_true]
      exact hend rfl
  | cons b line ih =>
      intro n file hfree h hn
      rw [List.mem_cons, not_or] at hfree
      rw [List.length_cons] at hn
      obtain ⟨n, rfl⟩ : ∃ m, n = m + 1 := ⟨n - 1, by omega⟩
      obtain ⟨file', hget, -, hnext⟩ := fgetc_onLine hblock h (List.cons_append ..)
      rw [skipLine, hget]
      simp only [if_neg (Ne.symm hfree.1)]
      exact ih hfree.2 (hnext line rfl) (by omega)

/-- At the start of a line. -/
theorem BetweenLines.onLine (h : BetweenLines file (line :: lines)) : OnLine file line lines where
  eof := h.eof
  split := .inr ⟨line ++ [NEWLINE], by simp, by rw [h.buffer]; rfl, h.tty⟩

/-- The rest of the line is among what can be read. -/
theorem OnLine.length_lt (h : OnLine file line lines) : line.length < file.size := by
  unfold TtyFile.size
  rcases h.split with ⟨hbuffer, -⟩ | ⟨rest, -, hbuffer, htty⟩
  · rw [hbuffer, List.length_append, List.length_singleton]
    omega
  · have hlength := congrArg List.length hbuffer
    rw [List.length_append, List.length_append, List.length_singleton] at hlength
    rw [htty, List.flatten_cons, List.length_append]
    omega

/-! ### One question -/

theorem betweenLines_open (lines : List (List UInt8)) :
    BetweenLines (TtyFile.open (.typed lines)) lines := ⟨rfl, rfl, rfl⟩

/-- Nothing is typed any more. -/
theorem fgetc_hungUp (h : BetweenLines file []) : fgetc block file = (none, ⟨[], true, []⟩) := by
  obtain ⟨buffer, eof, tty⟩ := file
  obtain rfl : buffer = [] := h.buffer
  obtain rfl : eof = false := h.eof
  obtain rfl : tty = [] := h.tty
  rfl

/-- The loop ends, too. -/
theorem skipLine_hungUp (h : BetweenLines file []) (n : Nat) :
    (skipLine block (n + 1) file).tty = [] := by
  rw [skipLine, fgetc_hungUp h]

/-- An answer with a letter takes its line. -/
theorem confirmExecutionOn_line (hblock : 0 < block) {b : UInt8} (hfree : NEWLINE ∉ b :: line) :
    confirmExecutionOn block (.typed ((b :: line) :: lines))
      = (saysYes (b :: line), .typed lines) := by
  rw [List.mem_cons, not_or] at hfree
  obtain ⟨file, hget, -, hnext⟩ :=
    fgetc_onLine hblock (betweenLines_open ((b :: line) :: lines)).onLine (List.cons_append ..)
  have honLine := hnext line rfl
  have hskip := skipLine_onLine hblock line hfree.2 honLine (honLine.length_lt.trans (Nat.lt_succ_self _))
  rw [confirmExecutionOn, hget]
  simp only [hskip.tty, saysYes, List.head?_cons, Option.some_inj]

/-- An empty answer takes the next line too. -/
theorem confirmExecutionOn_empty (hblock : 0 < block) (hfree : NEWLINE ∉ line) :
    confirmExecutionOn block (.typed ([] :: line :: lines)) = (false, .typed lines) := by
  obtain ⟨file, hget, hend, -⟩ :=
    fgetc_onLine hblock (betweenLines_open ([] :: line :: lines)).onLine rfl
  have honLine := (hend rfl).onLine
  have hskip := skipLine_onLine hblock line hfree honLine (honLine.length_lt.trans (Nat.lt_succ_self _))
  rw [confirmExecutionOn, hget]
  simp only [hskip.tty]
  rfl

/-- Behind an empty last line, the child waits until the terminal hangs up. -/
theorem confirmExecutionOn_lastEmpty (hblock : 0 < block) :
    confirmExecutionOn block (.typed [[]]) = (false, .typed []) := by
  obtain ⟨file, hget, hend, -⟩ := fgetc_onLine hblock (betweenLines_open [[]]).onLine rfl
  rw [confirmExecutionOn, hget]
  simp only [skipLine_hungUp (hend rfl)]
  rfl

theorem confirmExecutionOn_hungUp : confirmExecutionOn block (.typed []) = (false, .typed []) := by
  rw [confirmExecutionOn, fgetc_hungUp (betweenLines_open [])]
  rfl

/-- A question takes whole lines. Its answer is the head of the answers that the lines give. -/
theorem confirmExecutionOn_typed (hblock : 0 < block) (hlines : ∀ line ∈ lines, NEWLINE ∉ line) :
    ∃ later, (∀ line ∈ later, NEWLINE ∉ line) ∧
      confirmExecutionOn block (.typed lines) = ((confirmed lines).headD false, .typed later) ∧
      confirmed later = (confirmed lines).tail := by
  cases lines with
  | nil => exact ⟨[], hlines, confirmExecutionOn_hungUp, rfl⟩
  | cons line lines =>
      rw [List.forall_mem_cons] at hlines
      cases line with
      | cons b line => exact ⟨lines, hlines.2, confirmExecutionOn_line hblock hlines.1, rfl⟩
      | nil =>
          cases lines with
          | nil => exact ⟨[], hlines.2, confirmExecutionOn_lastEmpty hblock, rfl⟩
          | cons line lines =>
              rw [List.forall_mem_cons] at hlines
              exact ⟨lines, hlines.2.2, confirmExecutionOn_empty hblock hlines.2.1, rfl⟩

/-! ### All questions -/

/-- The terminal behind some questions has whole lines, those that give the rest of the answers.
Induction on the questions. -/
theorem Tty.behind_typed (hblock : 0 < block) (hlines : ∀ line ∈ lines, NEWLINE ∉ line) (k : Nat) :
    ∃ later, (∀ line ∈ later, NEWLINE ∉ line) ∧ Tty.behind block (.typed lines) k = .typed later ∧
      confirmed later = (confirmed lines).drop k := by
  induction k with
  | zero => exact ⟨lines, hlines, rfl, rfl⟩
  | succ k ih =>
      obtain ⟨later, hlater, hbehind, hrest⟩ := ih
      obtain ⟨later', hlater', hquestion, htail⟩ := confirmExecutionOn_typed hblock hlater
      refine ⟨later', hlater', ?_, ?_⟩
      · rw [Tty.behind, hbehind, hquestion]
      · rw [htail, hrest, List.tail_drop]

/-- The answers are those that the lines give, and no when the terminal has hung up. -/
theorem Tty.answer_typed (hblock : 0 < block) (hlines : ∀ line ∈ lines, NEWLINE ∉ line) (k : Nat) :
    Tty.answer block (.typed lines) k = (confirmed lines).getD k false := by
  obtain ⟨later, hlater, hbehind, hrest⟩ := Tty.behind_typed hblock hlines k
  obtain ⟨later', -, hquestion, -⟩ := confirmExecutionOn_typed hblock hlater
  rw [Tty.answer, hbehind, hquestion, hrest]
  simp [List.headD_eq_head?_getD, List.head?_drop, List.getD_eq_getElem?_getD]

/-- The first byte of the terminal answers, as `Phxargs.Model.Exec` has it. -/
theorem confirmExecution_typed (hblock : 0 < block) (hlines : ∀ line ∈ lines, NEWLINE ∉ line)
    {e : ExecWorld} (he : e.tty = some (Tty.typed lines).flatten) :
    confirmExecution e = .ok (confirmExecutionOn block (.typed lines)).1 := by
  unfold confirmExecution
  rw [he]
  cases lines with
  | nil =>
      rw [confirmExecutionOn_hungUp]
      rfl
  | cons line lines =>
      rw [List.forall_mem_cons] at hlines
      cases line with
      | cons b line =>
          rw [confirmExecutionOn_line hblock hlines.1]
          rfl
      | nil =>
          obtain ⟨later, -, hquestion, -⟩ :=
            confirmExecutionOn_typed hblock (List.forall_mem_cons.mpr hlines)
          rw [hquestion]
          cases lines <;> rfl

/-- Children that ask at a terminal with these lines, and find every program. -/
def Programs.asking (lines : List (List UInt8)) : Programs where
  exec := fun k => ⟨some (Tty.behind 1024 (.typed lines) k).flatten, true, fun _ => none, fun _ => ""⟩
  run := fun _ _ => .exited 0

end Phxargs
