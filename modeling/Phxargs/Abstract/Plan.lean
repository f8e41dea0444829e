import Phxargs.Model.Modes

/-!
# `Phxargs.Abstract.Plan`: the commands that an input calls for

What each mode is for, without processes: a `Plan` is the sequence of commands that the
options and the token stream determine, and how the input ends the run. No pool, no signal
and no child enters a plan.

`Phxargs.Proofs.Refinement` shows that every run follows its plan. A run leaves the plan
early only after a halt or a failed `fork`. So a statement about the plan is a statement
about the runs of every world.
-/

set_option autoImplicit false

namespace Phxargs

/-- The outcome of planning one token: the commands that it completes, and the command that
remains under construction, or the exit. -/
abbrev Planned := List Command × Except Exit Command

/-- The second half of an appender iteration. -/
def appenderAdd (cmd : Command) (arg : CStr) : Planned :=
  match commandAddInputArgument cmd arg with
  | .error e => ([], .error e)
  | .ok cmd =>
      if commandShouldExecuteAfterArgAdded cmd < 0 then
        ([], .error Exit.commandTooLong)
      else if commandShouldExecuteAfterArgAdded cmd > 0 then
        ([cmd], .ok (recycleCommand cmd))
      else
        ([], .ok cmd)

/-- An appender iteration. -/
def appenderStep (cmd : Command) (arg : CStr) : Planned :=
  match commandArgWouldExceedLimits cmd arg with
  | .error e => ([], .error e)
  | .ok true =>
      -- The flushed command is complete whatever becomes of the token.
      let added := appenderAdd (recycleCommand cmd) arg
      (cmd :: added.1, added.2)
  | .ok false => appenderAdd cmd arg

/-- A replacer iteration. -/
def replacerStep (cmd : Command) (arg : CStr) : Planned :=
  match commandEnsureLengthNotExceeded cmd arg with
  | .error e => ([], .error e)
  | .ok () =>
      match commandReplaceArgs cmd arg with
      | .error e => ([], .error e)
      | .ok cmd => ([cmd], .ok (recycleCommand cmd))

/-- The iterations over a token stream: the completed commands, the tokens that were not
requested, and the command that remains or the exit. -/
structure Batches where
  commands : List Command
  rest : List Token
  result : Except Exit Command

/-- The loop of a mode. Requesting a token counts its boundaries first. -/
def batches (step : Command → CStr → Planned) : Command → List Token → Batches
  | cmd, [] => ⟨[], [], .ok cmd⟩
  | cmd, token :: tokens =>
      -- `on_input_boundary` is called inside of `next_token`, before the step sees the token.
      match step (commandIncrementLineCount cmd token.boundaries) token.arg with
      | (out, .error e) => ⟨out, tokens, .error e⟩
      | (out, .ok cmd) =>
          let later := batches step cmd tokens
          ⟨out ++ later.commands, later.rest, later.result⟩

/-- The commands of a run, the tokens that it does not request, and its exit, `none` for a
normal return. -/
structure Plan where
  commands : List Command
  rest : List Token
  exit : Option Exit

/-- The end of a mode that has requested every token: a tokenizer error is an exit, a clean
end adds the commands of `last`. -/
def endPlan (b : Batches) (stream : TokenStream) (last : Command → List Command) : Plan :=
  match b.result with
  | .error e => ⟨b.commands, b.rest, some e⟩
  | .ok cmd =>
      if stream.endError = .none then
        ⟨b.commands ++ last (commandIncrementLineCount cmd stream.endBoundaries), b.rest, none⟩
      else
        -- What is still pending is dropped.
        ⟨b.commands, b.rest, some (Exit.failure .alreadyReported)⟩

/-- The last command of the appender mode. -/
def appenderLast (suppressExecutionOnEmptyInput inputPresent : Bool) (cmd : Command) :
    List Command :=
  if !inputPresent then
    if !suppressExecutionOnEmptyInput then [cmd] else []
  else
    if commandInputArgsRemain cmd then [cmd] else []

/-- The plan of the appender mode. -/
def appenderPlan (suppressExecutionOnEmptyInput : Bool) (cmd : Command)
    (stream : TokenStream) : Plan :=
  endPlan (batches appenderStep cmd stream.tokens) stream
    (appenderLast suppressExecutionOnEmptyInput (!stream.tokens.isEmpty))

/-- The plan of the replacer mode. -/
def replacerPlan (cmd : Command) (stream : TokenStream) : Plan :=
  endPlan (batches replacerStep cmd stream.tokens) stream fun _ => []

/-- The plan of the mode that `xargs_create` chooses. -/
def planOf (opts : Options) (cmd : Command) (stream : TokenStream) : Plan :=
  if opts.argPlaceholder.isNone then
    appenderPlan opts.suppressExecutionOnEmptyInput cmd stream
  else
    replacerPlan cmd stream

/-! ### Steps and loops of the plan -/

@[simp] theorem batches_nil (step : Command → CStr → Planned) (cmd : Command) :
    batches step cmd [] = ⟨[], [], .ok cmd⟩ := rfl

/-- A step that exits ends the loop. -/
theorem batches_cons_error {step : Command → CStr → Planned} {cmd : Command} {token : Token}
    {tokens : List Token} {out : List Command} {e : Exit}
    (h : step (commandIncrementLineCount cmd token.boundaries) token.arg = (out, .error e)) :
    batches step cmd (token :: tokens) = ⟨out, tokens, .error e⟩ := by
  rw [batches, h]

/-- A step that leaves a command continues with it. -/
theorem batches_cons_ok {step : Command → CStr → Planned} {cmd cmd' : Command}
    {token : Token} {tokens : List Token} {out : List Command}
    (h : step (commandIncrementLineCount cmd token.boundaries) token.arg = (out, .ok cmd')) :
    batches step cmd (token :: tokens)
      = ⟨out ++ (batches step cmd' tokens).commands, (batches step cmd' tokens).rest,
          (batches step cmd' tokens).result⟩ := by
  rw [batches, h]

/-- The commands that the first token completes come first. -/
theorem batches_step_isPrefix (step : Command → CStr → Planned) (cmd : Command) (token : Token)
    (tokens : List Token) :
    (step (commandIncrementLineCount cmd token.boundaries) token.arg).1
      <+: (batches step cmd (token :: tokens)).commands := by
  cases hresult : (step (commandIncrementLineCount cmd token.boundaries) token.arg).2 with
  | error e =>
      rw [batches_cons_error (Prod.ext rfl hresult)]
  | ok cmd' =>
      rw [batches_cons_ok (Prod.ext rfl hresult)]
      exact List.prefix_append ..

/-- The invariant rule of the loop. `I` relates the tokens that have been read and the
commands that are complete to the command under construction. `E` is the same for a step
that exits: the token that it read counts as read. -/
theorem batches_rule (step : Command → CStr → Planned)
    (I : List Token → List Command → Command → Prop)
    (E : List Token → List Command → Exit → Prop)
    (hok : ∀ done out cmd token out' cmd', I done out cmd →
      step (commandIncrementLineCount cmd token.boundaries) token.arg = (out', .ok cmd') →
      I (done ++ [token]) (out ++ out') cmd')
    (herror : ∀ done out cmd token out' e, I done out cmd →
      step (commandIncrementLineCount cmd token.boundaries) token.arg = (out', .error e) →
      E (done ++ [token]) (out ++ out') e) :
    ∀ (tokens done : List Token) (out : List Command) (cmd : Command), I done out cmd →
      (∃ cmd', (batches step cmd tokens).result = .ok cmd' ∧
        (batches step cmd tokens).rest = [] ∧
        I (done ++ tokens) (out ++ (batches step cmd tokens).commands) cmd') ∨
      (∃ e read, (batches step cmd tokens).result = .error e ∧
        tokens = read ++ (batches step cmd tokens).rest ∧
        E (done ++ read) (out ++ (batches step cmd tokens).commands) e) := by
  intro tokens
  -- On the tokens. `done` and `out` grow, so they are part of the statement.
  induction tokens with
  | nil =>
      intro done out cmd hI
      refine Or.inl ⟨cmd, rfl, rfl, ?_⟩
      simpa using hI
  | cons token tokens ih =>
      intro done out cmd hI
      rcases hstep : step (commandIncrementLineCount cmd token.boundaries) token.arg
        with ⟨out', result⟩
      cases result with
      | error e =>
          rw [batches_cons_error hstep]
          exact Or.inr ⟨e, [token], rfl, rfl, herror done out cmd token out' e hI hstep⟩
      | ok cmd' =>
          rw [batches_cons_ok hstep]
          -- What the step has read and completed joins what came before.
          have hI' := hok done out cmd token out' cmd' hI hstep
          rcases ih _ _ cmd' hI' with ⟨cmd'', hresult, hrest, h⟩ | ⟨e, read, hresult, hread, h⟩
          · refine Or.inl ⟨cmd'', hresult, hrest, ?_⟩
            rw [List.append_assoc, List.append_assoc] at h
            exact h
          · refine Or.inr ⟨e, token :: read, hresult, congrArg (token :: ·) hread, ?_⟩
            rw [List.append_assoc, List.append_assoc] at h
            exact h

end Phxargs
