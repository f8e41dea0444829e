import Phxargs.Lib.Substitution
import Phxargs.Proofs.Parallelism
import Phxargs.Proofs.Replacer

/-!
# `Phxargs.Proofs.Substitution`: what the replacer mode runs

Under `-I`, each item of the input gives one command: the command word, and the other fixed
arguments with the placeholder replaced by the item. `SubstitutedArgv` says what this argv is,
in terms of `Substitutes`. `copyReplaced_substitutes` connects it to the two passes of
`str_replace`, and the loop invariant `Replaced` to the run.
-/

set_option autoImplicit false

namespace Phxargs

open Lib

/-! ### `strstr` finds the first occurrence -/

theorem strstr_eq_some {needle : CStr} : ∀ {s : CStr} {offset : Nat},
    strstr needle s = some offset →
      s = s.take offset ++ (needle ++ s.drop (offset + strlen needle)) ∧
      offset ≤ s.length ∧ ∀ k < offset, ¬ needle <+: s.drop k := by
  intro s
  induction s with
  | nil =>
      intro offset h
      rw [strstr] at h
      split at h
      · rename_i hneedle
        cases h
        simp [hneedle]
      · cases h
  | cons c s ih =>
      intro offset h
      rw [strstr] at h
      split at h
      · rename_i hpart
        cases h
        obtain ⟨rest, hrest⟩ := List.isPrefixOf_iff_prefix.mp hpart
        refine ⟨?_, Nat.zero_le _, fun k hk => absurd hk (Nat.not_lt_zero k)⟩
        rw [Nat.zero_add, ← hrest]
        simp [strlen]
      · rename_i hpart
        -- No match at the start, so the first one of the tail is the first one, one byte later.
        obtain ⟨offset', hmatch, rfl⟩ := Option.map_eq_some_iff.mp h
        obtain ⟨hsplit, hle, hfirst⟩ := ih hmatch
        refine ⟨?_, Nat.succ_le_succ hle, ?_⟩
        · rw [List.take_succ_cons, Nat.add_right_comm, List.drop_succ_cons, List.cons_append,
            ← hsplit]
        · intro k hk
          cases k with
          | zero => exact fun hprefix => hpart (List.isPrefixOf_iff_prefix.mpr hprefix)
          | succ k => exact hfirst k (Nat.lt_of_succ_lt_succ hk)

theorem strstr_eq_none {needle : CStr} : ∀ {s : CStr}, strstr needle s = none → ¬ needle <:+: s := by
  intro s
  induction s with
  | nil =>
      intro h hinfix
      rw [strstr, if_pos (List.infix_nil.mp hinfix)] at h
      cases h
  | cons c s ih =>
      intro h hinfix
      rw [strstr] at h
      split at h
      · cases h
      · rename_i hpart
        rcases List.infix_cons_iff.mp hinfix with hprefix | hlater
        · exact hpart (List.isPrefixOf_iff_prefix.mpr hprefix)
        · exact ih (Option.map_eq_none_iff.mp h) hlater

/-- The copying pass replaces from the left. Each match takes at least one byte, so the bound
on the matches is not the reason why it stops. -/
theorem copyReplaced_substitutes {placeholder : CStr} (hne : placeholder ≠ []) (repl : CStr) :
    ∀ (n : Nat) (s : CStr), strlen s < n →
      Substitutes placeholder repl s (copyReplaced placeholder repl n s) := by
  have hpos : 0 < strlen placeholder := List.length_pos_iff.mpr hne
  intro n
  induction n with
  | zero => exact fun s hs => absurd hs (Nat.not_lt_zero _)
  | succ n ih =>
      intro s hs
      rw [copyReplaced]
      cases hmatch : strstr placeholder s with
      | none => exact .unmatched (strstr_eq_none hmatch)
      | some offset =>
          obtain ⟨hsplit, hle, hfirst⟩ := strstr_eq_some hmatch
          have hlen : strlen (s.drop (offset + strlen placeholder)) < n := by
            have hinside := strstr_le hmatch
            simp only [strlen, List.length_drop] at hs hpos hinside ⊢
            omega
          have htake : (s.take offset).length = offset := by
            rw [List.length_take, Nat.min_eq_left hle]
          have hstep : Substitutes placeholder repl
              (s.take offset ++ (placeholder ++ s.drop (offset + strlen placeholder)))
              (s.take offset ++ (repl ++ copyReplaced placeholder repl n
                (s.drop (offset + strlen placeholder)))) := by
            refine .matched ?_ (ih _ hlen)
            rw [htake, ← hsplit]
            exact hfirst
          rw [← hsplit] at hstep
          rw [← List.append_assoc] at hstep
          exact hstep

/-! ### The argv of an item -/

/-- `out` is `fixed` with the placeholder replaced by the item. An empty placeholder occurs
nowhere. -/
def IsReplacement (placeholder item fixed out : CStr) : Prop :=
  if placeholder = [] then out = fixed else Substitutes placeholder item fixed out

/-- The argv of an item: the command word as it is, and the other fixed arguments with the
placeholder replaced. -/
def SubstitutedArgv (commandWord : CStr) (args : List CStr) (placeholder item : CStr)
    (argv : List CStr) : Prop :=
  ∃ outs, argv = commandWord :: outs ∧ List.Forall₂ (IsReplacement placeholder item) args outs

theorem IsReplacement.unique {placeholder item fixed out out' : CStr}
    (h : IsReplacement placeholder item fixed out)
    (h' : IsReplacement placeholder item fixed out') : out = out' := by
  unfold IsReplacement at h h'
  split at h
  · rename_i hempty
    rw [if_pos hempty] at h'
    exact h.trans h'.symm
  · rename_i hne
    rw [if_neg hne] at h'
    exact h.unique h'

/-- An item has one argv only. -/
theorem SubstitutedArgv.unique {commandWord : CStr} {args : List CStr} {placeholder item : CStr}
    {argv argv' : List CStr} (h : SubstitutedArgv commandWord args placeholder item argv)
    (h' : SubstitutedArgv commandWord args placeholder item argv') : argv = argv' := by
  obtain ⟨outs, rfl, houts⟩ := h
  obtain ⟨outs', rfl, houts'⟩ := h'
  congr 1
  induction houts generalizing outs' with
  | nil =>
      cases houts'
      rfl
  | cons hone _ ih =>
      cases houts' with
      | cons hone' hrest' => rw [hone.unique hone', ih _ hrest']

theorem replaced_isReplacement (placeholder item fixed : CStr) :
    IsReplacement placeholder item fixed (replaced placeholder item fixed) := by
  unfold IsReplacement replaced
  by_cases hempty : placeholder = []
  · rw [if_pos hempty, if_pos (by rw [hempty]; rfl)]
  · have hlen : strlen placeholder ≠ 0 := fun h => hempty (List.length_eq_zero_iff.mp h)
    rw [if_neg hempty, if_neg hlen]
    exact copyReplaced_substitutes hempty item _ fixed (Nat.lt_succ_self _)

theorem replacedArgv_substituted {c : CommandSettings} {commandWord : CStr} {args : List CStr}
    {placeholder : CStr} (hargs : c.fixedArgs.args = commandWord :: args)
    (hplaceholder : c.argPlaceholder = some placeholder) (item : CStr) :
    SubstitutedArgv commandWord args placeholder item (c.replacedArgv item) := by
  rw [CommandSettings.replacedArgv, hargs, hplaceholder]
  refine ⟨_, rfl, ?_⟩
  rw [List.forall₂_map_right_iff, List.forall₂_same]
  exact fun fixed _ => replaced_isReplacement placeholder item fixed

/-! ### Items that pass the length checks -/

/-- No length check fails for this item: the one on the template, and those of `str_replace`. -/
structure Command.PassesLengthChecks (cmd : Command) (item : CStr) : Prop where
  template : commandEnsureLengthNotExceeded cmd item = .ok ()
  replacement : ∀ fixed ∈ cmd.fixedArgs.args.tail,
    ∃ out, strReplace fixed cmd.argPlaceholder (some item) = .ok out

/-- The loop of `command_replace_args` exits only in `str_replace` and in the list growth. -/
theorem addReplacedArguments_ok (placeholder : Option CStr) (item : CStr) :
    ∀ (args : List CStr) (a : CommandArgs),
      (∀ fixed ∈ args, ∃ out, strReplace fixed placeholder (some item) = .ok out) →
      a.args.length + args.length ≤ SIZE_MAX / 2 →
      ∃ b, addReplacedArguments placeholder item a args = .ok b := by
  intro args
  induction args with
  | nil => exact fun a _ _ => ⟨a, rfl⟩
  | cons fixed args ih =>
      intro a hreplace hroom
      rw [List.forall_mem_cons] at hreplace
      obtain ⟨⟨out, hout⟩, hlater⟩ := hreplace
      rw [List.length_cons] at hroom
      obtain ⟨b, hadd⟩ := commandArgsAdd_ok out (show a.args.length ≤ SIZE_MAX / 2 by omega)
      have hroom' : b.args.length + args.length ≤ SIZE_MAX / 2 := by
        rw [commandArgsAdd_args hadd, List.length_append, List.length_singleton]
        omega
      rw [addReplacedArguments]
      simp only [hout, hadd]
      exact ih b hlater hroom'

/-- An item that passes the checks completes a command. -/
theorem replacerStep_ok {c : CommandSettings} (hc : c.Replacing) {cmd : Command}
    (h : cmd.Unreplaced c) {item : CStr} (hfits : c.Fits [item])
    (hreplace : ∀ fixed ∈ c.fixedArgs.args.tail,
      ∃ out, strReplace fixed c.argPlaceholder (some item) = .ok out) :
    ∃ full cmd', replacerStep cmd item = ([full], .ok cmd') ∧ cmd'.Unreplaced c := by
  obtain ⟨-, hcount⟩ := hc.room hfits
  rw [replacerStep, commandEnsureLengthNotExceeded_placeholder h hc, if_pos hfits]
  obtain ⟨rfl, -, hfresh⟩ := h
  have hfull : ∃ full, commandReplaceArgs cmd item = .ok full ∧
      full.toCommandSettings = cmd.toCommandSettings := by
    unfold commandReplaceArgs
    cases hfixed : cmd.fixedArgs.args with
    | nil => exact ⟨cmd, rfl, rfl⟩
    | cons commandWord args =>
        rw [hfixed, List.tail_cons] at hreplace
        rw [hfixed, List.length_cons] at hcount
        obtain ⟨a, hadd⟩ := commandArgsAdd_ok (a := cmd.replacedFixedArgs) commandWord
          (by simp [hfresh])
        have hroom : a.args.length + args.length ≤ SIZE_MAX / 2 := by
          rw [commandArgsAdd_args hadd, hfresh, List.nil_append, List.length_singleton]
          omega
        obtain ⟨b, hb⟩ := addReplacedArguments_ok cmd.argPlaceholder item args a hreplace hroom
        simp only [hadd, hb]
        exact ⟨_, rfl, rfl⟩
  obtain ⟨full, hreplaced, hsettings⟩ := hfull
  simp only [hreplaced]
  exact ⟨full, _, rfl, recycleCommand_unreplaced hsettings hc⟩

/-- The loop over items that pass the checks does not exit. Induction on the items. -/
theorem replacerBatches_ok {c : CommandSettings} (hc : c.Replacing) :
    ∀ (tokens : List Token) {cmd : Command}, cmd.Unreplaced c →
      (∀ token ∈ tokens, c.Fits [token.arg] ∧ ∀ fixed ∈ c.fixedArgs.args.tail,
        ∃ out, strReplace fixed c.argPlaceholder (some token.arg) = .ok out) →
      ∃ cmd', (batches replacerStep cmd tokens).result = .ok cmd' := by
  intro tokens
  induction tokens with
  | nil => exact fun {cmd} _ _ => ⟨cmd, rfl⟩
  | cons token tokens ih =>
      intro cmd h hall
      rw [List.forall_mem_cons] at hall
      obtain ⟨full, cmd', hstep, hnext⟩ := replacerStep_ok hc (h.increment token.boundaries)
        hall.1.1 hall.1.2
      rw [batches_cons_ok hstep]
      exact ih hnext hall.2

/-! ### The runs -/

/-- The replacer mode has no last command: the plan is that of the loop. -/
theorem replacerPlan_commands (cmd : Command) (stream : TokenStream) :
    (replacerPlan cmd stream).commands = (batches replacerStep cmd stream.tokens).commands := by
  unfold replacerPlan endPlan
  split
  · rfl
  · split
    · exact List.append_nil _
    · rfl

/-- The commands of some tokens run the argvs of their items. -/
theorem Replaced.substituted {c : CommandSettings} {commandWord : CStr} {args : List CStr}
    {placeholder : CStr} {done : List Token} {out : List Command} (h : Replaced c done out)
    (hargs : c.fixedArgs.args = commandWord :: args)
    (hplaceholder : c.argPlaceholder = some placeholder) :
    List.Forall₂ (SubstitutedArgv commandWord args placeholder) (done.map Token.arg)
      (out.map buildExecArgs) := by
  rw [List.forall₂_map_left_iff, List.forall₂_map_right_iff]
  refine h.commands.imp ?_
  intro token cmd hcmd
  rw [hcmd.argv]
  exact replacedArgv_substituted hargs hplaceholder token.arg

/-- **Substitution.** Under `-I`, every run forks the argvs of the first items of the stream, one
for each item, in order. If no length check fails for an item, and neither a child halts the
pool nor a `fork` fails, these are the argvs of all items. On an empty stream nothing is
forked, with or without `-r`. -/
theorem replacerModeRun_substitutes {sys : System} {scanned : List Getopt} {optind : Nat}
    {argv : List CStr} {stream : TokenStream} {opts : Options} {s : XargsMode}
    {placeholder commandWord : CStr} {args : List CStr}
    (hcreate : xargsCreate sys scanned optind argv stream = .ok (opts, s))
    (hmode : opts.argPlaceholder = some placeholder)
    (hoperands : (if opts.optindVal = argv.length then [DEFAULT_CMD]
      else argv.drop opts.optindVal) = commandWord :: args) (w : World) :
    let run := xargsRun w opts s
    let final := finalState run
    (∃ items, items <+: stream.args ∧
      List.Forall₂ (SubstitutedArgv commandWord args placeholder) items final.argvs) ∧
    ((∀ item ∈ stream.args, s.cmd.PassesLengthChecks item) →
      final.halted = false → exitOf run ≠ some Exit.forkFailed →
      List.Forall₂ (SubstitutedArgv commandWord args placeholder) stream.args final.argvs) ∧
    (stream.args = [] → final.argvs = []) := by
  intro run final
  obtain ⟨hvalid, hstarts, htoker, hcommand⟩ := xargsCreate_spec hcreate
  obtain ⟨hcreated, hfixed⟩ := commandCreate_spec hcommand hvalid.length
  rw [hoperands] at hfixed
  have hplaceholder : s.cmd.argPlaceholder = some placeholder := hcreated.argPlaceholder.trans hmode
  have hc : s.cmd.Replacing := ⟨by rw [hplaceholder]; rfl, hcreated.maxLength⟩
  have hcmd : s.cmd.Unreplaced s.cmd.toCommandSettings :=
    ⟨rfl, hcreated.inputArgs, hcreated.replacedFixedArgs⟩
  have hfollows : Follows s (replacerPlan s.cmd stream) (exitOf run) final := by
    have h := xargsRun_follows w opts hstarts
    rw [planOf, hmode, htoker] at h
    exact h
  -- The planned commands are those of the first tokens.
  have hplan : ∃ done, done <+: stream.tokens ∧
      Replaced s.cmd.toCommandSettings done (replacerPlan s.cmd stream).commands := by
    rw [replacerPlan_commands]
    obtain ⟨cmd', -, -, hreplaced⟩ | ⟨e, read, -, hread, before, token, rfl, hreplaced, -⟩ :=
      replacerBatches_rule hc hcmd stream.tokens
    · exact ⟨stream.tokens, List.prefix_rfl, hreplaced⟩
    · rw [List.append_assoc] at hread
      exact ⟨before, ⟨_, hread.symm⟩, hreplaced⟩
  have hpart : ∃ items, items <+: stream.args ∧
      List.Forall₂ (SubstitutedArgv commandWord args placeholder) items final.argvs := by
    obtain ⟨done, hdone, hreplaced⟩ := hplan
    -- A run forks a prefix of its plan, whatever stops it.
    have hargvs : final.argvs <+: (replacerPlan s.cmd stream).commands.map buildExecArgs :=
      (hfollows.forked_isPrefix hstarts).map buildExecArgs
    have htake := List.forall₂_take final.argvs.length (hreplaced.substituted hfixed hplaceholder)
    rw [← List.prefix_iff_eq_take.mp hargvs] at htake
    exact ⟨_, (List.take_prefix _ _).trans (hdone.map Token.arg), htake⟩
  refine ⟨hpart, ?_, ?_⟩
  · intro hchecks hrunning hfork
    have hforked := (hfollows.completes hstarts hrunning hfork).1
    -- The checks on the state at the start are those of every iteration: between two of them the
    -- command is recycled.
    have hall : ∀ token ∈ stream.tokens, s.cmd.Fits [token.arg] ∧
        ∀ fixed ∈ s.cmd.fixedArgs.args.tail,
          ∃ out, strReplace fixed s.cmd.argPlaceholder (some token.arg) = .ok out := by
      intro token htoken
      obtain ⟨htemplate, hreplacement⟩ := hchecks token.arg (List.mem_map_of_mem htoken)
      refine ⟨?_, hreplacement⟩
      by_contra hlong
      rw [commandEnsureLengthNotExceeded_placeholder hcmd hc, if_neg hlong] at htemplate
      cases htemplate
    obtain ⟨cmd', hok⟩ := replacerBatches_ok hc stream.tokens hcmd hall
    obtain ⟨-, -, -, hreplaced⟩ | ⟨e, -, herror, -⟩ := replacerBatches_rule hc hcmd stream.tokens
    · have hargvs : final.argvs = (batches replacerStep s.cmd stream.tokens).commands.map buildExecArgs := by
        rw [← replacerPlan_commands, ← hforked]
        rfl
      rw [hargvs]
      exact hreplaced.substituted hfixed hplaceholder
    · rw [hok] at herror
      cases herror
  · intro hempty
    obtain ⟨items, hitems, hargvs⟩ := hpart
    rw [hempty, List.prefix_nil] at hitems
    subst hitems
    exact List.forall₂_nil_left_iff.mp hargvs

/-- `printf 'a\n%\n' | phxargs -I % e x%%` runs `e xaa` and `e x%%`. -/
theorem replacerModeRun_substitutes_twice :
    ∃ opts s, xargsCreate System.bare [.optI [37]] 3 [[120], [45, 73], [37], [101], [120, 37, 37]]
        (.ofLines [[97], [37]]) = .ok (opts, s) ∧
      List.Forall₂ (SubstitutedArgv [101] [[120, 37, 37]] [37])
        (TokenStream.ofLines [[97], [37]]).args (finalState (xargsRun World.quiet opts s)).argvs ∧
      (finalState (xargsRun World.quiet opts s)).argvs
        = [[[101], [120, 97, 97]], [[101], [120, 37, 37]]] := by
  obtain ⟨opts, s, hcreate, hmode, hoperands, hchecks, hrunning, hfork, hargvs⟩ : ∃ opts s,
      xargsCreate System.bare [.optI [37]] 3 [[120], [45, 73], [37], [101], [120, 37, 37]]
        (.ofLines [[97], [37]]) = .ok (opts, s) ∧
      opts.argPlaceholder = some [37] ∧
      (if opts.optindVal = 5 then [DEFAULT_CMD]
        else [[120], [45, 73], [37], [101], [120, 37, 37]].drop opts.optindVal)
          = [[101], [120, 37, 37]] ∧
      (∀ item ∈ [[97], [37]], s.cmd.PassesLengthChecks item) ∧
      (finalState (xargsRun World.quiet opts s)).halted = false ∧
      exitOf (xargsRun World.quiet opts s) ≠ some Exit.forkFailed ∧
      (finalState (xargsRun World.quiet opts s)).argvs
        = [[[101], [120, 97, 97]], [[101], [120, 37, 37]]] := by
    refine ⟨_, _, rfl, rfl, rfl, ?_, by decide +kernel, by decide +kernel, by decide +kernel⟩
    rintro item hitem
    fin_cases hitem
    · exact ⟨rfl, fun fixed hfixed => by fin_cases hfixed; exact ⟨_, rfl⟩⟩
    · exact ⟨rfl, fun fixed hfixed => by fin_cases hfixed; exact ⟨_, rfl⟩⟩
  exact ⟨opts, s, hcreate, (replacerModeRun_substitutes hcreate hmode hoperands
    World.quiet).2.1 hchecks hrunning hfork, hargvs⟩

end Phxargs
