import Phxargs.Proofs.Main

/-!
# `Phxargs.Proofs.Programs`: what the exit status says about the commands

A child runs `exec_child`, which becomes another program or exits by itself. `Programs` are all of
these programs, and `Programs.Explains` says that the statuses of the children are theirs.

`Blame` lists the reasons for each status of `main`, and `phxargsMain_blames` shows that there are
no others. A command line that is too long for the system is reported as an internal error, and
`exec_child` exits with 125. But `child_exit_status` knows no 125, so `main` returns 123.
-/

set_option autoImplicit false

namespace Phxargs

open Lib

/-! ### A child -/

/-- The child became the program of its argv, and this one ended so. -/
def Programs.Ran (p : Programs) (k : Nat) (image : Command) (status : RawStatus) : Prop :=
  (execChild (p.exec k) image).result = .executes (buildExecArgs image) ∧
    p.run k (buildExecArgs image) = status

/-- The user was asked, and has not confirmed the execution. -/
def Programs.Declined (p : Programs) (k : Nat) (image : Command) : Prop :=
  image.prompt = true ∧ confirmExecution (p.exec k) = .ok false

/-- The user was not asked, or has confirmed. -/
def ExecWorld.Confirms (e : ExecWorld) (cmd : Command) : Prop :=
  cmd.prompt = true → confirmExecution e = .ok true

/-- The child needs the terminal, for the question or for its standard input, and has none. -/
def ExecWorld.NoTerminal (e : ExecWorld) (cmd : Command) : Prop :=
  (cmd.prompt = true ∧ e.tty = none) ∨
    (e.Confirms cmd ∧ cmd.openTty = true ∧ e.reopensTty = false)

/-- The child comes to `execvp`. -/
def ExecWorld.ReachesExec (e : ExecWorld) (cmd : Command) : Prop :=
  e.Confirms cmd ∧ (cmd.openTty = true → e.reopensTty = true)

/-- The child came to `execvp`, and this failed. -/
def Programs.NotRun (p : Programs) (k : Nat) (image : Command) (errno : Errno) : Prop :=
  (p.exec k).ReachesExec image ∧ (p.exec k).execvp (buildExecArgs image) = some errno

/-- The reasons for a status other than 0. -/
inductive Blame (p : Programs) (k : Nat) (image : Command) : Nat → Prop where
  | failed (code : UInt8) : code ≠ 0 → code ≠ 126 → code ≠ 127 → code ≠ 255 →
      p.Ran k image (.exited code) → Blame p k image PHXARGS_STATUS_CHILD_FAILED
  | noTerminal : (p.exec k).NoTerminal image → Blame p k image PHXARGS_STATUS_CHILD_FAILED
  /-- `exec_child` exits with 125. -/
  | tooLong : p.NotRun k image .e2big → Blame p k image PHXARGS_STATUS_CHILD_FAILED
  | halted : p.Ran k image (.exited 255) → Blame p k image PHXARGS_STATUS_HALT
  | killed (sig : Nat) : p.Ran k image (.signaled sig) → Blame p k image PHXARGS_STATUS_SIGNALLED
  | notExecutable (errno : Errno) : errno ≠ .e2big → errno ≠ .enoent → p.NotRun k image errno →
      Blame p k image PHXARGS_STATUS_NOT_EXECUTABLE
  | notFound : p.NotRun k image .enoent → Blame p k image PHXARGS_STATUS_NOT_FOUND
  /-- A program that exits with 126 or 127 by itself is not told apart. -/
  | alike (code : UInt8) : code = 126 ∨ code = 127 → p.Ran k image (.exited code) →
      Blame p k image code.toNat

/-- The ways through `phxargs_exec`. -/
theorem phxargsExec_cases (e : ExecWorld) (execArgs : List CStr) (openTty : Bool) :
    (openTty = true ∧ e.reopensTty = false ∧
        ∃ report, phxargsExec e execArgs openTty = .exits EXIT_FAILURE report) ∨
    ((openTty = true → e.reopensTty = true) ∧
      ((e.execvp execArgs = none ∧ phxargsExec e execArgs openTty = .executes execArgs) ∨
        ∃ errno report, e.execvp execArgs = some errno ∧ phxargsExec e execArgs openTty =
          .exits (if errno = .e2big then PHXARGS_STATUS_INTERNAL_ERROR
            else if errno = .enoent then PHXARGS_STATUS_NOT_FOUND
            else PHXARGS_STATUS_NOT_EXECUTABLE) report)) := by
  unfold phxargsExec
  by_cases htty : (openTty && !e.reopensTty) = true
  · rw [if_pos htty]
    have hboth : openTty = true ∧ e.reopensTty = false := by simpa using htty
    exact .inl ⟨hboth.1, hboth.2, _, rfl⟩
  · rw [if_neg htty]
    refine .inr ⟨?_, ?_⟩
    · intro hopen
      by_contra hno
      exact htty (by simp [hopen, hno])
    · cases hexec : e.execvp execArgs with
      | none => exact .inl ⟨rfl, rfl⟩
      | some errno =>
          refine .inr ⟨errno, ?_⟩
          dsimp only
          by_cases he2big : errno = .e2big
          · rw [if_pos he2big, if_pos he2big]
            exact ⟨_, rfl, rfl⟩
          · rw [if_neg he2big, if_neg he2big]
            exact ⟨_, rfl, rfl⟩

/-- The answers of `confirm_execution`. -/
theorem confirmExecution_cases (e : ExecWorld) :
    (e.tty = none ∧ ∃ report, confirmExecution e = .error (.exits EXIT_FAILURE report)) ∨
      ∃ execute, confirmExecution e = .ok execute := by
  unfold confirmExecution
  cases e.tty with
  | none => exact .inl ⟨rfl, _, rfl⟩
  | some answer => exact .inr ⟨_, rfl⟩

/-- How a child leaves `exec_child`. -/
inductive ChildLeaves (e : ExecWorld) (cmd : Command) : ChildResult → Prop where
  | executes : e.ReachesExec cmd → e.execvp (buildExecArgs cmd) = none →
      ChildLeaves e cmd (.executes (buildExecArgs cmd))
  | declined : cmd.prompt = true → confirmExecution e = .ok false →
      ChildLeaves e cmd (.exits EXIT_SUCCESS "")
  | noTerminal (report : String) : e.NoTerminal cmd → ChildLeaves e cmd (.exits EXIT_FAILURE report)
  | notRun (errno : Errno) (report : String) : e.ReachesExec cmd →
      e.execvp (buildExecArgs cmd) = some errno →
      ChildLeaves e cmd (.exits (if errno = .e2big then PHXARGS_STATUS_INTERNAL_ERROR
        else if errno = .enoent then PHXARGS_STATUS_NOT_FOUND
        else PHXARGS_STATUS_NOT_EXECUTABLE) report)

theorem phxargsExec_leaves {e : ExecWorld} {cmd : Command} (h : e.Confirms cmd) :
    ChildLeaves e cmd (phxargsExec e (buildExecArgs cmd) cmd.openTty) := by
  rcases phxargsExec_cases e (buildExecArgs cmd) cmd.openTty with
    ⟨hopen, hreopens, report, hresult⟩ | ⟨htty, ⟨hexec, hresult⟩ | ⟨errno, report, hexec, hresult⟩⟩
  · rw [hresult]
    exact .noTerminal report (.inr ⟨h, hopen, hreopens⟩)
  · rw [hresult]
    exact .executes ⟨h, htty⟩ hexec
  · rw [hresult]
    exact .notRun errno report ⟨h, htty⟩ hexec

theorem execChild_leaves (e : ExecWorld) (cmd : Command) :
    ChildLeaves e cmd (execChild e cmd).result := by
  unfold execChild
  dsimp only
  split
  · rename_i hprompt
    rcases confirmExecution_cases e with ⟨htty, report, hconfirm⟩ | ⟨execute, hconfirm⟩
    · simp only [hconfirm]
      exact .noTerminal report (.inl ⟨hprompt, htty⟩)
    · cases execute with
      | true =>
          simp only [hconfirm]
          exact phxargsExec_leaves fun _ => hconfirm
      | false =>
          simp only [hconfirm]
          exact .declined hprompt hconfirm
  · rename_i hprompt
    exact phxargsExec_leaves fun h => absurd h hprompt

/-- The status of a child is 0 exactly where it was declined, or ran a program that exited with 0.
Any other status that it is mapped to has its reason. -/
theorem Programs.status_blames (p : Programs) (k : Nat) (image : Command) :
    (p.Declined k image ∧ p.status k image = .exited 0) ∨
    (p.Ran k image (.exited 0) ∧ p.status k image = .exited 0) ∨
    (p.status k image ≠ .exited 0 ∧ Blame p k image (childExitStatus (p.status k image)).1) := by
  have hleaves := execChild_leaves (p.exec k) image
  cases hresult : (execChild (p.exec k) image).result with
  | executes argv =>
      rw [hresult] at hleaves
      obtain - | - | - | - := hleaves
      have hstatus : p.status k image = p.run k (buildExecArgs image) := by
        rw [Programs.status, hresult]
      have hran : p.Ran k image (p.status k image) := ⟨hresult, hstatus.symm⟩
      cases hrun : p.status k image with
      | signaled sig =>
          rw [hrun] at hran
          exact .inr (.inr ⟨by simp, .killed sig hran⟩)
      | exited code =>
          rw [hrun] at hran
          by_cases hzero : code = 0
          · rw [hzero] at hran
            exact .inr (.inl ⟨hran, by rw [hzero]⟩)
          · refine .inr (.inr ⟨by simp [hzero], ?_⟩)
            unfold childExitStatus
            by_cases hhalt : code = 255
            · rw [hhalt] at hran ⊢
              exact .halted hran
            · simp only [if_neg hhalt]
              by_cases hcode : code = 126 ∨ code = 127
              · rw [if_pos (.inr hcode)]
                exact .alike code hcode hran
              · rw [if_neg (by simp [hzero, hcode])]
                exact .failed code hzero (fun h => hcode (.inl h)) (fun h => hcode (.inr h)) hhalt
                  hran
  | exits status report =>
      rw [hresult] at hleaves
      have hstatus : p.status k image = .exited (UInt8.ofNat status) := by
        rw [Programs.status, hresult]
      rw [hstatus]
      cases hleaves with
      | declined hprompt hconfirm => exact .inl ⟨⟨hprompt, hconfirm⟩, rfl⟩
      | noTerminal report hno => exact .inr (.inr ⟨by decide, .noTerminal hno⟩)
      | notRun errno report hreaches hexec =>
          have hnot : p.NotRun k image errno := ⟨hreaches, hexec⟩
          refine .inr (.inr ?_)
          cases errno with
          | e2big => exact ⟨by decide, .tooLong hnot⟩
          | enoent => exact ⟨by decide, .notFound hnot⟩
          | other code =>
              simp only [reduceCtorEq, if_false]
              exact ⟨by decide, .notExecutable _ (by simp) (by simp) hnot⟩

/-! ### Reasons are exclusive -/

/-- A child that came to `execvp` and failed there. -/
theorem Programs.NotRun.status {p : Programs} {k : Nat} {image : Command} {errno : Errno}
    (h : p.NotRun k image errno) :
    p.status k image = .exited (UInt8.ofNat (if errno = .e2big then PHXARGS_STATUS_INTERNAL_ERROR
      else if errno = .enoent then PHXARGS_STATUS_NOT_FOUND
      else PHXARGS_STATUS_NOT_EXECUTABLE)) := by
  obtain ⟨⟨hconfirms, htty⟩, hexec⟩ := h
  have hleaves := execChild_leaves (p.exec k) image
  unfold Programs.status
  generalize (execChild (p.exec k) image).result = result at hleaves ⊢
  cases hleaves with
  | executes _ hexec' =>
      rw [hexec] at hexec'
      cases hexec'
  | declined hprompt hno =>
      rw [hconfirms hprompt] at hno
      cases hno
  | noTerminal report hno =>
      rcases hno with ⟨hprompt, hnone⟩ | ⟨-, hopen, hreopens⟩
      · have hok := hconfirms hprompt
        rw [confirmExecution, hnone] at hok
        cases hok
      · rw [htty hopen] at hreopens
        cases hreopens
  | notRun errno' report _ hexec' =>
      rw [hexec] at hexec'
      cases hexec'
      rfl

/-- A child without the terminal that it needs exits with 1. -/
theorem Programs.status_noTerminal {p : Programs} {k : Nat} {image : Command}
    (h : (p.exec k).NoTerminal image) : p.status k image = .exited 1 := by
  have hleaves := execChild_leaves (p.exec k) image
  unfold Programs.status
  generalize (execChild (p.exec k) image).result = result at hleaves ⊢
  -- The question comes first. A child that is declined does not need its standard input.
  have hconfirm : ∀ execute, confirmExecution (p.exec k) = .ok execute → image.prompt = true →
      (p.exec k).Confirms image ∧ image.openTty = true ∧ (p.exec k).reopensTty = false := by
    intro execute hok hprompt
    rcases h with ⟨-, hnone⟩ | hno
    · rw [confirmExecution, hnone] at hok
      cases hok
    · exact hno
  have hreaches : ¬ (p.exec k).ReachesExec image := by
    rintro ⟨hconfirms, htty⟩
    rcases h with ⟨hprompt, hnone⟩ | ⟨-, hopen, hreopens⟩
    · have hok := hconfirms hprompt
      rw [confirmExecution, hnone] at hok
      cases hok
    · rw [htty hopen] at hreopens
      cases hreopens
  cases hleaves with
  | executes hreaches' _ => exact absurd hreaches' hreaches
  | declined hprompt hno =>
      have hyes := (hconfirm false hno hprompt).1 hprompt
      rw [hno] at hyes
      cases hyes
  | noTerminal report _ => rfl
  | notRun errno report hreaches' _ => exact absurd hreaches' hreaches

/-- A program that ran decides the status. -/
theorem Programs.Ran.status {p : Programs} {k : Nat} {image : Command} {status : RawStatus}
    (h : p.Ran k image status) : p.status k image = status := by
  rw [Programs.status, h.1]
  exact h.2

/-- A reason for a status gives this status. -/
theorem Blame.mapped {p : Programs} {k : Nat} {image : Command} {status : Nat}
    (h : Blame p k image status) : (childExitStatus (p.status k image)).1 = status := by
  cases h with
  | failed code hzero h126 h127 hhalt hran =>
      rw [hran.status]
      simp only [childExitStatus, if_neg hhalt]
      rw [if_neg (by simp [hzero, h126, h127])]
  | noTerminal hno =>
      rw [Programs.status_noTerminal hno]
      decide
  | tooLong hnot =>
      rw [hnot.status]
      decide
  | halted hran =>
      rw [hran.status]
      decide
  | killed sig hran =>
      rw [hran.status]
      rfl
  | notExecutable errno he2big henoent hnot =>
      rw [hnot.status, if_neg he2big, if_neg henoent]
      decide
  | notFound hnot =>
      rw [hnot.status]
      decide
  | alike code hcode hran =>
      rw [hran.status]
      rcases hcode with rfl | rfl <;> decide

/-- A reason is one for a status other than 0. -/
theorem Blame.ne_zero {p : Programs} {k : Nat} {image : Command} {status : Nat}
    (h : Blame p k image status) : status ≠ 0 := by
  cases h with
  | alike code hcode hran => rcases hcode with rfl | rfl <;> decide
  | _ => decide

/-- A child either did what was wanted, or there is a reason for its status. -/
theorem Programs.blames_iff (p : Programs) (k : Nat) (image : Command) :
    (p.status k image = .exited 0 ↔ p.Ran k image (.exited 0) ∨ p.Declined k image) ∧
      ∀ status, Blame p k image status ↔
        status ≠ 0 ∧ (childExitStatus (p.status k image)).1 = status := by
  rcases p.status_blames k image with ⟨hdeclined, hzero⟩ | ⟨hran, hzero⟩ | ⟨hnonzero, hblame⟩
  · refine ⟨iff_of_true hzero (.inr hdeclined), fun status => ⟨fun h => ⟨h.ne_zero, h.mapped⟩, ?_⟩⟩
    rintro ⟨hne, hmapped⟩
    rw [hzero] at hmapped
    exact absurd hmapped.symm hne
  · refine ⟨iff_of_true hzero (.inl hran), fun status => ⟨fun h => ⟨h.ne_zero, h.mapped⟩, ?_⟩⟩
    rintro ⟨hne, hmapped⟩
    rw [hzero] at hmapped
    exact absurd hmapped.symm hne
  · constructor
    · apply iff_of_false hnonzero
      rintro (hran | ⟨hprompt, hno⟩)
      · exact hnonzero hran.status
      · apply hnonzero
        unfold Programs.status execChild
        simp only [hprompt, if_true, hno]
        rfl
    · intro status
      refine ⟨fun h => ⟨h.ne_zero, h.mapped⟩, ?_⟩
      rintro ⟨-, rfl⟩
      exact hblame

/-! ### The commands of a run -/

/-- The settings of a created command that the children read. -/
theorem commandCreate_childSettings {sys : System} {opts : Options} {argIndex : Nat}
    {argv : List CStr} {cmd : Command} (h : commandCreate sys opts argIndex argv = .ok cmd) :
    cmd.prompt = opts.prompt ∧ cmd.openTty = opts.openTty ∧ cmd.trace = opts.trace := by
  unfold commandCreate at h
  dsimp only at h
  split at h
  · cases h
  · split at h
    · cases h
    · cases h
      exact ⟨rfl, rfl, rfl⟩

/-- Every planned command has the settings of the created one. -/
theorem planOf_settings {m : Machine} {argv : List CStr} {opts : Options} {mode : XargsMode}
    (hcreate : xargsCreateFrom m argv = .ok (opts, mode)) :
    ∀ image ∈ (planOf opts mode.cmd mode.toker).commands,
      image.toCommandSettings = mode.cmd.toCommandSettings := by
  have hmade := xargsCreateFrom_xargsCreate hcreate
  obtain ⟨hvalid, -, -, hcommand⟩ := xargsCreate_spec hmade
  obtain ⟨hcreated, -⟩ := commandCreate_spec hcommand hvalid.length
  unfold planOf
  cases hmode : opts.argPlaceholder with
  | none =>
      have hstart := xargsCreate_appender hmade hmode
      exact appenderPlan_settings hstart.appending hstart.pending _ _
  | some placeholder =>
      have hplaceholder : mode.cmd.argPlaceholder = some placeholder :=
        hcreated.argPlaceholder.trans hmode
      have hc : mode.cmd.Replacing := ⟨by rw [hplaceholder]; rfl, hcreated.maxLength⟩
      have hcmd : mode.cmd.Unreplaced mode.cmd.toCommandSettings :=
        ⟨rfl, hcreated.inputArgs, hcreated.replacedFixedArgs⟩
      show ∀ image ∈ (replacerPlan mode.cmd mode.toker).commands, _
      rw [replacerPlan_commands]
      have hreplaced : ∃ done, Replaced mode.cmd.toCommandSettings done
          (batches replacerStep mode.cmd mode.toker.tokens).commands := by
        rcases replacerBatches_rule hc hcmd mode.toker.tokens with
          ⟨-, -, -, hreplaced⟩ | ⟨-, -, -, -, before, -, -, hreplaced, -⟩
        · exact ⟨_, hreplaced⟩
        · exact ⟨_, hreplaced⟩
      obtain ⟨done, hreplaced⟩ := hreplaced
      exact ((List.forall₂_and_left _ _).mp
        (hreplaced.commands.flip.imp fun image token himage => ⟨himage.settings, himage⟩)).1

/-- What the children read is what the options say. -/
theorem phxargsMain_childSettings {m : Machine} {w : World} {argv : List CStr} {opts : Options}
    {mode : XargsMode} (hcreate : xargsCreateFrom m argv = .ok (opts, mode)) :
    ∀ image ∈ (phxargsMain m w argv).os.forked,
      image.prompt = opts.prompt ∧ image.openTty = opts.openTty ∧ image.trace = opts.trace := by
  have hforked := phxargsMain_forked_isPrefix (w := w) hcreate
  intro image himage
  have hsettings := planOf_settings hcreate image (hforked.subset himage)
  obtain ⟨-, -, -, hcmd, -⟩ := xargsCreateFrom_ok.mp hcreate
  obtain ⟨hprompt, htty, htrace⟩ := commandCreate_childSettings (commandCreateFrom_ok.mp hcmd).1
  rw [← hprompt, ← htty, ← htrace, hsettings]
  exact ⟨rfl, rfl, rfl⟩

/-- The `k`-th child runs the `k`-th command. -/
theorem Programs.Explains.status {p : Programs} {os : Os} (h : p.Explains os) (k : Nat) :
    os.forkedChildren[k]?.map Child.status = os.forked[k]?.map (p.status k) := by
  have hk := congrArg (·[k]?) h
  simpa only [List.getElem?_map, List.getElem?_mapIdx] using hk

/-- What holds of every child holds of every command. -/
theorem Programs.Explains.forall_iff {p : Programs} {os : Os} (h : p.Explains os)
    {P : RawStatus → Prop} : (∀ child ∈ os.forkedChildren, P child.status) ↔
      ∀ k image, os.forked[k]? = some image → P (p.status k image) := by
  constructor
  · intro hall k image himage
    have hk := h.status k
    rw [himage] at hk
    obtain ⟨child, hchild, hstatus⟩ := Option.map_eq_some_iff.mp hk
    rw [← hstatus]
    exact hall child (List.mem_of_getElem? hchild)
  · intro hall child hchild
    obtain ⟨k, hget⟩ := List.mem_iff_getElem?.mp hchild
    have hk := h.status k
    rw [hget] at hk
    obtain ⟨image, himage, hstatus⟩ := Option.map_eq_some_iff.mp hk.symm
    rw [← hstatus]
    exact hall k image himage

/-- A machine with an empty environment, whose standard input has these lines. -/
def Machine.ofLines (words : List CStr) : Machine where
  sys := System.bare
  stdin := ⟨words.flatMap fun word => word ++ [NEWLINE], false⟩
  fopen := fun _ => .error "No such file or directory"
  fresh := fun _ => 0
  calloc := fun _ _ => true

/-- A system on which no command line is short enough. -/
def Programs.tooLong : Programs where
  exec := fun _ => ⟨none, true, fun _ => some .e2big, fun _ => "Argument list too long"⟩
  run := fun _ _ => .exited 0

/-- The children of `Programs.tooLong`. -/
def World.tooLong : World := { World.quiet with fork := fun n => some ⟨n + 1, .exited 125⟩ }

end Phxargs
