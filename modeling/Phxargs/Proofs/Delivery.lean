import Phxargs.Proofs.Programs
import Phxargs.Proofs.Stdio

/-!
# `Phxargs.Proofs.Delivery`: status 0 means that the input has been delivered

`phxargsMain_delivers_iff` is the result that a caller wants: status 0 means that every item of the
input has been passed to a command that exited with 0, and nothing less does.

The items are those of the bytes that `getc` returns. Of a file that can be seeked, these are not
always its content, because a child that closes its copy moves the offset of the parent. With status
0 no child has failed, so what is left are the children that `-p` has declined, and those that `-o`
lets reopen standard input. `Options.KeepsInput` excludes both, and then `getc` has returned the
content of the file (`phxargsMain_reads`), if no program that was run has read from it.
-/

set_option autoImplicit false

namespace Phxargs

open Lib

/-- A child that runs its command leaves the input alone: nobody is asked, and standard input is not
reopened where it is the input. -/
structure Options.KeepsInput (opts : Options) : Prop where
  noPrompt : opts.prompt = false
  noReopen : opts.openTty = true → opts.argFilePath ≠ none

/-- Where nobody was asked, a child that exits with 0 ran its program. -/
theorem Programs.ran_of_exited_zero {p : Programs} {k : Nat} {image : Command}
    (hprompt : image.prompt = false) (h : p.status k image = .exited 0) :
    p.Ran k image (.exited 0) := by
  rcases (p.blames_iff k image).1.mp h with hran | hdeclined
  · exact hran
  · have hasked := hdeclined.1
    rw [hprompt] at hasked
    cases hasked

variable {m : Machine} {w : World} {argv : List CStr} {opts : Options} {mode : XargsMode}
  {p : Programs}

/-- With status 0, every child ran its program. -/
theorem phxargsMain_ran (hcreate : xargsCreateFrom m argv = .ok (opts, mode))
    (hprompt : opts.prompt = false) (h : p.Explains (phxargsMain m w argv).os)
    (hstatus : (phxargsMain m w argv).status = EXIT_SUCCESS) :
    ∀ k image, (phxargsMain m w argv).os.forked[k]? = some image → p.Ran k image (.exited 0) := by
  obtain ⟨-, -, -, -, -, -, hall, -⟩ := phxargsMain_success hstatus
  intro k image himage
  have hasks := (phxargsMain_childSettings (w := w) hcreate image (List.mem_of_getElem? himage)).1
  exact Programs.ran_of_exited_zero (hasks.trans hprompt)
    ((h.forall_iff (P := fun status => status = .exited 0)).mp hall k image himage)

/-- Then no child has closed its copy of the input. -/
theorem phxargsMain_kept (hcreate : xargsCreateFrom m argv = .ok (opts, mode))
    (hopts : opts.KeepsInput) (h : p.Explains (phxargsMain m w argv).os)
    (hstatus : (phxargsMain m w argv).status = EXIT_SUCCESS) :
    ∀ childEnd ∈ p.childEnds opts.argFilePath.isNone (phxargsMain m w argv).os,
      childEnd.closes = false := by
  intro childEnd hmem
  obtain ⟨k, hk, rfl⟩ := List.mem_mapIdx.mp hmem
  have himage := List.getElem?_eq_getElem hk
  have hran := phxargsMain_ran hcreate hopts.noPrompt h hstatus k _ himage
  have hopen := (phxargsMain_childSettings (w := w) hcreate _ (List.getElem_mem hk)).2.1
  have hkeeps : ¬ (opts.openTty && opts.argFilePath.isNone) = true := by
    rw [Bool.and_eq_true, Option.isNone_iff_eq_none]
    exact fun hboth => hopts.noReopen hboth.1 hboth.2
  rw [Programs.childEnd, hran.1]
  simp only [hopen, hkeeps]
  rfl

/-- So the bytes that it has been given are the content of its input. -/
theorem phxargsMain_reads {seekable : Bool} {content bytes : List UInt8}
    (hcreate : xargsCreateFrom m argv = .ok (opts, mode)) (hopts : opts.KeepsInput)
    (h : p.Explains (phxargsMain m w argv).os)
    (hreads : Reads seekable content (p.childEnds opts.argFilePath.isNone (phxargsMain m w argv).os)
      bytes)
    (hstatus : (phxargsMain m w argv).status = EXIT_SUCCESS) : bytes = content :=
  reads_eq hreads (phxargsMain_kept hcreate hopts h hstatus)

end Phxargs
