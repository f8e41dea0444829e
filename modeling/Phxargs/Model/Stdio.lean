import Mathlib

/-!
# `Phxargs.Model.Stdio`: the input file, shared by the parent and its children

The tokenizers read with `getc` from a `FILE` over a seekable input, a redirected standard
input or the file of `-a`. `command_execute_async` forks while the `FILE` may hold bytes that
have been read ahead. The child has its own copy of the `FILE`, but both copies have one
open file description, with one offset.

`exec_child` ends in `execvp`, which takes the copy away, or in `exit`, which closes it: then
the shared offset is set to the logical position of the child's copy. Under `-o`, the `freopen`
in front of `execvp` closes the copy too, if the input is standard input: it closes what it
reopens. A child closes its copy at any time after the fork. The program that a child becomes has the
open file description too, and it is taken to leave it alone.

`InputStep` are the steps of this system. The parent is the client of `getc`: `due` says how
many commands it has executed by the time it asks for the next byte, given the bytes that it
has been given.
-/

set_option autoImplicit false

namespace Phxargs

/-- A `FILE` that is read: the bytes that were read ahead, the position in the file of the
next byte, and the end-of-file indicator. -/
structure Stream where
  buffer : List UInt8
  position : Nat
  eof : Bool
  deriving DecidableEq, Repr

/-- A byte of the file and its position. -/
abbrev FileByte := Nat × UInt8

/-- What a call of `getc` does: its answer, `none` for `EOF`, the `FILE` after it, and the
shared offset after it. An empty buffer is refilled with at most `block` bytes from the
shared offset on. -/
def getc (content : List UInt8) (block offset : Nat) (file : Stream) :
    Option FileByte × Stream × Nat :=
  -- The indicator is sticky: after an `EOF` the file is not read again.
  if file.eof then
    (none, file, offset)
  else
    match file.buffer with
    | b :: buffer =>
        (some (file.position, b), ⟨buffer, file.position + 1, false⟩, offset)
    | [] =>
        match (content.drop offset).take block with
        | [] => (none, ⟨[], offset, true⟩, offset)
        | b :: buffer =>
            (some (offset, b), ⟨buffer, offset + 1, false⟩, offset + (buffer.length + 1))

/-- How `exec_child` and `phxargs_exec` end. -/
inductive ChildEnd where
  /-- `execvp` succeeds. -/
  | executed
  /-- `execvp` succeeds, behind a `freopen` of the input. -/
  | reopened
  /-- `execvp` fails, or there is no terminal. -/
  | notExecuted
  /-- The prompt is declined. -/
  | declined
  deriving DecidableEq, Repr

/-- The child closes its copy, once: in `freopen`, and else in `exit`. -/
def ChildEnd.closes : ChildEnd → Bool
  | .executed => false
  | .reopened => true
  | .notExecuted => true
  | .declined => true

/-- The state of the input: the shared offset, the `FILE` of the parent, the copies of the
children that are going to close theirs, the number of forks, and the answers of the parent's
calls of `getc`. -/
structure InputState where
  offset : Nat
  parent : Stream
  children : List Stream
  forks : Nat
  answers : List (Option FileByte)
  deriving DecidableEq

/-- The start of the program. -/
def InputState.init : InputState := ⟨0, ⟨[], 0, false⟩, [], 0, []⟩

/-- The bytes that the parent has been given. -/
def InputState.bytes (s : InputState) : List UInt8 := s.answers.filterMap fun a => a.map Prod.snd

/-- The steps of the parent and of its children. -/
inductive InputStep where
  /-- The parent calls `getc`. -/
  | getc
  /-- The parent forks a child that will end in this way. -/
  | fork (childEnd : ChildEnd)
  /-- A child closes its copy. -/
  | close (child : Nat)
  deriving DecidableEq, Repr

/-- The end of a child that is forked. -/
def InputStep.childEnd? : InputStep → Option ChildEnd
  | .fork childEnd => some childEnd
  | _ => none

/-- A step, `none` where it cannot happen. The parent asks for the next byte when it has made
the forks that are due, and after the end of the file it forks as it likes. -/
def InputState.step (content : List UInt8) (block : Nat) (due : List UInt8 → Nat)
    (s : InputState) : InputStep → Option InputState
  | .getc =>
      -- The parent is sequential: it makes the forks of the bytes it has before it asks for more.
      if s.parent.eof = false ∧ s.forks ≠ due s.bytes then
        none
      else
        let answer := Phxargs.getc content block s.offset s.parent
        some { s with
          answers := s.answers ++ [answer.1]
          parent := answer.2.1
          offset := answer.2.2 }
  | .fork childEnd =>
      if s.parent.eof = false ∧ s.forks ≥ due s.bytes then
        none
      else
        some { s with
          forks := s.forks + 1
          -- The copy is made at the fork, with what the parent has read ahead.
          children := if childEnd.closes then s.children ++ [s.parent] else s.children }
  | .close child =>
      match s.children[child]? with
      | none => none
      | some file => some { s with
          -- Closing the copy seeks back over the bytes that it has not used.
          offset := file.position
          children := s.children.eraseIdx child }

/-- A sequence of steps, `none` if one of them cannot happen. -/
def InputState.run (content : List UInt8) (block : Nat) (due : List UInt8 → Nat) :
    InputState → List InputStep → Option InputState
  | s, [] => some s
  | s, step :: steps =>
      match s.step content block due step with
      | none => none
      | some t => t.run content block due steps

/-- These are the bytes that a run over a seekable input with this content is given, where the
children end like this. What the parent has not asked for is left as it is in the file. -/
def ReadsFile (content : List UInt8) (ends : List ChildEnd) (bytes : List UInt8) : Prop :=
  ∃ (block : Nat) (due : List UInt8 → Nat) (steps : List InputStep) (s : InputState), 0 < block ∧
    InputState.init.run content block due steps = some s ∧
    steps.filterMap InputStep.childEnd? <+: ends ∧
    bytes = s.bytes ++ if s.parent.eof then [] else content.drop s.answers.length

/-- The bytes that a run is given. A pipe or a terminal cannot be seeked, and there a child that
closes its copy leaves the parent alone. -/
def Reads (seekable : Bool) (content : List UInt8) (ends : List ChildEnd) (bytes : List UInt8) : Prop :=
  if seekable then ReadsFile content ends bytes else bytes = content

end Phxargs
