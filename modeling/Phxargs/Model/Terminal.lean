import Phxargs.Model.Main

/-!
# `Phxargs.Model.Terminal`: the questions of `-p`

`confirm_execution` of `command.c`, with its calls of `fgetc`. `Phxargs.Model.Exec` only looks at
the first byte of an answer. Here a child takes its answer away from the terminal, and the next
child finds what is left.

`/dev/tty` is in canonical mode: a `read` returns bytes of one line at most, and the end of file is
a line without any byte. Each child opens it for itself, so its `FILE` starts empty, and what it has
read ahead is lost when it closes it. `Programs.Prompt` are children that ask one after the other,
as they do where only one of them is running.
-/

set_option autoImplicit false

namespace Phxargs

/-- What has been typed, line by line. -/
abbrev Tty := List (List UInt8)

/-- Lines that have been typed, each with its newline. -/
def Tty.typed (lines : List (List UInt8)) : Tty := lines.map (· ++ [NEWLINE])

/-- `read`, of at most `block` bytes. When nothing is typed any more, the terminal hangs up. -/
def Tty.read (block : Nat) : Tty → List UInt8 × Tty
  | [] => ([], [])
  | line :: lines =>
      if line.length ≤ block then
        (line, lines)
      else
        -- The rest of a long line is there for the next call.
        (line.take block, line.drop block :: lines)

/-- The `FILE` of the terminal, and the terminal. -/
structure TtyFile where
  buffer : List UInt8
  eof : Bool
  tty : Tty
  deriving DecidableEq, Repr

/-- `fopen`. -/
def TtyFile.open (tty : Tty) : TtyFile := ⟨[], false, tty⟩

/-- `fgetc`, `none` for `EOF`. -/
def fgetc (block : Nat) (file : TtyFile) : Option UInt8 × TtyFile :=
  if file.eof then
    (none, file)
  else
    match file.buffer with
    | b :: buffer => (some b, { file with buffer := buffer })
    | [] =>
        match file.tty.read block with
        | ([], tty) => (none, ⟨[], true, tty⟩)
        | (b :: buffer, tty) => (some b, ⟨buffer, false, tty⟩)

/-- The bytes that can be read. -/
def TtyFile.size (file : TtyFile) : Nat := file.buffer.length + file.tty.flatten.length

/-- The loop of `confirm_execution`, of at most `n` rounds. -/
def skipLine (block : Nat) : Nat → TtyFile → TtyFile
  | 0, file => file
  | n + 1, file =>
      match fgetc block file with
      | (none, file) => file
      | (some ch, file) => if ch = NEWLINE then file else skipLine block n file

/-- `confirm_execution`, on a terminal that can be opened, and the terminal behind it. -/
def confirmExecutionOn (block : Nat) (tty : Tty) : Bool × Tty :=
  match fgetc block (TtyFile.open tty) with
  | (none, file) => (false, file.tty)
  | (some first, file) =>
      -- A first byte that is the newline does not end the loop.
      (first = 121 || first = 89, (skipLine block (file.size + 1) file).tty)

/-- The terminal behind `k` questions. -/
def Tty.behind (block : Nat) (tty : Tty) : Nat → Tty
  | 0 => tty
  | k + 1 => (confirmExecutionOn block (tty.behind block k)).2

/-- The answer to the `k`-th question. -/
def Tty.answer (block : Nat) (tty : Tty) (k : Nat) : Bool :=
  (confirmExecutionOn block (tty.behind block k)).1

/-- The children find this terminal one after the other, and nothing else reads from it. -/
def Programs.Prompt (p : Programs) (block : Nat) (tty : Tty) : Prop :=
  ∀ k, (p.exec k).tty = some (tty.behind block k).flatten

example : (List.range 4).map (Tty.answer 2 (.typed [[121, 101, 115], [110], [], [121], [89]]))
    = [true, false, false, true] := by decide

end Phxargs
