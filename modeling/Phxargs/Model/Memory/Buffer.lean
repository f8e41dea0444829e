import Phxargs.Model.Tokenizer

/-!
# `Phxargs.Model.Memory.Buffer`: the token buffer in memory

`buffer.c`, and what `tokenizer.c` adds to it. Here the allocated block, `sz` and `pos` are three
separate data, and nothing but the code keeps them together: an access outside of the block is a
fault, and the guard of the doubling exits. `Phxargs.Model.Buffer` is the same buffer with its
invariant as part of the type.

Growing leaves the new bytes as the allocator gives them. No call makes a block smaller, so each
address behind the first block is new once, and `fresh` says what stands there.
-/

set_option autoImplicit false

namespace Phxargs.Memory

/-- What ends a run over memory: an exit of the program, or an access to an index that is not
allocated. -/
inductive Fault where
  | exit (e : Exit)
  | outOfBounds (index : Nat)
  deriving DecidableEq

/-! ### Blocks -/

/-- `n + 1` as a `size_t`. -/
def sizeSucc (n : Nat) : Nat := (n + 1) % (SIZE_MAX + 1)

/-- `phxargs_calloc`, of bytes. -/
def phxargsCalloc (count : Nat) : List UInt8 := List.replicate count 0

/-- `phxargs_realloc`. -/
def phxargsRealloc (fresh : Nat → UInt8) (block : List UInt8) (size : Nat) : List UInt8 :=
  block.take size ++ (List.range (size - block.length)).map fun i => fresh (block.length + i)

/-- A write into a block. -/
def store (block : List UInt8) (index : Nat) (ch : UInt8) : Except Fault (List UInt8) :=
  if index < block.length then .ok (block.set index ch) else .error (.outOfBounds index)

/-! ### `buffer.c` -/

/-- `struct buffer_s`. -/
structure Buffer where
  buf : List UInt8
  sz : Nat
  pos : Nat
  deriving DecidableEq

/-- `buffer_create`. -/
def bufferCreate (sz : Nat) : Buffer where
  buf := phxargsCalloc (sizeSucc sz)
  sz := sz
  pos := 0

/-- The growth of `buffer_put`. -/
def Buffer.grow (fresh : Nat → UInt8) (b : Buffer) : Except Fault Buffer :=
  match phxargsDoubleCapacity b.sz with
  | .error e => .error (.exit e)
  | .ok sz => .ok { b with buf := phxargsRealloc fresh b.buf (sizeSucc sz), sz := sz }

/-- The start of `buffer_put`. The test does not count the spare byte of the block. -/
def Buffer.makeRoom (fresh : Nat → UInt8) (b : Buffer) : Except Fault Buffer :=
  if b.pos = b.sz then b.grow fresh else .ok b

/-- `buffer_put`. -/
def bufferPut (fresh : Nat → UInt8) (b : Buffer) (ch : UInt8) : Except Fault Buffer := do
  let b ← b.makeRoom fresh
  let buf ← store b.buf b.pos ch
  return { b with buf := buf, pos := b.pos + 1 }

/-- `buffer_drop_last`. -/
def bufferDropLast (b : Buffer) : Buffer := if b.pos > 0 then { b with pos := b.pos - 1 } else b

/-- `buffer_reset`. -/
def bufferReset (b : Buffer) : Buffer := { b with pos := 0 }

/-! ### Sequences of calls -/

/-- A call that changes a buffer. -/
inductive BufferCall where
  | put (ch : UInt8)
  | dropLast
  | reset
  deriving DecidableEq, Repr

/-- One call. -/
def Buffer.call (fresh : Nat → UInt8) (b : Buffer) : BufferCall → Except Fault Buffer
  | .put ch => bufferPut fresh b ch
  | .dropLast => .ok (bufferDropLast b)
  | .reset => .ok (bufferReset b)

/-- A sequence of calls. -/
def Buffer.run (fresh : Nat → UInt8) (b : Buffer) (calls : List BufferCall) :
    Except Fault Buffer :=
  calls.foldlM (Buffer.call fresh) b

/-! ### `tokenizer.c` -/

/-- The byte at `tokenizer_token`. -/
def Buffer.tokenByte (b : Buffer) (pos : Nat) : Except Fault UInt8 :=
  match b.buf[pos]? with
  | some ch => .ok ch
  | none => .error (.outOfBounds pos)

/-- The C string at `tokenizer_token`. Without a NUL behind `pos`, reading it leaves the block. -/
def Buffer.token (b : Buffer) (pos : Nat) : Except Fault CStr :=
  if 0 ∈ b.buf.drop pos then .ok (cstr (b.buf.drop pos)) else .error (.outOfBounds b.buf.length)

/-- What a call of `next_token` returns and leaves: the token, the number of `on_input_boundary`
calls, the tokenizer and the rest of the input. -/
structure Next (τ : Type) where
  token : Option CStr
  boundaries : Nat
  toker : τ
  rest : List UInt8

/-- The answers of a tokenizer: the tokens with their `on_input_boundary` calls, and then the call
that returned `NULL`, with its own calls and the error that it left, or the fault. -/
structure Answers where
  tokens : List (CStr × Nat)
  last : Except Fault (Nat × TokenizerError)

/-- The answers of at most `n` calls of `tokenizer_next_token`, up to the first `NULL`. A
tokenizer brings its `next_token`. -/
def tokensFrom {τ : Type} (nextToken : τ → List UInt8 → Except Fault (Next τ))
    (getError : τ → TokenizerError) : Nat → τ → List UInt8 → Answers
  | 0, _, _ => ⟨[], .ok (0, .none)⟩
  | n + 1, t, bytes =>
      match nextToken t bytes with
      | .error fault => ⟨[], .error fault⟩
      | .ok answer =>
          match answer.token with
          | none => ⟨[], .ok (answer.boundaries, getError answer.toker)⟩
          | some arg =>
              let later := tokensFrom nextToken getError n answer.toker answer.rest
              { later with tokens := (arg, answer.boundaries) :: later.tokens }

end Phxargs.Memory
