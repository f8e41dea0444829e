import Phxargs.Lib.Simulation
import Phxargs.Model.Buffer
import Phxargs.Model.Memory.Buffer

/-!
# `Phxargs.Proofs.Memory.Buffer`: the growable buffer refines a byte list

`Buffer.Holds` is the invariant of the buffer in memory, together with the list that it stands
for. Each operation of `buffer.c` keeps it and does to the list what its name says. The only way
to stop is the guard of the doubling, in a buffer that is full with more than `SIZE_MAX / 2`
bytes. No access leaves the block.
-/

set_option autoImplicit false

namespace Phxargs.Memory

open Lib

variable {fresh : Nat → UInt8} {b : Buffer} {item : List UInt8}

/-! ### Blocks -/

/-- The size of a block does not wrap, but for the largest `size_t`. -/
theorem sizeSucc_of_lt {n : Nat} (h : n < SIZE_MAX) : sizeSucc n = n + 1 :=
  Nat.mod_eq_of_lt (by omega)

@[simp] theorem length_phxargsCalloc (count : Nat) : (phxargsCalloc count).length = count :=
  List.length_replicate

@[simp] theorem length_phxargsRealloc (block : List UInt8) (size : Nat) :
    (phxargsRealloc fresh block size).length = size := by
  simp [phxargsRealloc]
  omega

/-- A larger block starts with all of the old one. -/
theorem phxargsRealloc_of_le {block : List UInt8} {size : Nat} (h : block.length ≤ size) :
    phxargsRealloc fresh block size =
      block ++ (List.range (size - block.length)).map fun i => fresh (block.length + i) := by
  rw [phxargsRealloc, List.take_of_length_le h]

/-! ### One operation -/

/-- The buffer holds these bytes: they stand before `pos`, `pos` is at most `sz`, and the block has
one byte more than `sz`. -/
structure Buffer.Holds (b : Buffer) (item : List UInt8) : Prop where
  pos_le : b.pos ≤ b.sz
  allocated : b.buf.length = b.sz + 1
  contents : b.buf.take b.pos = item

/-- The guard of the doubling has stopped the program, and at least one byte more than
`SIZE_MAX / 2` had been held then. -/
def StoppedByGuard (held : Nat) (fault : Fault) : Prop :=
  fault = .exit (Exit.failure .internalLimitExceeded) ∧ SIZE_MAX / 2 < held

theorem StoppedByGuard.mono {held held' : Nat} {fault : Fault} (h : StoppedByGuard held fault)
    (hle : held ≤ held') : StoppedByGuard held' fault :=
  ⟨h.1, Nat.lt_of_lt_of_le h.2 hle⟩

theorem simulates_held_le {α β : Type} {R : α → β → Prop} {x : Except Fault α} {y : β}
    {held held' : Nat} (h : Simulates (StoppedByGuard held) R x y) (hle : held ≤ held') :
    Simulates (StoppedByGuard held') R x y :=
  h.imp (fun _ hstop => hstop.mono hle) fun _ hR => hR

namespace Buffer.Holds

theorem pos_lt_length (h : b.Holds item) : b.pos < b.buf.length := by
  rw [h.allocated]
  exact Nat.lt_succ_of_le h.pos_le

theorem inUse (h : b.Holds item) : InUse b.buf b.pos item :=
  ⟨Nat.le_of_lt h.pos_lt_length, h.contents⟩

theorem length (h : b.Holds item) : item.length = b.pos := h.inUse.length

/-- A new buffer is empty. The size of its block must not wrap. -/
theorem create {sz : Nat} (hsz : sz < SIZE_MAX) : (bufferCreate sz).Holds [] where
  pos_le := Nat.zero_le sz
  allocated := by simp [bufferCreate, sizeSucc_of_lt hsz]
  contents := rfl

/-- Behind the largest `size_t` the size wraps, and the block is empty. -/
example : bufferPut (fun _ => 1) (bufferCreate SIZE_MAX) 97 = .error (.outOfBounds 0) := by decide

/-- Growing keeps the bytes, wherever the buffer is full. -/
theorem grow (h : b.Holds item) :
    Simulates (StoppedByGuard b.sz) (fun b' item => b'.Holds item ∧ b'.pos < b'.sz)
      (b.grow fresh) item := by
  have hpos := h.pos_le
  obtain ⟨hguard, hexit⟩ | ⟨sz, hdouble, hlt, hmax⟩ := phxargsDoubleCapacity_cases b.sz
  · rw [Buffer.grow, hexit]
    exact ⟨rfl, hguard⟩
  · simp only [Buffer.grow, hdouble, sizeSucc_of_lt hmax, Simulates.ok_iff]
    have hcopied : InUse (phxargsRealloc fresh b.buf (sz + 1)) b.pos item := by
      rw [phxargsRealloc_of_le (by rw [h.allocated]; omega)]
      exact h.inUse.grow _
    have hroom : b.pos < sz := Nat.lt_of_le_of_lt hpos hlt
    exact ⟨⟨Nat.le_of_lt hroom, length_phxargsRealloc _ _, hcopied.take_eq⟩, hroom⟩

/-- Where the source tests `pos == sz`, a full buffer grows and any other has room already. -/
theorem makeRoom (h : b.Holds item) :
    Simulates (StoppedByGuard item.length) (fun b' item => b'.Holds item ∧ b'.pos < b'.sz)
      (b.makeRoom fresh) item := by
  rw [Buffer.makeRoom, h.length]
  split
  · rename_i hfull
    rw [hfull]
    exact h.grow
  · rename_i hroom
    exact ⟨h, Nat.lt_of_le_of_ne h.pos_le hroom⟩

/-- A put appends the byte, within the block. -/
theorem put (h : b.Holds item) (ch : UInt8) :
    Simulates (StoppedByGuard item.length) Buffer.Holds (bufferPut fresh b ch) (item ++ [ch]) := by
  unfold bufferPut
  refine h.makeRoom.bind fun room hroom => ?_
  have hlt := hroom.1.pos_lt_length
  rw [store, if_pos hlt]
  show Buffer.Holds { room with buf := room.buf.set room.pos ch, pos := room.pos + 1 } (item ++ [ch])
  exact ⟨hroom.2, by rw [List.length_set, hroom.1.allocated], (hroom.1.inUse.store hlt ch).take_eq⟩

/-- Dropping from an empty buffer changes nothing. -/
theorem dropLast (h : b.Holds item) : (bufferDropLast b).Holds item.dropLast := by
  have hpos := h.pos_le
  rw [bufferDropLast]
  split
  · exact ⟨Nat.le_trans (Nat.sub_le b.pos 1) hpos, h.allocated, h.inUse.dropLast.take_eq⟩
  · have hempty : item = [] := List.length_eq_zero_iff.mp (by rw [h.length]; omega)
    rw [hempty] at h ⊢
    exact h

theorem reset (h : b.Holds item) : (bufferReset b).Holds [] where
  pos_le := Nat.zero_le b.sz
  allocated := h.allocated
  contents := rfl

/-! ### Reads -/

/-- The byte in front of `pos`. -/
theorem tokenByte {ch : UInt8} (h : b.Holds (item ++ [ch])) :
    b.tokenByte (b.pos - 1) = .ok ch := by
  rw [Buffer.tokenByte, h.inUse.getElem?_last]

/-- A terminated token is read from the bytes before `pos` only. -/
theorem token {start : Nat} (h : b.Holds (item ++ [0])) (hstart : start ≤ item.length) :
    b.token start = .ok (cstr ((item ++ [0]).drop start)) := by
  have hsplit : b.buf.drop start = item.drop start ++ 0 :: b.buf.drop b.pos := by
    have hparts := h.inUse.eq_append
    rw [List.append_assoc, List.singleton_append] at hparts
    rw [hparts, List.drop_append_of_le_length hstart, ← hparts]
  rw [Buffer.token, hsplit, if_pos (by simp), cstr_append_nul,
    List.drop_append_of_le_length hstart, cstr_append_nul]

end Buffer.Holds

/-! ### Sequences of calls -/

/-- What a call does to a byte list. -/
def BufferCall.onList (item : List UInt8) : BufferCall → List UInt8
  | .put ch => item ++ [ch]
  | .dropLast => item.dropLast
  | .reset => []

/-- The byte list after these calls, from the empty one. -/
def bytesOf (calls : List BufferCall) : List UInt8 := calls.foldl BufferCall.onList []

/-- One call. Only a put can stop. -/
theorem Buffer.Holds.call (h : b.Holds item) (call : BufferCall) :
    Simulates (fun fault => (∃ ch, call = .put ch) ∧ StoppedByGuard item.length fault)
      Buffer.Holds (b.call fresh call) (call.onList item) := by
  cases call with
  | put ch => exact (h.put ch).imp (fun _ hstop => ⟨⟨ch, rfl⟩, hstop⟩) fun _ hb => hb
  | dropLast => exact h.dropLast
  | reset => exact h.reset

/-- All calls of a sequence. -/
theorem Buffer.run_holds (fresh : Nat → UInt8) {sz : Nat} (hsz : sz < SIZE_MAX)
    (calls : List BufferCall) :
    Simulates (fun fault => ∃ before ch after, calls = before ++ .put ch :: after ∧
        StoppedByGuard (bytesOf before).length fault)
      Buffer.Holds ((bufferCreate sz).run fresh calls) (bytesOf calls) := by
  refine Simulates.foldlM calls ?_ (Buffer.Holds.create hsz)
  intro before call after b' hsplit hb'
  refine (hb'.call call).imp ?_ fun _ hb => hb
  intro fault hfault
  obtain ⟨⟨ch, hput⟩, hstop⟩ := hfault
  exact ⟨before, ch, after, hput ▸ hsplit, hstop⟩

end Phxargs.Memory
