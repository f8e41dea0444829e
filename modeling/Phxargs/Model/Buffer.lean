import Phxargs.Lib.Slots
import Phxargs.Model.Util

/-!
# `Phxargs.Model.Buffer`: the token buffer

`buffer.c`. The memory of a buffer has one byte more than `sz`, and `pos` is the next byte to
write. Growing leaves the new bytes as the allocator gives them. Each address behind the first
block becomes part of the buffer once, so one function `fresh` from addresses to bytes stands
for everything that `realloc` can leave there.

The guard of the doubling is not modelled here: it is for a buffer of more than `SIZE_MAX / 2`
bytes. `Phxargs.Model.Memory.Buffer` has it.
-/

set_option autoImplicit false

namespace Phxargs

/-- `struct buffer_s`. -/
structure Buffer where
  buf : List UInt8
  sz : Nat
  pos : Nat
  length_buf : buf.length = sz + 1
  pos_le : pos ≤ sz

/-- `buffer_create`. -/
def bufferCreate (sz : Nat) : Buffer where
  buf := List.replicate (sz + 1) 0
  sz := sz
  pos := 0
  length_buf := List.length_replicate ..
  pos_le := Nat.zero_le _

/-- The growth of `buffer_put`: `phxargs_double_capacity` and `phxargs_realloc`. -/
def Buffer.grow (fresh : Nat → UInt8) (b : Buffer) : Buffer :=
  let sz := if b.sz = 0 then 1 else b.sz * 2
  have hlt : b.sz ≤ sz := by
    show b.sz ≤ if b.sz = 0 then 1 else b.sz * 2
    split <;> omega
  -- The memory has `sz + 1` bytes, so the first new address is `b.sz + 1`.
  { buf := b.buf ++ (List.range (sz - b.sz)).map fun i => fresh (b.sz + 1 + i)
    sz := sz
    pos := b.pos
    length_buf := by
      rw [List.length_append, b.length_buf, List.length_map, List.length_range]
      omega
    pos_le := Nat.le_trans b.pos_le hlt }

/-- A grown buffer has room, also where it was full. -/
theorem Buffer.grow_room (fresh : Nat → UInt8) (b : Buffer) :
    (b.grow fresh).pos < (b.grow fresh).sz := by
  show b.pos < if b.sz = 0 then 1 else b.sz * 2
  have hle := b.pos_le
  split <;> omega

/-- The start of `buffer_put`: afterwards one more byte is free. -/
def Buffer.makeRoom (fresh : Nat → UInt8) (b : Buffer) : { b : Buffer // b.pos < b.sz } :=
  if hfull : b.pos = b.sz then
    ⟨b.grow fresh, b.grow_room fresh⟩
  else
    ⟨b, Nat.lt_of_le_of_ne b.pos_le hfull⟩

/-- `buffer_put`. -/
def bufferPut (fresh : Nat → UInt8) (b : Buffer) (ch : UInt8) : Buffer :=
  let room := b.makeRoom fresh
  { room.val with
    buf := room.val.buf.set room.val.pos ch
    pos := room.val.pos + 1
    length_buf := by rw [List.length_set, room.val.length_buf]
    pos_le := room.property }

/-- `buffer_drop_last`. -/
def bufferDropLast (b : Buffer) : Buffer :=
  if b.pos > 0 then
    { b with pos := b.pos - 1, pos_le := Nat.le_trans (Nat.sub_le _ _) b.pos_le }
  else
    b

/-- `buffer_reset`. -/
def bufferReset (b : Buffer) : Buffer := { b with pos := 0, pos_le := Nat.zero_le _ }

/-! ### The bytes that have been put -/

/-- The bytes before `pos`. -/
def Buffer.contents (b : Buffer) : List UInt8 := b.buf.take b.pos

theorem Buffer.pos_lt_length (b : Buffer) : b.pos < b.buf.length := by
  rw [b.length_buf]
  exact Nat.lt_succ_of_le b.pos_le

theorem Buffer.inUse (b : Buffer) : Lib.InUse b.buf b.pos b.contents :=
  ⟨Nat.le_of_lt b.pos_lt_length, rfl⟩

@[simp] theorem Buffer.length_contents (b : Buffer) : b.contents.length = b.pos := b.inUse.length

/-- Making room keeps the bytes. -/
theorem Buffer.makeRoom_contents (fresh : Nat → UInt8) (b : Buffer) :
    (b.makeRoom fresh).val.contents = b.contents := by
  unfold makeRoom
  split
  · exact (b.inUse.grow _).take_eq
  · rfl

/-- A put appends the byte. -/
@[simp] theorem bufferPut_contents (fresh : Nat → UInt8) (b : Buffer) (ch : UInt8) :
    (bufferPut fresh b ch).contents = b.contents ++ [ch] := by
  rw [← b.makeRoom_contents fresh]
  have hroom := (b.makeRoom fresh).val.inUse
  exact (hroom.store (Buffer.pos_lt_length _) ch).take_eq

/-- Dropping the last byte undoes a put. -/
theorem bufferDropLast_contents {b : Buffer} {item : List UInt8} {ch : UInt8}
    (h : b.contents = item ++ [ch]) : (bufferDropLast b).contents = item := by
  have hpos : 0 < b.pos := by
    rw [← b.length_contents, h, List.length_append]
    exact Nat.succ_pos _
  have hdropped := b.inUse.dropLast
  rw [h, List.dropLast_concat] at hdropped
  rw [bufferDropLast, if_pos hpos]
  exact hdropped.take_eq

@[simp] theorem bufferReset_contents (b : Buffer) : (bufferReset b).contents = [] := rfl

@[simp] theorem bufferReset_pos (b : Buffer) : (bufferReset b).pos = 0 := rfl

/-- The byte in front of `pos`. -/
theorem Buffer.getD_last {b : Buffer} {item : List UInt8} {ch : UInt8}
    (h : b.contents = item ++ [ch]) : b.buf.getD (b.pos - 1) 0 = ch := by
  have hused : Lib.InUse b.buf b.pos (item ++ [ch]) := h ▸ b.inUse
  rw [List.getD_eq_getElem?_getD, hused.getElem?_last, Option.getD_some]

/-- The terminating NUL hides what follows in memory. -/
theorem cstr_append_nul (item rest : List UInt8) : cstr (item ++ 0 :: rest) = cstr item := by
  show (item ++ 0 :: rest).takeWhile (· ≠ 0) = item.takeWhile (· ≠ 0)
  induction item with
  | nil => rfl
  | cons c item ih =>
      by_cases hc : c = 0
      · rw [hc, List.cons_append, List.takeWhile_cons_of_neg (by simp),
          List.takeWhile_cons_of_neg (by simp)]
      · rw [List.cons_append, List.takeWhile_cons_of_pos (by simpa using hc),
          List.takeWhile_cons_of_pos (by simpa using hc), ih]

/-- The C string at the start of a buffer that has been terminated. -/
theorem Buffer.cstr_start {b : Buffer} {item : List UInt8} (h : b.contents = item ++ [0]) :
    cstr b.buf = cstr item := by
  have hused : Lib.InUse b.buf b.pos (item ++ [0]) := h ▸ b.inUse
  rw [hused.eq_append, List.append_assoc, List.singleton_append, cstr_append_nul]

end Phxargs
