import Phxargs.Model.OnHeap.Main
import Phxargs.Proofs.Memory.Buffer
import Phxargs.Proofs.OnHeap.Command

/-!
# `Phxargs.Proofs.OnHeap.Parts`: the blocks of the tokenizer and of the pool

The assertions and the specifications for the objects beside the command: the token buffer, the two
tokenizers around it, and the pool with its table. Their blocks move where they grow, so the
specifications say again that nobody keeps a pointer to the old ones.
-/

set_option autoImplicit false

namespace Phxargs.OnHeap

open Lib
open scoped Pointwise

variable {γ δ : Type}

/-! ### `buffer.c` -/

/-- A buffer: its structure and its bytes. -/
def bufferAt (p : Ptr) (b : Buffer) : Assertion Cell :=
  ⋃ block : Ptr, pointsTo p (.buffer ⟨block, b.sz, b.pos⟩) + pointsTo block (.bytes b.buf)

theorem bufferAt_of {p block : Ptr} {b : Buffer} {bytes : List UInt8} {sz pos : Nat}
    (hbytes : bytes = b.buf) (hsz : sz = b.sz) (hpos : pos = b.pos) :
    pointsTo p (.buffer ⟨block, sz, pos⟩) + pointsTo block (.bytes bytes) ⊆ bufferAt p b := by
  rw [hbytes, hsz, hpos]
  exact Set.subset_iUnion (fun block : Ptr =>
    pointsTo p (Cell.buffer ⟨block, b.sz, b.pos⟩) + pointsTo block (Cell.bytes b.buf)) block

/-- A new buffer. The size of its block must not wrap. -/
theorem implements_bufferCreate {sz : Nat} (hsz : sz < SIZE_MAX) :
    Implements 0 (bufferCreate sz) (.ok ()) fun _ p => bufferAt p (Phxargs.bufferCreate sz) := by
  unfold bufferCreate
  refine Implements.malloc fun p => ?_
  refine Implements.malloc fun block => ?_
  rw [add_left_comm, Memory.sizeSucc_of_lt hsz]
  refine Implements.store (Implements.pure ?_)
  rw [add_zero]
  exact bufferAt_of rfl rfl rfl

/-- Growing moves the bytes to a larger block. -/
theorem implements_growBuffer (fresh : Nat → UInt8) (p block : Ptr) (b : Buffer) {sz : Nat}
    (hdouble : phxargsDoubleCapacity b.sz = .ok sz) :
    Implements (pointsTo p (.buffer ⟨block, b.sz, b.pos⟩) + pointsTo block (.bytes b.buf))
      (do
        let block' ← reallocBytes fresh block (Memory.sizeSucc sz)
        store p (.buffer ⟨block', sz, b.pos⟩))
      (.ok (b.grow fresh)) fun b _ => bufferAt p b := by
  have hsz : (b.grow fresh).sz = sz := by
    show (if b.sz = 0 then 1 else b.sz * 2) = sz
    unfold phxargsDoubleCapacity at hdouble
    split at hdouble
    · rw [if_pos ‹_›]
      exact Except.ok.inj hdouble
    · rw [if_neg ‹_›]
      split at hdouble
      · cases hdouble
      · exact Except.ok.inj hdouble
  obtain ⟨hlt, hmax⟩ : b.sz < sz ∧ sz < SIZE_MAX := by
    rcases phxargsDoubleCapacity_cases b.sz with ⟨-, hexit⟩ | ⟨larger, hok, hlarger, hmax⟩
    · rw [hexit] at hdouble
      cases hdouble
    · rw [hok] at hdouble
      cases hdouble
      exact ⟨hlarger, hmax⟩
  have hbytes : Memory.phxargsRealloc fresh b.buf (Memory.sizeSucc sz) = (b.grow fresh).buf := by
    rw [Memory.sizeSucc_of_lt hmax, Memory.phxargsRealloc_of_le (by rw [b.length_buf]; omega),
      b.length_buf, Nat.add_sub_add_right, ← hsz]
    rfl
  unfold reallocBytes
  simp only [bind_assoc]
  refine Implements.loadAs ((holds_pointsTo _ _).add_left _) rfl ?_
  rw [add_comm]
  refine Implements.free (Implements.malloc fun block' => ?_)
  rw [hbytes, add_comm]
  exact Implements.store_last (bufferAt_of rfl hsz.symm rfl)

/-- A write within the block. -/
theorem implements_storeByte (block : Ptr) {bytes : List UInt8} {i : Nat} (hi : i < bytes.length)
    (ch : UInt8) :
    Implements (pointsTo block (.bytes bytes)) (storeBytes block i [ch]) (.ok ())
      fun _ _ => pointsTo block (.bytes (bytes.set i ch)) := by
  unfold storeBytes
  refine Implements.loadAs (holds_pointsTo _ _) rfl ?_
  rw [List.length_singleton, if_pos (show i + 1 ≤ bytes.length from hi),
    List.set_eq_take_append_cons_drop, if_pos hi]
  exact Implements.store_spec _ _ _

/-- A put into a buffer that has room. -/
theorem implements_bufferStore (p : Ptr) {b : Buffer} (hroom : b.pos < b.sz) (ch : UInt8) :
    Implements (bufferAt p b)
      (do
        let b ← loadAs Cell.asBuffer p
        storeBytes b.buf b.pos [ch]
        store p (.buffer { b with pos := b.pos + 1 }) : M Unit)
      (.ok { b with
        buf := b.buf.set b.pos ch
        pos := b.pos + 1
        length_buf := by rw [List.length_set, b.length_buf]
        pos_le := hroom }) fun b _ => bufferAt p b := by
  refine Implements.iUnion fun block => ?_
  refine Implements.loadAs ((holds_pointsTo _ _).add_right _) rfl ?_
  rw [add_comm]
  refine (implements_storeByte block b.pos_lt_length ch).callOk fun _ => ?_
  rw [add_comm]
  exact Implements.store_last (bufferAt_of rfl rfl rfl)

theorem implements_bufferPut (fresh : Nat → UInt8) (p : Ptr) (b : Buffer) (ch : UInt8) :
    Implements (bufferAt p b) (bufferPut fresh p ch) (b.put fresh ch) fun b _ => bufferAt p b := by
  have hput : ∀ room : { b : Buffer // b.pos < b.sz }, b.makeRoom fresh = room →
      Implements (bufferAt p room.val)
        (do
          let b ← loadAs Cell.asBuffer p
          storeBytes b.buf b.pos [ch]
          store p (.buffer { b with pos := b.pos + 1 }) : M Unit)
        (.ok (Phxargs.bufferPut fresh b ch)) fun b _ => bufferAt p b := by
    intro room hroom
    have hstore := implements_bufferStore p room.property ch
    rw [← hroom] at hstore ⊢
    exact hstore
  refine Implements.iUnion fun block => ?_
  unfold bufferPut bufferMakeRoom Buffer.put
  rw [bind_assoc]
  refine Implements.loadAs ((holds_pointsTo _ _).add_right _) rfl ?_
  by_cases hfull : b.pos = b.sz
  · simp only [hfull, if_true]
    split
    · rename_i e hexit
      rw [bind_assoc]
      exact Implements.orExit_error hexit
    · rename_i sz hdouble
      rw [bind_assoc]
      refine Implements.orExit_ok hdouble ?_
      have hgrow := implements_growBuffer fresh p block b hdouble
      rw [hfull] at hgrow
      refine hgrow.seqOk rfl fun _ => ?_
      exact hput ⟨b.grow fresh, b.grow_room fresh⟩ (dif_pos hfull)
  · simp only [if_neg hfull]
    exact Implements.of_subset _ (bufferAt_of rfl rfl rfl)
      (hput ⟨b, Nat.lt_of_le_of_ne b.pos_le hfull⟩ (dif_neg hfull))

theorem implements_bufferDropLast (p : Ptr) (b : Buffer) :
    Implements (bufferAt p b) (bufferDropLast p) (.ok (Phxargs.bufferDropLast b))
      fun b _ => bufferAt p b := by
  refine Implements.iUnion fun block => ?_
  unfold bufferDropLast Phxargs.bufferDropLast
  refine Implements.loadAs ((holds_pointsTo _ _).add_right _) rfl ?_
  dsimp only
  split
  · exact Implements.store_last (bufferAt_of rfl rfl rfl)
  · exact Implements.pure (bufferAt_of rfl rfl rfl)

theorem implements_bufferReset (p : Ptr) (b : Buffer) :
    Implements (bufferAt p b) (bufferReset p) (.ok (Phxargs.bufferReset b))
      fun b _ => bufferAt p b := by
  refine Implements.iUnion fun block => ?_
  unfold bufferReset
  refine Implements.loadAs ((holds_pointsTo _ _).add_right _) rfl ?_
  exact Implements.store_last (bufferAt_of rfl rfl rfl)

theorem implements_bufferDestroy (p : Ptr) (b : Buffer) :
    Implements (bufferAt p b) (bufferDestroy p) (.ok ()) fun _ _ => 0 := by
  refine Implements.iUnion fun block => ?_
  unfold bufferDestroy
  refine Implements.loadAs ((holds_pointsTo _ _).add_right _) rfl ?_
  rw [add_comm]
  refine Implements.free ?_
  rw [← add_zero (pointsTo p _)]
  exact Implements.free_last (Set.Subset.refl _)

/-! ### `tokenizer.c` -/

/-- The structure of a tokenizer's own. Both have the pointer to the command. -/
def tokenizerImplAt (impl base cmd : Ptr) : TokenizerOps → Assertion Cell
  | .space => ⋃ (marker : Option Ptr) (text : Option CStr),
      pointsTo impl (.spaceTokenizer ⟨some base, marker, cmd⟩) +
        pointsToOrNull marker (text.map .string)
  | .delim => ⋃ d : UInt8, pointsTo impl (.delimTokenizer ⟨some base, d, cmd⟩)

/-- A tokenizer: its structure, its buffer and its own part. -/
def tokenizerAt (p cmd : Ptr) (b : Buffer) : Assertion Cell :=
  ⋃ t : TokenizerBlock, pointsTo p (.tokenizer t) + (bufferAt t.buf b + tokenizerImplAt t.impl p cmd t.ops)

theorem tokenizerAt_of {p cmd : Ptr} {b : Buffer} (t : TokenizerBlock) :
    pointsTo p (.tokenizer t) + (bufferAt t.buf b + tokenizerImplAt t.impl p cmd t.ops)
      ⊆ tokenizerAt p cmd b :=
  Set.subset_iUnion (fun t : TokenizerBlock =>
    pointsTo p (Cell.tokenizer t) + (bufferAt t.buf b + tokenizerImplAt t.impl p cmd t.ops)) t

theorem implements_tokenizerCreate (ops : TokenizerOps) {sz : Nat} (hsz : sz < SIZE_MAX) (impl : Ptr) :
    Implements 0 (tokenizerCreate ops sz impl) (.ok ()) fun _ p =>
      ⋃ buf : Ptr, pointsTo p (.tokenizer ⟨ops, buf, impl, .none⟩) +
        bufferAt buf (Phxargs.bufferCreate sz) := by
  unfold tokenizerCreate
  refine Implements.malloc fun p => ?_
  rw [add_comm]
  refine (implements_bufferCreate hsz).callOk fun buf => ?_
  rw [add_comm]
  refine Implements.store (Implements.pure ?_)
  exact Set.subset_iUnion (fun buf : Ptr => pointsTo p (Cell.tokenizer ⟨ops, buf, impl, .none⟩) +
    bufferAt buf (Phxargs.bufferCreate sz)) buf

theorem implements_spaceTokenizerCreate {sz : Nat} (hsz : sz < SIZE_MAX) (marker : Option CStr)
    (cmd : Ptr) :
    Implements 0 (spaceTokenizerCreate sz marker cmd) (.ok ())
      fun _ p => tokenizerAt p cmd (Phxargs.bufferCreate sz) := by
  unfold spaceTokenizerCreate
  refine Implements.malloc fun impl => ?_
  refine implements_phxargsStrdupOrNull marker fun text _ => ?_
  rw [add_zero, add_comm]
  refine Implements.store ?_
  rw [← zero_add (pointsTo impl _ + _)]
  refine (implements_tokenizerCreate .space hsz impl).callOk fun p => ?_
  refine Implements.iUnion_add fun buf => ?_
  refine Implements.rearrange (pointsTo impl (.spaceTokenizer ⟨none, text, cmd⟩) +
    (pointsTo p (.tokenizer ⟨.space, buf, impl, .none⟩) +
      (bufferAt buf (Phxargs.bufferCreate sz) + pointsToOrNull text (marker.map .string))))
    (by ac_rfl) ?_
  refine Implements.store ?_
  refine Implements.loadAs (((holds_pointsTo _ _).add_right _).add_left _) rfl ?_
  refine Implements.rearrange (bufferAt buf (Phxargs.bufferCreate sz) +
    (pointsTo p (.tokenizer ⟨.space, buf, impl, .none⟩) +
      (pointsTo impl (.spaceTokenizer ⟨some p, text, cmd⟩) +
        pointsToOrNull text (marker.map .string)))) (by ac_rfl) ?_
  -- A reset of a new buffer changes nothing.
  have hreset : Phxargs.bufferReset (Phxargs.bufferCreate sz) = Phxargs.bufferCreate sz := rfl
  refine (implements_bufferReset buf _).callOk fun _ => Implements.pure ?_
  rw [hreset]
  refine Set.Subset.trans ?_ (tokenizerAt_of ⟨.space, buf, impl, .none⟩)
  rw [add_left_comm]
  refine Set.add_subset_add_left (Set.add_subset_add_left ?_)
  exact Set.subset_iUnion_of_subset text (Set.subset_iUnion_of_subset marker (Set.Subset.refl _))

theorem implements_delimTokenizerCreate {sz : Nat} (hsz : sz < SIZE_MAX) (d : UInt8) (cmd : Ptr) :
    Implements 0 (delimTokenizerCreate sz d cmd) (.ok ())
      fun _ p => tokenizerAt p cmd (Phxargs.bufferCreate sz) := by
  unfold delimTokenizerCreate
  refine Implements.malloc fun impl => ?_
  refine Implements.store ?_
  rw [add_comm]
  refine (implements_tokenizerCreate .delim hsz impl).callOk fun p => ?_
  rw [add_comm, Set.add_iUnion]
  refine Implements.iUnion fun buf => ?_
  refine Implements.store (Implements.pure ?_)
  refine Set.Subset.trans ?_ (tokenizerAt_of ⟨.delim, buf, impl, .none⟩)
  rw [add_comm, add_assoc]
  refine Set.add_subset_add_left (Set.add_subset_add_left ?_)
  exact Set.subset_iUnion (fun d : UInt8 => pointsTo impl (Cell.delimTokenizer ⟨some p, d, cmd⟩)) d

theorem implements_tokenizerDestroyImpl (ops : TokenizerOps) (impl base cmd : Ptr) :
    Implements (tokenizerImplAt impl base cmd ops) (tokenizerDestroyImpl ops impl) (.ok ())
      fun _ _ => 0 := by
  cases ops with
  | space =>
      refine Implements.iUnion fun marker => Implements.iUnion fun text => ?_
      refine Implements.loadAs ((holds_pointsTo _ _).add_right _) rfl ?_
      rw [add_comm]
      refine (Implements.freeOrNull_spec _ _).callOk fun _ => ?_
      rw [zero_add]
      exact Implements.free_spec _ _
  | delim => exact Implements.iUnion fun d => Implements.free_spec _ _

theorem implements_tokenizerDestroy (p cmd : Ptr) (b : Buffer) :
    Implements (tokenizerAt p cmd b) (tokenizerDestroy p) (.ok ()) fun _ _ => 0 := by
  refine Implements.iUnion fun t => ?_
  unfold tokenizerDestroy
  refine Implements.loadAs ((holds_pointsTo _ _).add_right _) rfl ?_
  refine Implements.rearrange (tokenizerImplAt t.impl p cmd t.ops +
    (bufferAt t.buf b + (pointsTo p (.tokenizer t) + 0))) (by rw [add_zero]; ac_rfl) ?_
  refine (implements_tokenizerDestroyImpl _ _ _ _).callOk fun _ => ?_
  rw [zero_add]
  refine (implements_bufferDestroy _ _).callOk fun _ => ?_
  rw [zero_add]
  exact Implements.free_last (Set.Subset.refl _)

/-- The calls of a tokenizer are calls on its buffer. -/
theorem implements_onBuffer (p cmd : Ptr) {b : Buffer} {call : Ptr → M Unit} {r : Except Exit Buffer}
    (h : ∀ buf, Implements (bufferAt buf b) (call buf) r fun b _ => bufferAt buf b) :
    Implements (tokenizerAt p cmd b) (do call (← loadAs Cell.asTokenizer p).buf) r
      fun b _ => tokenizerAt p cmd b := by
  refine Implements.iUnion fun t => ?_
  refine Implements.loadAs ((holds_pointsTo _ _).add_right _) rfl ?_
  rw [add_left_comm]
  refine ((h t.buf).frame _).imp fun b _ _ => ?_
  rw [add_left_comm]
  exact tokenizerAt_of t

/-- `on_input_boundary` is called with the command of the mode. -/
theorem implements_boundaryCtx (t : TokenizerBlock) (base cmd : Ptr) :
    Implements (tokenizerImplAt t.impl base cmd t.ops) (boundaryCtx t) (.ok ())
      fun _ ctx => withFact (ctx = cmd) (tokenizerImplAt t.impl base cmd t.ops) := by
  unfold boundaryCtx
  cases t.ops with
  | space =>
      refine Implements.iUnion fun marker => Implements.iUnion fun text => ?_
      refine Implements.loadAs ((holds_pointsTo _ _).add_right _) rfl (Implements.pure ?_)
      refine Set.Subset.trans ?_ (subset_withFact rfl _)
      exact Set.subset_iUnion_of_subset marker (Set.subset_iUnion_of_subset text (Set.Subset.refl _))
  | delim =>
      refine Implements.iUnion fun d => ?_
      refine Implements.loadAs (holds_pointsTo _ _) rfl (Implements.pure ?_)
      refine Set.Subset.trans ?_ (subset_withFact rfl _)
      exact Set.subset_iUnion_of_subset d (Set.Subset.refl _)

theorem implements_inputBoundary (p q : Ptr) (b : Buffer) (cmd : Command) :
    Implements (commandAt q cmd + tokenizerAt p q b)
      (do commandIncrementLineCount (← boundaryCtx (← loadAs Cell.asTokenizer p)))
      (.ok (Phxargs.commandIncrementLineCount cmd 1))
      fun cmd _ => commandAt q cmd + tokenizerAt p q b := by
  rw [add_comm]
  refine Implements.iUnion_add fun t => ?_
  refine Implements.loadAs (((holds_pointsTo _ _).add_right _).add_right _) rfl ?_
  refine Implements.rearrange (tokenizerImplAt t.impl p q t.ops +
    (pointsTo p (.tokenizer t) + (bufferAt t.buf b + commandAt q cmd))) (by ac_rfl) ?_
  refine (implements_boundaryCtx t p q).callOk fun ctx => ?_
  refine Implements.withFact fun hctx => ?_
  refine Implements.rearrange (commandAt q cmd + (pointsTo p (.tokenizer t) +
    (bufferAt t.buf b + tokenizerImplAt t.impl p q t.ops))) (by ac_rfl) ?_
  rw [hctx]
  exact ((implements_commandIncrementLineCount q cmd).frame _).imp fun _ _ _ =>
    Set.add_subset_add_left (tokenizerAt_of t)

/-! ### `process_pool.c` -/

/-- The structure of a pool with its table here. -/
def poolBlock (pool : ProcessPool) (table : Ptr) : PoolBlock :=
  ⟨pool.maxProcs, pool.capacity, pool.childMax, pool.count, pool.status, pool.halt, table⟩

/-- A pool: its structure and its table. -/
def poolAt (p : Ptr) (pool : ProcessPool) : Assertion Cell :=
  ⋃ table : Ptr, pointsTo p (.pool (poolBlock pool table)) + pointsTo table (.pids pool.pids)

theorem poolAt_of {p table : Ptr} {pool : ProcessPool} {block : PoolBlock} {pids : List Pid}
    (hblock : block = poolBlock pool table) (hpids : pids = pool.pids) :
    pointsTo p (.pool block) + pointsTo table (.pids pids) ⊆ poolAt p pool := by
  rw [hblock, hpids]
  exact Set.subset_iUnion (fun table : Ptr =>
    pointsTo p (Cell.pool (poolBlock pool table)) + pointsTo table (Cell.pids pool.pids)) table

theorem implements_processPoolCreate (childMax : Int) (maxProcs : Nat) :
    Implements 0 (processPoolCreate childMax maxProcs) (.ok ())
      fun _ p => poolAt p (Phxargs.processPoolCreate childMax maxProcs) := by
  unfold processPoolCreate
  refine Implements.malloc fun p => ?_
  refine Implements.malloc fun table => ?_
  rw [add_left_comm]
  refine Implements.store (Implements.pure ?_)
  rw [add_zero]
  exact poolAt_of rfl rfl

/-- Growing moves the table. -/
theorem implements_growPool (p : Ptr) {pool : ProcessPool} (capacity : Nat)
    (hslots : pool.pids.length = pool.capacity) :
    Implements (poolAt p pool) (growPool p capacity) (.ok (pool.grow capacity))
      fun pool _ => poolAt p pool := by
  refine Implements.iUnion fun table => ?_
  unfold growPool reallocPids
  refine Implements.loadAs ((holds_pointsTo _ _).add_right _) rfl ?_
  simp only [bind_assoc]
  refine Implements.loadAs ((holds_pointsTo _ _).add_left _) rfl ?_
  rw [add_comm]
  refine Implements.free (Implements.malloc fun table' => ?_)
  rw [add_comm, hslots]
  exact Implements.store_last (poolAt_of rfl rfl)

theorem implements_storePid (table : Ptr) {pids : List Pid} {i : Nat} (hi : i < pids.length)
    (pid : Pid) :
    Implements (pointsTo table (.pids pids)) (storePid table i pid) (.ok ())
      fun _ _ => pointsTo table (.pids (pids.set i pid)) := by
  unfold storePid
  refine Implements.loadAs (holds_pointsTo _ _) rfl ?_
  rw [if_pos hi]
  exact Implements.store_spec _ _ _

theorem implements_loadPid (table : Ptr) {pids : List Pid} {i : Nat} (hi : i < pids.length) :
    Implements (pointsTo table (.pids pids)) (loadPid table i) (.ok ())
      fun _ pid => withFact (pid = pids.getD i 0) (pointsTo table (.pids pids)) := by
  unfold loadPid
  refine Implements.loadAs (holds_pointsTo _ _) rfl ?_
  rw [List.getElem?_eq_getElem hi, List.getD_eq_getElem _ _ hi]
  exact Implements.pure (subset_withFact rfl _)

/-- The first free slot is taken. -/
theorem implements_takeSlot (p : Ptr) {pool : ProcessPool} (hfree : pool.count < pool.pids.length)
    (pid : Pid) :
    Implements (poolAt p pool)
      (do
        let b ← loadAs Cell.asPool p
        storePid b.pids b.count pid
        store p (.pool { b with count := b.count + 1 }) : M Unit)
      (.ok { pool with pids := pool.pids.set pool.count pid, count := pool.count + 1 })
      fun pool _ => poolAt p pool := by
  refine Implements.iUnion fun table => ?_
  refine Implements.loadAs ((holds_pointsTo _ _).add_right _) rfl ?_
  rw [add_comm]
  refine (implements_storePid table hfree pid).callOk fun _ => ?_
  rw [add_comm]
  exact Implements.store_last (poolAt_of rfl rfl)

theorem implements_processPoolSubmit (p : Ptr) {pool : ProcessPool}
    (hslots : pool.pids.length = pool.capacity) (hcount : pool.count ≤ pool.capacity) (pid : Pid) :
    Implements (poolAt p pool) (processPoolSubmit p pid) (pool.submit pid)
      fun pool _ => poolAt p pool := by
  have hopen : ∀ {m : M Unit} {r : Except Exit ProcessPool} (table : Ptr),
      Implements (poolAt p pool) m r (fun pool _ => poolAt p pool) →
      Implements (pointsTo p (.pool (poolBlock pool table)) + pointsTo table (.pids pool.pids)) m r
        fun pool _ => poolAt p pool :=
    fun table h => Implements.of_subset _ (poolAt_of rfl rfl) h
  refine Implements.iUnion fun table => ?_
  unfold processPoolSubmit ProcessPool.submit ProcessPool.makeRoom
  refine Implements.loadAs ((holds_pointsTo _ _).add_right _) rfl ?_
  by_cases hfull : pool.count = pool.capacity
  · rw [if_pos (show (poolBlock pool table).count = (poolBlock pool table).capacity from hfull),
      if_pos hfull]
    cases hdouble : phxargsDoubleCapacity pool.capacity with
    | error e => exact Implements.orExit_error hdouble
    | ok capacity =>
        refine Implements.orExit_ok hdouble (hopen table ?_)
        refine (implements_growPool p capacity hslots).seqOk rfl fun _ => ?_
        refine implements_takeSlot p ?_ pid
        have hlt := lt_of_phxargsDoubleCapacity hdouble
        show pool.count < (pool.pids ++ List.replicate (capacity - pool.capacity) 0).length
        rw [List.length_append, List.length_replicate, hslots]
        omega
  · rw [if_neg (show ¬ (poolBlock pool table).count = (poolBlock pool table).capacity from hfull),
      if_neg hfull]
    exact hopen table (implements_takeSlot p (by omega) pid)

theorem implements_applyAdjustment (p : Ptr) {pool : ProcessPool}
    (hslots : pool.pids.length = pool.capacity) (u1 u2 : Int) :
    Implements (poolAt p pool) (applyAdjustment p u1 u2) (.ok (pool.adjust u1 u2))
      fun pool _ => poolAt p pool := by
  refine Implements.iUnion fun table => ?_
  unfold applyAdjustment ProcessPool.adjust
  refine Implements.loadAs ((holds_pointsTo _ _).add_right _) rfl ?_
  by_cases hzero : pool.maxProcs = 0
  · rw [if_pos (show (poolBlock pool table).maxProcs = 0 from hzero), if_pos hzero]
    exact Implements.pure (poolAt_of rfl rfl)
  · rw [if_neg (show ¬ (poolBlock pool table).maxProcs = 0 from hzero), if_neg hzero]
    have hnew : adjustedMaxProcs ((poolBlock pool table).value []) u1 u2 = adjustedMaxProcs pool u1 u2 :=
      rfl
    dsimp only
    rw [hnew]
    generalize (adjustedMaxProcs pool u1 u2).toNat = newMax
    have hlast : ∀ grown : ProcessPool, Implements (poolAt p grown)
        (do
          let b ← loadAs Cell.asPool p
          store p (.pool { b with maxProcs := newMax }) : M Unit)
        (.ok { grown with maxProcs := newMax }) fun pool _ => poolAt p pool := by
      intro grown
      refine Implements.iUnion fun table => ?_
      refine Implements.loadAs ((holds_pointsTo _ _).add_right _) rfl ?_
      exact Implements.store_last (poolAt_of rfl rfl)
    have hclosed : pointsTo p (.pool (poolBlock pool table)) + pointsTo table (.pids pool.pids)
        ⊆ poolAt p pool := poolAt_of rfl rfl
    by_cases hlarger : newMax > pool.capacity
    · simp only [hlarger, if_true]
      refine Implements.of_subset (poolAt p pool) hclosed ?_
      rw [if_pos (show newMax > (poolBlock pool table).capacity from hlarger)]
      exact (implements_growPool p newMax hslots).seqOk rfl fun _ => hlast _
    · simp only [hlarger, if_false]
      rw [if_neg (show ¬ newMax > (poolBlock pool table).capacity from hlarger)]
      exact Implements.of_subset _ hclosed (hlast pool)

/-- With a slot in use, `reap_one` writes to one of these, or to none, and the count does not wrap. -/
theorem implements_reapChild (ndebug : Bool) (p : Ptr) {pool : ProcessPool}
    (hslots : pool.pids.length = pool.capacity) (hcount : pool.count ≤ pool.capacity)
    (hpos : 0 < pool.count) (child : Child) :
    Implements (poolAt p pool) (reapChild ndebug p child) (pool.reap ndebug child)
      fun pool _ => poolAt p pool := by
  refine Implements.iUnion fun table => ?_
  unfold reapChild ProcessPool.reap ProcessPool.replaceWithLast
  refine Implements.loadAs ((holds_pointsTo _ _).add_right _) rfl ?_
  refine Implements.loadAs ((holds_pointsTo _ _).add_left _) rfl ?_
  have hslot : ((poolBlock pool table).value pool.pids).slotOf child.pid = pool.slotOf child.pid := rfl
  have hpred : sizePred (poolBlock pool table).count = pool.count - 1 :=
    if_neg (Nat.pos_iff_ne_zero.mp hpos)
  dsimp only
  rw [hslot, hpred]
  have hlast : ∀ pids : List Pid,
      Implements (pointsTo p (.pool (poolBlock pool table)) + pointsTo table (.pids pids))
        (store p (.pool
          { poolBlock pool table with
            count := pool.count - 1
            status := (((poolBlock pool table).value pool.pids).countReaped child.status).status
            halt := (((poolBlock pool table).value pool.pids).countReaped child.status).halt }) : M Unit)
        (.ok ({ pool with pids := pids }.countReaped child.status)) fun pool _ => poolAt p pool := by
    intro pids
    refine Implements.store_last (poolAt_of ?_ ?_)
    · by_cases hworse : severity (childExitStatus child.status).1 > severity pool.status
      · simp [ProcessPool.countReaped, accumulateStatus, PoolBlock.value, poolBlock, hworse]
      · simp [ProcessPool.countReaped, accumulateStatus, PoolBlock.value, poolBlock, hworse]
    · simp only [ProcessPool.countReaped, accumulateStatus]
      split <;> rfl
  by_cases hfound : pool.slotOf child.pid < pool.count
  · rw [if_pos (show _ < (poolBlock pool table).count from hfound), if_pos hfound,
      if_neg (fun hnot => hnot.1 hfound), add_comm]
    -- The last slot in use is one of the table.
    refine (implements_loadPid table (i := pool.count - 1) (by omega)).callOk fun pid => ?_
    refine Implements.withFact fun hpid => ?_
    rw [hpid]
    refine (implements_storePid table (by omega) _).callOk fun _ => ?_
    rw [add_comm]
    exact hlast _
  · rw [if_neg (show ¬ _ < (poolBlock pool table).count from hfound), if_neg hfound]
    cases ndebug with
    | true =>
        rw [if_pos rfl, if_neg (by simp)]
        exact hlast pool.pids
    | false =>
        rw [if_neg Bool.false_ne_true, if_pos ⟨hfound, Bool.false_ne_true⟩]
        exact Implements.exit _ _ _

theorem implements_processPoolDestroy (p : Ptr) (pool : ProcessPool) :
    Implements (poolAt p pool) (processPoolDestroy p) (.ok ()) fun _ _ => 0 := by
  refine Implements.iUnion fun table => ?_
  unfold processPoolDestroy
  refine Implements.loadAs ((holds_pointsTo _ _).add_right _) rfl ?_
  rw [add_comm]
  refine Implements.free ?_
  rw [← add_zero (pointsTo p _)]
  exact Implements.free_last (Set.Subset.refl _)

end Phxargs.OnHeap
