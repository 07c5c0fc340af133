import Cosmon.Lib.Text
import Cosmon.State.EventLog

namespace Cosmon.State.Ledger

open Cosmon.Lib.Lines Cosmon.Lib.Text Cosmon.State.EventLog

def isAsciiHexdigit (c : Char) : Bool :=
  c.isDigit || ('a' ≤ c && c ≤ 'f') || ('A' ≤ c && c ≤ 'F')

/-- The file of the log: its identity, the first six bytes of a digest of device
and inode in hexadecimal digits, and its content. -/
structure LedgerFile where
  epoch : String
  bytes : List UInt8
  hex : epoch.toList.length = 12 ∧ epoch.toList.all isAsciiHexdigit = true
  fits : bytes.length < 2 ^ 64

/-- Append to the file, which refuses to grow past a 64-bit length. -/
def LedgerFile.append (file : LedgerFile) (fragment : List UInt8) : LedgerFile :=
  if h : (file.bytes ++ fragment).length < 2 ^ 64 then
    { file with bytes := file.bytes ++ fragment, fits := h }
  else file

def LEDGER_EPOCH_ABSENT : String := "0"

def LEDGER_READ_CHUNK : Nat := 1024 * 1024

structure LedgerCursor where
  epoch : String
  offset : Nat
deriving DecidableEq

def LedgerCursor.parse (raw : String) : Option LedgerCursor :=
  match splitOnce '.' (trim raw.toList) with
  | none => none
  | some (epoch, offset) =>
    if epoch = [] ∨ (epoch.all isAsciiHexdigit) = false then none
    else (parseUnsigned 64 offset).map (fun offset => ⟨String.ofList epoch, offset⟩)

def LedgerCursor.toString (cursor : LedgerCursor) : String :=
  String.ofList (cursor.epoch.toList ++ '.' :: Nat.toDigits 10 cursor.offset)

inductive LedgerResetReason where
  | epochChanged
  | truncated
  | cursorInvalid
deriving DecidableEq

inductive LedgerRead where
  | reset (reason : LedgerResetReason) (cursor : LedgerCursor)
  | line (raw : List UInt8) (cursor : LedgerCursor)
deriving DecidableEq

structure LedgerReader where
  epoch : String
  offset : Nat

def LedgerReader.cursor (r : LedgerReader) : LedgerCursor := ⟨r.epoch, r.offset⟩

def isLineStart (bytes : List UInt8) (offset : Nat) : Bool :=
  offset = 0 || bytes[offset - 1]? = some newline

def LedgerReader.open_ (file : Option LedgerFile) (after : Option String) :
    LedgerReader × Option LedgerResetReason :=
  let epoch := (file.map LedgerFile.epoch).getD LEDGER_EPOCH_ABSENT
  let bytes := (file.map LedgerFile.bytes).getD []
  let reader : LedgerReader := ⟨epoch, 0⟩
  match after with
  | none => (reader, none)
  | some raw =>
    match LedgerCursor.parse raw with
    | none => (reader, some .cursorInvalid)
    | some cursor =>
      if cursor.epoch ≠ epoch then (reader, some .epochChanged)
      else if bytes.length < cursor.offset ∨ isLineStart bytes cursor.offset = false then
        (reader, some .cursorInvalid)
      else (⟨epoch, cursor.offset⟩, none)

/-- Search the bytes before `last` backwards for a newline, in chunks of `size`
bytes; the offset just after it. -/
def lastLineBoundary (size : Nat) (bytes : List UInt8) : Nat → Nat → Nat
  | 0, _ => 0
  | fuel + 1, last =>
    if last = 0 then 0
    else
      let start := last - size
      let chunk := (bytes.take last).drop start
      match chunk.reverse.findIdx? (fun b => b = newline) with
      | some back => start + (chunk.length - 1 - back) + 1
      | none => lastLineBoundary size bytes fuel start

def LedgerReader.head (file : Option LedgerFile) : LedgerCursor :=
  match file with
  | some file => ⟨file.epoch, lastLineBoundary 8192 file.bytes file.bytes.length file.bytes.length⟩
  | none => ⟨LEDGER_EPOCH_ABSENT, 0⟩

/-- The encodings of the `White_Space` characters. -/
def whiteSpaces : List (List UInt8) :=
  [[9], [10], [11], [12], [13], [32], [0xC2, 0x85], [0xC2, 0xA0], [0xE1, 0x9A, 0x80],
    [0xE2, 0x80, 0x80], [0xE2, 0x80, 0x81], [0xE2, 0x80, 0x82], [0xE2, 0x80, 0x83],
    [0xE2, 0x80, 0x84], [0xE2, 0x80, 0x85], [0xE2, 0x80, 0x86], [0xE2, 0x80, 0x87],
    [0xE2, 0x80, 0x88], [0xE2, 0x80, 0x89], [0xE2, 0x80, 0x8A], [0xE2, 0x80, 0xA8],
    [0xE2, 0x80, 0xA9], [0xE2, 0x80, 0xAF], [0xE2, 0x81, 0x9F], [0xE3, 0x80, 0x80]]

/-- Whether a UTF-8 text is white space throughout: `trim().is_empty()`. -/
def isBlankText : Nat → List UInt8 → Bool
  | _, [] => true
  | 0, _ => false
  | fuel + 1, text =>
    match whiteSpaces.find? (fun w => w.isPrefixOf text) with
    | some w => isBlankText fuel (text.drop w.length)
    | none => false

def delivers (line : List UInt8) : Bool := validUtf8 line && !isBlankText line.length line

/-- The read loop over the bytes up to the length seen. The `k`-th read returns
`got k` bytes, but at least one and no more than asked for. -/
def fillBuffer (got : Nat → Nat) (maxLines : Nat) :
    Nat → Nat → List UInt8 → Nat → List UInt8 → List UInt8
  | 0, _, _, _, buf => buf
  | fuel + 1, k, remaining, newlines, buf =>
    if remaining = [] ∨ maxLines ≤ newlines then buf
    else
      let want := min remaining.length LEDGER_READ_CHUNK
      let piece := remaining.take (max 1 (min (got k) want))
      fillBuffer got maxLines fuel (k + 1) (remaining.drop piece.length)
        (newlines + piece.countP (fun b => b = newline)) (buf ++ piece)

/-- Hand out the next lines of the buffer. A line counts whether or not it is
handed out. -/
def deliverLines (epoch : String) : Nat → List UInt8 → Nat → Nat × List LedgerRead
  | 0, _, offset => (offset, [])
  | left + 1, buf, offset =>
    match buf.findIdx? (fun b => b = newline) with
    | none => (offset, [])
    | some rel =>
      let line := buf.take rel
      let (last, out) := deliverLines epoch left (buf.drop (rel + 1)) (offset + rel + 1)
      (last, if delivers line then .line line ⟨epoch, offset + rel + 1⟩ :: out else out)

def LedgerReader.settle (r : LedgerReader) (file : LedgerFile) : LedgerReader × List LedgerRead :=
  if file.epoch ≠ r.epoch then
    if r.epoch = LEDGER_EPOCH_ABSENT ∧ r.offset = 0 then (⟨file.epoch, 0⟩, [])
    else (⟨file.epoch, 0⟩, [.reset .epochChanged ⟨file.epoch, 0⟩])
  else if file.bytes.length < r.offset then (⟨r.epoch, 0⟩, [.reset .truncated ⟨r.epoch, 0⟩])
  else (r, [])

def LedgerReader.readBatch (r : LedgerReader) (file : Option LedgerFile) (got : Nat → Nat)
    (maxLines : Nat) : LedgerReader × List LedgerRead :=
  match file with
  | none =>
    if r.epoch ≠ LEDGER_EPOCH_ABSENT then
      (⟨LEDGER_EPOCH_ABSENT, 0⟩, [.reset .epochChanged ⟨LEDGER_EPOCH_ABSENT, 0⟩])
    else (r, [])
  | some file =>
    let (r, resets) := r.settle file
    if file.bytes.length = r.offset ∨ maxLines = 0 then (r, resets)
    else
      let rest := file.bytes.drop r.offset
      let buf := fillBuffer got maxLines rest.length 0 rest 0 []
      let (offset, lines) := deliverLines r.epoch maxLines buf r.offset
      (⟨r.epoch, offset⟩, resets ++ lines)

/-- What the complete lines from `offset` on are read as: each line that is handed
out, with the position just after it. -/
def lineReads (epoch : String) : Nat → List (List UInt8) → List LedgerRead
  | _, [] => []
  | offset, line :: lines =>
    let next := offset + line.length + 1
    if delivers line then .line line ⟨epoch, next⟩ :: lineReads epoch next lines
    else lineReads epoch next lines

theorem lineReads_append (epoch : String) (offset : Nat) (xs ys : List (List UInt8)) :
    lineReads epoch offset (xs ++ ys) =
      lineReads epoch offset xs ++ lineReads epoch (offset + span xs) ys := by
  induction xs generalizing offset with
  | nil => rfl
  | cons line xs ih =>
    have hnext : offset + line.length + 1 + span xs = offset + span (line :: xs) := by
      rw [span_cons]
      omega
    simp only [List.cons_append, lineReads, ih, hnext]
    split
    · rfl
    · rfl

theorem lineReads_eq_nil {epoch : String} {offset : Nat} {lines : List (List UInt8)} :
    lineReads epoch offset lines = [] ↔ ∀ line ∈ lines, delivers line = false := by
  induction lines generalizing offset with
  | nil => simp [lineReads]
  | cons line lines ih =>
    simp only [lineReads, List.forall_mem_cons]
    split
    · rename_i h
      simp [h]
    · rename_i h
      simp [h, ih]

theorem deliverLines_eq (epoch : String) (n : Nat) (buf : List UInt8) (offset : Nat) :
    deliverLines epoch n buf offset =
      (offset + span ((completeLines newline buf).take n),
        lineReads epoch offset ((completeLines newline buf).take n)) := by
  induction n generalizing buf offset with
  | zero => rfl
  | succ n ih =>
    rw [deliverLines]
    split
    · rename_i hnone
      have hmem : newline ∉ buf := by
        intro h
        simpa using List.findIdx?_eq_none_iff.mp hnone newline h
      rw [completeLines, splitLines_of_not_mem hmem]
      rfl
    · rename_i rel hsome
      obtain ⟨hrel, hnl, hbefore⟩ := List.findIdx?_eq_some_iff_getElem.mp hsome
      have hmem : newline ∉ buf.take rel := by
        intro h
        obtain ⟨i, hi, hget⟩ := List.mem_iff_getElem.mp h
        rw [List.length_take] at hi
        rw [List.getElem_take] at hget
        simpa [hget] using hbefore i (by omega)
      have hsplit : buf = buf.take rel ++ newline :: buf.drop (rel + 1) := by
        rw [← of_decide_eq_true hnl, ← List.drop_eq_getElem_cons hrel, List.take_append_drop]
      have hlines : completeLines newline buf =
          buf.take rel :: completeLines newline (buf.drop (rel + 1)) := by
        refine Eq.trans (congrArg _ hsplit) ?_
        exact completeLines_cons hmem _
      have hlen : (buf.take rel).length = rel := by
        rw [List.length_take]
        omega
      rw [ih, hlines, List.take_succ_cons]
      simp only [lineReads, span_cons, hlen]
      congr 1
      omega

/-- The read loop stops with a part of the rest that is all of it, or that holds
enough line ends. -/
theorem fillBuffer_spec (got : Nat → Nat) (maxLines fuel k : Nat) (remaining buf : List UInt8)
    (newlines : Nat) (hfuel : remaining.length ≤ fuel)
    (hcount : newlines = buf.countP (fun b => b = newline)) :
    ∃ tail, buf ++ remaining = fillBuffer got maxLines fuel k remaining newlines buf ++ tail ∧
      (tail = [] ∨ maxLines ≤
        (fillBuffer got maxLines fuel k remaining newlines buf).countP (fun b => b = newline)) := by
  induction fuel generalizing k remaining buf newlines with
  | zero =>
    rw [List.length_eq_zero_iff.mp (Nat.le_zero.mp hfuel)]
    exact ⟨[], rfl, Or.inl rfl⟩
  | succ fuel ih =>
    rw [fillBuffer]
    split
    · rename_i hstop
      refine ⟨remaining, rfl, ?_⟩
      rw [← hcount]
      exact hstop
    · rename_i hgo
      have hne : 0 < remaining.length := List.length_pos_iff.mpr (not_or.mp hgo).1
      dsimp only
      generalize hpiece :
        remaining.take (max 1 (min (got k) (min remaining.length LEDGER_READ_CHUNK))) = piece
      have hpos : 0 < piece.length := by
        rw [← hpiece, List.length_take]
        omega
      have hcut : piece ++ remaining.drop piece.length = remaining := by
        rw [← hpiece]
        exact List.prefix_iff_eq_append.mp (List.take_prefix _ _)
      obtain ⟨tail, hsplit, hdone⟩ := ih (k + 1) (remaining.drop piece.length) (buf ++ piece)
        (newlines + piece.countP (fun b => b = newline))
        (by rw [List.length_drop]; omega) (by rw [List.countP_append, hcount])
      refine ⟨tail, ?_, hdone⟩
      rw [← hsplit, List.append_assoc, hcut]

/-- One call over the file it knows, from a position inside the file, takes the
next `maxLines` complete lines. -/
theorem readBatch_eq {r : LedgerReader} {file : LedgerFile} (hepoch : r.epoch = file.epoch)
    (hoffset : r.offset ≤ file.bytes.length) (got : Nat → Nat) (maxLines : Nat) :
    r.readBatch (some file) got maxLines =
      let lines := (completeLines newline (file.bytes.drop r.offset)).take maxLines
      (⟨file.epoch, r.offset + span lines⟩, lineReads file.epoch r.offset lines) := by
  have hsettle : r.settle file = (r, []) := by
    rw [LedgerReader.settle, if_neg (not_not.mpr hepoch.symm), if_neg (Nat.not_lt.mpr hoffset)]
  simp only [LedgerReader.readBatch, hsettle, List.nil_append]
  split
  · rename_i hstop
    have hnil : (completeLines newline (file.bytes.drop r.offset)).take maxLines = [] := by
      cases hstop with
      | inl hend =>
        rw [List.drop_of_length_le (Nat.le_of_eq hend)]
        exact List.take_nil
      | inr hzero =>
        rw [hzero]
        rfl
    rw [hnil, ← hepoch]
    rfl
  · obtain ⟨tail, hsplit, hdone⟩ := fillBuffer_spec got maxLines (file.bytes.drop r.offset).length 0
      (file.bytes.drop r.offset) [] 0 (Nat.le_refl _) rfl
    rw [List.nil_append] at hsplit
    generalize fillBuffer got maxLines (file.bytes.drop r.offset).length 0
      (file.bytes.drop r.offset) 0 [] = buf at hsplit hdone ⊢
    have hlines : (completeLines newline buf).take maxLines =
        (completeLines newline (file.bytes.drop r.offset)).take maxLines := by
      rw [hsplit]
      cases hdone with
      | inl htail => rw [htail, List.append_nil]
      | inr hmany =>
        rw [← length_completeLines] at hmany
        obtain ⟨more, hmore⟩ := completeLines_prefix newline buf tail
        rw [← hmore, List.take_append_of_le_length hmany]
    rw [deliverLines_eq, hlines, hepoch]

theorem isLineStart_iff {bytes : List UInt8} {offset : Nat} (h : offset ≤ bytes.length) :
    isLineStart bytes offset = true ↔ Closed newline (bytes.take offset) := by
  rw [closed_iff]
  cases offset with
  | zero => simp [isLineStart]
  | succ offset =>
    have hne : bytes.take (offset + 1) ≠ [] := by
      apply List.ne_nil_of_length_pos
      rw [List.length_take]
      omega
    have hlen : (bytes.take (offset + 1)).length - 1 = offset := by
      rw [List.length_take]
      omega
    rw [List.getLast?_eq_getElem?, hlen, List.getElem?_take_of_lt (Nat.lt_succ_self offset)]
    simp [isLineStart, hne]

theorem lastLineBoundary_closed (size : Nat) (bytes : List UInt8) (fuel last : Nat)
    (hlast : last ≤ bytes.length) :
    lastLineBoundary size bytes fuel last ≤ bytes.length ∧
      Closed newline (bytes.take (lastLineBoundary size bytes fuel last)) := by
  induction fuel generalizing last with
  | zero => exact ⟨Nat.zero_le _, closed_nil _⟩
  | succ fuel ih =>
    by_cases hzero : last = 0
    · rw [lastLineBoundary, if_pos hzero]
      exact ⟨Nat.zero_le _, closed_nil _⟩
    · rw [lastLineBoundary, if_neg hzero]
      dsimp only
      cases hback : ((bytes.take last).drop (last - size)).reverse.findIdx? (fun b => b = newline) with
      | none => exact ih (last - size) (Nat.le_trans (Nat.sub_le _ _) hlast)
      | some back =>
        -- The newline found is the byte before the offset that is returned.
        obtain ⟨hlt, hnl, -⟩ := List.findIdx?_eq_some_iff_getElem.mp hback
        rw [List.getElem_reverse, List.getElem_drop, List.getElem_take] at hnl
        have hlen : ((bytes.take last).drop (last - size)).length =
            last - (last - size) := by
          rw [List.length_drop, List.length_take, Nat.min_eq_left hlast]
        rw [List.length_reverse] at hlt
        have hle : last - size +
            (((bytes.take last).drop (last - size)).length - 1 - back) + 1 ≤ bytes.length := by
          omega
        refine ⟨hle, (isLineStart_iff hle).mp ?_⟩
        simp only [isLineStart, Nat.add_sub_cancel]
        rw [List.getElem?_eq_getElem (by omega), of_decide_eq_true hnl]
        simp

theorem printable_of_hexdigit {c : Char} (h : isAsciiHexdigit c = true) :
    33 ≤ c.toNat ∧ c.toNat ≤ 126 := by
  simp [isAsciiHexdigit, Char.isDigit, Char.le_def, UInt32.le_iff_toNat_le] at h
  omega

theorem parse_toString {cursor : LedgerCursor} (hne : cursor.epoch.toList ≠ [])
    (hhex : cursor.epoch.toList.all isAsciiHexdigit = true) (hoffset : cursor.offset < 2 ^ 64) :
    LedgerCursor.parse cursor.toString = some cursor := by
  have hprint : ∀ c ∈ cursor.epoch.toList ++ '.' :: Nat.toDigits 10 cursor.offset,
      isWhiteSpace c = false := by
    intro c hc
    have hrange : 33 ≤ c.toNat ∧ c.toNat ≤ 126 := by
      obtain hmem | rfl | hmem := by simpa using hc
      · exact printable_of_hexdigit (List.all_eq_true.mp hhex _ hmem)
      · decide
      · exact printable_of_hexdigit (by simp [isAsciiHexdigit, isDigit_toDigits hmem])
    exact isWhiteSpace_of_printable hrange.1 hrange.2
  have hdot : '.' ∉ cursor.epoch.toList := by
    intro hmem
    have := List.all_eq_true.mp hhex _ hmem
    revert this
    decide
  have hgood : ¬(cursor.epoch.toList = [] ∨ cursor.epoch.toList.all isAsciiHexdigit = false) := by
    rw [hhex]
    simp [hne]
  rw [LedgerCursor.parse, LedgerCursor.toString, String.toList_ofList, trim_of_none hprint,
    splitOnce_of_none hdot]
  simp only [if_neg hgood, parseUnsigned_toDigits hoffset, String.ofList_toList, Option.map_some]

/-- A position at which a line of the file starts, or would start. -/
def LineStart (bytes : List UInt8) (offset : Nat) : Prop :=
  offset ≤ bytes.length ∧ Closed newline (bytes.take offset)

theorem LineStart.append {bytes : List UInt8} {offset : Nat} (h : LineStart bytes offset)
    (fragment : List UInt8) : LineStart (bytes ++ fragment) offset := by
  refine ⟨?_, ?_⟩
  · rw [List.length_append]
    exact Nat.le_add_right_of_le h.1
  · rw [List.take_append_of_le_length h.1]
    exact h.2

theorem open_toString {file : LedgerFile} {cursor : LedgerCursor} (hepoch : cursor.epoch = file.epoch)
    (hstart : LineStart file.bytes cursor.offset) :
    LedgerReader.open_ (some file) (some cursor.toString) = (⟨file.epoch, cursor.offset⟩, none) := by
  have hne : cursor.epoch.toList ≠ [] := by
    rw [hepoch]
    apply List.ne_nil_of_length_pos
    rw [file.hex.1]
    decide
  have hparse := parse_toString hne (hepoch ▸ file.hex.2) (Nat.lt_of_le_of_lt hstart.1 file.fits)
  have hgood : ¬(file.bytes.length < cursor.offset ∨ isLineStart file.bytes cursor.offset = false) := by
    rw [(isLineStart_iff hstart.1).mpr hstart.2]
    simp [hstart.1]
  simp only [LedgerReader.open_, hparse, Option.map_some, Option.getD_some, hepoch, ne_eq,
    not_true_eq_false, if_false, if_neg hgood]

end Cosmon.State.Ledger
