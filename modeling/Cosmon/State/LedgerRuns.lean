import Cosmon.State.Ledger

namespace Cosmon.State.LedgerRuns

open Cosmon.Lib.Lines Cosmon.State.EventLog Cosmon.State.Ledger

/-- What happens around one log file: the writer appends whole lines or parts of
lines, the consumer reads, asks for the head, or opens a new reader at the `k`-th
cursor it was ever given. -/
inductive Op where
  | append (fragment : List UInt8)
  | read (maxLines : Nat) (got : Nat → Nat)
  | head
  | reopen (k : Nat)

def Op.reopens : Op → Bool
  | .reopen _ => true
  | _ => false

/-- The file, the reader on it with the position it was opened at and all that it
has handed out, and every cursor ever returned. -/
structure Session where
  file : LedgerFile
  reader : LedgerReader
  start : Nat
  out : List LedgerRead
  cursors : List LedgerCursor

def readCursor : LedgerRead → LedgerCursor
  | .reset _ cursor => cursor
  | .line _ cursor => cursor

def Session.start_ (file : LedgerFile) : Session :=
  let reader := (LedgerReader.open_ (some file) none).1
  ⟨file, reader, reader.offset, [], [reader.cursor]⟩

def step (s : Session) : Op → Session
  | .append fragment => { s with file := s.file.append fragment }
  | .read maxLines got =>
    let (reader, reads) := s.reader.readBatch (some s.file) got maxLines
    { s with
      reader := reader
      out := s.out ++ reads
      cursors := s.cursors ++ (reads.map readCursor ++ [reader.cursor]) }
  | .head => { s with cursors := s.cursors ++ [LedgerReader.head (some s.file)] }
  | .reopen k =>
    match s.cursors[k]? with
    | none => s
    | some cursor =>
      let (reader, reset) := LedgerReader.open_ (some s.file) (some cursor.toString)
      { s with
        reader := reader
        start := reader.offset
        out := reset.toList.map fun reason => .reset reason reader.cursor
        cursors := s.cursors ++ [reader.cursor] }

def run (file : LedgerFile) (ops : List Op) : Session := ops.foldl step (Session.start_ file)

def Session.pending (s : Session) : List (List UInt8) :=
  completeLines newline (s.file.bytes.drop s.reader.offset)

def Session.passed (s : Session) : List (List UInt8) :=
  completeLines newline ((s.file.bytes.take s.reader.offset).drop s.start)

/-- The reader stands at a line start, has handed out what it passed, and every
cursor returned names a line start. -/
structure Inv (s : Session) : Prop where
  epoch : s.reader.epoch = s.file.epoch
  start_le : s.start ≤ s.reader.offset
  opened : LineStart s.file.bytes s.start
  stands : LineStart s.file.bytes s.reader.offset
  out : s.out = lineReads s.file.epoch s.start s.passed
  cursors : ∀ cursor ∈ s.cursors,
    cursor.epoch = s.file.epoch ∧ LineStart s.file.bytes cursor.offset

theorem closed_between {bytes : List UInt8} {start offset : Nat} (hle : start ≤ offset)
    (hstart : LineStart bytes start) (hoffset : LineStart bytes offset) :
    Closed newline ((bytes.take offset).drop start) := by
  have hcut := List.take_append_drop start (bytes.take offset)
  rw [List.take_take, Nat.min_eq_left hle] at hcut
  have hclosed := hoffset.2
  rw [← hcut, Closed, splitLines_append hstart.2] at hclosed
  exact hclosed

theorem passed_append_pending {s : Session} (h : Inv s) :
    s.passed ++ s.pending = completeLines newline (s.file.bytes.drop s.start) := by
  have hcut : (s.file.bytes.take s.reader.offset).drop s.start ++ s.file.bytes.drop s.reader.offset =
      s.file.bytes.drop s.start := by
    rw [← List.drop_append_of_le_length, List.take_append_drop]
    rw [List.length_take, Nat.min_eq_left h.stands.1]
    exact h.start_le
  rw [← hcut, completeLines_append (closed_between h.start_le h.opened h.stands)]
  rfl

theorem start_add_span {s : Session} (h : Inv s) : s.start + span s.passed = s.reader.offset := by
  have hclosed := closed_between h.start_le h.opened h.stands
  have hlen : s.reader.offset - s.start = span s.passed := by
    rw [Session.passed, ← consumed_eq_span, consumed_of_closed hclosed, List.length_drop,
      List.length_take, Nat.min_eq_left h.stands.1]
  have hle := h.start_le
  omega

theorem append_bytes (file : LedgerFile) (fragment : List UInt8) :
    (file.append fragment).epoch = file.epoch ∧
      ∃ more, (file.append fragment).bytes = file.bytes ++ more := by
  rw [LedgerFile.append]
  split
  · exact ⟨rfl, fragment, rfl⟩
  · exact ⟨rfl, [], (List.append_nil _).symm⟩

theorem lineStart_span {bytes : List UInt8} {offset : Nat} (h : LineStart bytes offset) (n : Nat) :
    LineStart bytes (offset + span ((completeLines newline (bytes.drop offset)).take n)) := by
  obtain ⟨hle, hclosed, -⟩ := take_span newline (bytes.drop offset) n
  have hoffset := h.1
  rw [List.length_drop] at hle
  refine ⟨by omega, ?_⟩
  rw [List.take_add]
  exact closed_append h.2 hclosed

theorem cursor_of_mem_lineReads {epoch : String} {offset : Nat} {lines : List (List UInt8)}
    {r : LedgerRead} (h : r ∈ lineReads epoch offset lines) :
    ∃ k, readCursor r = ⟨epoch, offset + span (lines.take k)⟩ := by
  induction lines generalizing offset with
  | nil => cases h
  | cons line lines ih =>
    have hrest : r ∈ lineReads epoch (offset + line.length + 1) lines →
        ∃ k, readCursor r = ⟨epoch, offset + span ((line :: lines).take k)⟩ := by
      intro hr
      obtain ⟨k, hk⟩ := ih hr
      refine ⟨k + 1, ?_⟩
      rw [hk, List.take_succ_cons, span_cons]
      congr 1
      omega
    simp only [lineReads] at h
    split at h
    · obtain rfl | hr := List.mem_cons.mp h
      · refine ⟨1, ?_⟩
        simp [readCursor, Nat.add_assoc]
      · exact hrest hr
    · exact hrest h

theorem inv_start (file : LedgerFile) : Inv (Session.start_ file) where
  epoch := rfl
  start_le := Nat.le_refl _
  opened := ⟨Nat.zero_le _, closed_nil _⟩
  stands := ⟨Nat.zero_le _, closed_nil _⟩
  out := rfl
  cursors := by
    intro cursor hcursor
    rw [List.mem_singleton.mp hcursor]
    exact ⟨rfl, Nat.zero_le _, closed_nil _⟩

theorem inv_append {s : Session} (h : Inv s) (fragment : List UInt8) :
    Inv (step s (.append fragment)) := by
  obtain ⟨hepoch, more, hbytes⟩ := append_bytes s.file fragment
  have hpassed : (step s (.append fragment)).passed = s.passed := by
    simp only [Session.passed, step, hbytes, List.take_append_of_le_length h.stands.1]
  constructor
  · exact h.epoch.trans hepoch.symm
  · exact h.start_le
  · simp only [step, hbytes]
    exact h.opened.append more
  · simp only [step, hbytes]
    exact h.stands.append more
  · rw [hpassed]
    simp only [step, hepoch]
    exact h.out
  · intro cursor hcursor
    obtain ⟨he, hs⟩ := h.cursors cursor hcursor
    simp only [step, hbytes, hepoch]
    exact ⟨he, hs.append more⟩

/-- What one read does: it passes the next complete lines and hands out those that
are delivered. -/
theorem step_read {s : Session} (h : Inv s) (maxLines : Nat) (got : Nat → Nat) :
    step s (.read maxLines got) =
      { s with
        reader := ⟨s.file.epoch, s.reader.offset + span (s.pending.take maxLines)⟩
        out := s.out ++ lineReads s.file.epoch s.reader.offset (s.pending.take maxLines)
        cursors := s.cursors ++
          ((lineReads s.file.epoch s.reader.offset (s.pending.take maxLines)).map readCursor ++
            [⟨s.file.epoch, s.reader.offset + span (s.pending.take maxLines)⟩]) } := by
  simp only [step, readBatch_eq h.epoch h.stands.1]
  rfl

theorem passed_read {s : Session} (h : Inv s) (maxLines : Nat) (got : Nat → Nat) :
    (step s (.read maxLines got)).passed = s.passed ++ s.pending.take maxLines := by
  obtain ⟨hle, hclosed, hlines⟩ := take_span newline (s.file.bytes.drop s.reader.offset) maxLines
  rw [step_read h, Session.passed]
  dsimp only
  rw [List.take_add, List.drop_append_of_le_length,
    completeLines_append (closed_between h.start_le h.opened h.stands)]
  · exact congrArg _ hlines
  · rw [List.length_take, Nat.min_eq_left h.stands.1]
    exact h.start_le

theorem pending_read {s : Session} (h : Inv s) (maxLines : Nat) (got : Nat → Nat) :
    (step s (.read maxLines got)).pending = s.pending.drop maxLines := by
  obtain ⟨hle, hclosed, hlines⟩ := take_span newline (s.file.bytes.drop s.reader.offset) maxLines
  have hall : s.pending = s.pending.take maxLines ++ (step s (.read maxLines got)).pending := by
    rw [step_read h]
    refine Eq.trans (congrArg (completeLines newline) (List.take_append_drop
      (span (s.pending.take maxLines)) (s.file.bytes.drop s.reader.offset)).symm) ?_
    refine (completeLines_append hclosed _).trans ?_
    rw [hlines, List.drop_drop]
    rfl
  refine List.append_cancel_left (hall.symm.trans (List.take_append_drop maxLines _).symm)

theorem inv_read {s : Session} (h : Inv s) (maxLines : Nat) (got : Nat → Nat) :
    Inv (step s (.read maxLines got)) := by
  have hpassed := passed_read h maxLines got
  have hspan := start_add_span h
  rw [step_read h] at hpassed ⊢
  constructor
  · rfl
  · exact Nat.le_add_right_of_le h.start_le
  · exact h.opened
  · exact lineStart_span h.stands maxLines
  · rw [hpassed, lineReads_append, hspan, ← h.out]
  · intro cursor hcursor
    obtain hold | hnew := List.mem_append.mp hcursor
    · exact h.cursors cursor hold
    · obtain hread | hlast := List.mem_append.mp hnew
      · obtain ⟨r, hr, rfl⟩ := List.mem_map.mp hread
        obtain ⟨k, hk⟩ := cursor_of_mem_lineReads hr
        rw [hk, List.take_take]
        exact ⟨rfl, lineStart_span h.stands _⟩
      · rw [List.mem_singleton.mp hlast]
        exact ⟨rfl, lineStart_span h.stands _⟩

theorem inv_head {s : Session} (h : Inv s) : Inv (step s .head) where
  epoch := h.epoch
  start_le := h.start_le
  opened := h.opened
  stands := h.stands
  out := h.out
  cursors := by
    intro cursor hcursor
    obtain hold | hnew := List.mem_append.mp hcursor
    · exact h.cursors cursor hold
    · rw [List.mem_singleton.mp hnew]
      exact ⟨rfl, lastLineBoundary_closed 8192 s.file.bytes _ _ (Nat.le_refl _)⟩

theorem step_reopen {s : Session} (h : Inv s) {k : Nat} {cursor : LedgerCursor}
    (hk : s.cursors[k]? = some cursor) :
    step s (.reopen k) =
      { s with
        reader := ⟨s.file.epoch, cursor.offset⟩
        start := cursor.offset
        out := []
        cursors := s.cursors ++ [⟨s.file.epoch, cursor.offset⟩] } := by
  obtain ⟨hepoch, hstart⟩ := h.cursors cursor (List.mem_of_getElem? hk)
  simp only [step, hk, open_toString hepoch hstart]
  rfl

theorem inv_reopen {s : Session} (h : Inv s) (k : Nat) : Inv (step s (.reopen k)) := by
  cases hk : s.cursors[k]? with
  | none =>
    simp only [step, hk]
    exact h
  | some cursor =>
    obtain ⟨-, hstart⟩ := h.cursors cursor (List.mem_of_getElem? hk)
    rw [step_reopen h hk]
    constructor
    · rfl
    · exact Nat.le_refl _
    · exact hstart
    · exact hstart
    · have hnone : (s.file.bytes.take cursor.offset).drop cursor.offset = [] := by
        apply List.drop_of_length_le
        exact List.length_take_le _ _
      simp only [Session.passed, hnone]
      rfl
    · intro c hc
      obtain hold | hnew := List.mem_append.mp hc
      · exact h.cursors c hold
      · rw [List.mem_singleton.mp hnew]
        exact ⟨rfl, hstart⟩

theorem inv_step {s : Session} (h : Inv s) (op : Op) : Inv (step s op) := by
  cases op with
  | append fragment => exact inv_append h fragment
  | read maxLines got => exact inv_read h maxLines got
  | head => exact inv_head h
  | reopen k => exact inv_reopen h k

theorem inv_foldl {s : Session} (h : Inv s) (ops : List Op) : Inv (ops.foldl step s) := by
  induction ops generalizing s with
  | nil => exact h
  | cons op ops ih => exact ih (inv_step h op)

theorem inv_run (file : LedgerFile) (ops : List Op) : Inv (run file ops) :=
  inv_foldl (inv_start file) ops

theorem start_foldl {s : Session} (h : Inv s) {ops : List Op} (hops : ∀ op ∈ ops, op.reopens = false) :
    (ops.foldl step s).start = s.start := by
  induction ops generalizing s with
  | nil => rfl
  | cons op ops ih =>
    obtain ⟨hop, hrest⟩ := List.forall_mem_cons.mp hops
    refine (ih (inv_step h op) hrest).trans ?_
    cases op with
    | append fragment => rfl
    | read maxLines got => rw [step_read h]
    | head => rfl
    | reopen k => cases hop

theorem pending_reads {s : Session} (h : Inv s) (batches : List (Nat × (Nat → Nat))) :
    ((batches.map fun b => Op.read b.1 b.2).foldl step s).pending =
      s.pending.drop (batches.map Prod.fst).sum := by
  induction batches generalizing s with
  | nil => rfl
  | cons b batches ih =>
    refine (ih (inv_read h b.1 b.2)).trans ?_
    rw [pending_read h, List.drop_drop]
    rfl

theorem file_reads {s : Session} (h : Inv s) (batches : List (Nat × (Nat → Nat))) :
    ((batches.map fun b => Op.read b.1 b.2).foldl step s).file = s.file := by
  induction batches generalizing s with
  | nil => rfl
  | cons b batches ih =>
    refine (ih (inv_read h b.1 b.2)).trans ?_
    rw [step_read h]

/-- Once nothing is pending, every line from the start of the reader on was handed
out. -/
theorem out_of_drained {s : Session} (h : Inv s) (hpending : s.pending = []) :
    s.out = lineReads s.file.epoch s.start (completeLines newline (s.file.bytes.drop s.start)) := by
  rw [← passed_append_pending h, hpending, List.append_nil]
  exact h.out

/-- Some of the next `n` pending lines is delivered, or none of all of them is. -/
def Shows (s : Session) (n : Nat) : Prop :=
  (∃ line ∈ s.pending.take n, delivers line = true) ∨ ∀ line ∈ s.pending, delivers line = false

/-- An empty result says that no line to deliver remains exactly when the read shows
one or there is none. -/
theorem empty_read_iff {s : Session} (h : Inv s) (n : Nat) (got : Nat → Nat) :
    ((s.reader.readBatch (some s.file) got n).2 = [] →
        ∀ line ∈ (step s (.read n got)).pending, delivers line = false) ↔ Shows s n := by
  rw [readBatch_eq h.epoch h.stands.1, pending_read h, lineReads_eq_nil]
  constructor
  · intro hempty
    by_cases hshown : ∃ line ∈ s.pending.take n, delivers line = true
    · exact Or.inl hshown
    · refine Or.inr ?_
      have hnone : ∀ line ∈ s.pending.take n, delivers line = false := by
        intro line hline
        exact Bool.eq_false_iff.mpr fun hd => hshown ⟨line, hline, hd⟩
      rw [← List.take_append_drop n s.pending]
      intro line hline
      obtain hfirst | hlater := List.mem_append.mp hline
      · exact hnone line hfirst
      · exact hempty hnone line hlater
  · intro hshows hempty line hline
    obtain ⟨shown, hmem, hd⟩ | hnone := hshows
    · have := hempty shown hmem
      rw [hd] at this
      cases this
    · exact hnone line (List.mem_of_mem_drop hline)

/-- After every run over one file that only grows: the reader has handed out the
lines it passed, in order and once each, and enough reads hand out all complete
lines; a reader opened at any cursor ever returned reports no reset and hands out
the lines after it; and an empty result means that no line to deliver remains
exactly when the read shows one or there is none. -/
theorem run_delivers (file : LedgerFile) (ops : List Op) :
    let s := run file ops
    (s.out = lineReads s.file.epoch s.start s.passed ∧
      s.passed ++ s.pending = completeLines newline (s.file.bytes.drop s.start) ∧
      ∀ batches : List (Nat × (Nat → Nat)), s.pending.length ≤ (batches.map Prod.fst).sum →
        (run file (ops ++ batches.map fun b => Op.read b.1 b.2)).out =
          lineReads s.file.epoch s.start (completeLines newline (s.file.bytes.drop s.start))) ∧
    (∀ k cursor, s.cursors[k]? = some cursor →
      LedgerReader.open_ (some s.file) (some cursor.toString) = (⟨s.file.epoch, cursor.offset⟩, none) ∧
      ∀ more : List Op, (∀ op ∈ more, op.reopens = false) →
        let later := run file (ops ++ .reopen k :: more)
        later.start = cursor.offset ∧
          later.out = lineReads later.file.epoch cursor.offset later.passed ∧
          later.passed ++ later.pending =
            completeLines newline (later.file.bytes.drop cursor.offset)) ∧
    ∀ n got, 1 ≤ n →
      (((s.reader.readBatch (some s.file) got n).2 = [] →
          ∀ line ∈ (step s (.read n got)).pending, delivers line = false) ↔ Shows s n) := by
  intro s
  have h : Inv s := inv_run file ops
  refine ⟨⟨h.out, passed_append_pending h, ?_⟩, ?_, ?_⟩
  · intro batches hbatches
    rw [run, List.foldl_append]
    change (List.foldl step s _).out = _
    have hreads := inv_foldl h (batches.map fun b => Op.read b.1 b.2)
    have hdrained : ((batches.map fun b => Op.read b.1 b.2).foldl step s).pending = [] := by
      rw [pending_reads h]
      exact List.drop_of_length_le hbatches
    have hkeep : ∀ op ∈ batches.map (fun b => Op.read b.1 b.2), op.reopens = false := by
      intro op hop
      obtain ⟨b, -, rfl⟩ := List.mem_map.mp hop
      rfl
    have hstart := start_foldl h hkeep
    rw [out_of_drained hreads hdrained, file_reads h, hstart]
  · intro k cursor hk
    obtain ⟨hepoch, hstart⟩ := h.cursors cursor (List.mem_of_getElem? hk)
    refine ⟨open_toString hepoch hstart, ?_⟩
    intro more hmore later
    have hlater : Inv later := inv_run file _
    have hopened : later.start = cursor.offset := by
      refine Eq.trans ?_ ((start_foldl (inv_reopen h k) hmore).trans ?_)
      · rw [show later = run file (ops ++ .reopen k :: more) from rfl, run, List.foldl_append]
        rfl
      · rw [step_reopen h hk]
    refine ⟨hopened, ?_, ?_⟩
    · rw [← hopened]
      exact hlater.out
    · rw [← hopened]
      exact passed_append_pending hlater
  · intro n got _
    exact empty_read_iff h n got

def exampleLog : LedgerFile :=
  { epoch := "0123456789ab"
    bytes := [10, 123, 125, 10]
    hex := by decide
    fits := by decide }

/-- A blank line before an event makes a read of one line come back empty. -/
theorem empty_read_before_event :
    ¬∀ (file : LedgerFile) (ops : List Op) (n : Nat) (got : Nat → Nat), 1 ≤ n →
      ((run file ops).reader.readBatch (some (run file ops).file) got n).2 = [] →
        ∀ line ∈ (step (run file ops) (.read n got)).pending, delivers line = false := by
  intro h
  have hempty := h exampleLog [] 1 (fun _ => 4) (by decide) (by decide)
  revert hempty
  decide

end Cosmon.State.LedgerRuns
