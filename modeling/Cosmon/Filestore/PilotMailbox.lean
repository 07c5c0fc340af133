import Cosmon.Core.PilotLeases
import Cosmon.Lib.Checks
import Cosmon.Lib.Neighbours
import Cosmon.State.EventLog

namespace Cosmon.Filestore.PilotMailbox

open Cosmon.Lib.Lines Cosmon.Lib.Neighbours Cosmon.State.Molecule Cosmon.State.EventLog
  Cosmon.Core.PilotLeases

abbrev MessageId := String

structure PilotMessage where
  id : MessageId
  sender : SessionId
  receiver : SessionId
  sequence : Nat
  payloadRef : String
  payloadHash : String
  createdAt : Instant
  expiresAt : Option Instant := none
deriving DecidableEq

structure MessageAck where
  id : MessageId
  readAt : Instant
deriving DecidableEq

inductive MessageState where
  | queued
  | read
  | expired
deriving DecidableEq

/-- An acknowledgement counts before the clock does. -/
def PilotMessage.state (message : PilotMessage) (now : Instant) (readAt : Option Instant) : MessageState :=
  if readAt.isSome then .read
  else if message.expiresAt.any (· ≤ now) then .expired
  else .queued

structure MailboxEntry where
  message : PilotMessage
  readAt : Option Instant
  state : MessageState
deriving DecidableEq

structure Codec where
  message : PilotMessage → List UInt8
  parseMessage : List UInt8 → Option PilotMessage
  ack : MessageAck → List UInt8
  parseAck : List UInt8 → Option MessageAck

structure OneLine (text : List UInt8) : Prop where
  no_newline : newline ∉ text
  brace : text.getLast? = some 0x7D
  utf8 : validUtf8 text

theorem oneLine_iff {text : List UInt8} :
    OneLine text ↔ newline ∉ text ∧ text.getLast? = some 0x7D ∧ validUtf8 text :=
  ⟨fun h => ⟨h.no_newline, h.brace, h.utf8⟩, fun h => ⟨h.1, h.2.1, h.2.2⟩⟩

instance (text : List UInt8) : Decidable (OneLine text) := decidable_of_iff' _ oneLine_iff

def Codec.Reads (cx : Codec) (message : PilotMessage) : Prop :=
  OneLine (cx.message message) ∧ cx.parseMessage (cx.message message) = some message

def Codec.ReadsAck (cx : Codec) (ack : MessageAck) : Prop :=
  OneLine (cx.ack ack) ∧ cx.parseAck (cx.ack ack) = some ack

instance (cx : Codec) (message : PilotMessage) : Decidable (cx.Reads message) :=
  inferInstanceAs (Decidable (_ ∧ _))

instance (cx : Codec) (ack : MessageAck) : Decidable (cx.ReadsAck ack) := inferInstanceAs (Decidable (_ ∧ _))

def ascii (text : String) : List UInt8 := text.toList.map fun c => UInt8.ofNat c.toNat

def Codec.ofSamples (messages : List (PilotMessage × String)) (acks : List (MessageAck × String)) : Codec where
  message message := ((messages.find? fun s => s.1 = message).map fun s => ascii s.2).getD []
  parseMessage line := (messages.find? fun s => ascii s.2 = line).map Prod.fst
  ack ack := ((acks.find? fun s => s.1 = ack).map fun s => ascii s.2).getD []
  parseAck line := (acks.find? fun s => ascii s.2 = line).map Prod.fst

abbrev File := Option (List UInt8)

def File.text (file : File) : List UInt8 := file.getD []

structure Mailbox where
  stateRoot : String
  inbox : SessionId → File := fun _ => none
  ack : SessionId → File := fun _ => none

def Mailbox.inboxPath (mb : Mailbox) (sid : SessionId) : String :=
  mb.stateRoot ++ "/presence/" ++ sid ++ ".inbox.jsonl"

def Mailbox.ackPath (mb : Mailbox) (sid : SessionId) : String :=
  mb.stateRoot ++ "/presence/" ++ sid ++ ".inbox.ack.jsonl"

def readLines (path : String) (file : File) : Except CosmonError (List (List UInt8)) :=
  match file with
  | none => .ok []
  | some text =>
    if validUtf8 text then .ok (readerLines text)
    else .error (.stateStore ("failed to read " ++ path ++ ": stream did not contain valid UTF-8"))

def appendLine (file : File) (line : List UInt8) : File := some (file.text ++ (line ++ [newline]))

section Read

variable (cx : Codec) (mb : Mailbox) (sid : SessionId)

def envelopes : Except CosmonError (List PilotMessage) :=
  (readLines (mb.inboxPath sid) (mb.inbox sid)).map fun lines => lines.filterMap cx.parseMessage

/-- The earliest acknowledgement of an id counts. -/
def noteAck (acks : MessageId → Option Instant) (ack : MessageAck) : MessageId → Option Instant :=
  Function.update acks ack.id (some ((acks ack.id).elim ack.readAt fun prior => min prior ack.readAt))

def acks : Except CosmonError (MessageId → Option Instant) :=
  (readLines (mb.ackPath sid) (mb.ack sid)).map fun lines =>
    (lines.filterMap cx.parseAck).foldl noteAck fun _ => none

def entry (acks : MessageId → Option Instant) (now : Instant) (message : PilotMessage) : MailboxEntry where
  message := message
  readAt := acks message.id
  state := message.state now (acks message.id)

/-- The envelopes in the order of their sequence numbers, without neighbours of one id. -/
def entries (now : Instant) : Except CosmonError (List MailboxEntry) := do
  let acks ← acks cx mb sid
  let envelopes ← envelopes cx mb sid
  return collapse (fun e => e.message.id)
    (sortByRank (fun e => e.message.sequence) (envelopes.map (entry acks now)))

def pending (now : Instant) : Except CosmonError (List MailboxEntry) :=
  (entries cx mb sid now).map fun entries => entries.filter fun e => e.readAt.isNone

def nextSequence : Except CosmonError Nat :=
  (envelopes cx mb sid).map fun envelopes => (envelopes.map (·.sequence)).foldl max 0 + 1

end Read

structure World where
  mail : Mailbox
  held : Nat → Option PilotMessage := fun _ => none

/-- The steps of the calls. A delivery looks whether its message is there, and appends it
in a second step if it is not. -/
inductive Op where
  | look (sender : Nat) (message : PilotMessage)
  | append (sender : Nat)
  | ack (sid : SessionId) (id : MessageId) (readAt : Instant)

def Mailbox.putInbox (mb : Mailbox) (message : PilotMessage) (line : List UInt8) : Mailbox :=
  { mb with inbox := Function.update mb.inbox message.receiver (appendLine (mb.inbox message.receiver) line) }

def Mailbox.putAck (mb : Mailbox) (sid : SessionId) (line : List UInt8) : Mailbox :=
  { mb with ack := Function.update mb.ack sid (appendLine (mb.ack sid) line) }

@[simp] theorem putInbox_inbox (mb : Mailbox) (message : PilotMessage) (line : List UInt8) :
    (mb.putInbox message line).inbox =
      Function.update mb.inbox message.receiver (appendLine (mb.inbox message.receiver) line) := rfl

@[simp] theorem putAck_ack (mb : Mailbox) (sid : SessionId) (line : List UInt8) :
    (mb.putAck sid line).ack = Function.update mb.ack sid (appendLine (mb.ack sid) line) := rfl

def present (cx : Codec) (mb : Mailbox) (message : PilotMessage) : Except CosmonError Bool :=
  (envelopes cx mb message.receiver).map fun envelopes => envelopes.any fun e => e.id = message.id

def World.step (cx : Codec) (w : World) : Op → World
  | .look sender message =>
    match present cx w.mail message with
    | .ok false => { w with held := Function.update w.held sender (some message) }
    | .ok true | .error _ => { w with held := Function.update w.held sender none }
  | .append sender =>
    match w.held sender with
    | some message =>
      { mail := w.mail.putInbox message (cx.message message), held := Function.update w.held sender none }
    | none => w
  | .ack sid id readAt => { w with mail := w.mail.putAck sid (cx.ack ⟨id, readAt⟩) }

section Lines

variable {α : Type} {text line : List UInt8} {parse : List UInt8 → Option α}

def records (parse : List UInt8 → Option α) (text : List UInt8) : List α := (readerLines text).filterMap parse

def torn (text : List UInt8) : List UInt8 := (splitLines newline text).2

theorem Utf8State.feed_due {s s' : Utf8State} {b : UInt8} (h : s.feed b = some s') (hdue : s'.due = 0) :
    s' = .boundary := by
  unfold Utf8State.feed at h
  split at h
  · split at h
    · cases h
      obtain rfl := hdue
      rfl
    · cases h
  · repeat' split at h
    all_goals cases h
    all_goals first | rfl | cases hdue

theorem validUtf8_iff : validUtf8 text ↔ text.foldlM Utf8State.feed .boundary = some .boundary := by
  constructor
  · intro h
    unfold validUtf8 at h
    split at h
    · rename_i s hs
      rw [hs]
      refine congrArg some ?_
      induction text using List.reverseRecOn with
      | nil =>
        cases hs
        rfl
      | append_singleton text b _ =>
        rw [List.foldlM_append] at hs
        obtain ⟨s₁, _, hs⟩ := Option.bind_eq_some_iff.mp hs
        obtain ⟨s₂, hfeed, hs⟩ := Option.bind_eq_some_iff.mp hs
        cases hs
        exact Utf8State.feed_due hfeed (of_decide_eq_true h)
    · cases h
  · intro h
    rw [validUtf8, h]
    rfl

theorem validUtf8_append (htext : validUtf8 text) (hline : validUtf8 line) : validUtf8 (text ++ line) := by
  rw [validUtf8_iff] at htext hline ⊢
  rw [List.foldlM_append, htext]
  exact hline

theorem OneLine.validUtf8_line (h : OneLine line) : validUtf8 (line ++ [newline]) :=
  validUtf8_append h.utf8 rfl

theorem OneLine.getLast?_append (h : OneLine line) : (text ++ line).getLast? = some 0x7D := by
  rw [List.getLast?_append, h.brace]
  rfl

def settled (parse : List UInt8 → Option α) (text : List UInt8) : List α :=
  ((completeLines newline text).map fun l => if l.getLast? = some carriageReturn then l.dropLast else l).filterMap
    parse

theorem filterMap_singleton (parse : List UInt8 → Option α) (line : List UInt8) :
    [line].filterMap parse = (parse line).toList := by
  cases hparse : parse line with
  | none => rw [List.filterMap_cons_none hparse, List.filterMap_nil, Option.toList_none]
  | some a => rw [List.filterMap_cons_some hparse, List.filterMap_nil, Option.toList_some]

/-- The records after a line has been appended: those of the complete lines, and what the
line has become behind an unfinished one. -/
theorem records_append (h : OneLine line) : records parse (text ++ (line ++ [newline])) =
    settled parse text ++ (parse (torn text ++ line)).toList := by
  have hbrace : ¬(torn text ++ line).getLast? = some carriageReturn := by
    rw [h.getLast?_append]
    decide
  rw [records, readerLines, splitLines_append_line h.no_newline]
  dsimp only
  rw [if_pos rfl, List.append_nil, List.map_append, List.map_singleton, ← torn, if_neg hbrace,
    List.filterMap_append, filterMap_singleton, settled]

theorem records_eq_settled (h : torn text = [] ∨ parse (torn text) = none) :
    records parse text = settled parse text := by
  rw [records, readerLines, List.filterMap_append, ← torn]
  refine (congrArg _ ?_).trans (List.append_nil _)
  split
  · rfl
  · rename_i htorn
    rw [filterMap_singleton, h.resolve_left htorn, Option.toList_none]

/-- The line of a record is read as that record behind what the file ends with, which
holds no record by itself. -/
structure Lands (parse : List UInt8 → Option α) (file : File) (line : List UInt8) (a : α) : Prop where
  utf8 : validUtf8 file.text
  apart : torn file.text = [] ∨ parse (torn file.text) = none
  joined : parse (torn file.text ++ line) = some a

variable {file : File} {a : α}

theorem Lands.records_append (h : Lands parse file line a) (hline : OneLine line) :
    records parse (appendLine file line).text = records parse file.text ++ [a] := by
  have happend : records parse (appendLine file line).text =
      settled parse file.text ++ (parse (torn file.text ++ line)).toList := PilotMailbox.records_append hline
  rw [h.joined, ← records_eq_settled h.apart] at happend
  exact happend

theorem Lands.utf8_append (h : Lands parse file line a) (hline : OneLine line) :
    validUtf8 (appendLine file line).text := validUtf8_append h.utf8 hline.validUtf8_line

end Lines

section Calls

variable {cx : Codec} {mb : Mailbox} {sid : SessionId}

theorem readLines_eq {path : String} {file : File} (h : validUtf8 file.text) :
    readLines path file = .ok (readerLines file.text) := by
  cases file with
  | none => rfl
  | some text => exact if_pos h

theorem utf8_of_readLines {path : String} {file : File} {lines : List (List UInt8)}
    (h : readLines path file = .ok lines) : validUtf8 file.text := by
  cases file with
  | none => rfl
  | some text =>
    by_contra hinvalid
    cases (if_neg hinvalid).symm.trans h

def letters (cx : Codec) (mb : Mailbox) (sid : SessionId) : List PilotMessage :=
  records cx.parseMessage (mb.inbox sid).text

def notes (cx : Codec) (mb : Mailbox) (sid : SessionId) : MessageId → Option Instant :=
  (records cx.parseAck (mb.ack sid).text).foldl noteAck fun _ => none

theorem envelopes_eq (h : validUtf8 (mb.inbox sid).text) : envelopes cx mb sid = .ok (letters cx mb sid) := by
  rw [envelopes, readLines_eq h]
  rfl

theorem acks_eq (h : validUtf8 (mb.ack sid).text) : acks cx mb sid = .ok (notes cx mb sid) := by
  rw [acks, readLines_eq h]
  rfl

def listed (cx : Codec) (mb : Mailbox) (sid : SessionId) (now : Instant) : List MailboxEntry :=
  collapse (fun e => e.message.id)
    (sortByRank (fun e => e.message.sequence) ((letters cx mb sid).map (entry (notes cx mb sid) now)))

variable (hinbox : validUtf8 (mb.inbox sid).text) (hack : validUtf8 (mb.ack sid).text) (now : Instant)

include hinbox hack

theorem entries_eq : entries cx mb sid now = .ok (listed cx mb sid now) := by
  rw [entries, acks_eq hack, envelopes_eq hinbox]
  rfl

theorem pending_eq : pending cx mb sid now = .ok ((listed cx mb sid now).filter fun e => e.readAt.isNone) := by
  rw [pending, entries_eq hinbox hack]
  rfl

omit hinbox hack in
theorem mem_listed_ids {id : MessageId} : (id ∈ (listed cx mb sid now).map fun e => e.message.id) ↔
    id ∈ (letters cx mb sid).map PilotMessage.id := by
  rw [listed, mem_map_collapse, ((sortByRank_perm _).map _).mem_iff, List.map_map]
  rfl

omit hinbox hack in
theorem listed_readAt {e : MailboxEntry} (h : e ∈ listed cx mb sid now) :
    e.readAt = notes cx mb sid e.message.id := by
  have hsorted := (List.destutter_sublist _ _).subset h
  obtain ⟨message, _, rfl⟩ := List.mem_map.mp ((sortByRank_perm _).subset hsorted)
  rfl

end Calls

section Steps

variable {cx : Codec} {w : World}

/-- A step leaves the files and may drop or pick up a message, or appends an envelope that
is held, or an acknowledgement. -/
inductive Effect (cx : Codec) (w : World) : Op → World → Prop where
  | keep {op : Op} (sender : Nat) (message : Option PilotMessage)
    (held : ∀ m, message = some m → op = .look sender m) :
    Effect cx w op { w with held := Function.update w.held sender message }
  | idle (sender : Nat) (held : w.held sender = none) : Effect cx w (.append sender) w
  | append (sender : Nat) (message : PilotMessage) (held : w.held sender = some message) :
    Effect cx w (.append sender) ⟨w.mail.putInbox message (cx.message message),
      Function.update w.held sender none⟩
  | ack (sid : SessionId) (id : MessageId) (readAt : Instant) :
    Effect cx w (.ack sid id readAt) { w with mail := w.mail.putAck sid (cx.ack ⟨id, readAt⟩) }

theorem step_effect (w : World) (op : Op) : Effect cx w op (World.step cx w op) := by
  cases op with
  | look sender message =>
    simp only [World.step]
    split
    · exact .keep sender (some message) fun m hm => by rw [Option.some.inj hm]
    · exact .keep sender none fun m hm => by cases hm
    · exact .keep sender none fun m hm => by cases hm
  | append sender =>
    cases hheld : w.held sender with
    | none =>
      simp only [World.step, hheld]
      exact .idle sender hheld
    | some message =>
      simp only [World.step, hheld]
      exact .append sender message hheld
  | ack sid id readAt => exact .ack sid id readAt

theorem letters_putInbox {message : PilotMessage} (hline : OneLine (cx.message message))
    (h : Lands cx.parseMessage (w.mail.inbox message.receiver) (cx.message message) message) (sid : SessionId) :
    letters cx (w.mail.putInbox message (cx.message message)) sid =
      letters cx w.mail sid ++ if sid = message.receiver then [message] else [] := by
  rw [letters, putInbox_inbox]
  by_cases hsid : sid = message.receiver
  · subst hsid
    rw [Function.update_self, h.records_append hline, if_pos rfl]
    rfl
  · rw [Function.update_of_ne hsid, if_neg hsid, List.append_nil]
    rfl

theorem notes_putAck {sid : SessionId} {ack : MessageAck} (hline : OneLine (cx.ack ack))
    (h : Lands cx.parseAck (w.mail.ack sid) (cx.ack ack) ack) (other : SessionId) :
    notes cx (w.mail.putAck sid (cx.ack ack)) other =
      if other = sid then noteAck (notes cx w.mail sid) ack else notes cx w.mail other := by
  rw [notes, putAck_ack]
  by_cases hother : other = sid
  · subst hother
    rw [Function.update_self, h.records_append hline, if_pos rfl, List.foldl_append]
    rfl
  · rw [Function.update_of_ne hother, if_neg hother]
    rfl

theorem noteAck_self (acks : MessageId → Option Instant) (ack : MessageAck) :
    ∃ r, noteAck acks ack ack.id = some r ∧ r ≤ ack.readAt := by
  rw [noteAck, Function.update_self]
  cases acks ack.id with
  | none => exact ⟨_, rfl, le_refl _⟩
  | some prior => exact ⟨_, rfl, min_le_right prior ack.readAt⟩

theorem noteAck_le {acks : MessageId → Option Instant} {id : MessageId} {r : Instant} (ack : MessageAck)
    (h : acks id = some r) : ∃ r', noteAck acks ack id = some r' ∧ r' ≤ r := by
  rw [noteAck]
  by_cases hid : id = ack.id
  · subst hid
    rw [Function.update_self, h]
    exact ⟨_, rfl, min_le_left r ack.readAt⟩
  · rw [Function.update_of_ne hid]
    exact ⟨r, h, le_refl r⟩

end Steps

end Cosmon.Filestore.PilotMailbox
