import Cosmon.Filestore.MailboxRuns

namespace Cosmon.Filestore.PilotMailbox

open Cosmon.Lib.Runs Cosmon.State.Molecule Cosmon.State.EventLog Cosmon.Core.PilotLeases

variable (cx : Codec)

/-- A sender finds the message in the inbox of its receiver, and the receiver has it listed. -/
def Shown (mb : Mailbox) (message : PilotMessage) : Prop :=
  present cx mb message = .ok true ∧
    ∀ now, ∃ es, entries cx mb message.receiver now = .ok es ∧ ∃ e ∈ es, e.message.id = message.id

/-- What was delivered, or found to be delivered, stays in the inbox, and what was
acknowledged stays acknowledged. -/
structure AtLeastOnce (w : World) (ops : List Op) : Prop where
  delivered : ∀ n sender message, ops[n]? = some (.append sender) →
    (worldAt cx w ops n).held sender = some message → ∀ m, n < m →
      (∃ es, envelopes cx (worldAt cx w ops m).mail message.receiver = .ok es ∧ message ∈ es) ∧
        Shown cx (worldAt cx w ops m).mail message
  found : ∀ n sender message, ops[n]? = some (.look sender message) →
    present cx (worldAt cx w ops n).mail message = .ok true → ∀ m, n ≤ m →
      Shown cx (worldAt cx w ops m).mail message
  acked : ∀ n sid id readAt, ops[n]? = some (.ack sid id readAt) → ∀ m, n < m →
    ∃ as, acks cx (worldAt cx w ops m).mail sid = .ok as ∧ (as id).isSome

def Op.Lands (w : World) : Op → Prop
  | .look _ message => present cx w.mail message = .ok true → validUtf8 (w.mail.ack message.receiver).text
  | .append sender => ∀ message, w.held sender = some message →
    PilotMailbox.Lands cx.parseMessage (w.mail.inbox message.receiver) (cx.message message) message ∧
      validUtf8 (w.mail.ack message.receiver).text
  | .ack sid id readAt => PilotMailbox.Lands cx.parseAck (w.mail.ack sid) (cx.ack ⟨id, readAt⟩) ⟨id, readAt⟩

def EachLands (w : World) (ops : List Op) : Prop :=
  ∀ n (op : Op), ops[n]? = some op → op.Lands cx (worldAt cx w ops n)

section Steps

variable {cx} {w w' : World} {op : Op} {sid : SessionId}

/-- The files of the session can be read, and the inbox has such an envelope. -/
def HasLetter (cx : Codec) (sid : SessionId) (P : PilotMessage → Prop) (w : World) : Prop :=
  validUtf8 (w.mail.inbox sid).text ∧ validUtf8 (w.mail.ack sid).text ∧ ∃ m ∈ letters cx w.mail sid, P m

def HasNote (cx : Codec) (sid : SessionId) (id : MessageId) (w : World) : Prop :=
  validUtf8 (w.mail.ack sid).text ∧ ∃ r, notes cx w.mail sid id = some r

theorem Effect.utf8_inbox (h : Effect cx w op w') (hheld : HoldsReadable cx w) (hlands : op.Lands cx w)
    (hutf8 : validUtf8 (w.mail.inbox sid).text) : validUtf8 (w'.mail.inbox sid).text := by
  cases h with
  | append sender message hsome =>
    rw [putInbox_inbox, Function.update_apply]
    split
    · exact (hlands message hsome).1.utf8_append (hheld sender message hsome).1
    · exact hutf8
  | keep | idle | ack => exact hutf8

theorem Effect.utf8_ack (h : Effect cx w op w') (hop : op.Reads cx) (hlands : op.Lands cx w)
    (hutf8 : validUtf8 (w.mail.ack sid).text) : validUtf8 (w'.mail.ack sid).text := by
  cases h with
  | ack other id readAt =>
    rw [putAck_ack, Function.update_apply]
    split
    · exact PilotMailbox.Lands.utf8_append hlands hop.1
    · exact hutf8
  | keep | idle | append => exact hutf8

theorem Effect.hasLetter {P : PilotMessage → Prop} (h : Effect cx w op w') (hheld : HoldsReadable cx w)
    (hop : op.Reads cx) (hlands : op.Lands cx w) (hletter : HasLetter cx sid P w) : HasLetter cx sid P w' := by
  obtain ⟨hinbox, hack, m, hm, hP⟩ := hletter
  refine ⟨h.utf8_inbox hheld hlands hinbox, h.utf8_ack hop hlands hack, m, ?_, hP⟩
  cases h with
  | append sender message hsome =>
    rw [letters_putInbox (hheld sender message hsome).1 (hlands message hsome).1]
    exact List.mem_append_left _ hm
  | keep | idle | ack => exact hm

theorem Effect.hasNote {id : MessageId} (h : Effect cx w op w') (hop : op.Reads cx) (hlands : op.Lands cx w)
    (hnote : HasNote cx sid id w) : HasNote cx sid id w' := by
  obtain ⟨hack, r, hr⟩ := hnote
  refine ⟨h.utf8_ack hop hlands hack, ?_⟩
  cases h with
  | ack other id' readAt =>
    rw [notes_putAck hop.1 hlands]
    split
    · rename_i heq
      subst heq
      obtain ⟨r', hr', -⟩ := noteAck_le ⟨id', readAt⟩ hr
      exact ⟨r', hr'⟩
    · exact ⟨r, hr⟩
  | keep | idle | append => exact ⟨r, hr⟩

theorem hasLetter_append {sender : Nat} {message : PilotMessage} (hheld : HoldsReadable cx w)
    (hsome : w.held sender = some message) (hlands : Op.Lands cx w (.append sender)) :
    HasLetter cx message.receiver (· = message) (World.step cx w (.append sender)) := by
  obtain ⟨hinbox, hack⟩ := hlands message hsome
  have hline := (hheld sender message hsome).1
  dsimp only [World.step]
  rw [hsome]
  refine ⟨?_, hack, message, ?_, rfl⟩
  · rw [putInbox_inbox, Function.update_self]
    exact hinbox.utf8_append hline
  · rw [letters_putInbox hline hinbox, if_pos rfl]
    exact List.mem_append_right _ (List.mem_singleton_self message)

theorem hasNote_ack {id : MessageId} {readAt : Instant} (hop : cx.ReadsAck ⟨id, readAt⟩)
    (hlands : Op.Lands cx w (.ack sid id readAt)) :
    HasNote cx sid id (World.step cx w (.ack sid id readAt)) := by
  obtain ⟨r, hr, -⟩ := noteAck_self (notes cx w.mail sid) ⟨id, readAt⟩
  dsimp only [World.step]
  refine ⟨?_, r, ?_⟩
  · rw [putAck_ack, Function.update_self]
    exact PilotMailbox.Lands.utf8_append hlands hop.1
  · rw [notes_putAck hop.1 hlands, if_pos rfl]
    exact hr

end Steps

section Reports

variable {cx} {w : World} {message : PilotMessage}

theorem present_iff (hutf8 : validUtf8 (w.mail.inbox message.receiver).text) :
    present cx w.mail message = .ok true ↔ ∃ e ∈ letters cx w.mail message.receiver, e.id = message.id := by
  rw [present, envelopes_eq hutf8]
  refine Except.ok.injEq _ _ |>.to_iff.trans ?_
  rw [List.any_eq_true]
  simp only [decide_eq_true_eq]

theorem HasLetter.shown (h : HasLetter cx message.receiver (fun e => e.id = message.id) w) :
    Shown cx w.mail message := by
  obtain ⟨hinbox, hack, e, he, hid⟩ := h
  refine ⟨(present_iff hinbox).mpr ⟨e, he, hid⟩, fun now => ⟨_, entries_eq hinbox hack now, ?_⟩⟩
  have hlisted : message.id ∈ (listed cx w.mail message.receiver now).map fun e => e.message.id := by
    rw [mem_listed_ids]
    exact List.mem_map.mpr ⟨e, he, hid⟩
  exact List.mem_map.mp hlisted

end Reports

section Run

variable {cx} {w : World} {ops : List Op} (hheld : HoldsReadable cx w) (hops : ∀ op ∈ ops, op.Reads cx)

include hheld hops

theorem worldAt_holdsReadable (n : Nat) : HoldsReadable cx (worldAt cx w ops n) := by
  refine stateAt_preserves (P := HoldsReadable cx) w ?_ (Nat.zero_le n) hheld
  intro k op hop hk
  exact (step_effect _ op).holdsReadable hk (hops op (List.mem_of_getElem? hop))

variable (hlands : EachLands cx w ops)

include hlands

theorem worldAt_hasLetter {n m : Nat} {sid : SessionId} {P : PilotMessage → Prop} (hnm : n ≤ m)
    (h : HasLetter cx sid P (worldAt cx w ops n)) : HasLetter cx sid P (worldAt cx w ops m) := by
  refine stateAt_preserves (P := HasLetter cx sid P) w ?_ hnm h
  intro k op hop hk
  exact (step_effect _ op).hasLetter (worldAt_holdsReadable hheld hops k)
    (hops op (List.mem_of_getElem? hop)) (hlands k op hop) hk

omit hheld in
theorem worldAt_hasNote {n m : Nat} {sid : SessionId} {id : MessageId} (hnm : n ≤ m)
    (h : HasNote cx sid id (worldAt cx w ops n)) : HasNote cx sid id (worldAt cx w ops m) := by
  refine stateAt_preserves (P := HasNote cx sid id) w ?_ hnm h
  intro k op hop hk
  exact (step_effect _ op).hasNote (hops op (List.mem_of_getElem? hop)) (hlands k op hop) hk

/-- When every line lands, nothing that was delivered or acknowledged is lost. -/
theorem atLeastOnce_of_eachLands : AtLeastOnce cx w ops := by
  constructor
  · intro n sender message hop hsome m hnm
    have happend := hasLetter_append (worldAt_holdsReadable hheld hops n) hsome (hlands n _ hop)
    rw [← worldAt_succ cx hop] at happend
    have hletter := worldAt_hasLetter hheld hops hlands hnm happend
    obtain ⟨hinbox, hack, e, he, rfl⟩ := hletter
    exact ⟨⟨_, envelopes_eq hinbox, he⟩, HasLetter.shown ⟨hinbox, hack, e, he, rfl⟩⟩
  · intro n sender message hop hpresent m hnm
    refine HasLetter.shown (worldAt_hasLetter hheld hops hlands hnm ?_)
    have hinbox : validUtf8 ((worldAt cx w ops n).mail.inbox message.receiver).text := by
      cases hlines : readLines ((worldAt cx w ops n).mail.inboxPath message.receiver)
          ((worldAt cx w ops n).mail.inbox message.receiver) with
      | ok lines => exact utf8_of_readLines hlines
      | error e =>
        rw [present, envelopes, hlines] at hpresent
        cases hpresent
    exact ⟨hinbox, hlands n _ hop hpresent, (present_iff hinbox).mp hpresent⟩
  · intro n sid id readAt hop m hnm
    have hnote := hasNote_ack (hops _ (List.mem_of_getElem? hop)) (hlands n _ hop)
    rw [← worldAt_succ cx hop] at hnote
    obtain ⟨hack, r, hr⟩ := worldAt_hasNote hops hlands hnm hnote
    exact ⟨_, acks_eq hack, by rw [hr]; rfl⟩

end Run

theorem Sound.eachLands {w : World} {ops : List Op} (hw : Sound cx w) (hops : ∀ op ∈ ops, op.Reads cx) :
    EachLands cx w ops := by
  intro n op hop
  have hsound := worldAt_sound hw hops n
  have hreads := hops op (List.mem_of_getElem? hop)
  cases op with
  | look sender message => exact fun _ => (hsound.ack message.receiver).utf8
  | append sender =>
    intro message hsome
    exact ⟨(hsound.inbox message.receiver).lands (hsound.held sender message hsome).2,
      (hsound.ack message.receiver).utf8⟩
  | ack sid id readAt => exact (hsound.ack sid).lands hreads.2

section Samples

theorem delivery_atLeastOnce : AtLeastOnce samples coldWorld delivery :=
  have hsound := sound_new samples ".cosmon/state"
  atLeastOnce_of_eachLands hsound.held delivery_reads (hsound.eachLands samples delivery_reads)

def tornWorld : World where
  mail := { stateRoot := ".cosmon/state", inbox := fun sid =>
    if sid = "codex" then some (ascii "\x7b\"id\":\"msg-trun") else none }

theorem torn_not_atLeastOnce : ¬AtLeastOnce samples tornWorld delivery := by
  intro h
  have hheld : (worldAt samples tornWorld delivery 1).held 0 = some claudeOne := by decide +kernel
  obtain ⟨⟨es, hes, hmem⟩, -⟩ := h.delivered 1 0 claudeOne rfl hheld 2 (by decide)
  have hutf8 : validUtf8 ((worldAt samples tornWorld delivery 2).mail.inbox "codex").text := by decide +kernel
  have hempty : letters samples (worldAt samples tornWorld delivery 2).mail "codex" = [] := by decide +kernel
  have hletters := (envelopes_eq hutf8).symm.trans hes
  rw [hempty] at hletters
  cases hletters
  cases hmem

end Samples

end Cosmon.Filestore.PilotMailbox
