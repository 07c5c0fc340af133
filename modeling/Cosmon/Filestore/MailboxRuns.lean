import Cosmon.Filestore.PilotMailbox
import Cosmon.Lib.Runs

namespace Cosmon.Filestore.PilotMailbox

open Cosmon.Lib.Lines Cosmon.Lib.Neighbours Cosmon.Lib.Runs Cosmon.State.Molecule Cosmon.State.EventLog
  Cosmon.Core.PilotLeases

variable (cx : Codec)

/-- The mailbox of a run before its `n`-th step. -/
def worldAt (w : World) (ops : List Op) (n : Nat) : World := stateAt (World.step cx) w ops n

theorem worldAt_succ {w : World} {ops : List Op} {n : Nat} {op : Op} (h : ops[n]? = some op) :
    worldAt cx w ops (n + 1) = World.step cx (worldAt cx w ops n) op := stateAt_succ _ h w

def Once (call : Except CosmonError (List MailboxEntry)) : Prop :=
  ∃ es, call = .ok es ∧ (es.map fun e => e.message.id).Nodup

def ReadBy (mb : Mailbox) (sid : SessionId) (id : MessageId) (readAt : Instant) : Prop :=
  ∃ as r, acks cx mb sid = .ok as ∧ as id = some r ∧ r ≤ readAt

/-- At all times every message is listed once, and what has been acknowledged stays so,
and is not pending any more. -/
structure ConsumedOnce (w : World) (ops : List Op) : Prop where
  entries : ∀ n sid now, Once (entries cx (worldAt cx w ops n).mail sid now)
  pending : ∀ n sid now, Once (pending cx (worldAt cx w ops n).mail sid now)
  consumed : ∀ n sid id readAt, ops[n]? = some (.ack sid id readAt) → ∀ m, n < m → ∀ now,
    ∃ es, PilotMailbox.pending cx (worldAt cx w ops m).mail sid now = .ok es ∧ ∀ e ∈ es, e.message.id ≠ id
  readAt : ∀ n m sid id r as, n ≤ m → acks cx (worldAt cx w ops n).mail sid = .ok as → as id = some r →
    ReadBy cx (worldAt cx w ops m).mail sid id r

/-- No two ids of an inbox each have an envelope ahead of one of the other, in the order
of sequence numbers and, for one number, of the file. -/
def Uncrossed (inbox : List PilotMessage) : Prop :=
  ∀ a b c d, Ahead PilotMessage.sequence inbox a b → Ahead PilotMessage.sequence inbox c d →
    a.id = d.id → b.id = c.id → a.id = b.id

theorem uncrossed_of_length_le_one {inbox : List PilotMessage} (h : inbox.length ≤ 1) : Uncrossed inbox := by
  rintro a b c d (⟨_, ha, hb⟩ | ⟨_, hab⟩) - - -
  · obtain _ | ⟨x, inbox⟩ := inbox
    · cases ha
    · obtain rfl := List.length_eq_zero_iff.mp (Nat.le_zero.mp (Nat.le_of_succ_le_succ h))
      rw [List.mem_singleton.mp ha, List.mem_singleton.mp hb]
  · exact absurd (hab.length_le.trans h) (Nat.not_succ_le_self 1)

/-- The inboxes are not crossed at first, and no message is appended that crosses one. -/
structure AppendsUncrossed (w : World) (ops : List Op) : Prop where
  start : ∀ sid es, envelopes cx w.mail sid = .ok es → Uncrossed es
  append : ∀ n sender message es, ops[n]? = some (.append sender) →
    (worldAt cx w ops n).held sender = some message →
    envelopes cx (worldAt cx w ops n).mail message.receiver = .ok es → Uncrossed (es ++ [message])

structure Whole (file : File) : Prop where
  closed : Closed newline file.text
  utf8 : validUtf8 file.text

def Op.Reads : Op → Prop
  | .look _ message => cx.Reads message
  | .append _ => True
  | .ack _ id readAt => cx.ReadsAck ⟨id, readAt⟩

structure Sound (w : World) : Prop where
  inbox : ∀ sid, Whole (w.mail.inbox sid)
  ack : ∀ sid, Whole (w.mail.ack sid)
  held : ∀ sender message, w.held sender = some message → cx.Reads message

theorem whole_none : Whole none := ⟨rfl, rfl⟩

theorem sound_new (stateRoot : String) : Sound cx ⟨{ stateRoot := stateRoot }, fun _ => none⟩ :=
  ⟨fun _ => whole_none, fun _ => whole_none, fun _ _ h => by cases h⟩

section Files

variable {file : File} {line : List UInt8} {α : Type} {parse : List UInt8 → Option α}

theorem Whole.append (hfile : Whole file) (hline : OneLine line) : Whole (appendLine file line) where
  closed := closed_append hfile.closed (closed_line hline.no_newline)
  utf8 := validUtf8_append hfile.utf8 hline.validUtf8_line

theorem Whole.lands {a : α} (hfile : Whole file) (h : parse line = some a) : Lands parse file line a where
  utf8 := hfile.utf8
  apart := Or.inl hfile.closed
  joined := by
    rw [torn, hfile.closed]
    exact h

end Files

section Calls

variable {cx} {mb : Mailbox} {sid : SessionId} (hinbox : validUtf8 (mb.inbox sid).text)
  (hack : validUtf8 (mb.ack sid).text) (now : Instant)

theorem nodup_listed :
    ((listed cx mb sid now).map fun e => e.message.id).Nodup ↔ Uncrossed (letters cx mb sid) := by
  rw [listed, sortByRank_map, map_collapse_map]
  exact nodup_collapse_sortByRank

include hinbox hack

theorem entries_once : Once (entries cx mb sid now) ↔ Uncrossed (letters cx mb sid) := by
  rw [entries_eq hinbox hack, ← nodup_listed now]
  constructor
  · rintro ⟨es, hes, honce⟩
    cases hes
    exact honce
  · exact fun honce => ⟨_, rfl, honce⟩

theorem pending_once (h : Once (entries cx mb sid now)) : Once (pending cx mb sid now) := by
  rw [entries_once hinbox hack, ← nodup_listed now] at h
  rw [pending_eq hinbox hack]
  exact ⟨_, rfl, h.sublist (List.filter_sublist.map _)⟩

omit hinbox in
theorem readBy_iff {id : MessageId} {readAt : Instant} :
    ReadBy cx mb sid id readAt ↔ ∃ r, notes cx mb sid id = some r ∧ r ≤ readAt := by
  rw [ReadBy, acks_eq hack]
  constructor
  · rintro ⟨as, r, has, hr⟩
    cases has
    exact ⟨r, hr⟩
  · exact fun ⟨r, hr⟩ => ⟨_, r, rfl, hr⟩

theorem pending_ne {id : MessageId} {readAt : Instant} (h : ReadBy cx mb sid id readAt) :
    ∃ es, pending cx mb sid now = .ok es ∧ ∀ e ∈ es, e.message.id ≠ id := by
  obtain ⟨r, hr, -⟩ := (readBy_iff hack).mp h
  refine ⟨_, pending_eq hinbox hack now, ?_⟩
  rintro e he rfl
  obtain ⟨he, hnone⟩ := List.mem_filter.mp he
  rw [listed_readAt now he, hr] at hnone
  cases hnone

end Calls

section Steps

variable {cx} {w w' : World} {op : Op}

def HoldsReadable (cx : Codec) (w : World) : Prop :=
  ∀ sender message, w.held sender = some message → cx.Reads message

theorem Effect.holdsReadable (h : Effect cx w op w') (hheld : HoldsReadable cx w) (hop : op.Reads cx) :
    HoldsReadable cx w' := by
  have hupdate (sender : Nat) (message : Option PilotMessage) (hmessage : ∀ m, message = some m → cx.Reads m) :
      ∀ other m, Function.update w.held sender message other = some m → cx.Reads m :=
    (Function.forall_update_iff w.held fun _ held => ∀ m, held = some m → cx.Reads m).mpr
      ⟨hmessage, fun other _ => hheld other⟩
  cases h with
  | keep sender message hlook =>
    refine hupdate sender message ?_
    rintro m rfl
    obtain rfl := hlook m rfl
    exact hop
  | idle sender hidle => exact hheld
  | append sender message hsome => exact hupdate sender none fun m hm => by cases hm
  | ack sid id readAt => exact hheld

theorem Effect.sound (h : Effect cx w op w') (hw : Sound cx w) (hop : op.Reads cx) : Sound cx w' := by
  refine ⟨?_, ?_, h.holdsReadable hw.held hop⟩
  · cases h with
    | keep sender message hlook => exact hw.inbox
    | idle sender hidle => exact hw.inbox
    | append sender message hsome =>
      rw [putInbox_inbox, Function.forall_update_iff w.mail.inbox fun _ => Whole]
      exact ⟨(hw.inbox message.receiver).append (hw.held sender message hsome).1, fun sid _ => hw.inbox sid⟩
    | ack sid id readAt => exact hw.inbox
  · cases h with
    | keep sender message hlook => exact hw.ack
    | idle sender hidle => exact hw.ack
    | append sender message hsome => exact hw.ack
    | ack sid id readAt =>
      rw [putAck_ack, Function.forall_update_iff w.mail.ack fun _ => Whole]
      exact ⟨(hw.ack sid).append hop.1, fun other _ => hw.ack other⟩

theorem Effect.readBy {sid : SessionId} {id : MessageId} {readAt : Instant} (h : Effect cx w op w')
    (hw : Sound cx w) (hop : op.Reads cx) (hread : ReadBy cx w.mail sid id readAt) :
    ReadBy cx w'.mail sid id readAt := by
  rw [readBy_iff ((h.sound hw hop).ack sid).utf8]
  rw [readBy_iff (hw.ack sid).utf8] at hread
  cases h with
  | keep sender message hlook => exact hread
  | idle sender hidle => exact hread
  | append sender message hsome => exact hread
  | ack other id' readAt' =>
    rw [notes_putAck hop.1 ((hw.ack other).lands hop.2)]
    split
    · rename_i heq
      subst heq
      obtain ⟨r, hr, hle⟩ := hread
      obtain ⟨r', hr', hle'⟩ := noteAck_le ⟨id', readAt'⟩ hr
      exact ⟨r', hr', hle'.trans hle⟩
    · exact hread

theorem readBy_ack {sid : SessionId} {id : MessageId} {readAt : Instant} (hw : Sound cx w)
    (hop : cx.ReadsAck ⟨id, readAt⟩) :
    ReadBy cx (World.step cx w (.ack sid id readAt)).mail sid id readAt := by
  rw [readBy_iff (((step_effect w (.ack sid id readAt)).sound hw hop).ack sid).utf8]
  dsimp only [World.step]
  rw [notes_putAck hop.1 ((hw.ack sid).lands hop.2), if_pos rfl]
  exact noteAck_self _ _

end Steps

section Run

variable {cx} {w : World} {ops : List Op} (hw : Sound cx w) (hops : ∀ op ∈ ops, op.Reads cx)

include hw hops

theorem worldAt_sound (n : Nat) : Sound cx (worldAt cx w ops n) := by
  refine stateAt_preserves (P := Sound cx) w ?_ (Nat.zero_le n) hw
  intro k op hop hk
  exact (step_effect _ op).sound hk (hops op (List.mem_of_getElem? hop))

theorem worldAt_readBy {n m : Nat} {sid : SessionId} {id : MessageId} {readAt : Instant} (hnm : n ≤ m)
    (h : ReadBy cx (worldAt cx w ops n).mail sid id readAt) :
    ReadBy cx (worldAt cx w ops m).mail sid id readAt := by
  induction m, hnm using Nat.le_induction with
  | base => exact h
  | succ k _ ih =>
    cases hop : ops[k]? with
    | none =>
      rw [worldAt, stateAt_none _ hop]
      exact ih
    | some op =>
      rw [worldAt_succ cx hop]
      exact (step_effect _ op).readBy (worldAt_sound hw hops k) (hops op (List.mem_of_getElem? hop)) ih

theorem letters_append {n sender : Nat} {message : PilotMessage} (hop : ops[n]? = some (.append sender))
    (hheld : (worldAt cx w ops n).held sender = some message) (sid : SessionId) :
    letters cx (worldAt cx w ops (n + 1)).mail sid = letters cx (worldAt cx w ops n).mail sid ++
      if sid = message.receiver then [message] else [] := by
  have hsound := worldAt_sound hw hops n
  have hreads := hsound.held sender message hheld
  rw [← letters_putInbox hreads.1 ((hsound.inbox message.receiver).lands hreads.2),
    worldAt_succ cx hop]
  dsimp only [World.step]
  rw [hheld]

theorem worldAt_uncrossed (h : AppendsUncrossed cx w ops) (n : Nat) (sid : SessionId) :
    Uncrossed (letters cx (worldAt cx w ops n).mail sid) := by
  induction n generalizing sid with
  | zero => exact h.start sid _ (envelopes_eq (hw.inbox sid).utf8)
  | succ n ih =>
    have hsound := worldAt_sound hw hops n
    cases hop : ops[n]? with
    | none =>
      rw [worldAt, stateAt_none _ hop]
      exact ih sid
    | some op =>
      have hsame (hletters : letters cx (worldAt cx w ops (n + 1)).mail sid =
          letters cx (worldAt cx w ops n).mail sid) :
          Uncrossed (letters cx (worldAt cx w ops (n + 1)).mail sid) := hletters ▸ ih sid
      have heffect : Effect cx (worldAt cx w ops n) op (World.step cx (worldAt cx w ops n) op) :=
        step_effect _ op
      rw [← worldAt_succ cx hop] at heffect
      generalize worldAt cx w ops (n + 1) = w' at hsame heffect
      cases heffect with
      | keep sender message hlook => exact hsame rfl
      | idle sender hidle => exact hsame rfl
      | append sender message hheld =>
        have hreads := hsound.held sender message hheld
        rw [letters_putInbox hreads.1 ((hsound.inbox message.receiver).lands hreads.2)]
        split
        · rename_i hsid
          subst hsid
          exact h.append n sender message _ hop hheld (envelopes_eq (hsound.inbox message.receiver).utf8)
        · rw [List.append_nil]
          exact ih sid
      | ack other id readAt => exact hsame rfl

/-- Every message is consumed once in a run exactly when no append crosses an inbox. -/
theorem consumedOnce_iff : ConsumedOnce cx w ops ↔ AppendsUncrossed cx w ops := by
  have hsound := worldAt_sound hw hops
  constructor
  · intro h
    constructor
    · intro sid es hes
      have honce := (entries_once (hw.inbox sid).utf8 (hw.ack sid).utf8 0).mp (h.entries 0 sid 0)
      rw [envelopes_eq (hw.inbox sid).utf8] at hes
      cases hes
      exact honce
    · intro n sender message es hop hheld hes
      have hafter := hsound (n + 1)
      have honce := (entries_once (hafter.inbox message.receiver).utf8
        (hafter.ack message.receiver).utf8 0).mp
        (h.entries (n + 1) message.receiver 0)
      rw [envelopes_eq ((hsound n).inbox message.receiver).utf8] at hes
      rw [letters_append hw hops hop hheld, if_pos rfl] at honce
      cases hes
      exact honce
  · intro h
    have hentries (n : Nat) (sid : SessionId) (now : Instant) :
        Once (entries cx (worldAt cx w ops n).mail sid now) :=
      (entries_once ((hsound n).inbox sid).utf8 ((hsound n).ack sid).utf8 now).mpr
        (worldAt_uncrossed hw hops h n sid)
    refine ⟨hentries, ?_, ?_, ?_⟩
    · intro n sid now
      exact pending_once ((hsound n).inbox sid).utf8 ((hsound n).ack sid).utf8 now (hentries n sid now)
    · intro n sid id readAt hop m hnm now
      have hack : ReadBy cx (World.step cx (worldAt cx w ops n) (.ack sid id readAt)).mail sid id readAt :=
        readBy_ack (hsound n) (hops _ (List.mem_of_getElem? hop))
      rw [← worldAt_succ cx hop] at hack
      exact pending_ne ((hsound m).inbox sid).utf8 ((hsound m).ack sid).utf8 now
        (worldAt_readBy hw hops hnm hack)
    · intro n m sid id r as hnm has hr
      exact worldAt_readBy hw hops hnm ⟨as, r, has, hr, le_refl r⟩

end Run

section Samples

def claudeOne : PilotMessage where
  id := "msg-a4731c96868f"
  sender := "claude"
  receiver := "codex"
  sequence := 1
  payloadRef := "cas/aaaa"
  payloadHash := "aaaa"
  createdAt := 1785488400

def geminiOne : PilotMessage where
  id := "msg-077840369303"
  sender := "gemini"
  receiver := "codex"
  sequence := 1
  payloadRef := "cas/bbbb"
  payloadHash := "bbbb"
  createdAt := 1785488400

def readOne : MessageAck := ⟨"msg-a4731c96868f", 1785488400⟩

def samples : Codec := .ofSamples
  [(claudeOne, "\x7b\"id\":\"msg-a4731c96868f\",\"from\":\"claude\",\"to\":\"codex\",\"sequence\":1," ++
      "\"payload_ref\":\"cas/aaaa\",\"payload_hash\":\"aaaa\",\"created_at\":\"2026-07-31T09:00:00Z\"\x7d"),
    (geminiOne, "\x7b\"id\":\"msg-077840369303\",\"from\":\"gemini\",\"to\":\"codex\",\"sequence\":1," ++
      "\"payload_ref\":\"cas/bbbb\",\"payload_hash\":\"bbbb\",\"created_at\":\"2026-07-31T09:00:00Z\"\x7d")]
  [(readOne, "\x7b\"id\":\"msg-a4731c96868f\",\"read_at\":\"2026-07-31T09:00:00Z\"\x7d")]

theorem samples_claudeOne : samples.Reads claudeOne := by decide +kernel

theorem samples_geminiOne : samples.Reads geminiOne := by decide +kernel

theorem samples_readOne : samples.ReadsAck readOne := by decide +kernel

def coldWorld : World := ⟨{ stateRoot := ".cosmon/state" }, fun _ => none⟩

def delivery : List Op := [.look 0 claudeOne, .append 0, .ack "codex" "msg-a4731c96868f" 1785488400]

theorem delivery_reads : ∀ op ∈ delivery, op.Reads samples := by
  intro op hop
  simp only [delivery, List.mem_cons, List.not_mem_nil, or_false] at hop
  obtain rfl | rfl | rfl := hop
  · exact samples_claudeOne
  · trivial
  · exact samples_readOne

theorem delivery_consumedOnce : ConsumedOnce samples coldWorld delivery := by
  have hsound := worldAt_sound (sound_new samples ".cosmon/state") delivery_reads
  refine (consumedOnce_iff (sound_new samples ".cosmon/state") delivery_reads).mpr ⟨?_, ?_⟩
  · intro sid es hes
    cases hes
    exact uncrossed_of_length_le_one (Nat.zero_le 1)
  · intro n sender message es hop hheld hes
    have hheld₁ : (worldAt samples coldWorld delivery 1).held 0 = some claudeOne := by decide +kernel
    have hempty : letters samples (worldAt samples coldWorld delivery 1).mail "codex" = [] := by decide +kernel
    obtain rfl | rfl | rfl | hn : n = 0 ∨ n = 1 ∨ n = 2 ∨ delivery.length ≤ n := by
      rw [show delivery.length = 3 from rfl]
      omega
    · cases hop
    · cases hop
      obtain rfl : claudeOne = message := Option.some.inj (hheld₁.symm.trans hheld)
      have hes' := (envelopes_eq ((hsound 1).inbox "codex").utf8).symm.trans hes
      rw [← coldWorld, hempty] at hes'
      cases hes'
      exact uncrossed_of_length_le_one (le_refl 1)
    · cases hop
    · rw [List.getElem?_eq_none hn] at hop
      cases hop

def crossing : List Op :=
  [.look 0 claudeOne, .look 1 claudeOne, .look 2 geminiOne, .append 0, .append 2, .append 1]

theorem crossing_reads : ∀ op ∈ crossing, op.Reads samples := by
  intro op hop
  simp only [crossing, List.mem_cons, List.not_mem_nil, or_false] at hop
  obtain rfl | rfl | rfl | rfl | rfl | rfl := hop
  · exact samples_claudeOne
  · exact samples_claudeOne
  · exact samples_geminiOne
  all_goals trivial

theorem letters_crossing :
    letters samples (worldAt samples coldWorld crossing 6).mail "codex" =
      [claudeOne, geminiOne, claudeOne] := by
  have hsound : Sound samples coldWorld := sound_new samples ".cosmon/state"
  have hheld₀ : (worldAt samples coldWorld crossing 3).held 0 = some claudeOne := rfl
  have hheld₂ : (worldAt samples coldWorld crossing 4).held 2 = some geminiOne := rfl
  have hheld₁ : (worldAt samples coldWorld crossing 5).held 1 = some claudeOne := rfl
  have hempty : letters samples (worldAt samples coldWorld crossing 3).mail "codex" = [] := rfl
  have h₄ := letters_append hsound crossing_reads rfl hheld₀ "codex"
  have h₅ := letters_append hsound crossing_reads rfl hheld₂ "codex"
  have h₆ := letters_append hsound crossing_reads rfl hheld₁ "codex"
  rw [if_pos (show "codex" = claudeOne.receiver from rfl)] at h₄ h₆
  rw [if_pos (show "codex" = geminiOne.receiver from rfl)] at h₅
  calc letters samples (worldAt samples coldWorld crossing 6).mail "codex"
      = letters samples (worldAt samples coldWorld crossing 3).mail "codex" ++ [claudeOne] ++ [geminiOne] ++
          [claudeOne] := by rw [← h₄, ← h₅, ← h₆]
    _ = [claudeOne, geminiOne, claudeOne] := by rw [hempty]; rfl

theorem crossing_not_consumedOnce : ¬ConsumedOnce samples coldWorld crossing := by
  intro h
  have hsound := worldAt_sound (sound_new samples ".cosmon/state") crossing_reads 6
  have honce := (entries_once (hsound.inbox "codex").utf8 (hsound.ack "codex").utf8 0).mp
    (h.entries 6 "codex" 0)
  rw [← coldWorld, letters_crossing] at honce
  have hab : Ahead PilotMessage.sequence [claudeOne, geminiOne, claudeOne] claudeOne geminiOne :=
    Or.inr ⟨rfl, ((List.nil_sublist _).cons_cons _).cons_cons _⟩
  have hba : Ahead PilotMessage.sequence [claudeOne, geminiOne, claudeOne] geminiOne claudeOne :=
    Or.inr ⟨rfl, List.sublist_cons_self _ _⟩
  exact absurd (honce _ _ _ _ hab hba rfl rfl) (by decide)

end Samples

end Cosmon.Filestore.PilotMailbox
