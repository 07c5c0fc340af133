import Mathlib.Algebra.GroupWithZero.Nat
import Cosmon.Core.WorkMessage

namespace Cosmon.Core.WorkProjection

open Cosmon.State.Molecule Cosmon.Core.PilotLeases Cosmon.Core.WorkMessage Cosmon.Lib Cosmon.Lib.Checks

section Note

variable (view : EnvelopeView) (receipt : Receipt)

theorem note_envelope : (view.note receipt).1.envelope = view.envelope := by
  unfold EnvelopeView.note
  split
  · rfl
  · cases receipt.stage <;> dsimp only <;> split_ifs <;> rfl

theorem note_recipientBound : (view.note receipt).1.recipientBound = view.recipientBound := by
  unfold EnvelopeView.note
  split
  · rfl
  · cases receipt.stage <;> dsimp only <;> split_ifs <;> rfl

theorem note_expired (h : view.expired = true) : (view.note receipt).1.expired = true := by
  unfold EnvelopeView.note
  split
  · exact h
  · cases receipt.stage with
    | admitted | deliveryAttempted _ _ _ => exact h
    | contextDelivered _ _ | consumed _ _ _ =>
      dsimp only
      split_ifs <;> exact h
    | expired => rfl

theorem note_consumed (hkey : view.envelope.key = receipt.key) :
    (view.note receipt).1.consumed.isSome ↔
      view.consumed.isSome ∨ receipt.Consumes view.envelope := by
  unfold EnvelopeView.note
  split
  · rename_i hdigest
    exact (or_iff_left fun h => hdigest h.1.digest).symm
  · rename_i hdigest
    cases hstage : receipt.stage with
    | admitted | deliveryAttempted _ _ _ | expired =>
      refine (or_iff_left fun h => ?_).symm
      have hconsumed := h.2
      rw [hstage] at hconsumed
      cases hconsumed
    | contextDelivered _ _ =>
      have hno : ¬receipt.Consumes view.envelope := fun h => by
        have hconsumed := h.2
        rw [hstage] at hconsumed
        cases hconsumed
      dsimp only
      split_ifs <;> exact (or_iff_left hno).symm
    | consumed disposition reply noteDigest =>
      dsimp only
      split_ifs with hobserver hfirst
      · refine (or_iff_left fun h => hobserver (h.1.reporter ?_)).symm
        rw [hstage]
        rfl
      · refine ⟨fun _ => Or.inr ⟨⟨hkey, of_not_not hdigest, fun _ => of_not_not hobserver⟩, ?_⟩,
          fun _ => rfl⟩
        rw [hstage]
        rfl
      · have hsome : view.consumed.isSome = true := Option.isSome_iff_ne_none.mpr (by simpa using hfirst)
        exact ⟨Or.inl, fun _ => hsome⟩

theorem note_sound (hkey : view.envelope.key = receipt.key) :
    (view.note receipt).2.any ProjectionFinding.isCorrupt = false ↔ receipt.Fits view.envelope := by
  unfold EnvelopeView.note
  split
  · rename_i hdigest
    exact ⟨fun h => (nomatch h), fun h => absurd h.digest hdigest⟩
  · rename_i hdigest
    have hfits (h : receipt.stage.isConsumed = true → receipt.observer = .seat view.envelope.recipient) :
        receipt.Fits view.envelope := ⟨hkey, of_not_not hdigest, h⟩
    cases hstage : receipt.stage with
    | admitted | deliveryAttempted _ _ _ | expired =>
      rw [hstage] at hfits
      exact ⟨fun _ => hfits fun h => (nomatch h), fun _ => rfl⟩
    | contextDelivered _ _ =>
      rw [hstage] at hfits
      dsimp only
      split_ifs <;> exact ⟨fun _ => hfits fun h => (nomatch h), fun _ => rfl⟩
    | consumed disposition reply noteDigest =>
      dsimp only
      split_ifs with hobserver hfirst
      · refine ⟨fun h => (nomatch h), fun h => absurd (h.reporter ?_) hobserver⟩
        rw [hstage]
        rfl
      · exact ⟨fun _ => hfits fun _ => of_not_not hobserver, fun _ => rfl⟩
      · exact ⟨fun _ => hfits fun _ => of_not_not hobserver, fun _ => rfl⟩

end Note

section Fold

/-- What the receipts made of the opened views. -/
structure Folded (opened : List EnvelopeView) (receipts : List Receipt)
    (folded : List EnvelopeView × List ProjectionFinding) : Prop where
  envelopes : folded.1.map EnvelopeView.envelope = opened.map EnvelopeView.envelope
  views : ∀ view ∈ folded.1, ∃ first ∈ opened, view.envelope = first.envelope ∧
    view.recipientBound = first.recipientBound ∧ (first.expired = true → view.expired = true) ∧
      (view.consumed.isSome ↔ ∃ receipt ∈ receipts, receipt.Consumes view.envelope)
  sound : folded.2.any ProjectionFinding.isCorrupt = false ↔
    ∀ receipt ∈ receipts, ∃ first ∈ opened, receipt.Fits first.envelope

variable {opened : List EnvelopeView} {receipts : List Receipt}

theorem keys_of_envelopes {views : List EnvelopeView}
    (h : views.map EnvelopeView.envelope = opened.map EnvelopeView.envelope) :
    views.map EnvelopeView.key = opened.map EnvelopeView.key := by
  have hkeys := congrArg (List.map Envelope.key) h
  rwa [List.map_map, List.map_map] at hkeys

section Receipts

variable {folded : List EnvelopeView × List ProjectionFinding} {receipt : Receipt}

theorem note_key (view : EnvelopeView) (receipt : Receipt) : (view.note receipt).1.key = view.key :=
  congrArg Envelope.key (note_envelope view receipt)

theorem noteReceipt_mem {view : EnvelopeView} (h : view ∈ (noteReceipt folded receipt).1) :
    (∃ known ∈ folded.1, known.key = receipt.key ∧ view = (known.note receipt).1) ∨
      (view ∈ folded.1 ∧ view.key ≠ receipt.key) := by
  rw [noteReceipt] at h
  cases hget : Keyed.get EnvelopeView.key receipt.key folded.1 with
  | none =>
    simp only [hget] at h
    exact Or.inr ⟨h, fun hkey => Keyed.get_none.mp hget (hkey ▸ List.mem_map_of_mem h)⟩
  | some known =>
    simp only [hget] at h
    obtain ⟨hmem, hkey⟩ := Keyed.get_mem hget
    obtain ⟨rfl, _⟩ | ⟨hview, hne⟩ := Keyed.mem_set h
    · exact Or.inl ⟨known, hmem, hkey, rfl⟩
    · rw [note_key, hkey] at hne
      exact Or.inr ⟨hview, hne⟩

theorem noteReceipt_envelopes (hkeys : (folded.1.map EnvelopeView.key).Nodup) :
    (noteReceipt folded receipt).1.map EnvelopeView.envelope = folded.1.map EnvelopeView.envelope := by
  rw [noteReceipt]
  cases hget : Keyed.get EnvelopeView.key receipt.key folded.1 with
  | none => rfl
  | some known =>
    obtain ⟨hknown, _⟩ := Keyed.get_mem hget
    dsimp only
    rw [Keyed.set, List.map_map]
    refine List.map_congr_left fun other hother => ?_
    dsimp only [Function.comp_apply]
    split
    · rename_i hsame
      rw [note_envelope, List.inj_on_of_nodup_map hkeys hother hknown (hsame.trans (note_key known receipt))]
    · rfl

theorem noteReceipt_sound (hkeys : (folded.1.map EnvelopeView.key).Nodup) :
    (noteReceipt folded receipt).2.any ProjectionFinding.isCorrupt = false ↔
      folded.2.any ProjectionFinding.isCorrupt = false ∧
        ∃ envelope ∈ folded.1.map EnvelopeView.envelope, receipt.Fits envelope := by
  rw [noteReceipt]
  cases hget : Keyed.get EnvelopeView.key receipt.key folded.1 with
  | none =>
    dsimp only
    rw [List.any_append, Bool.or_eq_false_iff]
    refine and_congr_right fun _ => ⟨fun hsound => (nomatch hsound), ?_⟩
    rintro ⟨envelope, hmem, hfits⟩
    obtain ⟨view, hview, rfl⟩ := List.mem_map.mp hmem
    exact absurd (hfits.key ▸ List.mem_map_of_mem hview) (Keyed.get_none.mp hget)
  | some known =>
    obtain ⟨hknown, hkey⟩ := Keyed.get_mem hget
    dsimp only
    rw [List.any_append, Bool.or_eq_false_iff, note_sound known receipt hkey]
    refine and_congr_right fun _ => ⟨fun hfits => ⟨_, List.mem_map_of_mem hknown, hfits⟩, ?_⟩
    rintro ⟨envelope, hmem, hfits⟩
    obtain ⟨view, hview, rfl⟩ := List.mem_map.mp hmem
    rwa [List.inj_on_of_nodup_map hkeys hview hknown (hfits.key.trans hkey.symm)] at hfits

end Receipts

theorem Folded.step (hkeys : (opened.map EnvelopeView.key).Nodup)
    {folded : List EnvelopeView × List ProjectionFinding} (h : Folded opened receipts folded)
    (receipt : Receipt) : Folded opened (receipts ++ [receipt]) (noteReceipt folded receipt) := by
  have hviewKeys : (folded.1.map EnvelopeView.key).Nodup := keys_of_envelopes h.envelopes ▸ hkeys
  refine ⟨(noteReceipt_envelopes hviewKeys).trans h.envelopes, fun view hview => ?_, ?_⟩
  · simp only [List.mem_append, List.mem_singleton, or_and_right, exists_or, exists_eq_left]
    obtain ⟨known, hknown, hkey, rfl⟩ | ⟨hview, hne⟩ := noteReceipt_mem hview
    · obtain ⟨first, hmem, henvelope, hbound, hexpired, hconsumed⟩ := h.views known hknown
      refine ⟨first, hmem, (note_envelope known receipt).trans henvelope,
        (note_recipientBound known receipt).trans hbound,
        fun he => note_expired known receipt (hexpired he), ?_⟩
      rw [note_consumed known receipt hkey, note_envelope, hconsumed]
    · obtain ⟨first, hmem, henvelope, hbound, hexpired, hconsumed⟩ := h.views view hview
      refine ⟨first, hmem, henvelope, hbound, hexpired, hconsumed.trans ?_⟩
      exact (or_iff_left fun hc => hne hc.1.key).symm
  · rw [noteReceipt_sound hviewKeys, h.sound, List.forall_mem_append, List.forall_mem_singleton, h.envelopes]
    refine and_congr_right fun _ => ⟨?_, ?_⟩
    · rintro ⟨envelope, hmem, hfits⟩
      obtain ⟨first, hfirst, rfl⟩ := List.mem_map.mp hmem
      exact ⟨first, hfirst, hfits⟩
    · rintro ⟨first, hfirst, hfits⟩
      exact ⟨_, List.mem_map_of_mem hfirst, hfits⟩

theorem Folded.of_receipts (hkeys : (opened.map EnvelopeView.key).Nodup)
    (hopened : ∀ view ∈ opened, view.consumed = none) {findings : List ProjectionFinding}
    (hfindings : findings.any ProjectionFinding.isCorrupt = false) :
    Folded opened receipts (receipts.foldl noteReceipt (opened, findings)) := by
  induction receipts using List.reverseRecOn with
  | nil =>
    refine ⟨rfl, fun view hview => ⟨view, hview, rfl, rfl, id, ?_⟩, ?_⟩
    · rw [List.foldl_nil] at hview
      rw [hopened view hview]
      exact ⟨fun h => (nomatch h), fun ⟨_, h, _⟩ => absurd h List.not_mem_nil⟩
    · exact ⟨fun _ _ h => absurd h List.not_mem_nil, fun _ => hfindings⟩
  | append_singleton receipts receipt ih =>
    rw [List.foldl_append]
    exact ih.step hkeys receipt

end Fold

section Projection

/-- What a projection says of the records it was folded from. -/
structure FoldedWork (scope : WorkScope) (earlier : List (ScopeRevision × WorkScope))
    (envelopes : List Envelope) (receipts : List Receipt) (now : Instant) (p : WorkProjection) : Prop where
  budget : p.budget = scope.budget
  perm : (p.envelopes.map EnvelopeView.envelope).Perm envelopes
  bound : ∀ view ∈ p.envelopes,
    view.recipientBound = isRecipientBound scope p.revision earlier view.envelope
  expired : ∀ view ∈ p.envelopes, view.envelope.isExpiredAt now = true → view.expired = true
  consumed : ∀ view ∈ p.envelopes,
    (view.consumed.isSome ↔ ∃ receipt ∈ receipts, receipt.Consumes view.envelope)
  sound : p.findings.any ProjectionFinding.isCorrupt = false ↔
    ∀ receipt ∈ receipts, ∃ envelope ∈ envelopes, receipt.Fits envelope

variable {hashing : Hashing} {scope : WorkScope} {history : List WorkScope} {envelopes : List Envelope}
  {receipts : List Receipt} {now : Instant} {p : WorkProjection}

theorem scopeFindings_sound (scope : WorkScope) (revision : ScopeRevision)
    (earlier : List (ScopeRevision × WorkScope)) (envelopes : List Envelope) :
    (envelopes.flatMap (scopeFindings scope revision earlier)).any ProjectionFinding.isCorrupt = false := by
  rw [List.any_eq_false]
  intro finding hmem
  obtain ⟨envelope, _, hmem⟩ := List.mem_flatMap.mp hmem
  unfold scopeFindings at hmem
  split_ifs at hmem
  · cases hmem
  · rw [List.mem_singleton.mp hmem]
    exact Bool.false_ne_true
  · obtain rfl | hmem := List.mem_cons.mp hmem
    · exact Bool.false_ne_true
    · rw [List.mem_singleton.mp hmem]
      exact Bool.false_ne_true

theorem revisions_ok {earlier : List (ScopeRevision × WorkScope)} (h : revisions hashing history = .ok earlier) :
    (∀ past ∈ earlier, past.2 ∈ history ∧ past.2.revision hashing = .ok past.1) ∧
      ∀ past ∈ history, ∀ revision, past.revision hashing = .ok revision → (revision, past) ∈ earlier := by
  induction history generalizing earlier with
  | nil =>
    cases h
    exact ⟨fun _ hmem => absurd hmem List.not_mem_nil, fun _ hmem => absurd hmem List.not_mem_nil⟩
  | cons first rest ih =>
    rw [revisions, List.mapM_cons] at h
    obtain ⟨entry, hentry, h⟩ := bind_ok h
    obtain ⟨more, hmore, h⟩ := bind_ok h
    obtain ⟨revision, hrevision, rfl⟩ := map_ok hentry
    obtain ⟨hfrom, hto⟩ := ih hmore
    cases h
    refine ⟨fun past hpast => ?_, fun past hpast other hother => ?_⟩
    · obtain rfl | hpast := List.mem_cons.mp hpast
      · exact ⟨List.mem_cons_self, hrevision⟩
      · exact ⟨List.mem_cons_of_mem _ (hfrom past hpast).1, (hfrom past hpast).2⟩
    · obtain rfl | hpast := List.mem_cons.mp hpast
      · rw [hrevision] at hother
        cases hother
        exact List.mem_cons_self
      · exact List.mem_cons_of_mem _ (hto past hpast other hother)

theorem foldWithHistory_ok (hkeys : (envelopes.map Envelope.key).Nodup)
    (h : foldWithHistory hashing scope history envelopes receipts now = .ok p) :
    ∃ earlier, scope.revision hashing = .ok p.revision ∧ revisions hashing history = .ok earlier ∧
      FoldedWork scope earlier envelopes receipts now p := by
  obtain ⟨revision, hrevision, h⟩ := bind_ok h
  obtain ⟨earlier, hearlier, h⟩ := bind_ok h
  dsimp only at h
  have hperm := Keyed.foldl_insert_perm EnvelopeView.key (openView scope revision earlier now) envelopes
    (by rwa [List.map_map])
  generalize envelopes.foldl (fun views envelope =>
    Keyed.insert EnvelopeView.key (openView scope revision earlier now envelope) views) [] = views
    at hperm h
  have hmem {view : EnvelopeView} (hview : view ∈ views) :
      ∃ envelope ∈ envelopes, openView scope revision earlier now envelope = view :=
    List.mem_map.mp (hperm.subset hview)
  have hviews : (views.map EnvelopeView.envelope).Perm envelopes := by
    have hmap := hperm.map EnvelopeView.envelope
    rwa [List.map_map, show EnvelopeView.envelope ∘ openView scope revision earlier now = id from rfl,
      List.map_id] at hmap
  have hviewKeys : (views.map EnvelopeView.key).Nodup := by
    have hmap := (hviews.map Envelope.key).nodup_iff.mpr hkeys
    rwa [List.map_map] at hmap
  have hfolded : Folded views receipts _ := Folded.of_receipts hviewKeys
    (fun view hview => by obtain ⟨envelope, _, rfl⟩ := hmem hview; rfl)
    (scopeFindings_sound scope revision earlier envelopes)
  cases h
  refine ⟨earlier, hrevision, hearlier, rfl, ?_, ?_, ?_, ?_, ?_⟩
  · rw [hfolded.envelopes]
    exact hviews
  · intro view hview
    obtain ⟨first, hfirst, henvelope, hbound, _⟩ := hfolded.views view hview
    obtain ⟨envelope, _, rfl⟩ := hmem hfirst
    rw [hbound, henvelope]
    rfl
  · intro view hview hexpired
    obtain ⟨first, hfirst, henvelope, _, hkeep, _⟩ := hfolded.views view hview
    obtain ⟨envelope, _, rfl⟩ := hmem hfirst
    rw [henvelope] at hexpired
    exact hkeep hexpired
  · intro view hview
    obtain ⟨_, _, _, _, _, hconsumed⟩ := hfolded.views view hview
    exact hconsumed
  · rw [hfolded.sound]
    refine forall₂_congr fun receipt _ => ⟨?_, ?_⟩
    · rintro ⟨first, hfirst, hfits⟩
      exact ⟨first.envelope, hviews.subset (List.mem_map_of_mem hfirst), hfits⟩
    · rintro ⟨envelope, henvelope, hfits⟩
      obtain ⟨first, hfirst, rfl⟩ := List.mem_map.mp (hviews.symm.subset henvelope)
      exact ⟨first, hfirst, hfits⟩

theorem foldWithHistory_exists {revision : ScopeRevision} {earlier : List (ScopeRevision × WorkScope)}
    (hrevision : scope.revision hashing = .ok revision) (hearlier : revisions hashing history = .ok earlier)
    (envelopes : List Envelope) (receipts : List Receipt) (now : Instant) :
    ∃ p, foldWithHistory hashing scope history envelopes receipts now = .ok p := by
  unfold foldWithHistory
  rw [hrevision, hearlier]
  exact ⟨_, rfl⟩

theorem FoldedWork.get_none {earlier : List (ScopeRevision × WorkScope)}
    (h : FoldedWork scope earlier envelopes receipts now p) {key : MessageKey} :
    p.get key = none ↔ key ∉ envelopes.map Envelope.key := by
  have hkeys := (h.perm.map Envelope.key).mem_iff (a := key)
  rw [List.map_map] at hkeys
  rw [WorkProjection.get, Keyed.get_none, ← hkeys]
  rfl

theorem FoldedWork.get_some {earlier : List (ScopeRevision × WorkScope)}
    (h : FoldedWork scope earlier envelopes receipts now p) {key : MessageKey} {view : EnvelopeView}
    (hget : p.get key = some view) :
    view ∈ p.envelopes ∧ view.envelope ∈ envelopes ∧ view.envelope.key = key := by
  obtain ⟨hview, hkey⟩ := Keyed.get_mem hget
  exact ⟨hview, h.perm.subset (List.mem_map_of_mem hview), hkey⟩

theorem FoldedWork.get_of_mem {earlier : List (ScopeRevision × WorkScope)}
    (h : FoldedWork scope earlier envelopes receipts now p) (hkeys : (envelopes.map Envelope.key).Nodup)
    {envelope : Envelope} (hmem : envelope ∈ envelopes) :
    ∃ view, p.get envelope.key = some view ∧ view.envelope = envelope := by
  cases hget : p.get envelope.key with
  | none => exact absurd (List.mem_map_of_mem hmem) (h.get_none.mp hget)
  | some view =>
    obtain ⟨_, hview, hkey⟩ := h.get_some hget
    exact ⟨view, rfl, List.inj_on_of_nodup_map hkeys hview hmem hkey⟩

end Projection

section Usage

def sentBy (seat : AdvisorySeatId) (envelopes : List Envelope) : List Envelope :=
  envelopes.filter fun envelope => envelope.sender = seat

def sentBytes (seat : AdvisorySeatId) (envelopes : List Envelope) : Nat :=
  ((sentBy seat envelopes).map fun envelope => envelope.payloadBytes.toNat).sum

theorem saturatingAdd32_toNat (a b : UInt32) :
    (saturatingAdd32 a b).toNat = min (a.toNat + b.toNat) (2 ^ 32 - 1) := by
  unfold saturatingAdd32
  split
  · rename_i h
    rw [UInt32.toNat_add, Nat.mod_eq_of_lt h]
    omega
  · rename_i h
    rw [show (4294967295 : UInt32).toNat = 2 ^ 32 - 1 from rfl]
    omega

theorem saturatingAdd64_toNat (a b : UInt64) :
    (saturatingAdd64 a b).toNat = min (a.toNat + b.toNat) (2 ^ 64 - 1) := by
  unfold saturatingAdd64
  split
  · rename_i h
    rw [UInt64.toNat_add, Nat.mod_eq_of_lt h]
    omega
  · rename_i h
    rw [show (18446744073709551615 : UInt64).toNat = 2 ^ 64 - 1 from rfl]
    omega

theorem foldl_add_toNat (views : List EnvelopeView) :
    (views.foldl SeatUsage.add ⟨0, 0⟩).messages.toNat = min views.length (2 ^ 32 - 1) ∧
      (views.foldl SeatUsage.add ⟨0, 0⟩).bytes.toNat =
        min (views.map fun view => view.envelope.payloadBytes.toNat).sum (2 ^ 64 - 1) := by
  induction views using List.reverseRecOn with
  | nil => exact ⟨rfl, rfl⟩
  | append_singleton views view ih =>
    obtain ⟨hmessages, hbytes⟩ := ih
    rw [List.foldl_append, List.foldl_cons, List.foldl_nil, SeatUsage.add, saturatingAdd32_toNat,
      saturatingAdd64_toNat, hmessages, hbytes, List.length_append, List.map_append, List.sum_append,
      List.length_singleton, List.map_singleton, List.sum_singleton, show (1 : UInt32).toNat = 1 from rfl]
    omega

theorem usage_toNat {p : WorkProjection} {envelopes : List Envelope}
    (hperm : (p.envelopes.map EnvelopeView.envelope).Perm envelopes) (seat : AdvisorySeatId) :
    (p.usage seat).messages.toNat = min (sentBy seat envelopes).length (2 ^ 32 - 1) ∧
      (p.usage seat).bytes.toNat = min (sentBytes seat envelopes) (2 ^ 64 - 1) := by
  have hsent := hperm.filter fun envelope => envelope.sender = seat
  rw [List.filter_map] at hsent
  have hbytes := (hsent.map fun envelope => envelope.payloadBytes.toNat).sum_nat
  rw [List.map_map] at hbytes
  rw [sentBytes, sentBy, ← hbytes, ← hsent.length_eq, List.length_map]
  exact foldl_add_toNat _

theorem withinBudget_ok {p : WorkProjection} {envelopes : List Envelope}
    (hperm : (p.envelopes.map EnvelopeView.envelope).Perm envelopes) {budget : MessageBudget}
    {submission : Submission} (h : p.withinBudget budget submission = .ok ())
    (hcounter : budget.maxBytesPerSeat.toNat < 2 ^ 64 - 1 ∨
      sentBytes submission.sender envelopes + submission.payloadBytes.toNat < 2 ^ 64) :
    (sentBy submission.sender envelopes).length + 1 ≤ budget.maxMessagesPerSeat.toNat ∧
      sentBytes submission.sender envelopes + submission.payloadBytes.toNat ≤
        budget.maxBytesPerSeat.toNat := by
  obtain ⟨hmessages, hbytes⟩ := usage_toNat hperm submission.sender
  obtain ⟨hcount, h⟩ := guard_ok.mp h
  obtain ⟨hsum, _⟩ := guard_ok.mp h
  rw [UInt64.not_lt, UInt64.le_iff_toNat_le, saturatingAdd64_toNat, UInt32.toNat_toUInt64,
    UInt32.toNat_toUInt64, hmessages, show (1 : UInt64).toNat = 1 from rfl] at hcount
  rw [UInt64.not_lt, UInt64.le_iff_toNat_le, saturatingAdd64_toNat, hbytes] at hsum
  have hmax := budget.maxMessagesPerSeat.toNat_lt
  omega

end Usage

section Admit

variable {hashing : Hashing} {scope : WorkScope} {existing : WorkProjection} {submission : Submission}
  {now : Instant}

theorem admit_iff {decision : Admission} :
    admitSubmission hashing scope existing submission now = .ok decision ↔
      ∃ current, submission.require hashing scope = .ok current ∧
        ((∃ view, existing.get (submission.messageKey hashing) = some view ∧
            retryMatches view.envelope submission scope.budget.defaultTtlSecs = true ∧
            decision = .duplicate view.envelope) ∨
          (existing.get (submission.messageKey hashing) = none ∧
            existing.unknownReply submission.replyTo = none ∧
            existing.withinBudget scope.budget submission = .ok () ∧
            ∃ expiresAt, expiry (submission.ttlSecs.getD scope.budget.defaultTtlSecs) now = .ok expiresAt ∧
              decision =
                .admitNew (submission.envelope scope current (submission.messageKey hashing) expiresAt now))) := by
  unfold admitSubmission
  constructor
  · intro h
    obtain ⟨current, hrequire, h⟩ := bind_ok h
    refine ⟨current, hrequire, ?_⟩
    cases hget : existing.get (submission.messageKey hashing) with
    | some view =>
      simp only [hget] at h
      split at h
      · rename_i hretry
        cases h
        exact Or.inl ⟨view, rfl, hretry, rfl⟩
      · cases h
    | none =>
      simp only [hget] at h
      cases hreply : existing.unknownReply submission.replyTo with
      | some reply =>
        simp only [hreply] at h
        cases h
      | none =>
        simp only [hreply] at h
        obtain ⟨_, hbudget, h⟩ := bind_ok h
        obtain ⟨expiresAt, hexpiry, h⟩ := bind_ok h
        cases h
        exact Or.inr ⟨rfl, rfl, hbudget, expiresAt, hexpiry, rfl⟩
  · rintro ⟨current, hrequire, ⟨view, hget, hretry, rfl⟩ | ⟨hget, hreply, hbudget, expiresAt, hexpiry, rfl⟩⟩
    · rw [hrequire]
      simp only [bind, Except.bind, hget, if_pos hretry]
    · rw [hrequire]
      simp only [bind, Except.bind, hget, hreply, hbudget, hexpiry]

theorem require_ok {current : ScopeRevision} (h : submission.require hashing scope = .ok current) :
    scope.revision hashing = .ok current ∧ submission.scopeRevision = current := by
  obtain ⟨_, _, h⟩ := bind_ok h
  obtain ⟨_, h⟩ := guard_ok.mp h
  obtain ⟨revision, hrevision, h⟩ := bind_ok h
  obtain ⟨hcurrent, h⟩ := guard_ok.mp h
  obtain ⟨_, _, h⟩ := bind_ok h
  obtain ⟨_, _, h⟩ := bind_ok h
  obtain ⟨_, h⟩ := guard_ok.mp h
  cases h
  exact ⟨hrevision, of_not_not hcurrent⟩

theorem require_recipient {current : ScopeRevision} (h : submission.require hashing scope = .ok current) :
    ∃ molecule, scope.holder submission.recipient = some molecule := by
  obtain ⟨_, _, h⟩ := bind_ok h
  obtain ⟨_, h⟩ := guard_ok.mp h
  obtain ⟨revision, _, h⟩ := bind_ok h
  obtain ⟨_, h⟩ := guard_ok.mp h
  obtain ⟨_, _, h⟩ := bind_ok h
  obtain ⟨_, hrecipient, _⟩ := bind_ok h
  obtain ⟨hmember, _⟩ := guard_ok.mp hrecipient
  obtain ⟨decl, hdecl⟩ := Option.ne_none_iff_exists'.mp hmember
  exact ⟨decl.molecule, congrArg (Option.map SeatDecl.molecule) hdecl⟩

theorem expiry_ok {ttl : UInt64} {expiresAt : Instant} (h : expiry ttl now = .ok expiresAt) :
    ttl.toNat ≤ maxDurationSeconds ∧ expiresAt - now = ttl.toNat * nanosPerSecond := by
  unfold expiry at h
  split at h
  · rename_i hexpires
    cases h
    obtain ⟨lifetime, hlifetime, hadd⟩ := Option.bind_eq_some_iff.mp hexpires
    unfold trySeconds at hlifetime
    unfold checkedAddSigned at hadd
    split_ifs at hlifetime hadd
    · cases hlifetime
      cases hadd
      refine ⟨by assumption, ?_⟩
      rw [Int.add_comm, Int.add_sub_cancel]
  · cases h

theorem retryMatches_envelope {current : ScopeRevision} {key : MessageKey} {expiresAt : Instant}
    (hcurrent : submission.scopeRevision = current)
    (h : expiry (submission.ttlSecs.getD scope.budget.defaultTtlSecs) now = .ok expiresAt) :
    retryMatches (submission.envelope scope current key expiresAt now) submission
      scope.budget.defaultTtlSecs = true := by
  obtain ⟨hmax, hlifetime⟩ := expiry_ok h
  have hseconds : numSeconds (expiresAt - now) =
      (submission.ttlSecs.getD scope.budget.defaultTtlSecs).toNat := by
    rw [hlifetime, numSeconds]
    exact Int.mul_tdiv_cancel _ (by decide)
  unfold retryMatches
  split
  · rename_i hdigest
    exact absurd rfl hdigest
  split
  · rfl
  · refine decide_eq_true ⟨hcurrent.symm, rfl, rfl, rfl, rfl, rfl, ?_, hseconds⟩
    exact Nat.lt_of_le_of_lt hmax (by decide)

end Admit

theorem deliverable_mem {p : WorkProjection} {seat : AdvisorySeatId} {adapter : DeliveryAdapter}
    {now : Instant} {envelope : Envelope} (h : envelope ∈ deliverable p seat adapter now) :
    ∃ view ∈ p.envelopes, view.envelope = envelope ∧ envelope.recipient = seat ∧
      view.consumed = none ∧ view.recipientBound = true ∧ envelope.isExpiredAt now = false := by
  obtain ⟨view, hview, rfl⟩ := List.mem_map.mp h
  obtain ⟨hmem, hopen⟩ := List.mem_filter.mp hview
  simp only [Bool.and_eq_true, decide_eq_true_eq, Option.isNone_iff_eq_none, Bool.not_eq_true'] at hopen
  obtain ⟨⟨⟨⟨hseat, hconsumed⟩, hbound⟩, _, hexpired⟩, _⟩ := hopen
  exact ⟨view, hmem, rfl, hseat, hconsumed, hbound, hexpired⟩

theorem acceptConsumption_record {p : WorkProjection} {reporter : AdvisorySeatId} {key : MessageKey}
    {disposition : Disposition} {reply : Option MessageKey} {noteDigest : Option Hash} {now : Instant}
    {receipt : Receipt} :
    acceptConsumption p reporter key disposition reply noteDigest now = .ok (.record receipt) ↔
      ∃ view, p.get key = some view ∧ reporter = view.envelope.recipient ∧ view.consumed = none ∧
        p.unknownReply reply = none ∧ receipt = Receipt.forEnvelope view.envelope (.seat reporter) now
          (.consumed disposition reply noteDigest) := by
  unfold acceptConsumption
  constructor
  · intro h
    cases hget : p.get key with
    | none =>
      simp only [hget] at h
      cases h
    | some view =>
      simp only [hget] at h
      obtain ⟨hreporter, h⟩ := guard_ok.mp h
      cases hconsumed : view.consumed with
      | some existing =>
        simp only [hconsumed] at h
        cases h
      | none =>
        simp only [hconsumed] at h
        cases hreply : p.unknownReply reply with
        | some unknown =>
          simp only [hreply] at h
          cases h
        | none =>
          simp only [hreply] at h
          cases h
          exact ⟨view, rfl, of_not_not hreporter, hconsumed, rfl, rfl⟩
  · rintro ⟨view, hget, rfl, hconsumed, hreply, rfl⟩
    simp only [hget, hconsumed, hreply]
    exact if_neg (not_not.mpr rfl)

end Cosmon.Core.WorkProjection
