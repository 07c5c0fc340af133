import Cosmon.Core.CosmonPaths

namespace Cosmon.Core.CosmonPaths

open Cosmon.Lib.Text Cosmon.Lib.UnixPath

section Containment

theorem head_of_absolute {path : List Char} (h : isAbsolute '/' path = true) : (comps path).head? = some .rootDir := by
  rw [comps, components, leading, if_pos (of_decide_eq_true h)]
  rfl

theorem joins_absolute {dir part : String} (hdir : dir.toList ≠ []) (hpart : rooted part = true)
    (rest : List String) : isAbsolute '/' (joins dir (part :: rest)) = true := by
  have hrest : ∀ path : List Char, path ≠ [] → isAbsolute '/' path = true →
      isAbsolute '/' (rest.foldl (fun path part => join '/' path part.toList) path) = true := by
    induction rest with
    | nil => exact fun _ _ habs => habs
    | cons part rest ih =>
      intro path hne habs
      exact ih _ (join_ne_nil hne _) (by rw [isAbsolute_join hne, habs, Bool.true_or])
  apply hrest
  · exact join_ne_nil hdir _
  · rw [isAbsolute_join hdir]
    exact Bool.or_eq_true_iff.mpr (Or.inr hpart)

theorem rooted_append {id : String} (h : rooted id = true) (suffix : String) : rooted (id ++ suffix) = true := by
  unfold rooted at h ⊢
  rw [String.toList_append]
  cases htext : id.toList with
  | nil =>
    rw [htext] at h
    cases h
  | cons c rest => rwa [htext] at h

theorem rel_absolute {p : CosmonPath} (h : ¬ Rootless p) : isAbsolute '/' p.rel = true := by
  cases p with
  | moleculeState f id => exact joins_absolute (by decide) (Bool.eq_true_of_not_eq_false h) _
  | moleculeEvents f id => exact joins_absolute (by decide) (Bool.eq_true_of_not_eq_false h) _
  | presenceInbox session => exact joins_absolute (by decide) (rooted_append (Bool.eq_true_of_not_eq_false h) _) _
  | presenceInboxAck session => exact joins_absolute (by decide) (rooted_append (Bool.eq_true_of_not_eq_false h) _) _
  | _ => exact absurd trivial h

theorem parentDir_layout (p : CosmonPath) : Component.parentDir ∈ layout p ↔ ['.', '.'] ∈ idParts p := by
  have hback : Component.parentDir ∉ (back p).map Component.normal := by
    intro hmem
    obtain ⟨name, -, hname⟩ := List.mem_map.mp hmem
    cases hname
  rw [layout, List.mem_cons, List.mem_append, or_iff_left hback, or_iff_right (fun h => by cases h)]
  exact parentDir_mem

theorem contained_iff (p : CosmonPath) : Contained p.rel ↔ Inside p := by
  by_cases hroot : Rootless p
  · have hcomps := comps_rel hroot
    have hrel : isAbsolute '/' p.rel = false := by
      rw [Bool.eq_false_iff]
      intro habs
      have hhead := head_of_absolute habs
      rw [hcomps] at hhead
      cases hhead
    unfold Contained Inside
    rw [hcomps, parentDir_layout, hrel]
    exact and_congr_left fun _ => ⟨fun _ => hroot, fun _ => rfl⟩
  · constructor
    · rintro ⟨hrel, -⟩
      rw [rel_absolute hroot] at hrel
      cases hrel
    · exact fun h => absurd h.1 hroot

end Containment

section Separation

def ending : CosmonPathKind → String
  | .moleculeState => "state.json"
  | .moleculeEvents => "events.jsonl"
  | .presenceSnapshot => ".json"
  | .presenceLog => ".log"
  | .presenceSeek => ".seek"
  | .presenceInbox => ".inbox.jsonl"
  | .presenceInboxAck => ".inbox.ack.jsonl"
  | .pilotLeaseRequests => ".requests.jsonl"
  | .pilotLeaseGrants => ".grants.jsonl"
  | _ => ""

theorem kind_of_ending {k k' : CosmonPathKind} (htop : top k = top k') (harchive : top k ≠ "archive")
    (hending : (ending k).toList <:+ (ending k').toList) : k = k' := by
  revert htop harchive hending
  cases k <;> cases k' <;> decide

theorem layout_last {p : CosmonPath} {name : List Char} (h : (back p).getLast? = some name) :
    (layout p).getLast? = some (.normal name) := by
  have hmap : ((back p).map Component.normal).getLast? = some (.normal name) := by
    rw [List.getLast?_map, h]
    rfl
  rw [layout, List.getLast?_cons, List.getLast?_append, hmap]
  rfl

theorem layout_ending (p : CosmonPath) :
    ∃ name, (layout p).getLast? = some (.normal (name ++ (ending p.kind).toList)) := by
  have hany : ∀ name, (layout p).getLast? = some (.normal name) → ending p.kind = "" →
      ∃ name, (layout p).getLast? = some (.normal (name ++ (ending p.kind).toList)) := by
    intro name hlast hempty
    refine ⟨name, ?_⟩
    rw [hlast, hempty, String.toList_empty, List.append_nil]
  cases p with
  | fleet => exact hany _ rfl rfl
  | fleetRuntime => exact hany _ rfl rfl
  | fleetLock => exact hany _ rfl rfl
  | trunkLock => exact hany _ rfl rfl
  | fleetEvents => exact hany _ rfl rfl
  | moleculeState f id =>
    refine ⟨[], ?_⟩
    rw [List.nil_append]
    exact layout_last rfl
  | moleculeEvents f id =>
    refine ⟨[], ?_⟩
    rw [List.nil_append]
    exact layout_last rfl
  | presenceSnapshot session => exact ⟨_, layout_last rfl⟩
  | presenceLog session => exact ⟨_, layout_last rfl⟩
  | presenceSeek session => exact ⟨_, layout_last rfl⟩
  | presenceInbox session => exact ⟨_, layout_last rfl⟩
  | presenceInboxAck session => exact ⟨_, layout_last rfl⟩
  | pilotLeaseRequests mission => exact ⟨mission.text.toList, layout_last (congrArg some String.toList_append)⟩
  | pilotLeaseGrants mission => exact ⟨mission.text.toList, layout_last (congrArg some String.toList_append)⟩
  | moleculeWriteLock id => exact hany _ (layout_last rfl) rfl
  | legacyMoleculeState id => exact hany _ (layout_last rfl) rfl
  | cas hash => exact hany _ (layout_last rfl) rfl
  | collapseReceipt keyHash => exact hany _ (layout_last rfl) rfl
  | archiveMolecule year month id => exact hany _ (layout_last rfl) rfl
  | archiveFleetEvents year month => exact hany _ (layout_last rfl) rfl
  | archiveSchemaVersion => exact hany _ (layout_last rfl) rfl

def archiveKind : Nat → CosmonPathKind
  | 4 => .archiveMolecule
  | 3 => .archiveFleetEvents
  | _ => .archiveSchemaVersion

theorem kind_of_archive {p : CosmonPath} (h : top p.kind = "archive") : p.kind = archiveKind (layout p).length := by
  cases p with
  | archiveMolecule year month id => rfl
  | archiveFleetEvents year month => rfl
  | archiveSchemaVersion => rfl
  | _ => simp [CosmonPath.kind, top] at h

theorem kind_of_layout {p q : CosmonPath} (h : layout p = layout q) : p.kind = q.kind := by
  have htop : top p.kind = top q.kind := by
    have hhead := (List.cons.inj h).1
    injection hhead with hname
    exact String.toList_injective hname
  by_cases harchive : top p.kind = "archive"
  · rw [kind_of_archive harchive, kind_of_archive (htop ▸ harchive), h]
  · obtain ⟨name, hp⟩ := layout_ending p
    obtain ⟨name', hq⟩ := layout_ending q
    rw [h, hq] at hp
    injection hp with hlast
    injection hlast with hlast
    have hend : (ending q.kind).toList <:+ name ++ (ending p.kind).toList := hlast ▸ List.suffix_append _ _
    rcases List.suffix_or_suffix_of_suffix (List.suffix_append _ _) hend with hsuffix | hsuffix
    · exact kind_of_ending htop harchive hsuffix
    · exact (kind_of_ending htop.symm (htop ▸ harchive) hsuffix).symm

def backLength : CosmonPathKind → Nat
  | .fleet | .fleetRuntime | .fleetLock | .trunkLock | .fleetEvents => 0
  | .moleculeState | .moleculeEvents | .legacyMoleculeState | .archiveMolecule => 3
  | .cas | .archiveFleetEvents => 2
  | _ => 1

theorem back_length (p : CosmonPath) : (back p).length = backLength p.kind := by
  cases p <;> rfl

theorem layout_iff {p q : CosmonPath} :
    layout p = layout q ↔ p.kind = q.kind ∧ kept (idParts p) = kept (idParts q) ∧ back p = back q := by
  constructor
  · intro h
    have hkind := kind_of_layout h
    have hlength : ((back p).map Component.normal).length = ((back q).map Component.normal).length := by
      rw [List.length_map, List.length_map, back_length, back_length, hkind]
    obtain ⟨hids, hback⟩ := List.append_inj' (List.cons.inj h).2 hlength
    refine ⟨hkind, hids, List.map_injective_iff.mpr ?_ hback⟩
    intro a b heq
    injection heq
  · rintro ⟨hkind, hids, hback⟩
    rw [layout, layout, hkind, hids, hback]

end Separation

section Arguments

theorem MoleculeId.eq {a b : MoleculeId} (h : a.text.toList = b.text.toList) : a = b := by
  cases a
  cases b
  cases String.toList_injective h
  rfl

theorem ContentHash.eq {a b : ContentHash} (h : a.text.toList = b.text.toList) : a = b := by
  cases a
  cases b
  cases String.toList_injective h
  rfl

theorem append_suffix_inj {s t suffix : String} (h : (s ++ suffix).toList = (t ++ suffix).toList) :
    s.toList = t.toList := by
  rw [String.toList_append, String.toList_append] at h
  exact List.append_cancel_right h

theorem archiveEvents_inj {y z : Int} {m n : Nat}
    (h : ("events-" ++ padYear y ++ "-" ++ padMonth m ++ ".jsonl").toList =
      ("events-" ++ padYear z ++ "-" ++ padMonth n ++ ".jsonl").toList) : y = z ∧ m = n := by
  have hminus : ∀ month : Nat, '-' ∉ (padMonth month).toList := by
    intro month hmem
    exact (isDigit_apart (padMonth_digits hmem)).2.2 rfl
  have hmiddle := append_suffix_inj h
  simp only [String.toList_append, List.append_assoc] at hmiddle
  have hdash : "-".toList = ['-'] := rfl
  have hyears := List.append_cancel_left hmiddle
  rw [hdash, List.singleton_append, List.singleton_append] at hyears
  obtain ⟨hyear, hmonth⟩ := append_sep_inj_right (hminus m) (hminus n) hyears
  exact ⟨padYear_injective (String.toList_injective hyear), padMonth_injective (String.toList_injective hmonth)⟩

theorem sameName_of_back {s t : String} {suffix : List Char} (hids : kept (innerParts s) = kept (innerParts t))
    (hback : [lastPart s ++ suffix] = [lastPart t ++ suffix]) : SameName s t :=
  ⟨hids, List.append_cancel_right (List.cons.inj hback).1⟩

theorem same_of_back {p q : CosmonPath} (hkind : p.kind = q.kind) (hids : kept (idParts p) = kept (idParts q))
    (hback : back p = back q) : p = q ∨ Alike p q := by
  cases p with
  | fleet => cases q <;> first | exact Or.inl rfl | cases hkind
  | fleetRuntime => cases q <;> first | exact Or.inl rfl | cases hkind
  | fleetLock => cases q <;> first | exact Or.inl rfl | cases hkind
  | trunkLock => cases q <;> first | exact Or.inl rfl | cases hkind
  | fleetEvents => cases q <;> first | exact Or.inl rfl | cases hkind
  | archiveSchemaVersion => cases q <;> first | exact Or.inl rfl | cases hkind
  | moleculeWriteLock id =>
    cases q with
    | moleculeWriteLock id' => exact Or.inl (congrArg _ (MoleculeId.eq (append_suffix_inj (List.cons.inj hback).1)))
    | _ => cases hkind
  | moleculeState f id =>
    cases q with
    | moleculeState g id' => exact Or.inr ⟨hids, MoleculeId.eq (List.cons.inj (List.cons.inj hback).2).1⟩
    | _ => cases hkind
  | moleculeEvents f id =>
    cases q with
    | moleculeEvents g id' => exact Or.inr ⟨hids, MoleculeId.eq (List.cons.inj (List.cons.inj hback).2).1⟩
    | _ => cases hkind
  | legacyMoleculeState id =>
    cases q with
    | legacyMoleculeState id' => exact Or.inl (congrArg _ (MoleculeId.eq (List.cons.inj (List.cons.inj hback).2).1))
    | _ => cases hkind
  | presenceSnapshot session =>
    cases q with
    | presenceSnapshot other => exact Or.inr (sameName_of_back hids hback)
    | _ => cases hkind
  | presenceLog session =>
    cases q with
    | presenceLog other => exact Or.inr (sameName_of_back hids hback)
    | _ => cases hkind
  | presenceSeek session =>
    cases q with
    | presenceSeek other => exact Or.inr (sameName_of_back hids hback)
    | _ => cases hkind
  | presenceInbox session =>
    cases q with
    | presenceInbox other => exact Or.inr (sameName_of_back hids hback)
    | _ => cases hkind
  | presenceInboxAck session =>
    cases q with
    | presenceInboxAck other => exact Or.inr (sameName_of_back hids hback)
    | _ => cases hkind
  | pilotLeaseRequests mission =>
    cases q with
    | pilotLeaseRequests other => exact Or.inl (congrArg _ (MoleculeId.eq (append_suffix_inj (List.cons.inj hback).1)))
    | _ => cases hkind
  | pilotLeaseGrants mission =>
    cases q with
    | pilotLeaseGrants other => exact Or.inl (congrArg _ (MoleculeId.eq (append_suffix_inj (List.cons.inj hback).1)))
    | _ => cases hkind
  | cas hash =>
    cases q with
    | cas other => exact Or.inl (congrArg _ (ContentHash.eq (List.cons.inj (List.cons.inj hback).2).1))
    | _ => cases hkind
  | collapseReceipt keyHash =>
    cases q with
    | collapseReceipt other => exact Or.inl (congrArg _ (ContentHash.eq (append_suffix_inj (List.cons.inj hback).1)))
    | _ => cases hkind
  | archiveMolecule year month id =>
    cases q with
    | archiveMolecule year' month' id' =>
      obtain ⟨hyear, hrest⟩ := List.cons.inj hback
      obtain ⟨hmonth, hid⟩ := List.cons.inj hrest
      obtain rfl := padYear_injective (String.toList_injective hyear)
      obtain rfl := padMonth_injective (String.toList_injective hmonth)
      exact Or.inl (congrArg _ (MoleculeId.eq (List.cons.inj hid).1))
    | _ => cases hkind
  | archiveFleetEvents year month =>
    cases q with
    | archiveFleetEvents year' month' =>
      obtain ⟨rfl, rfl⟩ := archiveEvents_inj (List.cons.inj (List.cons.inj hback).2).1
      exact Or.inl rfl
    | _ => cases hkind

theorem layout_of_alike {p q : CosmonPath} (h : Alike p q) : layout p = layout q := by
  have hname : ∀ {k : CosmonPathKind} {s t : String} {suffix : List Char}, SameName s t →
      (Component.normal (top k).toList :: (kept (innerParts s) ++ [lastPart s ++ suffix].map Component.normal)) =
        .normal (top k).toList :: (kept (innerParts t) ++ [lastPart t ++ suffix].map Component.normal) := by
    intro k s t suffix hsame
    rw [hsame.1, hsame.2]
  have hfleet : ∀ {k : CosmonPathKind} {f g : FleetId} {names : List (List Char)},
      kept (parts f.text) = kept (parts g.text) →
      (Component.normal (top k).toList :: (kept (parts f.text) ++ names.map Component.normal)) =
        .normal (top k).toList :: (kept (parts g.text) ++ names.map Component.normal) := by
    intro k f g names hsame
    rw [hsame]
  cases p with
  | moleculeState f id =>
    cases q with
    | moleculeState g id' =>
      obtain ⟨hkept, rfl⟩ := h
      exact hfleet hkept
    | _ => exact h.elim
  | moleculeEvents f id =>
    cases q with
    | moleculeEvents g id' =>
      obtain ⟨hkept, rfl⟩ := h
      exact hfleet hkept
    | _ => exact h.elim
  | presenceSnapshot session =>
    cases q with
    | presenceSnapshot other => exact hname h
    | _ => exact h.elim
  | presenceLog session =>
    cases q with
    | presenceLog other => exact hname h
    | _ => exact h.elim
  | presenceSeek session =>
    cases q with
    | presenceSeek other => exact hname h
    | _ => exact h.elim
  | presenceInbox session =>
    cases q with
    | presenceInbox other => exact hname h
    | _ => exact h.elim
  | presenceInboxAck session =>
    cases q with
    | presenceInboxAck other => exact hname h
    | _ => exact h.elim
  | _ => exact h.elim

/-- Two values lie apart exactly when their ids stay inside the root and they are not alike. -/
theorem rel_apart_iff {p q : CosmonPath} (hne : p ≠ q) : Apart p q ↔ Inside p ∧ Inside q ∧ ¬ Alike p q := by
  unfold Apart
  rw [contained_iff, contained_iff]
  constructor
  · rintro ⟨hcomps, hp, hq⟩
    refine ⟨hp, hq, fun halike => hcomps ?_⟩
    rw [comps_rel hp.1, comps_rel hq.1, layout_of_alike halike]
  · rintro ⟨hp, hq, halike⟩
    refine ⟨fun hcomps => ?_, hp, hq⟩
    rw [comps_rel hp.1, comps_rel hq.1] at hcomps
    obtain ⟨hkind, hids, hback⟩ := layout_iff.mp hcomps
    exact (same_of_back hkind hids hback).elim hne halike

def plainSession : SessionId := ⟨"claude", by decide⟩

def prefixedSession : SessionId := ⟨"session-claude", by decide⟩

def climbingSession : SessionId := ⟨"../fleet", by decide⟩

theorem rel_apart_sessions : Apart (.presenceInbox plainSession) (.presenceInbox prefixedSession) :=
  (rel_apart_iff (by decide)).mpr ⟨⟨rfl, by decide⟩, ⟨rfl, by decide⟩, fun h => absurd h.2 (by decide)⟩

/-- The prefix that is added where it is missing makes two sessions share their snapshot, and an id may climb out of
its directory. -/
theorem rel_shared_snapshot :
    (CosmonPath.presenceSnapshot plainSession ≠ .presenceSnapshot prefixedSession ∧
        ¬ Apart (.presenceSnapshot plainSession) (.presenceSnapshot prefixedSession)) ∧
      ¬ Contained (CosmonPath.presenceInbox climbingSession).rel := by
  refine ⟨⟨by decide, fun h => h.1 rfl⟩, fun h => h.2 ?_⟩
  decide

end Arguments

end Cosmon.Core.CosmonPaths
