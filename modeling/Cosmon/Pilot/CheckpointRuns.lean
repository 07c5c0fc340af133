import Cosmon.Pilot.Checkpoints

namespace Cosmon.Pilot.Checkpoints

open Cosmon.Lib.Inodes Cosmon.Lib.Keyed Cosmon.Lib.Runs Cosmon.Lib.Text

section Paths

variable {s : CheckpointStore} {mission mission' : MissionId} {id id' : CheckpointId} {name name' : String}

theorem slash_notMem (id : Id) : '/' ∉ id.asStr.toList := by
  intro h
  have halphabet := List.all_eq_true.mp id.alphabet '/' h
  revert halphabet
  decide

theorem Id.ext_str {id id' : Id} (h : id.asStr.toList = id'.asStr.toList) : id = id' := by
  cases id
  cases id'
  cases String.toList_inj.mp h
  rfl

theorem file_inj (h : s.file mission name = s.file mission' name') : mission = mission' ∧ name = name' := by
  have hlists := congrArg String.toList h
  simp only [CheckpointStore.file, CheckpointStore.missionDir, String.toList_append, List.append_assoc] at hlists
  have htail := List.append_cancel_left (List.append_cancel_left hlists)
  have hsplit := congrArg (splitOnce '/') htail
  have hslash : ("/" : String).toList = ['/'] := rfl
  rw [hslash, List.singleton_append, List.singleton_append, splitOnce_of_none (slash_notMem mission),
    splitOnce_of_none (slash_notMem mission'), Option.some.injEq, Prod.mk.injEq] at hsplit
  exact ⟨Id.ext_str hsplit.1, String.toList_inj.mp hsplit.2⟩

theorem pathOf_inj (h : s.pathOf mission id = s.pathOf mission' id') : mission = mission' ∧ id = id' := by
  obtain ⟨hmission, hname⟩ := file_inj h
  have hlists := congrArg String.toList hname
  simp only [recordName, String.toList_append] at hlists
  exact ⟨hmission, Id.ext_str (List.append_cancel_right hlists)⟩

theorem pathOf_ne_tmpOf : s.pathOf mission id ≠ s.tmpOf mission' id' := by
  intro h
  have hlast := congrArg (fun text => text.toList.getLast?) (file_inj h).2
  have hjson : ".json".toList = ['.', 'j', 's', 'o', 'n'] := rfl
  have htmp : ".json.tmp".toList = ['.', 'j', 's', 'o', 'n', '.', 't', 'm', 'p'] := rfl
  simp only [recordName, tmpName, String.toList_append] at hlast
  rw [List.getLast?_append_of_ne_nil _ (by rw [hjson]; decide),
    List.getLast?_append_of_ne_nil _ (by rw [htmp]; decide), hjson, htmp] at hlast
  revert hlast
  decide

theorem pathOf_ne_tmpOfRecord {B : Type} {c : PilotCheckpoint B} : s.pathOf mission id ≠ s.tmpOfRecord c :=
  pathOf_ne_tmpOf

theorem isListed_tmpName : isListed (tmpName id) = false := by
  have hhead : (tmpName id).toList.head? = some '.' := by
    rw [tmpName, String.toList_append, String.toList_append]
    rfl
  simp [isListed, hhead]

end Paths

variable {B : Type} (s : CheckpointStore) (encode : PilotCheckpoint B → List UInt8)

inductive Effect (w : World B) : Op B → World B → Prop where
  | idle (op : Op B) : Effect w op w
  | check (call : Nat) (c : PilotCheckpoint B) (h : w.calls call = none) :
    Effect w (.check call c)
      (w.set call ⟨c, if (w.fs.inode (s.recordOf c)).isSome then .alreadyPublished else .absent⟩)
  | create (call : Nat) (c : PilotCheckpoint B) (h : w.calls call = some ⟨c, .absent⟩) :
    Effect w (.create call)
      { w.set call ⟨c, .opened (w.fs.handle (s.tmpOfRecord c)) 0⟩ with fs := w.fs.create (s.tmpOfRecord c) }
  | write (call more : Nat) (c : PilotCheckpoint B) (inode offset : Nat)
      (h : w.calls call = some ⟨c, .opened inode offset⟩) (hlt : offset < (encode c).length) :
    Effect w (.write call more)
      { w.set call ⟨c, .opened inode (offset + (((encode c).drop offset).take (more + 1)).length)⟩ with
        fs := w.fs.write inode offset (((encode c).drop offset).take (more + 1)) }
  | rename (call : Nat) (c : PilotCheckpoint B) (inode offset : Nat) (fs : Fs String)
      (h : w.calls call = some ⟨c, .opened inode offset⟩) (hle : (encode c).length ≤ offset)
      (hmove : w.fs.rename (s.tmpOfRecord c) (s.recordOf c) = some fs) :
    Effect w (.rename call) { w.set call ⟨c, .renamed⟩ with fs := fs }
  | finish (call : Nat) (c : PilotCheckpoint B) (h : w.calls call = some ⟨c, .renamed⟩) :
    Effect w (.finish call) (w.set call ⟨c, .returned⟩)
  | stop (op : Op B) (call : Nat) (c : PilotCheckpoint B) (phase : Phase)
      (h : w.calls call = some ⟨c, phase⟩) : Effect w op (w.set call ⟨c, .stopped⟩)
  | open_ (op : Op B) (reader : Nat) (path : String) (inode : Nat) (h : w.fs.inode path = some inode)
      (hpath : ∀ mission id, path ≠ s.tmpOf mission id) :
    Effect w op { w with readers := Function.update w.readers reader (some ⟨path, inode, [], false⟩) }
  | read (reader more : Nat) (r : Reader) (h : w.readers reader = some r) (hmore : r.finished = false) :
    Effect w (.read reader more)
      { w with readers := Function.update w.readers reader (some { r with
        bytes := r.bytes ++ ((w.fs.content r.inode).drop r.bytes.length).take (more + 1)
        finished := ((w.fs.content r.inode).drop r.bytes.length).isEmpty }) }

theorem open_effect (w : World B) (op : Op B) (reader : Nat) {path : String}
    (hpath : ∀ mission id, path ≠ s.tmpOf mission id) : Effect s encode w op (w.open_ reader path) := by
  unfold World.open_
  split
  · rename_i inode h
    exact .open_ op reader path inode h hpath
  · exact .idle op

theorem step_effect (w : World B) (op : Op B) : Effect s encode w op (World.step s encode w op) := by
  cases op with
  | check call c =>
    simp only [World.step]
    split
    · exact .idle _
    · rename_i h
      exact .check call c h
  | create call =>
    simp only [World.step]
    split
    · rename_i c h
      exact .create call c h
    · exact .idle _
  | write call more =>
    simp only [World.step]
    split
    · rename_i c inode offset h
      split
      · rename_i hlt
        exact .write call more c inode offset h hlt
      · exact .idle _
    · exact .idle _
  | rename call =>
    simp only [World.step]
    split
    · rename_i c inode offset h
      split
      · exact .idle _
      · rename_i hle
        split
        · rename_i fs hmove
          exact .rename call c inode offset fs h (Nat.le_of_not_lt hle) hmove
        · exact .stop _ call c _ h
    · exact .idle _
  | finish call =>
    simp only [World.step]
    split
    · rename_i c h
      exact .finish call c h
    · exact .idle _
  | crash call =>
    simp only [World.step]
    split
    · rename_i c h
      exact .stop _ call c _ h
    · rename_i c inode offset h
      exact .stop _ call c _ h
    · rename_i c h
      exact .stop _ call c _ h
    · exact .idle _
  | load reader mission id =>
    exact open_effect s encode w _ reader fun _ _ => pathOf_ne_tmpOf
  | list reader mission name =>
    simp only [World.step]
    split
    · rename_i hlisted
      refine open_effect s encode w _ reader fun mission' id' h => ?_
      rw [(file_inj h).2, isListed_tmpName] at hlisted
      cases hlisted
    · exact .idle _
  | read reader more =>
    simp only [World.step]
    split
    · rename_i r h
      split
      · exact .idle _
      · rename_i hmore
        exact .read reader more r h (Bool.eq_false_of_not_eq_true hmore)
    · exact .idle _

section Invariant

variable {s encode} {w w' : World B} {op : Op B}

theorem Effect.record_stays (h : Effect s encode w op w') (hop : Undisturbed s encode w op)
    {mission : MissionId} {id : CheckpointId} {i : Nat} (hi : w.fs.inode (s.pathOf mission id) = some i) :
    w'.fs.inode (s.pathOf mission id) = some i ∧ w'.fs.content i = w.fs.content i := by
  cases h with
  | idle | check | finish | stop | open_ | read => exact ⟨hi, rfl⟩
  | create call c hcall =>
    exact ⟨(create_inode_of_ne pathOf_ne_tmpOf).trans hi, create_content_of_ne pathOf_ne_tmpOf hi⟩
  | write call more c inode offset hcall hlt =>
    refine ⟨hi, write_content_of_ne ?_ _ _⟩
    rintro rfl
    exact hop.write call more c i offset rfl hcall hlt mission id hi
  | rename call c inode offset fs hcall hle hmove =>
    obtain ⟨hnone, -⟩ := hop.rename call c inode offset rfl hcall hle
    obtain ⟨j, -, hinode, hcontent, -⟩ := rename_some hmove
    have hne : s.pathOf mission id ≠ s.recordOf c := by
      intro heq
      rw [heq, hnone] at hi
      cases hi
    refine ⟨?_, congrFun hcontent i⟩
    dsimp only
    rw [hinode, Function.update_of_ne hne, Function.update_of_ne pathOf_ne_tmpOfRecord]
    exact hi

theorem Effect.call_stays (h : Effect s encode w op w') {call : Nat} {c : Call B} (hc : w.calls call = some c) :
    ∃ phase, w'.calls call = some ⟨c.checkpoint, phase⟩ := by
  have hupdate {k : Nat} {c' : PilotCheckpoint B} {phase phase' : Phase} (hk : w.calls k = some ⟨c', phase⟩) :
      ∃ last, Function.update w.calls k (some ⟨c', phase'⟩) call = some ⟨c.checkpoint, last⟩ := by
    by_cases heq : call = k
    · subst heq
      rw [hc, Option.some.injEq] at hk
      exact ⟨phase', by rw [Function.update_self, hk]⟩
    · exact ⟨c.phase, by rw [Function.update_of_ne heq, hc]⟩
  cases h with
  | idle | open_ | read => exact ⟨c.phase, hc⟩
  | check k c' hnone =>
    refine ⟨c.phase, (Function.update_of_ne ?_ _ _).trans hc⟩
    rintro rfl
    rw [hc] at hnone
    cases hnone
  | create k c' hk => exact hupdate hk
  | write k more c' inode offset hk => exact hupdate hk
  | rename k c' inode offset fs hk => exact hupdate hk
  | finish k c' hk => exact hupdate hk
  | stop op k c' phase hk => exact hupdate hk

def Filed (s : CheckpointStore) (w : World B) : Prop :=
  ∀ p i, w.fs.inode p = some i → (∃ mission id, p = s.pathOf mission id) ∨ ∃ mission id, p = s.tmpOf mission id

theorem Effect.filed (h : Effect s encode w op w') (hw : Filed s w) : Filed s w' := by
  cases h with
  | idle | check | finish | stop | open_ | read | write => exact hw
  | create call c hcall =>
    intro p i hp
    by_cases heq : p = s.tmpOfRecord c
    · exact Or.inr ⟨_, _, heq⟩
    · dsimp only at hp
      rw [create_inode_of_ne heq] at hp
      exact hw p i hp
  | rename call c inode offset fs hcall hle hmove =>
    obtain ⟨j, -, hinode, -, -⟩ := rename_some hmove
    intro p i hp
    dsimp only at hp
    rw [hinode, Function.update_apply, Function.update_apply] at hp
    split at hp
    · rename_i heq
      exact Or.inl ⟨_, _, heq⟩
    · split at hp
      · cases hp
      · exact hw p i hp

def Published (s : CheckpointStore) (encode : PilotCheckpoint B → List UInt8) (w : World B) : Prop :=
  ∀ mission id i, w.fs.inode (s.pathOf mission id) = some i → ∃ call c, w.calls call = some c ∧
    s.pathOf mission id = s.recordOf c.checkpoint ∧ w.fs.content i = encode c.checkpoint

theorem Effect.published (h : Effect s encode w op w') (hop : Undisturbed s encode w op)
    (hw : Published s encode w) : Published s encode w' := by
  have hold {mission : MissionId} {id : CheckpointId} {i : Nat} (hi : w.fs.inode (s.pathOf mission id) = some i) :
      ∃ call c, w'.calls call = some c ∧ s.pathOf mission id = s.recordOf c.checkpoint ∧
        w'.fs.content i = encode c.checkpoint := by
    obtain ⟨call, c, hc, hpath, htext⟩ := hw mission id i hi
    obtain ⟨phase, hc'⟩ := h.call_stays hc
    exact ⟨call, ⟨c.checkpoint, phase⟩, hc', hpath, (h.record_stays hop hi).2.trans htext⟩
  intro mission id i hi
  cases h with
  | idle | check | finish | stop | open_ | read | write => exact hold hi
  | create call c hcall =>
    dsimp only at hi
    rw [create_inode_of_ne pathOf_ne_tmpOfRecord] at hi
    exact hold hi
  | rename call c inode offset fs hcall hle hmove =>
    obtain ⟨j, hj, hinode, hcontent, -⟩ := rename_some hmove
    dsimp only at hi
    rw [hinode, Function.update_apply, Function.update_apply, if_neg pathOf_ne_tmpOfRecord] at hi
    split at hi
    · rename_i heq
      cases hi
      -- the file that has just been renamed
      obtain ⟨-, hwhole⟩ := hop.rename call c inode offset rfl hcall hle
      refine ⟨call, ⟨c, .renamed⟩, Function.update_self _ _ _, heq, ?_⟩
      exact (congrFun hcontent i).trans (hwhole _ (Option.map_eq_some_iff.mpr ⟨i, hj, rfl⟩))
    · exact hold hi

def Phase.placed : Phase → Bool
  | .renamed | .returned => true
  | _ => false

/-- A record that a call has put in place is there, and no other call has put it there. -/
structure Placed (s : CheckpointStore) (w : World B) : Prop where
  there : ∀ call c, w.calls call = some c → c.phase.placed = true →
    w.fs.inode (s.recordOf c.checkpoint) ≠ none
  once : ∀ call call' c c', w.calls call = some c → w.calls call' = some c' → c.phase.placed = true →
    c'.phase.placed = true → s.recordOf c.checkpoint = s.recordOf c'.checkpoint → call = call'

theorem Effect.placed_before (h : Effect s encode w op w') {call : Nat} {c : Call B}
    (hc : w'.calls call = some c) (hplaced : c.phase.placed = true) :
    (∃ c', w.calls call = some c' ∧ c'.checkpoint = c.checkpoint ∧ c'.phase.placed = true) ∨
      (op = .rename call ∧ ∃ inode offset, w.calls call = some ⟨c.checkpoint, .opened inode offset⟩ ∧
        (encode c.checkpoint).length ≤ offset ∧ w'.fs.inode (s.recordOf c.checkpoint) ≠ none) := by
  have hupdate {k : Nat} {c' : PilotCheckpoint B} {phase : Phase} (hphase : phase.placed = false)
      (hk : Function.update w.calls k (some ⟨c', phase⟩) call = some c) : w.calls call = some c := by
    obtain ⟨-, rfl⟩ | ⟨-, hk⟩ := update_some hk
    · rw [hphase] at hplaced
      cases hplaced
    · exact hk
  cases h with
  | idle | open_ | read => exact Or.inl ⟨c, hc, rfl, hplaced⟩
  | check k c' hnone =>
    refine Or.inl ⟨c, hupdate ?_ hc, rfl, hplaced⟩
    split <;> rfl
  | create k c' hk => exact Or.inl ⟨c, hupdate rfl hc, rfl, hplaced⟩
  | write k more c' inode offset hk => exact Or.inl ⟨c, hupdate rfl hc, rfl, hplaced⟩
  | stop op k c' phase hk => exact Or.inl ⟨c, hupdate rfl hc, rfl, hplaced⟩
  | finish k c' hk =>
    obtain ⟨rfl, rfl⟩ | ⟨-, hold⟩ := update_some hc
    · exact Or.inl ⟨_, hk, rfl, rfl⟩
    · exact Or.inl ⟨c, hold, rfl, hplaced⟩
  | rename k c' inode offset fs hk hle hmove =>
    obtain ⟨j, -, hinode, -, -⟩ := rename_some hmove
    obtain ⟨rfl, rfl⟩ | ⟨-, hold⟩ := update_some hc
    · refine Or.inr ⟨rfl, inode, offset, hk, hle, ?_⟩
      dsimp only
      rw [hinode, Function.update_self]
      exact Option.some_ne_none j
    · exact Or.inl ⟨c, hold, rfl, hplaced⟩

theorem Effect.placed (h : Effect s encode w op w') (hop : Undisturbed s encode w op) (hw : Placed s w) :
    Placed s w' := by
  -- a call that has put its record in place finds it before the step, so that no other renames it
  have hfresh {call call' : Nat} {c c' : Call B} (hc : w.calls call = some c) (hplaced : c.phase.placed = true)
      {inode offset : Nat} (hrename : op = .rename call')
      (hc' : w.calls call' = some ⟨c'.checkpoint, .opened inode offset⟩)
      (hle : (encode c'.checkpoint).length ≤ offset) : s.recordOf c.checkpoint ≠ s.recordOf c'.checkpoint := by
    intro heq
    exact hw.there call c hc hplaced
      (heq ▸ (hop.rename call' c'.checkpoint inode offset hrename hc' hle).1)
  constructor
  · intro call c hc hplaced
    obtain ⟨c', hc', hsame, hplaced'⟩ | ⟨-, -, -, -, -, hthere⟩ := h.placed_before hc hplaced
    · obtain ⟨i, hi⟩ := Option.ne_none_iff_exists'.mp (hw.there call c' hc' hplaced')
      have hstays : w'.fs.inode (s.recordOf c'.checkpoint) = some i := (h.record_stays hop hi).1
      rw [← hsame, hstays]
      exact Option.some_ne_none i
    · exact hthere
  · intro call call' c c' hc hc' hplaced hplaced' hsame
    obtain ⟨d, hd, hcd, hplacedd⟩ | ⟨hop₁, _, _, hd, hle, -⟩ := h.placed_before hc hplaced
    · obtain ⟨d', hd', hcd', hplacedd'⟩ | ⟨hop₂, _, _, hd', hle', -⟩ := h.placed_before hc' hplaced'
      · exact hw.once call call' d d' hd hd' hplacedd hplacedd' (by rw [hcd, hcd', hsame])
      · exact absurd (hcd ▸ hsame) (hfresh hd hplacedd hop₂ hd' hle')
    · obtain ⟨d', hd', hcd', hplacedd'⟩ | ⟨hop₂, _, _, hd', hle', -⟩ := h.placed_before hc' hplaced'
      · exact absurd (hcd' ▸ hsame.symm) (hfresh hd' hplacedd' hop₁ hd hle)
      · rw [hop₁, Op.rename.injEq] at hop₂
        exact hop₂

def Reading (s : CheckpointStore) (w : World B) : Prop :=
  ∀ reader r, w.readers reader = some r → w.fs.inode r.path = some r.inode ∧
    (∃ mission id, r.path = s.pathOf mission id) ∧ r.bytes <+: w.fs.content r.inode ∧
    (r.finished = true → r.bytes = w.fs.content r.inode)

theorem Effect.reading (h : Effect s encode w op w') (hop : Undisturbed s encode w op) (hfiled : Filed s w)
    (hw : Reading s w) : Reading s w' := by
  have hold {reader : Nat} {r : Reader} (hr : w.readers reader = some r) :
      w'.fs.inode r.path = some r.inode ∧ (∃ mission id, r.path = s.pathOf mission id) ∧
        r.bytes <+: w'.fs.content r.inode ∧ (r.finished = true → r.bytes = w'.fs.content r.inode) := by
    obtain ⟨hi, ⟨mission, id, hpath⟩, hprefix, hall⟩ := hw reader r hr
    rw [hpath] at hi ⊢
    obtain ⟨hi', hcontent⟩ := h.record_stays hop hi
    rw [hcontent]
    exact ⟨hi', ⟨mission, id, rfl⟩, hprefix, hall⟩
  intro reader r hr
  cases h with
  | idle | check | create | write | rename | finish | stop => exact hold hr
  | open_ op k path inode hi hpath =>
    obtain ⟨-, rfl⟩ | ⟨-, hr⟩ := update_some hr
    · refine ⟨hi, ?_, List.nil_prefix, fun hc => by cases hc⟩
      obtain hrecord | ⟨mission, id, htmp⟩ := hfiled path inode hi
      · exact hrecord
      · exact absurd htmp (hpath mission id)
    · exact hold hr
  | read k more r' hr' hmore =>
    obtain ⟨-, rfl⟩ | ⟨-, hr⟩ := update_some hr
    · obtain ⟨hi, hpath, ⟨rest, hrest⟩, -⟩ := hw k r' hr'
      have hdrop : (w.fs.content r'.inode).drop r'.bytes.length = rest := by
        rw [← hrest, List.drop_left]
      refine ⟨hi, hpath, ?_, fun hdone => ?_⟩
      · dsimp only
        rw [hdrop, ← hrest]
        exact List.prefix_append_right_inj _ |>.mpr (List.take_prefix _ _)
      · dsimp only at hdone ⊢
        rw [hdrop, List.isEmpty_iff] at hdone
        rw [hdrop, ← hrest, hdone, List.take_nil]
    · exact hold hr

/-- A temporary file that is open is one call's own, holds what the call has written, and
its id has no record. -/
structure Private (s : CheckpointStore) (encode : PilotCheckpoint B → List UInt8) (w : World B) : Prop where
  file : ∀ call c inode offset, w.calls call = some ⟨c, .opened inode offset⟩ →
    w.fs.inode (s.tmpOfRecord c) = some inode ∧ w.fs.content inode = (encode c).take offset ∧
      w.fs.inode (s.recordOf c) = none
  alone : ∀ call c inode offset call' c' inode' offset', w.calls call = some ⟨c, .opened inode offset⟩ →
    w.calls call' = some ⟨c', .opened inode' offset'⟩ → s.tmpOfRecord c = s.tmpOfRecord c' → call = call'

theorem Private.undisturbed (h : Private s encode w) (op : Op B) : Undisturbed s encode w op := by
  constructor
  · intro call c inode offset _ hcall hle
    obtain ⟨hinode, hcontent, hnone⟩ := h.file call c inode offset hcall
    refine ⟨hnone, fun text htext => ?_⟩
    rw [Fs.read, hinode, Option.map_some, hcontent, List.take_of_length_le hle, Option.some.injEq] at htext
    exact htext.symm
  · intro call more c inode offset _ hcall _ mission id hrecord
    obtain ⟨hinode, -, -⟩ := h.file call c inode offset hcall
    exact pathOf_ne_tmpOfRecord (w.fs.single _ _ _ hrecord hinode)

theorem Private.set (hw : Private s encode w) (call : Nat) (c : PilotCheckpoint B) {phase : Phase}
    (hphase : ∀ inode offset, phase ≠ .opened inode offset) : Private s encode (w.set call ⟨c, phase⟩) := by
  have hold {k : Nat} {d : PilotCheckpoint B} {i off : Nat}
      (hk : (w.set call ⟨c, phase⟩).calls k = some ⟨d, .opened i off⟩) :
      w.calls k = some ⟨d, .opened i off⟩ := by
    obtain ⟨-, hc⟩ | ⟨-, hk⟩ := update_some hk
    · cases hc
      exact absurd rfl (hphase i off)
    · exact hk
  exact ⟨fun k d i off hk => hw.file k d i off (hold hk),
    fun k d i off k' d' i' off' hk hk' => hw.alone k d i off k' d' i' off' (hold hk) (hold hk')⟩

theorem Private.create (hw : Private s encode w) (call : Nat) {c : PilotCheckpoint B}
    (hnone : w.fs.inode (s.recordOf c) = none)
    (hne : ∀ k d i off, w.calls k = some ⟨d, .opened i off⟩ → s.tmpOfRecord d ≠ s.tmpOfRecord c) :
    Private s encode
      { w.set call ⟨c, .opened (w.fs.handle (s.tmpOfRecord c)) 0⟩ with fs := w.fs.create (s.tmpOfRecord c) } := by
  constructor
  · intro k d i off hk
    obtain ⟨rfl, hc⟩ | ⟨-, hk⟩ := update_some hk
    · cases hc
      exact ⟨create_inode_self, create_content_self, (create_inode_of_ne pathOf_ne_tmpOfRecord).trans hnone⟩
    · obtain ⟨hinode, hcontent, hfree⟩ := hw.file k d i off hk
      have hpath := hne k d i off hk
      exact ⟨(create_inode_of_ne hpath).trans hinode, (create_content_of_ne hpath hinode).trans hcontent,
        (create_inode_of_ne pathOf_ne_tmpOfRecord).trans hfree⟩
  · intro k d i off k' d' i' off' hk hk' hsame
    obtain ⟨rfl, hc⟩ | ⟨-, hold⟩ := update_some hk
    · obtain ⟨rfl, -⟩ | ⟨-, hk'⟩ := update_some hk'
      · rfl
      · cases hc
        exact absurd hsame.symm (hne k' d' i' off' hk')
    · obtain ⟨rfl, hc⟩ | ⟨-, hk'⟩ := update_some hk'
      · cases hc
        exact absurd hsame (hne k d i off hold)
      · exact hw.alone k d i off k' d' i' off' hold hk' hsame

theorem Private.write (hw : Private s encode w) {call : Nat} {c : PilotCheckpoint B} {inode offset : Nat}
    (hcall : w.calls call = some ⟨c, .opened inode offset⟩) (hlt : offset < (encode c).length) (more : Nat) :
    Private s encode
      { w.set call ⟨c, .opened inode (offset + (((encode c).drop offset).take (more + 1)).length)⟩ with
        fs := w.fs.write inode offset (((encode c).drop offset).take (more + 1)) } := by
  constructor
  · intro k d i off hk
    obtain ⟨rfl, hc⟩ | ⟨hne, hold⟩ := update_some hk
    · cases hc
      obtain ⟨hinode, hcontent, hfree⟩ := hw.file k c inode offset hcall
      refine ⟨hinode, ?_, hfree⟩
      rw [write_content_self, hcontent]
      exact overwrite_take hlt.le (more + 1)
    · obtain ⟨hinode, hcontent, hfree⟩ := hw.file k d i off hold
      refine ⟨hinode, (write_content_of_ne ?_ _ _).trans hcontent, hfree⟩
      rintro rfl
      have hpath := w.fs.single _ _ _ hinode (hw.file call c i offset hcall).1
      exact hne (hw.alone k d i off call c i offset hold hcall hpath)
  · have hopened {k : Nat} {d : PilotCheckpoint B} {i off : Nat}
        (hk : Function.update w.calls call (some ⟨c, .opened inode
          (offset + (((encode c).drop offset).take (more + 1)).length)⟩) k = some ⟨d, .opened i off⟩) :
        ∃ off', w.calls k = some ⟨d, .opened i off'⟩ := by
      obtain ⟨rfl, hc⟩ | ⟨-, hk⟩ := update_some hk
      · cases hc
        exact ⟨offset, hcall⟩
      · exact ⟨off, hk⟩
    intro k d i off k' d' i' off' hk hk' hsame
    obtain ⟨_, hk⟩ := hopened hk
    obtain ⟨_, hk'⟩ := hopened hk'
    exact hw.alone k d i _ k' d' i' _ hk hk' hsame

theorem Private.rename (hw : Private s encode w) {call : Nat} {c : PilotCheckpoint B} {inode offset : Nat}
    {fs : Fs String} (hcall : w.calls call = some ⟨c, .opened inode offset⟩)
    (hmove : w.fs.rename (s.tmpOfRecord c) (s.recordOf c) = some fs) :
    Private s encode { w.set call ⟨c, .renamed⟩ with fs := fs } := by
  obtain ⟨j, -, hinode, hcontent, -⟩ := rename_some hmove
  have hother : Private s encode (w.set call ⟨c, .renamed⟩) := hw.set call c fun _ _ hphase => by cases hphase
  refine ⟨?_, hother.alone⟩
  intro k d i off hk
  obtain ⟨hold, htext, hfree⟩ := hother.file k d i off hk
  obtain ⟨-, hc⟩ | ⟨hne, hk⟩ := update_some hk
  · cases hc
  · have hpath : s.tmpOfRecord d ≠ s.tmpOfRecord c :=
      fun hsame => hne (hw.alone k d i off call c inode offset hk hcall hsame)
    have hrecord : s.recordOf d ≠ s.recordOf c := by
      intro hsame
      obtain ⟨hmission, hid⟩ := pathOf_inj hsame
      exact hpath (by rw [CheckpointStore.tmpOfRecord, CheckpointStore.tmpOfRecord, hmission, hid])
    have htmp : s.tmpOfRecord d ≠ s.recordOf c := fun heq => pathOf_ne_tmpOfRecord heq.symm
    have hmoved : s.recordOf d ≠ s.tmpOfRecord c := pathOf_ne_tmpOfRecord
    dsimp only
    rw [hinode, hcontent, Function.update_of_ne htmp, Function.update_of_ne hpath,
      Function.update_of_ne hrecord, Function.update_of_ne hmoved]
    exact ⟨hold, htext, hfree⟩

theorem Effect.private_ (h : Effect s encode w op w') (hapart : Apart s w op) (hw : Private s encode w) :
    Private s encode w' := by
  cases h with
  | idle | open_ | read => exact ⟨hw.file, hw.alone⟩
  | check call c hcall =>
    refine hw.set call c fun inode offset hphase => ?_
    split at hphase <;> cases hphase
  | finish call c hcall => exact hw.set call c fun _ _ hc => by cases hc
  | stop op call c phase hcall => exact hw.set call c fun _ _ hc => by cases hc
  | create call c hcall =>
    obtain ⟨hnone, hne⟩ := hapart call c rfl hcall
    exact hw.create call hnone hne
  | write call more c inode offset hcall hlt => exact hw.write hcall hlt more
  | rename call c inode offset fs hcall hle hmove => exact hw.rename hcall hmove

end Invariant

section Run

variable {s encode} {ops : List (Op B)}

theorem worldAt_keeps {P : World B → Prop} {n m : Nat} (hnm : n ≤ m) (h : P (worldAt s encode ops n))
    (hstep : ∀ k op w', ops[k]? = some op → Effect s encode (worldAt s encode ops k) op w' →
      P (worldAt s encode ops k) → P w') : P (worldAt s encode ops m) :=
  stateAt_preserves (P := P) World.start
    (fun k op hop hk => hstep k op _ hop (step_effect s encode _ op) hk) hnm h

theorem worldAt_filed (n : Nat) : Filed s (worldAt s encode ops n) := by
  refine worldAt_keeps (Nat.zero_le n) (fun _ _ hp => ?_) fun _ _ _ _ heffect => heffect.filed
  cases hp

/-- If no publisher comes before another's rename or write, published checkpoints are only
ever added. -/
theorem appendOnly (decode : List UInt8 → Option (PilotCheckpoint B))
    (h : ∀ n op, ops[n]? = some op → Undisturbed s encode (worldAt s encode ops n) op) :
    AppendOnly s encode decode ops := by
  have hpublished (n : Nat) : Published s encode (worldAt s encode ops n) := by
    refine worldAt_keeps (Nat.zero_le n) (fun _ _ _ hi => ?_)
      fun k op _ hop heffect => heffect.published (h k op hop)
    cases hi
  have hplaced (n : Nat) : Placed s (worldAt s encode ops n) := by
    refine worldAt_keeps (Nat.zero_le n) ⟨fun _ _ hc => ?_, fun _ _ _ _ hc => ?_⟩
      fun k op _ hop heffect => heffect.placed (h k op hop)
    · cases hc
    · cases hc
  have hreading (n : Nat) : Reading s (worldAt s encode ops n) := by
    refine worldAt_keeps (Nat.zero_le n) (fun _ _ hr => ?_)
      fun k op _ hop heffect => heffect.reading (h k op hop) (worldAt_filed k)
    cases hr
  constructor
  · intro n m mission id c hnm hread
    obtain ⟨text, htext, hdecode⟩ := Option.bind_eq_some_iff.mp hread
    obtain ⟨i, hi, htext⟩ := Option.map_eq_some_iff.mp htext
    have hstays : (worldAt s encode ops m).fs.inode (s.pathOf mission id) = some i ∧
        (worldAt s encode ops m).fs.content i = text := by
      refine worldAt_keeps (P := fun w => w.fs.inode (s.pathOf mission id) = some i ∧ w.fs.content i = text)
        hnm ⟨hi, htext⟩ fun k op w' hop heffect hk => ?_
      obtain ⟨hi', hcontent⟩ := heffect.record_stays (h k op hop) hk.1
      exact ⟨hi', hcontent.trans hk.2⟩
    rw [readRecord, Fs.read, hstays.1, Option.map_some, hstays.2]
    exact hdecode
  · intro n reader r hr hfinished _
    obtain ⟨hi, ⟨mission, id, hpath⟩, -, hall⟩ := hreading n reader r hr
    rw [hpath] at hi
    obtain ⟨call, c, hc, hrecord, htext⟩ := hpublished n mission id r.inode hi
    exact ⟨call, c, hc, hpath.trans hrecord, (hall hfinished).trans htext⟩
  · intro n call call' c c' hc hc' hmission hid
    refine (hplaced n).once call call' _ _ hc hc' rfl rfl ?_
    rw [CheckpointStore.recordOf, CheckpointStore.recordOf, hmission, hid]

theorem undisturbed_of_apart (h : ∀ n op, ops[n]? = some op → Apart s (worldAt s encode ops n) op) :
    ∀ n op, ops[n]? = some op → Undisturbed s encode (worldAt s encode ops n) op := by
  intro n op _
  have hprivate : Private s encode (worldAt s encode ops n) := by
    refine worldAt_keeps (Nat.zero_le n) ⟨fun _ _ _ _ hc => ?_, fun _ _ _ _ _ _ _ _ hc => ?_⟩
      fun k op _ hop heffect => heffect.private_ (h k op hop)
    · cases hc
    · cases hc
  exact hprivate.undisturbed op

end Run

section Samples

def sampleStore : CheckpointStore := ⟨"/state/pilot/checkpoints"⟩

def sampleCheckpoint (session : String) : PilotCheckpoint String where
  id := ⟨"cp-1", by decide, by decide, by decide⟩
  missionId := ⟨"task-1", by decide, by decide, by decide⟩
  body := session

def sampleLines (c : PilotCheckpoint String) : List String :=
  ["\x7b", "  \"schema\": \"cosmon.checkpoint/v1\",", "  \"id\": \"" ++ c.id.asStr ++ "\",",
    "  \"mission_id\": \"" ++ c.missionId.asStr ++ "\",", "  \"session_id\": \"" ++ c.body ++ "\",",
    "  \"lease_epoch\": 1,", "  \"scope\": \x7b", "    \"includes\": [],", "    \"excludes\": []", "  \x7d,",
    "  \"current_hypotheses\": [],", "  \"evidence_refs\": [],", "  \"completed_actions\": [],",
    "  \"intended_next_actions\": [],", "  \"open_risks\": [],", "  \"unresolved_questions\": [],",
    "  \"created_at\": \"1970-01-01T00:01:40Z\"", "\x7d"]

def sampleEncode (c : PilotCheckpoint String) : List UInt8 :=
  List.intercalate [10] ((sampleLines c).map fun line => line.toList.map fun c => UInt8.ofNat c.toNat)

def sampleDecode (bytes : List UInt8) : Option (PilotCheckpoint String) :=
  [sampleCheckpoint "sess-a", sampleCheckpoint "sess-b"].find? (sampleEncode · = bytes)

def racingPublishers : List (Op String) :=
  [.check 0 (sampleCheckpoint "sess-a"), .check 1 (sampleCheckpoint "sess-b"),
    .create 0, .write 0 1000, .rename 0, .finish 0, .create 1, .write 1 1000, .rename 1, .finish 1]

theorem racingPublishers_not_appendOnly : ¬AppendOnly sampleStore sampleEncode sampleDecode racingPublishers := by
  intro h
  have hreturned : (worldAt sampleStore sampleEncode racingPublishers 10).calls 0 =
      some ⟨sampleCheckpoint "sess-a", .returned⟩ ∧
      (worldAt sampleStore sampleEncode racingPublishers 10).calls 1 =
        some ⟨sampleCheckpoint "sess-b", .returned⟩ := by decide +kernel
  exact absurd (h.once 10 0 1 _ _ hreturned.1 hreturned.2 rfl rfl) (by decide)

def onePublisher : List (Op String) :=
  [.check 0 (sampleCheckpoint "sess-a"), .create 0, .write 0 99, .write 0 999, .rename 0, .finish 0,
    .check 1 (sampleCheckpoint "sess-b"), .create 1]

theorem onePublisher_appendOnly : AppendOnly sampleStore sampleEncode sampleDecode onePublisher := by
  refine appendOnly sampleDecode (undisturbed_of_apart ?_)
  rintro n op hop call c rfl hcall
  have hfirst : (worldAt sampleStore sampleEncode onePublisher 1).fs.inode
      (sampleStore.recordOf (sampleCheckpoint "sess-a")) = none ∧
      (worldAt sampleStore sampleEncode onePublisher 1).calls 0 = some ⟨sampleCheckpoint "sess-a", .absent⟩ := by
    decide +kernel
  have hrefused : (worldAt sampleStore sampleEncode onePublisher 7).calls 1 =
      some ⟨sampleCheckpoint "sess-b", .alreadyPublished⟩ := by decide +kernel
  obtain _ | _ | _ | _ | _ | _ | _ | _ | n := n <;> cases hop
  · have hc : c = sampleCheckpoint "sess-a" := congrArg (·.checkpoint) (Option.some.inj (hcall.symm.trans hfirst.2))
    rw [hc]
    refine ⟨hfirst.1, fun call' c' inode offset hopened => ?_⟩
    obtain ⟨-, hc⟩ | ⟨-, hc⟩ := update_some hopened
    · rw [Call.mk.injEq] at hc
      obtain ⟨-, hphase⟩ := hc
      split at hphase <;> cases hphase
    · cases hc
  · simp only [Nat.zero_add, Nat.reduceAdd] at hcall
    have hphase := congrArg (·.phase) (Option.some.inj (hcall.symm.trans hrefused))
    cases hphase

end Samples

end Cosmon.Pilot.Checkpoints
