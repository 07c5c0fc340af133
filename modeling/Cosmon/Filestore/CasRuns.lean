import Cosmon.Filestore.Cas

namespace Cosmon.Filestore.Cas

open Cosmon.Lib.Inodes Cosmon.Lib.Runs Cosmon.Lib.Keyed

variable (digest : List UInt8 → Vector UInt8 32) (s : FileCas)

@[simp] theorem set_calls (w : World) (call : Nat) (c : Call) :
    (w.set call c).calls = Function.update w.calls call (some c) := rfl

inductive Effect (w : World) : Op → World → Prop where
  | idle (op : Op) : Effect w op w
  | check (call : Nat) (data : List UInt8) (h : w.calls call = none) :
    Effect w (.check call data)
      (w.set call ⟨data, if s.exists w.fs (sha256 digest data) then .returned else .absent⟩)
  | create (call : Nat) (data : List UInt8) (h : w.calls call = some ⟨data, .absent⟩) :
    Effect w (.create call)
      { w.set call ⟨data, .opened (w.fs.handle (s.tmpPath (sha256 digest data))) 0⟩ with
        fs := w.fs.create (s.tmpPath (sha256 digest data)) }
  | write (call more : Nat) (data : List UInt8) (inode offset : Nat)
      (h : w.calls call = some ⟨data, .opened inode offset⟩) (hlt : offset < data.length) :
    Effect w (.write call more)
      { w.set call ⟨data, .opened inode (offset + ((data.drop offset).take (more + 1)).length)⟩ with
        fs := w.fs.write inode offset ((data.drop offset).take (more + 1)) }
  | rename (call : Nat) (data : List UInt8) (inode offset : Nat) (fs : Fs String)
      (h : w.calls call = some ⟨data, .opened inode offset⟩) (hle : data.length ≤ offset)
      (hmove : w.fs.rename (s.tmpPath (sha256 digest data)) (s.blobPath (sha256 digest data)) = some fs) :
    Effect w (.rename call) { w.set call ⟨data, .returned⟩ with fs := fs }
  | stop (op : Op) (call : Nat) (data : List UInt8) (phase : Phase) (h : w.calls call = some ⟨data, phase⟩)
      (hphase : phase ≠ .returned) : Effect w op (w.set call ⟨data, .stopped⟩)

theorem step_effect (w : World) (op : Op) : Effect digest s w op (World.step digest s w op) := by
  cases op with
  | check call data =>
    cases hcall : w.calls call with
    | none =>
      simp only [World.step, hcall]
      exact .check call data hcall
    | some c =>
      simp only [World.step, hcall]
      exact .idle _
  | create call =>
    simp only [World.step]
    split
    · rename_i data hcall
      exact .create call data hcall
    · exact .idle _
  | write call more =>
    simp only [World.step]
    split
    · rename_i data inode offset hcall
      split
      · rename_i hlt
        exact .write call more data inode offset hcall hlt
      · exact .idle _
    · exact .idle _
  | rename call =>
    simp only [World.step]
    split
    · rename_i data inode offset hcall
      split
      · exact .idle _
      · rename_i hle
        split
        · rename_i fs hmove
          exact .rename call data inode offset fs hcall (Nat.le_of_not_lt hle) hmove
        · exact .stop _ call data _ hcall (fun hc => by cases hc)
    · exact .idle _
  | crash call =>
    simp only [World.step]
    split
    · rename_i data hcall
      exact .stop _ call data _ hcall (fun hc => by cases hc)
    · rename_i data inode offset hcall
      exact .stop _ call data _ hcall (fun hc => by cases hc)
    · exact .idle _

section Invariant

variable {digest s} {w w' : World} {op : Op} {known : Set (List UInt8)}

/-- A file that a call has open is its temporary file, the blob it became, or neither any
more. -/
def Owned (digest : List UInt8 → Vector UInt8 32) (s : FileCas) (w : World) : Prop :=
  ∀ call data inode offset, w.calls call = some ⟨data, .opened inode offset⟩ →
    inode < w.fs.next ∧ ∀ p, w.fs.inode p = some inode →
      p = s.tmpPath (sha256 digest data) ∨ p = s.blobPath (sha256 digest data)

theorem Effect.owned (h : Effect digest s w op w') (hw : Owned digest s w) : Owned digest s w' := by
  cases h with
  | idle => exact hw
  | check call data hcall =>
    intro k d i off hk
    obtain ⟨rfl, hc⟩ | ⟨_, hk⟩ := update_some hk
    · split at hc <;> cases hc
    · exact hw k d i off hk
  | create call data hcall =>
    intro k d i off hk
    obtain ⟨rfl, hc⟩ | ⟨_, hk⟩ := update_some hk
    · cases hc
      refine ⟨handle_lt_create, fun p hp => ?_⟩
      by_cases hp' : p = s.tmpPath (sha256 digest data)
      · exact Or.inl hp'
      · rw [create_inode_of_ne hp'] at hp
        exact absurd (Fs.eq_of_handle hp) hp'
    · obtain ⟨hlt, howner⟩ := hw k d i off hk
      refine ⟨hlt.trans_le next_le_create, fun p hp => ?_⟩
      by_cases hp' : p = s.tmpPath (sha256 digest data)
      · subst hp'
        rw [create_inode_self] at hp
        cases hp
        exact howner _ (Fs.inode_handle hlt)
      · rw [create_inode_of_ne hp'] at hp
        exact howner p hp
  | write call more data inode offset hcall hlt =>
    intro k d i off hk
    obtain ⟨rfl, hc⟩ | ⟨_, hk⟩ := update_some hk
    · cases hc
      exact hw k data inode offset hcall
    · exact hw k d i off hk
  | rename call data inode offset fs hcall hle hmove =>
    obtain ⟨j, hj, hinode, hcontent, hnext⟩ := rename_some hmove
    intro k d i off hk
    obtain ⟨rfl, hc⟩ | ⟨_, hk⟩ := update_some hk
    · cases hc
    · obtain ⟨hlt, howner⟩ := hw k d i off hk
      refine ⟨hnext ▸ hlt, fun p hp => ?_⟩
      dsimp only at hp
      rw [hinode, Function.update_apply, Function.update_apply] at hp
      split at hp
      · rename_i hp'
        cases hp
        subst hp'
        obtain htmp | hblob := howner _ hj
        · rw [tmpPath_inj htmp]
          exact Or.inr rfl
        · exact absurd hblob.symm blobPath_ne_tmpPath
      · split at hp
        · cases hp
        · exact howner p hp
  | stop op call data phase hcall hphase =>
    intro k d i off hk
    obtain ⟨rfl, hc⟩ | ⟨_, hk⟩ := update_some hk
    · cases hc
    · exact hw k d i off hk

def Stored (digest : List UInt8 → Vector UInt8 32) (s : FileCas) (known : Set (List UInt8))
    (fs : Fs String) : Prop :=
  ∀ h d, fs.read (s.blobPath h) = some d → d ∈ known ∧ sha256 digest d = h

/-- The temporary file that the step renames holds all of the content. -/
def Op.Whole (digest : List UInt8 → Vector UInt8 32) (s : FileCas) (w : World) (op : Op) : Prop :=
  ∀ call data inode offset text, op = .rename call → w.calls call = some ⟨data, .opened inode offset⟩ →
    data.length ≤ offset → w.fs.read (s.tmpPath (sha256 digest data)) = some text → text = data

theorem Effect.stored (h : Effect digest s w op w') (hknown : Set.InjOn (sha256 digest) known)
    (hdata : ∀ call c, w.calls call = some c → c.data ∈ known) (howned : Owned digest s w)
    (hwhole : op.Whole digest s w) (hw : Stored digest s known w.fs) : Stored digest s known w'.fs := by
  cases h with
  | idle => exact hw
  | check call data hcall => exact hw
  | create call data hcall =>
    intro h d hd
    obtain ⟨i, hi, hd⟩ := Option.map_eq_some_iff.mp hd
    rw [create_inode_of_ne blobPath_ne_tmpPath] at hi
    rw [create_content_of_ne blobPath_ne_tmpPath hi] at hd
    exact hw h d (Option.map_eq_some_iff.mpr ⟨i, hi, hd⟩)
  | write call more data inode offset hcall hlt =>
    intro h d hd
    obtain ⟨i, hi, hd⟩ := Option.map_eq_some_iff.mp hd
    have hold := hw h (w.fs.content i) (Option.map_eq_some_iff.mpr ⟨i, hi, rfl⟩)
    by_cases hinode : i = inode
    · subst hinode
      -- The file is the caller's own, so that it holds the caller's content already.
      have hown := (howned call data i offset hcall).2 _ hi
      have hhash : h = sha256 digest data := blobPath_inj (hown.resolve_left blobPath_ne_tmpPath)
      have hsame : w.fs.content i = data :=
        hknown hold.1 (hdata call _ hcall) (hold.2.trans hhash)
      rw [write_content_self, hsame, overwrite_self hlt.le] at hd
      rw [hsame, hd] at hold
      exact hold
    · rw [write_content_of_ne hinode] at hd
      rw [hd] at hold
      exact hold
  | rename call data inode offset fs hcall hle hmove =>
    obtain ⟨j, hj, hinode, hcontent, -⟩ := rename_some hmove
    intro h d hd
    obtain ⟨i, hi, hd⟩ := Option.map_eq_some_iff.mp hd
    dsimp only at hi hd
    rw [hcontent] at hd
    rw [hinode, Function.update_apply, Function.update_apply, if_neg blobPath_ne_tmpPath] at hi
    split at hi
    · rename_i hpath
      cases hi
      have hdata' := hwhole call data inode offset d rfl hcall hle (Option.map_eq_some_iff.mpr ⟨j, hj, hd⟩)
      rw [hdata', blobPath_inj hpath]
      exact ⟨hdata call _ hcall, rfl⟩
    · exact hw h d (Option.map_eq_some_iff.mpr ⟨i, hi, hd⟩)
  | stop op call data phase hcall hphase => exact hw

theorem Effect.exists (h : Effect digest s w op w') {hash : ContentHash} (hw : s.exists w.fs hash) :
    s.exists w'.fs hash := by
  cases h with
  | create call data hcall =>
    rw [FileCas.exists, create_inode_of_ne blobPath_ne_tmpPath]
    exact hw
  | rename call data inode offset fs hcall hle hmove =>
    obtain ⟨j, hj, hinode, -⟩ := rename_some hmove
    rw [FileCas.exists]
    dsimp only
    rw [hinode, Function.update_apply, Function.update_apply, if_neg blobPath_ne_tmpPath]
    split
    · rfl
    · exact hw
  | idle | check | write | stop => exact hw

def Returned (digest : List UInt8 → Vector UInt8 32) (s : FileCas) (w : World) : Prop :=
  ∀ call data, w.calls call = some ⟨data, .returned⟩ → s.exists w.fs (sha256 digest data)

theorem Effect.returned (h : Effect digest s w op w') (hw : Returned digest s w) : Returned digest s w' := by
  have hold {fs : Fs String} {call : Nat} {data : List UInt8} {phase : Phase}
      (hexists : ∀ hash, s.exists w.fs hash → s.exists fs hash)
      (hphase : phase = .returned → s.exists fs (sha256 digest data)) :
      Returned digest s { w.set call ⟨data, phase⟩ with fs := fs } := by
    intro k d hk
    obtain ⟨_, hc⟩ | ⟨_, hk⟩ := update_some hk
    · cases hc
      exact hphase rfl
    · exact hexists _ (hw k d hk)
  have hexists {hash : ContentHash} (hhash : s.exists w.fs hash) : s.exists w'.fs hash := h.exists hhash
  cases h with
  | idle => exact hw
  | check call data hcall =>
    refine hold (fun _ => id) fun hphase => ?_
    split at hphase
    · rename_i hdone
      exact hdone
    · cases hphase
  | create call data hcall => exact hold (fun _ => hexists) fun hphase => by cases hphase
  | write call more data inode offset hcall hlt => exact hold (fun _ => hexists) fun hphase => by cases hphase
  | rename call data inode offset fs hcall hle hmove =>
    refine hold (fun _ => hexists) fun _ => ?_
    obtain ⟨j, -, hinode, -⟩ := rename_some hmove
    rw [FileCas.exists, hinode, Function.update_self]
    rfl
  | stop op call data phase hcall hphase => exact hold (fun _ => id) fun hphase => by cases hphase

theorem Effect.stays (h : Effect digest s w op w') {k : Nat} {d : List UInt8}
    (hk : w.calls k = some ⟨d, .returned⟩) : w'.calls k = some ⟨d, .returned⟩ := by
  have hother {call : Nat} {c c' : Call} (hcall : w.calls call = some c) (hc : c.phase ≠ .returned) :
      Function.update w.calls call (some c') k = some ⟨d, .returned⟩ := by
    rw [Function.update_of_ne, hk]
    rintro rfl
    rw [hk] at hcall
    cases hcall
    exact hc rfl
  cases h with
  | idle => exact hk
  | check call data hcall =>
    rw [set_calls, Function.update_of_ne, hk]
    rintro rfl
    rw [hk] at hcall
    cases hcall
  | create call data hcall => exact hother hcall (fun hc => by cases hc)
  | write call more data inode offset hcall hlt => exact hother hcall (fun hc => by cases hc)
  | rename call data inode offset fs hcall hle hmove => exact hother hcall (fun hc => by cases hc)
  | stop op call data phase hcall hphase => exact hother hcall hphase

theorem Effect.data (h : Effect digest s w op w') (hop : ∀ call data, op = .check call data → data ∈ known)
    (hw : ∀ call c, w.calls call = some c → c.data ∈ known) :
    ∀ call c, w'.calls call = some c → c.data ∈ known := by
  have hupdate (call : Nat) {data : List UInt8} (hdata : data ∈ known) (phase : Phase) (k : Nat) (c : Call)
      (hk : Function.update w.calls call (some ⟨data, phase⟩) k = some c) : c.data ∈ known := by
    obtain ⟨_, rfl⟩ | ⟨_, hk⟩ := update_some hk
    · exact hdata
    · exact hw k c hk
  cases h with
  | idle => exact hw
  | check call data hcall => exact hupdate call (hop call data rfl) _
  | create call data hcall => exact hupdate call (hw call _ hcall) _
  | write call more data inode offset hcall hlt => exact hupdate call (hw call _ hcall) _
  | rename call data inode offset fs hcall hle hmove => exact hupdate call (hw call _ hcall) _
  | stop op call data phase hcall hphase => exact hupdate call (hw call _ hcall) _

end Invariant

section Run

variable {digest s} {fs : Fs String} {ops : List Op}

theorem worldAt_succ {n : Nat} {op : Op} (h : ops[n]? = some op) :
    worldAt digest s fs ops (n + 1) = World.step digest s (worldAt digest s fs ops n) op := stateAt_succ _ h _

theorem worldAt_keeps {P : World → Prop} (hstart : P (World.start fs))
    (hstep : ∀ n op w', ops[n]? = some op → Effect digest s (worldAt digest s fs ops n) op w' →
      P (worldAt digest s fs ops n) → P w') (n : Nat) : P (worldAt digest s fs ops n) :=
  stateAt_preserves (P := P) (World.start fs)
    (fun k op hop hk => hstep k op _ hop (step_effect digest s _ op) hk) (Nat.zero_le n) hstart

theorem worldAt_owned (n : Nat) : Owned digest s (worldAt digest s fs ops n) := by
  refine worldAt_keeps (fun _ _ _ _ hcall => ?_) (fun _ _ _ _ heffect => heffect.owned) n
  cases hcall

theorem worldAt_returned (n : Nat) : Returned digest s (worldAt digest s fs ops n) := by
  refine worldAt_keeps (fun _ _ hcall => ?_) (fun _ _ _ _ heffect => heffect.returned) n
  cases hcall

theorem worldAt_stays {n m : Nat} (hnm : n ≤ m) {call : Nat} {data : List UInt8}
    (h : (worldAt digest s fs ops n).calls call = some ⟨data, .returned⟩) :
    (worldAt digest s fs ops m).calls call = some ⟨data, .returned⟩ :=
  stateAt_preserves (P := fun w => w.calls call = some ⟨data, .returned⟩) (World.start fs)
    (fun _ op _ hk => (step_effect digest s _ op).stays hk) hnm h

def known (s : FileCas) (fs : Fs String) (ops : List Op) : Set (List UInt8) :=
  { data | (∃ h, fs.read (s.blobPath h) = some data) ∨ ∃ call, Op.check call data ∈ ops }

theorem worldAt_data (n : Nat) :
    ∀ call c, (worldAt digest s fs ops n).calls call = some c → c.data ∈ known s fs ops := by
  refine worldAt_keeps (P := fun w => ∀ call c, w.calls call = some c → c.data ∈ known s fs ops)
    (fun _ _ hcall => by cases hcall) (fun k op _ hop heffect => heffect.data ?_) n
  rintro call data rfl
  exact Or.inr ⟨call, List.mem_of_getElem? hop⟩

theorem get_eq_ok {w : World} {h : ContentHash} {data : List UInt8} :
    s.get w.fs h = .ok data ↔ w.fs.read (s.blobPath h) = some data := by
  rw [FileCas.get]
  cases w.fs.read (s.blobPath h) with
  | none => exact iff_of_false (fun hc => by cases hc) (fun hc => by cases hc)
  | some text => exact ⟨fun hc => by cases hc; rfl, fun hc => by cases hc; rfl⟩

/-- A store whose blobs are named by their hashes stays one, and keeps what is put, exactly
when every temporary file is whole as it is renamed. -/
theorem contentAddressed_iff (hstart : ∀ h data, fs.read (s.blobPath h) = some data → sha256 digest data = h)
    (hknown : Set.InjOn (sha256 digest) (known s fs ops)) :
    ContentAddressed digest s fs ops ↔ RenamesWhole digest s fs ops := by
  constructor
  · intro h n call data inode offset text hop hcall hle htext
    obtain ⟨j, hj, htext⟩ := Option.map_eq_some_iff.mp htext
    have hsucc : worldAt digest s fs ops (n + 1) =
        World.step digest s (worldAt digest s fs ops n) (.rename call) := worldAt_succ hop
    cases hmove : (worldAt digest s fs ops n).fs.rename (s.tmpPath (sha256 digest data))
        (s.blobPath (sha256 digest data)) with
    | none =>
      rw [rename_none.mp hmove] at hj
      cases hj
    | some fs' =>
      simp only [World.step, hcall, Nat.not_lt.mpr hle, if_false, hmove] at hsucc
      have hput := h.put (n + 1) call data (by rw [hsucc]; exact Function.update_self _ _ _) (n + 1) (le_refl _)
      obtain ⟨i, hi, hinode, hcontent, -⟩ := rename_some hmove
      rw [hj] at hi
      cases hi
      rw [get_eq_ok, hsucc, Fs.read] at hput
      dsimp only at hput
      rw [hinode, Function.update_self, hcontent, Option.map_some, htext] at hput
      exact Option.some.inj hput
  · intro h
    have hstored (n : Nat) : Stored digest s (known s fs ops) (worldAt digest s fs ops n).fs := by
      refine worldAt_keeps (P := fun w => Stored digest s (known s fs ops) w.fs)
        (fun hash data hdata => ⟨Or.inl ⟨hash, hdata⟩, hstart hash data hdata⟩)
        (fun k op w' hop heffect => ?_) n
      refine heffect.stored hknown (worldAt_data k) (worldAt_owned k) ?_
      rintro call data inode offset text rfl hcall hle htext
      exact h k call data inode offset text hop hcall hle htext
    constructor
    · intro n hash data hdata
      exact (hstored n hash data (get_eq_ok.mp hdata)).2
    · intro n call data hcall m hnm
      have hdone := worldAt_stays hnm hcall
      have hexists := worldAt_returned m call data hdone
      obtain ⟨i, hi⟩ := Option.isSome_iff_exists.mp hexists
      have hread : (worldAt digest s fs ops m).fs.read (s.blobPath (sha256 digest data)) =
          some ((worldAt digest s fs ops m).fs.content i) := Option.map_eq_some_iff.mpr ⟨i, hi, rfl⟩
      obtain ⟨hmem, hhash⟩ := hstored m _ _ hread
      rw [get_eq_ok, hread, hknown hmem (worldAt_data m call _ hdone) hhash]

end Run

section Samples

def helloWorld : List UInt8 := [0x68, 0x65, 0x6C, 0x6C, 0x6F, 0x20, 0x77, 0x6F, 0x72, 0x6C, 0x64]

def sampleDigest (data : List UInt8) : Vector UInt8 32 :=
  if data = helloWorld then #v[
    0xB9, 0x4D, 0x27, 0xB9, 0x93, 0x4D, 0x3E, 0x08, 0xA5, 0x2E, 0x52, 0xD7, 0xDA, 0x7D, 0xAB, 0xFA,
    0xC4, 0x84, 0xEF, 0xE3, 0x7A, 0x53, 0x80, 0xEE, 0x90, 0x88, 0xF7, 0xAC, 0xE2, 0xEF, 0xCD, 0xE9]
  else if data = [] then #v[
    0xE3, 0xB0, 0xC4, 0x42, 0x98, 0xFC, 0x1C, 0x14, 0x9A, 0xFB, 0xF4, 0xC8, 0x99, 0x6F, 0xB9, 0x24,
    0x27, 0xAE, 0x41, 0xE4, 0x64, 0x9B, 0x93, 0x4C, 0xA4, 0x95, 0x99, 0x1B, 0x78, 0x52, 0xB8, 0x55]
  else Vector.replicate 32 0

def store : FileCas := ⟨"/tmp/cosmon-cas"⟩

def onePut : List Op := [.check 0 helloWorld, .create 0, .write 0 4, .write 0 5, .rename 0]

theorem onePut_contentAddressed : ContentAddressed sampleDigest store .empty onePut := by
  refine (contentAddressed_iff (fun h data hread => by cases hread) ?_).mpr ?_
  · have hhello {data : List UInt8} (h : data ∈ known store .empty onePut) : data = helloWorld := by
      obtain ⟨_, hread⟩ | ⟨call, hop⟩ := h
      · cases hread
      · simp only [onePut, List.mem_cons, List.not_mem_nil, or_false, Op.check.injEq, reduceCtorEq] at hop
        exact hop.2
    intro data hdata data' hdata' _
    rw [hhello hdata, hhello hdata']
  · intro n call data inode offset text hop hcall hle htext
    have hopened : (worldAt sampleDigest store .empty onePut 4).calls 0 = some ⟨helloWorld, .opened 0 11⟩ := by
      decide +kernel
    have hwhole : (worldAt sampleDigest store .empty onePut 4).fs.read
        (store.tmpPath (sha256 sampleDigest helloWorld)) = some helloWorld := by decide +kernel
    obtain _ | _ | _ | _ | _ | n := n
    · cases hop
    · cases hop
    · cases hop
    · cases hop
    · cases hop
      rw [hopened] at hcall
      cases hcall
      rw [hwhole] at htext
      exact (Option.some.inj htext).symm
    · cases hop

def twoPuts : List Op :=
  [.check 0 helloWorld, .check 1 helloWorld, .create 0, .write 0 10, .create 1, .rename 0, .crash 1]

theorem twoPuts_not_contentAddressed : ¬ContentAddressed sampleDigest store .empty twoPuts := by
  intro h
  have hread : (worldAt sampleDigest store .empty twoPuts 7).fs.read
      (store.blobPath (sha256 sampleDigest helloWorld)) = some [] := by decide +kernel
  exact absurd (h.get 7 _ [] (get_eq_ok.mpr hread)) (by decide +kernel)

end Samples

end Cosmon.Filestore.Cas
