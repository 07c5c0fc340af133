import Cosmon.Lib.Runs
import Cosmon.State.EventLog

namespace Cosmon.State.EventLogRuns

open Cosmon.Lib.Lines Cosmon.Lib.Runs Cosmon.State.Molecule Cosmon.State.EventLog

/-- The events file, the writers attached to it, every content its sidecar
has had, and the envelopes whose emit succeeded. -/
structure World (E : Type) where
  file : List UInt8
  writers : Nat → Option EventLogWriter
  sidecars : List SeqCheckpoint
  log : List (Envelope E)

def World.start {E : Type} (initial : List UInt8) (sidecars : List SeqCheckpoint) : World E :=
  { file := initial, writers := fun _ => none, sidecars := sidecars, log := [] }

/-- A writer is opened without the lock, so it may read an older sidecar and
see only a part of the file; an emit runs under the lock. -/
inductive Op (E : Type) where
  | open (writer : Nat) (sidecar : Option Nat) (seen : Nat)
  | emit (writer : Nat) (call : EmitCall E)

variable {E : Type} (cx : Codec E)

def World.step (w : World E) : Op E → World E
  | .open i sidecar seen =>
    let opened := EventLogWriter.open cx (w.file.take seen) (sidecar.bind fun n => w.sidecars[n]?)
    { w with writers := Function.update w.writers i (some opened) }
  | .emit i call =>
    match w.writers i with
    | none => w
    | some writer =>
      let r := emitLocked cx w.file writer call
      { file := r.file
        writers := Function.update w.writers i (some r.writer)
        sidecars := w.sidecars ++ r.checkpoint.toList
        log := match r.result with
          | .ok env => w.log ++ [env]
          | .error _ => w.log }

/-- The world of a run before its `n`-th action. -/
def worldAt (initial : List UInt8) (sidecars : List SeqCheckpoint) (ops : List (Op E)) (n : Nat) :
    World E :=
  stateAt (World.step cx) (World.start initial sidecars) ops n

theorem keys_append {xs : List UInt8} (h : Closed newline xs) (ys : List UInt8) :
    keys cx (xs ++ ys) = keys cx xs ++ keys cx ys := by
  rw [keys, completeLines_append h, List.filterMap_append, keys, keys]

theorem scan_append {xs : List UInt8} (h : Closed newline xs) (ys : List UInt8) (c : Caches) :
    scan cx c (xs ++ ys) = scan cx (scan cx c xs) ys := by
  rw [scan, keys_append cx h, List.foldl_append, scan, scan]

/-- A relation between what a writer caches and what a walk of the file
computes, kept by the scan of a line and by an own append. -/
structure Agreement (R : Caches → Caches → Prop) (Timely : Caches → Key → Prop) : Prop where
  refl : ∀ c, R c c
  counters : ∀ {c d}, R c d → c.nextSeq = d.nextSeq ∧ c.molSeqs = d.molSeqs
  absorb : ∀ {c d} k, R c d → R (c.absorb k) (d.absorb k)
  advance : ∀ {c d k}, R c d → k.seq = d.nextSeq →
    k.molSeq = k.molecule.map (fun mol => (d.molSeqs mol).getD 0) →
    d.nextSeq + 1 < 2 ^ 64 → (∀ mol, (d.molSeqs mol).getD 0 + 1 < 2 ^ 64) → Timely d k →
    R (c.advance k) (d.absorb k)

theorem Agreement.foldl {R : Caches → Caches → Prop} {Timely : Caches → Key → Prop}
    (hR : Agreement R Timely) {c d : Caches} (h : R c d) (ks : List Key) :
    R (ks.foldl Caches.absorb c) (ks.foldl Caches.absorb d) := by
  induction ks generalizing c d with
  | nil => exact h
  | cons k ks ih => exact ih (hR.absorb k h)

def SameCounters (c d : Caches) : Prop := c.nextSeq = d.nextSeq ∧ c.molSeqs = d.molSeqs

theorem seqNext_of_lt {n : Nat} (h : n + 1 < 2 ^ 64) : seqNext n = n + 1 := Nat.mod_eq_of_lt h

theorem absorb_eq_advance_counters {d : Caches} {k : Key} (hseq : k.seq = d.nextSeq)
    (hmol : k.molSeq = k.molecule.map (fun mol => (d.molSeqs mol).getD 0))
    (hroom : d.nextSeq + 1 < 2 ^ 64) (hmroom : ∀ mol, (d.molSeqs mol).getD 0 + 1 < 2 ^ 64) :
    SameCounters (d.advance k) (d.absorb k) := by
  refine ⟨?_, ?_⟩
  · simp only [Caches.advance, Caches.absorb, hseq, seqNext_of_lt hroom, Nat.lt_succ_self, if_true]
  · simp only [Caches.advance, Caches.absorb, hmol]
    cases k.molecule with
    | none => rfl
    | some mol =>
      simp only [Option.map_some, seqNext_of_lt (hmroom mol), Nat.lt_succ_self, if_true]

theorem advance_counters {c d : Caches} (h : SameCounters c d) (k : Key) :
    SameCounters (c.advance k) (d.advance k) := by
  obtain ⟨-, hm⟩ := h
  simp only [SameCounters, Caches.advance, hm, and_self]

theorem sameCounters_agreement : Agreement SameCounters (fun _ _ => True) where
  refl c := ⟨rfl, rfl⟩
  counters h := h
  absorb k h := by
    obtain ⟨hs, hm⟩ := h
    simp only [SameCounters, Caches.absorb, hs, hm, and_self]
  advance := by
    intro c d k h hseq hmol hroom hmroom _
    have h1 := advance_counters h k
    have h2 := absorb_eq_advance_counters hseq hmol hroom hmroom
    exact ⟨h1.1.trans h2.1, h1.2.trans h2.2⟩

/-- No verb timestamp seen so far is later than the one of the key. -/
def VerbTimely (d : Caches) (k : Key) : Prop := k.verb → d.lastVerbTs.all (· ≤ k.timestamp)

theorem eq_agreement : Agreement Eq VerbTimely where
  refl c := rfl
  counters h := by simp [h]
  absorb k h := by rw [h]
  advance := by
    intro c d k h hseq hmol hroom hmroom ht
    subst h
    obtain ⟨hs, hm⟩ := absorb_eq_advance_counters hseq hmol hroom hmroom
    have hv : (c.advance k).lastVerbTs = (c.absorb k).lastVerbTs := by
      simp only [Caches.advance, Caches.absorb]
      cases hk : k.verb with
      | false => simp
      | true =>
        have hle := ht hk
        cases hl : c.lastVerbTs with
        | none => simp
        | some t =>
          rw [hl] at hle
          simp only [Option.all_some, decide_eq_true_eq] at hle
          by_cases hlt : t < k.timestamp
          · simp [hlt]
          · have heq : k.timestamp = t := le_antisymm (not_lt.mp hlt) hle
            simp [heq]
    cases hc : c.advance k
    cases hd : c.absorb k
    simp_all

/-- A writer's cursor stands at the end of a line, and its caches agree with
a walk of the file up to there. -/
structure Tracks (R : Caches → Caches → Prop) (file : List UInt8) (w : EventLogWriter) : Prop where
  within : w.scannedTo ≤ file.length
  closed : Closed newline (file.take w.scannedTo)
  agrees : R w.caches (scan cx .empty (file.take w.scannedTo))

structure Faithful (R : Caches → Caches → Prop) (file : List UInt8) (cp : SeqCheckpoint) : Prop where
  tracks : Tracks cx R file { caches := cp.caches, scannedTo := cp.scannedTo }
  probe : cp.probeDigest = prefixProbeDigest cx file cp.scannedTo

variable {cx} {R : Caches → Caches → Prop} {Timely : Caches → Key → Prop}

theorem Tracks.fresh (hR : Agreement R Timely) (file : List UInt8) : Tracks cx R file .fresh where
  within := Nat.zero_le _
  closed := closed_nil newline
  agrees := hR.refl _

theorem Tracks.append {file : List UInt8} {w : EventLogWriter} (h : Tracks cx R file w)
    (more : List UInt8) : Tracks cx R (file ++ more) w := by
  have htake : (file ++ more).take w.scannedTo = file.take w.scannedTo := by
    rw [List.take_append_of_le_length h.within]
  refine ⟨?_, ?_, ?_⟩
  · rw [List.length_append]
    exact Nat.le_add_right_of_le h.within
  · rw [htake]
    exact h.closed
  · rw [htake]
    exact h.agrees

theorem prefixProbeDigest_append {file : List UInt8} {n : Nat} (h : n ≤ file.length)
    (more : List UInt8) : prefixProbeDigest cx (file ++ more) n = prefixProbeDigest cx file n := by
  simp only [prefixProbeDigest]
  have hle : n - min n checkpointProbeBytes ≤ file.length := by omega
  rw [List.drop_append_of_le_length hle, List.take_append_of_le_length]
  rw [List.length_drop]
  omega

theorem Faithful.append {file : List UInt8} {cp : SeqCheckpoint} (h : Faithful cx R file cp)
    (more : List UInt8) : Faithful cx R (file ++ more) cp where
  tracks := h.tracks.append more
  probe := by rw [prefixProbeDigest_append h.tracks.within]; exact h.probe

theorem catchUpScan_tracks (hR : Agreement R Timely) {file : List UInt8} {w : EventLogWriter}
    (h : Tracks cx R file w) :
    Tracks cx R file (catchUpScan cx file w) ∧
      (Closed newline file → (catchUpScan cx file w).scannedTo = file.length) := by
  have hnot : ¬file.length < w.scannedTo := Nat.not_lt.mpr h.within
  simp only [catchUpScan, hnot, if_false]
  split
  · next heq => exact ⟨h, fun _ => heq.symm⟩
  · obtain ⟨hle, hcl, hlines⟩ := take_consumed newline (file.drop w.scannedTo)
    have htake : file.take (w.scannedTo + consumed newline (file.drop w.scannedTo)) =
        file.take w.scannedTo ++ (file.drop w.scannedTo).take (consumed newline (file.drop w.scannedTo)) :=
      List.take_add
    have hkeys : keys cx ((file.drop w.scannedTo).take (consumed newline (file.drop w.scannedTo))) =
        keys cx (file.drop w.scannedTo) := by
      rw [keys, hlines, keys]
    refine ⟨⟨?_, ?_, ?_⟩, fun hfile => ?_⟩
    · rw [List.length_drop] at hle
      have := h.within
      simp only
      omega
    · simp only [htake]
      exact closed_append h.closed hcl
    · simp only [htake]
      rw [scan_append cx h.closed, scan, scan, hkeys]
      exact hR.foldl h.agrees _
    · have hdrop : Closed newline (file.drop w.scannedTo) := by
        have hsplit := splitLines_append h.closed (file.drop w.scannedTo)
        rw [List.take_append_drop] at hsplit
        rw [Closed, hsplit] at hfile
        exact hfile
      simp only [consumed_of_closed hdrop, List.length_drop]
      have := h.within
      omega

theorem restoreCheckpoint_tracks (hR : Agreement R Timely) {file : List UInt8}
    {sidecar : Option SeqCheckpoint}
    (h : ∀ cp, sidecar = some cp → cp.scannedTo ≤ file.length →
      Tracks cx R file { caches := cp.caches, scannedTo := cp.scannedTo }) :
    Tracks cx R file (restoreCheckpoint cx file sidecar) := by
  cases sidecar with
  | none => exact .fresh hR file
  | some cp =>
    simp only [restoreCheckpoint]
    split
    · exact .fresh hR file
    · next hle =>
      split
      · exact .fresh hR file
      · exact h cp rfl (Nat.not_lt.mp hle)

/-- Opening a writer on any part of the file, with any sidecar that ever
described it, gives a sound cursor. -/
theorem open_tracks (hR : Agreement R Timely) {file : List UInt8} {sidecar : Option SeqCheckpoint}
    (h : ∀ cp, sidecar = some cp → Faithful cx R file cp) (seen : Nat) :
    Tracks cx R file (EventLogWriter.open cx (file.take seen) sidecar) := by
  have hview : Tracks cx R (file.take seen) (EventLogWriter.open cx (file.take seen) sidecar) := by
    refine (catchUpScan_tracks hR (restoreCheckpoint_tracks hR fun cp hcp hle => ?_)).1
    have ht := (h cp hcp).tracks
    have htake : (file.take seen).take cp.scannedTo = file.take cp.scannedTo := by
      rw [List.take_take, Nat.min_eq_left]
      exact Nat.le_trans hle (List.length_take_le _ _)
    refine ⟨hle, ?_, ?_⟩
    · rw [htake]
      exact ht.closed
    · rw [htake]
      exact ht.agrees
  have happ := hview.append (file.drop seen)
  rw [List.take_append_drop] at happ
  exact happ

theorem parseLine_encode {env : Envelope E} {text : List UInt8} (h : cx.encode env = some text) :
    parseLine cx text = cx.decode text := by
  have hlast := cx.encode_brace env text h
  have hne : text ≠ [] := by
    rintro rfl
    cases hlast
  have htrim : text.rdropWhile (· = carriageReturn) = text := by
    rw [List.rdropWhile_eq_self_iff]
    intro hl
    rw [List.getLast?_eq_some_getLast hl] at hlast
    rw [Option.some.inj hlast]
    decide
  simp only [parseLine, hne, if_false, cx.encode_utf8 env text h, not_true_eq_false, htrim]

theorem keys_line {env : Envelope E} {text : List UInt8} (h : cx.encode env = some text)
    (hback : ReadsBack cx env.event) : keys cx (text ++ [newline]) = [cx.key env] := by
  rw [keys, completeLines_line (cx.encode_newline env text h)]
  simp only [List.filterMap_cons, List.filterMap_nil, parseLine_encode h, hback env rfl text h]

/-- The call is written whole, its line parses back, and it is timely for the
file it is appended to. -/
structure Orderly (cx : Codec E) (Timely : Caches → Key → Prop) (file : List UInt8)
    (call : EmitCall E) : Prop where
  complete : call.cut = none
  readsBack : ReadsBack cx call.event
  timely : ∀ env : Envelope E, env.event = call.event → env.timestamp = call.timestamp →
    Timely (scan cx .empty file) (cx.key env)

/-- What an orderly emit does to a closed file: it fails and appends nothing,
or it appends one readable line numbered by a walk of the file. -/
theorem emitLocked_spec (hR : Agreement R Timely) {file : List UInt8} {w : EventLogWriter}
    {call : EmitCall E} (hclosed : Closed newline file) (hw : Tracks cx R file w)
    (hcall : Orderly cx Timely file call)
    (hroom : (scan cx .empty file).nextSeq + 1 < 2 ^ 64)
    (hmroom : ∀ mol, ((scan cx .empty file).molSeqs mol).getD 0 + 1 < 2 ^ 64) :
    let r := emitLocked cx file w call
    (r.file = file ∧ Tracks cx R file r.writer ∧ r.checkpoint = none ∧ ∃ e, r.result = .error e) ∨
    ∃ env text, r.result = .ok env ∧ cx.encode env = some text ∧ r.file = file ++ (text ++ [newline]) ∧
      Tracks cx R r.file r.writer ∧ (∀ cp, r.checkpoint = some cp → Faithful cx R r.file cp) ∧
      env.event = call.event ∧ env.seq = (scan cx .empty file).nextSeq ∧
      env.molSeq = (cx.moleculeId env.event).map
        (fun mol => ((scan cx .empty file).molSeqs mol).getD 0) := by
  intro r
  obtain ⟨htr, hend⟩ := catchUpScan_tracks hR hw
  have hend := hend hclosed
  have hag := htr.agrees
  rw [hend, List.take_length] at hag
  obtain ⟨hs, hm⟩ := hR.counters hag
  cases henc : cx.encode (stamp cx (catchUpScan cx file w) call) with
  | none =>
    left
    simp only [r, emitLocked, henc]
    exact ⟨trivial, htr, trivial, _, rfl⟩
  | some text =>
    right
    have hlen : (file ++ (text ++ [newline])).length =
        (catchUpScan cx file w).scannedTo + (text ++ [newline]).length := by
      rw [List.length_append, hend]
    have hkey : keys cx (text ++ [newline]) = [cx.key (stamp cx (catchUpScan cx file w) call)] :=
      keys_line henc hcall.readsBack
    have hnew : Tracks cx R (file ++ (text ++ [newline]))
        { caches := (catchUpScan cx file w).caches.advance
            (cx.key (stamp cx (catchUpScan cx file w) call))
          scannedTo := (catchUpScan cx file w).scannedTo + (text ++ [newline]).length } := by
      rw [← hlen]
      refine ⟨Nat.le_refl _, ?_, ?_⟩
      · rw [List.take_length]
        exact closed_append hclosed (closed_line (cx.encode_newline _ _ henc))
      · rw [List.take_length, scan_append cx hclosed, scan.eq_def cx (scan cx _ _), hkey]
        refine hR.advance hag hs ?_ hroom hmroom (hcall.timely _ rfl rfl)
        simp only [Codec.key, stamp, hm]
    simp only [r, emitLocked, henc, hcall.complete]
    refine ⟨_, text, rfl, henc, rfl, hnew, ?_, rfl, hs, ?_⟩
    · intro cp hcp
      split at hcp
      · cases hcp
        exact ⟨hnew, rfl⟩
      · cases hcp
    · simp only [stamp, hm]

def about (cx : Codec E) (mol : MoleculeId) (log : List (Envelope E)) : List (Envelope E) :=
  log.filter fun env => cx.moleculeId env.event = some mol

/-- What holds along an orderly run that started with the file `initial`. -/
structure Inv (cx : Codec E) (R : Caches → Caches → Prop) (initial : List UInt8) (w : World E) :
    Prop where
  closed : Closed newline w.file
  lines : completeLines newline w.file =
    completeLines newline initial ++ w.log.map (fun env => (cx.encode env).getD [])
  readable : ∀ env ∈ w.log, ∃ text, cx.encode env = some text ∧
    (cx.decode text).map cx.key = some (cx.key env)
  keys : keys cx w.file = keys cx initial ++ w.log.map cx.key
  writers : ∀ i writer, w.writers i = some writer → Tracks cx R w.file writer
  sidecars : ∀ cp ∈ w.sidecars, Faithful cx R w.file cp
  seqs : w.log.map Envelope.seq = List.range' (scan cx .empty initial).nextSeq w.log.length
  molSeqs : ∀ mol, (about cx mol w.log).map Envelope.molSeq =
    (List.range' (((scan cx .empty initial).molSeqs mol).getD 0) (about cx mol w.log).length).map some
  nextSeq : (scan cx .empty w.file).nextSeq = (scan cx .empty initial).nextSeq + w.log.length
  nextMolSeq : ∀ mol, ((scan cx .empty w.file).molSeqs mol).getD 0 =
    ((scan cx .empty initial).molSeqs mol).getD 0 + (about cx mol w.log).length

theorem start_inv {initial : List UInt8} {sidecars : List SeqCheckpoint}
    (hclosed : Closed newline initial) (hside : ∀ cp ∈ sidecars, Faithful cx R initial cp) :
    Inv cx R initial (World.start initial sidecars) where
  closed := hclosed
  lines := by simp [World.start]
  readable := by simp [World.start]
  keys := by simp [World.start]
  writers := by simp [World.start]
  sidecars := hside
  seqs := rfl
  molSeqs := fun _ => rfl
  nextSeq := rfl
  nextMolSeq := fun _ => rfl

theorem forall_writers {P : EventLogWriter → Prop} {writers : Nat → Option EventLogWriter}
    (hold : ∀ j v, writers j = some v → P v) (i : Nat) {new : EventLogWriter} (hnew : P new) :
    ∀ j v, Function.update writers i (some new) j = some v → P v := by
  intro j v hj
  by_cases hij : j = i
  · subst hij
    rw [Function.update_self] at hj
    cases hj
    exact hnew
  · rw [Function.update_of_ne hij] at hj
    exact hold j v hj

theorem open_inv (hR : Agreement R Timely) {initial : List UInt8} {w : World E}
    (h : Inv cx R initial w) (i : Nat) (sidecar : Option Nat) (seen : Nat) :
    Inv cx R initial (w.step cx (.open i sidecar seen)) := by
  refine { h with writers := forall_writers h.writers i (open_tracks hR (fun cp hcp => ?_) seen) }
  obtain ⟨n, -, hn⟩ := Option.bind_eq_some_iff.mp hcp
  exact h.sidecars cp (List.mem_of_getElem? hn)

theorem absorb_next {d : Caches} {env : Envelope E} (hseq : env.seq = d.nextSeq)
    (hmol : env.molSeq = (cx.moleculeId env.event).map (fun mol => (d.molSeqs mol).getD 0))
    (hroom : d.nextSeq + 1 < 2 ^ 64) (hmroom : ∀ mol, (d.molSeqs mol).getD 0 + 1 < 2 ^ 64) :
    (d.absorb (cx.key env)).nextSeq = d.nextSeq + 1 ∧
      ∀ mol, ((d.absorb (cx.key env)).molSeqs mol).getD 0 =
        (d.molSeqs mol).getD 0 + if cx.moleculeId env.event = some mol then 1 else 0 := by
  obtain ⟨hs, hm⟩ := absorb_eq_advance_counters (k := cx.key env) hseq hmol hroom hmroom
  refine ⟨?_, fun mol => ?_⟩
  · rw [← hs]
    simp only [Caches.advance, Codec.key, hseq, seqNext_of_lt hroom]
  · rw [← hm]
    simp only [Caches.advance, Codec.key, hmol]
    cases hid : cx.moleculeId env.event with
    | none => simp
    | some a =>
      simp only [Option.map_some, seqNext_of_lt (hmroom a)]
      by_cases ha : mol = a
      · subst ha
        simp
      · simp [Function.update_of_ne ha, Ne.symm ha]

theorem append_inv {initial : List UInt8} {w w' : World E} {env : Envelope E} {text : List UInt8}
    (h : Inv cx R initial w) (henc : cx.encode env = some text) (hback : ReadsBack cx env.event)
    (hfile : w'.file = w.file ++ (text ++ [newline])) (hlog : w'.log = w.log ++ [env])
    (hwriters : ∀ i writer, w'.writers i = some writer → Tracks cx R w'.file writer)
    (hside : ∀ cp ∈ w'.sidecars, Faithful cx R w'.file cp)
    (hseq : env.seq = (scan cx .empty w.file).nextSeq)
    (hmol : env.molSeq = (cx.moleculeId env.event).map
      (fun mol => ((scan cx .empty w.file).molSeqs mol).getD 0))
    (hroom : (scan cx .empty w.file).nextSeq + 1 < 2 ^ 64)
    (hmroom : ∀ mol, ((scan cx .empty w.file).molSeqs mol).getD 0 + 1 < 2 ^ 64) :
    Inv cx R initial w' := by
  have hnl := cx.encode_newline env text henc
  have hkey := keys_line henc hback
  have hscan : scan cx .empty w'.file = (scan cx .empty w.file).absorb (cx.key env) := by
    rw [hfile, scan_append cx h.closed, scan.eq_def cx (scan cx _ _), hkey]
    rfl
  obtain ⟨hnext, hmnext⟩ := absorb_next hseq hmol hroom hmroom
  refine ⟨?_, ?_, ?_, ?_, hwriters, hside, ?_, ?_, ?_, ?_⟩
  · rw [hfile]
    exact closed_append h.closed (closed_line hnl)
  · rw [hfile, completeLines_append h.closed, completeLines_line hnl, h.lines, hlog]
    simp [henc]
  · rw [hlog]
    intro a ha
    cases List.mem_append.mp ha with
    | inl ha => exact h.readable a ha
    | inr ha =>
      rw [List.mem_singleton.mp ha]
      exact ⟨text, henc, hback env rfl text henc⟩
  · rw [hfile, keys_append cx h.closed, hkey, h.keys, hlog]
    simp
  · rw [hlog, List.map_append, h.seqs, List.length_append, List.length_singleton,
      List.range'_concat, List.map_singleton, hseq, h.nextSeq, Nat.one_mul]
  · intro mol
    have hm := h.molSeqs mol
    have hn := h.nextMolSeq mol
    simp only [about] at hm hn ⊢
    rw [hlog, List.filter_append]
    by_cases hid : cx.moleculeId env.event = some mol
    · rw [List.map_append, List.length_append, hm]
      simp [hid, hmol, hn, List.range'_concat]
    · simpa [hid] using hm
  · rw [hscan, hnext, h.nextSeq, hlog, List.length_append, List.length_singleton]
    omega
  · intro mol
    rw [hscan, hmnext mol, h.nextMolSeq mol]
    simp only [about, hlog, List.filter_append, List.length_append]
    by_cases hid : cx.moleculeId env.event = some mol
    · simp [hid]
      omega
    · simp [hid]

/-- The counters a walk of the initial file ends with leave room for so many
more events. -/
structure Room (cx : Codec E) (initial : List UInt8) (n : Nat) : Prop where
  few : n < 2 ^ 64
  seqs : ∀ k ∈ keys cx initial, k.seq + n + 1 < 2 ^ 64
  molSeqs : ∀ k ∈ keys cx initial, ∀ ms, k.molSeq = some ms → ms + n + 1 < 2 ^ 64

theorem room_fold {n : Nat} (ks : List Key) {c : Caches} (hs : ∀ k ∈ ks, k.seq + n + 1 < 2 ^ 64)
    (hm : ∀ k ∈ ks, ∀ ms, k.molSeq = some ms → ms + n + 1 < 2 ^ 64)
    (hc : c.nextSeq + n < 2 ^ 64) (hcm : ∀ mol, (c.molSeqs mol).getD 0 + n < 2 ^ 64) :
    let d := ks.foldl Caches.absorb c
    d.nextSeq + n < 2 ^ 64 ∧ (∀ mol, (d.molSeqs mol).getD 0 + n < 2 ^ 64) ∧
      c.nextSeq ≤ d.nextSeq ∧ ∀ k ∈ ks, k.seq < d.nextSeq := by
  induction ks generalizing c with
  | nil => exact ⟨hc, hcm, Nat.le_refl _, by simp⟩
  | cons k ks ih =>
    have hk := hs k List.mem_cons_self
    have hnext : seqNext k.seq = k.seq + 1 := seqNext_of_lt (by omega)
    have hseq : (c.absorb k).nextSeq + n < 2 ^ 64 ∧ c.nextSeq ≤ (c.absorb k).nextSeq ∧
        k.seq < (c.absorb k).nextSeq := by
      simp only [Caches.absorb, hnext]
      split <;> omega
    have hmol : ∀ mol, ((c.absorb k).molSeqs mol).getD 0 + n < 2 ^ 64 := by
      intro mol
      have hold := hcm mol
      cases ha : k.molecule with
      | none => simpa only [Caches.absorb, ha] using hold
      | some a =>
        cases hms : k.molSeq with
        | none => simpa only [Caches.absorb, ha, hms] using hold
        | some ms =>
          have hroom := hm k List.mem_cons_self ms hms
          simp only [Caches.absorb, ha, hms]
          by_cases hmol : mol = a
          · subst hmol
            rw [Function.update_self, Option.getD_some, seqNext_of_lt (by omega)]
            split <;> omega
          · rw [Function.update_of_ne hmol]
            exact hold
    obtain ⟨h1, h2, h3, h4⟩ := ih (fun a ha => hs a (List.mem_cons_of_mem _ ha))
      (fun a ha => hm a (List.mem_cons_of_mem _ ha)) hseq.1 hmol
    refine ⟨h1, h2, hseq.2.1.trans h3, fun a ha => ?_⟩
    cases List.mem_cons.mp ha with
    | inl ha =>
      rw [ha]
      exact Nat.lt_of_lt_of_le hseq.2.2 h3
    | inr ha => exact h4 a ha

theorem Room.bounds {initial : List UInt8} {n : Nat} (h : Room cx initial n) :
    (scan cx .empty initial).nextSeq + n < 2 ^ 64 ∧
      (∀ mol, ((scan cx .empty initial).molSeqs mol).getD 0 + n < 2 ^ 64) ∧
      ∀ k ∈ keys cx initial, k.seq < (scan cx .empty initial).nextSeq := by
  have hfew := h.few
  obtain ⟨h1, h2, -, h4⟩ := room_fold (c := .empty) (keys cx initial) h.seqs h.molSeqs
    (by simp only [Caches.empty]; omega) (fun mol => by simp only [Caches.empty, Option.getD_none]; omega)
  exact ⟨h1, h2, h4⟩

theorem emit_inv (hR : Agreement R Timely) {initial : List UInt8} {n : Nat} (hroom : Room cx initial n)
    {w : World E} (h : Inv cx R initial w) (hn : w.log.length < n) {i : Nat} {call : EmitCall E}
    (hcall : Orderly cx Timely w.file call) : Inv cx R initial (w.step cx (.emit i call)) := by
  simp only [World.step]
  split
  · exact h
  · next writer hw =>
    obtain ⟨hb, hbm, -⟩ := hroom.bounds
    have hr : (scan cx .empty w.file).nextSeq + 1 < 2 ^ 64 := by
      rw [h.nextSeq]
      omega
    have hrm : ∀ mol, ((scan cx .empty w.file).molSeqs mol).getD 0 + 1 < 2 ^ 64 := by
      intro mol
      have hle : (about cx mol w.log).length ≤ w.log.length := List.length_filter_le _ _
      have := hbm mol
      rw [h.nextMolSeq mol]
      omega
    obtain ⟨hfile, htr, hcp, e, hres⟩ | ⟨env, text, hres, henc, hfile, htr, hcp, hev, hseq, hmol⟩ :=
      emitLocked_spec hR h.closed (h.writers i writer hw) hcall hr hrm
    · simp only [hfile, hcp, hres, Option.toList_none, List.append_nil]
      exact { h with writers := forall_writers h.writers i htr }
    · refine append_inv h henc (by rw [hev]; exact hcall.readsBack) hfile (by simp only [hres]) ?_ ?_
        hseq hmol hr hrm
      · refine forall_writers (fun j v hj => ?_) i htr
        have hmore := (h.writers j v hj).append (text ++ [newline])
        rw [← hfile] at hmore
        exact hmore
      · intro cp hm
        cases List.mem_append.mp hm with
        | inl hold =>
          have hmore := (h.sidecars cp hold).append (text ++ [newline])
          rw [← hfile] at hmore
          exact hmore
        | inr hnew => exact hcp cp (Option.mem_toList.mp hnew)

theorem step_log_length (w : World E) (op : Op E) : (w.step cx op).log.length ≤ w.log.length + 1 := by
  cases op with
  | «open» i sidecar seen => exact Nat.le_succ _
  | emit i call =>
    simp only [World.step]
    split
    · exact Nat.le_succ _
    · dsimp only
      split
      · rw [List.length_append, List.length_singleton]
      · exact Nat.le_succ _

theorem run_inv (hR : Agreement R Timely) {initial : List UInt8} {sidecars : List SeqCheckpoint}
    {ops : List (Op E)} (hclosed : Closed newline initial)
    (hside : ∀ cp ∈ sidecars, Faithful cx R initial cp) (hroom : Room cx initial ops.length)
    (hops : ∀ n i call, ops[n]? = some (.emit i call) →
      Orderly cx Timely (worldAt cx initial sidecars ops n).file call) (n : Nat) :
    Inv cx R initial (worldAt cx initial sidecars ops n) := by
  suffices h : Inv cx R initial (worldAt cx initial sidecars ops n) ∧
      (worldAt cx initial sidecars ops n).log.length ≤ n from h.1
  induction n with
  | zero => exact ⟨start_inv hclosed hside, Nat.zero_le _⟩
  | succ n ih =>
    obtain ⟨hinv, hlen⟩ := ih
    cases hop : ops[n]? with
    | none =>
      rw [worldAt, stateAt_none _ hop]
      exact ⟨hinv, Nat.le_succ_of_le hlen⟩
    | some op =>
      rw [worldAt, stateAt_succ _ hop]
      refine ⟨?_, (step_log_length _ op).trans (Nat.succ_le_succ hlen)⟩
      cases op with
      | «open» i sidecar seen => exact open_inv hR hinv i sidecar seen
      | emit i call =>
        obtain ⟨hlt, -⟩ := List.getElem?_eq_some_iff.mp hop
        exact emit_inv hR hroom hinv (Nat.lt_of_le_of_lt hlen hlt) (hops n i call hop)

end Cosmon.State.EventLogRuns
