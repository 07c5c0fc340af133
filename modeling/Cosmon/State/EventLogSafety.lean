import Cosmon.State.EventLogRuns

namespace Cosmon.State.EventLogSafety

open Cosmon.Lib.Lines Cosmon.Lib.Runs Cosmon.State.Molecule Cosmon.State.EventLog
open Cosmon.State.EventLogRuns

section Sample

/-- Two events about one molecule: a verb, and a measurement whose throughput
may not be a finite number. -/
inductive SampleEvent where
  | moleculeStuck
  | localExecReceipt (finite : Bool)
deriving DecidableEq

def unary (n : Nat) : List UInt8 := List.replicate n 0x31 ++ [0x2C]

def takeUnary : List UInt8 → Option (Nat × List UInt8)
  | [] => none
  | b :: rest =>
    if b = 0x2C then some (0, rest)
    else if b = 0x31 then (takeUnary rest).map fun r => (r.1 + 1, r.2)
    else none

/-- The tag of an event; a number that is not finite is written as `null`. -/
def SampleEvent.tag : SampleEvent → UInt8
  | .moleculeStuck => 0x73
  | .localExecReceipt true => 0x72
  | .localExecReceipt false => 0x6E

def sampleEncode (env : Envelope SampleEvent) : List UInt8 :=
  0x7B :: (unary env.seq ++ (unary (env.molSeq.elim 0 (· + 1)) ++ (unary env.timestamp.toNat ++
    (unary (-env.timestamp).toNat ++ [env.event.tag, 0x7D]))))

/-- The parser of the sample lines. It refuses a `null` where it expects a
number. -/
def sampleDecode : List UInt8 → Option (Envelope SampleEvent)
  | [] => none
  | b :: text =>
    if b ≠ 0x7B then none
    else
      (takeUnary text).bind fun seq => (takeUnary seq.2).bind fun mol =>
      (takeUnary mol.2).bind fun pos => (takeUnary pos.2).bind fun neg =>
      let env := fun event : SampleEvent =>
        ({ seq := seq.1
           molSeq := if mol.1 = 0 then none else some (mol.1 - 1)
           timestamp := (pos.1 : Int) - neg.1
           causalParent := none
           qualityBand := none
           emitter := {}
           event := event } : Envelope SampleEvent)
      if neg.2 = [SampleEvent.moleculeStuck.tag, 0x7D] then some (env .moleculeStuck)
      else if neg.2 = [(SampleEvent.localExecReceipt true).tag, 0x7D] then
        some (env (.localExecReceipt true))
      else none

theorem takeUnary_unary (n : Nat) (rest : List UInt8) : takeUnary (unary n ++ rest) = some (n, rest) := by
  induction n with
  | zero => rfl
  | succ n ih =>
    have hne : (0x31 : UInt8) ≠ 0x2C := by decide
    simp only [unary, List.replicate_succ, List.cons_append] at ih ⊢
    simp only [takeUnary, hne, if_false, if_true, ih, Option.map_some]

theorem validUtf8_ascii {bytes : List UInt8} (h : ∀ b ∈ bytes, b ≤ 0x7F) : validUtf8 bytes := by
  have hfold : bytes.foldlM Utf8State.feed .boundary = some .boundary := by
    induction bytes with
    | nil => rfl
    | cons b bytes ih =>
      rw [List.foldlM_cons]
      have hb : Utf8State.feed .boundary b = some .boundary := by
        simp only [Utf8State.feed, Utf8State.boundary, h b List.mem_cons_self, if_true]
      rw [hb]
      exact ih fun a ha => h a (List.mem_cons_of_mem _ ha)
  rw [validUtf8, hfold]
  rfl

theorem sampleEncode_bytes (env : Envelope SampleEvent) :
    ∀ b ∈ sampleEncode env, b ≤ 0x7F ∧ b ≠ newline := by
  have htag : env.event.tag ≤ 0x7F ∧ env.event.tag ≠ newline := by
    cases env.event with
    | moleculeStuck => decide
    | localExecReceipt finite => cases finite <;> decide
  have hunary : ∀ n, ∀ b ∈ unary n, b ≤ 0x7F ∧ b ≠ newline := by
    intro n b hb
    simp only [unary, List.mem_append, List.mem_replicate, List.mem_singleton] at hb
    obtain ⟨-, rfl⟩ | rfl := hb <;> decide
  intro b hb
  simp only [sampleEncode, List.mem_cons, List.mem_append, List.not_mem_nil, or_false] at hb
  obtain rfl | hb | hb | hb | hb | rfl | rfl := hb
  · decide
  · exact hunary _ b hb
  · exact hunary _ b hb
  · exact hunary _ b hb
  · exact hunary _ b hb
  · exact htag
  · decide

def sampleCodec : Codec SampleEvent where
  encode env := some (sampleEncode env)
  decode := sampleDecode
  migrateLegacyLine _ := none
  moleculeId _ := some "task-1"
  isVerb event := event = .moleculeStuck
  bandFor _ _ := .diurne
  digest n tail := toString n ++ toString tail.length
  encode_newline env text h := by
    cases h
    exact fun hm => (sampleEncode_bytes env newline hm).2 rfl
  encode_utf8 env text h := by
    cases h
    exact validUtf8_ascii fun b hb => (sampleEncode_bytes env b hb).1
  encode_brace env text h := by
    cases h
    simp [sampleEncode, List.getLast?_append, List.getLast?_cons]

theorem sample_readsBack {event : SampleEvent} (h : event ≠ .localExecReceipt false) :
    ReadsBack sampleCodec event := by
  rintro env rfl text henc
  cases henc
  have hmol : (if env.molSeq.elim 0 (· + 1) = 0 then none else some (env.molSeq.elim 0 (· + 1) - 1)) =
      env.molSeq := by
    cases env.molSeq <;> simp
  have hts : (env.timestamp.toNat : Int) - (-env.timestamp).toNat = env.timestamp :=
    Int.toNat_sub_toNat_neg _
  simp only [sampleCodec, sampleDecode, sampleEncode, takeUnary_unary, ne_eq, not_true_eq_false,
    if_false, Option.bind_some, hmol, hts]
  cases hev : env.event with
  | moleculeStuck => simp [Codec.key, hev]
  | localExecReceipt finite =>
    cases finite with
    | false => exact absurd hev h
    | true => simp [Codec.key, hev, SampleEvent.tag]

def sampleCall (event : SampleEvent) (now : Instant) : EmitCall SampleEvent :=
  { event := event, now := now, timestamp := now }

end Sample

variable {E : Type} {cx : Codec E}

/-- The envelopes appended by a run are numbered in file order: strictly
increasing `seq`, consecutive `mol_seq` for each molecule, and each of them is
one complete line, found once in the file. -/
def Sequenced (cx : Codec E) (initial : List UInt8) (w : World E) : Prop :=
  keys cx w.file = keys cx initial ++ w.log.map cx.key ∧
  completeLines newline w.file =
    completeLines newline initial ++ w.log.map (fun env => (cx.encode env).getD []) ∧
  (w.log.map Envelope.seq).Pairwise (· < ·) ∧
  (∀ mol, ∃ first, (about cx mol w.log).map Envelope.molSeq =
    (List.range' first (about cx mol w.log).length).map some) ∧
  ∀ env ∈ w.log, (keys cx w.file).countP (fun k => k.seq = env.seq) = 1

theorem seqs_pairwise {R : Caches → Caches → Prop} {initial : List UInt8} {w : World E}
    (h : Inv cx R initial w) : (w.log.map Envelope.seq).Pairwise (· < ·) := by
  rw [h.seqs]
  exact List.pairwise_lt_range'

theorem seq_once {R : Caches → Caches → Prop} {initial : List UInt8} {n : Nat} {w : World E}
    (h : Inv cx R initial w) (hroom : Room cx initial n) {env : Envelope E} (henv : env ∈ w.log) :
    (keys cx w.file).countP (fun k => k.seq = env.seq) = 1 := by
  obtain ⟨-, -, hold⟩ := hroom.bounds
  have hmem : env.seq ∈ w.log.map Envelope.seq := List.mem_map_of_mem henv
  have hge : (scan cx .empty initial).nextSeq ≤ env.seq := by
    rw [h.seqs, List.mem_range'_1] at hmem
    exact hmem.1
  have hzero : (keys cx initial).countP (fun k => k.seq = env.seq) = 0 := by
    rw [List.countP_eq_zero]
    intro k hk
    have := hold k hk
    simp only [decide_eq_true_eq]
    omega
  have hone : (w.log.map cx.key).countP (fun k => k.seq = env.seq) = 1 := by
    have hcount : (w.log.map cx.key).countP (fun k => k.seq = env.seq) =
        (w.log.map Envelope.seq).count env.seq := by
      rw [List.count, List.countP_map, List.countP_map]
      rfl
    rw [hcount]
    exact List.count_eq_one_of_mem ((seqs_pairwise h).imp Nat.ne_of_lt) hmem
  rw [h.keys, List.countP_append, hzero, hone]

/-- Whatever writers are opened and in whatever order they emit: if the file
starts with complete lines and sound sidecars, no append is cut short, every
event reads back and the counters do not run out, the appended envelopes are
sequenced. -/
theorem emits_sequenced (cx : Codec E) (initial : List UInt8) (sidecars : List SeqCheckpoint)
    (ops : List (Op E)) (hclosed : Closed newline initial)
    (hside : ∀ cp ∈ sidecars, Faithful cx SameCounters initial cp)
    (hroom : Room cx initial ops.length)
    (hops : ∀ i call, .emit i call ∈ ops → call.cut = none ∧ ReadsBack cx call.event) :
    Sequenced cx initial (ops.foldl (World.step cx) (World.start initial sidecars)) := by
  have hinv := run_inv sameCounters_agreement hclosed hside hroom
    (fun n i call hn => ⟨(hops i call (List.mem_of_getElem? hn)).1,
      (hops i call (List.mem_of_getElem? hn)).2, fun _ _ _ => trivial⟩) ops.length
  rw [worldAt, stateAt_length] at hinv
  exact ⟨hinv.keys, hinv.lines, seqs_pairwise hinv, fun mol => ⟨_, hinv.molSeqs mol⟩,
    fun env henv => seq_once hinv hroom henv⟩

theorem emits_sequenced_two_writers :
    let ops : List (Op SampleEvent) := [.open 0 none 0, .open 1 none 0,
      .emit 0 (sampleCall .moleculeStuck 10), .emit 1 (sampleCall (.localExecReceipt true) 5)]
    Sequenced sampleCodec [] (ops.foldl (World.step sampleCodec) (World.start [] [])) := by
  intro ops
  refine emits_sequenced sampleCodec [] [] ops rfl (by simp) ⟨by decide, by simp [keys, completeLines,
    splitLines], by simp [keys, completeLines, splitLines]⟩ fun i call h => ?_
  simp only [ops, List.mem_cons, List.not_mem_nil, or_false, reduceCtorEq, false_or, Op.emit.injEq] at h
  obtain ⟨-, rfl⟩ | ⟨-, rfl⟩ := h
  · exact ⟨rfl, sample_readsBack (by decide)⟩
  · exact ⟨rfl, sample_readsBack (by decide)⟩

/-- Two writers give one number twice: after an event that does not read
back, and after an append that was cut short. -/
theorem emits_not_sequenced :
    (let ops : List (Op SampleEvent) := [.open 0 none 0, .open 1 none 0,
      .emit 0 (sampleCall (.localExecReceipt false) 10), .emit 1 (sampleCall .moleculeStuck 11)]
    ¬Sequenced sampleCodec [] (ops.foldl (World.step sampleCodec) (World.start [] []))) ∧
    (let ops : List (Op SampleEvent) := [.open 0 none 0, .open 1 none 0,
      .emit 0 { sampleCall .moleculeStuck 1 with cut := some 2 }, .emit 0 (sampleCall .moleculeStuck 2),
      .emit 1 (sampleCall .moleculeStuck 3)]
    ¬Sequenced sampleCodec [] (ops.foldl (World.step sampleCodec) (World.start [] []))) := by
  refine ⟨fun h => ?_, fun h => ?_⟩
  · exact absurd h.2.2.1 (by decide)
  · exact absurd h.2.2.1 (by decide)

/-- The call of writer `i` in this world returns `Ok`, with this envelope. -/
def Emits (cx : Codec E) (w : World E) (i : Nat) (call : EmitCall E) (env : Envelope E) : Prop :=
  ∃ writer, w.writers i = some writer ∧ (emitLocked cx w.file writer call).result = .ok env

theorem step_emits {w : World E} {i : Nat} {call : EmitCall E} {env : Envelope E}
    (h : Emits cx w i call env) : (w.step cx (.emit i call)).log = w.log ++ [env] := by
  obtain ⟨writer, hw, hr⟩ := h
  simp only [World.step, hw, hr]

theorem step_log_subset (w : World E) (op : Op E) {env : Envelope E} (h : env ∈ w.log) :
    env ∈ (w.step cx op).log := by
  cases op with
  | «open» i sidecar seen => exact h
  | emit i call =>
    simp only [World.step]
    split
    · exact h
    · dsimp only
      split
      · exact List.mem_append_left _ h
      · exact h

theorem emitted_mem_log {initial : List UInt8} {sidecars : List SeqCheckpoint} {ops : List (Op E)}
    {n i : Nat} {call : EmitCall E} {env : Envelope E} (hn : ops[n]? = some (.emit i call))
    (h : Emits cx (worldAt cx initial sidecars ops n) i call env) {j : Nat} (hj : n < j) :
    env ∈ (worldAt cx initial sidecars ops j).log := by
  refine stateAt_preserves (P := fun w : World E => env ∈ w.log) _
    (fun _ op _ hw => step_log_subset _ op hw) hj ?_
  rw [stateAt_succ _ hn]
  rw [worldAt] at h
  rw [step_emits h]
  exact List.mem_append_right _ (List.mem_singleton.mpr rfl)

/-- Every emit that returned `Ok` is found, with its `seq`, by every later
`read_all`, and no two of them returned the same `seq`. -/
def Readable (cx : Codec E) (initial : List UInt8) (sidecars : List SeqCheckpoint)
    (ops : List (Op E)) : Prop :=
  (∀ n i call env, ops[n]? = some (.emit i call) →
    Emits cx (worldAt cx initial sidecars ops n) i call env → ∀ j, n < j →
    ∃ envs, readAll cx (worldAt cx initial sidecars ops j).file = .ok envs ∧
      ∃ env' ∈ envs, cx.key env' = cx.key env) ∧
  ∀ n m i j call call' env env', n < m → ops[n]? = some (.emit i call) →
    ops[m]? = some (.emit j call') → Emits cx (worldAt cx initial sidecars ops n) i call env →
    Emits cx (worldAt cx initial sidecars ops m) j call' env' → env.seq ≠ env'.seq

theorem readAll_of_inv {R : Caches → Caches → Prop} {initial : List UInt8} {w : World E}
    (h : Inv cx R initial w) (hutf : (readerLines initial).all validUtf8) (hclosed : Closed newline initial) :
    ∃ envs, readAll cx w.file = .ok envs ∧ ∀ env ∈ w.log, ∃ env' ∈ envs, cx.key env' = cx.key env := by
  have hstrip : ∀ env ∈ w.log, ∀ text, cx.encode env = some text →
      (if text.getLast? = some carriageReturn then text.dropLast else text) = text := by
    intro env _ text ht
    rw [cx.encode_brace env text ht, if_neg (by decide)]
  have hlines : readerLines w.file =
      readerLines initial ++ w.log.map (fun env => (cx.encode env).getD []) := by
    have hw : (splitLines newline w.file).2 = [] := h.closed
    have hi : (splitLines newline initial).2 = [] := hclosed
    have hl : (splitLines newline w.file).1 = (splitLines newline initial).1 ++
        w.log.map (fun env => (cx.encode env).getD []) := h.lines
    simp only [readerLines, hw, hi, if_true, List.append_nil, hl, List.map_append, List.map_map]
    congr 1
    apply List.map_congr_left
    intro env henv
    obtain ⟨text, ht, -⟩ := h.readable env henv
    simp only [Function.comp, ht, Option.getD_some]
    exact hstrip env henv text ht
  have hvalid : (readerLines w.file).all validUtf8 := by
    rw [hlines, List.all_append, hutf, Bool.true_and, List.all_map, List.all_eq_true]
    intro env henv
    obtain ⟨text, ht, -⟩ := h.readable env henv
    simp only [Function.comp, ht, Option.getD_some]
    exact cx.encode_utf8 env text ht
  refine ⟨_, by rw [readAll, if_pos hvalid], fun env henv => ?_⟩
  obtain ⟨text, ht, hback⟩ := h.readable env henv
  obtain ⟨env', hdec, hkey⟩ := Option.map_eq_some_iff.mp hback
  refine ⟨env', List.mem_filterMap.mpr ⟨text, ?_, ?_⟩, hkey⟩
  · rw [hlines]
    exact List.mem_append_right _ (List.mem_map.mpr ⟨env, henv, by rw [ht, Option.getD_some]⟩)
  · have hblank : isBlank text = false := by
      rw [isBlank, List.all_eq_false]
      exact ⟨0x7D, List.mem_of_getLast? (cx.encode_brace env text ht), by decide⟩
    simp only [hblank, fromLine, hdec]
    rfl

/-- A file that starts as whole lines of UTF-8 stays readable through any
orderly run. -/
theorem emits_readable (cx : Codec E) (initial : List UInt8) (sidecars : List SeqCheckpoint)
    (ops : List (Op E)) (hclosed : Closed newline initial)
    (hutf : (readerLines initial).all validUtf8)
    (hside : ∀ cp ∈ sidecars, Faithful cx SameCounters initial cp)
    (hroom : Room cx initial ops.length)
    (hops : ∀ i call, .emit i call ∈ ops → call.cut = none ∧ ReadsBack cx call.event) :
    Readable cx initial sidecars ops := by
  have hinv := run_inv sameCounters_agreement hclosed hside hroom
    (fun n i call hn => ⟨(hops i call (List.mem_of_getElem? hn)).1,
      (hops i call (List.mem_of_getElem? hn)).2, fun _ _ _ => trivial⟩)
  refine ⟨fun n i call env hn hem j hj => ?_, fun n m i j call call' env env' hnm hn hm hem hem' => ?_⟩
  · obtain ⟨envs, hread, hall⟩ := readAll_of_inv (hinv j) hutf hclosed
    exact ⟨envs, hread, hall env (emitted_mem_log hn hem hj)⟩
  · -- the second envelope comes after the first in the log, and so has a greater number
    have hpair := seqs_pairwise (hinv (m + 1))
    rw [worldAt, stateAt_succ _ hm, ← worldAt, step_emits hem', List.map_append, List.pairwise_append]
      at hpair
    have hlt := hpair.2.2 env.seq (List.mem_map_of_mem (emitted_mem_log hn hem hnm)) env'.seq (by simp)
    exact Nat.ne_of_lt hlt

theorem emits_readable_after_line :
    Readable sampleCodec [0x7B, 0x7D, 0x0A] []
      [.open 0 none 3, .emit 0 (sampleCall .moleculeStuck 10), .open 1 (some 0) 20,
        .emit 1 (sampleCall .moleculeStuck 11)] := by
  refine emits_readable sampleCodec [0x7B, 0x7D, 0x0A] [] _ (by decide) (by decide) (by simp)
    ⟨by decide, by decide, by decide⟩ fun i call h => ?_
  simp only [List.mem_cons, List.not_mem_nil, or_false, reduceCtorEq, false_or, Op.emit.injEq] at h
  obtain ⟨-, rfl⟩ | ⟨-, rfl⟩ := h
  · exact ⟨rfl, sample_readsBack (by decide)⟩
  · exact ⟨rfl, sample_readsBack (by decide)⟩

/-- After a torn line an emit returns `Ok` for an envelope that no read finds. -/
theorem emits_not_readable :
    ¬Readable sampleCodec [0x7B] [] [.open 0 none 1, .emit 0 (sampleCall .moleculeStuck 10)] := by
  intro h
  obtain ⟨envs, hread, env', hmem, -⟩ := h.1 1 0 (sampleCall .moleculeStuck 10)
    (stamp sampleCodec .fresh (sampleCall .moleculeStuck 10)) rfl ⟨.fresh, rfl, rfl⟩ 2 (by decide)
  cases hread
  cases hmem

/-- Restoring a saved checkpoint and catching up gives the caches of a walk
from byte 0, at every moment and for every checkpoint saved before it. -/
def Restores (cx : Codec E) (initial : List UInt8) (sidecars : List SeqCheckpoint)
    (ops : List (Op E)) : Prop :=
  ∀ n, ∀ cp ∈ (worldAt cx initial sidecars ops n).sidecars,
    let file := (worldAt cx initial sidecars ops n).file
    restoreCheckpoint cx file (some cp) = { caches := cp.caches, scannedTo := cp.scannedTo } ∧
    (EventLogWriter.open cx file (some cp)).caches = (EventLogWriter.open cx file none).caches

theorem foldl_lastVerbTs (ks : List Key) {c : Caches} {t : Instant}
    (h : (ks.foldl Caches.absorb c).lastVerbTs = some t) :
    c.lastVerbTs = some t ∨ ∃ k ∈ ks, k.verb ∧ k.timestamp = t := by
  induction ks generalizing c with
  | nil => exact .inl h
  | cons k ks ih =>
    cases ih h with
    | inr hmem =>
      obtain ⟨a, ha, hv⟩ := hmem
      exact .inr ⟨a, List.mem_cons_of_mem _ ha, hv⟩
    | inl hone =>
      simp only [Caches.absorb] at hone
      split at hone
      · next hv => exact .inr ⟨k, List.mem_cons_self, hv.1, Option.some.inj hone⟩
      · exact .inl hone

theorem catchUpScan_caches {file : List UInt8} {w : EventLogWriter} (hclosed : Closed newline file)
    (h : Tracks cx Eq file w) : (catchUpScan cx file w).caches = scan cx .empty file := by
  obtain ⟨htr, hend⟩ := catchUpScan_tracks eq_agreement h
  have hag := htr.agrees
  rw [hend hclosed, List.take_length] at hag
  exact hag

/-- Incremental and full priming agree along every orderly run in which no
verb is stamped earlier than a verb already in the file. -/
theorem restores_full_walk (cx : Codec E) (initial : List UInt8) (sidecars : List SeqCheckpoint)
    (ops : List (Op E)) (hclosed : Closed newline initial)
    (hside : ∀ cp ∈ sidecars, Faithful cx Eq initial cp) (hroom : Room cx initial ops.length)
    (hops : ∀ n i call, ops[n]? = some (.emit i call) → call.cut = none ∧ ReadsBack cx call.event ∧
      (cx.isVerb call.event → ∀ k ∈ keys cx (worldAt cx initial sidecars ops n).file,
        k.verb → k.timestamp ≤ call.timestamp)) :
    Restores cx initial sidecars ops := by
  intro n cp hcp file
  have hinv := run_inv eq_agreement hclosed hside hroom (fun n i call hn => by
    obtain ⟨hcut, hback, htime⟩ := hops n i call hn
    refine ⟨hcut, hback, fun env hev hts hverb => ?_⟩
    cases hl : (scan cx .empty (worldAt cx initial sidecars ops n).file).lastVerbTs with
    | none => rfl
    | some t =>
      cases foldl_lastVerbTs _ hl with
      | inl hempty => cases hempty
      | inr hmem =>
        obtain ⟨k, hk, hkv, rfl⟩ := hmem
        simp only [Codec.key, hev] at hverb
        simp only [Option.all_some, decide_eq_true_eq, Codec.key, hts]
        exact htime hverb k hk hkv) n
  have hfaith := hinv.sidecars cp hcp
  have hrestore : restoreCheckpoint cx file (some cp) =
      { caches := cp.caches, scannedTo := cp.scannedTo } := by
    simp only [restoreCheckpoint, if_neg (Nat.not_lt.mpr hfaith.tracks.within), hfaith.probe, ne_eq,
      file, not_true_eq_false, if_false]
  refine ⟨hrestore, ?_⟩
  rw [EventLogWriter.open, hrestore, catchUpScan_caches hinv.closed hfaith.tracks,
    EventLogWriter.open, restoreCheckpoint, catchUpScan_caches hinv.closed (.fresh eq_agreement _)]

theorem restores_full_walk_two_verbs :
    Restores sampleCodec [] [] [.open 0 none 0, .emit 0 (sampleCall .moleculeStuck 1),
      .emit 0 (sampleCall .moleculeStuck 1)] := by
  refine restores_full_walk sampleCodec [] [] _ rfl (by simp) ⟨by decide, by decide, by decide⟩ ?_
  intro n i call hn
  match n with
  | 0 => cases hn
  | 1 =>
    cases hn
    exact ⟨rfl, sample_readsBack (by decide), fun _ => by decide⟩
  | 2 =>
    cases hn
    exact ⟨rfl, sample_readsBack (by decide), fun _ => by decide⟩
  | n + 3 => cases hn

/-- A clock stepping backwards between two verbs makes the two primings
disagree on the last verb timestamp. -/
theorem restores_not_full_walk :
    ¬Restores sampleCodec [] [] [.open 0 none 0, .emit 0 (sampleCall .moleculeStuck 2),
      .emit 0 (sampleCall .moleculeStuck 1)] := by
  intro h
  have hcp := (h 3 _ (List.mem_cons_of_mem _ List.mem_cons_self)).2
  exact absurd (congrArg Caches.lastVerbTs hcp) (by decide)

end Cosmon.State.EventLogSafety
