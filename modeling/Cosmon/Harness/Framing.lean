import Cosmon.Lib.Borders
import Cosmon.Lib.Occurrences

namespace Cosmon.Harness.Framing

open Cosmon.Lib.Borders Cosmon.Lib.Occurrences

structure KmpScanner where
  needle : List UInt8
  failure : List Nat
  state : Nat
  deriving DecidableEq

/-- The loop that backs off after a mismatch; `none` is a read outside a table, or the end of the fuel. -/
def backOff (needle : List UInt8) (failure : List Nat) (b : UInt8) : Nat → Nat → Option Nat
  | 0, _ => none
  | _ + 1, 0 => some 0
  | fuel + 1, state + 1 =>
    needle[state + 1]?.bind fun c =>
      if c = b then some (state + 1) else failure[state]?.bind (backOff needle failure b fuel)

def advance (needle : List UInt8) (failure : List Nat) (b : UInt8) (state : Nat) : Option Nat :=
  (backOff needle failure b (state + 1) state).bind fun state =>
    needle[state]?.map fun c => if c = b then state + 1 else state

def store (failure : List Nat) (i k : Nat) : Option (List Nat) :=
  if i < failure.length then some (failure.set i k) else none

def fill (needle : List UInt8) (s : List Nat × Nat) (i : Nat) : Option (List Nat × Nat) :=
  needle[i]?.bind fun b =>
    (advance needle s.1 b s.2).bind fun k =>
      (store s.1 i k).map fun failure => (failure, k)

def KmpScanner.new (needle : List UInt8) : Option KmpScanner :=
  let n := needle.length
  let failure := List.replicate (max n 1) 0
  if n > 1 then
    ((List.range' 1 (n - 1)).foldlM (fill needle) (failure, 0)).map fun s =>
      { needle := needle, failure := s.1, state := 0 }
  else some { needle := needle, failure := failure, state := 0 }

def KmpScanner.feedByte (baseOffset : Nat) (s : KmpScanner × List Nat) (byte : UInt8 × Nat) :
    Option (KmpScanner × List Nat) :=
  (advance s.1.needle s.1.failure byte.1 s.1.state).bind fun state =>
    if state = s.1.needle.length then
      let stop := baseOffset + byte.2 + 1
      if s.1.needle.length ≤ stop then
        s.1.failure[state - 1]?.map fun next =>
          ({ s.1 with state := next }, s.2 ++ [stop - s.1.needle.length])
      else none
    else some ({ s.1 with state := state }, s.2)

def KmpScanner.feed (scanner : KmpScanner) (chunk : List UInt8) (baseOffset : Nat) (hits : List Nat) :
    Option (KmpScanner × List Nat) :=
  if scanner.needle = [] then some (scanner, hits)
  else chunk.zipIdx.foldlM (KmpScanner.feedByte baseOffset) (scanner, hits)

structure Frame where
  scanner : KmpScanner
  buffer : List UInt8
  hits : List Nat
  deriving DecidableEq

def Frame.receive (frame : Frame) (chunk : List UInt8) : Option Frame :=
  (frame.scanner.feed chunk frame.buffer.length frame.hits).map fun s =>
    { scanner := s.1, buffer := frame.buffer ++ chunk, hits := s.2 }

def watch (needle : List UInt8) (chunks : List (List UInt8)) : Option Frame :=
  (KmpScanner.new needle).bind fun scanner =>
    chunks.foldlM Frame.receive { scanner := scanner, buffer := [], hits := [] }

/-- The first `m` entries of the table are the lengths of the longest borders. -/
def Filled (needle : List UInt8) (m : Nat) (failure : List Nat) : Prop :=
  failure.length = needle.length ∧
    ∀ i < m, ∃ f, failure[i]? = some f ∧ Longest needle i (needle.take (i + 1)) f

variable {needle text : List UInt8} {failure : List Nat} {b : UInt8} {m r k i : Nat}

theorem backOff_within (hfilled : Filled needle m failure) (hr : r < needle.length) {fuel : Nat} (hfuel : k < fuel)
    (hkm : k ≤ m) (h : Within needle r text b k) :
    ∃ state, backOff needle failure b fuel k = some state ∧ Within needle r text b state ∧
      (state = 0 ∨ needle[state]? = some b) := by
  induction fuel generalizing k with
  | zero => exact absurd hfuel (Nat.not_lt_zero k)
  | succ fuel ih =>
    cases k with
    | zero => exact ⟨0, rfl, h, .inl rfl⟩
    | succ k =>
      have hless := Nat.lt_of_le_of_lt h.le hr
      have hread : needle[k + 1]? = some needle[k + 1] := List.getElem?_eq_getElem hless
      by_cases hb : needle[k + 1] = b
      · refine ⟨k + 1, ?_, h, .inr (hb ▸ hread)⟩
        rw [backOff, hread, Option.bind_some, if_pos hb]
      · obtain ⟨f, hf, hborder⟩ := hfilled.2 k hkm
        have hmiss : needle[k + 1]? ≠ some b := fun heq => hb (Option.some_inj.mp (hread.symm.trans heq))
        have hback := hborder.le
        obtain ⟨state, hstate, hrest⟩ := ih (by omega) (by omega) (h.retreat hr.le hmiss hborder)
        refine ⟨state, ?_, hrest⟩
        rw [backOff, hread, Option.bind_some, if_neg hb, hf, Option.bind_some, hstate]

/-- One letter more, by the table: the loop of the search and the loop that fills the table alike. -/
theorem advance_longest (hfilled : Filled needle m failure) (hr : r < needle.length) (hkm : k ≤ m)
    (h : Longest needle r text k) (b : UInt8) :
    ∃ state, advance needle failure b k = some state ∧ Longest needle (r + 1) (text ++ [b]) state := by
  obtain ⟨state, hstate, hwithin, hlast⟩ := backOff_within hfilled hr (Nat.lt_succ_self k) hkm (h.within b)
  have hless := Nat.lt_of_le_of_lt hwithin.le hr
  have hread : needle[state]? = some needle[state] := List.getElem?_eq_getElem hless
  rw [advance, hstate, Option.bind_some, hread, Option.map_some]
  by_cases hb : needle[state] = b
  · rw [if_pos hb]
    exact ⟨_, rfl, hwithin.hit hr (hb ▸ hread)⟩
  · rw [if_neg hb]
    have hmiss : needle[state]? ≠ some b := fun heq => hb (Option.some_inj.mp (hread.symm.trans heq))
    obtain rfl := hlast.resolve_right hmiss
    exact ⟨_, rfl, hwithin.miss hr hmiss⟩

theorem fill_filled (hi : i + 1 < needle.length) (hfilled : Filled needle (i + 1) failure)
    (h : Longest needle i (needle.take (i + 1)) k) :
    ∃ failure' k', fill needle (failure, k) (i + 1) = some (failure', k') ∧ Filled needle (i + 2) failure' ∧
      Longest needle (i + 1) (needle.take (i + 2)) k' := by
  have hread : needle[i + 1]? = some needle[i + 1] := List.getElem?_eq_getElem hi
  have hkm := Nat.le_succ_of_le h.le
  obtain ⟨k', hk', hlongest⟩ := advance_longest hfilled (Nat.lt_of_succ_lt hi) hkm h needle[i + 1]
  rw [List.take_append_getElem hi] at hlongest
  have hstore : store failure (i + 1) k' = some (failure.set (i + 1) k') := if_pos (hfilled.1 ▸ hi)
  refine ⟨failure.set (i + 1) k', k', ?_, ⟨?_, fun j hj => ?_⟩, hlongest⟩
  · rw [fill, hread, Option.bind_some, hk', Option.bind_some, hstore, Option.map_some]
  · rw [List.length_set, hfilled.1]
  · obtain hj | rfl := Nat.lt_or_eq_of_le (Nat.le_of_lt_succ hj)
    · obtain ⟨f, hf, hborder⟩ := hfilled.2 j hj
      exact ⟨f, (List.getElem?_set_ne hj.ne').trans hf, hborder⟩
    · exact ⟨k', List.getElem?_set_self (hfilled.1 ▸ hi), hlongest⟩

theorem fill_run {count : Nat} (hcount : i + 1 + count = needle.length) (hfilled : Filled needle (i + 1) failure)
    (h : Longest needle i (needle.take (i + 1)) k) :
    ∃ s, (List.range' (i + 1) count).foldlM (fill needle) (failure, k) = some s ∧
      Filled needle needle.length s.1 := by
  induction count generalizing i failure k with
  | zero => exact ⟨(failure, k), rfl, hcount ▸ hfilled⟩
  | succ count ih =>
    obtain ⟨failure', k', hfill, hfilled', hlongest⟩ := fill_filled (by omega) hfilled h
    obtain ⟨s, hs, hall⟩ := ih (by omega) hfilled' hlongest
    refine ⟨s, ?_, hall⟩
    rw [List.range'_succ, List.foldlM_cons, hfill]
    exact hs

theorem filled_first (hneedle : needle ≠ []) : Filled needle 1 (List.replicate (max needle.length 1) 0) := by
  have hpos := List.length_pos_iff.mpr hneedle
  refine ⟨by rw [List.length_replicate, Nat.max_eq_left hpos], fun i hi => ⟨0, ?_, ?_⟩⟩
  · rw [List.getElem?_replicate, if_pos (by omega)]
  · obtain rfl := Nat.lt_one_iff.mp hi
    exact ⟨Nat.le_refl 0, List.nil_suffix, fun j hj _ => hj⟩

theorem new_filled (hneedle : needle ≠ []) :
    ∃ failure, KmpScanner.new needle = some ⟨needle, failure, 0⟩ ∧ Filled needle needle.length failure := by
  have hfirst := filled_first hneedle
  rw [KmpScanner.new]
  by_cases hlong : needle.length > 1
  · have hzero : Longest needle 0 (needle.take (0 + 1)) 0 := ⟨Nat.le_refl 0, List.nil_suffix, fun j hj _ => hj⟩
    obtain ⟨s, hs, hall⟩ := fill_run (Nat.add_sub_cancel' hlong.le) hfirst hzero
    refine ⟨s.1, ?_, hall⟩
    rw [if_pos hlong]
    exact congrArg _ hs
  · have hone : needle.length = 1 := by
      have hpos := List.length_pos_iff.mpr hneedle
      omega
    rw [if_neg hlong]
    exact ⟨_, rfl, hone ▸ hfirst⟩

structure Scanned (needle text : List UInt8) (scanner : KmpScanner) : Prop where
  needle_eq : scanner.needle = needle
  filled : Filled needle needle.length scanner.failure
  longest : Longest needle (needle.length - 1) text scanner.state

theorem feedByte_scanned (hneedle : needle ≠ []) {scanner : KmpScanner} (h : Scanned needle text scanner)
    {base : Nat} (hbase : base + i = text.length) (b : UInt8) :
    ∃ scanner', KmpScanner.feedByte base (scanner, positions needle text) (b, i) =
      some (scanner', positions needle (text ++ [b])) ∧ Scanned needle (text ++ [b]) scanner' := by
  obtain ⟨rfl, hfilled, hlongest⟩ := h
  have hpos := List.length_pos_iff.mpr hneedle
  have hless : scanner.needle.length - 1 < scanner.needle.length := by omega
  have hwhole : scanner.needle.length - 1 + 1 = scanner.needle.length := by omega
  obtain ⟨state, hstate, hnext⟩ := advance_longest hfilled hless (hlongest.le.trans hless.le) hlongest b
  have hfull := hnext
  rw [hwhole] at hfull
  rw [KmpScanner.feedByte, hstate, Option.bind_some, positions_concat hneedle, ← hbase]
  by_cases hend : state = scanner.needle.length
  · have hsuffix := hfull.eq_length_iff.mp hend
    have hfits := hsuffix.length_le
    rw [List.length_append, List.length_singleton, ← hbase] at hfits
    obtain ⟨f, hf, hborder⟩ := hfilled.2 (scanner.needle.length - 1) hless
    rw [if_pos hend, if_pos hfits, if_pos hsuffix, hend, hf]
    rw [hend, ← hwhole] at hnext
    exact ⟨_, rfl, rfl, hfilled, hnext.border hborder⟩
  · have hsuffix := fun h => hend (hfull.eq_length_iff.mpr h)
    have hle := hfull.le
    rw [if_neg hend, if_neg hsuffix, List.append_nil]
    exact ⟨_, rfl, rfl, hfilled, hnext.below (by omega)⟩

theorem feed_scanned (hneedle : needle ≠ []) {scanner : KmpScanner} (h : Scanned needle text scanner)
    (chunk : List UInt8) : ∃ scanner', scanner.feed chunk text.length (positions needle text) =
      some (scanner', positions needle (text ++ chunk)) ∧ Scanned needle (text ++ chunk) scanner' := by
  rw [KmpScanner.feed, if_neg (h.needle_eq ▸ hneedle)]
  suffices hrun : ∀ base i text scanner, base + i = text.length → Scanned needle text scanner →
      ∃ scanner', (chunk.zipIdx i).foldlM (KmpScanner.feedByte base) (scanner, positions needle text) =
        some (scanner', positions needle (text ++ chunk)) ∧ Scanned needle (text ++ chunk) scanner' from
    hrun text.length 0 text scanner rfl h
  intro base
  induction chunk with
  | nil =>
    intro i text scanner _ h
    exact ⟨scanner, by rw [List.append_nil]; rfl, by rwa [List.append_nil]⟩
  | cons b chunk ih =>
    intro i text scanner hbase h
    obtain ⟨next, hnext, hscanned⟩ := feedByte_scanned hneedle h hbase b
    have hlength : base + (i + 1) = (text ++ [b]).length := by
      rw [List.length_append, List.length_singleton, ← hbase, Nat.add_assoc]
    obtain ⟨last, hlast, hdone⟩ := ih (i + 1) (text ++ [b]) next hlength hscanned
    rw [List.append_assoc, List.singleton_append] at hlast hdone
    refine ⟨last, ?_, hdone⟩
    rw [List.zipIdx_cons, List.foldlM_cons, hnext]
    exact hlast

theorem receive_scanned (hneedle : needle ≠ []) (chunks : List (List UInt8)) {scanner : KmpScanner}
    (h : Scanned needle text scanner) :
    ∃ scanner', chunks.foldlM Frame.receive ⟨scanner, text, positions needle text⟩ =
      some ⟨scanner', text ++ chunks.flatten, positions needle (text ++ chunks.flatten)⟩ := by
  induction chunks generalizing text scanner with
  | nil => exact ⟨scanner, by rw [List.flatten_nil, List.append_nil]; rfl⟩
  | cons chunk chunks ih =>
    obtain ⟨next, hnext, hscanned⟩ := feed_scanned hneedle h chunk
    obtain ⟨last, hlast⟩ := ih hscanned
    refine ⟨last, ?_⟩
    rw [List.foldlM_cons, Frame.receive, hnext, List.flatten_cons, ← List.append_assoc]
    exact hlast

/-- However the stream is cut, the hits are the places of the needle in the whole of it. -/
theorem watch_finds (needle : List UInt8) (hneedle : needle ≠ []) (chunks : List (List UInt8)) :
    ∃ frame, watch needle chunks = some frame ∧ frame.buffer = chunks.flatten ∧ frame.hits.Pairwise (· < ·) ∧
      ∀ start, start ∈ frame.hits ↔ (chunks.flatten.drop start).take needle.length = needle := by
  obtain ⟨failure, hnew, hfilled⟩ := new_filled hneedle
  have hscanned : Scanned needle [] ⟨needle, failure, 0⟩ :=
    ⟨rfl, hfilled, Longest.empty (Nat.sub_le _ _)⟩
  obtain ⟨scanner, hrun⟩ := receive_scanned hneedle chunks hscanned
  rw [positions_nil hneedle, List.nil_append] at hrun
  refine ⟨⟨scanner, chunks.flatten, positions needle chunks.flatten⟩, ?_, rfl, positions_sorted, fun start =>
    mem_positions hneedle⟩
  rw [watch, hnew, Option.bind_some]
  exact hrun

theorem watch_finds_overlap :
    ∃ frame, watch [97, 97] [[97], [97, 97]] = some frame ∧ frame.buffer = [[97], [97, 97]].flatten ∧
      frame.hits.Pairwise (· < ·) ∧ ∀ start, start ∈ frame.hits ↔
        (([[97], [97, 97]] : List (List UInt8)).flatten.drop start).take [(97 : UInt8), 97].length = [97, 97] :=
  watch_finds [97, 97] (by decide) [[97], [97, 97]]

example : (watch [97, 97] [[97], [97, 97]]).map Frame.hits = some [0, 1] := by decide

end Cosmon.Harness.Framing
