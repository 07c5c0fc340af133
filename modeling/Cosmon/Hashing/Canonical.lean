import Cosmon.Hashing.Digest
import Cosmon.Lib.Keyed
import Cosmon.Lib.Printing

namespace Cosmon.Hashing.Canonical

open Cosmon.Hashing.Digest Cosmon.Lib.Bytes Cosmon.Lib.KeyedSort Cosmon.Lib.Printing

inductive Json where
  | null
  | bool (b : Bool)
  | number (n : Int)
  | string (s : String)
  | array (items : List Json)
  | object (fields : List (String × Json))

inductive Distinct : Json → Prop where
  | null : Distinct .null
  | bool (b : Bool) : Distinct (.bool b)
  | number (n : Int) : Distinct (.number n)
  | string (s : String) : Distinct (.string s)
  | array {items : List Json} : (∀ v ∈ items, Distinct v) → Distinct (.array items)
  | object {fields : List (String × Json)} : (fields.map Prod.fst).Nodup → (∀ p ∈ fields, Distinct p.2) →
      Distinct (.object fields)

/-- `serde_json::Value`: the fields of an object are a map. -/
structure Value where
  json : Json
  distinct : Distinct json

def entry (quote : String → List Char) (p : String × List Char) : List Char := quote p.1 ++ ':' :: p.2

def sortKeys (entries : List (String × List Char)) : List (String × List Char) :=
  entries.insertionSort fun p q => p.1 ≤ q.1

mutual

def writeCanonical (quote : String → List Char) : Json → List Char
  | .null => "null".toList
  | .bool b => if b then "true".toList else "false".toList
  | .number n => decimal n
  | .string s => quote s
  | .array items => '[' :: (separated ',' (writeItems quote items) ++ [']'])
  | .object fields => '\x7b' :: (separated ',' ((sortKeys (writeFields quote fields)).map (entry quote)) ++ ['\x7d'])

def writeItems (quote : String → List Char) : List Json → List (List Char)
  | [] => []
  | v :: rest => writeCanonical quote v :: writeItems quote rest

def writeFields (quote : String → List Char) : List (String × Json) → List (String × List Char)
  | [] => []
  | (k, v) :: rest => (k, writeCanonical quote v) :: writeFields quote rest

end

def canonicalSerialize (quote : String → List Char) (v : Value) : List UInt8 :=
  utf8 (String.ofList (writeCanonical quote v.json))

def hashValue (blake3 : List UInt8 → Hash) (quote : String → List Char) (v : Value) : Hash :=
  blake3 (canonicalSerialize quote v)

def prevHash : Option Hash → Json
  | some h => .string h.toHex
  | none => .null

def linked (event : Value) (prev : Option Hash) : Value where
  json := .object [("prev_hash", prevHash prev), ("event", event.json)]
  distinct := by
    have hne : "prev_hash" ≠ "event" := by decide
    apply Distinct.object
    · simp [hne]
    rw [List.forall_mem_cons, List.forall_mem_singleton]
    refine ⟨?_, event.distinct⟩
    cases prev with
    | none => exact Distinct.null
    | some h => exact Distinct.string h.toHex

def hashEvent (blake3 : List UInt8 → Hash) (quote : String → List Char) (event : Value) (prev : Option Hash) : Hash :=
  hashValue blake3 quote (linked event prev)

inductive Same : Json → Json → Prop where
  | null : Same .null .null
  | bool (b : Bool) : Same (.bool b) (.bool b)
  | number (n : Int) : Same (.number n) (.number n)
  | string (s : String) : Same (.string s) (.string s)
  | array {xs ys : List Json} : xs.length = ys.length →
      (∀ i (hx : i < xs.length) (hy : i < ys.length), Same xs[i] ys[i]) → Same (.array xs) (.array ys)
  | object {fs gs hs : List (String × Json)} : gs.Perm hs → fs.map Prod.fst = hs.map Prod.fst →
      (∀ i (hf : i < fs.length) (hh : i < hs.length), Same fs[i].2 hs[i].2) → Same (.object fs) (.object gs)

section Induction

theorem Json.induct {P : Json → Prop} (null : P .null) (bool : ∀ b, P (.bool b)) (number : ∀ n, P (.number n))
    (string : ∀ s, P (.string s)) (array : ∀ items, (∀ v ∈ items, P v) → P (.array items))
    (object : ∀ fields, (∀ p ∈ fields, P p.2) → P (.object fields)) (v : Json) : P v := by
  refine Json.rec (motive_1 := P) (motive_2 := fun items => ∀ v ∈ items, P v)
    (motive_3 := fun fields => ∀ p ∈ fields, P p.2) (motive_4 := fun p => P p.2)
    null bool number string array object ?_ ?_ ?_ ?_ ?_ v
  · exact fun v hv => absurd hv List.not_mem_nil
  · exact fun v rest hv hrest => List.forall_mem_cons.mpr ⟨hv, hrest⟩
  · exact fun p hp => absurd hp List.not_mem_nil
  · exact fun p rest hp hrest => List.forall_mem_cons.mpr ⟨hp, hrest⟩
  · exact fun k v hv => hv

end Induction

section Texts

variable {quote : String → List Char}

theorem writeItems_eq (items : List Json) : writeItems quote items = items.map (writeCanonical quote) := by
  induction items with
  | nil => rfl
  | cons v rest ih => rw [writeItems, ih, List.map_cons]

theorem writeFields_eq (fields : List (String × Json)) :
    writeFields quote fields = fields.map fun p => (p.1, writeCanonical quote p.2) := by
  induction fields with
  | nil => rfl
  | cons p rest ih => rw [writeFields, ih, List.map_cons]

def writeField (quote : String → List Char) (p : String × Json) : List Char :=
  entry quote (p.1, writeCanonical quote p.2)

def sorted (fields : List (String × Json)) : List (String × Json) :=
  fields.insertionSort fun p q => p.1 ≤ q.1

theorem writeCanonical_array (items : List Json) :
    writeCanonical quote (.array items) =
      '[' :: (separated ',' (items.map (writeCanonical quote)) ++ [']']) := by
  rw [writeCanonical, writeItems_eq]

theorem writeCanonical_object (fields : List (String × Json)) :
    writeCanonical quote (.object fields) =
      '\x7b' :: (separated ',' ((sorted fields).map (writeField quote)) ++ ['\x7d']) := by
  have hsort : (sorted fields).map (fun p => (p.1, writeCanonical quote p.2)) =
      sortKeys (fields.map fun p => (p.1, writeCanonical quote p.2)) :=
    List.map_insertionSort _ _ _ fields fun _ _ _ _ => Iff.rfl
  rw [writeCanonical, writeFields_eq, ← hsort, List.map_map]
  rfl

theorem sorted_perm (fields : List (String × Json)) : (sorted fields).Perm fields :=
  List.perm_insertionSort _ _

end Texts

section Decoding

variable {quote : String → List Char}

def stop (c : Char) : Prop := c = ',' ∨ c = ']' ∨ c = '\x7d'

instance (c : Char) : Decidable (stop c) := inferInstanceAs (Decidable (_ ∨ _ ∨ _))

def kindOf (c : Char) : Nat :=
  if c = 'n' then 0
  else if c = 't' ∨ c = 'f' then 1
  else if c = '"' then 3
  else if c = '[' then 4
  else if c = '\x7b' then 5
  else 2

def kind : Json → Nat
  | .null => 0
  | .bool _ => 1
  | .number _ => 2
  | .string _ => 3
  | .array _ => 4
  | .object _ => 5

theorem stop_not_digit {c : Char} (h : stop c) : ¬ c.isDigit = true := by
  obtain rfl | rfl | rfl := h <;> decide

theorem kindOf_number {c : Char} (h : c = '-' ∨ c.isDigit = true) : kindOf c = 2 ∧ c ≠ ']' := by
  have hnot : ∀ d : Char, d.isDigit = false → d ≠ '-' → c ≠ d := by
    rintro d hdigit hminus rfl
    obtain rfl | hc := h
    · exact hminus rfl
    · rw [hdigit] at hc
      cases hc
  have hn := hnot 'n' (by decide) (by decide)
  have ht := hnot 't' (by decide) (by decide)
  have hf := hnot 'f' (by decide) (by decide)
  have hquote := hnot '"' (by decide) (by decide)
  have hbracket := hnot '[' (by decide) (by decide)
  have hbrace := hnot '\x7b' (by decide) (by decide)
  refine ⟨?_, hnot ']' (by decide) (by decide)⟩
  simp [kindOf, hn, ht, hf, hquote, hbracket, hbrace]

theorem writeCanonical_head (hquote : Quotes quote) (v : Json) :
    ∃ c ∈ (writeCanonical quote v).head?, kindOf c = kind v ∧ c ≠ ']' := by
  cases v with
  | null => exact ⟨'n', by rw [writeCanonical]; decide, by decide⟩
  | bool b =>
    cases b with
    | false => exact ⟨'f', by rw [writeCanonical]; decide, by decide⟩
    | true => exact ⟨'t', by rw [writeCanonical]; decide, by decide⟩
  | number n =>
    obtain ⟨c, hc, hnumber⟩ := decimal_head n
    exact ⟨c, by rwa [writeCanonical], kindOf_number hnumber⟩
  | string s => exact ⟨'"', by rw [writeCanonical, hquote.head]; rfl, rfl, by decide⟩
  | array items => exact ⟨'[', by rw [writeCanonical]; rfl, rfl, by decide⟩
  | object fields => exact ⟨'\x7b', by rw [writeCanonical]; rfl, rfl, by decide⟩

theorem kind_eq (hquote : Quotes quote) {v w : Json} {x y : List Char}
    (h : writeCanonical quote v ++ x = writeCanonical quote w ++ y) : kind v = kind w := by
  obtain ⟨c, hc, hv, -⟩ := writeCanonical_head hquote v
  obtain ⟨d, hd, hw, -⟩ := writeCanonical_head hquote w
  obtain ⟨front, hfront⟩ := List.head?_eq_some_iff.mp hc
  obtain ⟨back, hback⟩ := List.head?_eq_some_iff.mp hd
  rw [hfront, hback] at h
  rw [← hv, ← hw, (List.cons.inj h).1]

theorem same_sorted {fs gs : List (String × Json)}
    (h : List.Forall₂ (fun p q => p.1 = q.1 ∧ Same p.2 q.2) (sorted fs) (sorted gs)) :
    Same (.object fs) (.object gs) := by
  obtain ⟨hs, hfields, hperm⟩ := List.perm_comp_forall₂ (sorted_perm fs).symm h
  have hkeys : List.Forall₂ Eq (fs.map Prod.fst) (hs.map Prod.fst) := by
    rw [List.forall₂_map_left_iff, List.forall₂_map_right_iff]
    exact hfields.imp fun p q hpq => hpq.1
  rw [List.forall₂_eq_eq_eq] at hkeys
  obtain ⟨-, hget⟩ := List.forall₂_iff_get.mp hfields
  exact Same.object (hperm.trans (sorted_perm gs)).symm hkeys fun i hf hh => (hget i hf hh).2

theorem field_reads (hquote : Quotes quote) {p : String × Json}
    (h : Reads stop Same (writeCanonical quote) (writeCanonical quote) p.2) :
    Reads stop (fun p q => p.1 = q.1 ∧ Same p.2 q.2) (writeField quote) (writeField quote) p := by
  intro q x y hx hy heq
  simp only [writeField, entry, List.append_assoc, List.cons_append] at heq
  obtain ⟨hkey, hrest⟩ := hquote.append_inj heq
  obtain ⟨hsame, hxy⟩ := h q.2 x y hx hy (List.cons.inj hrest).2
  exact ⟨⟨hkey, hsame⟩, hxy⟩

/-- The bytes of a value tell where it ends, and which value it is up to the order of keys. -/
theorem writeCanonical_reads (hquote : Quotes quote) (v : Json) :
    Reads stop Same (writeCanonical quote) (writeCanonical quote) v := by
  induction v using Json.induct with
  | null =>
    intro w x y hx hy h
    have hkind := kind_eq hquote h
    cases w with
    | null => exact ⟨Same.null, List.append_cancel_left h⟩
    | _ => cases hkind
  | bool b =>
    intro w x y hx hy h
    have hkind := kind_eq hquote h
    cases w with
    | bool b' =>
      rw [writeCanonical, writeCanonical] at h
      cases b with
      | false =>
        cases b' with
        | false => exact ⟨Same.bool false, List.append_cancel_left h⟩
        | true => exact absurd (List.cons.inj h).1 (by decide)
      | true =>
        cases b' with
        | false => exact absurd (List.cons.inj h).1 (by decide)
        | true => exact ⟨Same.bool true, List.append_cancel_left h⟩
    | _ => cases hkind
  | number n =>
    intro w x y hx hy h
    have hkind := kind_eq hquote h
    have hdigits : ∀ {z : List Char}, Stopped stop z → Stopped (fun c => ¬ c.isDigit = true) z :=
      fun hz c hc => stop_not_digit (hz c hc)
    cases w with
    | number n' =>
      rw [writeCanonical, writeCanonical] at h
      obtain ⟨rfl, hxy⟩ := decimal_inj (hdigits hx) (hdigits hy) h
      exact ⟨Same.number n, hxy⟩
    | _ => cases hkind
  | string s =>
    intro w x y hx hy h
    have hkind := kind_eq hquote h
    cases w with
    | string s' =>
      rw [writeCanonical, writeCanonical] at h
      obtain ⟨rfl, hxy⟩ := hquote.append_inj h
      exact ⟨Same.string s, hxy⟩
    | _ => cases hkind
  | array items ih =>
    intro w x y hx hy h
    have hkind := kind_eq hquote h
    cases w with
    | array items' =>
      rw [writeCanonical_array, writeCanonical_array] at h
      simp only [List.cons_append, List.append_assoc, List.nil_append, List.cons.injEq, true_and] at h
      have hhead : ∀ v, ∃ c ∈ (writeCanonical quote v).head?, c ≠ ']' := by
        intro v
        obtain ⟨c, hc, -, hne⟩ := writeCanonical_head hquote v
        exact ⟨c, hc, hne⟩
      have hcomma : stop ',' ∧ stop ']' := by decide
      obtain ⟨hitems, hxy⟩ := separated_inj hcomma.1 hcomma.2 (by decide) ih hhead hhead h
      obtain ⟨hlength, hget⟩ := List.forall₂_iff_get.mp hitems
      exact ⟨Same.array hlength hget, hxy⟩
    | _ => cases hkind
  | object fields ih =>
    intro w x y hx hy h
    have hkind := kind_eq hquote h
    cases w with
    | object fields' =>
      rw [writeCanonical_object, writeCanonical_object] at h
      simp only [List.cons_append, List.append_assoc, List.nil_append, List.cons.injEq, true_and] at h
      have hhead : ∀ p, ∃ c ∈ (writeField quote p).head?, c ≠ '\x7d' := by
        intro p
        refine ⟨'"', ?_, by decide⟩
        rw [writeField, entry, List.head?_append, hquote.head]
        rfl
      have hreads : ∀ p ∈ sorted fields,
          Reads stop (fun p q => p.1 = q.1 ∧ Same p.2 q.2) (writeField quote) (writeField quote) p :=
        fun p hp => field_reads hquote (ih p ((sorted_perm fields).mem_iff.mp hp))
      have hcomma : stop ',' ∧ stop '\x7d' := by decide
      obtain ⟨hfields, hxy⟩ := separated_inj hcomma.1 hcomma.2 (by decide) hreads hhead hhead h
      exact ⟨same_sorted hfields, hxy⟩
    | _ => cases hkind

end Decoding

section Order

variable {quote : String → List Char}

theorem sortKeys_perm {l l' : List (String × List Char)} (h : l.Perm l') (hkeys : (l.map Prod.fst).Nodup) :
    sortKeys l = sortKeys l' :=
  sortBy_eq_of_perm Prod.fst h fun _ hp _ hq hkey => List.inj_on_of_nodup_map hkeys hp hq hkey

theorem writeCanonical_same {v w : Json} (h : Same v w) (hw : Distinct w) :
    writeCanonical quote v = writeCanonical quote w := by
  induction h with
  | null | bool _ | number _ | string _ => rfl
  | @array xs ys hlength _ ih =>
    cases hw with
    | array hitems =>
      rw [writeCanonical, writeCanonical, writeItems_eq, writeItems_eq]
      have htexts : xs.map (writeCanonical quote) = ys.map (writeCanonical quote) := by
        apply List.ext_getElem (by rw [List.length_map, List.length_map, hlength])
        intro i hx hy
        rw [List.getElem_map, List.getElem_map]
        rw [List.length_map] at hx hy
        exact ih i hx hy (hitems _ (List.getElem_mem hy))
      rw [htexts]
  | @object fs gs hs hperm hkeys _ ih =>
    cases hw with
    | object hnodup hfields =>
      rw [writeCanonical, writeCanonical, writeFields_eq, writeFields_eq]
      have hlength : fs.length = hs.length := by
        simpa only [List.length_map] using congrArg List.length hkeys
      have htexts : fs.map (fun p => (p.1, writeCanonical quote p.2)) =
          hs.map fun p => (p.1, writeCanonical quote p.2) := by
        apply List.ext_getElem (by rw [List.length_map, List.length_map, hlength])
        intro i hf hh
        rw [List.length_map] at hf hh
        have hkey : fs[i].1 = hs[i].1 := by
          have := congrArg (fun l => l[i]?) hkeys
          simpa [List.getElem?_eq_getElem hf, List.getElem?_eq_getElem hh] using this
        rw [List.getElem_map, List.getElem_map, hkey,
          ih i hf hh (hfields _ (hperm.mem_iff.mpr (List.getElem_mem hh)))]
      have hentries := (hperm.map fun p => (p.1, writeCanonical quote p.2)).symm
      rw [htexts, sortKeys_perm hentries]
      rw [List.map_map]
      exact ((hperm.map Prod.fst).nodup_iff).mp hnodup

end Order

section Injectivity

variable {quote : String → List Char}

theorem writeCanonical_iff (hquote : Quotes quote) {v w : Json} (hw : Distinct w) :
    writeCanonical quote v = writeCanonical quote w ↔ Same v w := by
  constructor
  · intro h
    have hnil : Stopped stop [] := fun c hc => by cases hc
    exact (writeCanonical_reads hquote v w [] [] hnil hnil (congrArg (· ++ []) h)).1
  · intro h
    exact writeCanonical_same h hw

theorem canonicalSerialize_iff (hquote : Quotes quote) (v w : Value) :
    canonicalSerialize quote v = canonicalSerialize quote w ↔ Same v.json w.json := by
  rw [← writeCanonical_iff hquote w.distinct]
  constructor
  · intro h
    exact String.ofList_injective (utf8_injective h)
  · intro h
    rw [canonicalSerialize, canonicalSerialize, h]

theorem same_string {s t : String} (h : Same (.string s) (.string t)) : s = t := by
  cases h
  rfl

theorem same_object {fs gs : List (String × Json)} (h : Same (.object fs) (.object gs)) :
    ∃ hs : List (String × Json), gs.Perm hs ∧ fs.map Prod.fst = hs.map Prod.fst ∧
      ∀ i (hf : i < fs.length) (hh : i < hs.length), Same fs[i].2 hs[i].2 := by
  cases h with
  | object hperm hkeys hvalues => exact ⟨_, hperm, hkeys, hvalues⟩

theorem prevHash_same {p p' : Option Hash} (h : Same (prevHash p) (prevHash p')) : p = p' := by
  cases p with
  | none =>
    cases p' with
    | none => rfl
    | some _ => cases h
  | some a =>
    cases p' with
    | none => cases h
    | some b => rw [Hash.toHex_injective (same_string h)]

theorem same_pair {k l : String} (hne : k ≠ l) {a b c d : Json}
    (h : Same (.object [(k, a), (l, b)]) (.object [(k, c), (l, d)])) : Same a c ∧ Same b d := by
  obtain ⟨hs, hperm, hkeys, hvalues⟩ := same_object h
  obtain ⟨x, y, rfl⟩ : ∃ x y, hs = [x, y] := List.length_eq_two.mp hperm.length_eq.symm
  simp only [List.map_cons, List.map_nil, List.cons.injEq, and_true] at hkeys
  have hx : x = (k, c) := by
    obtain heq | heq := List.mem_pair.mp (hperm.mem_iff.mpr List.mem_cons_self)
    · exact heq
    · rw [heq] at hkeys
      exact absurd hkeys.1 hne
  have hy : y = (l, d) := by
    obtain heq | heq := List.mem_pair.mp (hperm.mem_iff.mpr (List.mem_cons_of_mem x List.mem_cons_self))
    · rw [heq] at hkeys
      exact absurd hkeys.2 hne.symm
    · exact heq
  subst hx hy
  have hfirst : Same a c := hvalues 0 Nat.zero_lt_two Nat.zero_lt_two
  have hsecond : Same b d := hvalues 1 Nat.one_lt_two Nat.one_lt_two
  exact ⟨hfirst, hsecond⟩

theorem linked_same {e e' : Value} {p p' : Option Hash} (h : Same (linked e p).json (linked e' p').json) :
    Same e.json e'.json ∧ p = p' := by
  have hne : "prev_hash" ≠ "event" := by decide
  obtain ⟨hprev, hevent⟩ := same_pair hne h
  exact ⟨hevent, prevHash_same hprev⟩

/-- Equal bytes are equal values up to the order of keys, and two events that are chained to one
hash are the same event after the same one. -/
theorem canonicalSerialize_injective (hquote : Quotes quote) :
    (∀ v w : Value, canonicalSerialize quote v = canonicalSerialize quote w ↔ Same v.json w.json) ∧
      ∀ (blake3 : List UInt8 → Hash) (e e' : Value) (p p' : Option Hash),
        Set.InjOn blake3 {canonicalSerialize quote (linked e p), canonicalSerialize quote (linked e' p')} →
          hashEvent blake3 quote e p = hashEvent blake3 quote e' p' → Same e.json e'.json ∧ p = p' := by
  refine ⟨canonicalSerialize_iff hquote, fun blake3 e e' p p' hfree h => linked_same ?_⟩
  rw [← canonicalSerialize_iff hquote]
  exact hfree (Set.mem_insert _ _) (Set.mem_insert_of_mem _ rfl) h

end Injectivity

section Samples

def plainEscape (c : Char) : List Char := if c = '"' ∨ c = '\\' then ['\\', c] else [c]

def plainQuote (s : String) : List Char := '"' :: (s.toList.flatMap plainEscape ++ ['"'])

theorem plainEscape_inj {c d : Char} {x y : List Char} (h : plainEscape c ++ x = plainEscape d ++ y) :
    c = d ∧ x = y := by
  unfold plainEscape at h
  split at h
  · split at h
    · obtain ⟨hcd, hxy⟩ := List.cons.inj (List.cons.inj h).2
      exact ⟨hcd, hxy⟩
    · rename_i hd
      exact absurd (Or.inr (List.cons.inj h).1.symm) hd
  · rename_i hc
    split at h
    · exact absurd (Or.inr (List.cons.inj h).1) hc
    · exact List.cons.inj h

theorem flatMap_plainEscape_inj {a b : List Char} (h : a.flatMap plainEscape = b.flatMap plainEscape) : a = b := by
  have hne : ∀ (c : Char) (x : List Char), plainEscape c ++ x ≠ [] := by
    intro c x
    unfold plainEscape
    split <;> exact List.cons_ne_nil _ _
  induction a generalizing b with
  | nil =>
    cases b with
    | nil => rfl
    | cons d b => exact absurd h.symm (hne d _)
  | cons c a ih =>
    cases b with
    | nil => exact absurd h (hne c _)
    | cons d b =>
      obtain ⟨rfl, hrest⟩ := plainEscape_inj h
      rw [ih hrest]

theorem escaped_plain (text : List Char) : Escaped (text.flatMap plainEscape) := by
  induction text with
  | nil => exact Escaped.nil
  | cons c text ih =>
    rw [List.flatMap_cons, plainEscape]
    split
    · exact Escaped.escape c ih
    · rename_i h
      rw [not_or] at h
      exact Escaped.plain h.1 h.2 ih

theorem plainQuote_quotes : Quotes plainQuote where
  injective := by
    intro s t h
    apply String.toList_inj.mp
    exact flatMap_plainEscape_inj (List.append_cancel_right (List.cons.inj h).2)
  quoted := fun s => ⟨s.toList.flatMap plainEscape, escaped_plain s.toList, rfl⟩

def sampleRecord (fields : List (String × Int)) (hkeys : (fields.map Prod.fst).Nodup) : Value where
  json := .object (fields.map fun p => (p.1, .number p.2))
  distinct := by
    apply Distinct.object
    · rwa [List.map_map]
    · rw [List.forall_mem_map]
      exact fun p _ => Distinct.number p.2

def recordAb : Value := sampleRecord [("a", 2), ("b", 1)] (by decide)

def recordBa : Value := sampleRecord [("b", 1), ("a", 2)] (by decide)

def recordDigest : Hash :=
  ⟨[64, 131, 151, 71, 221, 188, 101, 209, 144, 177, 192, 117, 7, 31, 7, 220, 6, 254, 69, 249, 213, 218, 212, 164, 199,
    27, 39, 23, 191, 78, 9, 180], rfl⟩

theorem canonicalSerialize_injective_records :
    Quotes plainQuote ∧ canonicalSerialize plainQuote recordBa = utf8 "\x7b\"a\":2,\"b\":1\x7d" ∧
      hashEvent (fun _ => recordDigest) plainQuote recordAb none =
        hashEvent (fun _ => recordDigest) plainQuote recordBa none ∧
      Same recordAb.json recordBa.json := by
  have hbytes : canonicalSerialize plainQuote recordAb = canonicalSerialize plainQuote recordBa := by decide +kernel
  refine ⟨plainQuote_quotes, by decide +kernel, rfl, ?_⟩
  exact ((canonicalSerialize_injective plainQuote_quotes).1 recordAb recordBa).mp hbytes

end Samples

end Cosmon.Hashing.Canonical
