import Cosmon.Scheduler.Cron
import Mathlib.Data.List.Forall2

namespace Cosmon.Scheduler.Cron

open Cosmon.Lib.Text Cosmon.Lib.Checks

def stepLoop (stop step : Nat) : Nat → Nat → FieldSet → Option FieldSet
  | 0, _, _ => none
  | fuel + 1, v, into =>
    if v ≤ stop then
      if step = 0 then some (into.insert v)
      else stepLoop stop step fuel (min (v + step) (2 ^ 32 - 1)) (into.insert v)
    else some into

def parseSpan (lo hi : Nat) (token : List Char) : Except String (Nat × Nat × Nat) := do
  let (range, step) ← parseStep token
  let (start, stop) ← parseRange range lo hi
  return (start, stop, step)

/-- A token as it is parsed, with the loop. -/
def parseTokenLoop (fuel lo hi : Nat) (into : FieldSet) (token : List Char) : Option (Except String FieldSet) :=
  match parseSpan lo hi token with
  | .error reason => some (.error reason)
  | .ok (start, stop, step) => (stepLoop stop step fuel start into).map .ok

def Stands (start stop step v : Nat) : Prop := ∃ i, v = start + step * i ∧ v ≤ stop

def Digits (text : List Char) (n : Nat) : Prop :=
  text ≠ [] ∧ (∀ c ∈ text, c.isDigit = true) ∧ Nat.ofDigitChars 10 text 0 = n ∧ n < 2 ^ 32

def Number (wide : Bool) (text : List Char) (n : Nat) : Prop :=
  Digits text n ∨ wide = true ∧ ∃ digits, text = '+' :: digits ∧ Digits digits n

inductive Span (wide : Bool) (lo hi : Nat) : List Char → Nat → Nat → Prop
  | every : Span wide lo hi ['*'] lo hi
  | range {a b : List Char} {start stop : Nat} : Number wide a start → Number wide b stop →
      lo ≤ start → start ≤ stop → stop ≤ hi → Span wide lo hi (a ++ '-' :: b) start stop

/-- The text of an item, its start, its stop and its step. In the wide grammar a value has a step too. -/
inductive Item (wide : Bool) (lo hi : Nat) : List Char → Nat → Nat → Nat → Prop
  | value {a : List Char} {n : Nat} : Number wide a n → lo ≤ n → n ≤ hi → Item wide lo hi a n n 1
  | span {a : List Char} {start stop : Nat} : Span wide lo hi a start stop → Item wide lo hi a start stop 1
  | stepped {a s : List Char} {start stop step : Nat} : Span wide lo hi a start stop → Number wide s step →
      1 ≤ step → Item wide lo hi (a ++ '/' :: s) start stop step
  | steppedValue {a s : List Char} {n step : Nat} : wide = true → Number wide a n → lo ≤ n → n ≤ hi →
      Number wide s step → 1 ≤ step → Item wide lo hi (a ++ '/' :: s) n n step

def Field (wide : Bool) (lo hi : Nat) (raw : List Char) : Prop :=
  ∀ token ∈ raw.splitOn ',', ∃ start stop step, Item wide lo hi token start stop step

def Holds (wide : Bool) (lo hi : Nat) (raw : List Char) (set : FieldSet) : Prop :=
  ∀ v, set.contains v = true ↔
    ∃ token ∈ raw.splitOn ',', ∃ start stop step, Item wide lo hi token start stop step ∧ Stands start stop step v

def fields (expr : String) : List (List Char) := (expr.toList.splitOnP isWhiteSpace).filter (· ≠ [])

def bounds : List (Nat × Nat) := [(0, 59), (0, 23), (1, 31), (1, 12), (0, 7)]

def CronExpr.sets (e : CronExpr) : List FieldSet := [e.minute, e.hour, e.dayOfMonth, e.month, e.dayOfWeek]

def Grammar (wide : Bool) (expr : String) : Prop :=
  List.Forall₂ (fun raw range => Field wide range.1 range.2 raw) (fields expr) bounds

def Means (wide : Bool) (expr : String) (e : CronExpr) : Prop :=
  List.Forall₂ (fun raw place => Holds wide place.1.1 place.1.2 raw place.2) (fields expr) (bounds.zip e.sets)

/-- The documented expressions are accepted, with their meaning, and no others. -/
structure Agrees (expr : String) : Prop where
  accepts : (∃ e, CronExpr.parse expr = .ok e) ↔ Grammar false expr
  means : ∀ e, CronExpr.parse expr = .ok e → Means false expr e

def Stray (token : List Char) : Prop := '+' ∈ token ∨ '/' ∈ token ∧ '*' ∉ token ∧ '-' ∉ token

def Strays (expr : String) : Prop := ∃ raw ∈ fields expr, ∃ token ∈ raw.splitOn ',', Stray token

section Loop

variable {lo hi start stop step v : Nat} {into : FieldSet}

/-- By the distance to the stop: every turn but the last one comes closer to it. -/
theorem stepLoop_ends (hstop : stop < 2 ^ 32 - 1) (hstep : 1 ≤ step) (hle : v ≤ stop) :
    ∃ fuel, stepLoop stop step fuel v into =
      some ((List.range' v ((stop - v) / step + 1) step).foldl FieldSet.insert into) := by
  induction hdist : stop - v using Nat.strong_induction_on generalizing v into with
  | _ dist ih =>
    subst hdist
    by_cases hnext : v + step ≤ stop
    · obtain ⟨fuel, hfuel⟩ := ih (stop - (v + step)) (by omega) hnext rfl
      have hdiv : (stop - v) / step = (stop - (v + step)) / step + 1 := by
        rw [show stop - v = stop - (v + step) + step by omega, Nat.add_div_right _ hstep]
      refine ⟨fuel + 1, ?_⟩
      rw [stepLoop, if_pos hle, if_neg (by omega), min_eq_left (by omega), hfuel, hdiv]
      rfl
    · have hdiv : (stop - v) / step = 0 := Nat.div_eq_of_lt (by omega)
      refine ⟨2, ?_⟩
      rw [stepLoop, if_pos hle, if_neg (by omega), stepLoop, if_neg (by omega), hdiv]
      rfl

theorem parseToken_eq (token : List Char) : parseToken lo hi into token = (parseSpan lo hi token).map fun span =>
    (List.range' span.1 ((span.2.1 - span.1) / span.2.2 + 1) span.2.2).foldl FieldSet.insert into := by
  rw [parseToken, parseSpan]
  cases parseStep token with
  | error reason => rfl
  | ok parts =>
    obtain ⟨range, step⟩ := parts
    dsimp only [bind, Except.bind]
    cases parseRange range lo hi <;> rfl

end Loop

section Texts

variable {wide : Bool} {lo hi start stop step n : Nat} {text token : List Char}

theorem digits_iff : Digits text n ↔
    (text ≠ [] ∧ text.all Char.isDigit = true ∧ Nat.ofDigitChars 10 text 0 < 2 ^ 32) ∧
      Nat.ofDigitChars 10 text 0 = n := by
  rw [Digits, List.all_eq_true]
  exact ⟨fun ⟨hne, hall, heq, hlt⟩ => ⟨⟨hne, hall, heq ▸ hlt⟩, heq⟩,
    fun ⟨⟨hne, hall, hlt⟩, heq⟩ => ⟨hne, hall, heq, heq ▸ hlt⟩⟩

theorem number_iff : Number true text n ↔ parseUnsigned 32 text = some n := by
  rw [Number, parseUnsigned]
  by_cases hsign : text.head? = some '+'
  · obtain ⟨digits, rfl⟩ := List.head?_eq_some_iff.mp hsign
    have hno : ¬ Digits ('+' :: digits) n := fun h => absurd (h.2.1 '+' List.mem_cons_self) (by decide)
    simp [hno, digits_iff]
  · rw [if_neg hsign, Option.ite_none_right_eq_some, Option.some_inj, ← digits_iff]
    refine or_iff_left ?_
    rintro ⟨-, digits, htext, -⟩
    exact hsign (htext ▸ rfl)

theorem Number.chars (h : Number wide text n) {c : Char} (hc : c ∈ text) :
    c.isDigit = true ∨ wide = true ∧ c = '+' := by
  obtain hdigits | ⟨hwide, digits, rfl, hdigits⟩ := h
  · exact .inl (hdigits.2.1 c hc)
  · obtain rfl | hc := List.mem_cons.mp hc
    · exact .inr ⟨hwide, rfl⟩
    · exact .inl (hdigits.2.1 c hc)

theorem Number.not_mem (h : Number wide text n) {c : Char} (hdigit : c.isDigit = false) (hsign : c ≠ '+') :
    c ∉ text := by
  intro hc
  obtain hc | ⟨-, rfl⟩ := h.chars hc
  · exact absurd hc (by simp [hdigit])
  · exact hsign rfl

theorem Span.slash_not_mem (h : Span wide lo hi text start stop) : '/' ∉ text := by
  cases h with
  | every => decide
  | range ha hb =>
    rw [List.mem_append, List.mem_cons, not_or, not_or]
    exact ⟨ha.not_mem rfl (by decide), by decide, hb.not_mem rfl (by decide)⟩

theorem parseRange_iff : parseRange text lo hi = .ok (start, stop) ↔
    Span true lo hi text start stop ∨ Number true text start ∧ start = stop ∧ lo ≤ start ∧ start ≤ hi := by
  constructor
  · intro h
    unfold parseRange at h
    split at h
    · rename_i hevery
      cases h
      exact .inl (hevery ▸ .every)
    split at h
    · rename_i a b hsplit
      obtain ⟨rfl, -⟩ := splitOnce_some hsplit
      split at h
      · cases h
      rename_i n ha
      split at h
      · cases h
      rename_i m hb
      split at h
      · cases h
      · cases h
        exact .inl (.range (number_iff.mpr ha) (number_iff.mpr hb) (by omega) (by omega) (by omega))
    · split at h
      · cases h
      rename_i n hn
      split at h
      · cases h
      · cases h
        exact .inr ⟨number_iff.mpr hn, rfl, by omega, by omega⟩
  · rintro (hspan | ⟨hn, rfl, hlo, hhi⟩)
    · cases hspan with
      | every => exact if_pos rfl
      | @range a b _ _ ha hb hlo hle hhi =>
        have hevery : a ++ '-' :: b ≠ ['*'] := fun heq => by
          have hmem : '-' ∈ ['*'] := heq ▸ List.mem_append_right a List.mem_cons_self
          exact absurd hmem (by decide)
        rw [parseRange, if_neg hevery, splitOnce_of_none (ha.not_mem rfl (by decide))]
        dsimp only
        rw [number_iff.mp ha, number_iff.mp hb]
        exact if_neg (by omega)
    · have hevery : text ≠ ['*'] := fun heq => hn.not_mem (c := '*') rfl (by decide) (heq ▸ List.mem_cons_self)
      rw [parseRange, if_neg hevery, splitOnce_eq_none.mpr (hn.not_mem rfl (by decide)), number_iff.mp hn]
      exact if_neg (by omega)

theorem parseStep_iff : parseStep token = .ok (text, step) ↔ ('/' ∉ token ∧ text = token ∧ step = 1) ∨
    ∃ s, token = text ++ '/' :: s ∧ '/' ∉ text ∧ Number true s step ∧ 1 ≤ step := by
  constructor
  · intro h
    rw [parseStep] at h
    cases hsplit : splitOnce '/' token with
    | none =>
      rw [hsplit] at h
      cases h
      exact .inl ⟨splitOnce_eq_none.mp hsplit, rfl, rfl⟩
    | some parts =>
      obtain ⟨range, s⟩ := parts
      obtain ⟨rfl, hslash⟩ := splitOnce_some hsplit
      rw [hsplit] at h
      dsimp only at h
      split at h
      · cases h
      · cases h
      · rename_i k hk hs
        cases h
        exact .inr ⟨s, rfl, hslash, number_iff.mpr hs, Nat.pos_of_ne_zero fun hzero => hk hzero⟩
  · rintro (⟨hslash, rfl, rfl⟩ | ⟨s, rfl, hslash, hs, hpos⟩)
    · rw [parseStep, splitOnce_eq_none.mpr hslash]
    · rw [parseStep, splitOnce_of_none hslash]
      dsimp only
      rw [number_iff.mp hs]
      obtain ⟨k, rfl⟩ := Nat.exists_eq_add_of_le' hpos
      rfl

theorem parseSpan_iff : parseSpan lo hi token = .ok (start, stop, step) ↔ Item true lo hi token start stop step := by
  constructor
  · intro h
    obtain ⟨⟨range, k⟩, hstep, h⟩ := bind_ok h
    obtain ⟨⟨n, m⟩, hrange, h⟩ := bind_ok h
    cases h
    obtain ⟨-, rfl, rfl⟩ | ⟨s, rfl, -, hs, hpos⟩ := parseStep_iff.mp hstep <;>
      obtain hspan | ⟨hn, rfl, hlo, hhi⟩ := parseRange_iff.mp hrange
    · exact .span hspan
    · exact .value hn hlo hhi
    · exact .stepped hspan hs hpos
    · exact .steppedValue rfl hn hlo hhi hs hpos
  · intro h
    have hparts {text : List Char} (hstep : parseStep token = .ok (text, step))
        (hrange : parseRange text lo hi = .ok (start, stop)) : parseSpan lo hi token = .ok (start, stop, step) := by
      rw [parseSpan, hstep]
      dsimp only [bind, Except.bind]
      rw [hrange]
      rfl
    cases h with
    | value hn hlo hhi =>
      have hslash := hn.not_mem (c := '/') rfl (by decide)
      exact hparts (parseStep_iff.mpr (.inl ⟨hslash, rfl, rfl⟩)) (parseRange_iff.mpr (.inr ⟨hn, rfl, hlo, hhi⟩))
    | span hspan =>
      exact hparts (parseStep_iff.mpr (.inl ⟨hspan.slash_not_mem, rfl, rfl⟩)) (parseRange_iff.mpr (.inl hspan))
    | stepped hspan hs hpos =>
      exact hparts (parseStep_iff.mpr (.inr ⟨_, rfl, hspan.slash_not_mem, hs, hpos⟩)) (parseRange_iff.mpr (.inl hspan))
    | steppedValue _ hn hlo hhi hs hpos =>
      have hslash := hn.not_mem (c := '/') rfl (by decide)
      exact hparts (parseStep_iff.mpr (.inr ⟨_, rfl, hslash, hs, hpos⟩))
        (parseRange_iff.mpr (.inr ⟨hn, rfl, hlo, hhi⟩))

theorem Item.bounds (h : Item wide lo hi token start stop step) (hlohi : lo ≤ hi) :
    start ≤ stop ∧ stop ≤ hi ∧ 1 ≤ step := by
  have hspan {text : List Char} (h : Span wide lo hi text start stop) : start ≤ stop ∧ stop ≤ hi := by
    cases h with
    | every => exact ⟨hlohi, le_rfl⟩
    | range _ _ _ hle hhi => exact ⟨hle, hhi⟩
  cases h with
  | value _ _ hhi => exact ⟨le_rfl, hhi, le_rfl⟩
  | span h => exact ⟨(hspan h).1, (hspan h).2, le_rfl⟩
  | stepped h _ hpos => exact ⟨(hspan h).1, (hspan h).2, hpos⟩
  | steppedValue _ _ _ hhi _ hpos => exact ⟨le_rfl, hhi, hpos⟩

theorem number_strict : Number false text n ↔ Number true text n ∧ '+' ∉ text := by
  refine ⟨fun h => ⟨?_, fun hsign => ?_⟩, fun ⟨h, hsign⟩ => ?_⟩
  · exact .inl (h.resolve_right fun hwide => absurd hwide.1 (by decide))
  · obtain hdigit | ⟨hwide, -⟩ := h.chars hsign
    · exact absurd hdigit (by decide)
    · exact absurd hwide (by decide)
  · exact .inl (h.resolve_right fun ⟨_, _, htext, _⟩ => hsign (htext ▸ List.mem_cons_self))

theorem span_strict : Span false lo hi text start stop ↔ Span true lo hi text start stop ∧ '+' ∉ text := by
  constructor
  · intro h
    cases h with
    | every => exact ⟨.every, by decide⟩
    | range ha hb hlo hle hhi =>
      obtain ⟨ha, hsign⟩ := number_strict.mp ha
      obtain ⟨hb, hsign'⟩ := number_strict.mp hb
      exact ⟨.range ha hb hlo hle hhi, by simp [hsign, hsign']⟩
  · rintro ⟨h, hsign⟩
    cases h with
    | every => exact .every
    | range ha hb hlo hle hhi =>
      rw [List.mem_append, List.mem_cons, not_or, not_or] at hsign
      exact .range (number_strict.mpr ⟨ha, hsign.1⟩) (number_strict.mpr ⟨hb, hsign.2.2⟩) hlo hle hhi

theorem Span.mark (h : Span wide lo hi text start stop) : '*' ∈ text ∨ '-' ∈ text := by
  cases h with
  | every => exact .inl List.mem_cons_self
  | range => exact .inr (List.mem_append_right _ List.mem_cons_self)

theorem item_strict : Item false lo hi token start stop step ↔
    Item true lo hi token start stop step ∧ ¬ Stray token := by
  rw [Stray, not_or, not_and_or, not_and_or, not_not, not_not]
  constructor
  · intro h
    cases h with
    | value hn hlo hhi =>
      obtain ⟨hn, hsign⟩ := number_strict.mp hn
      exact ⟨.value hn hlo hhi, hsign, .inl (hn.not_mem rfl (by decide))⟩
    | span h =>
      obtain ⟨h, hsign⟩ := span_strict.mp h
      exact ⟨.span h, hsign, .inl h.slash_not_mem⟩
    | stepped h hs hpos =>
      obtain ⟨h, hsign⟩ := span_strict.mp h
      obtain ⟨hs, hsign'⟩ := number_strict.mp hs
      exact ⟨.stepped h hs hpos, by simp [hsign, hsign'],
        .inr (h.mark.imp (List.mem_append_left _) (List.mem_append_left _))⟩
    | steppedValue hwide => cases hwide
  · rintro ⟨h, hsign, hmark⟩
    cases h with
    | value hn hlo hhi => exact .value (number_strict.mpr ⟨hn, hsign⟩) hlo hhi
    | span h => exact .span (span_strict.mpr ⟨h, hsign⟩)
    | stepped h hs hpos =>
      rw [List.mem_append, List.mem_cons, not_or, not_or] at hsign
      exact .stepped (span_strict.mpr ⟨h, hsign.1⟩) (number_strict.mpr ⟨hs, hsign.2.2⟩) hpos
    | @steppedValue a s n step _ hn _ _ hs =>
      have hnone {c : Char} (hdigit : c.isDigit = false) (hsign : c ≠ '+') (hslash : c ≠ '/') : c ∉ a ++ '/' :: s := by
        rw [List.mem_append, List.mem_cons, not_or, not_or]
        exact ⟨hn.not_mem hdigit hsign, hslash, hs.not_mem hdigit hsign⟩
      obtain hslash | hstar | hdash := hmark
      · exact absurd (List.mem_append_right a List.mem_cons_self) hslash
      · exact absurd hstar (hnone rfl (by decide) (by decide))
      · exact absurd hdash (hnone rfl (by decide) (by decide))

end Texts

section Fields

variable {lo hi start stop step v : Nat} {raw token : List Char} {set into : FieldSet}

theorem contains_foldl {values : List Nat} (h : ∀ value ∈ values, value < 64) :
    (values.foldl FieldSet.insert set).contains v = true ↔ set.contains v = true ∨ v ∈ values := by
  induction values generalizing set with
  | nil => simp
  | cons value values ih =>
    rw [List.forall_mem_cons] at h
    have hinsert : (set.insert value).contains v = true ↔ set.contains v = true ∨ v = value := by
      refine ⟨contains_insert, fun hv => ?_⟩
      rw [FieldSet.insert, if_pos h.1]
      obtain hv | rfl := hv
      · rw [FieldSet.contains, Bool.and_eq_true] at hv ⊢
        exact ⟨hv.1, by rw [BitVec.getLsbD_or, hv.2, Bool.true_or]⟩
      · simp [FieldSet.contains, h.1]
    rw [List.foldl_cons, ih h.2, hinsert, List.mem_cons, or_assoc]

theorem mem_stepped (hstep : 1 ≤ step) (hle : start ≤ stop) :
    v ∈ List.range' start ((stop - start) / step + 1) step ↔ Stands start stop step v := by
  rw [List.mem_range']
  have hcount (i : Nat) : i < (stop - start) / step + 1 ↔ start + step * i ≤ stop := by
    rw [Nat.lt_succ_iff, Nat.le_div_iff_mul_le hstep, Nat.mul_comm]
    omega
  constructor
  · rintro ⟨i, hi, rfl⟩
    exact ⟨i, rfl, (hcount i).mp hi⟩
  · rintro ⟨i, rfl, hi⟩
    exact ⟨i, (hcount i).mpr hi, rfl⟩

theorem parseToken_adds (hlohi : lo ≤ hi) (hhi : hi < 64) (h : parseToken lo hi into token = .ok set) :
    (∃ start stop step, Item true lo hi token start stop step) ∧ ∀ v, set.contains v = true ↔ into.contains v = true ∨
      ∃ start stop step, Item true lo hi token start stop step ∧ Stands start stop step v := by
  rw [parseToken_eq] at h
  obtain ⟨⟨start, stop, step⟩, hspan, rfl⟩ := map_ok h
  have hitem := parseSpan_iff.mp hspan
  obtain ⟨hle, hstop, hpos⟩ := hitem.bounds hlohi
  refine ⟨⟨start, stop, step, hitem⟩, fun v => ?_⟩
  rw [contains_foldl, mem_stepped hpos hle]
  · refine or_congr_right ⟨fun hv => ⟨start, stop, step, hitem, hv⟩, ?_⟩
    rintro ⟨start', stop', step', hitem', hv⟩
    cases hspan.symm.trans (parseSpan_iff.mpr hitem')
    exact hv
  · intro value hvalue
    obtain ⟨_, _, hvalue⟩ := (mem_stepped hpos hle).mp hvalue
    omega

theorem parseField_holds {index : Nat} (hlohi : lo ≤ hi) (hhi : hi < 64) (h : parseField raw index lo hi = .ok set) :
    Field true lo hi raw ∧ Holds true lo hi raw set := by
  have hfold := mapError_ok h
  have hall := @foldlM_ok _ _ _ (parseToken lo hi) FieldSet.empty (fun tokens set =>
    (∀ token ∈ tokens, ∃ start stop step, Item true lo hi token start stop step) ∧ ∀ v, set.contains v = true ↔
      ∃ token ∈ tokens, ∃ start stop step, Item true lo hi token start stop step ∧ Stands start stop step v)
    ⟨by simp, by simp [FieldSet.contains, FieldSet.empty]⟩ ?_ _ _ hfold
  · exact hall
  · rintro tokens into token set ⟨hitems, hinto⟩ hstep
    obtain ⟨hitem, hset⟩ := parseToken_adds hlohi hhi hstep
    refine ⟨fun t ht => ?_, fun v => ?_⟩
    · obtain ht | ht := List.mem_append.mp ht
      · exact hitems t ht
      · exact List.mem_singleton.mp ht ▸ hitem
    · rw [hset, hinto]
      simp only [List.mem_append, List.mem_singleton, or_and_right, exists_or, exists_eq_left]

theorem parseField_accepts (index : Nat) (h : Field true lo hi raw) : ∃ set, parseField raw index lo hi = .ok set := by
  have hfold (tokens : List (List Char)) (into : FieldSet)
      (h : ∀ token ∈ tokens, ∃ start stop step, Item true lo hi token start stop step) :
      ∃ set, tokens.foldlM (parseToken lo hi) into = .ok set := by
    induction tokens generalizing into with
    | nil => exact ⟨into, rfl⟩
    | cons token tokens ih =>
      rw [List.forall_mem_cons] at h
      obtain ⟨start, stop, step, hitem⟩ := h.1
      obtain ⟨set, hset⟩ := ih _ h.2
      refine ⟨set, ?_⟩
      rw [List.foldlM_cons, parseToken_eq, parseSpan_iff.mpr hitem]
      exact hset
  obtain ⟨set, hset⟩ := hfold _ FieldSet.empty h
  exact ⟨set, by rw [parseField, hset]; rfl⟩

end Fields

section Expressions

variable {expr : String}

theorem parse_ok {e : CronExpr} (h : CronExpr.parse expr = .ok e) : Grammar true expr ∧ Means true expr e := by
  rw [Grammar, Means, fields]
  unfold CronExpr.parse at h
  split at h
  · rename_i hfields
    obtain ⟨minute, hminute, h⟩ := bind_ok h
    obtain ⟨hour, hhour, h⟩ := bind_ok h
    obtain ⟨dayOfMonth, hdayOfMonth, h⟩ := bind_ok h
    obtain ⟨month, hmonth, h⟩ := bind_ok h
    obtain ⟨dayOfWeek, hdayOfWeek, h⟩ := bind_ok h
    cases h
    have h₁ := parseField_holds (by decide) (by decide) hminute
    have h₂ := parseField_holds (by decide) (by decide) hhour
    have h₃ := parseField_holds (by decide) (by decide) hdayOfMonth
    have h₄ := parseField_holds (by decide) (by decide) hmonth
    have h₅ := parseField_holds (by decide) (by decide) hdayOfWeek
    rw [hfields]
    exact ⟨.cons h₁.1 (.cons h₂.1 (.cons h₃.1 (.cons h₄.1 (.cons h₅.1 .nil)))),
      .cons h₁.2 (.cons h₂.2 (.cons h₃.2 (.cons h₄.2 (.cons h₅.2 .nil))))⟩
  · cases h

theorem parse_accepts (h : Grammar true expr) : ∃ e, CronExpr.parse expr = .ok e := by
  rw [Grammar, bounds] at h
  generalize hfields : fields expr = raws at h
  obtain _ | ⟨hminute, _ | ⟨hhour, _ | ⟨hdayOfMonth, _ | ⟨hmonth, _ | ⟨hdayOfWeek, _ | _⟩⟩⟩⟩⟩ := h
  obtain ⟨minute, hminute⟩ := parseField_accepts 0 hminute
  obtain ⟨hour, hhour⟩ := parseField_accepts 1 hhour
  obtain ⟨dayOfMonth, hdayOfMonth⟩ := parseField_accepts 2 hdayOfMonth
  obtain ⟨month, hmonth⟩ := parseField_accepts 3 hmonth
  obtain ⟨dayOfWeek, hdayOfWeek⟩ := parseField_accepts 4 hdayOfWeek
  refine ⟨⟨minute, hour, dayOfMonth, month, dayOfWeek⟩, ?_⟩
  rw [CronExpr.parse, ← fields, hfields]
  dsimp only at hminute hhour hdayOfMonth hmonth hdayOfWeek ⊢
  rw [hminute, hhour, hdayOfMonth, hmonth, hdayOfWeek]
  rfl

theorem field_strict {lo hi : Nat} {raw : List Char} :
    Field false lo hi raw ↔ (∀ token ∈ raw.splitOn ',', ¬ Stray token) ∧ Field true lo hi raw := by
  simp only [Field, item_strict, exists_and_right]
  exact ⟨fun h => ⟨fun token htoken => (h token htoken).2, fun token htoken => (h token htoken).1⟩,
    fun h token htoken => ⟨h.2 token htoken, h.1 token htoken⟩⟩

theorem grammar_strict : Grammar false expr ↔ Grammar true expr ∧ ¬ Strays expr := by
  simp only [Grammar, field_strict, List.forall₂_and_left, Strays, not_exists, not_and]
  exact and_comm

theorem means_strict {e : CronExpr} (h : Means true expr e) (hstrays : ¬ Strays expr) : Means false expr e := by
  have hclean : ∀ raw ∈ fields expr, ∀ token ∈ raw.splitOn ',', ¬ Stray token :=
    fun raw hraw token htoken hstray => hstrays ⟨raw, hraw, token, htoken, hstray⟩
  refine ((List.forall₂_and_left _ _).mpr ⟨hclean, h⟩).imp fun raw place ⟨htokens, hholds⟩ v => (hholds v).trans ?_
  refine exists_congr fun token => and_congr_right fun htoken => ?_
  simp only [item_strict, htokens token htoken, not_false_eq_true, and_true]

/-- The loop of a token ends for all bounds of a field, and an expression is read as it is documented just when
it has no sign and no step behind a single value, or is no expression of the wide grammar either. -/
theorem parse_agrees_iff (expr : String) :
    (∀ lo hi into token, lo ≤ hi → hi < 2 ^ 32 - 1 →
      ∃ fuel, parseTokenLoop fuel lo hi into token = some (parseToken lo hi into token)) ∧
    (Agrees expr ↔ ¬ (Grammar true expr ∧ Strays expr)) := by
  refine ⟨fun lo hi into token hlohi hhi => ?_, fun h => ?_, fun h => ?_⟩
  · rw [parseToken_eq]
    cases hspan : parseSpan lo hi token with
    | error reason => exact ⟨0, by rw [parseTokenLoop, hspan]; rfl⟩
    | ok span =>
      obtain ⟨start, stop, step⟩ := span
      obtain ⟨hle, hstop, hpos⟩ := (parseSpan_iff.mp hspan).bounds hlohi
      obtain ⟨fuel, hfuel⟩ := @stepLoop_ends stop step start into (by omega) hpos hle
      exact ⟨fuel, by rw [parseTokenLoop, hspan]; dsimp only; rw [hfuel]; rfl⟩
  · rintro ⟨hwide, hstrays⟩
    exact (grammar_strict.mp (h.accepts.mp (parse_accepts hwide))).2 hstrays
  · have hclean {e : CronExpr} (he : CronExpr.parse expr = .ok e) : ¬ Strays expr :=
      fun hstrays => h ⟨(parse_ok he).1, hstrays⟩
    exact {
      accepts := ⟨fun ⟨_, he⟩ => grammar_strict.mpr ⟨(parse_ok he).1, hclean he⟩,
        fun hgrammar => parse_accepts (grammar_strict.mp hgrammar).1⟩
      means := fun e he => means_strict (parse_ok he).2 (hclean he) }

/-- The step behind the single value is dropped. -/
theorem parse_drops_step : CronExpr.parse "5/15 * * * *" =
      .ok ⟨FieldSet.empty.insert 5, ⟨0xFFFFFF⟩, ⟨0xFFFFFFFE⟩, ⟨0x1FFE⟩, ⟨0xFF⟩⟩ ∧
    ¬ Agrees "5/15 * * * *" := by
  have hparse : CronExpr.parse "5/15 * * * *" =
      .ok ⟨FieldSet.empty.insert 5, ⟨0xFFFFFF⟩, ⟨0xFFFFFFFE⟩, ⟨0x1FFE⟩, ⟨0xFF⟩⟩ := by decide +kernel
  have hfields : fields "5/15 * * * *" = ["5/15".toList, ['*'], ['*'], ['*'], ['*']] := by decide +kernel
  have hstrays : Strays "5/15 * * * *" :=
    ⟨"5/15".toList, hfields ▸ List.mem_cons_self, "5/15".toList, by decide +kernel, .inr (by decide +kernel)⟩
  exact ⟨hparse, fun h => (grammar_strict.mp (h.accepts.mp ⟨_, hparse⟩)).2 hstrays⟩

-- A step that is larger than the range leaves its start.
end Expressions

end Cosmon.Scheduler.Cron
