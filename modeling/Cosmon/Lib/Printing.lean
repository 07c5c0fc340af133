import Cosmon.Lib.Text

namespace Cosmon.Lib.Printing

open Cosmon.Lib.Text

section Separated

variable {χ α β : Type}

def separated (sep : χ) : List (List χ) → List χ
  | [] => []
  | text :: rest => text ++ rest.flatMap (sep :: ·)

/-- What may come after a text that says itself where it ends only up to these letters. -/
def Stopped (stop : χ → Prop) (text : List χ) : Prop := ∀ c ∈ text.head?, stop c

theorem stopped_cons {stop : χ → Prop} {c : χ} (h : stop c) (rest : List χ) : Stopped stop (c :: rest) := by
  intro c' hc'
  exact Option.mem_some_iff.mp hc' ▸ h

/-- `f a` says where it ends and tells `a` up to a relation, before texts that begin as they may. -/
def Reads (stop : χ → Prop) (R : α → β → Prop) (f : α → List χ) (g : β → List χ) (a : α) : Prop :=
  ∀ b x y, Stopped stop x → Stopped stop y → f a ++ x = g b ++ y → R a b ∧ x = y

variable {stop : χ → Prop} {R : α → β → Prop} {f : α → List χ} {g : β → List χ} {sep close : χ}

theorem stopped_tail (hsep : stop sep) (hclose : stop close) (as : List α) (x : List χ) :
    Stopped stop ((as.map f).flatMap (sep :: ·) ++ close :: x) := by
  cases as with
  | nil => exact stopped_cons hclose x
  | cons a as => exact stopped_cons hsep _

theorem tail_inj (hsep : stop sep) (hclose : stop close) (hne : sep ≠ close) {as : List α} {bs : List β}
    (h : ∀ a ∈ as, Reads stop R f g a) {x y : List χ}
    (heq : (as.map f).flatMap (sep :: ·) ++ close :: x = (bs.map g).flatMap (sep :: ·) ++ close :: y) :
    List.Forall₂ R as bs ∧ x = y := by
  induction as generalizing bs with
  | nil =>
    cases bs with
    | nil => exact ⟨List.Forall₂.nil, (List.cons.inj heq).2⟩
    | cons b bs => exact absurd (List.cons.inj heq).1.symm hne
  | cons a as ih =>
    rw [List.forall_mem_cons] at h
    cases bs with
    | nil => exact absurd (List.cons.inj heq).1 hne
    | cons b bs =>
      simp only [List.map_cons, List.flatMap_cons, List.cons_append, List.append_assoc, List.cons.injEq,
        true_and] at heq
      obtain ⟨hab, hrest⟩ := h.1 b _ _ (stopped_tail hsep hclose as x) (stopped_tail hsep hclose bs y) heq
      obtain ⟨hall, hxy⟩ := ih h.2 hrest
      exact ⟨List.Forall₂.cons hab hall, hxy⟩

/-- Texts that say where they end do so one after the other, between separators and before a
closing letter that none of them begins with. -/
theorem separated_inj (hsep : stop sep) (hclose : stop close) (hne : sep ≠ close) {as : List α} {bs : List β}
    (h : ∀ a ∈ as, Reads stop R f g a) (hf : ∀ a, ∃ c ∈ (f a).head?, c ≠ close)
    (hg : ∀ b, ∃ c ∈ (g b).head?, c ≠ close) {x y : List χ}
    (heq : separated sep (as.map f) ++ close :: x = separated sep (bs.map g) ++ close :: y) :
    List.Forall₂ R as bs ∧ x = y := by
  have hopen : ∀ {text rest z : List χ}, (∃ c ∈ text.head?, c ≠ close) → text ++ rest ≠ close :: z := by
    rintro text rest z ⟨c, hc, hcclose⟩ htext
    obtain ⟨more, rfl⟩ := List.head?_eq_some_iff.mp hc
    exact hcclose (List.cons.inj htext).1
  cases as with
  | nil =>
    cases bs with
    | nil => exact ⟨List.Forall₂.nil, (List.cons.inj heq).2⟩
    | cons b bs =>
      rw [List.map_cons, separated, List.append_assoc] at heq
      exact absurd heq.symm (hopen (hg b))
  | cons a as =>
    rw [List.forall_mem_cons] at h
    rw [List.map_cons, separated, List.append_assoc] at heq
    cases bs with
    | nil => exact absurd heq (hopen (hf a))
    | cons b bs =>
      rw [List.map_cons, separated, List.append_assoc] at heq
      obtain ⟨hab, hrest⟩ := h.1 b _ _ (stopped_tail hsep hclose as x) (stopped_tail hsep hclose bs y) heq
      obtain ⟨hall, hxy⟩ := tail_inj hsep hclose hne h.2 hrest
      exact ⟨List.Forall₂.cons hab hall, hxy⟩

end Separated

section Quoted

/-- A text in which no quote stands bare: a backslash takes the next letter with it. -/
inductive Escaped : List Char → Prop where
  | nil : Escaped []
  | plain {c : Char} {rest : List Char} : c ≠ '"' → c ≠ '\\' → Escaped rest → Escaped (c :: rest)
  | escape {rest : List Char} (c : Char) : Escaped rest → Escaped ('\\' :: c :: rest)

structure Quotes (quote : String → List Char) : Prop where
  injective : Function.Injective quote
  quoted : ∀ s, ∃ body, Escaped body ∧ quote s = '"' :: (body ++ ['"'])

theorem Escaped.close_inj {a b x y : List Char} (ha : Escaped a) (hb : Escaped b)
    (h : a ++ '"' :: x = b ++ '"' :: y) : a = b ∧ x = y := by
  induction ha generalizing b with
  | nil =>
    cases hb with
    | nil => exact ⟨rfl, (List.cons.inj h).2⟩
    | plain hquote _ _ => exact absurd (List.cons.inj h).1.symm hquote
    | escape _ _ => exact absurd (List.cons.inj h).1 (by decide)
  | @plain c rest hquote hslash _ ih =>
    cases hb with
    | nil => exact absurd (List.cons.inj h).1 hquote
    | plain _ _ hrest =>
      obtain ⟨rfl, htail⟩ := List.cons.inj h
      obtain ⟨rfl, hxy⟩ := ih hrest htail
      exact ⟨rfl, hxy⟩
    | escape _ _ => exact absurd (List.cons.inj h).1 hslash
  | @escape rest c _ ih =>
    cases hb with
    | nil => exact absurd (List.cons.inj h).1 (by decide)
    | plain _ hslash _ => exact absurd (List.cons.inj h).1.symm hslash
    | escape _ hrest =>
      obtain ⟨rfl, htail⟩ := List.cons.inj (List.cons.inj h).2
      obtain ⟨rfl, hxy⟩ := ih hrest htail
      exact ⟨rfl, hxy⟩

theorem Quotes.append_inj {quote : String → List Char} (h : Quotes quote) {s t : String} {x y : List Char}
    (heq : quote s ++ x = quote t ++ y) : s = t ∧ x = y := by
  obtain ⟨a, ha, hs⟩ := h.quoted s
  obtain ⟨b, hb, ht⟩ := h.quoted t
  rw [hs, ht] at heq
  simp only [List.cons_append, List.append_assoc, List.nil_append, List.cons.injEq, true_and] at heq
  obtain ⟨rfl, hxy⟩ := ha.close_inj hb heq
  exact ⟨h.injective (hs.trans ht.symm), hxy⟩

theorem Quotes.head {quote : String → List Char} (h : Quotes quote) (s : String) : (quote s).head? = some '"' := by
  obtain ⟨body, -, hs⟩ := h.quoted s
  rw [hs, List.head?_cons]

end Quoted

section Decimal

def decimal : Int → List Char
  | .ofNat n => Nat.toDigits 10 n
  | .negSucc n => '-' :: Nat.toDigits 10 (n + 1)

theorem digits_inj {m n : Nat} {x y : List Char} (hx : Stopped (fun c => ¬ c.isDigit) x)
    (hy : Stopped (fun c => ¬ c.isDigit) y) (h : Nat.toDigits 10 m ++ x = Nat.toDigits 10 n ++ y) :
    m = n ∧ x = y := by
  have htake : ∀ {k : Nat} {z : List Char}, Stopped (fun c => ¬ c.isDigit) z →
      (Nat.toDigits 10 k ++ z).takeWhile Char.isDigit = Nat.toDigits 10 k := by
    intro k z hz
    rw [List.takeWhile_append_of_pos fun c => isDigit_toDigits]
    cases z with
    | nil => rw [List.takeWhile_nil, List.append_nil]
    | cons c z => rw [List.takeWhile_cons_of_neg (hz c rfl), List.append_nil]
  have hdigits := congrArg (List.takeWhile Char.isDigit) h
  rw [htake hx, htake hy] at hdigits
  refine ⟨?_, ?_⟩
  · have hvalue := congrArg (fun digits => Nat.ofDigitChars 10 digits 0) hdigits
    simpa only [Nat.ofDigitChars_ten_toDigits] using hvalue
  · rw [hdigits] at h
    exact List.append_cancel_left h

theorem decimal_head (n : Int) : ∃ c ∈ (decimal n).head?, c = '-' ∨ c.isDigit = true := by
  cases n with
  | ofNat n =>
    obtain ⟨c, rest, hdigits⟩ := List.exists_cons_of_ne_nil (Nat.toDigits_ne_nil (b := 10) (n := n))
    refine ⟨c, ?_, Or.inr (isDigit_toDigits (n := n) (hdigits ▸ List.mem_cons_self))⟩
    rw [decimal, hdigits]
    rfl
  | negSucc n => exact ⟨'-', rfl, Or.inl rfl⟩

theorem decimal_inj {m n : Int} {x y : List Char} (hx : Stopped (fun c => ¬ c.isDigit) x)
    (hy : Stopped (fun c => ¬ c.isDigit) y) (h : decimal m ++ x = decimal n ++ y) : m = n ∧ x = y := by
  have hminus : ∀ {k : Nat} {z rest : List Char}, Nat.toDigits 10 k ++ z ≠ '-' :: rest := by
    intro k z rest heq
    obtain ⟨c, more, hdigits⟩ := List.exists_cons_of_ne_nil (Nat.toDigits_ne_nil (b := 10) (n := k))
    have hc : c.isDigit = true := isDigit_toDigits (n := k) (hdigits ▸ List.mem_cons_self)
    rw [hdigits] at heq
    rw [(List.cons.inj heq).1] at hc
    cases hc
  cases m with
  | ofNat m =>
    cases n with
    | ofNat n => exact (digits_inj hx hy h).imp_left (congrArg Int.ofNat)
    | negSucc n => exact absurd h hminus
  | negSucc m =>
    cases n with
    | ofNat n => exact absurd h.symm hminus
    | negSucc n =>
      exact (digits_inj hx hy (List.cons.inj h).2).imp_left fun heq => congrArg Int.negSucc (Nat.succ.inj heq)

end Decimal

end Cosmon.Lib.Printing
