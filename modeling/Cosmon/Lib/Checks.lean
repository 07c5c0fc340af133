import Mathlib.Data.List.Basic
import Mathlib.Data.List.Induction

namespace Cosmon.Lib.Checks

variable {ε α β : Type}

theorem bind_ok {x : Except ε α} {f : α → Except ε β} {b : β} (h : x >>= f = .ok b) :
    ∃ a, x = .ok a ∧ f a = .ok b := by
  cases x with
  | error e => cases h
  | ok a => exact ⟨a, rfl, h⟩

theorem bind_error {x : Except ε α} {f : α → Except ε β} {e : ε} (h : x >>= f = .error e) :
    x = .error e ∨ ∃ a, x = .ok a ∧ f a = .error e := by
  cases x with
  | error e' =>
    cases h
    exact Or.inl rfl
  | ok a => exact Or.inr ⟨a, rfl, h⟩

theorem map_ok {f : α → β} {x : Except ε α} {b : β} (h : x.map f = .ok b) : ∃ a, x = .ok a ∧ f a = b := by
  cases x with
  | error e => cases h
  | ok a =>
    cases h
    exact ⟨a, rfl, rfl⟩

theorem map_error {f : α → β} {x : Except ε α} {e : ε} (h : x.map f = .error e) : x = .error e := by
  cases x with
  | error e' =>
    cases h
    rfl
  | ok a => cases h

theorem mapError_ok {ε' : Type} {f : ε → ε'} {x : Except ε α} {a : α} (h : x.mapError f = .ok a) :
    x = .ok a := by
  cases x with
  | error e => cases h
  | ok b =>
    cases h
    rfl

theorem mapError_error {ε' : Type} {f : ε → ε'} {x : Except ε α} {e' : ε'} (h : x.mapError f = .error e') :
    ∃ e, e' = f e := by
  cases x with
  | error e =>
    cases h
    exact ⟨e, rfl⟩
  | ok a => cases h

theorem guard_ok {c : Prop} [Decidable c] {e : ε} {x : Except ε α} {a : α} :
    (if c then .error e else x) = .ok a ↔ ¬c ∧ x = .ok a := by
  split
  · rename_i hc
    exact ⟨fun h => (nomatch h), fun h => absurd hc h.1⟩
  · rename_i hc
    exact ⟨fun h => ⟨hc, h⟩, fun h => h.2⟩

theorem forM_ok {f : α → Except ε Unit} {xs : List α} (h : xs.forM f = .ok ()) :
    ∀ x ∈ xs, f x = .ok () := by
  induction xs with
  | nil => exact fun x hx => absurd hx List.not_mem_nil
  | cons x xs ih =>
    obtain ⟨_, hx, hxs⟩ := bind_ok h
    exact List.forall_mem_cons.mpr ⟨hx, ih hxs⟩

theorem forM_error {f : α → Except ε Unit} {P : ε → Prop} {xs : List α} {e : ε}
    (hf : ∀ x ∈ xs, ∀ e, f x = .error e → P e) (h : xs.forM f = .error e) : P e := by
  induction xs with
  | nil => cases h
  | cons x rest ih =>
    rw [List.forall_mem_cons] at hf
    obtain h | ⟨⟨⟩, -, h⟩ := bind_error h
    · exact hf.1 e h
    · exact ih hf.2 h

theorem mapM_error {f : α → Except ε β} {P : ε → Prop} {xs : List α} {e : ε}
    (hf : ∀ x ∈ xs, ∀ e, f x = .error e → P e) (h : xs.mapM f = .error e) : P e := by
  induction xs with
  | nil => cases h
  | cons x rest ih =>
    rw [List.forall_mem_cons] at hf
    rw [List.mapM_cons] at h
    obtain h | ⟨y, -, h⟩ := bind_error h
    · exact hf.1 e h
    · obtain h | ⟨ys, -, h⟩ := bind_error h
      · exact ih hf.2 h
      · cases h

theorem foldlM_ok {f : β → α → Except ε β} {init : β} {P : List α → β → Prop} (hinit : P [] init)
    (hstep : ∀ xs b x b', P xs b → f b x = .ok b' → P (xs ++ [x]) b') {xs : List α} {b : β}
    (h : xs.foldlM f init = .ok b) : P xs b := by
  induction xs using List.reverseRecOn generalizing b with
  | nil =>
    cases h
    exact hinit
  | append_singleton xs x ih =>
    rw [List.foldlM_append] at h
    obtain ⟨b₁, hxs, h⟩ := bind_ok h
    rw [List.foldlM_cons] at h
    obtain ⟨b₂, hx, h⟩ := bind_ok h
    cases h
    exact hstep xs b₁ x b (ih hxs) hx

theorem mapM_forall₂ {f : α → Except ε β} {xs : List α} {ys : List β} (h : xs.mapM f = .ok ys) :
    List.Forall₂ (fun x y => f x = .ok y) xs ys := by
  induction xs generalizing ys with
  | nil =>
    cases h
    exact List.Forall₂.nil
  | cons x xs ih =>
    rw [List.mapM_cons] at h
    obtain ⟨y, hy, h⟩ := bind_ok h
    obtain ⟨rest, hrest, h⟩ := bind_ok h
    cases h
    exact List.Forall₂.cons hy (ih hrest)

theorem mapM_mem {f : α → Except ε β} {xs : List α} {ys : List β} (h : xs.mapM f = .ok ys) :
    ∀ y ∈ ys, ∃ x ∈ xs, f x = .ok y := by
  have hall := mapM_forall₂ h
  clear h
  induction hall with
  | nil => simp
  | cons hx _ ih =>
    rw [List.forall_mem_cons]
    refine ⟨⟨_, List.mem_cons_self, hx⟩, fun y hy => ?_⟩
    obtain ⟨x, hmem, hfx⟩ := ih y hy
    exact ⟨x, List.mem_cons_of_mem _ hmem, hfx⟩

theorem mapM_ok {γ : Type} {f : α → Except ε β} {g : β → γ} {k : α → γ}
    (hf : ∀ x y, f x = .ok y → g y = k x) {xs : List α} {ys : List β} (h : xs.mapM f = .ok ys) :
    ys.map g = xs.map k := by
  have hall := mapM_forall₂ h
  clear h
  induction hall with
  | nil => rfl
  | cons hx _ ih => rw [List.map_cons, List.map_cons, hf _ _ hx, ih]

end Cosmon.Lib.Checks
