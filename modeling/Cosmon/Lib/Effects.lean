import Mathlib.Data.List.Basic
import Mathlib.Order.Defs.Unbundled

namespace Cosmon.Lib.Effects

def Effect (σ ε α : Type) : Type := σ → Except ε α × σ

variable {σ ε ε' α β : Type}

namespace Effect

protected def pure (a : α) : Effect σ ε α := fun s => (.ok a, s)

protected def bind (x : Effect σ ε α) (f : α → Effect σ ε β) : Effect σ ε β := fun s =>
  match x s with
  | (.ok a, s') => f a s'
  | (.error e, s') => (.error e, s')

instance : Monad (Effect σ ε) where
  pure := Effect.pure
  bind := Effect.bind

def fail (e : ε) : Effect σ ε α := fun s => (.error e, s)

def modify (f : σ → σ) : Effect σ ε Unit := fun s => (.ok (), f s)

def read (x : σ → Except ε α) : Effect σ ε α := fun s => (x s, s)

def ofExcept (x : Except ε α) : Effect σ ε α := read fun _ => x

def mapError (f : ε → ε') (x : Effect σ ε α) : Effect σ ε' α := fun s =>
  ((x s).1.mapError f, (x s).2)

def each (f : α → Effect σ ε Unit) : List α → Effect σ ε Unit
  | [] => Effect.pure ()
  | a :: rest => Effect.bind (f a) fun _ => each f rest

def collect (f : α → Effect σ ε β) : List α → Effect σ ε (List β)
  | [] => Effect.pure []
  | a :: rest => Effect.bind (f a) fun b => Effect.bind (collect f rest) fun bs => Effect.pure (b :: bs)

section Outcome

theorem outcome (x : Effect σ ε α) (s : σ) :
    (∃ a s', x s = (.ok a, s')) ∨ ∃ e s', x s = (.error e, s') := by
  rcases x s with ⟨e | a, s'⟩
  · exact Or.inr ⟨e, s', rfl⟩
  · exact Or.inl ⟨a, s', rfl⟩

theorem bind_of_ok {x : Effect σ ε α} {f : α → Effect σ ε β} {s s' : σ} {a : α}
    (h : x s = (.ok a, s')) : (x >>= f) s = f a s' := by
  change Effect.bind x f s = f a s'
  rw [Effect.bind, h]

theorem bind_of_error {x : Effect σ ε α} {f : α → Effect σ ε β} {s s' : σ} {e : ε}
    (h : x s = (.error e, s')) : (x >>= f) s = (.error e, s') := by
  change Effect.bind x f s = (.error e, s')
  rw [Effect.bind, h]

theorem bind_ok {x : Effect σ ε α} {f : α → Effect σ ε β} {s s' : σ} {b : β} :
    (x >>= f) s = (.ok b, s') ↔ ∃ a s₁, x s = (.ok a, s₁) ∧ f a s₁ = (.ok b, s') := by
  constructor
  · intro h
    obtain ⟨a, s₁, hx⟩ | ⟨e, s₁, hx⟩ := outcome x s
    · rw [bind_of_ok hx] at h
      exact ⟨a, s₁, hx, h⟩
    · rw [bind_of_error hx] at h
      cases h
  · rintro ⟨a, s₁, hx, hf⟩
    rw [bind_of_ok hx, hf]

theorem bind_error {x : Effect σ ε α} {f : α → Effect σ ε β} {s s' : σ} {e : ε} :
    (x >>= f) s = (.error e, s') ↔
      x s = (.error e, s') ∨ ∃ a s₁, x s = (.ok a, s₁) ∧ f a s₁ = (.error e, s') := by
  constructor
  · intro h
    obtain ⟨a, s₁, hx⟩ | ⟨e', s₁, hx⟩ := outcome x s
    · rw [bind_of_ok hx] at h
      exact Or.inr ⟨a, s₁, hx, h⟩
    · rw [bind_of_error hx] at h
      cases h
      exact Or.inl hx
  · rintro (hx | ⟨a, s₁, hx, hf⟩)
    · exact bind_of_error hx
    · rw [bind_of_ok hx, hf]

theorem read_ok {x : σ → Except ε α} {s s' : σ} {a : α} :
    read x s = (.ok a, s') ↔ x s = .ok a ∧ s' = s := by
  rw [read, Prod.mk.injEq, eq_comm (a := s)]

theorem read_error {x : σ → Except ε α} {s : σ} {e : ε} (h : x s = .error e) :
    read x s = (.error e, s) := Prod.ext h rfl

theorem ofExcept_eq {x y : Except ε α} (h : x = y) (s : σ) : ofExcept x s = (y, s) := Prod.ext h rfl

theorem bind_read_ok {x : σ → Except ε α} {f : α → Effect σ ε β} {s s' : σ} {b : β} :
    (read x >>= f) s = (.ok b, s') ↔ ∃ a, x s = .ok a ∧ f a s = (.ok b, s') := by
  rw [bind_ok]
  constructor
  · rintro ⟨a, s₁, hx, hf⟩
    obtain ⟨hx, rfl⟩ := read_ok.mp hx
    exact ⟨a, hx, hf⟩
  · rintro ⟨a, hx, hf⟩
    exact ⟨a, s, read_ok.mpr ⟨hx, rfl⟩, hf⟩

theorem mapError_ok {f : ε → ε'} {x : Effect σ ε α} {s s' : σ} {a : α} :
    mapError f x s = (.ok a, s') ↔ x s = (.ok a, s') := by
  obtain ⟨b, s₁, hx⟩ | ⟨e, s₁, hx⟩ := outcome x s
  · rw [mapError, hx]
    constructor <;> (intro h; cases h; rfl)
  · rw [mapError, hx]
    constructor <;> (intro h; cases h)

theorem mapError_error {f : ε → ε'} {x : Effect σ ε α} {s s' : σ} {e' : ε'} :
    mapError f x s = (.error e', s') ↔ ∃ e, x s = (.error e, s') ∧ e' = f e := by
  obtain ⟨a, s₁, hx⟩ | ⟨e, s₁, hx⟩ := outcome x s
  · rw [mapError, hx]
    constructor
    · intro h
      cases h
    · rintro ⟨_, h, _⟩
      cases h
  · rw [mapError, hx]
    constructor
    · intro h
      cases h
      exact ⟨e, rfl, rfl⟩
    · rintro ⟨_, h, rfl⟩
      cases h
      rfl

theorem mapError_of_error {f : ε → ε'} {x : Effect σ ε α} {s s' : σ} {e : ε} (h : x s = (.error e, s')) :
    mapError f x s = (.error (f e), s') := mapError_error.mpr ⟨e, h, rfl⟩

theorem fst_mem_of_zipIdx_eq {l : List α} {done rest : List (α × Nat)} {a : α × Nat}
    (h : l.zipIdx = done ++ a :: rest) : a.1 ∈ l := by
  apply List.fst_mem_of_mem_zipIdx
  rw [h]
  exact List.mem_append_right _ List.mem_cons_self

theorem each_ok {f : α → Effect σ ε Unit} {I : List α → σ → Prop} {l : List α} {s s' : σ}
    (h : each f l s = (.ok (), s')) (hstart : I [] s)
    (hstep : ∀ done a rest s s', l = done ++ a :: rest → I done s → f a s = (.ok (), s') →
      I (done ++ [a]) s') : I l s' := by
  suffices haux : ∀ rest done s, l = done ++ rest → I done s → each f rest s = (.ok (), s') → I l s' from
    haux l [] s rfl hstart h
  intro rest
  induction rest with
  | nil =>
    intro done s hl hdone h
    cases h
    rw [hl, List.append_nil]
    exact hdone
  | cons a rest ih =>
    intro done s hl hdone h
    obtain ⟨⟨⟩, s₁, ha, hrest⟩ := bind_ok.mp h
    apply ih (done ++ [a]) s₁
    · rw [hl, List.append_assoc, List.singleton_append]
    · exact hstep done a rest s s₁ hl hdone ha
    · exact hrest

theorem each_total {f : α → Effect σ ε Unit} {I : σ → Prop} {l : List α}
    (hstep : ∀ a ∈ l, ∀ s, I s → ∃ s', f a s = (.ok (), s') ∧ I s') {s : σ} (hs : I s) :
    ∃ s', each f l s = (.ok (), s') ∧ I s' := by
  induction l generalizing s with
  | nil => exact ⟨s, rfl, hs⟩
  | cons a rest ih =>
    rw [List.forall_mem_cons] at hstep
    obtain ⟨s₁, ha, hs₁⟩ := hstep.1 s hs
    obtain ⟨s', hrest, hs'⟩ := ih hstep.2 hs₁
    exact ⟨s', (bind_of_ok ha).trans hrest, hs'⟩

end Outcome

def Returns (Q : α → Prop) (x : Effect σ ε α) : Prop := ∀ s a s', x s = (.ok a, s') → Q a

section Returns

variable {P : α → Prop} {Q : β → Prop}

theorem returns_pure {a : α} (h : P a) : Returns P (pure a : Effect σ ε α) := by
  intro s b s' hb
  cases hb
  exact h

theorem returns_read {x : σ → Except ε α} (h : ∀ s a, x s = .ok a → P a) : Returns P (read x) :=
  fun s a _ hx => h s a (read_ok.mp hx).1

theorem Returns.bind {x : Effect σ ε α} {f : α → Effect σ ε β} (hx : Returns P x)
    (hf : ∀ a, P a → Returns Q (f a)) : Returns Q (x >>= f) := by
  intro s b s' h
  obtain ⟨a, s₁, ha, hb⟩ := bind_ok.mp h
  exact hf a (hx s a s₁ ha) s₁ b s' hb

theorem returns_collect {R : α → β → Prop} {f : α → Effect σ ε β} {l : List α}
    (h : ∀ a ∈ l, Returns (R a) (f a)) : Returns (List.Forall₂ R l) (collect f l) := by
  induction l with
  | nil => exact returns_pure List.Forall₂.nil
  | cons a rest ih =>
    rw [List.forall_mem_cons] at h
    exact h.1.bind fun b hb => (ih h.2).bind fun bs hbs => returns_pure (hbs.cons hb)

end Returns

def Fails (Q : ε → Prop) (x : Effect σ ε α) : Prop := ∀ s e s', x s = (.error e, s') → Q e

theorem fails_read {Q : ε → Prop} {x : σ → Except ε α} (h : ∀ s e, x s = .error e → Q e) : Fails Q (read x) := by
  intro s e s' hx
  exact h s e (congrArg Prod.fst hx)

theorem Fails.bind {Q : ε → Prop} {x : Effect σ ε α} {f : α → Effect σ ε β} (hx : Fails Q x)
    (hf : ∀ a, Fails Q (f a)) : Fails Q (x >>= f) := by
  intro s e s' h
  obtain h | ⟨a, s₁, _, h⟩ := bind_error.mp h
  · exact hx s e s' h
  · exact hf a s₁ e s' h

theorem fails_each {Q : ε → Prop} {f : α → Effect σ ε Unit} {l : List α} (h : ∀ a ∈ l, Fails Q (f a)) :
    Fails Q (each f l) := by
  induction l with
  | nil =>
    intro s e s' h
    cases h
  | cons a rest ih =>
    rw [List.forall_mem_cons] at h
    exact h.1.bind fun _ => ih h.2

theorem fails_mapError {f : ε → ε'} {x : Effect σ ε α} : Fails (fun e' => ∃ e, e' = f e) (mapError f x) := by
  intro s e' s' h
  obtain ⟨e, _, he⟩ := mapError_error.mp h
  exact ⟨e, he⟩

/-- Whatever it returns, the computation only moves the state along `R`. -/
def Keeps (R : σ → σ → Prop) (x : Effect σ ε α) : Prop := ∀ s, R s (x s).2

section Keeps

variable {R : σ → σ → Prop}

theorem keeps_pure [Std.Refl R] (a : α) : Keeps R (pure a : Effect σ ε α) := fun s => refl_of R s

theorem keeps_fail [Std.Refl R] (e : ε) : Keeps R (fail e : Effect σ ε α) := fun s => refl_of R s

theorem keeps_read [Std.Refl R] (x : σ → Except ε α) : Keeps R (read x) := fun s => refl_of R s

theorem keeps_modify {f : σ → σ} (h : ∀ s, R s (f s)) : Keeps R (modify f : Effect σ ε Unit) := h

theorem Keeps.mapError {x : Effect σ ε α} (h : Keeps R x) (f : ε → ε') : Keeps R (x.mapError f) := h

theorem Keeps.bindWith [IsTrans σ R] {P : α → Prop} {x : Effect σ ε α} {f : α → Effect σ ε β}
    (hx : Keeps R x) (hp : Returns P x) (hf : ∀ a, P a → Keeps R (f a)) : Keeps R (x >>= f) := by
  intro s
  have h := hx s
  obtain ⟨a, s₁, hs⟩ | ⟨e, s₁, hs⟩ := outcome x s
  · rw [bind_of_ok hs]
    rw [hs] at h
    exact trans_of R h (hf a (hp s a s₁ hs) s₁)
  · rw [bind_of_error hs]
    rw [hs] at h
    exact h

theorem Keeps.bind [IsTrans σ R] {x : Effect σ ε α} {f : α → Effect σ ε β} (hx : Keeps R x)
    (hf : ∀ a, Keeps R (f a)) : Keeps R (x >>= f) :=
  hx.bindWith (fun _ _ _ _ => trivial) fun a _ => hf a

theorem keeps_ite {c : Prop} [Decidable c] {x y : Effect σ ε α} (hx : Keeps R x) (hy : Keeps R y) :
    Keeps R (if c then x else y) := by
  split
  · exact hx
  · exact hy

theorem keeps_each [Std.Refl R] [IsTrans σ R] {f : α → Effect σ ε Unit} {l : List α}
    (h : ∀ a ∈ l, Keeps R (f a)) : Keeps R (each f l) := by
  induction l with
  | nil => exact keeps_pure ()
  | cons a rest ih =>
    rw [List.forall_mem_cons] at h
    exact h.1.bind fun _ => ih h.2

theorem keeps_collect [Std.Refl R] [IsTrans σ R] {f : α → Effect σ ε β} {l : List α}
    (h : ∀ a ∈ l, Keeps R (f a)) : Keeps R (collect f l) := by
  induction l with
  | nil => exact keeps_pure []
  | cons a rest ih =>
    rw [List.forall_mem_cons] at h
    exact h.1.bind fun b => (ih h.2).bind fun bs => keeps_pure (b :: bs)

end Keeps

end Effect

end Cosmon.Lib.Effects
