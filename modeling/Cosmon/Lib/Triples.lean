import Cosmon.Lib.Effects

namespace Cosmon.Lib.Effects.Effect

variable {σ ε α β : Type}

/-- From a state with `P` the computation returns as `Q` says, or fails in a state
with `E`. -/
structure Triple (P : σ → Prop) (x : Effect σ ε α) (Q : α → σ → Prop) (E : σ → Prop) : Prop where
  returns : ∀ s a s', P s → x s = (.ok a, s') → Q a s'
  fails : ∀ s e s', P s → x s = (.error e, s') → E s'

section Rules

variable {P P' : σ → Prop} {Q Q' : α → σ → Prop} {R : β → σ → Prop} {E : σ → Prop} {x : Effect σ ε α}

theorem Triple.pre (h : Triple P x Q E) (hP : ∀ s, P' s → P s) : Triple P' x Q E :=
  ⟨fun s a s' hs => h.returns s a s' (hP s hs), fun s e s' hs => h.fails s e s' (hP s hs)⟩

theorem Triple.post (h : Triple P x Q E) (hQ : ∀ a s, Q a s → Q' a s) : Triple P x Q' E :=
  ⟨fun s a s' hs hx => hQ a s' (h.returns s a s' hs hx), h.fails⟩

theorem Triple.ends {I : σ → Prop} (h : Triple P x Q E) (hQ : ∀ a s, Q a s → I s) (hE : ∀ s, E s → I s) {s : σ}
    (hs : P s) : I (x s).2 := by
  obtain ⟨a, s', hx⟩ | ⟨e, s', hx⟩ := outcome x s
  · rw [hx]
    exact hQ a s' (h.returns s a s' hs hx)
  · rw [hx]
    exact hE s' (h.fails s e s' hs hx)

theorem triple_pure {a : α} (h : ∀ s, P s → Q a s) : Triple P (pure a : Effect σ ε α) Q E := by
  constructor
  · intro s b s' hs hx
    cases hx
    exact h s hs
  · intro s e s' hs hx
    cases hx

theorem triple_fail {e : ε} (h : ∀ s, P s → E s) : Triple P (fail e : Effect σ ε α) Q E := by
  constructor
  · intro s a s' hs hx
    cases hx
  · intro s e' s' hs hx
    cases hx
    exact h s hs

theorem triple_modify {f : σ → σ} {Q : Unit → σ → Prop} (h : ∀ s, P s → Q () (f s)) :
    Triple P (modify f : Effect σ ε Unit) Q E := by
  constructor
  · intro s a s' hs hx
    cases hx
    exact h s hs
  · intro s e s' hs hx
    cases hx

theorem triple_read {r : σ → Except ε α} (hok : ∀ s a, P s → r s = .ok a → Q a s)
    (herror : ∀ s e, P s → r s = .error e → E s) : Triple P (read r) Q E := by
  constructor
  · intro s a s' hs hx
    obtain ⟨ha, rfl⟩ := read_ok.mp hx
    exact hok _ a hs ha
  · intro s e s' hs hx
    obtain ⟨he, rfl⟩ := Prod.ext_iff.mp hx
    exact herror _ e hs he

theorem triple_get : Triple P (read .ok : Effect σ ε σ) (fun a s => a = s ∧ P s) E := by
  refine triple_read ?_ ?_
  · rintro s a hs ha
    exact ⟨(Except.ok.inj ha).symm, hs⟩
  · rintro s e - he
    cases he

theorem Triple.bind {f : α → Effect σ ε β} (hx : Triple P x Q E) (hf : ∀ a, Triple (Q a) (f a) R E) :
    Triple P (x >>= f) R E := by
  constructor
  · intro s b s' hs h
    obtain ⟨a, s₁, ha, hb⟩ := bind_ok.mp h
    exact (hf a).returns s₁ b s' (hx.returns s a s₁ hs ha) hb
  · intro s e s' hs h
    obtain h | ⟨a, s₁, ha, hb⟩ := bind_error.mp h
    · exact hx.fails s e s' hs h
    · exact (hf a).fails s₁ e s' (hx.returns s a s₁ hs ha) hb

/-- What moves the state along `R` keeps whatever `R` keeps. -/
theorem Keeps.triple {T : σ → σ → Prop} (h : Keeps T x) (hP : ∀ s s', T s s' → P s → P' s') :
    Triple P x (fun _ => P') P' := by
  constructor
  · intro s a s' hs hx
    have hT := h s
    rw [hx] at hT
    exact hP s s' hT hs
  · intro s e s' hs hx
    have hT := h s
    rw [hx] at hT
    exact hP s s' hT hs

theorem Triple.fault {E' : σ → Prop} (h : Triple P x Q E) (hE : ∀ s, E s → E' s) : Triple P x Q E' :=
  ⟨h.returns, fun s e s' hs hx => hE s' (h.fails s e s' hs hx)⟩

theorem triple_ite {c : Prop} [Decidable c] {y : Effect σ ε α} (hx : Triple P x Q E) (hy : Triple P y Q E) :
    Triple P (if c then x else y) Q E := by
  split
  · exact hx
  · exact hy

theorem Triple.given {c : Prop} (h : c → Triple P x Q E) : Triple (fun s => c ∧ P s) x Q E :=
  ⟨fun s a s' hs => (h hs.1).returns s a s' hs.2, fun s e s' hs => (h hs.1).fails s e s' hs.2⟩

theorem triple_each {f : α → Effect σ ε Unit} {l : List α} {I : σ → Prop}
    (h : ∀ a ∈ l, Triple I (f a) (fun _ => I) E) : Triple I (each f l) (fun _ => I) E := by
  induction l with
  | nil => exact triple_pure fun s hs => hs
  | cons a rest ih =>
    rw [List.forall_mem_cons] at h
    exact h.1.bind fun _ => ih h.2

end Rules

end Cosmon.Lib.Effects.Effect
