import Muduo.Library.Run

/-! Two fallible computations side by side: both return, with related results, or both
fail, with related faults. -/

namespace Muduo.Library

variable {ε δ : Type} {α β γ κ : Type}

inductive Agree (R : α → β → Prop) (Q : ε → δ → Prop) : Except ε α → Except δ β → Prop
  | ok {a : α} {b : β} (h : R a b) : Agree R Q (.ok a) (.ok b)
  | error {e : ε} {d : δ} (h : Q e d) : Agree R Q (.error e) (.error d)

section

variable {R : α → β → Prop} {Q : ε → δ → Prop} {S : γ → κ → Prop}

@[simp] theorem agree_ok {a : α} {b : β} :
    Agree R Q (.ok a) (.ok b) ↔ R a b := ⟨fun | .ok h => h, .ok⟩

instance Agree.decidable [∀ a b, Decidable (R a b)] [∀ e d, Decidable (Q e d)] :
    ∀ (x : Except ε α) (y : Except δ β), Decidable (Agree R Q x y)
  | .ok a, .ok b => decidable_of_iff (R a b) agree_ok.symm
  | .error e, .error d => decidable_of_iff (Q e d) ⟨.error, fun | .error h => h⟩
  | .ok _, .error _ => .isFalse fun h => by cases h
  | .error _, .ok _ => .isFalse fun h => by cases h

theorem Agree.mono {R' : α → β → Prop} {x : Except ε α} {y : Except δ β} (h : Agree R Q x y)
    (hR : ∀ a b, R a b → R' a b) : Agree R' Q x y := by
  cases h with
  | ok h => exact .ok (hR _ _ h)
  | error h => exact .error h

/-- What comes after related results has to agree in its turn. -/
theorem Agree.bind {x : Except ε α} {y : Except δ β} {f : α → Except ε γ} {g : β → Except δ κ}
    (h : Agree R Q x y) (hfg : ∀ a b, R a b → Agree S Q (f a) (g b)) :
    Agree S Q (x >>= f) (y >>= g) := by
  cases h with
  | ok h => exact hfg _ _ h
  | error h => exact .error h

end

variable {σ τ ℓ : Type} {step : σ → ℓ → Except ε σ} {step' : τ → ℓ → Except δ τ}
  {Legal : σ → ℓ → Prop} {R : σ → τ → Prop} {Q : ε → δ → Prop}

/-- Two systems that agree on every step agree on every run. -/
theorem run_agree (hstep : ∀ s t l, R s t → Legal s l → Agree R Q (step s l) (step' t l))
    {s : σ} {t : τ} {ls : List ℓ} (h : R s t) (hl : LegalRun step Legal s ls) :
    Agree R Q (run step s ls) (run step' t ls) := by
  induction ls generalizing s t with
  | nil => exact .ok h
  | cons l ls ih =>
      have hout := hstep s t l h hl.1
      cases hs : step s l with
      | ok s' =>
          cases ht : step' t l with
          | ok t' =>
              rw [hs, ht, agree_ok] at hout
              rw [run_cons_of_ok hs, run_cons_of_ok ht]
              exact ih hout (hl.2 s' hs)
          | error d =>
              rw [hs, ht] at hout
              cases hout
      | error e =>
          cases ht : step' t l with
          | ok t' =>
              rw [hs, ht] at hout
              cases hout
          | error d =>
              rw [hs, ht] at hout
              rw [run_cons_of_error hs, run_cons_of_error ht]
              cases hout with
              | error hq => exact .error hq

end Muduo.Library
