import Mathlib.Data.List.Basic
import Mathlib.Data.Int.Notation

/-! Runs of a fallible step function, and the rules that lift a fact about one
step to every run. A fault stops the run, as a failed `assert` does. -/

namespace Muduo.Library

universe u v w

/-- The guard of an assertion: execution goes on exactly when `p` holds. -/
def ensure {ε : Type u} (p : Prop) [Decidable p] (fault : ε) : Except ε Unit :=
  if p then .ok () else .error fault

@[simp] theorem ensure_of {ε : Type u} {p : Prop} [Decidable p] (fault : ε) (h : p) :
    ensure p fault = .ok () := if_pos h

@[simp] theorem ensure_of_not {ε : Type u} {p : Prop} [Decidable p] (fault : ε) (h : ¬ p) :
    ensure p fault = .error fault := if_neg h

@[simp] theorem ok_bind {ε : Type u} {α β : Type v} (a : α) (f : α → Except ε β) :
    ((.ok a : Except ε α) >>= f) = f a := rfl

@[simp] theorem error_bind {ε : Type u} {α β : Type v} (e : ε) (f : α → Except ε β) :
    ((.error e : Except ε α) >>= f) = .error e := rfl

theorem not_exists_error_eq_ok {ε : Type u} {α : Type v} {e : ε} :
    ¬ ∃ a : α, (.error e : Except ε α) = .ok a := by
  rintro ⟨a, h⟩
  cases h

/-- A sequence succeeds if both its parts do. -/
theorem of_bind {ε : Type u} {α β : Type v} {x : Except ε α} {f : α → Except ε β} {r : β}
    (h : (x >>= f) = .ok r) : ∃ a, x = .ok a ∧ f a = .ok r := by
  cases x with
  | error e => cases h
  | ok a => exact ⟨a, rfl, h⟩

theorem of_mapError {ε ε' : Type u} {α : Type v} {x : Except ε α} {g : ε → ε'} {a : α}
    (h : x.mapError g = .ok a) : x = .ok a := by
  cases x with
  | error e => cases h
  | ok b => exact congrArg Except.ok (Except.ok.inj h)

/-- Execution has come past an assertion. -/
theorem of_ensure_bind {ε : Type u} {β : Type} {p : Prop} [Decidable p] {fault : ε}
    {f : Unit → Except ε β} {r : β} (h : (ensure p fault >>= f) = .ok r) : p ∧ f () = .ok r := by
  by_cases hp : p
  · rw [ensure_of fault hp] at h
    exact ⟨hp, h⟩
  · rw [ensure_of_not fault hp] at h
    cases h

theorem ensure_pure_eq_ok {ε : Type u} {α : Type} {p : Prop} [Decidable p] {fault : ε} {a b : α} :
    (ensure p fault >>= fun _ => pure a) = .ok b ↔ p ∧ a = b := by
  constructor
  · intro h
    obtain ⟨hp, h⟩ := of_ensure_bind h
    exact ⟨hp, Except.ok.inj h⟩
  · rintro ⟨hp, rfl⟩
    rw [ensure_of fault hp]
    rfl

variable {σ : Type u} {ℓ : Type v} {ε : Type w} {τ : Type*}

instance decidableReturns (p : σ → Prop) [DecidablePred p] :
    ∀ x : Except ε σ, Decidable (∃ s, x = .ok s ∧ p s)
  | .ok s => decidable_of_iff (p s) (by simp)
  | .error _ => .isFalse (by simp)

/-- The result satisfies `p`, or the fault satisfies `q`. -/
inductive Outcome (p : σ → Prop) (q : ε → Prop) : Except ε σ → Prop
  | ok {s : σ} (h : p s) : Outcome p q (.ok s)
  | error {e : ε} (h : q e) : Outcome p q (.error e)

@[simp] theorem outcome_ok {p : σ → Prop} {q : ε → Prop} {s : σ} :
    Outcome p q (.ok s) ↔ p s := ⟨fun | .ok h => h, .ok⟩

@[simp] theorem outcome_error {p : σ → Prop} {q : ε → Prop} {e : ε} :
    Outcome p q (.error e) ↔ q e := ⟨fun | .error h => h, .error⟩

instance (p : σ → Prop) (q : ε → Prop) [DecidablePred p] [DecidablePred q] :
    ∀ x : Except ε σ, Decidable (Outcome p q x)
  | .ok s => decidable_of_iff (p s) outcome_ok.symm
  | .error e => decidable_of_iff (q e) outcome_error.symm

theorem Outcome.imp {p p' : σ → Prop} {q q' : ε → Prop} {x : Except ε σ} (h : Outcome p q x)
    (hp : ∀ s, p s → p' s) (hq : ∀ e, q e → q' e) : Outcome p' q' x := by
  cases h with
  | ok h => exact .ok (hp _ h)
  | error h => exact .error (hq _ h)

theorem Outcome.mono {p p' : σ → Prop} {q : ε → Prop} {x : Except ε σ} (h : Outcome p q x)
    (hp : ∀ s, p s → p' s) : Outcome p' q x := h.imp hp fun _ => id

theorem Outcome.bind {α β : Type v} {p : α → Prop} {p' : β → Prop} {q : ε → Prop}
    {x : Except ε α} {f : α → Except ε β} (h : Outcome p q x)
    (hf : ∀ a, p a → Outcome p' q (f a)) : Outcome p' q (x >>= f) := by
  cases h with
  | ok h => exact hf _ h
  | error h => exact .error h

theorem Outcome.of_eq_ok {p : σ → Prop} {q : ε → Prop} {x : Except ε σ} {s : σ}
    (h : Outcome p q x) (hx : x = .ok s) : p s := by
  rw [hx, outcome_ok] at h
  exact h

theorem Outcome.of_eq_error {p : σ → Prop} {q : ε → Prop} {x : Except ε σ} {e : ε}
    (h : Outcome p q x) (hx : x = .error e) : q e := by
  rw [hx, outcome_error] at h
  exact h

theorem Outcome.exists_ok {p : σ → Prop} {q : ε → Prop} {x : Except ε σ} (h : Outcome p q x)
    (hq : ∀ e, ¬ q e) : ∃ s, x = .ok s ∧ p s := by
  cases h with
  | ok h => exact ⟨_, rfl, h⟩
  | error h => exact absurd h (hq _)

theorem outcome_false_iff {p : σ → Prop} {x : Except ε σ} :
    Outcome p (fun _ => False) x ↔ ∃ s, x = .ok s ∧ p s := by
  refine ⟨fun h => h.exists_ok fun _ => id, ?_⟩
  rintro ⟨s, rfl, h⟩
  exact .ok h

theorem eq_error_of_outcome {e : ε} {x : Except ε σ}
    (h : Outcome (fun _ => False) (fun e' => e' = e) x) : x = .error e := by
  cases h with
  | ok h => exact h.elim
  | error h => exact congrArg Except.error h

/-- Executing the labels one after another; the first fault ends the run. -/
def run (step : σ → ℓ → Except ε σ) : σ → List ℓ → Except ε σ
  | s, [] => .ok s
  | s, l :: ls =>
      match step s l with
      | .ok s' => run step s' ls
      | .error e => .error e

/-- Every label of the run is legal in the state in which it is executed. -/
def LegalRun (step : σ → ℓ → Except ε σ) (Legal : σ → ℓ → Prop) : σ → List ℓ → Prop
  | _, [] => True
  | s, l :: ls => Legal s l ∧ ∀ s', step s l = .ok s' → LegalRun step Legal s' ls

instance LegalRun.decidable (step : σ → ℓ → Except ε σ) (Legal : σ → ℓ → Prop)
    [∀ s l, Decidable (Legal s l)] : ∀ (s : σ) (ls : List ℓ), Decidable (LegalRun step Legal s ls)
  | _, [] => .isTrue trivial
  | s, l :: ls =>
      match h : step s l with
      | .error _ => decidable_of_iff (Legal s l) (by simp [LegalRun, h])
      | .ok s' =>
          have := LegalRun.decidable step Legal s' ls
          decidable_of_iff (Legal s l ∧ LegalRun step Legal s' ls) (by simp [LegalRun, h])

section Rules

variable {step : σ → ℓ → Except ε σ} {Legal : σ → ℓ → Prop}

/-- Labels that are legal in every state. -/
theorem LegalRun.of_forall {s : σ} {ls : List ℓ} (h : ∀ l ∈ ls, ∀ s, Legal s l) :
    LegalRun step Legal s ls := by
  induction ls generalizing s with
  | nil => trivial
  | cons l ls ih =>
      exact ⟨h l List.mem_cons_self s, fun _ _ => ih fun l hl => h l (List.mem_cons_of_mem _ hl)⟩

/-- A legal run whose labels all satisfy `p`. -/
theorem LegalRun.restrict {p : ℓ → Prop} {s : σ} {ls : List ℓ} (h : LegalRun step Legal s ls)
    (hp : ∀ l ∈ ls, p l) : LegalRun step (fun s l => Legal s l ∧ p l) s ls := by
  induction ls generalizing s with
  | nil => trivial
  | cons l ls ih =>
      refine ⟨⟨h.1, hp l List.mem_cons_self⟩, fun s' hs' => ?_⟩
      exact ih (h.2 s' hs') fun l hl => hp l (List.mem_cons_of_mem _ hl)

@[simp] theorem run_nil (s : σ) : run step s [] = .ok s := rfl

theorem run_cons_of_ok {s s' : σ} {l : ℓ} (h : step s l = .ok s') (ls : List ℓ) :
    run step s (l :: ls) = run step s' ls := by
  simp [run, h]

theorem run_cons_of_error {s : σ} {l : ℓ} {e : ε} (h : step s l = .error e) (ls : List ℓ) :
    run step s (l :: ls) = .error e := by
  simp [run, h]

theorem run_singleton (s : σ) (l : ℓ) : run step s [l] = step s l := by
  cases hs : step s l with
  | ok t => rw [run_cons_of_ok hs, run_nil]
  | error e => rw [run_cons_of_error hs]

theorem run_append_of_ok {s s' : σ} {xs : List ℓ} (h : run step s xs = .ok s') (ys : List ℓ) :
    run step s (xs ++ ys) = run step s' ys := by
  induction xs generalizing s with
  | nil =>
      cases h
      rfl
  | cons l ls ih =>
      cases hs : step s l with
      | error e =>
          rw [run_cons_of_error hs] at h
          cases h
      | ok t =>
          rw [run_cons_of_ok hs] at h
          rw [List.cons_append, run_cons_of_ok hs]
          exact ih h

/-- The two parts of a legal run. -/
theorem LegalRun.of_append {s : σ} {xs ys : List ℓ} (h : LegalRun step Legal s (xs ++ ys)) :
    LegalRun step Legal s xs ∧ ∀ s', run step s xs = .ok s' → LegalRun step Legal s' ys := by
  induction xs generalizing s with
  | nil =>
      refine ⟨trivial, fun s' hs' => ?_⟩
      cases hs'
      exact h
  | cons l ls ih =>
      refine ⟨⟨h.1, fun t ht => (ih (h.2 t ht)).1⟩, fun s' hs' => ?_⟩
      cases hs : step s l with
      | error e =>
          rw [run_cons_of_error hs] at hs'
          cases hs'
      | ok t =>
          rw [run_cons_of_ok hs] at hs'
          exact (ih (h.2 t hs)).2 s' hs'

variable (step Legal) in
/-- A legal run from `s` to `s'`. -/
structure Path (s : σ) (ls : List ℓ) (s' : σ) : Prop where
  legal : LegalRun step Legal s ls
  ends : run step s ls = .ok s'

theorem Path.nil (s : σ) : Path step Legal s [] s := ⟨trivial, rfl⟩

theorem Path.cons {s t s' : σ} {l : ℓ} {ls : List ℓ} (hlegal : Legal s l) (hs : step s l = .ok t)
    (hrest : Path step Legal t ls s') : Path step Legal s (l :: ls) s' := by
  refine ⟨⟨hlegal, fun u hu => ?_⟩, by rw [run_cons_of_ok hs, hrest.ends]⟩
  obtain rfl : t = u := Except.ok.inj (hs.symm.trans hu)
  exact hrest.legal

/-- Simulation rule. If every legal step of the concrete system succeeds and stays
related to the abstract step on the same label, so does every legal run. -/
theorem run_simulates {R : σ → τ → Prop} {astep : τ → ℓ → τ}
    (hstep : ∀ s a l, R s a → Legal s l → ∃ s', step s l = .ok s' ∧ R s' (astep a l))
    {s : σ} {a : τ} {ls : List ℓ} (hr : R s a) (hl : LegalRun step Legal s ls) :
    ∃ s', run step s ls = .ok s' ∧ R s' (ls.foldl astep a) := by
  induction ls generalizing s a with
  | nil => exact ⟨s, rfl, hr⟩
  | cons l ls ih =>
      obtain ⟨s', hs, hr'⟩ := hstep s a l hr hl.1
      obtain ⟨t, ht, hrt⟩ := ih hr' (hl.2 s' hs)
      exact ⟨t, by rw [run_cons_of_ok hs, ht], hrt⟩

/-- Invariant rule: a property that every legal step keeps, and under which no
legal step faults, holds after every legal run, which does not fault either. -/
theorem run_invariant {Inv : σ → Prop}
    (hstep : ∀ s l, Inv s → Legal s l → ∃ s', step s l = .ok s' ∧ Inv s')
    {s : σ} {ls : List ℓ} (hi : Inv s) (hl : LegalRun step Legal s ls) :
    ∃ s', run step s ls = .ok s' ∧ Inv s' := by
  induction ls generalizing s with
  | nil => exact ⟨s, rfl, hi⟩
  | cons l ls ih =>
      obtain ⟨s', hs, hi'⟩ := hstep s l hi hl.1
      rw [run_cons_of_ok hs]
      exact ih hi' (hl.2 s' hs)

/-- The rule for systems whose runs may end in some of the faults. -/
theorem run_outcome {Inv : σ → Prop} {Allowed : ε → Prop}
    (hstep : ∀ s l, Inv s → Legal s l → Outcome Inv Allowed (step s l))
    {s : σ} {ls : List ℓ} (hi : Inv s) (hl : LegalRun step Legal s ls) :
    Outcome Inv Allowed (run step s ls) := by
  induction ls generalizing s with
  | nil => exact .ok hi
  | cons l ls ih =>
      have hout := hstep s l hi hl.1
      cases hs : step s l with
      | ok s' =>
          rw [run_cons_of_ok hs]
          exact ih (hout.of_eq_ok hs) (hl.2 s' hs)
      | error e =>
          rw [run_cons_of_error hs]
          exact .error (hout.of_eq_error hs)

/-- Exactness rule for systems whose runs may end in some of the faults. If, in the states that
satisfy `Inv`, a legal step ends in a good state or an allowed fault exactly when it meets `Cond`,
and a good state it ends in satisfies `Inv`, then a legal run stays good until its end or an
allowed fault exactly when all its steps meet `Cond`. -/
theorem run_outcome_iff {Inv Good : σ → Prop} {Allowed : ε → Prop} {Cond : σ → ℓ → Prop}
    (hgood : ∀ s, Inv s → Good s)
    (hstep : ∀ s l, Inv s → Legal s l → (Outcome Good Allowed (step s l) ↔ Cond s l) ∧
      ∀ s', step s l = .ok s' → Good s' → Inv s')
    {s : σ} {ls : List ℓ} (hi : Inv s) (hl : LegalRun step Legal s ls) :
    (∀ xs, xs <+: ls → Outcome Good Allowed (run step s xs)) ↔ LegalRun step Cond s ls := by
  induction ls generalizing s with
  | nil =>
      refine ⟨fun _ => trivial, fun _ xs hxs => ?_⟩
      rw [List.prefix_nil.mp hxs, run_nil]
      exact .ok (hgood s hi)
  | cons l ls ih =>
      obtain ⟨hiff, hkeep⟩ := hstep s l hi hl.1
      constructor
      · intro hall
        have hfirst := hall [l] ⟨ls, rfl⟩
        rw [run_singleton] at hfirst
        refine ⟨hiff.mp hfirst, fun t ht => ?_⟩
        refine (ih (hkeep t ht (hfirst.of_eq_ok ht)) (hl.2 t ht)).mp fun xs hxs => ?_
        rw [← run_cons_of_ok ht]
        exact hall (l :: xs) (List.cons_prefix_cons.mpr ⟨rfl, hxs⟩)
      · rintro ⟨hcond, hconds⟩ xs hxs
        have hfirst := hiff.mpr hcond
        cases xs with
        | nil => exact .ok (hgood s hi)
        | cons x xs =>
            obtain ⟨rfl, htail⟩ := List.cons_prefix_cons.mp hxs
            cases hs : step s x with
            | error e =>
                rw [run_cons_of_error hs]
                exact .error (hfirst.of_eq_error hs)
            | ok t =>
                rw [run_cons_of_ok hs]
                exact (ih (hkeep t hs (hfirst.of_eq_ok hs)) (hl.2 t hs)).mpr (hconds t hs) xs htail

/-- The rule for runs that may not fault at all. -/
theorem run_safe_iff {Inv Good : σ → Prop} {Cond : σ → ℓ → Prop} (hgood : ∀ s, Inv s → Good s)
    (hstep : ∀ s l, Inv s → Legal s l →
      ((∃ s', step s l = .ok s' ∧ Good s') ↔ Cond s l) ∧
        ∀ s', step s l = .ok s' → Good s' → Inv s')
    {s : σ} {ls : List ℓ} (hi : Inv s) (hl : LegalRun step Legal s ls) :
    (∀ xs, xs <+: ls → ∃ t, run step s xs = .ok t ∧ Good t) ↔ LegalRun step Cond s ls := by
  simp only [← outcome_false_iff] at hstep ⊢
  exact run_outcome_iff hgood hstep hi hl

/-- Exactness rule. If, in the states that satisfy `Inv`, a legal step keeps `Good`
exactly when it meets `Cond`, then a legal run stays in `Good` exactly when all its
steps meet `Cond`. -/
theorem run_good_iff {Inv Good : σ → Prop} {Cond : σ → ℓ → Prop}
    (hstep : ∀ s l, Inv s → Legal s l →
      ∃ s', step s l = .ok s' ∧ Inv s' ∧ (Good s → (Good s' ↔ Cond s l)))
    {s : σ} {ls : List ℓ} (hi : Inv s) (hg : Good s) (hl : LegalRun step Legal s ls) :
    (∀ xs, xs <+: ls → ∃ t, run step s xs = .ok t ∧ Good t) ↔ LegalRun step Cond s ls := by
  refine run_safe_iff (fun s (h : Inv s ∧ Good s) => h.2) (fun s l h hlegal => ?_) ⟨hi, hg⟩ hl
  obtain ⟨s', hs, hi', hiff⟩ := hstep s l h.1 hlegal
  refine ⟨⟨?_, fun hcond => ⟨s', hs, (hiff h.2).mpr hcond⟩⟩, fun t ht hgood => ?_⟩
  · rintro ⟨t, ht, hgood⟩
    obtain rfl : s' = t := Except.ok.inj (hs.symm.trans ht)
    exact (hiff h.2).mp hgood
  · obtain rfl : s' = t := Except.ok.inj (hs.symm.trans ht)
    exact ⟨hi', hgood⟩

end Rules

end Muduo.Library
