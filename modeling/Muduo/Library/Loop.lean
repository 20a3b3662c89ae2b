import Mathlib.Data.List.Basic

/-! Loops each round of which asks the environment for an answer, loops that ask for nothing, and
the rules for their invariants. -/

namespace Muduo.Library

universe u v w

variable {σ : Type u} {α : Type v} {ε : Type w}

/-- While `cond` holds, a round is executed with the next answer. Without one the loop does not
come to its end. -/
def loop (cond : σ → Prop) [DecidablePred cond] (body : σ → α → Except ε σ) (pending : ε) :
    σ → List α → Except ε σ
  | s, [] => if cond s then .error pending else .ok s
  | s, a :: as =>
      if cond s then
        match body s a with
        | .ok s' => loop cond body pending s' as
        | .error e => .error e
      else .ok s

/-- The answers are lawful, and enough for the loop. -/
def Driven (cond : σ → Prop) (body : σ → α → Except ε σ) (Lawful : σ → α → Prop) :
    σ → List α → Prop
  | s, [] => ¬ cond s
  | s, a :: as => cond s → Lawful s a ∧ ∀ s', body s a = .ok s' → Driven cond body Lawful s' as

/-- What every lawful round keeps holds at the end of the loop. -/
theorem loop_rule {cond : σ → Prop} [DecidablePred cond] {body : σ → α → Except ε σ}
    (pending : ε) {Lawful : σ → α → Prop} {Inv : σ → Prop}
    (hbody : ∀ s a, Inv s → cond s → Lawful s a → ∃ s', body s a = .ok s' ∧ Inv s') {s : σ}
    {as : List α} (hinv : Inv s) (hdriven : Driven cond body Lawful s as) :
    ∃ s', loop cond body pending s as = .ok s' ∧ Inv s' ∧ ¬ cond s' := by
  induction as generalizing s with
  | nil => exact ⟨s, if_neg hdriven, hinv, hdriven⟩
  | cons a as ih =>
      by_cases hcond : cond s
      · obtain ⟨hlawful, hrest⟩ := hdriven hcond
        obtain ⟨t, ht, hinv⟩ := hbody s a hinv hcond hlawful
        obtain ⟨s', hs', hend⟩ := ih hinv (hrest t ht)
        exact ⟨s', by rw [loop, if_pos hcond, ht]; exact hs', hend⟩
      · exact ⟨s, if_neg hcond, hinv, hcond⟩

/-! ### Loops that ask for nothing -/

/-- A loop that is given up after a number of rounds. -/
def boundedLoop (cond : σ → Prop) [DecidablePred cond] (body : σ → Except ε σ) (pending : ε)
    (rounds : ℕ) (s : σ) : Except ε σ :=
  loop cond (fun s (_ : Unit) => body s) pending s (List.replicate rounds ())

/-- The rounds suffice if each of them makes a measure smaller. -/
theorem driven_of_measure {cond : σ → Prop} {body : σ → Except ε σ} {Inv : σ → Prop}
    (measure : σ → ℕ)
    (hbody : ∀ s, Inv s → cond s → ∃ s', body s = .ok s' ∧ Inv s' ∧ measure s' < measure s)
    {rounds : ℕ} {s : σ} (hinv : Inv s) (hrounds : measure s < rounds) :
    Driven cond (fun s (_ : Unit) => body s) (fun _ _ => True) s (List.replicate rounds ()) := by
  induction rounds generalizing s with
  | zero => exact absurd hrounds (Nat.not_lt_zero _)
  | succ rounds ih =>
      intro hcond
      refine ⟨trivial, fun s' hs' => ?_⟩
      obtain ⟨t, ht, hinv', hlt⟩ := hbody s hinv hcond
      obtain rfl := Except.ok.inj (ht.symm.trans hs')
      exact ih hinv' (by omega)

/-- What every round keeps holds at the end of a loop whose rounds make a measure smaller. -/
theorem boundedLoop_rule {cond : σ → Prop} [DecidablePred cond] {body : σ → Except ε σ}
    (pending : ε) {Inv : σ → Prop} (measure : σ → ℕ)
    (hbody : ∀ s, Inv s → cond s → ∃ s', body s = .ok s' ∧ Inv s' ∧ measure s' < measure s)
    {rounds : ℕ} {s : σ} (hinv : Inv s) (hrounds : measure s < rounds) :
    ∃ s', boundedLoop cond body pending rounds s = .ok s' ∧ Inv s' ∧ ¬ cond s' := by
  refine loop_rule pending (fun t _ ht hcond _ => ?_) hinv
    (driven_of_measure measure hbody hinv hrounds)
  obtain ⟨t', ht', hinv', -⟩ := hbody t ht hcond
  exact ⟨t', ht', hinv'⟩

end Muduo.Library
