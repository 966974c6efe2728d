/-
**Machines that are called again and again.**

A machine takes a state and a call to an answer and a new state; `Machine.trace` is what it answers
to a list of calls. A pass over `n` places may be cut into calls too: each starts where the one
before it stopped, treats at least one place and stops at the end at the latest, from where the next
call starts over.

* `trace_refines` — a relation between the states of two machines that every call keeps, with equal
  answers, carries over to whole traces.
* `RoundRobin.Advances` — what one call does to the cursor of a pass and to the places.
* `iterate_advances` — after `j` calls at least `j` places in a row, counted round, are treated.
* `iterate_covers` — after `n` calls all of them are, wherever the cursor was.
-/

import Mathlib.Logic.Function.Iterate
import Mathlib.Tactic

/-! ### Traces -/

namespace Machine

variable {σ τ ι ο : Type}

/-- The answers to the calls, and the state after them. -/
def trace (step : σ → ι → ο × σ) : σ → List ι → List ο × σ
  | s, [] => ([], s)
  | s, call :: rest =>
    ((step s call).1 :: (trace step (step s call).2 rest).1, (trace step (step s call).2 rest).2)

/-- **A relation that every call keeps holds after any calls, and the answers agree.** -/
theorem trace_refines {step : σ → ι → ο × σ} {step' : τ → ι → ο × τ} {R : σ → τ → Prop}
    (each : ∀ s t call, R s t →
      (step s call).1 = (step' t call).1 ∧ R (step s call).2 (step' t call).2)
    {s : σ} {t : τ} (start : R s t) (calls : List ι) :
    (trace step s calls).1 = (trace step' t calls).1 ∧
      R (trace step s calls).2 (trace step' t calls).2 := by
  induction calls generalizing s t with
  | nil => exact ⟨rfl, start⟩
  | cons call rest ih =>
    obtain ⟨answer, next⟩ := each s t call start
    obtain ⟨answers, last⟩ := ih next
    refine ⟨?_, last⟩
    rw [trace, trace, answer, answers]

end Machine

/-! ### Cursors that go round -/

namespace RoundRobin

variable {σ : Type} {n : Nat} {cursor : σ → Nat} {treated : σ → Nat → Prop}

/-- A call treats the places from the cursor up to where it stops, and undoes none. -/
structure Advances (n : Nat) (cursor : σ → Nat) (treated : σ → Nat → Prop) (s s' : σ) : Prop where
  passes : ∃ stop, cursor s < stop ∧ stop ≤ n ∧ cursor s' = stop % n ∧
    ∀ i, cursor s ≤ i → i < stop → treated s' i
  keeps : ∀ i, treated s i → treated s' i

/-- **Calls in a row treat places in a row.** -/
theorem iterate_advances {step : σ → σ} {inv : σ → Prop} (kept : ∀ s, inv s → inv (step s))
    (advances : ∀ s, inv s → Advances n cursor treated s (step s)) {s : σ} (start : inv s)
    (inside : cursor s < n) (j : Nat) :
    inv (step^[j] s) ∧ ∃ m, j ≤ m ∧ cursor (step^[j] s) = (cursor s + m) % n ∧
      ∀ i < m, treated (step^[j] s) ((cursor s + i) % n) := by
  induction j with
  | zero =>
    refine ⟨start, 0, Nat.le_refl 0, (Nat.mod_eq_of_lt inside).symm, fun i absurdly => ?_⟩
    exact absurd absurdly (Nat.not_lt_zero i)
  | succ j ih =>
    obtain ⟨here, m, enough, place, before⟩ := ih
    obtain ⟨⟨stop, further, bound, next, passed⟩, keeps⟩ := advances _ here
    rw [Function.iterate_succ_apply']
    -- the places from `m` on are those between the old cursor and the stop
    have round (i : Nat) (low : m ≤ i) : (cursor s + i) % n =
        (cursor (step^[j] s) + (i - m)) % n := by
      rw [place, Nat.mod_add_mod]
      congr 1
      omega
    refine ⟨kept _ here, m + (stop - cursor (step^[j] s)), by omega, ?_, fun i small => ?_⟩
    · rw [next, round _ (by omega)]
      congr 1
      omega
    · by_cases old : i < m
      · exact keeps _ (before i old)
      · have within : cursor (step^[j] s) + (i - m) < stop := by omega
        rw [round i (by omega), Nat.mod_eq_of_lt (by omega)]
        exact passed _ (by omega) within

/-- **As many calls as there are places treat them all.** -/
theorem iterate_covers {step : σ → σ} {inv : σ → Prop} (kept : ∀ s, inv s → inv (step s))
    (advances : ∀ s, inv s → Advances n cursor treated s (step s)) {s : σ} (start : inv s)
    (inside : cursor s < n) {i : Nat} (place : i < n) : treated (step^[n] s) i := by
  obtain ⟨-, m, enough, -, done⟩ := iterate_advances kept advances start inside n
  by_cases ahead : cursor s ≤ i
  · have reached := done (i - cursor s) (by omega)
    rwa [Nat.add_sub_cancel' ahead, Nat.mod_eq_of_lt place] at reached
  · have reached := done (i + n - cursor s) (by omega)
    have round : cursor s + (i + n - cursor s) = i + n := by omega
    rwa [round, Nat.add_mod_right, Nat.mod_eq_of_lt place] at reached

end RoundRobin
