/-
**Memory that is allocated and freed.**

Objects live at addresses. An access to an address where nothing is allocated fails, and so does
freeing it; an allocation may return any address that is not in use, one that was freed before too.

* `get_set`, `get_drop` — reading after a write, after freeing.
* `put_of_get`, `free_of_get`, `get_fresh` — when an operation does not fail.
* `Ends` — a program that does not fail, and what holds after it; `Ends.foldlM` is the rule for a
  loop.
-/

import Mathlib.Data.List.AList
import Mathlib.Tactic

/-! ### Choices of the allocator -/

/-- A choice among the numbers that are not in use. -/
structure Fresh where
  pick : List Nat → Nat
  fresh : ∀ used, pick used ∉ used

/-- The lowest choice above all numbers in use. -/
def Fresh.above (n : Nat) : Fresh where
  pick used := used.foldr (fun x y => max (x + 1) y) n
  fresh := by
    have bound (used : List Nat) : ∀ x ∈ used, x < used.foldr (fun x y => max (x + 1) y) n := by
      induction used with
      | nil => exact fun x inside => absurd inside List.not_mem_nil
      | cons y rest ih =>
        intro x inside
        rw [List.foldr_cons]
        rcases List.mem_cons.mp inside with rfl | later
        · exact Nat.lt_of_lt_of_le (Nat.lt_succ_self x) (le_max_left _ _)
        · exact (ih x later).trans_le (le_max_right _ _)
    exact fun used inside => (bound used _ inside).false

/-! ### Heaps -/

/-- What is allocated, by address. -/
structure Heap (α : Type) where
  cells : AList fun _ : Nat => α

namespace Heap

variable {α : Type} {h : Heap α} {p q : Nat} {a b : α}

def empty : Heap α := ⟨∅⟩

def get (h : Heap α) (p : Nat) : Option α := h.cells.lookup p

/-- The addresses in use. -/
def addresses (h : Heap α) : List Nat := h.cells.keys

def set (h : Heap α) (p : Nat) (a : α) : Heap α := ⟨h.cells.insert p a⟩

def drop (h : Heap α) (p : Nat) : Heap α := ⟨h.cells.erase p⟩

/-- Write to an address. -/
def put (h : Heap α) (p : Nat) (a : α) : Option (Heap α) :=
  if (h.get p).isSome then some (h.set p a) else none

/-- Free an address. -/
def free (h : Heap α) (p : Nat) : Option (Heap α) :=
  if (h.get p).isSome then some (h.drop p) else none

@[simp]
theorem get_empty (p : Nat) : (empty : Heap α).get p = none := rfl

theorem get_set (h : Heap α) (p : Nat) (a : α) (q : Nat) :
    (h.set p a).get q = if q = p then some a else h.get q := by
  unfold set get
  by_cases same : q = p
  · subst same
    rw [if_pos rfl, AList.lookup_insert]
  · rw [if_neg same, AList.lookup_insert_ne same]

@[simp]
theorem get_set_self (h : Heap α) (p : Nat) (a : α) : (h.set p a).get p = some a := by
  rw [get_set, if_pos rfl]

theorem get_set_other (apart : q ≠ p) : (h.set p a).get q = h.get q := by
  rw [get_set, if_neg apart]

/-- The second write to an address is the one that stays. -/
theorem get_set_set (h : Heap α) (p : Nat) (a b : α) (q : Nat) :
    ((h.set p a).set p b).get q = if q = p then some b else h.get q := by
  rw [get_set]
  split_ifs with same
  · rfl
  · exact get_set_other same

theorem get_drop (h : Heap α) (p q : Nat) :
    (h.drop p).get q = if q = p then none else h.get q := by
  unfold drop get
  by_cases same : q = p
  · subst same
    rw [if_pos rfl, AList.lookup_erase]
  · rw [if_neg same, AList.lookup_erase_ne same]

theorem put_of_get (found : h.get p = some b) : h.put p a = some (h.set p a) :=
  if_pos (by rw [found]; rfl)

theorem free_of_get (found : h.get p = some b) : h.free p = some (h.drop p) :=
  if_pos (by rw [found]; rfl)

/-- An allocated address is none of those in use. -/
theorem get_fresh (h : Heap α) (choice : Fresh) : h.get (choice.pick h.addresses) = none :=
  AList.lookup_eq_none.mpr fun used => choice.fresh h.addresses (AList.mem_keys.mp used)

end Heap

/-! ### Programs that do not fail -/

section Ends

variable {σ τ ι : Type} {x : Option σ} {P Q : σ → Prop}

/-- The program does not fail and ends in a state of some kind. -/
def Ends (x : Option σ) (P : σ → Prop) : Prop := ∃ s, x = some s ∧ P s

theorem Ends.some {s : σ} (holds : P s) : Ends (Option.some s) P := ⟨s, rfl, holds⟩

theorem Ends.mono (ends : Ends x P) (weaker : ∀ s, P s → Q s) : Ends x Q := by
  obtain ⟨s, same, holds⟩ := ends
  exact ⟨s, same, weaker s holds⟩

theorem Ends.bind {f : σ → Option τ} {R : τ → Prop} (first : Ends x P)
    (second : ∀ s, P s → Ends (f s) R) : Ends (x >>= f) R := by
  obtain ⟨s, rfl, holds⟩ := first
  exact second s holds

theorem Ends.map {f : σ → τ} {R : τ → Prop} (ends : Ends x fun s => R (f s)) :
    Ends (x.map f) R := by
  obtain ⟨s, rfl, holds⟩ := ends
  exact ⟨f s, rfl, holds⟩

theorem Ends.ite {c : Prop} [Decidable c] {y : Option σ} (yes : c → Ends x P)
    (no : ¬ c → Ends y P) : Ends (if c then x else y) P := by
  split_ifs with test
  · exact yes test
  · exact no test

/-- **The rule for a loop**: what each round keeps holds at the end. -/
theorem Ends.foldlM {f : σ → ι → Option σ} {rounds : List ι}
    (keeps : ∀ s, ∀ round ∈ rounds, P s → Ends (f s round) P) {s : σ} (holds : P s) :
    Ends (rounds.foldlM f s) P := by
  induction rounds generalizing s with
  | nil => exact .some holds
  | cons round rest ih =>
    rw [List.foldlM_cons]
    exact (keeps s round List.mem_cons_self holds).bind fun s' holds' =>
      ih (fun s later => keeps s later ∘ List.mem_cons_of_mem _) holds'

end Ends
