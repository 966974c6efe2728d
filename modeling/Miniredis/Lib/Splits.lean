/-
**Subjects split into pieces.**

A list of parts describes a subject that can be cut into as many pieces, each of which its part
takes.

* `cons_iff` — the first part takes a piece at the front;
* `suffix_iff` — a first part that takes anything may leave any suffix;
* `single_iff` — a first part that takes single elements only;
* `congr` — it depends on what the parts take.
-/

import Mathlib.Data.List.Forall2
import Mathlib.Data.List.Infix

/-- The subject can be cut into pieces that the parts take. -/
def Splits {τ α : Type} (takes : τ → List α → Prop) (parts : List τ) (s : List α) : Prop :=
  ∃ pieces, List.Forall₂ takes parts pieces ∧ pieces.flatten = s

namespace Splits

variable {τ α : Type} {takes takes' : τ → List α → Prop} {part : τ} {parts : List τ} {s : List α}

theorem nil_iff : Splits takes [] s ↔ s = [] := by
  constructor
  · rintro ⟨pieces, taken, rfl⟩
    cases taken
    rfl
  · rintro rfl
    exact ⟨[], .nil, rfl⟩

theorem cons_iff : Splits takes (part :: parts) s ↔
    ∃ piece rest, s = piece ++ rest ∧ takes part piece ∧ Splits takes parts rest := by
  constructor
  · rintro ⟨pieces, taken, rfl⟩
    cases taken with
    | cons first later => exact ⟨_, _, rfl, first, _, later, rfl⟩
  · rintro ⟨piece, rest, rfl, first, pieces, later, rfl⟩
    exact ⟨piece :: pieces, .cons first later, rfl⟩

/-- A part that takes anything leaves any suffix. -/
theorem suffix_iff (anything : ∀ piece, takes part piece) :
    Splits takes (part :: parts) s ↔ ∃ rest, rest <:+ s ∧ Splits takes parts rest := by
  rw [cons_iff]
  constructor
  · rintro ⟨piece, rest, rfl, _, later⟩
    exact ⟨rest, List.suffix_append piece rest, later⟩
  · rintro ⟨rest, ⟨piece, rfl⟩, later⟩
    exact ⟨piece, rest, rfl, anything piece, later⟩

/-- A part that takes single elements only. -/
theorem single_iff {accepts : α → Prop}
    (single : ∀ piece, takes part piece ↔ ∃ a, piece = [a] ∧ accepts a) :
    Splits takes (part :: parts) s ↔
      ∃ a rest, s = a :: rest ∧ accepts a ∧ Splits takes parts rest := by
  rw [cons_iff]
  constructor
  · rintro ⟨piece, rest, rfl, taken, later⟩
    obtain ⟨a, rfl, accepted⟩ := (single piece).mp taken
    exact ⟨a, rest, rfl, accepted, later⟩
  · rintro ⟨a, rest, rfl, accepted, later⟩
    exact ⟨[a], rest, rfl, (single [a]).mpr ⟨a, rfl, accepted⟩, later⟩

/-- A part that takes anything twice takes no more than once. -/
theorem twice_iff (anything : ∀ piece, takes part piece) :
    Splits takes (part :: part :: parts) s ↔ Splits takes (part :: parts) s := by
  rw [suffix_iff anything, suffix_iff anything]
  constructor
  · rintro ⟨rest, inside, later⟩
    obtain ⟨rest', inside', last⟩ := (suffix_iff anything).mp later
    exact ⟨rest', inside'.trans inside, last⟩
  · rintro ⟨rest, inside, later⟩
    exact ⟨rest, inside, (suffix_iff anything).mpr ⟨rest, List.suffix_refl rest, later⟩⟩

/-- Every part takes a piece. -/
theorem taken (splits : Splits takes parts s) (member : part ∈ parts) :
    ∃ piece, takes part piece := by
  obtain ⟨pieces, taken, -⟩ := splits
  induction taken with
  | nil => cases member
  | cons first _ ih =>
    rcases List.mem_cons.mp member with rfl | later
    · exact ⟨_, first⟩
    · exact ih later

theorem congr (same : ∀ p ∈ parts, ∀ piece, takes p piece ↔ takes' p piece) :
    Splits takes parts s ↔ Splits takes' parts s := by
  induction parts generalizing s with
  | nil => rw [nil_iff, nil_iff]
  | cons first rest ih =>
    simp only [cons_iff, same first List.mem_cons_self,
      ih fun p member => same p (List.mem_cons_of_mem _ member)]

end Splits
