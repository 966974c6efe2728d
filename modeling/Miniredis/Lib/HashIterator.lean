/-
**Iterators over chained hash tables.**

An iterator is a bucket number and the chain that hangs from the current entry. `next` follows the
chain and then looks for the next bucket that is not empty. A pass calls `next` until it reports the
end: it visits the entries of the table in order, each once (`visit_entries`).
-/

import Miniredis.Lib.HashTable

namespace HashTable

variable {σ κ α : Type}

/-- `entry` is the current entry and what follows it in its chain; it is empty before the first
call and after the last. -/
structure Iter (κ α : Type) where
  bucket : Nat
  entry : List (Entry κ α)

namespace Iter

def init : Iter κ α := ⟨0, []⟩

/-- The first entry in bucket `bucket` or later. -/
def seek (raw : Raw σ κ α) (bucket : Nat) : Option (Entry κ α) × Iter κ α :=
  if bucket < raw.size then
    match raw.chain bucket with
    | entry :: rest => (some entry, ⟨bucket, entry :: rest⟩)
    | [] => seek raw (bucket + 1)
  else (none, ⟨bucket, []⟩)
termination_by raw.size - bucket

def next (raw : Raw σ κ α) (it : Iter κ α) : Option (Entry κ α) × Iter κ α :=
  match it.entry with
  | [] => seek raw it.bucket
  | [_] => seek raw (it.bucket + 1)
  | _ :: entry :: rest => (some entry, ⟨it.bucket, entry :: rest⟩)

/-- The entries of at most `fuel` calls, if the last of them reports the end. -/
def visit (raw : Raw σ κ α) : Nat → Iter κ α → Option (List (Entry κ α))
  | 0, _ => none
  | fuel + 1, it =>
    match next raw it with
    | (none, _) => some []
    | (some entry, it) => (visit raw fuel it).map (entry :: ·)

/-- The entries that an iterator has not visited. -/
def ahead (raw : Raw σ κ α) (it : Iter κ α) : List (Entry κ α) :=
  match it.entry with
  | [] => (raw.table.drop it.bucket).flatten
  | _ :: rest => rest ++ (raw.table.drop (it.bucket + 1)).flatten

variable [DecidableEq κ]

/-- The loop over the buckets reports the first entry in them. -/
theorem seek_spec (raw : Raw σ κ α) (bucket : Nat) :
    ((raw.table.drop bucket).flatten = [] ∧ (seek raw bucket).1 = none) ∨
      ∃ entry, (seek raw bucket).1 = some entry ∧
        (raw.table.drop bucket).flatten = entry :: ahead raw (seek raw bucket).2 := by
  -- induction on the buckets left
  induction left : raw.size - bucket generalizing bucket with
  | zero =>
    have done : raw.size ≤ bucket := Nat.sub_eq_zero_iff_le.mp left
    refine .inl ⟨?_, ?_⟩
    · rw [List.drop_eq_nil_of_le done, List.flatten_nil]
    · rw [seek, if_neg (Nat.not_lt.mpr done)]
  | succ n ih =>
    have inside : bucket < raw.size := Nat.lt_of_sub_eq_succ left
    have split : (raw.table.drop bucket).flatten =
        raw.chain bucket ++ (raw.table.drop (bucket + 1)).flatten := by
      rw [List.drop_eq_getElem_cons inside, List.flatten_cons, Raw.chain_eq inside]
    rw [seek, if_pos inside, split]
    cases chain : raw.chain bucket with
    | nil =>
      rw [List.nil_append]
      exact ih (bucket + 1) (by omega)
    | cons entry rest => exact .inr ⟨entry, rfl, rfl⟩

/-- One call takes the first of the entries ahead. -/
theorem next_spec (raw : Raw σ κ α) (it : Iter κ α) :
    (ahead raw it = [] ∧ (next raw it).1 = none) ∨
      ∃ entry, (next raw it).1 = some entry ∧
        ahead raw it = entry :: ahead raw (next raw it).2 := by
  obtain ⟨bucket, chain⟩ := it
  match chain with
  | [] => exact seek_spec raw bucket
  | [_] => exact seek_spec raw (bucket + 1)
  | _ :: entry :: rest => exact .inr ⟨entry, rfl, rfl⟩

theorem visit_ahead (raw : Raw σ κ α) (it : Iter κ α) :
    visit raw ((ahead raw it).length + 1) it = some (ahead raw it) := by
  induction left : ahead raw it generalizing it with
  | nil =>
    rcases next_spec raw it with ⟨_, last⟩ | ⟨entry, _, more⟩
    · rw [List.length_nil, visit]
      split
      · rfl
      · rename_i some
        rw [some] at last
        cases last
    · rw [left] at more
      cases more
  | cons first rest ih =>
    rcases next_spec raw it with ⟨none, _⟩ | ⟨entry, found, more⟩
    · rw [left] at none
      cases none
    · rw [left] at more
      obtain ⟨rfl, later⟩ := List.cons.inj more
      rw [List.length_cons, visit]
      split
      · rename_i none
        rw [none] at found
        cases found
      · rename_i other it' same
        rw [same] at found later
        obtain rfl : other = first := Option.some.inj found
        rw [ih it' later.symm, Option.map_some]

/-- **A full pass visits the entries of the table in order and then ends.** -/
theorem visit_entries (raw : Raw σ κ α) :
    visit raw (raw.entries.length + 1) init = some raw.entries :=
  visit_ahead raw init

end Iter

end HashTable
