/-
**Blocks of memory, and buffers read by offset.**

A block is what an allocator hands out: cells that hold a value or, before the first write, nothing.
An access outside the block fails, and so does a read of a cell that was never written. A buffer is
only read, by offsets and lengths of a 64-bit machine, whose differences wrap around.

* `copyIn_append` — a copy over the middle of a block.
* `copyIn_next` — a copy that goes on where the written cells end.
* `copyOut_append` — what is read from the start of a block.
* `Buffer.sub_of_le`, `Buffer.slice_of_le` — a difference that does not wrap around, a slice inside
  the buffer.
-/

import Mathlib.Data.List.Basic
import Mathlib.Tactic

/-- The cells of a block; a cell is `none` until it is written. -/
abbrev Block (α : Type) := List (Option α)

namespace Block

variable {α : Type}

/-- A new block, unless it is larger than the allocator allows. -/
def malloc (limit size : Nat) : Option (Block α) :=
  if size ≤ limit then some (List.replicate size none) else none

/-- The block at another size: what fits is kept, what is new is not written yet. -/
def realloc (limit : Nat) (block : Block α) (size : Nat) : Option (Block α) :=
  if size ≤ limit then some (block.take size ++ List.replicate (size - block.length) none)
  else none

/-- Write values from a position on. -/
def copyIn (block : Block α) (start : Nat) (data : List α) : Option (Block α) :=
  if start + data.length ≤ block.length then
    some (block.take start ++ data.map some ++ block.drop (start + data.length))
  else none

/-- Read the values of some cells from a position on. -/
def copyOut (block : Block α) (start count : Nat) : Option (List α) :=
  if start + count ≤ block.length then ((block.drop start).take count).mapM id else none

theorem malloc_of_le {limit size : Nat} (allowed : size ≤ limit) :
    malloc limit size = some (List.replicate size none : Block α) := if_pos allowed

theorem realloc_of_le {limit size : Nat} (block : Block α) (allowed : size ≤ limit)
    (larger : block.length ≤ size) :
    realloc limit block size = some (block ++ List.replicate (size - block.length) none) := by
  rw [realloc, if_pos allowed, List.take_of_length_le larger]

/-- **A copy replaces the cells at its position.** -/
theorem copyIn_append (before old after : Block α) (data : List α) {start : Nat}
    (place : start = before.length) (fits : old.length = data.length) :
    copyIn (before ++ old ++ after) start data = some (before ++ data.map some ++ after) := by
  subst place
  have inside : before.length + data.length ≤ (before ++ old ++ after).length := by
    rw [List.length_append, List.length_append]
    omega
  have front : (before ++ old ++ after).take before.length = before := by
    rw [List.append_assoc, List.take_left]
  have back : (before ++ old ++ after).drop (before.length + data.length) = after := by
    rw [← fits, ← List.length_append, List.drop_left]
  rw [copyIn, if_pos inside, front, back]

/-- A copy that goes on where the written cells end. -/
theorem copyIn_next (done data : List α) {n : Nat} (room : data.length ≤ n) :
    copyIn (done.map some ++ List.replicate n none) done.length data =
      some ((done ++ data).map some ++ List.replicate (n - data.length) none) := by
  have cells : (List.replicate n none : Block α) =
      List.replicate data.length none ++ List.replicate (n - data.length) none := by
    rw [List.replicate_append_replicate, Nat.add_sub_cancel' room]
  rw [cells, ← List.append_assoc, List.map_append]
  exact copyIn_append _ _ _ data (List.length_map _).symm List.length_replicate

theorem mapM_written (data : List α) : (data.map some).mapM id = some data := by
  induction data with
  | nil => rfl
  | cons first rest ih => simp [List.mapM_cons, ih]

/-- Cells that are not all written cannot be read. -/
theorem mapM_missing {cells : Block α} (missing : none ∈ cells) : cells.mapM id = none := by
  induction cells with
  | nil => cases missing
  | cons first rest ih =>
    cases first with
    | none => simp [List.mapM_cons]
    | some a =>
      have later : none ∈ rest := by simpa using missing
      simp [List.mapM_cons, ih later]

/-- Cells that are all written hold data. -/
theorem eq_map_some {cells : Block α} (full : none ∉ cells) :
    ∃ data : List α, cells = data.map some := by
  induction cells with
  | nil => exact ⟨[], rfl⟩
  | cons first rest ih =>
    rw [List.mem_cons, not_or] at full
    obtain ⟨data, rfl⟩ := ih full.2
    obtain ⟨a, rfl⟩ := Option.ne_none_iff_exists'.mp (Ne.symm full.1)
    exact ⟨a :: data, rfl⟩

/-- **What is read from the start of a block.** -/
theorem copyOut_append (data : List α) (after : Block α) :
    copyOut (data.map some ++ after) 0 data.length = some data := by
  have inside : 0 + data.length ≤ (data.map some ++ after).length := by
    rw [List.length_append, List.length_map]
    omega
  have front : (data.map some ++ after).take data.length = data.map some :=
    List.take_left' (List.length_map _)
  rw [copyOut, if_pos inside, List.drop_zero, front, mapM_written]

end Block

/-! ### Offsets -/

namespace Buffer

/-- The difference of two unsigned numbers of 64 bits. -/
def sub (a b : Nat) : Nat := (a + (2 ^ 64 - b)) % 2 ^ 64

/-- The `n` elements from `i` on. -/
def slice {α : Type} (buf : List α) (i n : Nat) : Option (List α) :=
  if i + n ≤ buf.length then some ((buf.drop i).take n) else none

theorem sub_of_le {a b : Nat} (le : b ≤ a) (small : a < 2 ^ 64) : sub a b = a - b := by
  unfold sub
  omega

theorem slice_of_le {α : Type} {buf : List α} {i n : Nat} (inside : i + n ≤ buf.length) :
    slice buf i n = some ((buf.drop i).take n) := if_pos inside

end Buffer
