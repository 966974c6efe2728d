/-
**Replies as values of the protocol (`server.c`).**

Each reply function of the server writes one value, an error only when it starts with `-`, and an
array header followed by as many values as it announces makes one more.
-/

import Miniredis.Lib.Wire
import Miniredis.Model.Db

namespace Miniredis

open Wire (Plain)

/-! ### Well-formed replies -/

section WellFormed

/-- The bytes are one value of the protocol. -/
def WellFormed (out : Bytes) : Prop := ∃ v : Wire.Value, out = v.encode

/-- The bytes are `n` values one after another. -/
def WellFormedAll (n : Nat) (out : Bytes) : Prop :=
  ∃ items : List Wire.Value, items.length = n ∧ out = Wire.Value.encodeAll items

variable {message name out : Bytes}

theorem wellFormed_simple {s : Bytes} (free : 13 ∉ s) : WellFormed (replySimple s) :=
  ⟨.simple ⟨s, .of_notMem free⟩, rfl⟩

theorem wellFormed_replyOk : WellFormed replyOk := wellFormed_simple (by decide)

/-- The message may be cut, and may hold anything but a CR LF. -/
theorem wellFormed_replyError (plain : Plain (text "ERR " ++ message.take 255)) :
    WellFormed (replyError message) :=
  ⟨.error ⟨_, plain⟩, by simp [replyError, Wire.Value.encode, text, crlf]⟩

theorem wellFormed_error (free : 13 ∉ message) : WellFormed (replyError message) := by
  refine wellFormed_replyError (.of_notMem fun member => ?_)
  rcases List.mem_append.mp member with label | cut
  · exact absurd label (by decide)
  · exact free (List.mem_of_mem_take cut)

/-- A message with a name in it. -/
theorem wellFormed_named {front back : Bytes} (before : 13 ∉ front) (free : 13 ∉ name)
    (after : 13 ∉ back) : WellFormed (replyError (front ++ name ++ back)) := by
  refine wellFormed_error fun member => ?_
  rcases List.mem_append.mp member with first | last
  · rcases List.mem_append.mp first with words | inside
    · exact before words
    · exact free inside
  · exact after last

theorem wellFormed_arity (free : 13 ∉ name) : WellFormed (replyArity name) :=
  wellFormed_named (by decide) free (by decide)

theorem wellFormed_wrongtype : WellFormed replyWrongtype :=
  ⟨.error ⟨text "WRONGTYPE Operation against a key holding the wrong kind of value",
    .of_notMem (by decide)⟩, rfl⟩

theorem wellFormed_integer (n : Int) : WellFormed (replyInteger n) := ⟨.integer n, rfl⟩

theorem wellFormed_bulk (s : Bytes) : WellFormed (replyBulk s) :=
  ⟨.bulk s, by simp [replyBulk, Wire.Value.encode, text, crlf]⟩

theorem wellFormed_bulkCstr (s : Bytes) : WellFormed (replyBulkCstr s) := wellFormed_bulk _

theorem wellFormed_null : WellFormed replyNull := ⟨.null, rfl⟩

theorem wellFormed_double (d : Double) : WellFormed (replyDouble d) := wellFormed_bulk _

theorem WellFormed.ite {c : Prop} [Decidable c] {out' : Bytes} (yes : WellFormed out)
    (no : WellFormed out') : WellFormed (if c then out else out') := by
  split_ifs
  · exact yes
  · exact no

/-- **A header and as many values as it announces are one value.** -/
theorem WellFormedAll.array {n : Nat} (items : WellFormedAll n out) :
    WellFormed (replyArrayHeader n ++ out) := by
  obtain ⟨items, rfl, rfl⟩ := items
  exact ⟨.array items, by simp [replyArrayHeader, Wire.Value.encode, text, crlf]⟩

theorem WellFormedAll.nil : WellFormedAll 0 [] := ⟨[], rfl, rfl⟩

theorem WellFormedAll.cons {n : Nat} {first : Bytes} (head : WellFormed first)
    (tail : WellFormedAll n out) : WellFormedAll (n + 1) (first ++ out) := by
  obtain ⟨v, rfl⟩ := head
  obtain ⟨items, rfl, rfl⟩ := tail
  exact ⟨v :: items, rfl, rfl⟩

theorem WellFormedAll.append {n m : Nat} {first second : Bytes} (front : WellFormedAll n first)
    (back : WellFormedAll m second) : WellFormedAll (n + m) (first ++ second) := by
  obtain ⟨items, rfl, rfl⟩ := front
  obtain ⟨items', rfl, rfl⟩ := back
  refine ⟨items ++ items', List.length_append, ?_⟩
  simp [Wire.Value.encodeAll_eq]

theorem wellFormed_array_zero : WellFormed (replyArrayHeader 0) := by
  have empty := WellFormedAll.nil.array
  rwa [List.append_nil] at empty

/-- Equally many values for each element of a list. -/
theorem WellFormedAll.flatMap {α : Type} {f : α → Bytes} {k : Nat}
    (each : ∀ x, WellFormedAll k (f x)) (l : List α) :
    WellFormedAll (l.length * k) (l.flatMap f) := by
  induction l with
  | nil => simpa using WellFormedAll.nil
  | cons x l ih =>
    rw [List.flatMap_cons, List.length_cons, Nat.succ_mul, Nat.add_comm]
    exact (each x).append ih

theorem WellFormed.one (whole : WellFormed out) : WellFormedAll 1 out := by
  have single := WellFormedAll.nil.cons whole
  rwa [List.append_nil] at single

/-- One value for each element of a list. -/
theorem wellFormed_array {α : Type} {f : α → Bytes} (each : ∀ x, WellFormed (f x)) {l : List α}
    {n : Nat} (count : l.length = n) : WellFormed (replyArrayHeader n ++ l.flatMap f) := by
  have items := WellFormedAll.flatMap (fun x => (each x).one) l
  rw [Nat.mul_one, count] at items
  exact items.array

end WellFormed

/-! ### Error replies -/

section Errors

/-- The reply is an error. -/
def IsError (out : Bytes) : Prop := out.head? = some 45

instance (out : Bytes) : Decidable (IsError out) := inferInstanceAs (Decidable (_ = _))

@[simp] theorem isError_replyError (message : Bytes) : IsError (replyError message) := rfl

@[simp] theorem isError_replyWrongtype : IsError replyWrongtype := rfl

@[simp] theorem not_isError_replySimple (s : Bytes) : ¬ IsError (replySimple s) := by
  simp [IsError, replySimple, text]

@[simp] theorem not_isError_replyOk : ¬ IsError replyOk := not_isError_replySimple _

@[simp] theorem not_isError_replyInteger (n : Int) : ¬ IsError (replyInteger n) := by
  simp [IsError, replyInteger, text]

theorem replyError_ne_integer (message : Bytes) (n : Int) :
    replyError message ≠ replyInteger n := fun same =>
  absurd (same ▸ isError_replyError message) (not_isError_replyInteger n)

@[simp] theorem not_isError_replyBulk (s : Bytes) : ¬ IsError (replyBulk s) := by
  simp [IsError, replyBulk, text]

@[simp] theorem not_isError_replyBulkCstr (s : Bytes) : ¬ IsError (replyBulkCstr s) :=
  not_isError_replyBulk _

@[simp] theorem not_isError_replyDouble (d : Double) : ¬ IsError (replyDouble d) :=
  not_isError_replyBulk _

@[simp] theorem not_isError_replyNull : ¬ IsError replyNull := by decide

@[simp] theorem not_isError_array (n : Nat) (rest : Bytes) :
    ¬ IsError (replyArrayHeader n ++ rest) := by
  simp [IsError, replyArrayHeader, text]

theorem replyError_ne_ok (message : Bytes) : replyError message ≠ replyOk :=
  fun same => not_isError_replyOk (same ▸ isError_replyError message)

/-- Behind an argument check, a command that succeeds has passed it. -/
theorem succeed_check {P : Db × Bytes → Prop} {c : Prop} [Decidable c] {db : Db} {out : Bytes}
    {rest : Db × Bytes} (wrong : IsError out) (behind : ¬ c → ¬ IsError rest.2 → P rest)
    (succeeds : ¬ IsError (if c then (db, out) else rest).2) :
    P (if c then (db, out) else rest) := by
  by_cases fails : c
  · rw [if_pos fails] at succeeds
    exact absurd wrong succeeds
  · rw [if_neg fails] at succeeds ⊢
    exact behind fails succeeds

end Errors

end Miniredis
