/-
**Integer texts are read exactly.**

* `stringToLlNChecked_eq` — no operation of `string_to_ll_n` overflows, and it reads what the model
  over numbers reads;
* `integer_texts` — it accepts exactly the signed digit strings whose magnitude is at most
  `LLONG_MAX`, with their value.
-/

import Miniredis.Model.PlainChars

namespace Miniredis

open Decimal (IsDigit digitsValue)

section Digits

theorem plainChar_of_small {byte : UInt8} (small : byte.toNat < 128) :
    plainChar byte = byte.toNat := by
  unfold plainChar
  rw [Int.bmod_eq_of_le (by omega) (by omega)]

theorem plainChar_of_large {byte : UInt8} (large : 128 ≤ byte.toNat) :
    plainChar byte = byte.toNat - 256 := by
  have bound := byte.toNat_lt
  unfold plainChar
  rw [Int.bmod_def]
  omega

/-- A byte whose plain `char` is an ASCII code is that code. -/
theorem plainChar_eq_iff {byte code : UInt8} (ascii : code.toNat < 128) :
    plainChar byte = code.toNat ↔ byte = code := by
  have bound := byte.toNat_lt
  rw [← UInt8.toNat_inj]
  rcases Nat.lt_or_ge byte.toNat 128 with small | large
  · rw [plainChar_of_small small]
    omega
  · rw [plainChar_of_large large]
    omega

/-- The range test of the digit loop, on either reading of the byte. -/
theorem plainChar_digit (byte : UInt8) :
    (plainChar byte < 48 ∨ plainChar byte > 57) ↔ ¬ IsDigit byte := by
  have bound := byte.toNat_lt
  unfold IsDigit
  rcases Nat.lt_or_ge byte.toNat 128 with small | large
  · rw [plainChar_of_small small]
    omega
  · rw [plainChar_of_large large]
    omega

/-- **The digit loop overflows nowhere**: the test before each step leaves room for it. -/
theorem stringToLlDigitsChecked_eq {v : Nat} (start : v ≤ llongMax) (s : Bytes) :
    stringToLlDigitsChecked v s = some ((stringToLlDigits v s).map fun w : Nat => (w : Int)) := by
  induction s generalizing v with
  | nil => rfl
  | cons c rest ih =>
    rw [stringToLlDigitsChecked, stringToLlDigits]
    by_cases digit : IsDigit c
    · have small : c.toNat < 128 := by
        unfold IsDigit at digit
        omega
      have most : llongMax = 9223372036854775807 := rfl
      have range : 48 ≤ c.toNat ∧ c.toNat ≤ 57 := digit
      rw [if_neg ((plainChar_digit c).not.mpr (not_not.mpr digit)),
        if_neg ((not_isDigit_iff c).not.mpr (not_not.mpr digit)), plainChar_of_small small]
      simp only [Option.bind_eq_bind]
      rw [checked_of_range (by omega) (by omega), Option.bind_some]
      have bound : ((llongMax : Int) - (c.toNat - 48)).tdiv 10 =
          ((llongMax - (c.toNat - 48)) / 10 : Nat) := by
        rw [Int.tdiv_eq_ediv_of_nonneg (by omega)]
        omega
      rw [bound]
      by_cases room : v > (llongMax - (c.toNat - 48)) / 10
      · rw [if_pos (by exact_mod_cast room), if_pos room]
        rfl
      · rw [if_neg (by exact_mod_cast room), if_neg room,
          checked_of_range (by omega) (by omega), Option.bind_some,
          checked_of_range (by omega) (by omega), Option.bind_some]
        have step := @ih (v * 10 + (c.toNat - 48)) (by omega)
        have same : ((v * 10 + (c.toNat - 48) : Nat) : Int) = v * 10 + (c.toNat - 48) := by omega
        rwa [same] at step
    · rw [if_pos ((plainChar_digit c).mpr digit), if_pos ((not_isDigit_iff c).mpr digit)]
      rfl

/-- **`string_to_ll_n` overflows nowhere.** -/
theorem stringToLlNChecked_eq (s : Bytes) : stringToLlNChecked s = some (stringToLlN s) := by
  have loop (rest : Bytes) : stringToLlDigitsChecked 0 rest =
      some ((stringToLlDigits 0 rest).map fun w : Nat => (w : Int)) :=
    stringToLlDigitsChecked_eq (Nat.zero_le _) rest
  cases s with
  | nil => rfl
  | cons c rest =>
    have isMinus : plainChar c = 45 ↔ c = 45 := @plainChar_eq_iff c 45 (by decide)
    have isPlus : plainChar c = 43 ↔ c = 43 := @plainChar_eq_iff c 43 (by decide)
    rw [stringToLlNChecked]
    by_cases minus : c = 45
    · rw [if_pos (isMinus.mpr minus), minus]
      by_cases alone : rest = []
      · rw [if_pos alone, alone]
        rfl
      rw [if_neg alone, stringToLlN_minus alone, loop]
      cases read : stringToLlDigits 0 rest with
      | none => rfl
      | some w =>
        have bound := stringToLlDigits_le read (Nat.zero_le _)
        have most : llongMax = 9223372036854775807 := rfl
        simp only [Option.map_some, Option.bind_eq_bind, Option.bind_some]
        rw [checked_of_range (by omega) (by omega)]
        rfl
    rw [if_neg (isMinus.not.mpr minus)]
    by_cases plus : c = 43
    · rw [if_pos (isPlus.mpr plus), plus]
      by_cases alone : rest = []
      · rw [if_pos alone, alone]
        rfl
      · rw [if_neg alone, stringToLlN_plus alone, loop]
    · rw [if_neg (isPlus.not.mpr plus), loop, stringToLlN_unsigned minus plus]

end Digits

/-! ### What is accepted -/

section Accepted

/-- The number that digits denote. -/
def magnitude (digits : Bytes) : Nat :=
  Nat.ofDigits 10 (digits.reverse.map fun byte => byte.toNat - 48)

theorem digitsValue_eq_magnitude (digits : Bytes) : digitsValue 0 digits = magnitude digits := by
  induction digits using List.reverseRecOn with
  | nil => rfl
  | append_singleton front last ih =>
    unfold digitsValue magnitude at ih ⊢
    rw [List.foldl_append, ih, List.reverse_append, List.reverse_singleton, List.singleton_append,
      List.map_cons, Nat.ofDigits_cons]
    simp only [List.foldl_cons, List.foldl_nil]
    omega

/-- The digit loop accepts digits whose value fits. -/
theorem stringToLlDigits_iff (digits : Bytes) (w : Nat) :
    stringToLlDigits 0 digits = some w ↔
      (∀ byte ∈ digits, IsDigit byte) ∧ magnitude digits ≤ llongMax ∧ w = magnitude digits := by
  rw [← digitsValue_eq_magnitude]
  constructor
  · intro read
    have value := stringToLlDigits_value read
    exact ⟨stringToLlDigits_digits read,
      value ▸ stringToLlDigits_le read (Nat.zero_le _), value⟩
  · rintro ⟨onlyDigits, fits, rfl⟩
    exact stringToLlDigits_eq digits 0 onlyDigits fits

/-- **Integer texts are read exactly and without overflow**, and never to `LLONG_MIN`: the callers
may take the result's negative, and add a length to one that is negative. -/
theorem integer_texts (s : Bytes) :
    stringToLlNChecked s = some (stringToLlN s) ∧
    (∀ v, stringToLlN s = some v ↔ ∃ negative digits, IntegerText s negative digits ∧
      digits ≠ [] ∧ (∀ byte ∈ digits, IsDigit byte) ∧ magnitude digits ≤ llongMax ∧
      v = if negative then -(magnitude digits : Int) else magnitude digits) ∧
    ∀ v, stringToLlN s = some v → v ≠ -(2 ^ 63) ∧ checked (-v) = some (-v) ∧
      ∀ n : Int, 0 ≤ n → n < 2 ^ 63 →
        checkedIf (v < 0) (v + n) v = some (if v < 0 then v + n else v) := by
  refine ⟨stringToLlNChecked_eq s, fun v => ⟨fun read => ?_, ?_⟩, fun v read => ?_⟩
  · obtain ⟨negative, digits, shape, filled, w, loop, rfl⟩ := stringToLlN_shape read
    obtain ⟨onlyDigits, fits, rfl⟩ := (stringToLlDigits_iff digits w).mp loop
    exact ⟨negative, digits, shape, filled, onlyDigits, fits, rfl⟩
  · rintro ⟨negative, digits, shape, filled, onlyDigits, fits, rfl⟩
    have loop := (stringToLlDigits_iff digits _).mpr ⟨onlyDigits, fits, rfl⟩
    cases shape with
    | unsigned =>
      obtain ⟨first, rest, rfl⟩ := List.exists_cons_of_ne_nil filled
      have digit := onlyDigits first List.mem_cons_self
      rw [stringToLlN_unsigned (by rintro rfl; exact absurd digit (by decide))
        (by rintro rfl; exact absurd digit (by decide)), loop]
      rfl
    | plus =>
      rw [stringToLlN_plus filled, loop]
      rfl
    | minus =>
      rw [stringToLlN_minus filled, loop]
      rfl
  · have most : llongMax = 9223372036854775807 := rfl
    obtain ⟨low, high⟩ := stringToLlN_range read
    refine ⟨by omega, checked_of_range (by omega) (by omega), fun n lowest highest => ?_⟩
    exact checkedIf_of_range fun negative => ⟨by omega, by omega⟩

/-- The largest text has no room for a length: only a negative result has it. -/
theorem largest_text_overflows :
    stringToLlN (text "9223372036854775807") = some (2 ^ 63 - 1) ∧
      checked (2 ^ 63 - 1 + 1) = none :=
  ⟨by decide, by decide⟩

end Accepted

end Miniredis
