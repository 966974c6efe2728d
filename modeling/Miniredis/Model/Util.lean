/-
**Bytes, C strings and integer texts (`util.c`).**

Buffers are lists of bytes. A command argument is a NUL-terminated buffer that may hold further
NULs (`xstrndup` copies whatever the frame carried); everything that reads it goes through
`strlen`, so it sees `cstr` of the buffer.

* `stringToLlN` — `string_to_ll_n`: sign, digits, the overflow test before every step;
* `stringToLlN_shape` — what it reads is a sign or none, and digits;
* `stringToLlN_render` — what `%zu` prints for a number in range reads back;
* `wrap64` — the value an `int64_t` holds after an addition that may overflow.
-/

import Miniredis.Lib.Numerals
import Mathlib.Data.List.TakeWhile

namespace Miniredis

abbrev Bytes := List UInt8

/-- The bytes of a source string literal. -/
def text (literal : String) : Bytes := literal.toList.map fun char => char.toNat.toUInt8

/-- What `strlen`-based code sees of a NUL-terminated buffer. -/
def cstr (buffer : Bytes) : Bytes := buffer.takeWhile (· != 0)

theorem cstr_length_le (buffer : Bytes) : (cstr buffer).length ≤ buffer.length :=
  (List.takeWhile_sublist _).length_le

theorem zero_notMem_cstr (buffer : Bytes) : (0 : UInt8) ∉ cstr buffer := by
  intro member
  have kept := List.mem_takeWhile_imp member
  simp at kept

theorem cstr_of_zero_notMem {buffer : Bytes} (free : (0 : UInt8) ∉ buffer) :
    cstr buffer = buffer := by
  unfold cstr
  rw [List.takeWhile_eq_self_iff]
  intro byte member
  have nonzero : byte ≠ 0 := fun zero => free (zero ▸ member)
  simpa using nonzero

@[simp] theorem cstr_cstr (buffer : Bytes) : cstr (cstr buffer) = cstr buffer :=
  cstr_of_zero_notMem (zero_notMem_cstr buffer)

/-! ### Case-insensitive comparison -/

/-- `tolower` on a byte of the C locale. -/
def toLower (byte : UInt8) : UInt8 := if 65 ≤ byte ∧ byte ≤ 90 then byte + 32 else byte

/-- `!strcasecmp(a, b)`. -/
def strcaseEq (a b : Bytes) : Bool := a.map toLower == b.map toLower

/-! ### Signed 64-bit integers -/

def llongMax : Nat := 9223372036854775807

/-- Two's-complement reduction to 64 bits. -/
def wrap64 (value : Int) : Int := Int.bmod value (2 ^ 64)

theorem wrap64_of_range {value : Int} (low : -(2 ^ 63) ≤ value) (high : value < 2 ^ 63) :
    wrap64 value = value := by
  unfold wrap64
  rw [Int.bmod_eq_of_le (by norm_num; linarith) (by norm_num; linarith)]

theorem wrap64_of_below {value : Int} (low : -(2 ^ 63) - 2 ^ 64 ≤ value)
    (high : value < -(2 ^ 63)) : wrap64 value = value + 2 ^ 64 := by
  unfold wrap64
  rw [Int.bmod_def]
  omega

theorem wrap64_of_above {value : Int} (low : 2 ^ 63 ≤ value) (high : value < 2 ^ 63 + 2 ^ 64) :
    wrap64 value = value - 2 ^ 64 := by
  unfold wrap64
  rw [Int.bmod_def]
  omega

/-- `(long long)` of an `unsigned long`. -/
def toLongLong (n : UInt64) : Int := wrap64 n.toNat

/-- The result of an operation on `long long`s, unless it overflows. -/
def checked (value : Int) : Option Int :=
  if -(2 ^ 63) ≤ value ∧ value < 2 ^ 63 then some value else none

/-- `condition ? value : other`, where `value` is the result of an operation. -/
def checkedIf (condition : Prop) [Decidable condition] (value other : Int) : Option Int :=
  if condition then checked value else some other

theorem checked_of_range {value : Int} (low : -(2 ^ 63) ≤ value) (high : value < 2 ^ 63) :
    checked value = some value := if_pos ⟨low, high⟩

theorem checkedIf_of_range {condition : Prop} [Decidable condition] {value other : Int}
    (range : condition → -(2 ^ 63) ≤ value ∧ value < 2 ^ 63) :
    checkedIf condition value other = some (if condition then value else other) := by
  unfold checkedIf
  split
  · rename_i holds
    exact checked_of_range (range holds).1 (range holds).2
  · rfl

theorem checked_eq_some {value result : Int} :
    checked value = some result ↔ (-(2 ^ 63) ≤ value ∧ value < 2 ^ 63) ∧ value = result := by
  simp [checked]

/-- The digit loop of `string_to_ll_n`: `v` is the value so far. -/
def stringToLlDigits : Nat → Bytes → Option Nat
  | v, [] => some v
  | v, c :: rest =>
    if c < 48 || c > 57 then none
    else
      let d := c.toNat - 48
      if v > (llongMax - d) / 10 then none
      else stringToLlDigits (v * 10 + d) rest

/-- `string_to_ll_n`. -/
def stringToLlN (s : Bytes) : Option Int :=
  match s with
  | [] => none
  | 45 :: digits => -- '-'
    if digits = [] then none else (stringToLlDigits 0 digits).map fun v => -(v : Int)
  | 43 :: digits => -- '+'
    if digits = [] then none else (stringToLlDigits 0 digits).map fun v => (v : Int)
  | digits => (stringToLlDigits 0 digits).map fun v => (v : Int)

/-- `string_to_ll` on an argument. -/
def stringToLl (s : Bytes) : Option Int := stringToLlN (cstr s)

/-- The range test of the digit loop. -/
theorem not_isDigit_iff (byte : UInt8) :
    (byte < 48 || byte > 57) = true ↔ ¬ Decimal.IsDigit byte := by
  unfold Decimal.IsDigit
  rw [Bool.or_eq_true, decide_eq_true_iff, decide_eq_true_iff, UInt8.lt_iff_toNat_lt, gt_iff_lt,
    UInt8.lt_iff_toNat_lt]
  show byte.toNat < 48 ∨ 57 < byte.toNat ↔ _
  omega

/-- Digits whose value stays in range are read exactly. -/
theorem stringToLlDigits_eq (digits : Bytes) (v : Nat)
    (onlyDigits : ∀ byte ∈ digits, Decimal.IsDigit byte)
    (fits : Decimal.digitsValue v digits ≤ llongMax) :
    stringToLlDigits v digits = some (Decimal.digitsValue v digits) := by
  induction digits generalizing v with
  | nil => rfl
  | cons byte rest ih =>
    have digit := onlyDigits byte List.mem_cons_self
    have step : v * 10 + (byte.toNat - 48) ≤ llongMax :=
      le_trans (Decimal.digitsValue_ge rest _) fits
    have noOverflow : ¬ v > (llongMax - (byte.toNat - 48)) / 10 := by omega
    rw [stringToLlDigits, if_neg ((not_isDigit_iff byte).not.mpr (not_not.mpr digit))]
    dsimp only
    rw [if_neg noOverflow]
    exact ih _ (List.forall_mem_cons.mp onlyDigits).2 fits

theorem stringToLlDigits_digits {digits : Bytes} {v w : Nat}
    (read : stringToLlDigits v digits = some w) : ∀ byte ∈ digits, Decimal.IsDigit byte := by
  induction digits generalizing v with
  | nil => exact fun byte member => absurd member List.not_mem_nil
  | cons c rest ih =>
    unfold stringToLlDigits at read
    dsimp only at read
    split_ifs at read with digit room
    rw [not_isDigit_iff, not_not] at digit
    exact List.forall_mem_cons.mpr ⟨digit, ih read⟩

/-- What is read is the value of the digits. -/
theorem stringToLlDigits_value {digits : Bytes} {v w : Nat}
    (read : stringToLlDigits v digits = some w) : w = Decimal.digitsValue v digits := by
  induction digits generalizing v with
  | nil => exact (Option.some.inj read).symm
  | cons byte rest ih =>
    unfold stringToLlDigits at read
    dsimp only at read
    split_ifs at read
    exact ih read

theorem stringToLlDigits_le {digits : Bytes} {v w : Nat}
    (read : stringToLlDigits v digits = some w) (start : v ≤ llongMax) : w ≤ llongMax := by
  induction digits generalizing v with
  | nil => exact Option.some.inj read ▸ start
  | cons byte rest ih =>
    unfold stringToLlDigits at read
    dsimp only at read
    split_ifs at read with digit room
    have small : byte.toNat < 256 := byte.toNat_lt
    have wide : 256 ≤ llongMax := by decide
    exact ih read (by omega)

/-- An integer text: its sign and its digits. -/
inductive IntegerText : Bytes → Bool → Bytes → Prop
  | unsigned {digits : Bytes} : IntegerText digits false digits
  | plus {digits : Bytes} : IntegerText (43 :: digits) false digits
  | minus {digits : Bytes} : IntegerText (45 :: digits) true digits

theorem stringToLlN_unsigned {c : UInt8} {rest : Bytes} (minus : c ≠ 45) (plus : c ≠ 43) :
    stringToLlN (c :: rest) = (stringToLlDigits 0 (c :: rest)).map fun v : Nat => (v : Int) := by
  unfold stringToLlN
  split
  · rename_i empty; cases empty
  · rename_i same; cases same; exact absurd rfl minus
  · rename_i same; cases same; exact absurd rfl plus
  · cases stringToLlDigits 0 (c :: rest) <;> rfl

theorem stringToLlN_minus {digits : Bytes} (filled : digits ≠ []) :
    stringToLlN (45 :: digits) = (stringToLlDigits 0 digits).map fun v : Nat => -(v : Int) := by
  rw [stringToLlN, if_neg filled]
  cases stringToLlDigits 0 digits <;> rfl

theorem stringToLlN_plus {digits : Bytes} (filled : digits ≠ []) :
    stringToLlN (43 :: digits) = (stringToLlDigits 0 digits).map fun v : Nat => (v : Int) := by
  rw [stringToLlN, if_neg filled]
  cases stringToLlDigits 0 digits <;> rfl

/-- What is read has a sign or none, and digits that the loop accepts. -/
theorem stringToLlN_shape {s : Bytes} {v : Int} (read : stringToLlN s = some v) :
    ∃ negative digits, IntegerText s negative digits ∧ digits ≠ [] ∧
      ∃ w : Nat, stringToLlDigits 0 digits = some w ∧ v = if negative then -(w : Int) else w := by
  cases s with
  | nil => cases read
  | cons c rest =>
    by_cases minus : c = 45
    · subst minus
      have filled : rest ≠ [] := by
        rintro rfl
        cases read
      rw [stringToLlN_minus filled] at read
      obtain ⟨w, loop, rfl⟩ := Option.map_eq_some_iff.mp read
      exact ⟨true, rest, .minus, filled, w, loop, rfl⟩
    by_cases plus : c = 43
    · subst plus
      have filled : rest ≠ [] := by
        rintro rfl
        cases read
      rw [stringToLlN_plus filled] at read
      obtain ⟨w, loop, rfl⟩ := Option.map_eq_some_iff.mp read
      exact ⟨false, rest, .plus, filled, w, loop, rfl⟩
    rw [stringToLlN_unsigned minus plus] at read
    obtain ⟨w, loop, rfl⟩ := Option.map_eq_some_iff.mp read
    exact ⟨false, c :: rest, .unsigned, List.cons_ne_nil _ _, w, loop, rfl⟩

/-- What is read has only digits and signs. -/
theorem stringToLlN_mem {s : Bytes} {v : Int} (read : stringToLlN s = some v) {byte : UInt8}
    (member : byte ∈ s) : Decimal.IsDigit byte ∨ byte = 43 ∨ byte = 45 := by
  obtain ⟨negative, digits, shape, _, w, loop, _⟩ := stringToLlN_shape read
  have onlyDigits := stringToLlDigits_digits loop
  cases shape with
  | unsigned => exact .inl (onlyDigits byte member)
  | plus =>
    rcases List.mem_cons.mp member with sign | digit
    · exact .inr (.inl sign)
    · exact .inl (onlyDigits byte digit)
  | minus =>
    rcases List.mem_cons.mp member with sign | digit
    · exact .inr (.inr sign)
    · exact .inl (onlyDigits byte digit)

/-- What is read fits a `long long`. -/
theorem stringToLlN_range {s : Bytes} {v : Int} (read : stringToLlN s = some v) :
    -(llongMax : Int) ≤ v ∧ v ≤ llongMax := by
  obtain ⟨negative, digits, _, _, w, loop, rfl⟩ := stringToLlN_shape read
  have bound := stringToLlDigits_le loop (Nat.zero_le _)
  split_ifs <;> omega

theorem stringToLl_range {s : Bytes} {v : Int} (read : stringToLl s = some v) :
    -(llongMax : Int) ≤ v ∧ v ≤ llongMax := stringToLlN_range read

/-- A printed size is read without a sign. -/
theorem stringToLlN_digits (n : Nat) :
    stringToLlN (Decimal.render n) =
      (stringToLlDigits 0 (Decimal.render n)).map fun v : Nat => (v : Int) := by
  cases shape : Decimal.render n with
  | nil => exact absurd shape (Decimal.render_ne_nil n)
  | cons first rest =>
    have digit : Decimal.IsDigit first := Decimal.render_digit (n := n) (shape ▸ List.mem_cons_self)
    have notMinus : first ≠ 45 := by rintro rfl; exact absurd digit (by decide)
    have notPlus : first ≠ 43 := by rintro rfl; exact absurd digit (by decide)
    exact stringToLlN_unsigned notMinus notPlus

theorem stringToLlDigits_render {n : Nat} (fits : n ≤ llongMax) :
    stringToLlDigits 0 (Decimal.render n) = some n := by
  have value := Decimal.digitsValue_render n
  rw [stringToLlDigits_eq _ _ (fun _ member => Decimal.render_digit member)
    (by rw [value]; exact fits), value]

/-- **A printed size reads back.** -/
theorem stringToLlN_render {n : Nat} (fits : n ≤ llongMax) :
    stringToLlN (Decimal.render n) = some (n : Int) := by
  rw [stringToLlN_digits, stringToLlDigits_render fits]
  rfl

/-- A printed size that is too large does not read back as another number. -/
theorem stringToLlN_render_value {n : Nat} {v : Int}
    (read : stringToLlN (Decimal.render n) = some v) : v = n := by
  rw [stringToLlN_digits] at read
  obtain ⟨w, digits, rfl⟩ := Option.map_eq_some_iff.mp read
  rw [stringToLlDigits_value digits, Decimal.digitsValue_render]

theorem renderInt_free {t : Int} : (0 : UInt8) ∉ Decimal.renderInt t := by
  have digits : (0 : UInt8) ∉ Decimal.render t.natAbs := fun member =>
    absurd (Decimal.render_digit member) (by decide)
  unfold Decimal.renderInt
  split
  · rw [List.mem_cons, not_or]
    exact ⟨by decide, digits⟩
  · exact digits

/-- **A printed number reads back, except the least `long long`.** -/
theorem stringToLlN_renderInt {t : Int} (low : -(llongMax : Int) ≤ t) (high : t ≤ llongMax) :
    stringToLlN (Decimal.renderInt t) = some t := by
  have fits : t.natAbs ≤ llongMax := by omega
  by_cases negative : t < 0
  · rw [Decimal.renderInt, if_pos negative, stringToLlN_minus (Decimal.render_ne_nil _),
      stringToLlDigits_render fits]
    have back : -(t.natAbs : Int) = t := by omega
    exact congrArg some back
  · rw [Decimal.renderInt, if_neg negative, stringToLlN_render fits]
    exact congrArg some (by omega)

/-- A number that is not negative reads back from its text. -/
theorem stringToLl_renderInt {t : Int} (low : 0 ≤ t) (high : t < 2 ^ 63) :
    stringToLl (Decimal.renderInt t) = some t := by
  have fits : t ≤ llongMax := by
    unfold llongMax
    omega
  rw [stringToLl, cstr_of_zero_notMem renderInt_free]
  exact stringToLlN_renderInt (by omega) fits

end Miniredis
