/-
**Numbers as bytes: decimal text, and big-endian integers of a fixed width.**

`render n` is the text a `%d`-style conversion prints for a natural number and `renderInt` its
signed form; `digitsValue` reads a digit string from the left, as a `v = v * 10 + d` loop does.

* `digitsValue_render` — reading the text of `n` gives `n` back;
* `render_digit` — the text holds digit bytes only;
* `render_length_le` — a number below `10 ^ k` takes at most `k` bytes;
* `BigEndian.decode_encode`, `encode_decode` — decoding gives the value modulo the width, and
  encoding the bytes again;
* `decode_lt` — what as many bytes denote fits the width.
-/

import Mathlib.Data.List.Basic
import Mathlib.Data.Nat.Digits.Lemmas
import Mathlib.Tactic

/-! ### Decimal text -/

namespace Decimal

/-- The byte of a digit. -/
def digitByte (digit : Nat) : UInt8 := UInt8.ofNat (48 + digit)

/-- A byte that is a decimal digit. -/
def IsDigit (byte : UInt8) : Prop := 48 ≤ byte.toNat ∧ byte.toNat ≤ 57

instance (byte : UInt8) : Decidable (IsDigit byte) := inferInstanceAs (Decidable (_ ∧ _))

/-- The decimal text of a natural number, most significant digit first. -/
def render (n : Nat) : List UInt8 :=
  if n = 0 then [48] else (Nat.digits 10 n).reverse.map digitByte

/-- The decimal text of an integer. -/
def renderInt (v : Int) : List UInt8 :=
  if v < 0 then 45 :: render v.natAbs else render v.natAbs

/-- The value of a digit string read from the left, on top of `start`. -/
def digitsValue (start : Nat) (digits : List UInt8) : Nat :=
  digits.foldl (fun value byte => value * 10 + (byte.toNat - 48)) start

theorem digitByte_toNat {digit : Nat} (small : digit < 10) :
    (digitByte digit).toNat = 48 + digit := by
  unfold digitByte
  rw [UInt8.toNat_ofNat_of_lt']
  show 48 + digit < 256
  omega

theorem digit_small {n digit : Nat} (member : digit ∈ Nat.digits 10 n) : digit < 10 :=
  Nat.digits_lt_base (by norm_num) member

theorem render_ne_nil (n : Nat) : render n ≠ [] := by
  unfold render
  split
  · simp
  · rename_i nonzero
    simp [Nat.digits_ne_nil_iff_ne_zero, nonzero]

/-- The text of a number holds digits only. -/
theorem render_digit {n : Nat} {byte : UInt8} (member : byte ∈ render n) : IsDigit byte := by
  unfold render at member
  split at member
  · rw [List.mem_singleton] at member
    subst member
    decide
  · obtain ⟨digit, inside, rfl⟩ := List.mem_map.mp member
    have small := digit_small (List.mem_reverse.mp inside)
    unfold IsDigit
    rw [digitByte_toNat small]
    omega

theorem digitsValue_reverse (digits : List Nat) (small : ∀ digit ∈ digits, digit < 10) :
    digitsValue 0 (digits.reverse.map digitByte) = Nat.ofDigits 10 digits := by
  induction digits with
  | nil => rfl
  | cons digit rest ih =>
    have here := small digit List.mem_cons_self
    have tail := ih (List.forall_mem_cons.mp small).2
    unfold digitsValue at tail ⊢
    rw [List.reverse_cons, List.map_append, List.foldl_append, tail, Nat.ofDigits_cons]
    simp only [List.map_cons, List.map_nil, List.foldl_cons, List.foldl_nil, digitByte_toNat here]
    omega

/-- **Reading the text of a number gives the number.** -/
theorem digitsValue_render (n : Nat) : digitsValue 0 (render n) = n := by
  unfold render
  split
  · rename_i zero
    rw [zero]
    rfl
  · rw [digitsValue_reverse _ fun digit member => digit_small member, Nat.ofDigits_digits]

theorem render_injective : Function.Injective render := fun n m same => by
  rw [← digitsValue_render n, same, digitsValue_render]

theorem renderInt_injective : Function.Injective renderInt := by
  have signed (a b : Nat) : 45 :: render a ≠ render b := fun same => by
    have digit : IsDigit 45 := render_digit (n := b) (same ▸ List.mem_cons_self)
    exact absurd digit (by decide)
  intro n m same
  unfold renderInt at same
  split_ifs at same with negative negative' negative'
  · have sizes := render_injective (List.cons.inj same).2
    omega
  · exact absurd same (signed _ _)
  · exact absurd same.symm (signed _ _)
  · have sizes := render_injective same
    omega

/-- A number below `10 ^ k` has at most `k` digits. -/
theorem render_length_le {n k : Nat} (positive : 0 < k) (below : n < 10 ^ k) :
    (render n).length ≤ k := by
  unfold render
  split
  · exact positive
  · rw [List.length_map, List.length_reverse]
    exact (Nat.digits_length_le_iff (by norm_num) n).mpr below

/-- Reading more digits only grows the value. -/
theorem digitsValue_ge (digits : List UInt8) (start : Nat) : start ≤ digitsValue start digits := by
  induction digits generalizing start with
  | nil => exact le_rfl
  | cons byte rest ih =>
    refine le_trans ?_ (ih (start * 10 + (byte.toNat - 48)))
    omega

end Decimal

/-! ### Big-endian integers -/

namespace BigEndian

/-- The low `width` bytes of a number, most significant first. -/
def encode : Nat → Nat → List UInt8
  | 0, _ => []
  | width + 1, n => encode width (n / 256) ++ [UInt8.ofNat (n % 256)]

/-- The number a byte string denotes. -/
def decode (bytes : List UInt8) : Nat := bytes.foldl (fun value byte => value * 256 + byte.toNat) 0

@[simp]
theorem encode_length (width n : Nat) : (encode width n).length = width := by
  induction width generalizing n with
  | zero => rfl
  | succ width ih => simp [encode, ih]

theorem decode_encode (width n : Nat) : decode (encode width n) = n % 256 ^ width := by
  induction width generalizing n with
  | zero => simp [encode, decode, Nat.mod_one]
  | succ width ih =>
    have front := ih (n / 256)
    unfold decode at front ⊢
    rw [encode, List.foldl_append, front]
    have byte : (UInt8.ofNat (n % 256)).toNat = n % 256 := by
      rw [UInt8.toNat_ofNat']; omega
    simp only [List.foldl_cons, List.foldl_nil, byte]
    rw [pow_succ, mul_comm (256 ^ width) 256, Nat.mod_mul, mul_comm, add_comm]

theorem decode_concat (bytes : List UInt8) (byte : UInt8) :
    decode (bytes ++ [byte]) = decode bytes * 256 + byte.toNat := by
  unfold decode
  rw [List.foldl_append]
  rfl

theorem decode_lt (bytes : List UInt8) : decode bytes < 256 ^ bytes.length := by
  induction bytes using List.reverseRecOn with
  | nil => simp [decode]
  | append_singleton bytes byte ih =>
    have small := byte.toNat_lt
    rw [decode_concat, List.length_append, List.length_singleton, pow_succ]
    omega

theorem encode_decode (bytes : List UInt8) : encode bytes.length (decode bytes) = bytes := by
  induction bytes using List.reverseRecOn with
  | nil => rfl
  | append_singleton bytes byte ih =>
    have small := byte.toNat_lt
    have front : (decode bytes * 256 + byte.toNat) / 256 = decode bytes := by omega
    have last : (decode bytes * 256 + byte.toNat) % 256 = byte.toNat := by omega
    rw [decode_concat, List.length_append, List.length_singleton, encode, front, last, ih,
      UInt8.ofNat_toNat]

end BigEndian
