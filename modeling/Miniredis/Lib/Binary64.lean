/-
**IEEE-754 binary64: order, addition, decimal text.**

A `Double` is its bit pattern. Finite values are integers in units of `2 ^ -1074`, so addition and
decimal input are exact integer or quotient arithmetic followed by one rounding to nearest, ties to
even (`ofQuot`).

* `lt`, `eq` — the comparisons of the language: through `rank`, which is monotone in the value and
  identifies the two zeros; false on NaN;
* `add` — addition; `zero_add_magnitude`: adding to zero is exact;
* `strtod` — text to number: blanks, sign, `inf`, `nan`, hexadecimal and decimal forms, with the
  range error on overflow and on an inexact result below the normal range, and the unread rest;
* `formatG17` — what `%.17g` prints.
-/

import Miniredis.Lib.Numerals

structure Double where
  bits : UInt64
deriving DecidableEq, Repr

namespace Double

/-! ### Fields and order -/

/-- The bit pattern without its sign. -/
def magnitude (d : Double) : Nat := d.bits.toNat % 2 ^ 63

def negative (d : Double) : Bool := 2 ^ 63 ≤ d.bits.toNat

/-- The magnitude of the infinities. -/
def infMagnitude : Nat := 2047 * 2 ^ 52

def isNaN (d : Double) : Bool := infMagnitude < d.magnitude

def isInf (d : Double) : Bool := d.magnitude = infMagnitude

def ofMagnitude (sign : Bool) (magnitude : Nat) : Double :=
  ⟨UInt64.ofNat (if sign then 2 ^ 63 + magnitude else magnitude)⟩

def nan : Double := ⟨0x7ff8000000000000⟩

def zero : Double := ⟨0⟩

/-- The position of a value on the line; both zeros have rank `0`. -/
def rank (d : Double) : Int := if d.negative then -(d.magnitude : Int) else d.magnitude

/-- `a < b`. -/
def lt (a b : Double) : Bool := !a.isNaN && !b.isNaN && a.rank < b.rank

/-- `a == b`. -/
def eq (a b : Double) : Bool := !a.isNaN && !b.isNaN && a.rank = b.rank

/-! ### Values and rounding -/

/-- The absolute value of a finite double in units of `2 ^ -1074`. -/
def units (d : Double) : Nat :=
  let exponent := d.magnitude / 2 ^ 52
  let fraction := d.magnitude % 2 ^ 52
  if exponent = 0 then fraction else (2 ^ 52 + fraction) * 2 ^ (exponent - 1)

/-- `num / den` rounded to an integer, ties to even. -/
def roundHalfEven (num den : Nat) : Nat :=
  let quotient := num / den
  let twice := 2 * (num % den)
  if twice < den then quotient
  else if den < twice then quotient + 1
  else quotient + quotient % 2

/-- The magnitude nearest to `num / den` units. A value of `2 ^ (52 + s)` units or more is rounded
to a multiple of `2 ^ s`; the significand carries into the exponent by itself. -/
def ofQuot (num den : Nat) : Nat :=
  let shift := Nat.log2 (num / den) - 52
  min (roundHalfEven num (den * 2 ^ shift) + shift * 2 ^ 52) infMagnitude

/-- `a + b`. -/
def add (a b : Double) : Double :=
  if a.isNaN || b.isNaN then nan
  else if a.isInf then (if b.isInf && a.negative != b.negative then nan else a)
  else if b.isInf then b
  else
    let value (d : Double) : Int := if d.negative then -(d.units : Int) else d.units
    let sum := value a + value b
    if sum = 0 then ofMagnitude (a.negative && b.negative) 0
    else ofMagnitude (sum < 0) (ofQuot sum.natAbs 1)

/-! ### `strtod` -/

/-- What a conversion returns: the value, whether it set the range error, the unread rest. -/
structure Conversion where
  value : Double
  range : Bool
  rest : List UInt8

/-- Leading bytes that satisfy a test, and the rest. -/
def spanBytes (test : UInt8 → Bool) (s : List UInt8) : List UInt8 × List UInt8 :=
  (s.takeWhile test, s.dropWhile test)

def isSpace (c : UInt8) : Bool := c = 32 || (9 ≤ c && c ≤ 13)

def isDecimal (c : UInt8) : Bool := 48 ≤ c && c ≤ 57

def hexValue (c : UInt8) : Option Nat :=
  if 48 ≤ c ∧ c ≤ 57 then some (c.toNat - 48)
  else if 97 ≤ c ∧ c ≤ 102 then some (c.toNat - 87)
  else if 65 ≤ c ∧ c ≤ 70 then some (c.toNat - 55)
  else none

/-- The case-folded text starts with `word`; the rest comes back. -/
def dropWord (word : List UInt8) (s : List UInt8) : Option (List UInt8) :=
  if (s.take word.length).map (fun c => if 65 ≤ c ∧ c ≤ 90 then c + 32 else c) = word then
    some (s.drop word.length)
  else none

/-- The magnitude nearest to `num / den` units, and the range error: the result is infinite, or it
is inexact and lies below the normal range (judged after rounding to full precision). -/
def rounded (num den : Nat) : Nat × Bool :=
  let magnitude := ofQuot num den
  let tiny := magnitude < 2 ^ 52 || (magnitude = 2 ^ 52 && roundHalfEven (2 * num) den < 2 ^ 53)
  (magnitude, magnitude = infMagnitude || (tiny && num % den ≠ 0))

/-- `significand * base ^ exponent`, in units. -/
def scaled (significand base : Nat) (exponent : Int) : Nat × Bool :=
  if 0 ≤ exponent then rounded (significand * base ^ exponent.toNat * 2 ^ 1074) 1
  else rounded (significand * 2 ^ 1074) (base ^ exponent.natAbs)

/-- An optional exponent part: the letter, a sign, at least one digit. -/
def exponentPart (letter : UInt8) (s : List UInt8) : Int × List UInt8 :=
  match s with
  | c :: rest =>
    if c = letter ∨ c + 32 = letter then
      let (sign, body) := match rest with
        | 43 :: body => (false, body)
        | 45 :: body => (true, body)
        | body => (false, body)
      let (digits, after) := spanBytes isDecimal body
      if digits = [] then (0, s)
      else
        let value : Int := Decimal.digitsValue 0 digits
        (if sign then -value else value, after)
    else (0, s)
  | [] => (0, s)

/-- Digits, an optional point and more digits. -/
def pointedDigits (test : UInt8 → Bool) (s : List UInt8) : List UInt8 × List UInt8 × List UInt8 :=
  let (whole, rest) := spanBytes test s
  match rest with
  | 46 :: body =>
    let (fraction, after) := spanBytes test body
    if whole = [] ∧ fraction = [] then ([], [], s) else (whole, fraction, after)
  | _ => (whole, [], rest)

def decimalForm (sign : Bool) (s : List UInt8) : Option Conversion :=
  let (whole, fraction, rest) := pointedDigits isDecimal s
  if whole = [] ∧ fraction = [] then none
  else
    let significand := Decimal.digitsValue 0 (whole ++ fraction)
    let (exponent, rest) := exponentPart 101 rest
    let (magnitude, range) := scaled significand 10 (exponent - fraction.length)
    some ⟨ofMagnitude sign magnitude, range, rest⟩

def hexForm (sign : Bool) (s : List UInt8) : Option Conversion :=
  let (whole, fraction, rest) := pointedDigits (fun c => (hexValue c).isSome) s
  if whole = [] ∧ fraction = [] then none
  else
    let significand :=
      (whole ++ fraction).foldl (fun value c => value * 16 + (hexValue c).getD 0) 0
    let (exponent, rest) := exponentPart 112 rest
    let (magnitude, range) := scaled significand 2 (exponent - 4 * fraction.length)
    some ⟨ofMagnitude sign magnitude, range, rest⟩

/-- The subject sequence after blanks and sign. -/
def unsignedForm (sign : Bool) (s : List UInt8) : Option Conversion :=
  match dropWord [105, 110, 102, 105, 110, 105, 116, 121] s with -- "infinity"
  | some rest => some ⟨ofMagnitude sign infMagnitude, false, rest⟩
  | none =>
    match dropWord [105, 110, 102] s with -- "inf"
    | some rest => some ⟨ofMagnitude sign infMagnitude, false, rest⟩
    | none =>
      match dropWord [110, 97, 110] s with -- "nan"
      | some rest => some ⟨nan, false, rest⟩
      | none =>
        match (dropWord [48, 120] s).bind (hexForm sign) with -- "0x"
        | some conversion => some conversion
        | none => decimalForm sign s

/-- `strtod`; `none` when nothing was converted. -/
def strtod (s : List UInt8) : Option Conversion :=
  match s.dropWhile isSpace with
  | 43 :: body => unsignedForm false body
  | 45 :: body => unsignedForm true body
  | body => unsignedForm false body

/-! ### `%.17g` -/

def stripZeros (digits : List UInt8) : List UInt8 :=
  (digits.reverse.dropWhile (· == 48)).reverse

/-- A point and the digits after it, none when they are all zeros. -/
def pointed (digits : List UInt8) : List UInt8 :=
  let kept := stripZeros digits
  if kept = [] then [] else 46 :: kept

/-- The decimal exponent of a positive number of units. -/
def decimalExponent (units : Nat) : Int :=
  if 2 ^ 1074 ≤ units then Nat.log 10 (units / 2 ^ 1074)
  else -(Nat.log 10 ((2 ^ 1074 - 1) / units) + 1 : Int)

/-- The seventeen significant digits of a positive number of units and their exponent. -/
def digits17 (units : Nat) : Nat × Int :=
  let x := decimalExponent units
  let digits :=
    if x ≤ 16 then roundHalfEven (units * 10 ^ (16 - x).toNat) (2 ^ 1074)
    else roundHalfEven units (2 ^ 1074 * 10 ^ (x - 16).toNat)
  if digits = 10 ^ 17 then (10 ^ 16, x + 1) else (digits, x)

def formatG17 (d : Double) : List UInt8 :=
  let sign : List UInt8 := if d.negative then [45] else []
  if d.isNaN then sign ++ [110, 97, 110]
  else if d.isInf then sign ++ [105, 110, 102]
  else if d.units = 0 then sign ++ [48]
  else
    let (digits, x) := digits17 d.units
    let digits := Decimal.render digits
    if x < -4 ∨ 17 ≤ x then
      let exponent := Decimal.render x.natAbs
      sign ++ digits.take 1 ++ pointed (digits.drop 1) ++ [101, if x < 0 then 45 else 43] ++
        (if exponent.length < 2 then 48 :: exponent else exponent)
    else if 0 ≤ x then
      sign ++ digits.take (x.toNat + 1) ++ pointed (digits.drop (x.toNat + 1))
    else sign ++ [48] ++ pointed (List.replicate (x.natAbs - 1) 48 ++ digits)

theorem mem_pointed {digits : List UInt8} {byte : UInt8} (member : byte ∈ pointed digits) :
    byte = 46 ∨ byte ∈ digits := by
  have stripped : ∀ byte ∈ stripZeros digits, byte ∈ digits := fun byte member =>
    List.mem_reverse.mp ((List.dropWhile_sublist _).subset (List.mem_reverse.mp member))
  unfold pointed at member
  dsimp only at member
  split at member
  · cases member
  · rcases List.mem_cons.mp member with point | digit
    · exact .inl point
    · exact .inr (stripped byte digit)

/-- The text of a number holds no NUL. -/
theorem zero_notMem_formatG17 (d : Double) : (0 : UInt8) ∉ formatG17 d := by
  have sign : (0 : UInt8) ∉ (if d.negative then [45] else [] : List UInt8) := by
    split <;> decide
  have digits : ∀ n, (0 : UInt8) ∉ Decimal.render n := fun n member =>
    absurd (Decimal.render_digit member) (by decide)
  have fraction : ∀ l, (0 : UInt8) ∉ l → (0 : UInt8) ∉ pointed l := fun l free member => by
    rcases mem_pointed member with point | digit
    · exact absurd point (by decide)
    · exact free digit
  have take : ∀ n m, (0 : UInt8) ∉ (Decimal.render n).take m := fun n m member =>
    digits n (List.mem_of_mem_take member)
  have drop : ∀ n m, (0 : UInt8) ∉ pointed ((Decimal.render n).drop m) := fun n m =>
    fraction _ fun member => digits n (List.mem_of_mem_drop member)
  unfold formatG17
  dsimp only
  split
  · simp [sign]
  split
  · simp [sign]
  split
  · simp [sign]
  split
  · have mark : (0 : UInt8) ≠ if (digits17 d.units).2 < 0 then 45 else 43 := by split <;> decide
    simp only [List.mem_append, List.mem_cons, List.not_mem_nil, or_false, not_or]
    refine ⟨⟨⟨⟨sign, take _ _⟩, drop _ _⟩, by decide, mark⟩, ?_⟩
    split
    · rw [List.mem_cons, not_or]
      exact ⟨by decide, digits _⟩
    · exact digits _
  split
  · simp only [List.mem_append, not_or]
    exact ⟨⟨sign, take _ _⟩, drop _ _⟩
  · simp only [List.mem_append, not_or]
    refine ⟨⟨sign, by decide⟩, fraction _ ?_⟩
    rw [List.mem_append, not_or]
    exact ⟨fun member => absurd (List.eq_of_mem_replicate member) (by decide), digits _⟩

/-! ### Adding to zero -/

theorem magnitude_ofMagnitude {sign : Bool} {m : Nat} (small : m < 2 ^ 63) :
    (ofMagnitude sign m).magnitude = m := by
  unfold ofMagnitude magnitude
  have wide : (if sign then 2 ^ 63 + m else m) < 2 ^ 64 := by split_ifs <;> omega
  rw [UInt64.toNat_ofNat_of_lt' wide]
  split_ifs
  · rw [Nat.add_mod_left, Nat.mod_eq_of_lt small]
  · exact Nat.mod_eq_of_lt small

/-- A number of units that is a multiple of its last place is not rounded. -/
theorem roundHalfEven_mul {n den : Nat} (positive : 0 < den) :
    roundHalfEven (n * den) den = n := by
  unfold roundHalfEven
  rw [Nat.mul_mod_left, Nat.mul_div_cancel n positive]
  simp [positive]

/-- The units of a finite double are those of its magnitude. -/
theorem ofQuot_units {d : Double} (finite : d.magnitude < infMagnitude) :
    ofQuot d.units 1 = d.magnitude := by
  have parts := Nat.div_add_mod d.magnitude (2 ^ 52)
  have fraction := Nat.mod_lt d.magnitude (show 0 < 2 ^ 52 by norm_num)
  unfold ofQuot units
  dsimp only
  rw [Nat.div_one, one_mul]
  split_ifs with subnormal
  · have short : Nat.log2 (d.magnitude % 2 ^ 52) - 52 = 0 := by
      by_cases zero : d.magnitude % 2 ^ 52 = 0
      · rw [zero]
        rfl
      · have below := (Nat.log2_lt zero).mpr fraction
        omega
    rw [short, pow_zero]
    have whole := roundHalfEven_mul (n := d.magnitude % 2 ^ 52) one_pos
    rw [mul_one] at whole
    rw [whole, zero_mul, add_zero, min_eq_left (by omega)]
    omega
  · have place : Nat.log2 ((2 ^ 52 + d.magnitude % 2 ^ 52) * 2 ^ (d.magnitude / 2 ^ 52 - 1)) =
        52 + (d.magnitude / 2 ^ 52 - 1) := by
      rw [Nat.log2_eq_iff (by positivity)]
      constructor
      · rw [pow_add]
        exact Nat.mul_le_mul_right _ (Nat.le_add_right _ _)
      · rw [show 52 + (d.magnitude / 2 ^ 52 - 1) + 1 = 53 + (d.magnitude / 2 ^ 52 - 1) by omega,
          pow_add]
        exact Nat.mul_lt_mul_of_pos_right (by omega) (by positivity)
    rw [place, Nat.add_sub_cancel_left, roundHalfEven_mul (by positivity), Nat.sub_mul, one_mul]
    have carried : 2 ^ 52 + d.magnitude % 2 ^ 52 + (d.magnitude / 2 ^ 52 * 2 ^ 52 - 2 ^ 52) =
        d.magnitude := by omega
    rw [carried, min_eq_left finite.le]

/-- **Adding to zero is exact.** -/
theorem zero_add_magnitude {d : Double} (finite : d.magnitude < infMagnitude) :
    (zero.add d).magnitude = d.magnitude := by
  have bound : infMagnitude < 2 ^ 63 := by decide
  have number : d.isNaN = false := by simpa [isNaN] using finite.le
  have bounded : d.isInf = false := by simpa [isInf] using finite.ne
  have units : ofQuot d.units 1 = d.magnitude := ofQuot_units finite
  have start : (if zero.negative then -(zero.units : Int) else zero.units) = 0 := by decide
  unfold add
  rw [number, bounded, show zero.isNaN = false from rfl, show zero.isInf = false from rfl]
  simp only [Bool.or_self, Bool.false_eq_true, if_false, start, zero_add]
  have size : (if d.negative then -(d.units : Int) else d.units).natAbs = d.units := by
    split_ifs
    · rw [Int.natAbs_neg, Int.natAbs_natCast]
    · rw [Int.natAbs_natCast]
  generalize (if d.negative then -(d.units : Int) else d.units) = value at size ⊢
  split_ifs with none
  · rw [← Int.natAbs_eq_zero, size] at none
    rw [magnitude_ofMagnitude (by norm_num), ← units, none]
    decide
  · rw [size, units, magnitude_ofMagnitude (finite.trans bound)]

/-- A finite number is neither an infinity nor a NaN. -/
theorem finite_iff {d : Double} :
    d.magnitude < infMagnitude ↔ d.isNaN = false ∧ d.isInf = false := by
  unfold isNaN isInf
  rw [decide_eq_false_iff_not, decide_eq_false_iff_not]
  omega

/-- An infinity added to zero stays one. -/
theorem zero_add_inf {d : Double} (infinite : d.isInf = true) : zero.add d = d := by
  have number : d.isNaN = false := by
    unfold isNaN
    unfold isInf at infinite
    rw [decide_eq_true_eq] at infinite
    simp [infinite]
  unfold add
  rw [number, infinite, show zero.isNaN = false from rfl, show zero.isInf = false from rfl]
  rfl

end Double
