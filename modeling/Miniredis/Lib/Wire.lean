/-
**Values of the Redis protocol on the wire.**

A value is a line, a number, a counted string, a null or a counted array. Its text says where it
ends: whatever follows, a reader that finds the text of a value finds that value and nothing else
(`encode_append_inj`).
-/

import Miniredis.Lib.Numerals
import Mathlib.Data.List.Infix

namespace Wire

/-! ### Lines -/

section Lines

variable {line line' rest rest' : List UInt8}

/-- No CR LF stands in the line. -/
def Plain (line : List UInt8) : Prop := ¬ [13, 10] <:+: line

theorem Plain.of_notMem (free : 13 ∉ line) : Plain line :=
  fun inside => free (inside.subset (by simp))

theorem plain_cons {byte : UInt8} :
    Plain (byte :: line) ↔ ¬ [13, 10] <+: byte :: line ∧ Plain line := by
  unfold Plain
  rw [List.infix_cons_iff, not_or]

theorem Plain.tail {byte : UInt8} (plain : Plain (byte :: line)) : Plain line :=
  (plain_cons.mp plain).2

theorem plain_append_left {front : List UInt8} (free : 13 ∉ front) :
    Plain (front ++ line) ↔ Plain line := by
  induction front with
  | nil => rfl
  | cons byte front ih =>
    rw [List.mem_cons, not_or] at free
    refine ⟨fun plain => (ih free.2).mp plain.tail, fun plain inside => ?_⟩
    rcases List.infix_cons_iff.mp inside with here | later
    · exact free.1 (List.cons_prefix_cons.mp here).1
    · exact (ih free.2).mpr plain later

theorem plain_concat {byte : UInt8} (other : byte ≠ 10) : Plain (line ++ [byte]) ↔ Plain line := by
  refine ⟨fun plain inside => plain (inside.trans (List.prefix_append line [byte]).isInfix),
    fun plain inside => ?_⟩
  rcases List.infix_concat_iff.mp inside with here | before
  · rcases List.suffix_concat_iff.mp here with nothing | ⟨front, same, _⟩
    · cases nothing
    · have last := congrArg List.getLast? same
      rw [List.getLast?_concat] at last
      exact other (Option.some.inj last).symm
  · exact plain before

/-- A plain line ends at the first CR LF. -/
theorem Plain.split (plain : Plain line) (plain' : Plain line')
    (same : line ++ 13 :: 10 :: rest = line' ++ 13 :: 10 :: rest') :
    line = line' ∧ rest = rest' := by
  induction line generalizing line' with
  | nil =>
    rcases line' with _ | ⟨byte, _ | ⟨next, line'⟩⟩
    · simpa using same
    · simp at same
    · simp only [List.nil_append, List.cons_append, List.cons.injEq] at same
      obtain ⟨rfl, rfl, _⟩ := same
      exact absurd (List.prefix_append [13, 10] line').isInfix plain'
  | cons byte line ih =>
    rcases line' with _ | ⟨byte', line'⟩
    · rcases line with _ | ⟨next, line⟩
      · simp at same
      · simp only [List.nil_append, List.cons_append, List.cons.injEq] at same
        obtain ⟨rfl, rfl, _⟩ := same
        exact absurd (List.prefix_append [13, 10] line).isInfix plain
    · simp only [List.cons_append, List.cons.injEq] at same
      obtain ⟨rfl, same⟩ := same
      obtain ⟨rfl, rfl⟩ := ih plain.tail plain'.tail same
      exact ⟨rfl, rfl⟩

/-- A line that can stand in a value. -/
structure Line where
  bytes : List UInt8
  plain : Plain bytes

theorem render_free (n : Nat) : (13 : UInt8) ∉ Decimal.render n := by
  intro member
  have digit := Decimal.render_digit member
  unfold Decimal.IsDigit at digit
  simp at digit

theorem plain_render (n : Nat) : Plain (Decimal.render n) := .of_notMem (render_free n)

theorem plain_renderInt (n : Int) : Plain (Decimal.renderInt n) := by
  refine .of_notMem fun member => ?_
  unfold Decimal.renderInt at member
  split_ifs at member
  · rcases List.mem_cons.mp member with sign | digits
    · cases sign
    · exact render_free _ digits
  · exact render_free _ member

end Lines

/-! ### Values -/

inductive Value where
  | simple (line : Line)
  | error (line : Line)
  | integer (n : Int)
  | bulk (payload : List UInt8)
  | null
  | array (items : List Value)

mutual

/-- The text of a value. -/
def Value.encode : Value → List UInt8
  | .simple line => 43 :: (line.bytes ++ [13, 10])
  | .error line => 45 :: (line.bytes ++ [13, 10])
  | .integer n => 58 :: (Decimal.renderInt n ++ [13, 10])
  | .bulk payload => 36 :: (Decimal.render payload.length ++ 13 :: 10 :: (payload ++ [13, 10]))
  | .null => 36 :: ([45, 49] ++ [13, 10])
  | .array items => 42 :: (Decimal.render items.length ++ 13 :: 10 :: Value.encodeAll items)

/-- The texts of values one after another. -/
def Value.encodeAll : List Value → List UInt8
  | [] => []
  | v :: rest => v.encode ++ Value.encodeAll rest

end

theorem Value.encodeAll_eq (items : List Value) :
    Value.encodeAll items = items.flatMap Value.encode := by
  induction items with
  | nil => rfl
  | cons v rest ih => rw [encodeAll, ih, List.flatMap_cons]

/-! ### Reading back -/

/-- A counted string is no null. -/
theorem render_ne_minus (n : Nat) (text rest rest' : List UInt8) :
    Decimal.render n ++ rest ≠ 45 :: text ++ rest' := by
  intro same
  cases shape : Decimal.render n with
  | nil => exact Decimal.render_ne_nil n shape
  | cons byte digits =>
    rw [shape] at same
    have digit : Decimal.IsDigit byte := Decimal.render_digit (n := n) (shape ▸ List.mem_cons_self)
    obtain ⟨rfl, _⟩ := List.cons.inj same
    exact absurd digit (by decide)

theorem Line.ext {line line' : Line} (same : line.bytes = line'.bytes) : line = line' := by
  cases line
  cases line'
  cases same
  rfl

/-- As many values are found in one way if each of them is. -/
theorem Value.encodeAll_append_inj {vs ws : List Value} {rest rest' : List UInt8}
    (each : ∀ v ∈ vs, ∀ (w : Value) (rest rest' : List UInt8),
      v.encode ++ rest = w.encode ++ rest' → v = w ∧ rest = rest')
    (lengths : vs.length = ws.length) (same : encodeAll vs ++ rest = encodeAll ws ++ rest') :
    vs = ws ∧ rest = rest' := by
  induction vs generalizing ws with
  | nil =>
    obtain rfl := List.length_eq_zero_iff.mp lengths.symm
    exact ⟨rfl, same⟩
  | cons v vs ih =>
    obtain ⟨w, ws, rfl⟩ := List.exists_cons_of_length_eq_add_one lengths.symm
    simp only [encodeAll, List.append_assoc] at same
    obtain ⟨rfl, later⟩ := each v List.mem_cons_self w _ _ same
    obtain ⟨rfl, rests⟩ :=
      ih (List.forall_mem_cons.mp each).2 (Nat.succ.inj lengths) later
    exact ⟨rfl, rests⟩

/-- **The text of a value is found in one way, whatever follows.** -/
theorem Value.encode_append_inj : (v w : Value) → (rest rest' : List UInt8) →
    v.encode ++ rest = w.encode ++ rest' → v = w ∧ rest = rest'
  | .simple line, .simple line', rest, rest', same => by
    simp only [encode, List.cons_append, List.append_assoc, List.nil_append, List.cons.injEq,
      true_and] at same
    obtain ⟨lines, rests⟩ := line.plain.split line'.plain same
    exact ⟨congrArg simple (Line.ext lines), rests⟩
  | .error line, .error line', rest, rest', same => by
    simp only [encode, List.cons_append, List.append_assoc, List.nil_append, List.cons.injEq,
      true_and] at same
    obtain ⟨lines, rests⟩ := line.plain.split line'.plain same
    exact ⟨congrArg error (Line.ext lines), rests⟩
  | .integer n, .integer n', rest, rest', same => by
    simp only [encode, List.cons_append, List.append_assoc, List.nil_append, List.cons.injEq,
      true_and] at same
    obtain ⟨texts, rests⟩ := (plain_renderInt n).split (plain_renderInt n') same
    exact ⟨congrArg integer (Decimal.renderInt_injective texts), rests⟩
  | .bulk payload, .bulk payload', rest, rest', same => by
    simp only [encode, List.cons_append, List.append_assoc, List.nil_append, List.cons.injEq,
      true_and] at same
    obtain ⟨counts, bodies⟩ := (plain_render _).split (plain_render _) same
    obtain ⟨payloads, ends⟩ := List.append_inj bodies (Decimal.render_injective counts)
    simp only [List.cons.injEq, true_and] at ends
    exact ⟨congrArg bulk payloads, ends⟩
  | .null, .null, rest, rest', same => ⟨rfl, List.append_cancel_left same⟩
  | .array items, .array items', rest, rest', same => by
    simp only [encode, List.cons_append, List.append_assoc, List.cons.injEq, true_and] at same
    obtain ⟨counts, bodies⟩ := (plain_render _).split (plain_render _) same
    obtain ⟨rfl, rests⟩ := encodeAll_append_inj (fun v _ w => encode_append_inj v w)
      (Decimal.render_injective counts) bodies
    exact ⟨rfl, rests⟩
  | .bulk payload, .null, rest, rest', same => by
    simp only [encode, List.cons_append, List.append_assoc, List.nil_append, List.cons.injEq,
      true_and] at same
    exact absurd same (render_ne_minus _ [49] _ _)
  | .null, .bulk payload, rest, rest', same => by
    simp only [encode, List.cons_append, List.append_assoc, List.nil_append, List.cons.injEq,
      true_and] at same
    exact absurd same.symm (render_ne_minus _ [49] _ _)
  | .simple _, .error _, _, _, same | .simple _, .integer _, _, _, same
  | .simple _, .bulk _, _, _, same | .simple _, .null, _, _, same
  | .simple _, .array _, _, _, same | .error _, .simple _, _, _, same
  | .error _, .integer _, _, _, same | .error _, .bulk _, _, _, same
  | .error _, .null, _, _, same | .error _, .array _, _, _, same
  | .integer _, .simple _, _, _, same | .integer _, .error _, _, _, same
  | .integer _, .bulk _, _, _, same | .integer _, .null, _, _, same
  | .integer _, .array _, _, _, same | .bulk _, .simple _, _, _, same
  | .bulk _, .error _, _, _, same | .bulk _, .integer _, _, _, same
  | .bulk _, .array _, _, _, same | .null, .simple _, _, _, same
  | .null, .error _, _, _, same | .null, .integer _, _, _, same
  | .null, .array _, _, _, same | .array _, .simple _, _, _, same
  | .array _, .error _, _, _, same | .array _, .integer _, _, _, same
  | .array _, .bulk _, _, _, same | .array _, .null, _, _, same => by
    simp [encode] at same

end Wire
