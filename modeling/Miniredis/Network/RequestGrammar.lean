/-
**The requests that the parser accepts.**

A request is a count line and as many items: bulk strings with their length, null bulk strings,
simple strings (`Request`).

* `parseArgsAt_eq`, `respParseCommandAt_eq` — in its buffer the parser reads nothing outside, and
  its verdict is that of the model over the rest of the buffer;
* `resp_accepts_grammar` — it accepts exactly the buffers that start with a request;
* `resp_verdicts_stable` — more input changes no verdict but the one that asks for it.
-/

import Miniredis.Lib.Splits
import Miniredis.Model.RespBuffer
import Miniredis.Network.Requests
import Miniredis.Structures.IntegerTexts

namespace Miniredis

/-! ### Lines -/

section Lines

variable {buf : Bytes}

theorem getLine_short (short : buf.length < 2) : getLine buf = none := by
  rcases found : getLine buf with _ | ⟨line, rest⟩
  · rfl
  · obtain ⟨_, rfl⟩ := getLine_eq_some.mp found
    simp at short
    omega

/-- **The loop of `get_line`** reads nothing outside the buffer. -/
theorem scanLine_eq (buf : Bytes) {fuel i : Nat} (enough : buf.length ≤ i + fuel) :
    scanLine buf fuel i = some ((getLine (buf.drop i)).map fun found => i + found.1.length) := by
  induction fuel generalizing i with
  | zero =>
    rw [scanLine, if_neg (by omega), getLine_short (by rw [List.length_drop]; omega)]
    rfl
  | succ fuel ih =>
    by_cases inside : i + 1 < buf.length
    · have first : buf.drop i = buf[i] :: buf.drop (i + 1) := List.drop_eq_getElem_cons (by omega)
      have second : buf.drop (i + 1) = buf[i + 1] :: buf.drop (i + 2) :=
        List.drop_eq_getElem_cons inside
      have onward (other : ∀ rest, buf[i] :: buf.drop (i + 1) ≠ 13 :: 10 :: rest) :
          scanLine buf fuel (i + 1) =
            some ((getLine (buf.drop i)).map fun found => i + found.1.length) := by
        rw [ih (by omega), first, getLine_cons other, Option.map_map]
        refine congrArg some (Option.map_congr fun found _ => ?_)
        simp only [Function.comp, List.length_cons]
        omega
      rw [scanLine, if_pos inside, List.getElem?_eq_getElem (by omega),
        List.getElem?_eq_getElem inside]
      simp only [Option.bind_eq_bind, Option.bind_some]
      by_cases cr : buf[i] = 13
      · rw [if_pos cr]
        by_cases lf : buf[i + 1] = 10
        · rw [if_pos lf, first, second, cr, lf]
          rfl
        · rw [if_neg lf]
          refine onward fun rest same => lf ?_
          rw [second] at same
          exact (List.cons.inj (List.cons.inj same).2).1
      · rw [if_neg cr]
        exact onward fun rest same => cr (List.cons.inj same).1
    · rw [scanLine, if_neg inside, getLine_short (by rw [List.length_drop]; omega)]
      rfl

/-- **`get_line` in the buffer.** -/
theorem getLineAt_eq {pos : Nat} (small : buf.length < 2 ^ 64) : getLineAt buf pos =
    some ((getLine (buf.drop pos)).map fun found =>
      (found.1.length, pos + found.1.length + 2)) := by
  unfold getLineAt
  rw [scanLine_eq buf (by omega)]
  cases found : getLine (buf.drop pos) with
  | none => rfl
  | some pair =>
    obtain ⟨line, rest⟩ := pair
    have lengths := getLine_length found
    rw [List.length_drop] at lengths
    simp only [Option.map_some, Option.bind_eq_bind, Option.bind_some]
    rw [Buffer.sub_of_le (by omega) (by omega), Nat.add_sub_cancel_left]

end Lines

/-! ### The parser in its buffer -/

section Positions

variable {buf : Bytes}

/-- The return value for where the argument loop ends, in a buffer of `total` bytes. -/
def Parsed.verdict (total : Nat) : Parsed → Int
  | more => 0
  | error => -1
  | done _ rest => (total - rest.length : Nat)

/-- The arguments of a loop that is done. -/
def Parsed.Gives (args : Command) : Parsed → Prop
  | done found _ => args = found
  | _ => True

theorem Parsed.verdict_push (a : Bytes) (total : Nat) (p : Parsed) :
    (p.push a).verdict total = p.verdict total := by
  cases p <;> rfl

theorem Parsed.Gives.push {args : Command} {p : Parsed} (gives : p.Gives args) (a : Bytes) :
    (p.push a).Gives (a :: args) := by
  cases p with
  | more => trivial
  | error => trivial
  | done found rest => exact congrArg (a :: ·) gives

/-- The line at `pos` behind its first byte, as the slice that the parser takes. -/
theorem slice_line (small : buf.length < 2 ^ 31) {pos : Nat} {t : UInt8} {line rest : Bytes}
    (head : buf[pos]? = some t) (plain : t ≠ 13)
    (found : getLine (buf.drop pos) = some (line, rest)) :
    pos + line.length + 2 ≤ buf.length ∧ buf.drop (pos + line.length + 2) = rest ∧
      Buffer.slice buf (pos + 1) (Buffer.sub line.length 1) = some (line.drop 1) := by
  have lengths := getLine_length found
  rw [List.length_drop] at lengths
  have start : buf.drop pos = t :: buf.drop (pos + 1) := by
    obtain ⟨below, same⟩ := List.getElem?_eq_some_iff.mp head
    rw [List.drop_eq_getElem_cons below, same]
  rw [start] at found
  obtain ⟨body, rfl, -, shape⟩ := getLine_marked plain found
  rw [List.length_cons] at lengths
  have length : Buffer.sub (t :: body).length 1 = body.length := by
    rw [Buffer.sub_of_le (by simp) (by rw [List.length_cons]; omega)]
    rfl
  refine ⟨by rw [List.length_cons]; omega, ?_, ?_⟩
  · have steps : pos + (t :: body).length + 2 = pos + 1 + (body.length + 2) := by
      rw [List.length_cons]
      omega
    rw [steps, ← List.drop_drop, shape, List.drop_length_add_append]
    rfl
  · rw [length, Buffer.slice_of_le (by omega), shape, List.take_left]
    rfl

/-- The two bytes from `i` on. -/
theorem take_two {i : Nat} (inside : i + 2 ≤ buf.length) : ∃ a b,
    buf[i]? = some a ∧ buf[i + 1]? = some b ∧ (buf.drop i).take 2 = [a, b] := by
  refine ⟨buf[i], buf[i + 1], List.getElem?_eq_getElem (by omega),
    List.getElem?_eq_getElem (by omega), ?_⟩
  rw [List.drop_eq_getElem_cons (by omega), List.drop_eq_getElem_cons (by omega)]
  rfl

/-- **The argument loop in the buffer** reads nothing outside it. -/
theorem parseArgsAt_eq (small : buf.length < 2 ^ 31) (n : Nat) {pos : Nat}
    (inside : pos ≤ buf.length) (args : Command) : ∃ pushed,
      parseArgsAt buf n pos args =
        some ((parseArgs n (buf.drop pos)).verdict buf.length, args ++ pushed) ∧
      (parseArgs n (buf.drop pos)).Gives pushed := by
  induction n generalizing pos args with
  | zero =>
    have consumed : buf.length - (buf.drop pos).length = pos := by
      rw [List.length_drop, Nat.sub_sub_self inside]
    refine ⟨[], ?_, rfl⟩
    rw [parseArgsAt, parseArgs, Parsed.verdict, consumed, List.append_nil,
      Int.bmod_eq_of_le_mul_two (by omega) (by omega)]
  | succ n ih =>
    -- the loop behind a pushed argument
    have push {next : Nat} (a : Bytes) (within : next ≤ buf.length) : ∃ pushed,
        parseArgsAt buf n next (args ++ [a]) =
          some (((parseArgs n (buf.drop next)).push a).verdict buf.length, args ++ pushed) ∧
        ((parseArgs n (buf.drop next)).push a).Gives pushed := by
      obtain ⟨pushed, found, gives⟩ := ih within (args ++ [a])
      refine ⟨a :: pushed, ?_, gives.push a⟩
      rw [found, Parsed.verdict_push, List.append_assoc]
      rfl
    have stop (p : Parsed) (gives : p.Gives []) : ∃ pushed,
        some (p.verdict buf.length, args) = some (p.verdict buf.length, args ++ pushed) ∧
        p.Gives pushed := ⟨[], by rw [List.append_nil], gives⟩
    by_cases at_end : pos ≥ buf.length
    · rw [parseArgsAt, if_pos at_end, List.drop_of_length_le at_end, parseArgs]
      exact stop .more trivial
    have head : buf[pos]? = some buf[pos] := List.getElem?_eq_getElem (by omega)
    have shape : buf.drop pos = buf[pos] :: buf.drop (pos + 1) :=
      List.drop_eq_getElem_cons (by omega)
    rw [parseArgsAt, if_neg at_end, head, shape, parseArgs, ← shape]
    simp only [Option.bind_eq_bind, Option.bind_some]
    by_cases mark : buf[pos] ≠ 36 ∧ buf[pos] ≠ 43
    · rw [if_pos mark, if_pos mark]
      exact stop .error trivial
    rw [if_neg mark, if_neg mark, getLineAt_eq (by omega)]
    cases found : getLine (buf.drop pos) with
    | none => exact stop .more trivial
    | some pair =>
      obtain ⟨line, rest⟩ := pair
      obtain ⟨within, behind, slice⟩ := slice_line small head (by grind) found
      rw [Option.map_some, Option.bind_some]
      dsimp only
      rw [slice, Option.bind_some]
      by_cases bulk : buf[pos] = 36
      · rw [if_pos bulk, if_pos bulk, stringToLlNChecked_eq, Option.bind_some]
        cases stringToLlN (line.drop 1) with
        | none => exact stop .error trivial
        | some slen =>
          dsimp only
          by_cases null : slen < 0
          · rw [if_pos null, if_pos null, ← behind]
            exact push [] within
          by_cases long : slen > maxBulkLen
          · rw [if_neg null, if_neg null, if_pos long, if_pos long]
            exact stop .error trivial
          have room : Buffer.sub buf.length (pos + line.length + 2) = rest.length := by
            rw [Buffer.sub_of_le within (by omega), ← behind, List.length_drop]
          rw [if_neg null, if_neg null, if_neg long, if_neg long, room]
          by_cases short : slen.toNat + 2 > rest.length
          · rw [if_pos short, if_pos short]
            exact stop .more trivial
          have fits : pos + line.length + 2 + slen.toNat + 2 ≤ buf.length := by
            rw [← behind, List.length_drop] at short
            omega
          obtain ⟨cr, lf, first, second, both⟩ := take_two fits
          rw [if_neg short, if_neg short, first, second, ← behind, List.drop_drop, both,
            Option.bind_some]
          by_cases ends : cr = 13 ∧ lf = 10
          · obtain ⟨rfl, rfl⟩ := ends
            rw [if_neg (not_not.mpr rfl), Option.bind_some, if_neg (not_not.mpr rfl),
              if_neg (not_not.mpr rfl), Buffer.slice_of_le (by omega), Option.bind_some,
              List.drop_drop]
            exact push _ (by omega)
          · have other : [cr, lf] ≠ [13, 10] := fun same => ends (by simpa using same)
            rw [if_pos other]
            by_cases first : cr = 13
            · rw [if_neg (not_not.mpr first), Option.bind_some,
                if_pos fun second => ends ⟨first, second⟩]
              exact stop .error trivial
            · rw [if_pos first]
              exact stop .error trivial
      · rw [if_neg bulk, if_neg bulk, ← behind]
        exact push _ within

/-- **The parser in its buffer** reads nothing outside it. -/
theorem respParseCommandAt_eq (small : buf.length < 2 ^ 31) : ∃ args,
    respParseCommandAt buf = some ((respParseCommand buf).1, args) ∧
      (0 < (respParseCommand buf).1 → args = (respParseCommand buf).2) := by
  have stop {n : Int} (final : n ≤ 0) : ∃ args, some (n, ([] : Command)) = some (n, args) ∧
      (0 < n → args = []) := ⟨[], rfl, fun _ => rfl⟩
  cases shape : buf with
  | nil => exact stop le_rfl
  | cons first tail =>
    rw [← shape]
    have head : buf[0]? = some first := by rw [shape]; rfl
    have nonempty : buf.length ≠ 0 := by rw [shape]; simp
    unfold respParseCommandAt respParseCommand
    rw [if_neg nonempty, head, shape]
    dsimp only [Option.bind_eq_bind, Option.bind_some]
    rw [← shape]
    by_cases mark : first ≠ 42
    · rw [if_pos mark, if_pos mark]
      exact stop (by decide)
    rw [if_neg mark, if_neg mark, getLineAt_eq (by omega), List.drop_zero]
    cases found : getLine buf with
    | none => exact stop le_rfl
    | some pair =>
      obtain ⟨line, rest⟩ := pair
      obtain ⟨within, behind, slice⟩ := slice_line small head (by grind) found
      rw [Option.map_some, Option.bind_some]
      dsimp only
      by_cases short : line.length < 2
      · rw [if_pos short, if_pos short]
        exact stop (by decide)
      rw [if_neg short, if_neg short, if_neg mark, slice, Option.bind_some,
        stringToLlNChecked_eq, Option.bind_some]
      cases stringToLlN (line.drop 1) with
      | none => exact stop (by decide)
      | some count =>
        dsimp only
        by_cases range : count < 0 ∨ count > maxArgc
        · rw [if_pos range, if_pos range]
          exact stop (by decide)
        obtain ⟨pushed, run, gives⟩ := parseArgsAt_eq small count.toNat within []
        rw [if_neg range, if_neg range, run, behind]
        rw [behind] at gives
        cases parsed : parseArgs count.toNat rest with
        | more => exact ⟨_, rfl, fun positive => absurd positive (lt_irrefl 0)⟩
        | error => exact ⟨_, rfl, fun positive => absurd positive (by dsimp only; decide)⟩
        | done args later =>
          rw [parsed] at gives
          refine ⟨pushed, ?_, fun _ => gives⟩
          dsimp only
          rw [Int.bmod_eq_of_le_mul_two (by omega) (by omega)]
          rfl

end Positions

/-! ### The grammar -/

section Grammar

/-- A request: a line with the number of items, and the items. -/
def Request (bytes : Bytes) (args : Command) : Prop :=
  ∃ number body, stringToLlN number = some (args.length : Int) ∧ args.length ≤ maxArgc ∧
    Wire.Plain (42 :: number) ∧ Splits RequestItem args body ∧
    bytes = 42 :: (number ++ 13 :: 10 :: body)

variable {buf : Bytes} {args : Command}

/-- **The parser accepts a buffer that starts with a request**, and consumes the request. -/
theorem respParseCommand_iff (small : buf.length < 2 ^ 31) {k : Nat} (positive : 0 < k) :
    respParseCommand buf = ((k : Int), args) ↔ k ≤ buf.length ∧ Request (buf.take k) args := by
  constructor
  · intro found
    have accepted : 0 < (respParseCommand buf).1 := by
      rw [found]
      exact Int.natCast_pos.mpr positive
    obtain ⟨number, v, body, rest, rfl, free, read, range, parsed, consumed⟩ :=
      respParseCommand_shape accepted
    rw [found] at parsed consumed
    obtain ⟨argc, items, splits, rfl⟩ := parseArgs_done_iff.mp parsed
    dsimp only at argc splits consumed
    have regroup : 42 :: (number ++ 13 :: 10 :: (items ++ rest)) =
        42 :: (number ++ 13 :: 10 :: items) ++ rest := by
      simp
    rw [regroup] at small consumed ⊢
    rw [List.length_append] at small consumed
    rw [Nat.add_sub_cancel, Int.bmod_eq_of_le_mul_two (by omega) (by omega)] at consumed
    obtain rfl := Int.ofNat.inj consumed
    refine ⟨by simp, number, items, ?_, by omega, free, splits, List.take_left⟩
    rw [read, argc, Int.toNat_of_nonneg (by omega)]
  · rintro ⟨inside, number, body, read, argc, free, splits, shape⟩
    have regroup : buf = 42 :: (number ++ 13 :: 10 :: (body ++ buf.drop k)) := by
      calc buf = buf.take k ++ buf.drop k := (List.take_append_drop k buf).symm
        _ = _ := by rw [shape]; simp
    have parsed : parseArgs (args.length : Int).toNat (body ++ buf.drop k) =
        .done args (buf.drop k) :=
      parseArgs_done_iff.mpr ⟨rfl, body, splits, rfl⟩
    have run := respParseCommand_number read (by omega) (body ++ buf.drop k)
    rw [parsed] at run
    dsimp only at run
    rw [← regroup, List.length_drop, Nat.sub_sub_self inside,
      Int.bmod_eq_of_le_mul_two (by omega) (by omega)] at run
    exact run

/-- **The parser accepts exactly its grammar**, and reads nothing outside its buffer. -/
theorem resp_accepts_grammar (buf : Bytes) (bound : buf.length ≤ 2 ^ 31 - 1) :
    ∃ n args, respParseCommandAt buf = some (n, args) ∧
      ∀ (k : Nat) (cmd : Command), 0 < k →
        (n = k ∧ args = cmd ↔ k ≤ buf.length ∧ Request (buf.take k) cmd) := by
  have small : buf.length < 2 ^ 31 := by omega
  obtain ⟨args, run, gives⟩ := respParseCommandAt_eq small
  refine ⟨_, args, run, fun k cmd positive => ?_⟩
  rw [← respParseCommand_iff small positive, Prod.ext_iff]
  refine and_congr_right fun returned => ?_
  rw [gives (by rw [returned]; exact Int.natCast_pos.mpr positive)]

/-- `GET k`, with a null bulk string behind it, and the start of the next request. -/
theorem resp_accepts_grammar_get : ∃ n args,
    respParseCommandAt (text "*3\r\n+GET\r\n$1\r\nk\r\n$-1\r\n*1") = some (n, args) ∧
      ∀ (k : Nat) (cmd : Command), 0 < k → (n = k ∧ args = cmd ↔
        k ≤ (text "*3\r\n+GET\r\n$1\r\nk\r\n$-1\r\n*1").length ∧
          Request ((text "*3\r\n+GET\r\n$1\r\nk\r\n$-1\r\n*1").take k) cmd) :=
  resp_accepts_grammar _ (by decide)

/-- **More input changes no verdict** but the one that asks for it. -/
theorem resp_verdicts_stable (b s : Bytes) (bound : (b ++ s).length ≤ 2 ^ 31 - 1) :
    ∃ n args n' args', respParseCommandAt b = some (n, args) ∧
      respParseCommandAt (b ++ s) = some (n', args') ∧
      (0 < n → n' = n ∧ args' = args) ∧
      (n = -1 → n' = -1) ∧
      (s ≠ [] → n' = (b ++ s).length → n = 0) := by
  rw [List.length_append] at bound
  obtain ⟨args, run, gives⟩ := @respParseCommandAt_eq b (by omega)
  obtain ⟨args', run', gives'⟩ :=
    @respParseCommandAt_eq (b ++ s) (by rw [List.length_append]; omega)
  refine ⟨_, args, _, args', run, run', ?_, ?_, ?_⟩
  · intro positive
    have same : respParseCommand (b ++ s) = respParseCommand b :=
      respParseCommand_more positive.ne' s
    rw [same] at gives' ⊢
    exact ⟨rfl, (gives' positive).trans (gives positive).symm⟩
  · intro refused
    rw [respParseCommand_more (by rw [refused]; decide), refused]
  · intro nonempty whole
    by_contra final
    have longer := List.length_pos_iff.mpr nonempty
    rw [respParseCommand_more final, List.length_append] at whole
    have inside := @respParseCommand_le b (by omega)
    omega

/-- A frame cut between its carriage return and its line feed. -/
theorem resp_verdicts_stable_cut : ∃ n args n' args',
    respParseCommandAt (text "*1\r\n$4\r\nPING\r") = some (n, args) ∧
      respParseCommandAt (text "*1\r\n$4\r\nPING\r" ++ text "\n") = some (n', args') ∧
      (0 < n → n' = n ∧ args' = args) ∧ (n = -1 → n' = -1) ∧
      (text "\n" ≠ [] →
        n' = (text "*1\r\n$4\r\nPING\r" ++ text "\n").length → n = 0) :=
  resp_verdicts_stable _ _ (by decide)

end Grammar

end Miniredis
