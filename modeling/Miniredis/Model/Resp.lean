/-
**The wire format (`resp.c`) and the frames of the log (`aof.c`).**

`respParseCommand` reads one command from the head of a buffer and returns the number of bytes it
consumed: positive for a command, `0` for an incomplete one, negative for bytes that are none.
The position is a `size_t` returned as an `int`.

* `getLine_eq_some` — a line ends at the first CR LF;
* `respParseCommand_more` — the parser keeps a verdict other than `0` when more bytes follow;
* `respCodec` — on commands within the parser's limits, the encoder and the parser are a codec:
  a frame is read back whatever follows it, and a proper part of one asks for more;
* `fits_of_deliverable` — what a client can deliver is within the limits.
-/

import Miniredis.Lib.FrameLog
import Miniredis.Lib.Splits
import Miniredis.Lib.Wire
import Miniredis.Model.Util

namespace Miniredis

/-- A parsed command: its arguments as the bytes copied from the wire. -/
abbrev Command := List Bytes

/-- `MAX_ARGC`. -/
def maxArgc : Nat := 1048576

/-- `MAX_BULK_LEN`. -/
def maxBulkLen : Nat := 536870912

/-- `get_line`: the bytes before the first CR LF, and those behind it. -/
def getLine : Bytes → Option (Bytes × Bytes)
  | [] => none
  | 13 :: 10 :: rest => some ([], rest)
  | byte :: rest => (getLine rest).map fun (line, rest) => (byte :: line, rest)

/-- Where the argument loop of the parser ends. -/
inductive Parsed where
  | more
  | error
  | done (args : Command) (rest : Bytes)

def Parsed.push (a : Bytes) : Parsed → Parsed
  | done args rest => done (a :: args) rest
  | other => other

/-- The argument loop of `resp_parse_command`: `n` arguments to go, in what is left of the
buffer. -/
def parseArgs : Nat → Bytes → Parsed
  | 0, buf => .done [] buf
  | _ + 1, [] => .more
  | n + 1, t :: buf =>
    if t ≠ 36 ∧ t ≠ 43 then .error
    else
      match getLine (t :: buf) with
      | none => .more
      | some (line, rest) =>
        if t = 36 then
          match stringToLlN (line.drop 1) with
          | none => .error
          | some slen =>
            -- a null bulk string is an empty argument without a payload
            if slen < 0 then (parseArgs n rest).push []
            else if slen > maxBulkLen then .error
            else if slen.toNat + 2 > rest.length then .more
            else if (rest.drop slen.toNat).take 2 ≠ [13, 10] then .error
            else (parseArgs n (rest.drop (slen.toNat + 2))).push (rest.take slen.toNat)
        else (parseArgs n rest).push (line.drop 1)

/-- `resp_parse_command`: bytes consumed and the command. -/
def respParseCommand (buf : Bytes) : Int × Command :=
  match buf with
  | [] => (0, [])
  | byte :: _ =>
    if byte ≠ 42 then (-1, [])
    else
      match getLine buf with
      | none => (0, [])
      | some (line, rest) =>
        if line.length < 2 then (-1, [])
        else
          match stringToLlN (line.drop 1) with
          | none => (-1, [])
          | some count =>
            if count < 0 ∨ count > maxArgc then (-1, [])
            else
              match parseArgs count.toNat rest with
              | .more => (0, [])
              | .error => (-1, [])
              | .done args rest => (((buf.length - rest.length : Nat) : Int).bmod (2 ^ 32), args)

/-- The reading of a return value that the callers share. -/
def respDecode (buf : Bytes) : FrameLog.Outcome Command :=
  let (consumed, cmd) := respParseCommand buf
  if consumed > 0 then .frame cmd consumed.toNat
  else if consumed < 0 then .error
  else .more

/-- One argument of a frame. -/
def encodeBulk (a : Bytes) : Bytes :=
  36 :: (Decimal.render a.length ++ 13 :: 10 :: (a ++ [13, 10]))

/-- `aw_write_command`: a frame over byte strings with their lengths. -/
def awWriteCommand (args : List Bytes) : Bytes :=
  42 :: (Decimal.render args.length ++ 13 :: 10 :: args.flatMap encodeBulk)

/-- `command_to_resp`: the arguments are measured with `strlen`. -/
def commandToResp (cmd : Command) : Bytes := awWriteCommand (cmd.map cstr)

/-! ### Lines -/

section Lines

variable {buf line rest : Bytes}

theorem getLine_cons {byte : UInt8} {tail : Bytes}
    (other : ∀ rest, byte :: tail ≠ 13 :: 10 :: rest) :
    getLine (byte :: tail) = (getLine tail).map fun (line, rest) => (byte :: line, rest) := by
  rw [getLine.eq_def]
  split
  · rename_i same; cases same
  · rename_i same; exact absurd same (other _)
  · rename_i same; cases same; rfl

theorem getLine_of_plain (free : Wire.Plain line) (rest : Bytes) :
    getLine (line ++ 13 :: 10 :: rest) = some (line, rest) := by
  induction line with
  | nil => rfl
  | cons byte line ih =>
    obtain ⟨starts, later⟩ := Wire.plain_cons.mp free
    have other : ∀ rest', byte :: (line ++ 13 :: 10 :: rest) ≠ 13 :: 10 :: rest' := by
      rintro rest' same
      rcases line with _ | ⟨next, line⟩
      · cases same
      · cases same
        exact starts (by simp)
    rw [List.cons_append, getLine_cons other, ih later]
    rfl

/-- A line ends at the first CR LF. -/
theorem getLine_eq_some : getLine buf = some (line, rest) ↔
    Wire.Plain line ∧ buf = line ++ 13 :: 10 :: rest := by
  constructor
  · intro found
    induction buf generalizing line with
    | nil => cases found
    | cons byte tail ih =>
      by_cases ends : ∃ rest', byte :: tail = 13 :: 10 :: rest'
      · obtain ⟨rest', same⟩ := ends
        rw [same] at found ⊢
        cases found
        exact ⟨by simp [Wire.Plain], rfl⟩
      · have other : ∀ rest', byte :: tail ≠ 13 :: 10 :: rest' := fun rest' same =>
          ends ⟨rest', same⟩
        rw [getLine_cons other] at found
        obtain ⟨⟨line', rest'⟩, inner, same⟩ := Option.map_eq_some_iff.mp found
        cases same
        obtain ⟨free, rfl⟩ := ih inner
        refine ⟨Wire.plain_cons.mpr ⟨fun starts => ?_, free⟩, rfl⟩
        obtain ⟨more, same⟩ := starts
        cases line' with
        | nil => cases same
        | cons next line' =>
          cases same
          exact other _ rfl
  · rintro ⟨free, rfl⟩
    exact getLine_of_plain free rest

theorem getLine_append (line : Bytes) (free : 13 ∉ line) (rest : Bytes) :
    getLine (line ++ 13 :: 10 :: rest) = some (line, rest) :=
  getLine_of_plain (.of_notMem free) rest

theorem getLine_length (found : getLine buf = some (line, rest)) :
    line.length + 2 + rest.length = buf.length := by
  obtain ⟨_, rfl⟩ := getLine_eq_some.mp found
  simp only [List.length_append, List.length_cons]
  omega

theorem getLine_marked {mark : UInt8} (plain : mark ≠ 13)
    (found : getLine (mark :: buf) = some (line, rest)) :
    ∃ body, line = mark :: body ∧ Wire.Plain line ∧ buf = body ++ 13 :: 10 :: rest := by
  obtain ⟨free, shape⟩ := getLine_eq_some.mp found
  cases line with
  | nil => exact absurd (List.cons.inj shape).1 plain
  | cons byte body =>
    obtain ⟨rfl, behind⟩ := List.cons.inj shape
    exact ⟨body, rfl, free, behind⟩

theorem getLine_more (found : getLine buf = some (line, rest)) (more : Bytes) :
    getLine (buf ++ more) = some (line, rest ++ more) := by
  obtain ⟨free, rfl⟩ := getLine_eq_some.mp found
  exact getLine_eq_some.mpr ⟨free, by simp⟩

/-- The text of an integer has no CR LF inside. -/
theorem plain_integer {mark : UInt8} {s : Bytes} {v : Int} (plain : mark ≠ 13)
    (read : stringToLlN s = some v) : Wire.Plain (mark :: s) := by
  refine .of_notMem fun member => ?_
  rcases List.mem_cons.mp member with same | inside
  · exact plain same.symm
  · exact absurd (stringToLlN_mem read inside) (by decide)

end Lines

/-! ### Arguments -/

section Arguments

theorem getLine_header (mark : UInt8) (plain : mark ≠ 13) (n : Nat) (rest : Bytes) :
    getLine (mark :: (Decimal.render n ++ 13 :: 10 :: rest)) =
      some (mark :: Decimal.render n, rest) :=
  getLine_append (mark :: Decimal.render n)
    (by simp [Wire.render_free, plain.symm]) rest

/-- A bulk string is read behind the line with its length. -/
theorem parseArgs_number {number : Bytes} {v : Int} (read : stringToLlN number = some v)
    (n : Nat) (rest : Bytes) : parseArgs (n + 1) (36 :: (number ++ 13 :: 10 :: rest)) =
      if v < 0 then (parseArgs n rest).push []
      else if v > maxBulkLen then .error
      else if v.toNat + 2 > rest.length then .more
      else if (rest.drop v.toNat).take 2 ≠ [13, 10] then .error
      else (parseArgs n (rest.drop (v.toNat + 2))).push (rest.take v.toNat) := by
  have line : getLine (36 :: (number ++ 13 :: 10 :: rest)) = some (36 :: number, rest) :=
    getLine_of_plain (plain_integer (by decide) read) rest
  rw [parseArgs, if_neg (by decide), line]
  dsimp only
  rw [if_pos rfl, List.drop_one, List.tail_cons, read]

/-- A whole bulk string is read. -/
theorem parseArgs_bulk {number a : Bytes} (read : stringToLlN number = some (a.length : Int))
    (short : a.length ≤ maxBulkLen) (n : Nat) (rest : Bytes) :
    parseArgs (n + 1) (36 :: (number ++ 13 :: 10 :: (a ++ 13 :: 10 :: rest))) =
      (parseArgs n rest).push a := by
  have behind : (a ++ 13 :: 10 :: rest).drop (a.length + 2) = rest := by
    rw [List.drop_length_add_append]
    rfl
  rw [parseArgs_number read, if_neg (by omega), if_neg (by omega), Int.toNat_natCast,
    if_neg (by simp), List.drop_left, List.take_left, behind, if_neg (by simp)]

end Arguments

/-! ### Items -/

/-- An item of a request, with the argument that it stands for. -/
inductive RequestItem : Bytes → Bytes → Prop
  | null {number : Bytes} {v : Int} (read : stringToLlN number = some v) (negative : v < 0) :
      RequestItem [] (36 :: (number ++ [13, 10]))
  | bulk {number payload : Bytes} (read : stringToLlN number = some (payload.length : Int))
      (fits : payload.length ≤ maxBulkLen) :
      RequestItem payload (36 :: (number ++ 13 :: 10 :: (payload ++ [13, 10])))
  | simple {line : Bytes} (free : Wire.Plain line) : RequestItem line (43 :: (line ++ [13, 10]))

section Items

variable {buf rest item a : Bytes} {args : Command} {n : Nat}

/-- An item is read back. -/
theorem parseArgs_item (reads : RequestItem a item) (n : Nat) (rest : Bytes) :
    parseArgs (n + 1) (item ++ rest) = (parseArgs n rest).push a := by
  cases reads with
  | @null number v read negative =>
    have shape : 36 :: (number ++ [13, 10]) ++ rest = 36 :: (number ++ 13 :: 10 :: rest) := by
      simp
    rw [shape, parseArgs_number read, if_pos negative]
  | @bulk number _ read fits =>
    have shape : 36 :: (number ++ 13 :: 10 :: (a ++ [13, 10])) ++ rest =
        36 :: (number ++ 13 :: 10 :: (a ++ 13 :: 10 :: rest)) := by
      simp
    rw [shape, parseArgs_bulk read fits]
  | simple free =>
    have shape : 43 :: (a ++ [13, 10]) ++ rest = 43 :: (a ++ 13 :: 10 :: rest) := by
      simp
    have line : getLine (43 :: (a ++ 13 :: 10 :: rest)) = some (43 :: a, rest) :=
      getLine_of_plain (Wire.plain_cons.mpr ⟨by simp, free⟩) rest
    rw [shape, parseArgs, if_neg (by decide), line]
    dsimp only
    rw [if_neg (by decide), List.drop_one, List.tail_cons]

theorem Parsed.push_eq_done {p : Parsed} : p.push a = .done args rest ↔
    ∃ later, args = a :: later ∧ p = .done later rest := by
  constructor
  · intro found
    cases p <;> cases found
    exact ⟨_, rfl, rfl⟩
  · rintro ⟨later, rfl, rfl⟩
    rfl

/-- **The argument loop reads a buffer that starts with the items.** -/
theorem parseArgs_done_iff : parseArgs n buf = .done args rest ↔
    args.length = n ∧ ∃ body, Splits RequestItem args body ∧ buf = body ++ rest := by
  constructor
  · intro found
    have push {a item : Bytes} {n : Nat} {later : Bytes} {args : Command}
        (ih : ∀ {args : Command}, parseArgs n later = .done args rest →
          args.length = n ∧ ∃ body, Splits RequestItem args body ∧ later = body ++ rest)
        (reads : RequestItem a item) (found : (parseArgs n later).push a = .done args rest) :
        args.length = n + 1 ∧ ∃ body, Splits RequestItem args body ∧
          item ++ later = body ++ rest := by
      obtain ⟨args, rfl, inner⟩ := Parsed.push_eq_done.mp found
      obtain ⟨rfl, body, splits, rfl⟩ := ih inner
      exact ⟨rfl, item ++ body, Splits.cons_iff.mpr ⟨_, _, rfl, reads, splits⟩, by simp⟩
    fun_induction parseArgs n buf generalizing args with
    | case1 buf =>
      cases found
      exact ⟨rfl, [], Splits.nil_iff.mpr rfl, rfl⟩
    | case6 n buf line later slen read negative known line' ih =>
      obtain ⟨number, rfl, -, rfl⟩ := getLine_marked (by decide) line'
      simpa using push ih (.null read negative) found
    | case10 n buf line later slen read signed fits whole good known line' ih =>
      obtain ⟨number, rfl, -, rfl⟩ := getLine_marked (by decide) line'
      have payload : (later.take slen.toNat).length = slen.toNat := by
        rw [List.length_take]
        omega
      have item : RequestItem (later.take slen.toNat)
          (36 :: (number ++ 13 :: 10 :: (later.take slen.toNat ++ [13, 10]))) :=
        .bulk (by rw [payload, Int.toNat_of_nonneg (by omega)]; exact read) (by omega)
      have shape : later =
          later.take slen.toNat ++ ([13, 10] ++ later.drop (slen.toNat + 2)) := by
        rw [← not_not.mp good, ← List.drop_drop, List.take_append_drop, List.take_append_drop]
      have whole := push ih item found
      rw [List.cons_append, List.append_assoc, List.cons_append, List.cons_append,
        List.append_assoc, ← shape] at whole
      exact whole
    | case11 n t buf known line later line' simple ih =>
      obtain ⟨body, rfl, free, rfl⟩ := getLine_marked (by grind) line'
      obtain rfl : t = 43 := by grind
      simpa using push ih (.simple (Wire.plain_cons.mp free).2) found
    | _ => cases found
  · rintro ⟨rfl, body, splits, rfl⟩
    induction args generalizing body with
    | nil =>
      rw [Splits.nil_iff.mp splits]
      rfl
    | cons a args ih =>
      obtain ⟨item, later, rfl, reads, splits⟩ := Splits.cons_iff.mp splits
      rw [List.length_cons, List.append_assoc, parseArgs_item reads, ih later splits]
      rfl

theorem RequestItem.length_le (reads : RequestItem a item) : a.length + 3 ≤ item.length := by
  cases reads with
  | null => simp
  | bulk =>
    simp only [List.length_cons, List.length_append, List.length_nil]
    omega
  | simple => simp

/-- The argument loop spends three bytes and its text on each argument. -/
theorem parseArgs_length (found : parseArgs n buf = .done args rest) :
    args.length = n ∧ (args.map fun a => a.length + 3).sum + rest.length ≤ buf.length := by
  obtain ⟨rfl, body, splits, rfl⟩ := parseArgs_done_iff.mp found
  refine ⟨rfl, ?_⟩
  rw [List.length_append, Nat.add_le_add_iff_right]
  clear found
  induction args generalizing body with
  | nil => exact Nat.zero_le _
  | cons a args ih =>
    obtain ⟨item, later, rfl, reads, splits⟩ := Splits.cons_iff.mp splits
    rw [List.map_cons, List.sum_cons, List.length_append]
    exact Nat.add_le_add reads.length_le (ih later splits)

theorem encodeBulk_item (short : a.length ≤ maxBulkLen) : RequestItem a (encodeBulk a) :=
  .bulk (stringToLlN_render (short.trans (by decide))) short

/-- One encoded argument is read back. -/
theorem parseArgs_encodeBulk (short : a.length ≤ maxBulkLen) (n : Nat) (rest : Bytes) :
    parseArgs (n + 1) (encodeBulk a ++ rest) = (parseArgs n rest).push a :=
  parseArgs_item (encodeBulk_item short) n rest

theorem parseArgs_encode (short : ∀ a ∈ args, a.length ≤ maxBulkLen) (rest : Bytes) :
    parseArgs args.length (args.flatMap encodeBulk ++ rest) = .done args rest := by
  have items : List.Forall₂ RequestItem args (args.map encodeBulk) :=
    List.forall₂_map_right_iff.mpr
      (List.forall₂_same.mpr fun a member => encodeBulk_item (short a member))
  exact parseArgs_done_iff.mpr ⟨rfl, _, ⟨args.map encodeBulk, items, rfl⟩, rfl⟩

end Items

/-! ### Verdicts that stand -/

section Stands

variable {buf : Bytes}

/-- What the argument loop says once more bytes stand behind its buffer. -/
def Parsed.extend (more : Bytes) : Parsed → Parsed
  | .done args rest => .done args (rest ++ more)
  | other => other

theorem Parsed.extend_push (more a : Bytes) (parsed : Parsed) :
    (parsed.push a).extend more = (parsed.extend more).push a := by
  cases parsed <;> rfl

theorem Parsed.push_more {a : Bytes} {parsed : Parsed} (final : parsed.push a ≠ .more) :
    parsed ≠ .more := by
  rintro rfl
  exact final rfl

/-- A payload that is whole stays so, with the same two bytes behind it. -/
theorem payload_more {rest : Bytes} {n : Nat} (whole : ¬ n + 2 > rest.length) (more : Bytes) :
    n + 2 ≤ rest.length ∧ ¬ n + 2 > (rest ++ more).length ∧
      ((rest ++ more).drop n).take 2 = (rest.drop n).take 2 := by
  refine ⟨Nat.le_of_not_lt whole, ?_, ?_⟩
  · rw [List.length_append]
    omega
  · rw [List.drop_append_of_le_length (by omega),
      List.take_append_of_le_length (by rw [List.length_drop]; omega)]

/-- **The argument loop keeps its verdict when more bytes follow.** -/
theorem parseArgs_more {n : Nat} (final : parseArgs n buf ≠ .more) (more : Bytes) :
    parseArgs n (buf ++ more) = (parseArgs n buf).extend more := by
  fun_induction parseArgs n buf with
  | case1 buf => rfl
  | case2 n => exact absurd rfl final
  | case3 n t buf unknown =>
    rw [List.cons_append, parseArgs, if_pos unknown]
    rfl
  | case4 n t buf known short => exact absurd rfl final
  | case5 n buf line rest number known found =>
    rw [List.cons_append, parseArgs, ← List.cons_append, getLine_more found more]
    simp only [if_neg known, if_pos, number]
    rfl
  | case6 n buf line rest slen number negative known found ih =>
    rw [List.cons_append, parseArgs, ← List.cons_append, getLine_more found more]
    simp only [if_neg known, if_pos, number, if_pos negative, ih (Parsed.push_more final),
      Parsed.extend_push]
  | case7 n buf line rest slen number signed long known found =>
    rw [List.cons_append, parseArgs, ← List.cons_append, getLine_more found more]
    simp only [if_neg known, if_pos, number, if_neg signed, if_pos long]
    rfl
  | case8 n buf line rest slen number signed fits short known found => exact absurd rfl final
  | case9 n buf line rest slen number signed fits whole bad known found =>
    obtain ⟨payload, room, behind⟩ := payload_more whole more
    rw [List.cons_append, parseArgs, ← List.cons_append, getLine_more found more]
    simp only [if_neg known, if_pos, number, if_neg signed, if_neg fits, if_neg room, behind,
      if_pos bad]
    rfl
  | case10 n buf line rest slen number signed fits whole good known found ih =>
    obtain ⟨payload, room, behind⟩ := payload_more whole more
    rw [List.cons_append, parseArgs, ← List.cons_append, getLine_more found more]
    simp only [if_neg known, if_pos, number, if_neg signed, if_neg fits, if_neg room, behind,
      if_neg good, List.drop_append_of_le_length payload, ih (Parsed.push_more final),
      Parsed.extend_push,
      List.take_append_of_le_length (show slen.toNat ≤ rest.length by omega)]
  | case11 n t buf known line rest found simple ih =>
    rw [List.cons_append, parseArgs, ← List.cons_append, getLine_more found more]
    simp only [if_neg known, if_neg simple, ih (Parsed.push_more final), Parsed.extend_push]

theorem respParseCommand_more (final : (respParseCommand buf).1 ≠ 0) (more : Bytes) :
    respParseCommand (buf ++ more) = respParseCommand buf := by
  cases buf with
  | nil => exact absurd rfl final
  | cons byte tail =>
    unfold respParseCommand at final ⊢
    rw [List.cons_append]
    dsimp only at final ⊢
    split_ifs at final ⊢ with mark
    · rfl
    rw [← List.cons_append]
    cases header : getLine (byte :: tail) with
    | none => simp [header] at final
    | some pair =>
      obtain ⟨line, body⟩ := pair
      rw [getLine_more header more]
      simp only [header] at final ⊢
      split_ifs at final ⊢ with short
      · rfl
      cases number : stringToLlN (line.drop 1) with
      | none => rfl
      | some count =>
        simp only [number] at final ⊢
        split_ifs at final ⊢ with range
        · rfl
        cases parsed : parseArgs count.toNat body with
        | more => simp [parsed] at final
        | error => rw [parseArgs_more (by rw [parsed]; exact nofun), parsed]; rfl
        | done args rest =>
          rw [parseArgs_more (by rw [parsed]; exact nofun), parsed]
          simp only [Parsed.extend, List.length_append]
          rw [Nat.add_sub_add_right]

/-- A command is what the argument loop read behind the count line. -/
theorem respParseCommand_shape (positive : 0 < (respParseCommand buf).1) :
    ∃ number v body rest, buf = 42 :: (number ++ 13 :: 10 :: body) ∧
      Wire.Plain (42 :: number) ∧ stringToLlN number = some v ∧ ¬ (v < 0 ∨ v > maxArgc) ∧
      parseArgs v.toNat body = .done (respParseCommand buf).2 rest ∧
      (respParseCommand buf).1 = ((buf.length - rest.length : Nat) : Int).bmod (2 ^ 32) := by
  cases buf with
  | nil => exact absurd positive (lt_irrefl 0)
  | cons first tail =>
    unfold respParseCommand at positive ⊢
    dsimp only at positive ⊢
    split_ifs at positive ⊢ with mark
    · exact absurd positive (by decide)
    cases header : getLine (first :: tail) with
    | none =>
      rw [header] at positive
      exact absurd positive (lt_irrefl 0)
    | some pair =>
      obtain ⟨line, body⟩ := pair
      obtain ⟨number, rfl, free, rfl⟩ := getLine_marked (by grind) header
      obtain rfl := not_not.mp mark
      rw [header] at positive
      dsimp only at positive ⊢
      split_ifs at positive ⊢ with short
      · exact absurd positive (by decide)
      rw [List.drop_one, List.tail_cons] at positive ⊢
      cases read : stringToLlN number with
      | none =>
        rw [read] at positive
        exact absurd positive (by dsimp only; decide)
      | some v =>
        rw [read] at positive
        dsimp only at positive ⊢
        split_ifs at positive ⊢ with range
        · exact absurd positive (by decide)
        cases parsed : parseArgs v.toNat body with
        | more =>
          rw [parsed] at positive
          exact absurd positive (lt_irrefl 0)
        | error =>
          rw [parsed] at positive
          exact absurd positive (by dsimp only; decide)
        | done args rest =>
          refine ⟨number, v, body, rest, rfl, free, read, range, parsed, ?_⟩
          dsimp only

/-- A command is not longer than the buffer it was read from. -/
theorem respParseCommand_le (positive : 0 < (respParseCommand buf).1) :
    (respParseCommand buf).1 ≤ buf.length := by
  obtain ⟨_, _, _, rest, _, _, _, _, _, consumed⟩ := respParseCommand_shape positive
  have inside : ((buf.length - rest.length : Nat) : Int) ≤ buf.length := by omega
  rw [consumed] at positive ⊢
  refine le_trans ?_ inside
  unfold Int.bmod
  dsimp only
  split_ifs <;> omega

end Stands

/-! ### Frames -/

section Frames

/-- The limits within which a frame is parsed. -/
structure Fits (args : Command) : Prop where
  argc : args.length ≤ maxArgc
  bulk : ∀ a ∈ args, a.length ≤ maxBulkLen
  frame : (awWriteCommand args).length < 2 ^ 31

/-- The arguments are read behind the line with their number. -/
theorem respParseCommand_number {number : Bytes} {v : Int} (read : stringToLlN number = some v)
    (range : ¬ (v < 0 ∨ v > maxArgc)) (body : Bytes) :
    respParseCommand (42 :: (number ++ 13 :: 10 :: body)) =
      match parseArgs v.toNat body with
      | .more => (0, [])
      | .error => (-1, [])
      | .done args rest =>
        ((((42 :: (number ++ 13 :: 10 :: body)).length - rest.length : Nat) : Int).bmod (2 ^ 32),
          args) := by
  have line : getLine (42 :: (number ++ 13 :: 10 :: body)) = some (42 :: number, body) :=
    getLine_of_plain (plain_integer (by decide) read) body
  have nonempty : ¬ (42 :: number).length < 2 := by
    cases number with
    | nil => cases read
    | cons byte number => simp
  unfold respParseCommand
  dsimp only
  rw [if_neg (by decide), line]
  dsimp only
  rw [if_neg nonempty, List.drop_one, List.tail_cons, read]
  dsimp only
  rw [if_neg range]

theorem respParseCommand_header {args : Command} (argc : args.length ≤ maxArgc) (body : Bytes) :
    respParseCommand (42 :: (Decimal.render args.length ++ 13 :: 10 :: body)) =
      match parseArgs args.length body with
      | .more => (0, [])
      | .error => (-1, [])
      | .done cmd rest =>
        ((((42 :: (Decimal.render args.length ++ 13 :: 10 :: body)).length - rest.length : Nat) :
          Int).bmod (2 ^ 32), cmd) :=
  respParseCommand_number (stringToLlN_render (argc.trans (by decide))) (by omega) body

theorem respDecode_encode {args : Command} (fits : Fits args) (rest : Bytes) :
    respDecode (awWriteCommand args ++ rest) = .frame args (awWriteCommand args).length := by
  have shape : awWriteCommand args ++ rest =
      42 :: (Decimal.render args.length ++ 13 :: 10 :: (args.flatMap encodeBulk ++ rest)) := by
    simp [awWriteCommand]
  have bound := fits.frame
  have positive : 0 < (awWriteCommand args).length := by simp [awWriteCommand]
  have consumed : (42 :: (Decimal.render args.length ++
      13 :: 10 :: (args.flatMap encodeBulk ++ rest))).length - rest.length =
      (awWriteCommand args).length := by
    rw [← shape, List.length_append]; omega
  unfold respDecode
  rw [shape, respParseCommand_header fits.argc, parseArgs_encode fits.bulk]
  simp only [consumed]
  rw [Int.bmod_eq_of_le_mul_two (by omega) (by omega)]
  simp [positive]

/-- A proper part of a frame asks for more: the parser would keep any other verdict. -/
theorem respDecode_cut {args : Command} (fits : Fits args) {part : Bytes}
    (start : part <+: awWriteCommand args) (proper : part ≠ awWriteCommand args)
    (_nonempty : part ≠ []) : respDecode part = .more := by
  have shorter : part.length < (awWriteCommand args).length :=
    lt_of_le_of_ne start.length_le fun same => proper (start.eq_of_length same)
  obtain ⟨more, whole⟩ := start
  have pending : (respParseCommand part).1 = 0 := by
    by_contra final
    have frame := respDecode_encode fits []
    rw [List.append_nil, ← whole, respDecode, respParseCommand_more final] at frame
    dsimp only at frame
    split_ifs at frame with positive
    injection frame with _ consumed
    have inside := respParseCommand_le positive
    rw [whole] at consumed
    omega
  unfold respDecode
  dsimp only
  rw [pending]
  exact if_neg (lt_irrefl 0)

/-- **The frames and the parser form a codec on the commands within the limits.** -/
def respCodec : FrameLog.Codec Command UInt8 where
  encode := awWriteCommand
  decode := respDecode
  Fits := Fits
  decode_pos := by
    intro buf cmd consumed found
    unfold respDecode at found
    split at found
    split at found
    · injection found with _ same
      omega
    · split at found <;> cases found
  encode_ne_nil := fun _ => List.cons_ne_nil _ _
  decode_encode := respDecode_encode
  decode_cut := respDecode_cut

end Frames

/-! ### Delivered commands -/

section Delivered

/-- `MAX_QUERY_BUF`. -/
def maxQueryBuf : Nat := 67108864

/-- A command `read_client` can hand to the dispatcher: parsed from a client buffer within its
cap. -/
def Deliverable (cmd : Command) : Prop :=
  ∃ buf consumed, buf.length ≤ maxQueryBuf ∧ respDecode buf = .frame cmd consumed

theorem respDecode_bounds {buf : Bytes} {cmd : Command} {consumed : Nat}
    (found : respDecode buf = .frame cmd consumed) :
    cmd.length ≤ maxArgc ∧ (cmd.map fun a => a.length + 3).sum ≤ buf.length := by
  unfold respDecode at found
  split at found
  rename_i total args parsed
  split at found
  · rename_i positive
    injection found with same
    subst same
    obtain ⟨number, count, body, rest, rfl, -, -, range, done, -⟩ :=
      respParseCommand_shape (by rw [parsed]; exact positive)
    obtain ⟨length, bytes⟩ := parseArgs_length done
    rw [parsed] at length bytes
    dsimp only at length bytes
    simp only [List.length_cons, List.length_append]
    exact ⟨by omega, by omega⟩
  · split at found <;> cases found

/-- The frame of a command takes at most its text and fourteen bytes for each argument, as long as
the arguments are shorter than `10 ^ 9` bytes. -/
theorem flatMap_encodeBulk_length (args : Command) (short : ∀ a ∈ args, a.length < 10 ^ 9) :
    (args.flatMap encodeBulk).length ≤
      (args.map fun a => a.length + 3).sum + 11 * args.length := by
  induction args with
  | nil => simp
  | cons a args ih =>
    have rest := ih (List.forall_mem_cons.mp short).2
    have digits := Decimal.render_length_le (k := 9) (by decide) (short a List.mem_cons_self)
    simp only [List.flatMap_cons, List.length_append, List.map_cons, List.sum_cons,
      List.length_cons, encodeBulk, List.length_nil]
    omega

/-- **What a client can deliver fits a frame of the log.** -/
theorem fits_of_deliverable {cmd : Command} (delivered : Deliverable cmd) :
    Fits (cmd.map cstr) := by
  obtain ⟨buf, consumed, cap, found⟩ := delivered
  obtain ⟨argc, bytes⟩ := respDecode_bounds found
  have total : ((cmd.map cstr).map fun a => a.length + 3).sum ≤ maxQueryBuf := by
    refine le_trans ?_ (bytes.trans cap)
    rw [List.map_map]
    exact List.sum_le_sum fun a _ => Nat.add_le_add_right (cstr_length_le a) 3
  have each : ∀ a ∈ cmd.map cstr, a.length + 3 ≤ maxQueryBuf := fun a member =>
    (List.single_le_sum (by simp) _ (List.mem_map_of_mem member)).trans total
  have frame := flatMap_encodeBulk_length (cmd.map cstr) fun a member =>
    lt_of_lt_of_le (Nat.lt_of_lt_of_le (by omega) (each a member)) (by decide)
  have header := Decimal.render_length_le (n := cmd.length) (k := 8) (by decide)
    (lt_of_le_of_lt argc (by decide))
  have cap : maxQueryBuf = 67108864 := rfl
  have most : maxArgc = 1048576 := rfl
  refine ⟨by simpa using argc, fun a member => ?_, ?_⟩
  · have inside := each a member
    have limit : maxBulkLen = 536870912 := rfl
    omega
  · simp only [awWriteCommand, List.length_cons, List.length_append, List.length_map] at frame ⊢
    omega

/-- The frame of a short command is short. -/
theorem awWriteCommand_short {args : Command} (few : args.length ≤ 1000)
    (short : ∀ a ∈ args, a.length ≤ 1000) : (awWriteCommand args).length ≤ 1100000 := by
  have body := flatMap_encodeBulk_length args fun a member =>
    lt_of_le_of_lt (short a member) (by decide)
  have text : (args.map fun a => a.length + 3).sum ≤ args.length * 1003 := by
    refine (List.sum_le_card_nsmul _ 1003 fun n member => ?_).trans (by simp)
    obtain ⟨a, inside, rfl⟩ := List.mem_map.mp member
    exact Nat.add_le_add_right (short a inside) 3
  have header := Decimal.render_length_le (n := args.length) (k := 8) (by decide)
    (lt_of_le_of_lt few (by decide))
  simp only [awWriteCommand, List.length_cons, List.length_append]
  omega

theorem fits_of_short {args : Command} (few : args.length ≤ 1000)
    (short : ∀ a ∈ args, a.length ≤ 1000) : Fits args :=
  ⟨few.trans (by decide), fun a member => (short a member).trans (by decide),
    lt_of_le_of_lt (awWriteCommand_short few short) (by decide)⟩

/-- A command of few arguments within the limits fits if they are at most two long ones. -/
theorem fits_of_total {args : Command} (few : args.length ≤ 1000)
    (bulk : ∀ a ∈ args, a.length ≤ maxBulkLen)
    (total : (args.map List.length).sum ≤ 2 * maxBulkLen + 1000) : Fits args := by
  have limit : maxBulkLen = 536870912 := rfl
  have body := flatMap_encodeBulk_length args fun a member =>
    lt_of_le_of_lt (bulk a member) (by decide)
  have text : (args.map fun a => a.length + 3).sum =
      (args.map List.length).sum + 3 * args.length := by
    rw [List.sum_map_add, List.map_const', List.sum_replicate, smul_eq_mul, mul_comm]
  have header := Decimal.render_length_le (n := args.length) (k := 8) (by decide)
    (lt_of_le_of_lt few (by decide))
  refine ⟨few.trans (by decide), bulk, ?_⟩
  simp only [awWriteCommand, List.length_cons, List.length_append]
  omega

/-- A short command can be delivered as its own frame. -/
theorem deliverable_of_short {args : Command} (few : args.length ≤ 1000)
    (short : ∀ a ∈ args, a.length ≤ 1000) : Deliverable args := by
  refine ⟨awWriteCommand args ++ [], _, ?_, respDecode_encode (fits_of_short few short) []⟩
  rw [List.append_nil]
  exact (awWriteCommand_short few short).trans (by decide)

end Delivered

end Miniredis
