/-
**Plain `char`s and `long long`s (`util.c`).**

`string_to_ll_n` and `util_glob_match` as the source runs them: a byte read through a `char *` is
signed, sums and products are those of `long long`s, and the matcher calls itself. A `none` is
undefined behaviour, or a recursion that has not come to its end at the given depth.
-/

import Miniredis.Model.Strings

namespace Miniredis

/-- A byte read through a plain `char *`, promoted to `int`. -/
def plainChar (byte : UInt8) : Int := Int.bmod byte.toNat 256

/-! ### Integer texts -/

/-- The digit loop of `string_to_ll_n`, over `long long`s. -/
def stringToLlDigitsChecked : Int → Bytes → Option (Option Int)
  | v, [] => some (some v)
  | v, c :: rest =>
    if plainChar c < 48 ∨ plainChar c > 57 then some none
    else do
      let d := plainChar c - 48
      let room ← checked (llongMax - d)
      if v > room.tdiv 10 then some none
      else
        let tens ← checked (v * 10)
        let v ← checked (tens + d)
        stringToLlDigitsChecked v rest

/-- `string_to_ll_n`, over `long long`s; the inner `none` is the return value `0`. -/
def stringToLlNChecked : Bytes → Option (Option Int)
  | [] => some none
  | c :: rest =>
    if plainChar c = 45 then
      if rest = [] then some none
      else do
        match ← stringToLlDigitsChecked 0 rest with
        | none => some none
        | some v => (checked (-v)).map some
    else if plainChar c = 43 then
      if rest = [] then some none else stringToLlDigitsChecked 0 rest
    else stringToLlDigitsChecked 0 (c :: rest)

/-! ### Glob patterns -/

/-- `glob_rec` with calls nested to at most the given depth. The loop behind a star stops at the
first suffix that matches. -/
def globRecNested : Nat → Bytes → Bytes → Option Bool
  | 0, _, _ => none
  | _ + 1, [], s => some s.isEmpty
  | depth + 1, p :: pattern, s =>
    if p = 42 then
      let pattern := pattern.dropWhile (· == 42)
      if pattern = [] then some true
      else s.tails.anyM fun rest => globRecNested depth pattern rest
    else
      match s with
      | [] => some false
      | c :: s =>
        if p = 63 then globRecNested depth pattern s
        else if p = 91 then
          let (hit, pattern) := globClass pattern c
          if hit then globRecNested depth pattern s else some false
        else if plainChar p = c.toNat then globRecNested depth pattern s
        else some false

/-- `util_glob_match` on a pattern in memory, which ends at its first NUL. -/
def utilGlobMatchNested (depth : Nat) (pat s : Bytes) : Option Bool :=
  globRecNested depth (cstr pat) s

end Miniredis
