/-
**The parser in its buffer (`resp.c`).**

`resp_parse_command` as the source runs it, with offsets into the buffer. A `none` is a read
outside the buffer, or an overflow. The arguments pushed so far come back with every verdict.
-/

import Miniredis.Lib.Block
import Miniredis.Model.PlainChars
import Miniredis.Model.Resp

namespace Miniredis

/-- The loop of `get_line`: where the first CR LF from `i` on stands. -/
def scanLine (buf : Bytes) : Nat → Nat → Option (Option Nat)
  | 0, i => if i + 1 < buf.length then none else some none
  | fuel + 1, i =>
    if i + 1 < buf.length then do
      let byte ← buf[i]?
      if byte = 13 then
        let next ← buf[i + 1]?
        if next = 10 then some (some i) else scanLine buf fuel (i + 1)
      else scanLine buf fuel (i + 1)
    else some none

/-- `get_line`: the length of the line at `pos`, and the position behind it. -/
def getLineAt (buf : Bytes) (pos : Nat) : Option (Option (Nat × Nat)) := do
  match ← scanLine buf buf.length pos with
  | none => some none
  | some i => some (some (Buffer.sub i pos, i + 2))

/-- The argument loop of `resp_parse_command`, `n` arguments to go. -/
def parseArgsAt (buf : Bytes) : Nat → Nat → Command → Option (Int × Command)
  | 0, pos, args => some ((pos : Int).bmod (2 ^ 32), args)
  | n + 1, pos, args =>
    if pos ≥ buf.length then some (0, args)
    else do
      let t ← buf[pos]?
      if t ≠ 36 ∧ t ≠ 43 then some (-1, args)
      else
        match ← getLineAt buf pos with
        | none => some (0, args)
        | some (lineLen, next) =>
          let line ← Buffer.slice buf (pos + 1) (Buffer.sub lineLen 1)
          if t = 36 then
            match ← stringToLlNChecked line with
            | none => some (-1, args)
            | some slen =>
              if slen < 0 then parseArgsAt buf n next (args ++ [[]])
              else if slen > maxBulkLen then some (-1, args)
              else if slen.toNat + 2 > Buffer.sub buf.length next then some (0, args)
              else
                let cr ← buf[next + slen.toNat]?
                if cr ≠ 13 then some (-1, args)
                else
                  let lf ← buf[next + slen.toNat + 1]?
                  if lf ≠ 10 then some (-1, args)
                  else
                    let payload ← Buffer.slice buf next slen.toNat
                    parseArgsAt buf n (next + (slen.toNat + 2)) (args ++ [payload])
          else parseArgsAt buf n next (args ++ [line])

/-- `resp_parse_command`: the return value and the arguments. -/
def respParseCommandAt (buf : Bytes) : Option (Int × Command) :=
  if buf.length = 0 then some (0, [])
  else do
    let first ← buf[0]?
    if first ≠ 42 then some (-1, [])
    else
      match ← getLineAt buf 0 with
      | none => some (0, [])
      | some (lineLen, next) =>
        if lineLen < 2 then some (-1, [])
        else
          let mark ← buf[0]?
          if mark ≠ 42 then some (-1, [])
          else
            let line ← Buffer.slice buf 1 (Buffer.sub lineLen 1)
            match ← stringToLlNChecked line with
            | none => some (-1, [])
            | some count =>
              if count < 0 ∨ count > maxArgc then some (-1, [])
              else parseArgsAt buf count.toNat next []

end Miniredis
