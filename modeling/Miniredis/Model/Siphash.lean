/-
**SipHash in memory (`siphash.c`).**

`siphash` of `Dict` as the source runs it: bytes read one by one from the message and the key, the
loop over whole blocks, and the switch that falls through from the last byte of the rest to the
first. A `none` is a read outside the message or the key.
-/

import Miniredis.Model.Dict

namespace Miniredis

/-- `u8to64_le` of the eight bytes at an offset. -/
def u8to64LeAt (p : Bytes) (i : Nat) : Option UInt64 := do
  let p0 ← p[i]?
  let p1 ← p[i + 1]?
  let p2 ← p[i + 2]?
  let p3 ← p[i + 3]?
  let p4 ← p[i + 4]?
  let p5 ← p[i + 5]?
  let p6 ← p[i + 6]?
  let p7 ← p[i + 7]?
  return p0.toUInt64 ||| (p1.toUInt64 <<< 8) ||| (p2.toUInt64 <<< 16) ||| (p3.toUInt64 <<< 24) |||
    (p4.toUInt64 <<< 32) ||| (p5.toUInt64 <<< 40) ||| (p6.toUInt64 <<< 48) |||
    (p7.toUInt64 <<< 56)

/-- `for (; in != end; in += 8)`, `i` being where `in` points to. -/
def sipBlocks (input : Bytes) (stop : Nat) : Nat → Nat → SipState → Option (SipState × Nat)
  | 0, i, s => if i = stop then some (s, i) else none
  | fuel + 1, i, s =>
    if i = stop then some (s, i)
    else do
      let m ← u8to64LeAt input i
      sipBlocks input stop fuel (i + 8) (sipWord s m)

/-- The cases of the switch from `n` on: case `n` takes byte `n - 1` and falls through. -/
def sipTail (input : Bytes) (i : Nat) : Nat → UInt64 → Option UInt64
  | 0, b => some b
  | n + 1, b => do
    let byte ← input[i + n]?
    sipTail input i n (b ||| (byte.toUInt64 <<< UInt64.ofNat (8 * n)))

/-- `siphash` over the bytes in memory. -/
def siphashInPlace (input : Bytes) (k : Seed) : Option UInt64 := do
  let inlen := input.length
  let k0 ← u8to64LeAt k.toList 0
  let k1 ← u8to64LeAt k.toList 8
  let b := inlen.toUInt64 <<< 56
  let s : SipState := ⟨0x736f6d6570736575 ^^^ k0, 0x646f72616e646f6d ^^^ k1,
    0x6c7967656e657261 ^^^ k0, 0x7465646279746573 ^^^ k1⟩
  let (s, i) ← sipBlocks input (inlen - inlen % 8) inlen 0 s
  let b ← sipTail input i (inlen &&& 7) b
  let s := sipWord s b
  let s := { s with v2 := s.v2 ^^^ 0xff }
  let s := sipRound (sipRound (sipRound (sipRound s)))
  return s.v0 ^^^ s.v1 ^^^ s.v2 ^^^ s.v3

end Miniredis
