/-
**SipHash.**

A keyed hash with four lanes of 64 bits. The message is padded to whole words, the last byte being
its length; each word is absorbed with `c` rounds, and `d` rounds come at the end.

* `words_append`: a block of eight bytes in front is a word in front;
* `fill_append`, `fill_short`: padding a message block by block.
-/

import Mathlib.Data.Nat.Digits.Lemmas
import Mathlib.Tactic

namespace SipHash

abbrev Word := BitVec 64

structure State where
  v0 : Word
  v1 : Word
  v2 : Word
  v3 : Word

/-- One round of additions, rotations and xors. -/
def State.round (s : State) : State :=
  let v0 := s.v0 + s.v1
  let v1 := s.v1.rotateLeft 13 ^^^ v0
  let v0 := v0.rotateLeft 32
  let v2 := s.v2 + s.v3
  let v3 := s.v3.rotateLeft 16 ^^^ v2
  let v0 := v0 + v3
  let v3 := v3.rotateLeft 21 ^^^ v0
  let v2 := v2 + v1
  let v1 := v1.rotateLeft 17 ^^^ v2
  ⟨v0, v1, v2.rotateLeft 32, v3⟩

/-- Absorb a word of the message with `c` rounds. -/
def State.absorb (c : Nat) (s : State) (m : Word) : State :=
  let s := State.round^[c] { s with v3 := s.v3 ^^^ m }
  { s with v0 := s.v0 ^^^ m }

/-- The hash of what was absorbed, after `d` more rounds. -/
def State.finish (d : Nat) (s : State) : Word :=
  let s := State.round^[d] { s with v2 := s.v2 ^^^ 0xff }
  s.v0 ^^^ s.v1 ^^^ s.v2 ^^^ s.v3

/-- The number that bytes denote, least significant first. -/
def littleEndian (bytes : List UInt8) : Nat := Nat.ofDigits 256 (bytes.map UInt8.toNat)

def word (bytes : List UInt8) : Word := BitVec.ofNat 64 (littleEndian bytes)

/-- The words of a byte string whose length is a multiple of eight. -/
def words (bytes : List UInt8) : List Word :=
  (List.range (bytes.length / 8)).map fun i => word ((bytes.drop (8 * i)).take 8)

/-- Zeros up to a length that is one short of a multiple of eight, then a byte. -/
def fill (bytes : List UInt8) (last : UInt8) : List UInt8 :=
  bytes ++ List.replicate (7 - bytes.length % 8) 0 ++ [last]

/-- The message padded with zeros, and its length modulo 256 as the last byte. -/
def pad (message : List UInt8) : List UInt8 :=
  fill message (UInt8.ofNat (message.length % 256))

/-- The state under a key of sixteen bytes. -/
def start (key : List UInt8) : State :=
  let k0 := word (key.take 8)
  let k1 := word (key.drop 8)
  ⟨k0 ^^^ 0x736f6d6570736575, k1 ^^^ 0x646f72616e646f6d, k0 ^^^ 0x6c7967656e657261,
    k1 ^^^ 0x7465646279746573⟩

/-- SipHash-`c`-`d`. -/
def hash (c d : Nat) (key message : List UInt8) : Word :=
  ((words (pad message)).foldl (State.absorb c) (start key)).finish d

section Lemmas

variable {bytes block rest : List UInt8} {last : UInt8}

/-- A block of eight bytes in front is a word in front. -/
theorem words_append (whole : block.length = 8) :
    words (block ++ rest) = word block :: words rest := by
  have count : (block ++ rest).length / 8 = rest.length / 8 + 1 := by
    rw [List.length_append, whole]
    omega
  unfold words
  rw [count, List.range_succ_eq_map, List.map_cons, List.map_map]
  congr 1
  · rw [Nat.mul_zero, List.drop_zero, List.take_left' whole]
  · refine List.map_congr_left fun i _ => ?_
    have shift : (block ++ rest).drop (8 * (i + 1)) = rest.drop (8 * i) := by
      rw [Nat.mul_add, Nat.add_comm, ← List.drop_drop, List.drop_left' whole]
    exact congrArg (fun bytes => word (bytes.take 8)) shift

theorem words_single (whole : block.length = 8) : words block = [word block] := by
  have split := @words_append block [] whole
  rwa [List.append_nil] at split

theorem fill_append (whole : block.length = 8) :
    fill (block ++ rest) last = block ++ fill rest last := by
  have same : (block ++ rest).length % 8 = rest.length % 8 := by
    rw [List.length_append, whole]
    omega
  simp only [fill, same, List.append_assoc]

theorem fill_short (short : bytes.length < 8) : (fill bytes last).length = 8 := by
  simp only [fill, List.length_append, List.length_replicate, List.length_singleton]
  omega

theorem littleEndian_lt (bytes : List UInt8) : littleEndian bytes < 256 ^ bytes.length := by
  have bound := @Nat.ofDigits_lt_base_pow_length 256 (bytes.map UInt8.toNat) (by decide)
    fun digit member => by
      obtain ⟨byte, _, rfl⟩ := List.mem_map.mp member
      exact byte.toNat_lt
  rwa [List.length_map] at bound

theorem littleEndian_append (front back : List UInt8) :
    littleEndian (front ++ back) = littleEndian front + 256 ^ front.length * littleEndian back := by
  simp only [littleEndian, List.map_append, Nat.ofDigits_append, List.length_map]

theorem littleEndian_zeros (n : Nat) : littleEndian (List.replicate n 0) = 0 := by
  induction n with
  | zero => rfl
  | succ n ih =>
    rw [List.replicate_succ, ← List.singleton_append, littleEndian_append, ih]
    rfl

/-- What the last byte adds to a short rest. -/
theorem littleEndian_fill (short : bytes.length < 8) :
    littleEndian (fill bytes last) = littleEndian bytes + 256 ^ 7 * last.toNat := by
  have exponent : (bytes ++ List.replicate (7 - bytes.length % 8) (0 : UInt8)).length = 7 := by
    simp only [List.length_append, List.length_replicate]
    omega
  rw [fill, littleEndian_append, littleEndian_append, exponent, littleEndian_zeros]
  simp [littleEndian]

end Lemmas

end SipHash
