/-
**String objects keep their bytes, their length and the zero at the end.**

`bufferOf s` is the object for the bytes `s`: a block of exactly their number and one more, and the
length beside it. Each operation on the block succeeds below the allocation limit and leads from
such an object to such an object.

* `new_eq`, `append_eq`, `setrange_eq` — what the operations of `StringBuffers` do to the bytes.
-/

import Miniredis.Model.StringBuffers

namespace Miniredis

/-- The object for some bytes. -/
def bufferOf (s : Bytes) : StringBuffer := ⟨(s ++ [0]).map some, s.length⟩

theorem sizeAdd_of_lt {a b : Nat} (small : a + b < 2 ^ 64) : sizeAdd a b = a + b :=
  Nat.mod_eq_of_lt small

namespace StringBuffer

variable {limit offset : Nat} {s val : Bytes}

theorem xmalloc_of_lt {n : Nat} (bounded : limit ≤ 2 ^ 63) (allowed : n < limit) :
    xmalloc limit (sizeAdd n 1) = some ([].map some ++ List.replicate (n + 1) none) := by
  have size : sizeAdd n 1 = n + 1 := sizeAdd_of_lt (by omega)
  rw [xmalloc, size, if_neg (Nat.succ_ne_zero n), Block.malloc_of_le allowed]
  rfl

theorem new_eq (bounded : limit ≤ 2 ^ 63) (allowed : s.length < limit) :
    new limit s = some (bufferOf s) := by
  have bytes := Block.copyIn_next [] s (n := s.length + 1) (by omega)
  have zero := Block.copyIn_next s [0] (n := 1) (by simp)
  rw [List.length_nil, List.nil_append, Nat.add_sub_cancel_left] at bytes
  rw [List.length_singleton, Nat.sub_self, List.replicate_zero, List.append_nil] at zero
  simp only [new, xmalloc_of_lt bounded allowed, Option.bind_eq_bind, Option.bind_some, bytes, zero]
  rfl

/-- The old zero is the first cell the new bytes go over. -/
theorem append_eq (bounded : limit ≤ 2 ^ 63) (allowed : s.length + val.length < limit) :
    append limit (bufferOf s) val = some (bufferOf (s ++ val)) := by
  have sum : sizeAdd s.length val.length = s.length + val.length := sizeAdd_of_lt (by omega)
  have size : sizeAdd (s.length + val.length) 1 = s.length + val.length + 1 :=
    sizeAdd_of_lt (by omega)
  let rest : Block UInt8 := some 0 :: List.replicate val.length none
  have cells : (s ++ [0]).map some ++ List.replicate val.length none =
      s.map some ++ rest.take val.length ++ rest.drop val.length := by
    rw [List.append_assoc, List.take_append_drop, List.map_append, List.append_assoc]
    rfl
  have resized : xrealloc limit (bufferOf s).ptr (s.length + val.length + 1) =
      some (s.map some ++ rest.take val.length ++ rest.drop val.length) := by
    have length : (bufferOf s).ptr.length = s.length + 1 := by simp [bufferOf]
    rw [xrealloc, if_neg (Nat.succ_ne_zero _), Block.realloc_of_le _ allowed (by omega), length,
      ← cells]
    have more : s.length + val.length + 1 - (s.length + 1) = val.length := by omega
    rw [more]
    rfl
  have bytes := Block.copyIn_append (s.map some) (rest.take val.length) (rest.drop val.length) val
    (List.length_map _).symm (by simp [rest])
  have zero := Block.copyIn_append ((s ++ val).map some) (rest.drop val.length) [] [0]
    (List.length_map _).symm (by simp [rest])
  rw [List.append_nil, List.append_nil, List.length_append, List.map_append] at zero
  simp only [append, show (bufferOf s).len = s.length from rfl, sum, size, resized,
    Option.bind_eq_bind, Option.bind_some, bytes, zero]
  simp [bufferOf]

/-- The bytes with zeros up to a length. -/
def padded (s : Bytes) (need : Nat) : Bytes := s ++ List.replicate (need - s.length) 0

theorem length_padded (s : Bytes) (need : Nat) : (padded s need).length = max s.length need := by
  rw [padded, List.length_append, List.length_replicate]
  omega

theorem grow_eq {need : Nat} (bounded : limit ≤ 2 ^ 63) (allowed : need < limit) :
    grow limit (bufferOf s) need = some (bufferOf (padded s need)) := by
  rw [grow, show (bufferOf s).len = s.length from rfl]
  by_cases larger : need > s.length
  · have old := Block.copyOut_append s [some 0]
    have bytes := Block.copyIn_next [] s (n := need + 1) (by omega)
    have zeros := Block.copyIn_next s (List.replicate (need - s.length) 0)
      (n := need + 1 - s.length) (by rw [List.length_replicate]; omega)
    have zero := Block.copyIn_next (padded s need) [0] (n := 1) (by simp)
    have last : need + 1 - s.length - (need - s.length) = 1 := by omega
    rw [List.length_nil, List.nil_append] at bytes
    rw [List.length_replicate, last] at zeros
    rw [length_padded, max_eq_right larger.le, List.length_singleton, Nat.sub_self,
      List.replicate_zero, List.append_nil] at zero
    have cells : (bufferOf s).ptr = s.map some ++ [some 0] := List.map_append
    rw [if_pos larger]
    simp only [xmalloc_of_lt bounded allowed, cells, old, Option.bind_eq_bind, Option.bind_some,
      bytes, zeros]
    rw [← padded, zero, bufferOf, length_padded, max_eq_right larger.le]
    rfl
  · have same : padded s need = s := by
      rw [padded, Nat.sub_eq_zero_of_le (by omega), List.replicate_zero, List.append_nil]
    rw [if_neg larger, same]

theorem setrangeBytes_eq (s : Bytes) (offset : Nat) (val : Bytes) :
    setrangeBytes s offset val = (padded s (offset + val.length)).take offset ++ val ++
      (padded s (offset + val.length)).drop (offset + val.length) := rfl

theorem setrange_eq (bounded : limit ≤ 2 ^ 63) (allowed : offset + val.length < limit) :
    setrange limit (bufferOf s) offset val = some (bufferOf (setrangeBytes s offset val)) := by
  have sum : sizeAdd offset val.length = offset + val.length := sizeAdd_of_lt (by omega)
  let grown := padded s (offset + val.length)
  have length : offset + val.length ≤ grown.length := by
    rw [length_padded]
    exact le_max_right ..
  have cells : (bufferOf grown).ptr = (grown.take offset).map some ++
      ((grown.drop offset).take val.length).map some ++
      (grown.drop (offset + val.length) ++ [0]).map some := by
    rw [← List.map_append, ← List.map_append, ← List.append_assoc, ← List.drop_drop,
      List.append_assoc (grown.take offset), List.take_append_drop, List.take_append_drop]
    rfl
  have front : offset = ((grown.take offset).map some).length := by
    rw [List.length_map, List.length_take]
    omega
  have middle : (((grown.drop offset).take val.length).map some).length = val.length := by
    rw [List.length_map, List.length_take, List.length_drop]
    omega
  have bytes := Block.copyIn_append _ _ ((grown.drop (offset + val.length) ++ [0]).map some) val
    front middle
  rw [← cells] at bytes
  simp only [setrange, sum, grow_eq bounded allowed, Option.bind_eq_bind, Option.bind_some]
  rw [bytes]
  have kept : (bufferOf grown).len = (setrangeBytes s offset val).length :=
    (length_padded s _).trans (setrangeBytes_length s offset val).symm
  rw [Option.bind_some, kept, bufferOf, setrangeBytes_eq]
  simp [grown]

end StringBuffer

end Miniredis
