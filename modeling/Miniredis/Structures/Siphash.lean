/-
**The hash of the dictionaries is SipHash-2-4.**

* `u8to64LeAt_eq`, `sipTail_eq`: the shifts of the source are little-endian words;
* `sipBlocks_eq`, `sipWords_words`: the loop over blocks absorbs the words of the message;
* `siphash_padded`: the hash of any message is that of its padded words.
-/

import Miniredis.Lib.SipHash
import Miniredis.Model.Siphash

namespace Miniredis

open SipHash (littleEndian word words fill)

/-! ### Lanes -/

/-- The lanes as words. -/
def SipState.lanes (s : SipState) : SipHash.State :=
  ⟨s.v0.toBitVec, s.v1.toBitVec, s.v2.toBitVec, s.v3.toBitVec⟩

theorem lanes_sipRound (s : SipState) : (sipRound s).lanes = s.lanes.round := rfl

theorem lanes_sipWord (s : SipState) (m : UInt64) :
    (sipWord s m).lanes = s.lanes.absorb 2 m.toBitVec := rfl

/-! ### Words -/

section Words

variable {bytes : Bytes}

/-- **Up to eight bytes make a little-endian word.** -/
theorem u8to64Le_toNat (short : bytes.length ≤ 8) :
    (u8to64Le bytes).toNat = littleEndian bytes := by
  induction bytes with
  | nil => rfl
  | cons byte rest ih =>
    rw [List.length_cons] at short
    have later := ih (by omega)
    have bound := SipHash.littleEndian_lt rest
    have room : 256 ^ rest.length ≤ 256 ^ 7 := Nat.pow_le_pow_right (by decide) (by omega)
    have unfolded : u8to64Le (byte :: rest) = byte.toUInt64 ||| (u8to64Le rest <<< 8) := rfl
    have shifted : (u8to64Le rest <<< 8).toNat = 2 ^ 8 * littleEndian rest := by
      rw [UInt64.toNat_shiftLeft, later]
      show littleEndian rest <<< 8 % 2 ^ 64 = _
      rw [Nat.shiftLeft_eq, Nat.mod_eq_of_lt (by omega), Nat.mul_comm]
    rw [unfolded, UInt64.toNat_or, shifted, UInt8.toNat_toUInt64, Nat.or_comm,
      ← Nat.two_pow_add_eq_or_of_lt byte.toNat_lt, ← List.singleton_append,
      SipHash.littleEndian_append]
    simp [littleEndian]
    omega

theorem toBitVec_u8to64Le (short : bytes.length ≤ 8) :
    (u8to64Le bytes).toBitVec = word bytes := by
  apply BitVec.eq_of_toNat_eq
  have bound := (u8to64Le bytes).toNat_lt
  rw [UInt64.toNat_toBitVec, word, BitVec.toNat_ofNat, ← u8to64Le_toNat short,
    Nat.mod_eq_of_lt bound]

/-- One byte more, shifted to its place. -/
theorem u8to64Le_concat (short : bytes.length < 8) (byte : UInt8) :
    u8to64Le (bytes ++ [byte]) =
      u8to64Le bytes ||| (byte.toUInt64 <<< UInt64.ofNat (8 * bytes.length)) := by
  induction bytes with
  | nil => simp [u8to64Le]
  | cons first rest ih =>
    rw [List.length_cons] at short
    have places : (UInt64.ofNat (8 * rest.length)).toNat = 8 * rest.length :=
      UInt64.toNat_ofNat_of_lt' (by
        show 8 * rest.length < 2 ^ 64
        omega)
    have together : UInt64.ofNat (8 * (first :: rest).length) =
        UInt64.ofNat (8 * rest.length) + 8 := by
      rw [List.length_cons, Nat.mul_add, UInt64.ofNat_add]
      rfl
    have unfolded (later : Bytes) : u8to64Le (first :: later) =
      first.toUInt64 ||| (u8to64Le later <<< 8) := rfl
    rw [List.cons_append, unfolded, unfolded, ih (by omega), together,
      UInt64.shiftLeft_add_of_toNat_lt (by
        rw [places]
        show 8 * rest.length + 8 < 64
        omega), UInt64.shiftLeft_or, UInt64.or_assoc]

theorem u8to64Le_eight (p0 p1 p2 p3 p4 p5 p6 p7 : UInt8) :
    u8to64Le [p0, p1, p2, p3, p4, p5, p6, p7] =
      p0.toUInt64 ||| (p1.toUInt64 <<< 8) ||| (p2.toUInt64 <<< 16) ||| (p3.toUInt64 <<< 24) |||
        (p4.toUInt64 <<< 32) ||| (p5.toUInt64 <<< 40) ||| (p6.toUInt64 <<< 48) |||
        (p7.toUInt64 <<< 56) := by
  have twice (x a : UInt64) (room : a.toNat + 8 < 64) : x <<< a <<< 8 = x <<< (a + 8) :=
    (UInt64.shiftLeft_add_of_toNat_lt room).symm
  simp (disch := decide) only [u8to64Le, List.foldr_cons, List.foldr_nil, UInt64.shiftLeft_or,
    twice, UInt64.zero_shiftLeft, UInt64.or_zero, UInt64.or_assoc]
  rfl

/-- A list with eight elements or more. -/
theorem exists_eight (long : 8 ≤ bytes.length) : ∃ p0 p1 p2 p3 p4 p5 p6 p7 rest,
    bytes = p0 :: p1 :: p2 :: p3 :: p4 :: p5 :: p6 :: p7 :: rest := by
  rcases bytes with _ | ⟨p0, _ | ⟨p1, _ | ⟨p2, _ | ⟨p3, _ | ⟨p4, _ | ⟨p5, _ | ⟨p6, _ |
    ⟨p7, rest⟩⟩⟩⟩⟩⟩⟩⟩
  case cons.cons.cons.cons.cons.cons.cons.cons => exact ⟨_, _, _, _, _, _, _, _, _, rfl⟩
  all_goals simp at long

/-- `u8to64_le` inside a buffer. -/
theorem u8to64LeAt_eq {i : Nat} (inside : i + 8 ≤ bytes.length) :
    u8to64LeAt bytes i = some (u8to64Le ((bytes.drop i).take 8)) := by
  have long : 8 ≤ (bytes.drop i).length := by
    rw [List.length_drop]
    omega
  obtain ⟨p0, p1, p2, p3, p4, p5, p6, p7, rest, shape⟩ := exists_eight long
  have read (k : Nat) : bytes[i + k]? = (bytes.drop i)[k]? := List.getElem?_drop.symm
  unfold u8to64LeAt
  rw [show bytes[i]? = (bytes.drop i)[0]? from read 0, read 1, read 2, read 3, read 4, read 5,
    read 6, read 7, shape]
  exact congrArg some (u8to64Le_eight p0 p1 p2 p3 p4 p5 p6 p7).symm

/-- The switch collects the rest, from its last byte to its first. -/
theorem sipTail_eq {i n : Nat} (few : n ≤ 8) (inside : i + n ≤ bytes.length) (b : UInt64) :
    sipTail bytes i n b = some (b ||| u8to64Le ((bytes.drop i).take n)) := by
  induction n generalizing b with
  | zero => simp [sipTail, u8to64Le]
  | succ n ih =>
    have read : bytes[i + n]? = some bytes[i + n] := List.getElem?_eq_getElem (by omega)
    have size : ((bytes.drop i).take n).length = n := by
      rw [List.length_take, List.length_drop]
      omega
    have split : (bytes.drop i).take (n + 1) = (bytes.drop i).take n ++ [bytes[i + n]] := by
      rw [List.take_succ_eq_append_getElem (by rw [List.length_drop]; omega), List.getElem_drop]
    have one := u8to64Le_concat (by omega : ((bytes.drop i).take n).length < 8) bytes[i + n]
    rw [sipTail, read, split, one, size]
    simp only [Option.bind_eq_bind, Option.bind_some]
    rw [ih (by omega) (by omega), UInt64.or_assoc, UInt64.or_comm (_ <<< _)]

end Words

/-! ### Messages -/

section Messages

variable {input : Bytes} {s : SipState}

/-- The loop over whole blocks of the list model. -/
theorem sipWords_block {block rest : Bytes} (whole : block.length = 8) :
    sipWords s (block ++ rest) = sipWords (sipWord s (u8to64Le block)) rest := by
  obtain ⟨p0, p1, p2, p3, p4, p5, p6, p7, later, rfl⟩ := exists_eight whole.ge
  obtain rfl : later = [] := List.length_eq_zero_iff.mp (by simpa using whole)
  rfl

theorem sipWords_short (short : input.length < 8) : sipWords s input = (s, input) := by
  rw [sipWords.eq_def]
  split
  · simp at short
    omega
  · rfl

/-- The loop over blocks in memory does the same. -/
theorem sipBlocks_eq {stop fuel i : Nat} (inside : stop ≤ input.length) (before : i ≤ stop)
    (whole : (stop - i) % 8 = 0) (rest : input.length - stop < 8) (enough : stop - i ≤ fuel) :
    sipBlocks input stop fuel i s = some ((sipWords s (input.drop i)).1, stop) ∧
      (sipWords s (input.drop i)).2 = input.drop stop := by
  induction fuel generalizing i s with
  | zero =>
    obtain rfl : i = stop := by omega
    rw [sipWords_short (by rw [List.length_drop]; exact rest), sipBlocks, if_pos rfl]
    exact ⟨rfl, rfl⟩
  | succ fuel ih =>
    by_cases done : i = stop
    · subst done
      rw [sipWords_short (by rw [List.length_drop]; exact rest), sipBlocks, if_pos rfl]
      exact ⟨rfl, rfl⟩
    · have block : ((input.drop i).take 8).length = 8 := by
        rw [List.length_take, List.length_drop]
        omega
      have split : input.drop i = (input.drop i).take 8 ++ input.drop (i + 8) := by
        rw [← List.drop_drop, List.take_append_drop]
      have words : sipWords s (input.drop i) =
          sipWords (sipWord s (u8to64Le ((input.drop i).take 8))) (input.drop (i + 8)) :=
        (congrArg (sipWords s) split).trans (sipWords_block block)
      rw [sipBlocks, if_neg done, u8to64LeAt_eq (by omega), words]
      simp only [Option.bind_eq_bind, Option.bind_some]
      exact ih (by omega) (by omega) (by omega)

/-- **In memory the hash is that of the list model.** -/
theorem siphashInPlace_eq (input : Bytes) (k : Seed) :
    siphashInPlace input k = some (siphash input k) := by
  have key : k.toList.length = 16 := k.length_toList
  have masked : input.length &&& 7 = input.length % 8 :=
    Nat.and_two_pow_sub_one_eq_mod input.length 3
  have short : input.length % 8 < 8 := Nat.mod_lt _ (by decide)
  have k0 : u8to64LeAt k.toList 0 = some (u8to64Le (k.toList.take 8)) := u8to64LeAt_eq (by omega)
  have k1 : u8to64LeAt k.toList 8 = some (u8to64Le (k.toList.drop 8)) := by
    rw [u8to64LeAt_eq (by omega), List.take_of_length_le (by rw [List.length_drop]; omega)]
  have blocks (s : SipState) := @sipBlocks_eq input s (input.length - input.length % 8)
    input.length 0 (by omega) (by omega) (by omega) (by omega) (by omega)
  have tail : ((input.drop (input.length - input.length % 8)).take (input.length % 8)) =
      input.drop (input.length - input.length % 8) :=
    List.take_of_length_le (by rw [List.length_drop]; omega)
  unfold siphashInPlace siphash
  simp only [k0, k1, masked, (blocks _).1, Option.bind_eq_bind, Option.bind_some]
  rw [sipTail_eq (by omega) (by omega), tail, ← (blocks _).2]
  rfl

/-- **The loop absorbs the words of the message** and leaves a rest for the last word. -/
theorem sipWords_words (input : Bytes) (s : SipState) (last : UInt8) :
    (sipWords s input).2.length < 8 ∧
      (words (fill input last)).foldl (SipHash.State.absorb 2) s.lanes =
        (sipWords s input).1.lanes.absorb 2 (word (fill (sipWords s input).2 last)) := by
  induction size : input.length using Nat.strong_induction_on generalizing input s with
  | _ n ih =>
    subst size
    by_cases short : input.length < 8
    · rw [sipWords_short short, SipHash.words_single (SipHash.fill_short short)]
      exact ⟨short, rfl⟩
    · have block : (input.take 8).length = 8 := List.length_take_of_le (by omega)
      have step := ih (input.drop 8).length (by rw [List.length_drop]; omega) (input.drop 8)
        (sipWord s (u8to64Le (input.take 8))) rfl
      rw [← List.take_append_drop 8 input, sipWords_block block, SipHash.fill_append block,
        SipHash.words_append block, List.foldl_cons]
      rw [lanes_sipWord, toBitVec_u8to64Le block.le] at step
      exact step

/-- The length in the top byte and the rest below it are the last word of the padded message. -/
theorem word_fill {tail : Bytes} (short : tail.length < 8) (n : Nat) :
    ((n.toUInt64 <<< 56) ||| u8to64Le tail).toBitVec =
      word (fill tail (UInt8.ofNat (n % 256))) := by
  have bound := SipHash.littleEndian_lt tail
  have room : 256 ^ tail.length ≤ 256 ^ 7 := Nat.pow_le_pow_right (by decide) (by omega)
  have byte : (UInt8.ofNat (n % 256)).toNat = n % 256 := by
    rw [UInt8.toNat_ofNat']
    omega
  have top : (n.toUInt64 <<< 56).toNat = 2 ^ 56 * (n % 256) := by
    rw [UInt64.toNat_shiftLeft]
    show (UInt64.ofNat n).toNat <<< 56 % 2 ^ 64 = _
    rw [UInt64.toNat_ofNat', Nat.shiftLeft_eq]
    omega
  apply BitVec.eq_of_toNat_eq
  rw [UInt64.toNat_toBitVec, UInt64.toNat_or, top, u8to64Le_toNat (by omega),
    ← Nat.two_pow_add_eq_or_of_lt (by omega), word, BitVec.toNat_ofNat,
    SipHash.littleEndian_fill short, byte]
  omega

/-- The lanes before the first word. -/
def sipStart (k : Seed) : SipState :=
  ⟨0x736f6d6570736575 ^^^ u8to64Le (k.toList.take 8),
    0x646f72616e646f6d ^^^ u8to64Le (k.toList.drop 8),
    0x6c7967656e657261 ^^^ u8to64Le (k.toList.take 8),
    0x7465646279746573 ^^^ u8to64Le (k.toList.drop 8)⟩

theorem lanes_sipStart (k : Seed) : (sipStart k).lanes = SipHash.start k.toList := by
  have key : k.toList.length = 16 := k.length_toList
  have k0 := toBitVec_u8to64Le (List.length_take_le 8 k.toList)
  have k1 : (u8to64Le (k.toList.drop 8)).toBitVec = word (k.toList.drop 8) :=
    toBitVec_u8to64Le (by rw [List.length_drop]; omega)
  have mixed (constant half : UInt64) :
      (constant ^^^ half).toBitVec = half.toBitVec ^^^ constant.toBitVec :=
    BitVec.xor_comm _ _
  unfold SipState.lanes sipStart SipHash.start
  rw [← k0, ← k1]
  dsimp only
  rw [mixed, mixed, mixed, mixed]
  rfl

/-- What comes behind the last word. -/
def sipFinish (s : SipState) : UInt64 :=
  let s := sipRound (sipRound (sipRound (sipRound { s with v2 := s.v2 ^^^ 0xff })))
  s.v0 ^^^ s.v1 ^^^ s.v2 ^^^ s.v3

theorem toBitVec_sipFinish (s : SipState) : (sipFinish s).toBitVec = s.lanes.finish 4 := by
  have rounds : (sipRound (sipRound (sipRound (sipRound { s with v2 := s.v2 ^^^ 0xff })))).lanes =
      SipHash.State.round^[4] { s.lanes with v2 := s.lanes.v2 ^^^ 0xff } := by
    rw [lanes_sipRound, lanes_sipRound, lanes_sipRound, lanes_sipRound]
    rfl
  unfold SipHash.State.finish
  rw [← rounds]
  rfl

/-- The hash as the lanes give it. -/
theorem toBitVec_siphash (input : Bytes) (k : Seed) :
    (siphash input k).toBitVec = ((sipWords (sipStart k) input).1.lanes.absorb 2
      ((input.length.toUInt64 <<< 56) |||
        u8to64Le (sipWords (sipStart k) input).2).toBitVec).finish 4 := by
  rw [← lanes_sipWord, ← toBitVec_sipFinish]
  unfold siphash sipStart sipFinish
  rfl

/-- **The hash of any message under any key is SipHash-2-4 of the padded message.** -/
theorem siphash_padded (input : Bytes) (k : Seed) :
    siphashInPlace input k = some (siphash input k) ∧
      (siphash input k).toBitVec = SipHash.hash 2 4 k.toList input := by
  refine ⟨siphashInPlace_eq input k, ?_⟩
  obtain ⟨short, absorbed⟩ := sipWords_words input (sipStart k) (UInt8.ofNat (input.length % 256))
  rw [toBitVec_siphash, word_fill short, ← absorbed, lanes_sipStart]
  rfl

/-- The reference vector: the key `00 .. 0f` and the message `00 .. 0e`. -/
example : SipHash.hash 2 4 [0, 1, 2, 3, 4, 5, 6, 7, 8, 9, 10, 11, 12, 13, 14, 15]
    [0, 1, 2, 3, 4, 5, 6, 7, 8, 9, 10, 11, 12, 13, 14] = 0xa129ca6149be45e5 := by
  decide +kernel

end Messages

end Miniredis
