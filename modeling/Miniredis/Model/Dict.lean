/-
**The keyed hash and the dictionary (`siphash.c`, `dict.c`).**

`siphash` is SipHash-2-4 over 64-bit words. A dictionary is a chained hash table over byte-string
keys with that hash, `16` buckets at first and a growth at three quarters full; `dict_set`,
`dict_get` and `dict_delete` are the table's operations, and `write` is an assignment through the
value pointer a lookup returned. `dictRandomEntry` is the reservoir sampling of
`dict_random_entry`: one `rand()` outcome per entry, in iteration order.
-/

import Miniredis.Lib.HashTable
import Miniredis.Model.Util

namespace Miniredis

/-! ### SipHash-2-4 -/

/-- The four lanes of the hash state. -/
structure SipState where
  v0 : UInt64
  v1 : UInt64
  v2 : UInt64
  v3 : UInt64

def rotl (x b : UInt64) : UInt64 := (x <<< b) ||| (x >>> (64 - b))

/-- `SIPROUND`. -/
def sipRound (s : SipState) : SipState :=
  let v0 := s.v0 + s.v1
  let v1 := rotl s.v1 13
  let v1 := v1 ^^^ v0
  let v0 := rotl v0 32
  let v2 := s.v2 + s.v3
  let v3 := rotl s.v3 16
  let v3 := v3 ^^^ v2
  let v0 := v0 + v3
  let v3 := rotl v3 21
  let v3 := v3 ^^^ v0
  let v2 := v2 + v1
  let v1 := rotl v1 17
  let v1 := v1 ^^^ v2
  let v2 := rotl v2 32
  ⟨v0, v1, v2, v3⟩

/-- `u8to64_le`, on up to eight bytes. -/
def u8to64Le (bytes : Bytes) : UInt64 :=
  bytes.foldr (fun byte word => byte.toUInt64 ||| (word <<< 8)) 0

/-- Absorb one message word. -/
def sipWord (s : SipState) (m : UInt64) : SipState :=
  let s := { s with v3 := s.v3 ^^^ m }
  let s := sipRound (sipRound s)
  { s with v0 := s.v0 ^^^ m }

/-- The loop over whole words; the remaining bytes come back. -/
def sipWords (s : SipState) : Bytes → SipState × Bytes
  | b0 :: b1 :: b2 :: b3 :: b4 :: b5 :: b6 :: b7 :: rest =>
    sipWords (sipWord s (u8to64Le [b0, b1, b2, b3, b4, b5, b6, b7])) rest
  | tail => (s, tail)

/-- The 16-byte key of a dictionary. -/
abbrev Seed := Vector UInt8 16

def siphash (input : Bytes) (k : Seed) : UInt64 :=
  let k0 := u8to64Le (k.toList.take 8)
  let k1 := u8to64Le (k.toList.drop 8)
  let s : SipState := ⟨0x736f6d6570736575 ^^^ k0, 0x646f72616e646f6d ^^^ k1,
    0x6c7967656e657261 ^^^ k0, 0x7465646279746573 ^^^ k1⟩
  let (s, tail) := sipWords s input
  let s := sipWord s ((input.length.toUInt64 <<< 56) ||| u8to64Le tail)
  let s := { s with v2 := s.v2 ^^^ 0xff }
  let s := sipRound (sipRound (sipRound (sipRound s)))
  s.v0 ^^^ s.v1 ^^^ s.v2 ^^^ s.v3

/-! ### Dictionaries -/

/-- `INITIAL_SIZE`, `LOAD_FACTOR_NUM` and `LOAD_FACTOR_DEN`. -/
def dictPolicy : HashTable.Policy where
  logInitial := 4
  num := 3
  den := 4
  num_pos := by decide
  den_dvd := by decide

abbrev Dict (α : Type) := HashTable.Table dictPolicy siphash α

def dictCreate {α : Type} (seed : Seed) : Dict α := HashTable.Table.create dictPolicy siphash seed

@[simp]
theorem dictCreate_get {α : Type} (seed : Seed) (key : Bytes) :
    (dictCreate seed : Dict α).get key = none := rfl

/-- `dict_size`. -/
def dictSize {α : Type} (d : Dict α) : Nat := d.used

/-- The walk of `dict_random_entry`: `i` entries passed, `pick` the current choice. The outcomes
of `rand()` not used come back. -/
def randomWalk {α : Type} (i : Nat) (pick : Option (Bytes × α)) :
    List (Bytes × α) → (Nat → Nat) → Option (Bytes × α) × (Nat → Nat)
  | [], rand => (pick, rand)
  | entry :: rest, rand =>
    randomWalk (i + 1) (if rand 0 % (i + 1) = 0 then some entry else pick) rest
      fun n => rand (n + 1)

/-- `dict_random_entry`. -/
def dictRandomEntry {α : Type} (d : Dict α) (rand : Nat → Nat) :
    Option (Bytes × α) × (Nat → Nat) :=
  if d.used = 0 then (none, rand) else randomWalk 0 none d.pairs rand

/-! ### Draws -/

section Draw

variable {α : Type}

/-- The walk returns one of the entries it passed, or the choice it started with. -/
theorem randomWalk_some (i : Nat) (pick : Option (Bytes × α)) (entries : List (Bytes × α))
    (rand : Nat → Nat) :
    (randomWalk i pick entries rand).1 = pick ∨
      ∃ entry ∈ entries, (randomWalk i pick entries rand).1 = some entry := by
  induction entries generalizing i pick rand with
  | nil => exact .inl rfl
  | cons first rest ih =>
    rw [randomWalk]
    rcases ih (i + 1) (if rand 0 % (i + 1) = 0 then some first else pick) fun n => rand (n + 1) with
      same | ⟨entry, member, drawn⟩
    · rw [same]
      split
      · exact .inr ⟨first, List.mem_cons_self, rfl⟩
      · exact .inl rfl
    · exact .inr ⟨entry, List.mem_cons_of_mem _ member, drawn⟩

/-- A draw from a dictionary that is not empty yields one of its keys. -/
theorem dictRandomEntry_some (d : Dict α) (rand : Nat → Nat) (filled : d.used ≠ 0) :
    ∃ entry, (dictRandomEntry d rand).1 = some entry ∧ (d.get entry.1).isSome := by
  have length : d.pairs.length ≠ 0 := by rwa [HashTable.Table.pairs_length]
  unfold dictRandomEntry
  rw [if_neg filled]
  cases pairs : d.pairs with
  | nil => simp [pairs] at length
  | cons first rest =>
    -- the first entry is always taken, so the walk never ends without a choice
    have start : randomWalk 0 none (first :: rest) rand =
        randomWalk 1 (some first) rest fun n => rand (n + 1) := by
      rw [randomWalk, if_pos (Nat.mod_one _)]
    have member : ∃ entry ∈ d.pairs, (randomWalk 0 none (first :: rest) rand).1 = some entry := by
      rw [start, pairs]
      rcases randomWalk_some 1 (some first) rest fun n => rand (n + 1) with
        same | ⟨entry, there, eq⟩
      · exact ⟨first, List.mem_cons_self, same⟩
      · exact ⟨entry, List.mem_cons_of_mem _ there, eq⟩
    obtain ⟨entry, there, drawn⟩ := member
    exact ⟨entry, drawn, (d.mem_keys entry.1).mp (List.mem_map_of_mem there)⟩

end Draw

end Miniredis
