/-
**Chained hash tables refine finite maps.**

A table is a list of buckets, each a chain of entries that remember their hash. The number of
buckets is `0` (nothing allocated yet) or `2 ^ k` times the initial size, so a bucket is chosen by
masking the hash. The hash is an arbitrary function of the key and the table's seed.

`Table` carries its invariant: every entry sits in the bucket of its hash, no chain holds a key
twice, `used` is the number of entries and the load stays under the policy's bound. Everything a
client needs is said about `pairs`, the entries in iteration order:

* `get_eq_some_iff` — `get` finds exactly the stored pairs;
* `mem_pairs`, `pairs_nodup`, `pairs_length` — `pairs` lists each stored pair once;
* `get_set`, `get_delete`, `get_write` — the finite-map laws.
-/

import Mathlib.Data.List.GetD
import Mathlib.Data.List.Nodup
import Mathlib.Data.List.Perm.Basic
import Mathlib.Tactic

set_option linter.unusedSectionVars false

namespace HashTable

/-- One entry of a chain. -/
structure Entry (κ α : Type) where
  key : κ
  val : α
  hash : UInt64

/-- When a table grows: `2 ^ logInitial` buckets at first, doubled as soon as
`used / size ≥ num / den`. -/
structure Policy where
  logInitial : Nat
  num : Nat
  den : Nat
  num_pos : 0 < num
  den_dvd : den ∣ num * 2 ^ logInitial

/-- A table as stored. -/
structure Raw (σ κ α : Type) where
  table : List (List (Entry κ α))
  used : Nat
  seed : σ

variable {σ κ α : Type} [DecidableEq κ]

/-- The bucket of a hash in a table of `size` buckets. -/
def slot (hash : UInt64) (size : Nat) : Nat := hash.toNat &&& (size - 1)

theorem slot_lt {size : Nat} (hash : UInt64) (nonempty : size ≠ 0) : slot hash size < size := by
  have below : slot hash size ≤ size - 1 := Nat.and_le_right
  omega

/-- The test a chain walk makes at an entry. -/
def keyEqual (key : κ) (hash : UInt64) (entry : Entry κ α) : Bool :=
  entry.hash == hash && entry.key == key

/-- Overwrite the value of the first matching entry; the old value comes back. -/
def chainReplace (test : Entry κ α → Bool) (val : α) :
    List (Entry κ α) → Option (α × List (Entry κ α))
  | [] => none
  | entry :: rest =>
    if test entry then some (entry.val, { entry with val := val } :: rest)
    else (chainReplace test val rest).map fun found => (found.1, entry :: found.2)

/-- Unlink the first matching entry; its value comes back. -/
def chainDelete (test : Entry κ α → Bool) : List (Entry κ α) → Option (α × List (Entry κ α))
  | [] => none
  | entry :: rest =>
    if test entry then some (entry.val, rest)
    else (chainDelete test rest).map fun found => (found.1, entry :: found.2)

namespace Raw

def size (raw : Raw σ κ α) : Nat := raw.table.length

def chain (raw : Raw σ κ α) (index : Nat) : List (Entry κ α) := raw.table.getD index []

/-- The entries in iteration order: bucket by bucket, each chain from its head. -/
def entries (raw : Raw σ κ α) : List (Entry κ α) := raw.table.flatten

def pairs (raw : Raw σ κ α) : List (κ × α) := raw.entries.map fun entry => (entry.key, entry.val)

/-- Move every entry, in iteration order, to the head of its chain in a fresh bucket array. -/
def resize (raw : Raw σ κ α) (newSize : Nat) : Raw σ κ α :=
  { raw with
    table := raw.entries.foldl
      (fun table entry => table.modify (slot entry.hash newSize) (entry :: ·))
      (List.replicate newSize []) }

variable (policy : Policy) (hash : κ → σ → UInt64)

def grow (raw : Raw σ κ α) : Raw σ κ α :=
  if raw.size = 0 then raw.resize (2 ^ policy.logInitial)
  else if raw.size * policy.num ≤ raw.used * policy.den then raw.resize (raw.size * 2)
  else raw

def get (raw : Raw σ κ α) (key : κ) : Option α :=
  if raw.size = 0 then none
  else
    let h := hash key raw.seed
    ((raw.chain (slot h raw.size)).find? (keyEqual key h)).map Entry.val

def set (raw : Raw σ κ α) (key : κ) (val : α) : Option α × Raw σ κ α :=
  let raw := raw.grow policy
  let h := hash key raw.seed
  let index := slot h raw.size
  match chainReplace (keyEqual key h) val (raw.chain index) with
  | some (old, chain) => (some old, { raw with table := raw.table.set index chain })
  | none =>
    (none, { raw with
      table := raw.table.set index (⟨key, val, h⟩ :: raw.chain index)
      used := raw.used + 1 })

def delete (raw : Raw σ κ α) (key : κ) : Option α × Raw σ κ α :=
  if raw.size = 0 then (none, raw)
  else
    let h := hash key raw.seed
    let index := slot h raw.size
    match chainDelete (keyEqual key h) (raw.chain index) with
    | some (old, chain) =>
      (some old, { raw with table := raw.table.set index chain, used := raw.used - 1 })
    | none => (none, raw)

/-- Overwrite the stored value through the pointer a lookup returned: no growth, no insertion. -/
def write (raw : Raw σ κ α) (key : κ) (val : α) : Raw σ κ α :=
  let h := hash key raw.seed
  let index := slot h raw.size
  match chainReplace (keyEqual key h) val (raw.chain index) with
  | some (_, chain) => { raw with table := raw.table.set index chain }
  | none => raw

/-- The table invariant. -/
structure WF (raw : Raw σ κ α) : Prop where
  placed : ∀ index (inside : index < raw.table.length), ∀ entry ∈ raw.table[index],
    entry.hash = hash entry.key raw.seed ∧ slot entry.hash raw.size = index
  distinct : (raw.entries.map Entry.key).Nodup
  count : raw.used = raw.entries.length
  shape : raw.size = 0 ∨ ∃ k, raw.size = 2 ^ policy.logInitial * 2 ^ k
  load : raw.used * policy.den ≤ raw.size * policy.num

end Raw

/-! ### Chains -/

section Chains

variable {test : Entry κ α → Bool} {val : α}

theorem chainReplace_none (chain : List (Entry κ α)) :
    chainReplace test val chain = none ↔ ∀ entry ∈ chain, test entry = false := by
  induction chain with
  | nil => simp [chainReplace]
  | cons entry rest ih =>
    unfold chainReplace
    by_cases hit : test entry = true
    · simp [hit]
    · simp [hit, ih]

theorem chainReplace_some {chain after : List (Entry κ α)} {old : α}
    (found : chainReplace test val chain = some (old, after)) :
    ∃ front entry back, chain = front ++ entry :: back ∧ test entry = true ∧
      (∀ other ∈ front, test other = false) ∧ old = entry.val ∧
      after = front ++ { entry with val := val } :: back := by
  induction chain generalizing after with
  | nil => simp [chainReplace] at found
  | cons entry rest ih =>
    unfold chainReplace at found
    by_cases hit : test entry = true
    · simp only [hit, if_true, Option.some.injEq, Prod.mk.injEq] at found
      exact ⟨[], entry, rest, rfl, hit, by simp, found.1.symm, found.2.symm⟩
    · simp only [hit, if_false, Option.map_eq_some_iff, Prod.exists, Prod.mk.injEq,
        Bool.false_eq_true] at found
      obtain ⟨old', after', later, rfl, rfl⟩ := found
      obtain ⟨front, target, back, rfl, here, before, same, rfl⟩ := ih later
      refine ⟨entry :: front, target, back, rfl, here, ?_, same, rfl⟩
      intro other member
      rcases List.mem_cons.mp member with rfl | member
      · exact Bool.eq_false_iff.mpr hit
      · exact before other member

theorem chainDelete_none (chain : List (Entry κ α)) :
    chainDelete test chain = none ↔ ∀ entry ∈ chain, test entry = false := by
  induction chain with
  | nil => simp [chainDelete]
  | cons entry rest ih =>
    unfold chainDelete
    by_cases hit : test entry = true
    · simp [hit]
    · simp [hit, ih]

theorem chainDelete_some {chain after : List (Entry κ α)} {old : α}
    (found : chainDelete test chain = some (old, after)) :
    ∃ front entry back, chain = front ++ entry :: back ∧ test entry = true ∧
      (∀ other ∈ front, test other = false) ∧ old = entry.val ∧ after = front ++ back := by
  induction chain generalizing after with
  | nil => simp [chainDelete] at found
  | cons entry rest ih =>
    unfold chainDelete at found
    by_cases hit : test entry = true
    · simp only [hit, if_true, Option.some.injEq, Prod.mk.injEq] at found
      exact ⟨[], entry, rest, rfl, hit, by simp, found.1.symm, found.2.symm⟩
    · simp only [hit, if_false, Option.map_eq_some_iff, Prod.exists, Prod.mk.injEq,
        Bool.false_eq_true] at found
      obtain ⟨old', after', later, rfl, rfl⟩ := found
      obtain ⟨front, target, back, rfl, here, before, same, rfl⟩ := ih later
      refine ⟨entry :: front, target, back, rfl, here, ?_, same, rfl⟩
      intro other member
      rcases List.mem_cons.mp member with rfl | member
      · exact Bool.eq_false_iff.mpr hit
      · exact before other member

end Chains

namespace Raw

variable {policy : Policy} {hash : κ → σ → UInt64} {raw : Raw σ κ α}

theorem chain_eq {index : Nat} (inside : index < raw.table.length) :
    raw.chain index = raw.table[index] := by
  unfold chain
  rw [List.getD_eq_getElem?_getD, List.getElem?_eq_getElem inside, Option.getD_some]

/-- In the bucket of a key, the walk's test is equality of keys. -/
theorem keyEqual_iff (wf : raw.WF policy hash) {key : κ} {entry : Entry κ α} {index : Nat}
    (member : entry ∈ raw.chain index) :
    keyEqual key (hash key raw.seed) entry = true ↔ entry.key = key := by
  have stored : entry.hash = hash entry.key raw.seed := by
    by_cases inside : index < raw.table.length
    · rw [chain_eq inside] at member
      exact (wf.placed index inside entry member).1
    · unfold chain at member
      rw [List.getD_eq_default _ _ (by omega)] at member
      cases member
  unfold keyEqual
  rw [Bool.and_eq_true, beq_iff_eq, beq_iff_eq, stored]
  constructor
  · exact fun both => both.2
  · rintro rfl
    exact ⟨rfl, rfl⟩

/-- **The bucket of a key and the rest of the table**: the rest never holds the key, and a new
chain in that bucket leaves the rest alone. -/
theorem split_bucket (wf : raw.WF policy hash) (allocated : raw.size ≠ 0) (key : κ) :
    ∃ rest, raw.entries.Perm (raw.chain (slot (hash key raw.seed) raw.size) ++ rest) ∧
      (∀ entry ∈ rest, entry.key ≠ key) ∧
      ∀ chain, (raw.table.set (slot (hash key raw.seed) raw.size) chain).flatten.Perm
        (chain ++ rest) := by
  have inside : slot (hash key raw.seed) raw.size < raw.table.length := slot_lt _ allocated
  refine ⟨(raw.table.eraseIdx (slot (hash key raw.seed) raw.size)).flatten, ?_, ?_, ?_⟩
  · rw [chain_eq inside]
    exact (List.getElem_cons_eraseIdx_perm inside).symm.flatten
  · intro entry member same
    obtain ⟨chain, inTable, inChain⟩ := List.mem_flatten.mp member
    obtain ⟨other, ne, found⟩ := List.mem_eraseIdx_iff_getElem?.mp inTable
    obtain ⟨bound, rfl⟩ := List.getElem?_eq_some_iff.mp found
    obtain ⟨stored, place⟩ := wf.placed other bound entry inChain
    rw [stored, same] at place
    exact ne place.symm
  · intro chain
    exact (List.set_perm_cons_eraseIdx inside chain).flatten

/-- A walk that finds nothing in the key's bucket has missed nothing. -/
theorem absent_of_bucket (wf : raw.WF policy hash) (allocated : raw.size ≠ 0) {key : κ}
    (missed : ∀ entry ∈ raw.chain (slot (hash key raw.seed) raw.size),
      keyEqual key (hash key raw.seed) entry = false) :
    ∀ entry ∈ raw.entries, entry.key ≠ key := by
  intro entry member same
  obtain ⟨rest, perm, avoid, _⟩ := split_bucket wf allocated key
  rcases List.mem_append.mp (perm.subset member) with here | away
  · have hit := (keyEqual_iff wf here).mpr same
    rw [missed entry here] at hit
    cases hit
  · exact avoid entry away same

/-! ### Growing -/

/-- Moving one entry puts it on the head of its chain. -/
theorem modify_flatten {table : List (List (Entry κ α))} {index : Nat} {entry : Entry κ α}
    (inside : index < table.length) :
    (table.modify index (entry :: ·)).flatten.Perm (entry :: table.flatten) := by
  rw [List.modify_eq_set_get _ inside, List.get_eq_getElem]
  refine (List.set_perm_cons_eraseIdx inside _).flatten.trans ?_
  rw [List.flatten_cons, List.cons_append]
  exact ((List.getElem_cons_eraseIdx_perm inside).flatten).cons entry

/-- What moving a list of entries into `table` gives. -/
theorem moved_spec (size : Nat) (allocated : size ≠ 0) (moving : List (Entry κ α))
    (table : List (List (Entry κ α))) (length : table.length = size)
    (placed : ∀ index (inside : index < table.length), ∀ entry ∈ table[index],
      slot entry.hash size = index) :
    let after := moving.foldl
      (fun table entry => table.modify (slot entry.hash size) (entry :: ·)) table
    after.length = size ∧ after.flatten.Perm (moving.reverse ++ table.flatten) ∧
      ∀ index (inside : index < after.length), ∀ entry ∈ after[index],
        slot entry.hash size = index := by
  induction moving generalizing table with
  | nil => exact ⟨length, by simp, placed⟩
  | cons entry rest ih =>
    have inside : slot entry.hash size < table.length := by
      rw [length]
      exact slot_lt _ allocated
    have step := ih (table.modify (slot entry.hash size) (entry :: ·))
      (by rw [List.length_modify, length]) (by
        intro index bound other member
        rw [List.getElem_modify] at member
        split at member
        · rename_i same
          rcases List.mem_cons.mp member with rfl | member
          · exact same
          · exact placed index (by simpa using bound) other member
        · exact placed index (by simpa using bound) other member)
    refine ⟨step.1, step.2.1.trans ?_, step.2.2⟩
    rw [List.reverse_cons, List.append_assoc]
    exact (modify_flatten inside).append_left _

theorem resize_spec (wf : raw.WF policy hash) {size : Nat} (allocated : size ≠ 0) :
    (raw.resize size).size = size ∧ (raw.resize size).entries.Perm raw.entries ∧
      ∀ index (inside : index < (raw.resize size).table.length),
        ∀ entry ∈ (raw.resize size).table[index],
          entry.hash = hash entry.key raw.seed ∧ slot entry.hash size = index := by
  obtain ⟨length, perm, placed⟩ := moved_spec size allocated raw.entries
    (List.replicate size []) (by simp) (by simp)
  have same : (raw.resize size).entries.Perm raw.entries := by
    refine perm.trans ?_
    rw [List.flatten_replicate_nil, List.append_nil]
    exact raw.entries.reverse_perm
  refine ⟨length, same, fun index inside entry member => ⟨?_, placed index inside entry member⟩⟩
  have old : entry ∈ raw.entries :=
    same.subset (List.mem_flatten.mpr ⟨_, List.getElem_mem inside, member⟩)
  obtain ⟨chain, inTable, inChain⟩ := List.mem_flatten.mp old
  obtain ⟨place, bound, rfl⟩ := List.getElem_of_mem inTable
  exact (wf.placed place bound entry inChain).1

/-- **Growing keeps the invariant and the entries, and leaves room for one more.** -/
theorem grow_spec (wf : raw.WF policy hash) :
    (raw.grow policy).WF policy hash ∧ (raw.grow policy).entries.Perm raw.entries ∧
      (raw.grow policy).seed = raw.seed ∧ (raw.grow policy).used = raw.used ∧
      (raw.grow policy).size ≠ 0 ∧
      ((raw.grow policy).used + 1) * policy.den ≤ (raw.grow policy).size * policy.num := by
  have room : ∀ {size k : Nat}, size = 2 ^ policy.logInitial * 2 ^ k →
      raw.used * policy.den < size * policy.num →
      (raw.used + 1) * policy.den ≤ size * policy.num := by
    rintro size k rfl less
    have multiple : policy.den ∣ 2 ^ policy.logInitial * 2 ^ k * policy.num := by
      obtain ⟨c, hc⟩ := policy.den_dvd
      exact ⟨c * 2 ^ k, by rw [← mul_assoc, ← hc]; ring⟩
    obtain ⟨c, hc⟩ := multiple
    rw [hc, mul_comm policy.den c] at less ⊢
    exact Nat.mul_le_mul_right _ (Nat.lt_of_mul_lt_mul_right less)
  have positive : ∀ k, 0 < 2 ^ policy.logInitial * 2 ^ k * policy.num := fun k =>
    Nat.mul_pos (Nat.mul_pos (Nat.two_pow_pos _) (Nat.two_pow_pos _)) policy.num_pos
  have resized : ∀ {size k : Nat}, size = 2 ^ policy.logInitial * 2 ^ k →
      raw.used * policy.den < size * policy.num →
      (raw.resize size).WF policy hash ∧ (raw.resize size).entries.Perm raw.entries ∧
        (raw.resize size).seed = raw.seed ∧ (raw.resize size).used = raw.used ∧
        (raw.resize size).size ≠ 0 ∧
        ((raw.resize size).used + 1) * policy.den ≤ (raw.resize size).size * policy.num := by
    intro size k shape less
    have allocated : size ≠ 0 := by
      rw [shape]
      exact Nat.mul_ne_zero (Nat.two_pow_pos _).ne' (Nat.two_pow_pos _).ne'
    obtain ⟨length, perm, placed⟩ := resize_spec wf allocated
    have fits := room shape less
    refine ⟨⟨?_, ?_, ?_, ?_, ?_⟩, perm, rfl, rfl, by rw [length]; exact allocated, ?_⟩
    · rw [length]
      exact placed
    · exact (perm.map Entry.key).nodup_iff.mpr wf.distinct
    · rw [perm.length_eq]
      exact wf.count
    · exact Or.inr ⟨k, by rw [length, shape]⟩
    · rw [length]
      exact less.le
    · rw [length]
      exact fits
  unfold grow
  split
  · rename_i empty
    have unused : raw.used = 0 := by
      rw [wf.count]
      unfold entries
      rw [List.length_eq_zero_iff.mp empty]
      rfl
    refine resized (k := 0) (by simp) ?_
    rw [unused, zero_mul]
    simpa using positive 0
  · rename_i allocated
    obtain zero | ⟨k, shape⟩ := wf.shape
    · exact absurd zero allocated
    split
    · refine resized (k := k + 1) (by rw [shape, pow_succ]; ring) ?_
      have load := wf.load
      have more := positive k
      rw [← shape] at more
      calc raw.used * policy.den ≤ raw.size * policy.num := load
        _ < raw.size * 2 * policy.num := by
          rw [mul_assoc, mul_comm 2, ← mul_assoc]
          omega
    · rename_i below
      exact ⟨wf, List.Perm.refl _, rfl, rfl, allocated, room shape (by omega)⟩

/-! ### Lookups -/

/-- **A lookup finds exactly the stored pairs.** -/
theorem get_eq_some_iff (wf : raw.WF policy hash) (key : κ) (val : α) :
    raw.get hash key = some val ↔ ∃ entry ∈ raw.entries, entry.key = key ∧ entry.val = val := by
  unfold get
  split
  · rename_i empty
    simp [entries, List.length_eq_zero_iff.mp empty]
  · rename_i allocated
    obtain ⟨rest, perm, avoid, _⟩ := split_bucket wf allocated key
    constructor
    · intro found
      obtain ⟨entry, hit, rfl⟩ := Option.map_eq_some_iff.mp found
      have member := List.mem_of_find?_eq_some hit
      exact ⟨entry, perm.symm.subset (List.mem_append_left _ member),
        (keyEqual_iff wf member).mp (List.find?_some hit), rfl⟩
    · rintro ⟨entry, member, same, rfl⟩
      have inChain : entry ∈ raw.chain (slot (hash key raw.seed) raw.size) := by
        rcases List.mem_append.mp (perm.subset member) with here | away
        · exact here
        · exact absurd same (avoid entry away)
      cases hit : (raw.chain (slot (hash key raw.seed) raw.size)).find?
          (keyEqual key (hash key raw.seed)) with
      | none =>
        have missed := List.find?_eq_none.mp hit entry inChain
        exact absurd ((keyEqual_iff wf inChain).mpr same) missed
      | some other =>
        have otherMember := List.mem_of_find?_eq_some hit
        have otherKey := (keyEqual_iff wf otherMember).mp (List.find?_some hit)
        have equal : other = entry := List.inj_on_of_nodup_map wf.distinct
          (perm.symm.subset (List.mem_append_left _ otherMember)) member
          (otherKey.trans same.symm)
        simp only [hit, equal, Option.map_some]

theorem get_eq_none_iff (wf : raw.WF policy hash) (key : κ) :
    raw.get hash key = none ↔ ∀ entry ∈ raw.entries, entry.key ≠ key := by
  constructor
  · intro missing entry member same
    have found := (get_eq_some_iff wf key entry.val).mpr ⟨entry, member, same, rfl⟩
    rw [missing] at found
    cases found
  · intro avoid
    cases found : raw.get hash key with
    | none => rfl
    | some val =>
      obtain ⟨entry, member, same, _⟩ := (get_eq_some_iff wf key val).mp found
      exact absurd same (avoid entry member)

/-- Lookups depend on the set of entries only. -/
theorem get_congr {other : Raw σ κ α} (wf : raw.WF policy hash) (wf' : other.WF policy hash)
    (same : ∀ entry, entry ∈ raw.entries ↔ entry ∈ other.entries) (key : κ) :
    raw.get hash key = other.get hash key := by
  ext val
  rw [get_eq_some_iff wf, get_eq_some_iff wf']
  simp only [same]

/-! ### Updates -/

/-- The entries of the other keys. -/
def others (raw : Raw σ κ α) (key : κ) : List (Entry κ α) :=
  raw.entries.filter fun entry => entry.key ≠ key

/-- A chain with one entry of the key, and what the table holds besides it. -/
theorem others_split (wf : raw.WF policy hash) {key : κ} {front back rest : List (Entry κ α)}
    {entry : Entry κ α} (same : entry.key = key)
    (perm : raw.entries.Perm ((front ++ entry :: back) ++ rest)) :
    (raw.others key).Perm (front ++ back ++ rest) := by
  have distinct := (perm.map Entry.key).nodup_iff.mp wf.distinct
  have moved : ((front ++ entry :: back) ++ rest).Perm (entry :: (front ++ back ++ rest)) := by
    rw [List.append_assoc, List.cons_append, List.append_assoc]
    exact List.perm_middle
  have fresh : ∀ other ∈ front ++ back ++ rest, other.key ≠ key := by
    have nodup := (moved.map Entry.key).nodup_iff.mp distinct
    rw [List.map_cons, List.nodup_cons] at nodup
    intro other member equal
    exact nodup.1 (List.mem_map.mpr ⟨other, member, equal.trans same.symm⟩)
  refine ((perm.trans moved).filter _).trans ?_
  rw [List.filter_cons_of_neg (by simpa using same),
    List.filter_eq_self.mpr fun other member => by simpa using fresh other member]

/-- Without an entry of the key, the others are all there is. -/
theorem others_all (key : κ) (avoid : ∀ entry ∈ raw.entries, entry.key ≠ key) :
    raw.others key = raw.entries :=
  List.filter_eq_self.mpr fun entry member => by simpa using avoid entry member

/-- Swapping the chain of one bucket for entries of that bucket keeps the invariant. -/
theorem set_chain_wf (wf : raw.WF policy hash) (key : κ) (chain : List (Entry κ α)) (used : Nat)
    (placed : ∀ entry ∈ chain, entry.hash = hash entry.key raw.seed ∧
      slot entry.hash raw.size = slot (hash key raw.seed) raw.size)
    (distinct : ((raw.table.set (slot (hash key raw.seed) raw.size) chain).flatten.map
      Entry.key).Nodup)
    (count : used = (raw.table.set (slot (hash key raw.seed) raw.size) chain).flatten.length)
    (load : used * policy.den ≤ raw.size * policy.num) :
    Raw.WF policy hash { raw with
      table := raw.table.set (slot (hash key raw.seed) raw.size) chain, used := used } := by
  have sameSize : (raw.table.set (slot (hash key raw.seed) raw.size) chain).length =
      raw.size := List.length_set
  refine ⟨?_, distinct, count, ?_, ?_⟩
  · intro index inside entry member
    show entry.hash = hash entry.key raw.seed ∧ slot entry.hash (List.length _) = index
    rw [sameSize]
    simp only [List.getElem_set] at member
    split at member
    · rename_i here
      rw [← here]
      exact placed entry member
    · exact wf.placed index (by simpa using inside) entry member
  · show List.length _ = 0 ∨ ∃ k, List.length _ = _
    rw [sameSize]
    exact wf.shape
  · show _ ≤ List.length _ * _
    rw [sameSize]
    exact load

/-- Every entry of a key's bucket is placed there. -/
theorem placed_chain (wf : raw.WF policy hash) (allocated : raw.size ≠ 0) {key : κ}
    {entry : Entry κ α} (member : entry ∈ raw.chain (slot (hash key raw.seed) raw.size)) :
    entry.hash = hash entry.key raw.seed ∧
      slot entry.hash raw.size = slot (hash key raw.seed) raw.size := by
  have inside : slot (hash key raw.seed) raw.size < raw.table.length := slot_lt _ allocated
  rw [chain_eq inside] at member
  exact wf.placed _ inside entry member

/-- **Overwriting the value of a present key**, whoever asked for it. -/
theorem replace_spec (wf : raw.WF policy hash) (allocated : raw.size ≠ 0) {key : κ}
    {val old : α} {chain : List (Entry κ α)}
    (found : chainReplace (keyEqual key (hash key raw.seed)) val
      (raw.chain (slot (hash key raw.seed) raw.size)) = some (old, chain)) :
    Raw.WF policy hash { raw with
        table := raw.table.set (slot (hash key raw.seed) raw.size) chain } ∧
      raw.get hash key = some old ∧
      (raw.table.set (slot (hash key raw.seed) raw.size) chain).flatten.Perm
        (⟨key, val, hash key raw.seed⟩ :: raw.others key) := by
  obtain ⟨rest, perm, avoid, swap⟩ := split_bucket wf allocated key
  obtain ⟨front, entry, back, shape, hit, _, rfl, rfl⟩ := chainReplace_some found
  have inChain : entry ∈ raw.chain (slot (hash key raw.seed) raw.size) := by
    rw [shape]
    simp
  have same : entry.key = key := (keyEqual_iff wf inChain).mp hit
  have stored : entry.hash = hash key raw.seed := by
    rw [← same]
    exact (placed_chain wf allocated inChain).1
  have renamed : ({ entry with val := val } : Entry κ α) = ⟨key, val, hash key raw.seed⟩ := by
    rw [stored, same]
  have after : (raw.table.set (slot (hash key raw.seed) raw.size)
      (front ++ { entry with val := val } :: back)).flatten.Perm
        (⟨key, val, hash key raw.seed⟩ :: raw.others key) := by
    rw [renamed]
    refine (swap _).trans ?_
    rw [List.append_assoc, List.cons_append]
    refine List.perm_middle.trans (List.Perm.cons _ ?_)
    rw [← List.append_assoc]
    exact (others_split wf same (shape ▸ perm)).symm
  have keys : ((raw.table.set (slot (hash key raw.seed) raw.size)
      (front ++ { entry with val := val } :: back)).flatten.map Entry.key).Perm
        (raw.entries.map Entry.key) := by
    refine ((swap _).map _).trans ?_
    refine List.Perm.trans ?_ (perm.map _).symm
    rw [shape]
    simp
  refine ⟨?_, ?_, after⟩
  · refine set_chain_wf wf key _ _ ?_ (keys.nodup_iff.mpr wf.distinct) ?_ wf.load
    · intro other member
      rcases List.mem_append.mp member with member | member
      · exact placed_chain wf allocated (by rw [shape]; exact List.mem_append_left _ member)
      · rcases List.mem_cons.mp member with rfl | member
        · have place := placed_chain wf allocated inChain
          exact place
        · exact placed_chain wf allocated (by
            rw [shape]
            exact List.mem_append_right _ (List.mem_cons_of_mem _ member))
    · have lengths := keys.length_eq
      rw [List.length_map, List.length_map] at lengths
      rw [wf.count]
      exact lengths.symm
  · exact (get_eq_some_iff wf key _).mpr
      ⟨entry, perm.symm.subset (List.mem_append_left _ inChain), same, rfl⟩

/-- Setting a key in a table with room. -/
theorem insert_spec (wf : raw.WF policy hash) (allocated : raw.size ≠ 0) {key : κ} {val : α}
    (room : (raw.used + 1) * policy.den ≤ raw.size * policy.num)
    (missing : chainReplace (keyEqual key (hash key raw.seed)) val
      (raw.chain (slot (hash key raw.seed) raw.size)) = none) :
    Raw.WF policy hash { raw with
        table := raw.table.set (slot (hash key raw.seed) raw.size)
          (⟨key, val, hash key raw.seed⟩ :: raw.chain (slot (hash key raw.seed) raw.size))
        used := raw.used + 1 } ∧
      raw.get hash key = none ∧
      (raw.table.set (slot (hash key raw.seed) raw.size)
          (⟨key, val, hash key raw.seed⟩ ::
            raw.chain (slot (hash key raw.seed) raw.size))).flatten.Perm
        (⟨key, val, hash key raw.seed⟩ :: raw.others key) := by
  obtain ⟨rest, perm, avoid, swap⟩ := split_bucket wf allocated key
  have absent := absent_of_bucket wf allocated ((chainReplace_none _).mp missing)
  have after : (raw.table.set (slot (hash key raw.seed) raw.size)
      (⟨key, val, hash key raw.seed⟩ :: raw.chain (slot (hash key raw.seed) raw.size))).flatten.Perm
        (⟨key, val, hash key raw.seed⟩ :: raw.others key) := by
    refine (swap _).trans ?_
    rw [others_all key absent, List.cons_append]
    exact perm.symm.cons _
  refine ⟨set_chain_wf wf key _ _ ?_ ?_ ?_ room, (get_eq_none_iff wf key).mpr absent, after⟩
  · intro entry member
    rcases List.mem_cons.mp member with rfl | member
    · exact ⟨rfl, rfl⟩
    · exact placed_chain wf allocated member
  · refine (after.map Entry.key).nodup_iff.mpr ?_
    rw [others_all key absent, List.map_cons, List.nodup_cons]
    refine ⟨fun member => ?_, wf.distinct⟩
    obtain ⟨entry, inside, same⟩ := List.mem_map.mp member
    exact absent entry inside same
  · rw [after.length_eq, others_all key absent, List.length_cons, wf.count]

/-- **What `set` does.** -/
theorem set_spec (wf : raw.WF policy hash) (key : κ) (val : α) :
    (raw.set policy hash key val).2.WF policy hash ∧
      (raw.set policy hash key val).1 = raw.get hash key ∧
      (raw.set policy hash key val).2.seed = raw.seed ∧
      (raw.set policy hash key val).2.entries.Perm
        (⟨key, val, hash key raw.seed⟩ :: raw.others key) := by
  obtain ⟨grownWf, perm, sameSeed, sameUsed, allocated, room⟩ := grow_spec wf
  have sameGet := get_congr grownWf wf (fun entry => perm.mem_iff) key
  have sameOthers : ((raw.grow policy).others key).Perm (raw.others key) := perm.filter _
  cases result : chainReplace (keyEqual key (hash key (raw.grow policy).seed)) val
      ((raw.grow policy).chain
        (slot (hash key (raw.grow policy).seed) (raw.grow policy).size)) with
  | some found =>
    obtain ⟨after, was, entries⟩ := replace_spec grownWf allocated result
    simp only [set, result]
    refine ⟨after, by rw [← sameGet, was], sameSeed, ?_⟩
    rw [← sameSeed]
    exact entries.trans (sameOthers.cons _)
  | none =>
    obtain ⟨after, was, entries⟩ := insert_spec grownWf allocated room result
    simp only [set, result]
    refine ⟨after, by rw [← sameGet, was], sameSeed, ?_⟩
    rw [← sameSeed]
    exact entries.trans (sameOthers.cons _)

/-- **What `delete` does.** -/
theorem delete_spec (wf : raw.WF policy hash) (key : κ) :
    (raw.delete hash key).2.WF policy hash ∧ (raw.delete hash key).1 = raw.get hash key ∧
      (raw.delete hash key).2.seed = raw.seed ∧
      (raw.delete hash key).2.entries.Perm (raw.others key) := by
  by_cases allocated : raw.size = 0
  · have empty : raw.entries = [] := by
      unfold entries
      rw [List.length_eq_zero_iff.mp allocated]
      rfl
    have same : raw.delete hash key = (none, raw) := by
      unfold delete
      rw [if_pos allocated]
    rw [same]
    refine ⟨wf, ((get_eq_none_iff wf key).mpr (by simp [empty])).symm, rfl, ?_⟩
    rw [others_all key (by simp [empty])]
  obtain ⟨rest, perm, avoid, swap⟩ := split_bucket wf allocated key
  cases result : chainDelete (keyEqual key (hash key raw.seed))
      (raw.chain (slot (hash key raw.seed) raw.size)) with
  | some found =>
    obtain ⟨old, chain⟩ := found
    obtain ⟨front, entry, back, shape, hit, _, rfl, rfl⟩ := chainDelete_some result
    have inChain : entry ∈ raw.chain (slot (hash key raw.seed) raw.size) := by
      rw [shape]
      simp
    have same : entry.key = key := (keyEqual_iff wf inChain).mp hit
    have left : (raw.table.set (slot (hash key raw.seed) raw.size)
        (front ++ back)).flatten.Perm (raw.others key) :=
      (swap _).trans (others_split wf same (shape ▸ perm)).symm
    have size : raw.used = (raw.others key).length + 1 := by
      rw [wf.count, perm.length_eq, shape, (others_split wf same (shape ▸ perm)).length_eq]
      simp only [List.length_append, List.length_cons]
      omega
    simp only [delete, if_neg allocated, result]
    refine ⟨set_chain_wf wf key _ _ ?_ ?_ ?_ ?_, ?_, trivial, left⟩
    · intro other member
      refine placed_chain wf allocated ?_
      rw [shape]
      rcases List.mem_append.mp member with member | member
      · exact List.mem_append_left _ member
      · exact List.mem_append_right _ (List.mem_cons_of_mem _ member)
    · refine (left.map Entry.key).nodup_iff.mpr ?_
      exact (List.filter_sublist.map Entry.key).nodup wf.distinct
    · rw [left.length_eq, size, Nat.add_sub_cancel]
    · exact le_trans (Nat.mul_le_mul_right _ (Nat.sub_le _ _)) wf.load
    · exact ((get_eq_some_iff wf key _).mpr
        ⟨entry, perm.symm.subset (List.mem_append_left _ inChain), same, rfl⟩).symm
  | none =>
    have absent := absent_of_bucket wf allocated ((chainDelete_none _).mp result)
    simp only [delete, if_neg allocated, result]
    refine ⟨wf, ((get_eq_none_iff wf key).mpr absent).symm, trivial, ?_⟩
    rw [others_all key absent]

/-- **What writing through a pointer to a present value does.** -/
theorem write_spec (wf : raw.WF policy hash) (key : κ) (val : α) :
    (raw.write hash key val).WF policy hash ∧ (raw.write hash key val).seed = raw.seed ∧
      ((raw.get hash key).isSome → (raw.write hash key val).entries.Perm
        (⟨key, val, hash key raw.seed⟩ :: raw.others key)) ∧
      (raw.get hash key = none → raw.write hash key val = raw) := by
  by_cases allocated : raw.size = 0
  · have empty : raw.table = [] := List.length_eq_zero_iff.mp allocated
    have same : raw.write hash key val = raw := by
      unfold write chain
      rw [empty]
      rfl
    have missing : raw.get hash key = none := by
      unfold get
      rw [if_pos allocated]
    rw [same, missing]
    exact ⟨wf, rfl, by simp, fun _ => rfl⟩
  cases result : chainReplace (keyEqual key (hash key raw.seed)) val
      (raw.chain (slot (hash key raw.seed) raw.size)) with
  | some found =>
    obtain ⟨after, was, entries⟩ := replace_spec wf allocated result
    simp only [write, result]
    exact ⟨after, trivial, fun _ => entries, fun missing => by rw [was] at missing; cases missing⟩
  | none =>
    have absent : raw.get hash key = none :=
      (get_eq_none_iff wf key).mpr (absent_of_bucket wf allocated ((chainReplace_none _).mp result))
    simp only [write, result, absent]
    exact ⟨wf, trivial, by simp, fun _ => trivial⟩

end Raw

/-! ### Tables -/

/-- A table with its invariant. -/
structure Table (policy : Policy) (hash : κ → σ → UInt64) (α : Type) extends Raw σ κ α where
  wf : toRaw.WF policy hash

namespace Table

variable {policy : Policy} {hash : κ → σ → UInt64}

/-- The empty table. -/
def create (policy : Policy) (hash : κ → σ → UInt64) (seed : σ) : Table policy hash α where
  table := []
  used := 0
  seed := seed
  wf := ⟨by simp, by simp [Raw.entries], by simp [Raw.entries], Or.inl rfl, by simp⟩

def get (table : Table policy hash α) (key : κ) : Option α := table.toRaw.get hash key

def set (table : Table policy hash α) (key : κ) (val : α) : Option α × Table policy hash α :=
  ((table.toRaw.set policy hash key val).1,
    ⟨(table.toRaw.set policy hash key val).2, (Raw.set_spec table.wf key val).1⟩)

def delete (table : Table policy hash α) (key : κ) : Option α × Table policy hash α :=
  ((table.toRaw.delete hash key).1,
    ⟨(table.toRaw.delete hash key).2, (Raw.delete_spec table.wf key).1⟩)

def write (table : Table policy hash α) (key : κ) (val : α) : Table policy hash α :=
  ⟨table.toRaw.write hash key val, (Raw.write_spec table.wf key val).1⟩

variable (table : Table policy hash α) (key other : κ) (val : α)

@[simp] theorem get_create (seed : σ) :
    (create policy hash seed : Table policy hash α).get key = none := rfl

/-- `set` returns the previous value. -/
@[simp] theorem set_fst : (table.set key val).1 = table.get key :=
  (Raw.set_spec table.wf key val).2.1

/-- `delete` returns the removed value. -/
@[simp] theorem delete_fst : (table.delete key).1 = table.get key :=
  (Raw.delete_spec table.wf key).2.1

theorem mem_others {entry : Entry κ α} :
    entry ∈ table.toRaw.others key ↔ entry ∈ table.entries ∧ entry.key ≠ key := by
  unfold Raw.others
  rw [List.mem_filter, decide_eq_true_eq]

/-- A lookup in a table whose entries are one new entry and the old ones of other keys. -/
theorem get_cons_others {after : Raw σ κ α} (wf : after.WF policy hash) {h : UInt64}
    (perm : after.entries.Perm (⟨key, val, h⟩ :: table.toRaw.others key)) :
    after.get hash other = if other = key then some val else table.get other := by
  ext found
  rw [Raw.get_eq_some_iff wf]
  simp only [perm.mem_iff, List.mem_cons, mem_others]
  split
  · rename_i same
    subst same
    constructor
    · rintro ⟨entry, rfl | ⟨_, ne⟩, same, rfl⟩
      · rfl
      · exact absurd same ne
    · intro equal
      cases equal
      exact ⟨_, Or.inl rfl, rfl, rfl⟩
  · rename_i ne
    unfold get
    rw [Raw.get_eq_some_iff table.wf]
    constructor
    · rintro ⟨entry, rfl | ⟨member, _⟩, same, rfl⟩
      · exact absurd same.symm ne
      · exact ⟨entry, member, same, rfl⟩
    · rintro ⟨entry, member, same, rfl⟩
      exact ⟨entry, Or.inr ⟨member, same ▸ ne⟩, same, rfl⟩

/-- **`set` updates the map at its key.** -/
theorem get_set :
    (table.set key val).2.get other = if other = key then some val else table.get other :=
  get_cons_others table key other val (Raw.set_spec table.wf key val).1
    (Raw.set_spec table.wf key val).2.2.2

/-- **`delete` removes its key.** -/
theorem get_delete :
    (table.delete key).2.get other = if other = key then none else table.get other := by
  ext found
  show ((table.toRaw.delete hash key).2.get hash other = some found) ↔ _
  rw [Raw.get_eq_some_iff (Raw.delete_spec table.wf key).1]
  simp only [(Raw.delete_spec table.wf key).2.2.2.mem_iff, mem_others]
  split
  · rename_i same
    subst same
    simp only [reduceCtorEq, iff_false, not_exists, not_and]
    exact fun entry member same => absurd same member.2
  · rename_i ne
    unfold get
    rw [Raw.get_eq_some_iff table.wf]
    constructor
    · rintro ⟨entry, ⟨member, _⟩, same, rfl⟩
      exact ⟨entry, member, same, rfl⟩
    · rintro ⟨entry, member, same, rfl⟩
      exact ⟨entry, ⟨member, same ▸ ne⟩, same, rfl⟩

/-- **Writing through a pointer updates a present key.** -/
theorem get_write : (table.write key val).get other =
    if other = key then (table.get key).map fun _ => val else table.get other := by
  obtain ⟨wf, _, present, absent⟩ := Raw.write_spec table.wf key val
  cases found : table.get key with
  | none =>
    have same : (table.write key val).get other = table.get other := by
      show (table.toRaw.write hash key val).get hash other = _
      rw [absent found]
      rfl
    rw [same]
    split
    · rename_i sameKey
      rw [sameKey, found]
      rfl
    · rfl
  | some old =>
    have isSome : (table.toRaw.get hash key).isSome := Option.isSome_iff_exists.mpr ⟨old, found⟩
    exact get_cons_others table key other val wf (present isSome)

/-! ### Iteration and size -/

/-- **Iteration visits exactly the stored pairs.** -/
theorem mem_pairs : (key, val) ∈ table.pairs ↔ table.get key = some val := by
  unfold get Raw.pairs
  rw [Raw.get_eq_some_iff table.wf, List.mem_map]
  simp only [Prod.mk.injEq]

/-- **Iteration visits no key twice.** -/
theorem pairs_nodup : (table.pairs.map Prod.fst).Nodup := by
  unfold Raw.pairs
  rw [List.map_map]
  exact table.wf.distinct

/-- An entry of a chain is what a lookup of its key finds. -/
theorem get_of_mem_chain {index : Nat} {entry : Entry κ α} (member : entry ∈ table.chain index) :
    table.get entry.key = some entry.val := by
  refine (Raw.get_eq_some_iff table.wf _ _).mpr ⟨entry, ?_, rfl, rfl⟩
  by_cases inside : index < table.table.length
  · rw [Raw.chain_eq inside] at member
    exact List.mem_flatten.mpr ⟨_, List.getElem_mem inside, member⟩
  · unfold Raw.chain at member
    rw [List.getD_eq_default _ _ (by omega)] at member
    cases member

/-- The place of a key's chain. -/
def bucket (table : Table policy hash α) (key : κ) : Nat :=
  slot (hash key table.seed) table.size

theorem bucket_lt (allocated : table.size ≠ 0) : table.bucket key < table.size :=
  slot_lt _ allocated

/-- An entry stands in the chain of its key. -/
theorem bucket_of_mem_chain {index : Nat} {entry : Entry κ α}
    (member : entry ∈ table.chain index) : table.bucket entry.key = index := by
  by_cases inside : index < table.table.length
  · rw [Raw.chain_eq inside] at member
    obtain ⟨stored, place⟩ := table.wf.placed index inside entry member
    rw [bucket, ← stored, place]
  · unfold Raw.chain at member
    rw [List.getD_eq_default _ _ (by omega)] at member
    cases member

/-- What a lookup finds stands in the chain of the key. -/
theorem mem_chain_of_get (found : table.get key = some val) :
    ∃ entry ∈ table.chain (table.bucket key), entry.key = key ∧ entry.val = val := by
  unfold get Raw.get at found
  split_ifs at found
  obtain ⟨entry, hit, rfl⟩ := Option.map_eq_some_iff.mp found
  have member := List.mem_of_find?_eq_some hit
  exact ⟨entry, member, (Raw.keyEqual_iff table.wf member).mp (List.find?_some hit), rfl⟩

theorem size_delete : (table.delete key).2.size = table.size := by
  show ((table.toRaw.delete hash key).2).size = table.toRaw.size
  unfold Raw.delete
  dsimp only
  split_ifs
  · rfl
  · split
    · exact List.length_set
    · rfl

theorem bucket_delete : (table.delete key).2.bucket other = table.bucket other := by
  have seed : (table.delete key).2.seed = table.seed := (Raw.delete_spec table.wf key).2.2.1
  rw [bucket, seed, size_delete, bucket]

theorem pairs_length : table.pairs.length = table.used := by
  unfold Raw.pairs
  rw [List.length_map]
  exact table.wf.count.symm

theorem mem_keys : key ∈ table.pairs.map Prod.fst ↔ (table.get key).isSome := by
  rw [List.mem_map, Option.isSome_iff_exists]
  constructor
  · rintro ⟨⟨_, val⟩, member, rfl⟩
    exact ⟨val, (table.mem_pairs _ val).mp member⟩
  · rintro ⟨val, found⟩
    exact ⟨(key, val), (table.mem_pairs key val).mpr found, rfl⟩

/-- Tables with the same keys count the same number of entries, whatever their layouts. -/
theorem used_congr {first second : Table policy hash α}
    (same : ∀ key, (first.get key).isSome = (second.get key).isSome) :
    first.used = second.used := by
  have keys : (first.pairs.map Prod.fst).Perm (second.pairs.map Prod.fst) := by
    refine (List.perm_ext_iff_of_nodup first.pairs_nodup second.pairs_nodup).mpr fun key => ?_
    rw [mem_keys, mem_keys, same]
  rw [← pairs_length, ← pairs_length, ← List.length_map Prod.fst, keys.length_eq, List.length_map]

/-- Deleting a present key takes one from the count. -/
theorem used_delete (present : (table.get key).isSome) :
    (table.delete key).2.used + 1 = table.used := by
  have fresh : key ∉ (table.delete key).2.pairs.map Prod.fst := by
    rw [mem_keys, get_delete, if_pos rfl]
    exact Bool.false_ne_true
  have keys : (key :: (table.delete key).2.pairs.map Prod.fst).Perm (table.pairs.map Prod.fst) := by
    refine (List.perm_ext_iff_of_nodup (List.nodup_cons.mpr ⟨fresh, pairs_nodup _⟩)
      table.pairs_nodup).mpr fun other => ?_
    rw [List.mem_cons, mem_keys, mem_keys, get_delete]
    by_cases same : other = key
    · subst same
      simp [present]
    · simp [same]
  have length := keys.length_eq
  rw [List.length_cons, List.length_map, List.length_map, pairs_length, pairs_length] at length
  exact length

/-- Deleting an absent key leaves the count. -/
theorem used_delete_absent (absent : table.get key = none) :
    (table.delete key).2.used = table.used := by
  refine used_congr fun other => ?_
  rw [get_delete]
  by_cases same : other = key
  · rw [if_pos same, same, absent]
  · rw [if_neg same]

/-- Storing under a new key adds one to the count. -/
theorem used_set_absent (absent : table.get key = none) :
    (table.set key val).2.used = table.used + 1 := by
  have back : ((table.set key val).2.delete key).2.used = table.used := by
    refine used_congr fun other => ?_
    rw [get_delete, get_set]
    by_cases same : other = key
    · rw [if_pos same, same, absent]
    · rw [if_neg same, if_neg same]
  have stored : ((table.set key val).2.get key).isSome := by
    rw [get_set, if_pos rfl]
    rfl
  rw [← used_delete _ key stored, back]

/-- Storing under a key that is there leaves the count. -/
theorem used_set_present (present : (table.get key).isSome) :
    (table.set key val).2.used = table.used := by
  refine used_congr fun other => ?_
  rw [get_set]
  by_cases same : other = key
  · rw [if_pos same, same, present]
    rfl
  · rw [if_neg same]

/-- The table counts no entries exactly when it has no keys. -/
theorem used_eq_zero_iff : table.used = 0 ↔ ∀ key, table.get key = none := by
  rw [← pairs_length, List.length_eq_zero_iff]
  constructor
  · intro empty key
    cases found : table.get key with
    | none => rfl
    | some val =>
      have member := (table.mem_pairs key val).mpr found
      rw [empty] at member
      cases member
  · intro none
    refine List.eq_nil_iff_forall_not_mem.mpr fun pair member => ?_
    have found := (table.mem_pairs pair.1 pair.2).mp member
    rw [none] at found
    cases found

/-! ### Rebuilding -/

/-- The table after storing the pairs of a list in order. -/
def setAll (pairs : List (κ × α)) (start : Table policy hash α) : Table policy hash α :=
  pairs.foldl (fun table pair => (table.set pair.1 pair.2).2) start

theorem get_setAll_other {pairs : List (κ × α)} (fresh : key ∉ pairs.map Prod.fst) :
    (setAll pairs table).get key = table.get key := by
  induction pairs generalizing table with
  | nil => rfl
  | cons pair rest ih =>
    rw [List.map_cons, List.mem_cons, not_or] at fresh
    exact (ih _ fresh.2).trans ((get_set ..).trans (if_neg fresh.1))

theorem get_setAll_mem {pairs : List (κ × α)} (distinct : (pairs.map Prod.fst).Nodup)
    (member : (key, val) ∈ pairs) : (setAll pairs table).get key = some val := by
  induction pairs generalizing table with
  | nil => cases member
  | cons pair rest ih =>
    rw [List.map_cons, List.nodup_cons] at distinct
    rcases List.mem_cons.mp member with rfl | later
    · exact (get_setAll_other _ _ distinct.1).trans ((get_set ..).trans (if_pos rfl))
    · exact ih _ distinct.2 later

/-- **Storing the pairs of a table into an empty one rebuilds its map.** -/
theorem get_rebuild (seed : σ) :
    (setAll table.pairs (create policy hash seed)).get key = table.get key := by
  cases found : table.get key with
  | some val =>
    exact get_setAll_mem _ _ _ table.pairs_nodup ((table.mem_pairs key val).mpr found)
  | none =>
    have fresh : key ∉ table.pairs.map Prod.fst := by
      rw [mem_keys, found]
      exact Bool.false_ne_true
    exact get_setAll_other _ _ fresh

/-- The keys deleted one after another. -/
def deleteAll (keys : List κ) (start : Table policy hash α) : Table policy hash α :=
  keys.foldl (fun table key => (table.delete key).2) start

theorem get_deleteAll (keys : List κ) (start : Table policy hash α) :
    (start.deleteAll keys).get key = if key ∈ keys then none else start.get key := by
  induction keys generalizing start with
  | nil => rfl
  | cons first rest ih =>
    refine (ih _).trans ?_
    rw [get_delete]
    by_cases here : key = first
    · simp [here]
    · simp [here]

/-- The table after writing `f` of the value of each of the pairs at its key. -/
def writeAll (f : α → α) (pairs : List (κ × α)) (start : Table policy hash α) :
    Table policy hash α :=
  pairs.foldl (fun table pair => table.write pair.1 (f pair.2)) start

theorem get_writeAll_other (f : α → α) {pairs : List (κ × α)} (fresh : key ∉ pairs.map Prod.fst) :
    (writeAll f pairs table).get key = table.get key := by
  induction pairs generalizing table with
  | nil => rfl
  | cons pair rest ih =>
    rw [List.map_cons, List.mem_cons, not_or] at fresh
    exact (ih _ fresh.2).trans ((get_write ..).trans (if_neg fresh.1))

theorem get_writeAll_mem (f : α → α) {pairs : List (κ × α)}
    (distinct : (pairs.map Prod.fst).Nodup) (member : (key, val) ∈ pairs)
    (present : (table.get key).isSome) : (writeAll f pairs table).get key = some (f val) := by
  induction pairs generalizing table with
  | nil => cases member
  | cons pair rest ih =>
    rw [List.map_cons, List.nodup_cons] at distinct
    rcases List.mem_cons.mp member with rfl | later
    · obtain ⟨old, found⟩ := Option.isSome_iff_exists.mp present
      refine (get_writeAll_other _ _ f distinct.1).trans ?_
      rw [get_write, if_pos rfl, found]
      rfl
    · refine ih _ distinct.2 later ?_
      rw [get_write]
      split_ifs with same
      · rw [← same, Option.isSome_map]
        exact present
      · exact present

/-- **A pass that writes at every entry maps the values.** -/
theorem get_writeAll (f : α → α) :
    (writeAll f table.pairs table).get key = (table.get key).map f := by
  cases found : table.get key with
  | some val =>
    exact get_writeAll_mem _ _ _ f table.pairs_nodup ((table.mem_pairs key val).mpr found)
      (by rw [found]; rfl)
  | none =>
    have fresh : key ∉ table.pairs.map Prod.fst := by
      rw [mem_keys, found]
      exact Bool.false_ne_true
    rw [get_writeAll_other _ _ f fresh, found]
    rfl

end Table

end HashTable
