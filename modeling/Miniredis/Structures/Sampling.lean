/-
**The random choices (`dict_random_entry`, `zsl_random_level`).**

`dict_random_entry` walks a table once and takes entry number `i` over its current choice if
`rand() % (i + 1)` is zero; `zsl_random_level` adds a level as long as the low half of `rand()` is
below `16383`. Both are studied over independent outcomes of `rand()`, uniform below `M`.

* `walk_step` — what one outcome decides.
* `walk_keeps_near`, `walk_takes_near` — a walk keeps the choice it has, and takes an entry it has
  not passed, nearly in proportion to the entries passed: each outcome is off by `1 / M` at most.
* `random_entry_near_uniform` — every entry of a table with `n` entries is drawn with a chance that
  differs from `1 / n` by `n / M` at most.
* `random_level_law` — the levels of a skip-list node are geometric, cut off at the last level.
-/

import Miniredis.Lib.Tape
import Miniredis.Structures.Skiplist

namespace Miniredis

open Tape (chance push hits)

/-! ### Estimates -/

/-- Products of nearby shares are near. -/
theorem near_mul {a a' b b' e f : ℚ} (first : |a - a'| ≤ e) (second : |b - b'| ≤ f)
    (low : 0 ≤ b) (high : b ≤ 1) (low' : 0 ≤ a') (high' : a' ≤ 1) :
    |a * b - a' * b'| ≤ e + f := by
  have split : a * b - a' * b' = (a - a') * b + a' * (b - b') := by ring
  rw [split]
  calc |(a - a') * b + a' * (b - b')| ≤ |(a - a') * b| + |a' * (b - b')| := abs_add_le _ _
    _ = |a - a'| * b + a' * |b - b'| := by
      rw [abs_mul, abs_mul, abs_of_nonneg low, abs_of_nonneg low']
    _ ≤ e * 1 + 1 * f := by gcongr; exact (abs_nonneg _).trans first
    _ = e + f := by ring

/-- A mean of two numbers near a third is near it. -/
theorem near_mix {q x y c e : ℚ} (first : |x - c| ≤ e) (second : |y - c| ≤ e) (low : 0 ≤ q)
    (high : q ≤ 1) : |q * x + (1 - q) * y - c| ≤ e := by
  have rest : 0 ≤ 1 - q := sub_nonneg.mpr high
  have split : q * x + (1 - q) * y - c = q * (x - c) + (1 - q) * (y - c) := by ring
  rw [split]
  calc |q * (x - c) + (1 - q) * (y - c)| ≤ |q * (x - c)| + |(1 - q) * (y - c)| := abs_add_le _ _
    _ = q * |x - c| + (1 - q) * |y - c| := by
      rw [abs_mul, abs_mul, abs_of_nonneg low, abs_of_nonneg rest]
    _ ≤ q * e + (1 - q) * e := by gcongr
    _ = e := by ring

/-! ### The walk -/

section Walk

variable {α : Type} {M : Nat} {i : Nat} {pick : Option (Bytes × α)} {entry : Bytes × α}
  {entries : List (Bytes × α)}

/-- The share of outcomes on which entry number `i` is taken. -/
def takes (M i : Nat) : ℚ := hits M (fun x => x % (i + 1) = 0) / M

theorem takes_near (positive : 0 < M) (i : Nat) : |takes M i - 1 / (i + 1)| ≤ 1 / M :=
  Tape.hits_near positive i

theorem takes_nonneg (M i : Nat) : 0 ≤ takes M i := by
  unfold takes
  positivity

theorem takes_le_one (M i : Nat) : takes M i ≤ 1 := by
  unfold takes hits
  refine div_le_one_of_le₀ ?_ (by positivity)
  have few := Finset.card_filter_le (Finset.range M) fun x => x % (i + 1) = 0
  rw [Finset.card_range] at few
  exact_mod_cast few

/-- **One outcome of `rand()`.** -/
theorem walk_step (positive : 0 < M) (n : Nat)
    (event : Option (Bytes × α) × (Nat → Nat) → Prop) :
    chance M (n + 1) (fun rand => event (randomWalk i pick (entry :: entries) rand)) =
      takes M i * chance M n (fun rand => event (randomWalk (i + 1) (some entry) entries rand)) +
        (1 - takes M i) *
          chance M n (fun rand => event (randomWalk (i + 1) pick entries rand)) := by
  refine Tape.chance_split positive (fun x => x % (i + 1) = 0) (fun x rest hit => ?_)
    fun x rest miss => ?_
  · have taken : randomWalk i pick (entry :: entries) (push x rest) =
        randomWalk (i + 1) (if x % (i + 1) = 0 then some entry else pick) entries rest := rfl
    rw [taken, if_pos hit]
  · have kept : randomWalk i pick (entry :: entries) (push x rest) =
        randomWalk (i + 1) (if x % (i + 1) = 0 then some entry else pick) entries rest := rfl
    rw [kept, if_neg miss]

/-- An entry that is neither held nor ahead is not drawn. -/
theorem walk_misses (held : pick ≠ some entry) (ahead : entry ∉ entries) (n : Nat) :
    chance M n (fun rand => (randomWalk i pick entries rand).1 = some entry) = 0 := by
  refine Tape.chance_never fun rand drawn => ?_
  rcases randomWalk_some i pick entries rand with same | ⟨other, member, same⟩
  · exact held (same.symm.trans drawn)
  · exact ahead (Option.some.inj (same.symm.trans drawn) ▸ member)

/-- **The walk keeps its choice** in proportion to the entries passed. -/
theorem walk_keeps_near (positive : 0 < M) (passed : 0 < i) (ahead : entry ∉ entries) :
    |chance M entries.length (fun rand => (randomWalk i (some entry) entries rand).1 = some entry) -
      i / (i + entries.length)| ≤ entries.length / M := by
  induction entries generalizing i with
  | nil =>
    have all : chance M 0 (fun rand => (randomWalk i (some entry) [] rand).1 = some entry) = 1 :=
      Tape.chance_always positive fun _ => rfl
    have whole : (i : ℚ) ≠ 0 := by positivity
    simp [all, whole]
  | cons first rest ih =>
    rw [List.mem_cons, not_or] at ahead
    have later := ih (Nat.succ_pos i) ahead.2
    rw [List.length_cons, walk_step positive rest.length fun result => result.1 = some entry,
      walk_misses (fun same => ahead.1 (Option.some.inj same).symm) ahead.2, mul_zero, zero_add]
    have share : (i : ℚ) / (i + (rest.length + 1 : Nat)) =
        (1 - 1 / (i + 1)) * ((i + 1 : Nat) / ((i + 1 : Nat) + rest.length)) := by
      push_cast
      field_simp
      ring
    have step : |1 - takes M i - (1 - 1 / ((i : ℚ) + 1))| ≤ 1 / M := by
      rw [sub_sub_sub_cancel_left, abs_sub_comm]
      exact takes_near positive i
    have part : (1 : ℚ) / (i + 1) ≤ 1 := by
      rw [div_le_one (by positivity)]
      linarith [show (0 : ℚ) ≤ i by positivity]
    rw [share]
    refine (near_mul step later Tape.chance_nonneg Tape.chance_le_one (by linarith)
      (by linarith [show (0 : ℚ) ≤ 1 / (i + 1) by positivity])).trans_eq ?_
    push_cast
    ring

/-- **The walk takes an entry ahead of it** with an equal chance for each entry in the end. -/
theorem walk_takes_near (positive : 0 < M) (distinct : entries.Nodup) (ahead : entry ∈ entries)
    (held : pick ≠ some entry) :
    |chance M entries.length (fun rand => (randomWalk i pick entries rand).1 = some entry) -
      1 / (i + entries.length)| ≤ entries.length / M := by
  induction entries generalizing i pick with
  | nil => cases ahead
  | cons first rest ih =>
    obtain ⟨fresh, distinct⟩ := List.nodup_cons.mp distinct
    have total : (i : ℚ) + (rest.length + 1 : Nat) = (i + 1 : Nat) + rest.length := by
      push_cast
      ring
    rw [List.length_cons, walk_step positive rest.length fun result => result.1 = some entry]
    rcases List.mem_cons.mp ahead with rfl | ahead
    · rw [walk_misses held fresh, mul_zero, add_zero]
      have share : (1 : ℚ) / (i + (rest.length + 1 : Nat)) =
          1 / (i + 1) * ((i + 1 : Nat) / ((i + 1 : Nat) + rest.length)) := by
        push_cast
        field_simp
        ring
      have part : (1 : ℚ) / (i + 1) ≤ 1 := by
        rw [div_le_one (by positivity)]
        linarith [show (0 : ℚ) ≤ i by positivity]
      rw [share]
      refine (near_mul (takes_near positive i) (walk_keeps_near positive (Nat.succ_pos i) fresh)
        Tape.chance_nonneg Tape.chance_le_one (by positivity) part).trans_eq ?_
      push_cast
      ring
    · have other : some first ≠ some entry := fun same => fresh (Option.some.inj same ▸ ahead)
      rw [total]
      refine (near_mix (ih distinct ahead other) (ih distinct ahead held) (takes_nonneg M i)
        (takes_le_one M i)).trans ?_
      gcongr
      exact Nat.le_succ _

/-- **The outcomes a walk leaves are independent of its choice.** -/
theorem walk_bind (positive : 0 < M) (n : Nat) (choice : Option (Bytes × α) → Prop)
    (event : (Nat → Nat) → Prop) :
    chance M (entries.length + n) (fun rand => choice (randomWalk i pick entries rand).1 ∧
        event (randomWalk i pick entries rand).2) =
      chance M entries.length (fun rand => choice (randomWalk i pick entries rand).1) *
        chance M n event := by
  induction entries generalizing i pick with
  | nil =>
    rw [List.length_nil, Nat.zero_add]
    simp only [randomWalk]
    by_cases chosen : choice pick
    · rw [Tape.chance_always positive fun _ => chosen, one_mul]
      exact Tape.chance_congr fun rand => and_iff_right chosen
    · rw [Tape.chance_never fun _ => chosen, zero_mul]
      exact Tape.chance_never fun _ both => chosen both.1
  | cons first rest ih =>
    rw [List.length_cons, Nat.add_right_comm,
      walk_step positive _ fun result => choice result.1 ∧ event result.2,
      walk_step positive _ fun result => choice result.1, ih, ih]
    ring

end Walk

/-! ### Draws from a dictionary -/

section Draw

variable {α : Type} {M : Nat} {d : Dict α} {key : Bytes} {a : α}

/-- **Every entry is drawn with nearly the same chance.** -/
theorem random_entry_near_uniform (positive : 0 < M) (present : d.get key = some a) :
    |chance M (dictSize d) (fun rand => (dictRandomEntry d rand).1 = some (key, a)) -
      1 / dictSize d| ≤ dictSize d / M := by
  have member : (key, a) ∈ d.pairs := (d.mem_pairs key a).mpr present
  have size : d.pairs.length = dictSize d := d.pairs_length
  have filled : d.used ≠ 0 := by
    rw [← HashTable.Table.pairs_length]
    exact List.length_pos_of_mem member |>.ne'
  have draw (rand : Nat → Nat) : dictRandomEntry d rand = randomWalk 0 none d.pairs rand :=
    if_neg filled
  have near := @walk_takes_near _ _ 0 none _ _ positive d.pairs_nodup.of_map member
    (Option.some_ne_none _).symm
  simp only [draw]
  rwa [size, Nat.cast_zero, zero_add] at near

/-- A draw, and what is done with the outcomes it leaves. -/
theorem random_entry_bind (positive : 0 < M) (filled : dictSize d ≠ 0) (n : Nat)
    (event : (Nat → Nat) → Prop) :
    chance M (dictSize d + n) (fun rand => (dictRandomEntry d rand).1 = some (key, a) ∧
        event (dictRandomEntry d rand).2) =
      chance M (dictSize d) (fun rand => (dictRandomEntry d rand).1 = some (key, a)) *
        chance M n event := by
  have draw (rand : Nat → Nat) : dictRandomEntry d rand = randomWalk 0 none d.pairs rand :=
    if_neg filled
  have size : d.pairs.length = dictSize d := d.pairs_length
  simp only [draw]
  rw [← size]
  exact walk_bind positive n (fun pick => pick = some (key, a)) event

end Draw

/-! ### Levels -/

section Levels

variable {r : Nat}

/-- The share of outcomes that add a level. -/
theorem adds_level (blocks : 0 < r) :
    (hits (65536 * r) (fun x => x &&& 0xFFFF < 16383) : ℚ) / (65536 * r : Nat) = 16383 / 65536 := by
  have low (x : Nat) : x &&& 0xFFFF = x % 65536 := Nat.and_two_pow_sub_one_eq_mod x 16
  have count : hits (65536 * r) (fun x => x &&& 0xFFFF < 16383) = 16383 * r := by
    simp only [low]
    exact Tape.hits_below (by decide) r
  have blocks' : (r : ℚ) ≠ 0 := by positivity
  rw [count]
  push_cast
  rw [mul_div_mul_right _ _ blocks']

/-- The loop reaches `k` more levels on `k` outcomes in a row that add one. -/
theorem random_level_loop_law (blocks : 0 < r) {left k : Nat} (room : k ≤ left) (level : Nat) :
    chance (65536 * r) left (fun rand => level + k ≤ zslRandomLevelLoop left rand level) =
      (16383 / 65536) ^ k := by
  have positive : 0 < 65536 * r := by omega
  induction left generalizing k level with
  | zero =>
    obtain rfl := Nat.le_zero.mp room
    rw [pow_zero]
    exact Tape.chance_always positive fun _ => Nat.le_refl _
  | succ left ih =>
    cases k with
    | zero =>
      rw [pow_zero]
      exact Tape.chance_always positive fun rand => (zslRandomLevelLoop_range _ rand level).1
    | succ k =>
      have grows (x : Nat) (rest : Nat → Nat) (hit : x &&& 0xFFFF < 16383) :
          level + (k + 1) ≤ zslRandomLevelLoop (left + 1) (push x rest) level ↔
            level + 1 + k ≤ zslRandomLevelLoop left rest (level + 1) := by
        have next : zslRandomLevelLoop (left + 1) (push x rest) level =
            zslRandomLevelLoop left rest (level + 1) := if_pos hit
        rw [next, Nat.add_right_comm, Nat.add_assoc]
      have stops (x : Nat) (rest : Nat → Nat) (miss : ¬ x &&& 0xFFFF < 16383) :
          level + (k + 1) ≤ zslRandomLevelLoop (left + 1) (push x rest) level ↔ False := by
        have done : zslRandomLevelLoop (left + 1) (push x rest) level = level := if_neg miss
        rw [done, iff_false]
        omega
      rw [Tape.chance_split positive _ grows stops, ih (Nat.le_of_succ_le_succ room),
        adds_level blocks, Tape.chance_never fun _ => id, mul_zero, add_zero, pow_succ']

/-- **The levels of a skip-list node.** With outcomes of `rand()` that are uniform over whole
blocks of `65536`, a node has more than `k` levels with the chance of `k` levels added in a row,
and fewer than four thirds of a level on average. -/
theorem random_level_law (blocks : 0 < r) :
    (∀ k < zskiplistMaxlevel,
      chance (65536 * r) 31 (fun rand => k < zslRandomLevel rand) = (16383 / 65536) ^ k) ∧
    Tape.mean (65536 * r) 31 (fun rand => zslRandomLevel rand) < 4 / 3 := by
  have law : ∀ k < zskiplistMaxlevel,
      chance (65536 * r) 31 (fun rand => k < zslRandomLevel rand) = (16383 / 65536) ^ k := by
    intro k below
    rw [← random_level_loop_law blocks (Nat.le_of_lt_succ below) 1]
    refine Tape.chance_congr fun rand => ?_
    rw [Nat.add_comm, Nat.succ_le_iff]
    rfl
  refine ⟨law, ?_⟩
  rw [Tape.mean_layers fun rand => (zslRandomLevel_range rand).2,
    Finset.sum_congr rfl fun k inside => law k (Finset.mem_range.mp inside),
    geom_sum_eq (by norm_num)]
  have tail : (0 : ℚ) < (16383 / 65536) ^ zskiplistMaxlevel := by positivity
  rw [div_lt_iff_of_neg (by norm_num)]
  linarith

/-- With `rand()` below `2 ^ 31`, a node has a second level in just under a quarter of cases. -/
theorem second_level_chance :
    chance (65536 * 32768) 31 (fun rand => 1 < zslRandomLevel rand) = 16383 / 65536 := by
  simpa using (random_level_law (show 0 < 32768 by decide)).1 1 (by decide)

end Levels

end Miniredis
