/-
**Index ranges.**

A range is given by two indices, negative ones counted from the end; the commands that take one
bring it into `0 .. len - 1` first. `rangeOf` is what a range means: the elements whose positions
lie between the two. `range_normalize` and the copies of it in other commands compute that, and no
index they pass through leaves `long long`.

* `rangeOf_eq` — a normalized range is the range.
* `rangeNormalizeChecked_eq` — no step of the normalization overflows.
-/

import Miniredis.Model.Db

namespace Miniredis

/-- The position that an index stands for. -/
def position (n : Nat) (index : Int) : Int := if index < 0 then n + index else index

/-- The elements at the positions from `start` to `stop`. -/
def rangeOf {α : Type} (l : List α) (start stop : Int) : List α :=
  (l.zipIdx.filter fun entry =>
    position l.length start ≤ entry.2 ∧ entry.2 ≤ position l.length stop).map Prod.fst

section Ranges

variable {α : Type} {l : List α} {len start stop first last : Int}

/-- A normalized range lies inside. -/
theorem rangeNormalize_some (found : rangeNormalize len start stop = some (first, last)) :
    0 ≤ first ∧ first ≤ last ∧ last < len := by
  unfold rangeNormalize at found
  dsimp only at found
  split_ifs at found
  all_goals
    simp only [Option.some.injEq, Prod.mk.injEq] at found
    omega

theorem length_slice (low : 0 ≤ first) (ordered : first ≤ last)
    (high : last < l.length) : (slice l first last).length = (last - first + 1).toNat := by
  unfold slice
  rw [List.length_take, List.length_drop]
  omega

/-! ### What a range means -/

/-- The elements between two positions, counted from `k` on. -/
theorem filter_zipIdx (l : List α) (k : Nat) (low high : Int) :
    ((l.zipIdx k).filter fun entry => low ≤ entry.2 ∧ entry.2 ≤ high).map Prod.fst =
      (l.take (high + 1 - k).toNat).drop (low - k).toNat := by
  induction l generalizing k with
  | nil => simp
  | cons x rest ih =>
    rw [List.zipIdx_cons]
    have tail := ih (k + 1)
    by_cases beyond : high < k
    · have none : (high + 1 - k).toNat = 0 := by omega
      have none' : (high + 1 - (k + 1 : Nat)).toNat = 0 := by omega
      rw [List.filter_cons_of_neg (by simp; omega), tail, none, none']
      simp
    · have room : (high + 1 - k).toNat = (high + 1 - (k + 1 : Nat)).toNat + 1 := by omega
      by_cases below : k < low
      · have more : (low - k).toNat = (low - (k + 1 : Nat)).toNat + 1 := by omega
        rw [List.filter_cons_of_neg (by simp; omega), tail, room, more, List.take_succ_cons,
          List.drop_succ_cons]
      · have start : (low - k).toNat = 0 := by omega
        have start' : (low - (k + 1 : Nat)).toNat = 0 := by omega
        rw [List.filter_cons_of_pos (by simp; omega), List.map_cons, tail, room, start, start']
        simp

theorem rangeOf_eq_drop (l : List α) (start stop : Int) :
    rangeOf l start stop = (l.take (position l.length stop + 1).toNat).drop
      (position l.length start).toNat := by
  have plain := filter_zipIdx l 0 (position l.length start) (position l.length stop)
  unfold rangeOf
  simpa using plain

/-- **A normalized range is the range.** -/
theorem rangeOf_eq (l : List α) (start stop : Int) :
    rangeOf l start stop =
      match rangeNormalize l.length start stop with
      | none => []
      | some (first, last) => slice l first last := by
  rw [rangeOf_eq_drop]
  cases range : rangeNormalize l.length start stop with
  | none =>
    rw [List.drop_eq_nil_iff, List.length_take]
    unfold rangeNormalize at range
    unfold position
    dsimp only at range
    split_ifs at range ⊢ <;> omega
  | some bounds =>
    obtain ⟨first, last⟩ := bounds
    obtain ⟨low, ordered, high⟩ := rangeNormalize_some range
    have same : (position l.length start).toNat = first.toNat ∧
        min (position l.length stop + 1).toNat l.length = (last + 1).toNat := by
      unfold rangeNormalize at range
      unfold position
      dsimp only at range
      split_ifs at range ⊢
      all_goals
        simp only [Option.some.injEq, Prod.mk.injEq] at range
        omega
    dsimp only
    rw [List.take_eq_take_min, same.2, same.1, List.drop_take, slice]
    congr 1
    omega

/-! ### Indices in `long long` -/

theorem toLongLong_ofNat {n : Nat} (small : n < 2 ^ 63) : toLongLong (UInt64.ofNat n) = n := by
  have wide : n < UInt64.size := small.trans (by decide)
  rw [toLongLong, UInt64.toNat_ofNat_of_lt' wide]
  exact wrap64_of_range (by omega) (by exact_mod_cast small)

/-- **No step of the normalization overflows.** -/
theorem rangeNormalizeChecked_eq (positive : 0 ≤ len) (few : len < 2 ^ 63)
    (start_fits : -(llongMax : Int) ≤ start ∧ start ≤ llongMax)
    (stop_fits : -(llongMax : Int) ≤ stop ∧ stop ≤ llongMax) :
    rangeNormalizeChecked len start stop = some (rangeNormalize len start stop) := by
  have limit : (llongMax : Int) = 2 ^ 63 - 1 := by decide
  unfold rangeNormalizeChecked rangeNormalize
  rw [checkedIf_of_range fun _ => by omega, checkedIf_of_range fun _ => by omega]
  simp only [Option.bind_eq_bind, Option.bind_some]
  generalize (if start < 0 then len + start else start) = first
  generalize (if stop < 0 then len + stop else stop) = last
  generalize (if first < 0 then 0 else first) = first
  split
  · rfl
  · rw [checkedIf_of_range fun _ => by omega]
    rfl

theorem rangeCount_eq (low : 0 ≤ first) (ordered : first ≤ last) (high : last < 2 ^ 63 - 1) :
    rangeCount first last = some (last - first + 1) := by
  unfold rangeCount
  rw [checked_of_range (by omega) (by omega)]
  exact checked_of_range (by omega) (by omega)

end Ranges

end Miniredis
