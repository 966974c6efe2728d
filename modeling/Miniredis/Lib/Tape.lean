/-
**Independent draws.**

A program that consumes random numbers reads them from a tape. Over tapes whose first `n` cells are
independent and uniform on `0, …, M - 1`, the chance of an event is a number of tapes over `M ^ n`.

* `chance_succ` — the chance is the mean over the first cell.
* `chance_split` — a program that tests its first cell and goes on in one of two ways.
* `hits_near`, `hits_below` — the cells that a number divides are its share of all, up to one; those
  with a low remainder are theirs exactly, over whole blocks.
* `mean_layers` — the mean of a count, from the chances that it exceeds each number.
-/

import Mathlib.Data.Fintype.BigOperators
import Mathlib.Data.Int.CardIntervalMod
import Mathlib.Tactic

namespace Tape

/-! ### Tapes -/

/-- The tape with these cells, zeros behind them. -/
def ofCells {M n : Nat} (cells : Fin n → Fin M) : Nat → Nat :=
  fun i => if inside : i < n then cells ⟨i, inside⟩ else 0

/-- The tape with one more cell in front. -/
def push (x : Nat) (rest : Nat → Nat) : Nat → Nat
  | 0 => x
  | i + 1 => rest i

theorem ofCells_cons {M n : Nat} (x : Fin M) (cells : Fin n → Fin M) :
    ofCells (Fin.cons x cells : Fin (n + 1) → Fin M) = push x (ofCells cells) := by
  funext i
  cases i with
  | zero => rfl
  | succ i =>
    show (if inside : i + 1 < n + 1 then _ else 0) = if inside : i < n then _ else 0
    by_cases inside : i < n
    · rw [dif_pos (Nat.succ_lt_succ inside), dif_pos inside]
      rfl
    · rw [dif_neg (by omega), dif_neg inside]

/-! ### Chances -/

section Chance

open Classical in
/-- The share of the tapes of `n` cells below `M` that have a property. -/
noncomputable def chance (M n : Nat) (event : (Nat → Nat) → Prop) : ℚ :=
  (∑ cells : Fin n → Fin M, if event (ofCells cells) then 1 else 0) / M ^ n

variable {M n : Nat} {event other : (Nat → Nat) → Prop}

theorem chance_congr (same : ∀ rand, event rand ↔ other rand) :
    chance M n event = chance M n other :=
  congrArg (chance M n) (funext fun rand => propext (same rand))

/-- **The first cell.** -/
theorem chance_succ (M n : Nat) (event : (Nat → Nat) → Prop) :
    chance M (n + 1) event =
      (∑ x : Fin M, chance M n fun rest => event (push x rest)) / M := by
  classical
  unfold chance
  rw [← Finset.sum_div, div_div, ← pow_succ]
  congr 1
  rw [← Equiv.sum_comp (Fin.consEquiv fun _ : Fin (n + 1) => Fin M), Fintype.sum_prod_type]
  refine Finset.sum_congr rfl fun x _ => Finset.sum_congr rfl fun cells _ => ?_
  have same : ofCells (Fin.consEquiv (fun _ : Fin (n + 1) => Fin M) (x, cells)) =
      push x (ofCells cells) := ofCells_cons x cells
  rw [same]

theorem chance_nonneg : 0 ≤ chance M n event := by
  unfold chance
  positivity

theorem chance_le_one : chance M n event ≤ 1 := by
  classical
  unfold chance
  refine div_le_one_of_le₀ ?_ (by positivity)
  calc (∑ cells : Fin n → Fin M, if event (ofCells cells) then (1 : ℚ) else 0)
      ≤ ∑ _cells : Fin n → Fin M, (1 : ℚ) := Finset.sum_le_sum fun _ _ => by split_ifs <;> norm_num
    _ = M ^ n := by simp

theorem chance_never (never : ∀ rand, ¬ event rand) : chance M n event = 0 := by
  unfold chance
  simp [never]

theorem chance_always (positive : 0 < M) (always : ∀ rand, event rand) : chance M n event = 1 := by
  have cells : (0 : ℚ) < M ^ n := by positivity
  unfold chance
  simp [always, cells.ne']

/-- The cells that pass a test. -/
def hits (M : Nat) (test : Nat → Prop) [DecidablePred test] : Nat :=
  ((Finset.range M).filter test).card

/-- **A program that tests its first cell.** -/
theorem chance_split (positive : 0 < M) (test : Nat → Prop) [DecidablePred test]
    {hit miss : (Nat → Nat) → Prop}
    (passes : ∀ x rest, test x → (event (push x rest) ↔ hit rest))
    (fails : ∀ x rest, ¬ test x → (event (push x rest) ↔ miss rest)) :
    chance M (n + 1) event =
      hits M test / M * chance M n hit + (1 - hits M test / M) * chance M n miss := by
  have cell : (0 : ℚ) < M := by exact_mod_cast positive
  have each (x : Nat) : (chance M n fun rest => event (push x rest)) =
      if test x then chance M n hit else chance M n miss := by
    split_ifs with tested
    · exact chance_congr fun rest => passes x rest tested
    · exact chance_congr fun rest => fails x rest tested
  have total : (hits M test : ℚ) + ((Finset.range M).filter fun x => ¬ test x).card = M := by
    have parts := (Finset.range M).card_filter_add_card_filter_not test
    rw [Finset.card_range] at parts
    exact_mod_cast parts
  rw [chance_succ]
  simp only [each]
  rw [← Finset.sum_range fun x => if test x then chance M n hit else chance M n miss,
    Finset.sum_ite, Finset.sum_const, Finset.sum_const, nsmul_eq_mul, nsmul_eq_mul,
    eq_sub_of_add_eq' total, add_div, mul_div_right_comm, mul_div_right_comm, sub_div,
    div_self cell.ne']
  rfl

/-- **The multiples of a number are its share, up to one.** -/
theorem hits_near (positive : 0 < M) (m : Nat) :
    |(hits M fun x => x % (m + 1) = 0 : ℚ) / M - 1 / (m + 1)| ≤ 1 / M := by
  have cell : (0 : ℚ) < M := by exact_mod_cast positive
  have size : (0 : ℚ) < m + 1 := by positivity
  have count : ((hits M fun x => x % (m + 1) = 0 : Nat) : ℤ) = ⌈(M : ℚ) / (m + 1)⌉ := by
    have same : (hits M fun x => x % (m + 1) = 0) = M.count (· ≡ 0 [MOD m + 1]) := by
      rw [hits, Nat.count_eq_card_filter_range]
      exact congrArg Finset.card (Finset.filter_congr fun x _ => by simp [Nat.ModEq])
    rw [same, Nat.count_modEq_card_eq_ceil M (Nat.succ_pos m) 0]
    simp
  have count' : (hits M fun x => x % (m + 1) = 0 : ℚ) = (⌈(M : ℚ) / (m + 1)⌉ : ℤ) := by
    exact_mod_cast count
  have low := Int.le_ceil ((M : ℚ) / (m + 1))
  have high := Int.ceil_lt_add_one ((M : ℚ) / (m + 1))
  have share : (1 : ℚ) / (m + 1) = M / (m + 1) / M := by field_simp
  rw [count', share, ← sub_div, abs_div, abs_of_pos cell, abs_of_nonneg (by linarith)]
  exact div_le_div_of_nonneg_right (by linarith) cell.le

/-- The cells with a low remainder, over whole blocks. -/
theorem hits_below {size bound : Nat} (fits : bound ≤ size) (blocks : Nat) :
    hits (size * blocks) (fun x => x % size < bound) = bound * blocks := by
  rw [hits, ← Nat.count_eq_card_filter_range]
  induction blocks with
  | zero => simp
  | succ blocks ih =>
    have block : (Nat.count (fun x => (size * blocks + x) % size < bound) size) = bound := by
      rw [Nat.count_eq_card_filter_range]
      have same : (Finset.range size).filter (fun x => (size * blocks + x) % size < bound) =
          Finset.range bound := by
        ext x
        rw [Finset.mem_filter, Finset.mem_range, Finset.mem_range, Nat.mul_add_mod]
        constructor
        · rintro ⟨inside, low⟩
          rwa [Nat.mod_eq_of_lt inside] at low
        · intro low
          exact ⟨low.trans_le fits, (Nat.mod_le _ _).trans_lt low⟩
      rw [same, Finset.card_range]
    rw [Nat.mul_succ, Nat.count_add, ih, block, Nat.mul_succ]

end Chance

/-! ### Means -/

section Mean

variable {M n : Nat}

/-- The mean of a number over the tapes of `n` cells below `M`. -/
def mean (M n : Nat) (f : (Nat → Nat) → ℚ) : ℚ :=
  (∑ cells : Fin n → Fin M, f (ofCells cells)) / M ^ n

/-- The mean of a bounded count is the sum of the chances that it exceeds each number. -/
theorem mean_layers {f : (Nat → Nat) → Nat} {bound : Nat} (low : ∀ rand, f rand ≤ bound) :
    mean M n (fun rand => f rand) =
      ∑ k ∈ Finset.range bound, chance M n fun rand => k < f rand := by
  classical
  have layers (rand : Nat → Nat) :
      (f rand : ℚ) = ∑ k ∈ Finset.range bound, if k < f rand then 1 else 0 := by
    have same : (Finset.range bound).filter (· < f rand) = Finset.range (f rand) := by
      ext k
      rw [Finset.mem_filter, Finset.mem_range, Finset.mem_range]
      exact and_iff_right_of_imp fun below => below.trans_le (low rand)
    rw [Finset.sum_boole, same, Finset.card_range]
  unfold mean chance
  simp only [layers]
  rw [Finset.sum_comm, Finset.sum_div]
  exact Finset.sum_congr rfl fun k _ => by congr!

end Mean

end Tape
