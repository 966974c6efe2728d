/-
**`SPOP` draws nearly uniformly (`db.c`, `dict.c`).**

Each draw of `SPOP` walks the whole table anew, and the table has lost what was drawn before. Over
independent outcomes of `rand()`, uniform below `M`, every sequence of distinct members is then the
reply with nearly the same chance.

* `drawsFor` — the outcomes a pop consumes: one for each entry at each draw.
* `spopLoop_near` — the loop, draw by draw.
* `spop_near_uniform` — the reply: for `k` of `n` members, each of the `n (n - 1) ⋯ (n - k + 1)`
  sequences is off its share by `k n / M` at most.
-/

import Miniredis.Structures.Sampling
import Miniredis.Dispatch.SetPops
import Miniredis.Dispatch.KeysListing

namespace Miniredis

open Tape (chance)

/-! ### The loop -/

section Loop

variable {M : Nat} {s : Dict Unit} {popped : List Bytes} {member : Bytes}

/-- The outcomes of `rand()` that `k` draws from `n` entries consume. -/
def drawsFor : Nat → Nat → Nat
  | 0, _ => 0
  | k + 1, n => n + drawsFor k (n - 1)

/-- The loop yields a member first if the first draw does, and the rest from what is left. -/
theorem spopLoop_cons (k : Nat) (rand : Nat → Nat) :
    (spopLoop (k + 1) s rand).1 = member :: popped ↔
      (dictRandomEntry s rand).1 = some (member, ()) ∧
        (spopLoop k (s.delete member).2 (dictRandomEntry s rand).2).1 = popped := by
  rw [spopLoop]
  rcases dictRandomEntry s rand with ⟨_ | ⟨first, _⟩, later⟩
  · simp
  · dsimp only
    rw [List.cons.injEq, Option.some.injEq, Prod.mk.injEq, and_iff_left rfl]
    exact and_congr_right fun same => by rw [same]

/-- **Each sequence of distinct members is drawn with nearly the same chance.** -/
theorem spopLoop_near (positive : 0 < M) (distinct : popped.Nodup)
    (members : ∀ member ∈ popped, (s.get member).isSome) :
    |chance M (drawsFor popped.length (dictSize s))
        (fun rand => (spopLoop popped.length s rand).1 = popped) -
      1 / (dictSize s).descFactorial popped.length| ≤ popped.length * dictSize s / M := by
  induction popped generalizing s with
  | nil =>
    have all : chance M 0 (fun rand => (spopLoop 0 s rand).1 = []) = 1 :=
      Tape.chance_always positive fun _ => rfl
    simp [drawsFor, all]
  | cons member popped ih =>
    obtain ⟨fresh, distinct⟩ := List.nodup_cons.mp distinct
    have present := members member List.mem_cons_self
    have size : dictSize (s.delete member).2 + 1 = dictSize s := s.used_delete member present
    have rest := @ih (s.delete member).2 distinct fun other inside => by
      rw [HashTable.Table.get_delete, if_neg (by rintro rfl; exact fresh inside)]
      exact members other (List.mem_cons_of_mem _ inside)
    have first := random_entry_near_uniform positive (Option.eq_some_of_isSome present)
    have factor : 1 / ((dictSize s).descFactorial (popped.length + 1) : ℚ) =
        1 / dictSize s * (1 / (dictSize (s.delete member).2).descFactorial popped.length) := by
      rw [← size, Nat.succ_descFactorial_succ]
      push_cast
      rw [one_div_mul_one_div]
    have share : 1 / (dictSize s : ℚ) ≤ 1 := by
      rw [← size, div_le_one (by positivity)]
      push_cast
      linarith [show (0 : ℚ) ≤ dictSize (s.delete member).2 by positivity]
    have less : (dictSize (s.delete member).2 : ℚ) ≤ dictSize s := by
      rw [← size]
      exact_mod_cast Nat.le_succ _
    have filled : dictSize s ≠ 0 := by omega
    have draws : drawsFor (popped.length + 1) (dictSize s) =
        dictSize s + drawsFor popped.length (dictSize (s.delete member).2) := by
      rw [drawsFor, ← size, Nat.add_sub_cancel]
    rw [List.length_cons, Tape.chance_congr (spopLoop_cons popped.length), draws,
      random_entry_bind positive filled _ fun rand =>
        (spopLoop popped.length (s.delete member).2 rand).1 = popped, factor]
    refine (near_mul first rest Tape.chance_nonneg Tape.chance_le_one (by positivity)
      share).trans ?_
    calc (dictSize s : ℚ) / M + popped.length * dictSize (s.delete member).2 / M
        ≤ dictSize s / M + popped.length * dictSize s / M := by gcongr
      _ = (popped.length + 1 : Nat) * dictSize s / M := by
        push_cast
        ring

end Loop

/-! ### The reply -/

section Reply

variable {count : Int} {s : Dict Unit} {rand : Nat → Nat} {popped : List Bytes}

/-- A reply with the right number of members says which they are. -/
theorem popReply_injective {popped' : List Bytes} (length : popped.length = popped'.length)
    (single : count = 1 → popped.length ≤ 1) :
    popReply count popped = popReply count popped' ↔ popped = popped' := by
  refine ⟨fun same => ?_, fun same => same ▸ rfl⟩
  unfold popReply at same
  split_ifs at same with one
  · have short := single one
    rcases popped with _ | ⟨member, rest⟩
    · exact (List.length_eq_zero_iff.mp length.symm).symm
    · obtain rfl : rest = [] := List.length_eq_zero_iff.mp (Nat.le_zero.mp (by simpa using short))
      obtain ⟨member', rfl⟩ := List.length_eq_one_iff.mp length.symm
      refine bulks_injective ?_
      simpa [replyField] using same
  · rw [replyMembers, replyMembers, length] at same
    exact bulks_injective (List.append_cancel_left same)

/-- `SPOP` replies with what the loop draws, a single pop too. -/
theorem spopBody_reply (low : 0 ≤ count) (expireAt : Int) :
    (spopBody count rand (some ⟨.set s, expireAt⟩)).2 =
      popReply count (spopLoop (min count (dictSize s)).toNat s rand).1 := by
  show (if count = 1 then _ else _ : Update × Bytes).2 = _
  unfold popReply
  by_cases one : count = 1
  · rw [if_pos one, if_pos one, one]
    by_cases empty : dictSize s = 0
    · have nothing : dictRandomEntry s rand = (none, rand) := if_pos empty
      rw [nothing, empty]
      rfl
    · obtain ⟨⟨member, _⟩, drawn, _⟩ := dictRandomEntry_some s rand empty
      have once : (min (1 : Int) (dictSize s)).toNat = 1 := by omega
      have yields := (@spopLoop_cons s [] member 0 rand).mpr ⟨drawn, rfl⟩
      rw [once, yields, drawn]
      rfl
  · rw [if_neg one, if_neg one]
    have least : (if count < dictSize s then count.toNat else dictSize s) =
        (min count (dictSize s)).toNat := by
      split_ifs <;> omega
    obtain ⟨length, _⟩ := spopLoop_counts (min count (dictSize s)).toNat s rand (by omega)
    rw [replyMembers, length, ← least]

end Reply

/-! ### `SPOP` -/

/-- **`SPOP` draws nearly uniformly.** -/
theorem spop_near_uniform {M : Nat} (positive : 0 < M) {env : Env} {db : Db} {argv : Argv}
    {count expireAt : Int} {s : Dict Unit} (long : 2 ≤ argv.length) (short : argv.length ≤ 3)
    (accepted : popCount argv = some count)
    (found : live (env.now 0) db (arg argv 1) = some ⟨.set s, expireAt⟩) {popped : List Bytes}
    (distinct : popped.Nodup) (members : ∀ member ∈ popped, (s.get member).isSome)
    (length : (popped.length : Int) = min count (dictSize s)) :
    |chance M (drawsFor popped.length (dictSize s))
        (fun rand => (cmdSpop { env with rand := rand } db argv).2 = popReply count popped) -
      1 / (dictSize s).descFactorial popped.length| ≤ popped.length * dictSize s / M := by
  have low := popCount_nonneg accepted
  have same (rand : Nat → Nat) :
      (cmdSpop { env with rand := rand } db argv).2 = popReply count popped ↔
        (spopLoop popped.length s rand).1 = popped := by
    have run : cmdSpop { env with rand := rand } db argv =
        onKey (env.now 0) db (arg argv 1) (spopBody count rand) := by
      rw [cmdSpop, if_neg (by omega), accepted]
    have size : (min count (dictSize s)).toNat = popped.length := by omega
    obtain ⟨drawn, _⟩ := spopLoop_counts popped.length s rand (by omega)
    rw [run, (onKey_live ..).2, found, spopBody_reply low, size]
    exact popReply_injective drawn fun one => by omega
  rw [Tape.chance_congr same]
  exact spopLoop_near positive distinct members

/-- From a set of two members, `SPOP k 2` replies in either order about half of the time. -/
theorem spop_pair_near_half :
    let s := (((dictCreate sampleSeed : Dict Unit).set (text "a") ()).2.set (text "b") ()).2
    |chance (2 ^ 31) 3 (fun rand =>
        (cmdSpop { sampleEnv with rand := rand } (singleStore "k" (.set s))
          (["spop", "k", "2"].map text)).2 = popReply 2 [text "b", text "a"]) - 1 / 2| ≤
      4 / 2 ^ 31 := by
  intro s
  have size : dictSize s = 2 := by decide
  have near := @spop_near_uniform (2 ^ 31) (by decide) sampleEnv (singleStore "k" (.set s))
    (["spop", "k", "2"].map text) 2 (-1) s (by decide) (by decide) (by decide)
    (live_singleStore _ _ _) [text "b", text "a"] (by decide) (by decide) (by decide)
  rw [size] at near
  norm_num [drawsFor, Nat.descFactorial] at near ⊢
  exact near

end Miniredis
