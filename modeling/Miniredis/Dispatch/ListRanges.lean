/-
**Ranges of lists and strings, and removal from lists.**

* `list_slices_agree` — `LRANGE` and `GETRANGE` answer with the elements between two positions, and
  `LTRIM` leaves these, in memory by detaching and popping single nodes.
* `lrem_exact` — `LREM` takes out the first, the last or all occurrences of a value and nothing
  else, walking the list from either end.
-/

import Miniredis.Dispatch.Keyed
import Miniredis.Dispatch.Expiration
import Miniredis.Structures.LinkedList

namespace Miniredis

/-! ### Ranges -/

section Ranges

variable {env : Env} {db : Db} {key a b : Bytes} {low high : Int}

/-- An array of values. -/
def replyList (values : List Bytes) : Bytes :=
  replyArrayHeader values.length ++ values.flatMap replyBulk

/-- `GETRANGE` brings its range into the string in its own order of steps. -/
theorem getrangeReply_eq (low high : Int) (s : Bytes) :
    getrangeReply low high s = replyBulk (rangeOf s low high) := by
  rw [rangeOf_eq]
  unfold getrangeReply
  dsimp only
  cases range : rangeNormalize s.length low high with
  | none =>
    unfold rangeNormalize at range
    dsimp only at range
    rw [if_pos]
    · rfl
    · split_ifs at range ⊢ <;> omega
  | some bounds =>
    obtain ⟨first, last⟩ := bounds
    unfold rangeNormalize at range
    dsimp only at range
    rw [if_neg]
    · split_ifs at range ⊢
      all_goals
        simp only [Option.some.injEq, Prod.mk.injEq] at range
        rw [range.1, range.2]
    · split_ifs at range ⊢
      all_goals
        simp only [Option.some.injEq, Prod.mk.injEq] at range
        omega

/-- The same indices in `long long`s. -/
theorem getrangeChecked_eq {s : Bytes} (few : s.length < 2 ^ 63)
    (low_fits : -(llongMax : Int) ≤ low ∧ low ≤ llongMax)
    (high_fits : -(llongMax : Int) ≤ high ∧ high ≤ llongMax) :
    getrangeChecked low high s = some (getrangeReply low high s) := by
  have few' : (s.length : Int) < 2 ^ 63 := by exact_mod_cast few
  have limit : (llongMax : Int) = 2 ^ 63 - 1 := by decide
  unfold getrangeChecked getrangeReply
  dsimp only
  rw [toLongLong_ofNat few, checkedIf_of_range fun _ => by omega,
    checkedIf_of_range fun _ => by omega]
  simp only [Option.bind_eq_bind, Option.bind_some]
  rw [checkedIf_of_range fun _ => by omega]
  simp only [Option.bind_some]
  generalize (if low < 0 then (s.length : Int) + low else low) = index
  generalize (if high < 0 then (s.length : Int) + high else high) = index'
  generalize bottom : (if index < 0 then 0 else index) = first
  generalize top : (if index' ≥ s.length then (s.length : Int) - 1 else index') = last
  have lowest : 0 ≤ first := by
    rw [← bottom]
    split <;> omega
  have highest : last < s.length := by
    rw [← top]
    split <;> omega
  split
  · rfl
  · rw [rangeCount_eq lowest (by omega) (by omega)]
    rfl

theorem cmdLtrim_eq (first : stringToLl a = some low) (second : stringToLl b = some high)
    (name : Bytes) : cmdLtrim env db [name, key, a, b] =
      onKey (env.now 0) db key (ltrimBody low high) := by
  simp [cmdLtrim, arg, first, second]

theorem cmdLrange_slice {values : List Bytes} {expireAt : Int}
    (holds : live (env.now 0) db key = some ⟨.list values, expireAt⟩)
    (first : stringToLl a = some low) (second : stringToLl b = some high) (name : Bytes) :
    (cmdLrange env db [name, key, a, b]).2 = replyList (rangeOf values low high) := by
  unfold cmdLrange
  rw [if_neg (by simp), show arg [name, key, a, b] 2 = a from rfl,
    show arg [name, key, a, b] 3 = b from rfl, first, second]
  dsimp only
  rw [(onKey_live ..).2, show arg [name, key, a, b] 1 = key from rfl, holds, rangeOf_eq]
  simp only [Kind.read, Kind.body, listKind]
  cases range : rangeNormalize values.length low high with
  | none => rfl
  | some bounds =>
    obtain ⟨lowest, ordered, highest⟩ := rangeNormalize_some range
    rw [replyList, length_slice lowest ordered highest]

/-- `LTRIM` writes the slice in place, or removes the key when there is none. -/
theorem cmdLtrim_slice {values : List Bytes} {expireAt : Int}
    (holds : live (env.now 0) db key = some ⟨.list values, expireAt⟩)
    (first : stringToLl a = some low) (second : stringToLl b = some high) (name : Bytes) :
    (cmdLtrim env db [name, key, a, b]).2 = replyOk ∧
      live (env.now 0) (cmdLtrim env db [name, key, a, b]).1 =
        Function.update (live (env.now 0) db) key
          (if rangeOf values low high = [] then none
          else some ⟨.list (rangeOf values low high), expireAt⟩) := by
  rw [cmdLtrim_eq first second, (onKey_live ..).1, (onKey_live ..).2, holds, rangeOf_eq]
  simp only [ltrimBody, Kind.body, listKind]
  cases range : rangeNormalize values.length low high with
  | none => exact ⟨rfl, rfl⟩
  | some bounds =>
    obtain ⟨lowest, ordered, highest⟩ := rangeNormalize_some range
    have size := length_slice lowest ordered highest
    have filled : slice values bounds.1 bounds.2 ≠ [] := fun empty => by
      rw [empty, List.length_nil] at size
      omega
    refine ⟨rfl, ?_⟩
    dsimp only
    rw [if_neg filled, Update.act, holds, Option.bind_some, seen_same holds]

theorem cmdGetrange_slice {s : Bytes} {expireAt : Int}
    (holds : live (env.now 0) db key = some ⟨.string s, expireAt⟩)
    (first : stringToLl a = some low) (second : stringToLl b = some high) (name : Bytes) :
    (cmdGetrange env db [name, key, a, b]).2 = replyBulk (rangeOf s low high) := by
  unfold cmdGetrange
  rw [if_neg (by simp), show arg [name, key, a, b] 2 = a from rfl,
    show arg [name, key, a, b] 3 = b from rfl, first, second]
  dsimp only
  rw [(onKey_live ..).2, show arg [name, key, a, b] 1 = key from rfl, holds, ← getrangeReply_eq]
  rfl

/-- **`LRANGE`, `LTRIM` and `GETRANGE` take the same slice.** In memory no index leaves `long long`,
and no loop leaves the list. -/
theorem list_slices_agree (first : stringToLl a = some low) (second : stringToLl b = some high) :
    (∀ values expireAt, live (env.now 0) db key = some ⟨.list values, expireAt⟩ → ∀ name,
      (cmdLrange env db [name, key, a, b]).2 = replyList (rangeOf values low high) ∧
      (cmdLtrim env db [name, key, a, b]).2 = replyOk ∧
      live (env.now 0) (cmdLtrim env db [name, key, a, b]).1 =
        Function.update (live (env.now 0) db) key
          (if rangeOf values low high = [] then none
          else some ⟨.list (rangeOf values low high), expireAt⟩) ∧
      ∀ l, Carries l values → values.length < 2 ^ 63 →
        l.lrange low high = some (replyList (rangeOf values low high)) ∧
        if rangeOf values low high = [] then l.ltrim low high = some none
        else ∃ l', l.ltrim low high = some (some l') ∧ Carries l' (rangeOf values low high)) ∧
    ∀ s expireAt, live (env.now 0) db key = some ⟨.string s, expireAt⟩ → ∀ name,
      (cmdGetrange env db [name, key, a, b]).2 = replyBulk (rangeOf s low high) ∧
      (s.length < 2 ^ 63 → getrangeChecked low high s = some (replyBulk (rangeOf s low high))) := by
  have fits := stringToLl_range first
  have fits' := stringToLl_range second
  refine ⟨fun values expireAt holds name => ?_, fun s expireAt holds name => ⟨?_, fun few => ?_⟩⟩
  · obtain ⟨reply, trimmed⟩ := cmdLtrim_slice holds first second name
    refine ⟨cmdLrange_slice holds first second name, reply, trimmed, fun l carries few => ?_⟩
    exact ⟨carries.lrange few fits fits', carries.ltrim few fits fits'⟩
  · exact cmdGetrange_slice holds first second name
  · rw [getrangeChecked_eq few fits fits', getrangeReply_eq]

/-- Three values, the middle one pushed last. -/
def samplePushes : List ListCall :=
  [.pushHead (text "a"), .pushTail (text "c"), .insertAfter 0 (text "b"), .popHead,
    .pushHead (text "a")]

theorem list_slices_agree_sample :
    (cmdLrange sampleEnv (singleStore "l" (.list (["a", "b", "c"].map text)))
        (["LRANGE", "l", "-2", "9"].map text)).2 =
      replyList (rangeOf (["a", "b", "c"].map text) (-2) 9) ∧
    ∃ l, samplePushes.foldlM LinkedList.call DoublyLinked.create = some l ∧
      ∃ l', l.ltrim (-2) 9 = some (some l') ∧
        Carries l' (rangeOf (["a", "b", "c"].map text) (-2) 9) := by
  obtain ⟨range, _, _, memory⟩ := (list_slices_agree
    (show stringToLl (text "-2") = some (-2) by decide)
    (show stringToLl (text "9") = some 9 by decide)).1 _ _
    (live_singleStore (sampleEnv.now 0) "l" (.list (["a", "b", "c"].map text))) (text "LRANGE")
  obtain ⟨l, ran, carries⟩ := list_carries samplePushes (by decide)
  have trimmed := (memory l carries (by decide)).2
  rw [if_neg (by decide)] at trimmed
  exact ⟨range, l, ran, trimmed⟩

end Ranges

/-! ### Removal -/

section Removal

variable {env : Env} {db : Db} {key a target : Bytes} {values : List Bytes} {count expireAt : Int}

/-- A list without the first `k` occurrences of a value. -/
def withoutFirst (target : Bytes) (k : Nat) (values : List Bytes) : List Bytes :=
  (fun rest => rest.erase target)^[k] values

theorem withoutFirst_other {v : Bytes} (other : v ≠ target) (k : Nat) (rest : List Bytes) :
    withoutFirst target k (v :: rest) = v :: withoutFirst target k rest := by
  induction k generalizing rest with
  | zero => rfl
  | succ k ih =>
    unfold withoutFirst at ih ⊢
    rw [Function.iterate_succ_apply, Function.iterate_succ_apply, ← ih]
    rw [List.erase_cons_tail (by simpa using other)]

/-- Without all of them. -/
theorem withoutFirst_all (target : Bytes) (values : List Bytes) :
    withoutFirst target (values.count target) values = values.filter (· ≠ target) := by
  induction values with
  | nil => rfl
  | cons v rest ih =>
    by_cases hit : v = target
    · subst hit
      rw [List.count_cons_self, withoutFirst, Function.iterate_succ_apply, List.erase_cons_head,
        List.filter_cons_of_neg (by simp)]
      exact ih
    · rw [List.count_cons_of_ne (by simpa using hit), withoutFirst_other hit, ih,
        List.filter_cons_of_pos (by simpa using hit)]

/-- The occurrences that a loop of `LREM` still takes, after some. -/
def quota (limit : Option Nat) (removed occurrences : Nat) : Nat :=
  match limit with
  | none => occurrences
  | some most => min (most - removed) occurrences

/-- **The loop of `LREM` takes out the first occurrences, as many as it may.** -/
theorem lremLoop_eq (target : Bytes) (limit : Option Nat) (removed : Nat) (values : List Bytes) :
    lremLoop target limit removed values =
      (withoutFirst target (quota limit removed (values.count target)) values,
        removed + quota limit removed (values.count target)) := by
  induction values generalizing removed with
  | nil =>
    have none : quota limit removed 0 = 0 := by cases limit <;> simp [quota]
    rw [lremLoop, List.count_nil, none]
    rfl
  | cons v rest ih =>
    unfold lremLoop
    by_cases stops : limit.any (· ≤ removed) = true
    · have none : quota limit removed ((v :: rest).count target) = 0 := by
        cases limit with
        | none => cases stops
        | some most =>
          simp only [Option.any_some, decide_eq_true_eq] at stops
          simp [quota]
          omega
      rw [if_pos stops, none]
      rfl
    · rw [if_neg stops]
      by_cases hit : v = target
      · subst hit
        have more : quota limit removed ((v :: rest).count v) =
            quota limit (removed + 1) (rest.count v) + 1 := by
          rw [List.count_cons_self]
          cases limit with
          | none => rfl
          | some most =>
            simp only [Option.any_some, decide_eq_true_eq, not_le] at stops
            simp only [quota]
            omega
        rw [if_pos rfl, ih, more, withoutFirst, withoutFirst, Function.iterate_succ_apply,
          List.erase_cons_head]
        congr 1
        omega
      · rw [if_neg hit, ih, List.count_cons_of_ne (by simpa using hit), withoutFirst_other hit]

/-- The number of occurrences that a count asks for. -/
def wanted (count : Int) (occurrences : Nat) : Nat :=
  if count = 0 then occurrences else min count.natAbs occurrences

/-- The list without them: a negative count takes them from the end. -/
def removedFrom (count : Int) (target : Bytes) (values : List Bytes) : List Bytes :=
  if count < 0 then
    (withoutFirst target (wanted count (values.count target)) values.reverse).reverse
  else withoutFirst target (wanted count (values.count target)) values

theorem lremList_eq (count : Int) (target : Bytes) (values : List Bytes) :
    lremList count target values = (removedFrom count target values,
      replyInteger (wanted count (values.count target))) := by
  unfold lremList removedFrom
  by_cases forward : count ≥ 0
  · have same : quota (if count = 0 then none else some count.toNat) 0 (values.count target) =
        wanted count (values.count target) := by
      unfold quota wanted
      split_ifs
      · rfl
      · simp only []
        omega
    have positive : ¬ count < 0 := by omega
    rw [if_pos forward, if_neg positive, lremLoop_eq, same, Nat.zero_add]
  · have same : quota (some (-count).toNat) 0 (values.reverse.count target) =
        wanted count (values.count target) := by
      rw [List.count_reverse]
      unfold quota wanted
      rw [if_neg (by omega)]
      simp only []
      omega
    have negative : count < 0 := by omega
    rw [if_neg forward, if_pos negative, lremLoop_eq, same, Nat.zero_add]

/-- A negative count removes from the end. -/
theorem removedFrom_negative {count : Int} (negative : count < 0) (target : Bytes)
    (values : List Bytes) :
    removedFrom count target values = (removedFrom (-count) target values.reverse).reverse := by
  have same : wanted (-count) (values.reverse.count target) =
      wanted count (values.count target) := by
    rw [List.count_reverse]
    unfold wanted
    split_ifs <;> omega
  have positive : ¬ -count < 0 := by omega
  rw [removedFrom, removedFrom, if_pos negative, if_neg positive, same]

/-- **`LREM` removes exactly the occurrences asked for.** In memory both directions free nodes while
they walk; the negation of the count does not overflow. -/
theorem lrem_exact (holds : live (env.now 0) db key = some ⟨.list values, expireAt⟩)
    (parsed : stringToLl a = some count) (target name : Bytes) :
    (cmdLrem env db [name, key, a, target]).2 =
        replyInteger (wanted count (values.count target)) ∧
      live (env.now 0) (cmdLrem env db [name, key, a, target]).1 =
        Function.update (live (env.now 0) db) key
          (if removedFrom count target values = [] then none
          else some ⟨.list (removedFrom count target values), expireAt⟩) ∧
      (count < 0 → removedFrom count target values =
        (removedFrom (-count) target values.reverse).reverse) ∧
      (count = 0 → removedFrom count target values = values.filter (· ≠ target)) ∧
      checked (-count) = some (-count) ∧
      ∀ l, Carries l values → values.length < 2 ^ 63 →
        ∃ l', l.lrem count target = some (l', (wanted count (values.count target) : Int)) ∧
          Carries l' (removedFrom count target values) := by
  have fits := stringToLl_range parsed
  have limit : (llongMax : Int) = 2 ^ 63 - 1 := by decide
  have handler : cmdLrem env db [name, key, a, target] = onKey (env.now 0) db key
      (listKind.shrink (replyInteger 0) (lremList count target)) := by
    simp [cmdLrem, arg, parsed]
  have decided : listKind.shrink (replyInteger 0) (lremList count target)
      (some ⟨.list values, expireAt⟩) =
        (maybeDeleteKey ⟨.list (removedFrom count target values), expireAt⟩,
          replyInteger (wanted count (values.count target))) := by
    show (maybeDeleteKey ⟨.list (lremList count target values).1, expireAt⟩,
      (lremList count target values).2) = _
    rw [lremList_eq]
  refine ⟨?_, ?_, fun negative => ?_, fun zero => ?_, checked_of_range (by omega) (by omega),
    fun l carries few => ?_⟩
  · rw [handler, (onKey_live ..).2, holds, decided]
  · rw [handler, (onKey_live ..).1, holds, decided]
    unfold maybeDeleteKey
    by_cases empty : removedFrom count target values = []
    · rw [if_pos empty, if_pos (by simp [Value.isEmpty, empty])]
      rfl
    · rw [if_neg empty, if_neg (by simpa [Value.isEmpty] using empty), Update.act, holds,
        Option.bind_some, seen_same holds]
  · exact removedFrom_negative negative target values
  · subst zero
    exact withoutFirst_all target values
  · obtain ⟨l', removed, walked, after, counted⟩ := carries.lrem few fits target
    rw [lremList_eq] at after counted
    rw [replyInteger_injective counted]
    exact ⟨l', walked, after⟩

theorem lrem_exact_sample :
    (cmdLrem sampleEnv (singleStore "l" (.list (["a", "b", "a", "a"].map text)))
        (["LREM", "l", "-2", "a"].map text)).2 = replyInteger 2 ∧
      removedFrom (-2) (text "a") (["a", "b", "a", "a"].map text) = ["a", "b"].map text ∧
      checked (- -2) = some 2 := by
  obtain ⟨reply, _, _, _, negated, _⟩ := lrem_exact
    (live_singleStore (sampleEnv.now 0) "l" (.list (["a", "b", "a", "a"].map text)))
    (show stringToLl (text "-2") = some (-2) by decide) (text "a") (text "LREM")
  exact ⟨reply, by decide, negated⟩

end Removal

end Miniredis
