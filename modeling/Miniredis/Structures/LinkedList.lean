/-
**Lists in memory carry the list of their values.**

`Carries` relates a linked list to the values from head to tail; what `list.c` does keeps it, and
the loops of the commands follow the pointers to the places that the values say.

* `list_carries` — after any calls of `list.c` the list carries what the calls say.
* `Carries.lrange`, `Carries.ltrim`, `Carries.lrem` — the commands on the object do what the command
  models do on the values, without undefined behaviour.
-/

import Miniredis.Model.ListWalks
import Miniredis.Structures.Ranges

namespace Miniredis

open DoublyLinked (Holds orient)
open Links (start)

/-- The values of a list in memory. -/
def Carries (l : LinkedList) (values : List Bytes) : Prop :=
  ∃ cells, Holds l cells ∧ cells.map Prod.snd = values

section Walks

variable {l : LinkedList} {cells : List (Nat × Bytes)}

/-- The length that the commands see. -/
theorem longLen (holds : Holds l cells) (few : cells.length < 2 ^ 63) :
    toLongLong l.len = cells.length := by
  rw [holds.len, toLongLong_ofNat few]

/-- **`list_node_at` finds the node at a position**, from whichever end it starts. -/
theorem nodeAt_spec (holds : Holds l cells) (few : cells.length < 2 ^ 63) (i : Nat) :
    l.nodeAt i = some (start (cells.drop i)) := by
  have few' : (cells.length : Int) < 2 ^ 63 := by exact_mod_cast few
  unfold LinkedList.nodeAt
  dsimp only
  rw [longLen holds few, checkedIf_of_range fun negative => by omega, if_neg (by omega)]
  simp only [Option.bind_eq_bind, Option.bind_some]
  by_cases outside : (i : Int) < 0 ∨ (i : Int) ≥ cells.length
  · rw [if_pos outside, List.drop_eq_nil_of_le (by omega)]
    rfl
  · rw [if_neg outside]
    split
    · rw [holds.head, Int.toNat_natCast]
      exact (holds.leads false).advance (by simp [orient]; omega)
    · rw [checked_of_range (by omega) (by omega), Option.bind_some,
        show l.tail = start (orient true cells) from holds.first true,
        (holds.leads true).advance (by simp [orient]; omega), Links.start_drop, Links.start_drop]
      simp only [orient, if_true]
      rw [List.getElem?_reverse (by omega)]
      congr 3
      omega

/-- The front loop of `LTRIM`. -/
theorem trimFront_spec (holds : Holds l cells) {i : Nat} (inside : i ≤ cells.length) :
    ∃ l', LinkedList.trimFront i (start cells) l = some l' ∧ Holds l' (cells.drop i) := by
  induction i generalizing l cells with
  | zero => exact ⟨l, rfl, holds⟩
  | succ i ih =>
    cases cells with
    | nil => cases inside
    | cons cell rest =>
      obtain ⟨_, here, _⟩ := @Holds.split Bytes l [] rest cell.1 cell.2 holds
      obtain ⟨l', taken, after, _⟩ :=
        @DoublyLinked.detach_spec Bytes l [] rest cell.1 cell.2 holds
      obtain ⟨l'', rest', last⟩ := ih after (Nat.le_of_succ_le_succ inside)
      refine ⟨l'', ?_, last⟩
      simp only [start, List.head?_cons, Option.map_some, LinkedList.trimFront, here, taken,
        Option.bind_eq_bind, Option.bind_some]
      exact rest'

/-- The back loop of `LTRIM`: popping one node at a time down to the length wanted. -/
theorem trimBack_spec (holds : Holds l cells) (few : cells.length < 2 ^ 63) (target fuel : Nat)
    (enough : cells.length ≤ target + fuel) :
    ∃ l', LinkedList.trimBack target fuel l = some l' ∧ Holds l' (cells.take target) := by
  induction fuel generalizing l cells with
  | zero =>
    refine ⟨l, ?_, by rwa [List.take_of_length_le (by omega)]⟩
    rw [LinkedList.trimBack, longLen holds few, if_neg (by omega)]
  | succ fuel ih =>
    rw [LinkedList.trimBack, longLen holds few]
    split
    · rename_i more
      rcases List.eq_nil_or_concat cells with rfl | ⟨front, last, rfl⟩
      · simp at more
        omega
      · rw [List.concat_eq_append] at holds few enough more ⊢
        rw [List.length_append, List.length_singleton] at few enough more
        obtain ⟨l', popped, after, _⟩ :=
          @DoublyLinked.popTail_spec Bytes l front last.1 last.2 holds
        obtain ⟨l'', rest, trimmed⟩ := ih after (by omega) (by omega)
        refine ⟨l'', ?_, ?_⟩
        · rw [popped]
          exact rest
        · rwa [List.take_append_of_le_length (by omega)]
    · rename_i short
      exact ⟨l, rfl, by rwa [List.take_of_length_le (by omega)]⟩

theorem orient_orient (back : Bool) (cells : List (Nat × Bytes)) :
    orient back (orient back cells) = cells := by
  cases back
  · rfl
  · exact List.reverse_reverse cells

/-- **The loop of `LREM`, in either direction.** What is behind the walk (`done`) is kept, what lies
before it (`todo`) is what the loop on the values makes of it. -/
theorem remLoop_spec (target : Bytes) (goes : Int → Bool) (limit : Option Nat)
    (agree : ∀ removed : Nat, goes removed = !limit.any (· ≤ removed)) (back : Bool) (fuel : Nat)
    (done todo : List (Nat × Bytes)) (holds : Holds l (orient back (done ++ todo)))
    (enough : todo.length ≤ fuel) (removed : Nat) (few : removed + todo.length < 2 ^ 63) :
    ∃ l' kept, LinkedList.remLoop target goes back fuel (start todo) removed l =
        some (l', ((lremLoop target limit removed (todo.map Prod.snd)).2 : Int)) ∧
      Holds l' (orient back (done ++ kept)) ∧
      kept.map Prod.snd = (lremLoop target limit removed (todo.map Prod.snd)).1 := by
  induction todo generalizing fuel done removed l with
  | nil => exact ⟨l, [], by cases fuel <;> rfl, holds, rfl⟩
  | cons cell rest ih =>
    obtain ⟨fuel, rfl⟩ : ∃ more, fuel = more + 1 := ⟨fuel - 1, by simp at enough; omega⟩
    rw [List.length_cons] at enough few
    have few' : (removed : Int) + 1 < 2 ^ 63 := by
      have : removed + 1 < 2 ^ 63 := by omega
      exact_mod_cast this
    have leads := holds.leads back
    rw [orient_orient] at leads
    have read : l.read back cell.1 = some (cell.2, start rest) := by
      have here := leads.drop done.length
      rw [List.drop_left] at here
      exact here.1
    simp only [start, List.head?_cons, Option.map_some, LinkedList.remLoop, List.map_cons,
      lremLoop, agree]
    by_cases stops : limit.any (· ≤ removed) = true
    · refine ⟨l, cell :: rest, ?_, holds, ?_⟩
      · simp only [stops, Bool.not_true, Bool.false_eq_true, if_false, if_true]
      · simp only [stops, if_true, List.map_cons]
    · simp only [stops, Bool.not_false, if_true, read, Option.bind_eq_bind, Option.bind_some,
        Bool.false_eq_true, if_false]
      by_cases hit : cell.2 = target
      · obtain ⟨l', taken, after, _⟩ := @Holds.detach Bytes l done rest cell.1 cell.2 back holds
        obtain ⟨l'', kept, walked, last, values⟩ := ih fuel _ after (by omega) (removed + 1)
          (by omega)
        refine ⟨l'', kept, ?_, last, ?_⟩
        · rw [if_pos hit, if_pos hit, taken, Option.bind_some,
            checked_of_range (by omega) (by omega)]
          exact walked
        · rw [if_pos hit]
          exact values
      · have shift : done ++ cell :: rest = (done ++ [cell]) ++ rest := by simp
        obtain ⟨l', kept, walked, last, values⟩ := ih fuel _ (shift ▸ holds) (by omega) removed
          (by omega)
        refine ⟨l', cell :: kept, ?_, by simpa using last, ?_⟩
        · rw [if_neg hit, if_neg hit]
          exact walked
        · rw [if_neg hit, List.map_cons, values]

end Walks

/-! ### Calls of `list.c` -/

section Calls

variable {l : LinkedList} {values : List Bytes}

/-- What a call makes of the values. -/
def valuesAfter (values : List Bytes) : ListCall → List Bytes
  | .pushHead value => value :: values
  | .pushTail value => values ++ [value]
  | .popHead => values.tail
  | .popTail => values.dropLast
  | .insertAfter i value =>
    if i < values.length then values.insertIdx (i + 1) value else value :: values
  | .detach i => values.eraseIdx i

theorem length_valuesAfter (values : List Bytes) (call : ListCall) :
    (valuesAfter values call).length ≤ values.length + 1 := by
  cases call with
  | pushHead value => simp [valuesAfter]
  | pushTail value => simp [valuesAfter]
  | popHead => simp [valuesAfter]; omega
  | popTail => simp [valuesAfter]; omega
  | insertAfter i value =>
    simp only [valuesAfter]
    split
    · rw [List.length_insertIdx_of_le_length (by omega)]
    · rw [List.length_cons]
  | detach i => exact (List.length_eraseIdx_le ..).trans (Nat.le_succ _)

/-- The cell at a position. -/
theorem cells_split {cells : List (Nat × Bytes)} {i : Nat} (inside : i < cells.length) :
    ∃ left cell right, cells = left ++ cell :: right ∧ left.length = i :=
  ⟨cells.take i, cells[i], cells.drop (i + 1),
    by rw [← List.drop_eq_getElem_cons inside, List.take_append_drop],
    List.length_take_of_le inside.le⟩

theorem insertIdx_length {α : Type} (left right : List α) (a : α) :
    (left ++ right).insertIdx left.length a = left ++ a :: right := by
  induction left with
  | nil => simp
  | cons b left ih => simp [ih]

/-- **Each call keeps the list together.** -/
theorem Carries.call (carries : Carries l values) (few : values.length < 2 ^ 63)
    (call : ListCall) : ∃ l', l.call call = some l' ∧ Carries l' (valuesAfter values call) := by
  obtain ⟨cells, holds, rfl⟩ := carries
  rw [List.length_map] at few
  cases call with
  | pushHead value =>
    obtain ⟨l', pushed, after, _⟩ := DoublyLinked.pushHead_spec holds value
    exact ⟨l', pushed, _, after, rfl⟩
  | pushTail value =>
    obtain ⟨l', pushed, after, _⟩ := DoublyLinked.pushTail_spec holds value
    exact ⟨l', pushed, _, after, by simp [valuesAfter]⟩
  | popHead =>
    cases cells with
    | nil =>
      exact ⟨l, by simp [LinkedList.call, DoublyLinked.popHead, holds.head, start], [], holds, rfl⟩
    | cons cell rest =>
      obtain ⟨l', popped, after, _⟩ := DoublyLinked.popHead_spec holds
      exact ⟨l', by simp [LinkedList.call, popped], rest, after, rfl⟩
  | popTail =>
    rcases List.eq_nil_or_concat cells with rfl | ⟨front, last, rfl⟩
    · exact ⟨l, by simp [LinkedList.call, DoublyLinked.popTail, holds.tail], [], holds, rfl⟩
    · rw [List.concat_eq_append] at holds ⊢
      obtain ⟨l', popped, after, _⟩ := DoublyLinked.popTail_spec holds
      exact ⟨l', by simp [LinkedList.call, popped], front, after, by simp [valuesAfter]⟩
  | insertAfter i value =>
    have found := nodeAt_spec holds few i
    simp only [LinkedList.call, valuesAfter, found, List.length_map, Option.bind_eq_bind,
      Option.bind_some]
    split
    · rename_i inside
      obtain ⟨left, cell, right, rfl, rfl⟩ := cells_split inside
      obtain ⟨l', inserted, after, _⟩ := DoublyLinked.insertAfter_spec holds value
      refine ⟨l', by rw [List.drop_left]; exact inserted, _, after, ?_⟩
      have place := insertIdx_length ((left ++ [cell]).map Prod.snd) (right.map Prod.snd) value
      simpa using place.symm
    · rename_i outside
      rw [List.drop_eq_nil_of_le (by omega)]
      obtain ⟨l', pushed, after, _⟩ := DoublyLinked.pushHead_spec holds value
      exact ⟨l', pushed, _, after, rfl⟩
  | detach i =>
    have found := nodeAt_spec holds few i
    simp only [LinkedList.call, valuesAfter, found, Option.bind_eq_bind, Option.bind_some]
    by_cases inside : i < cells.length
    · obtain ⟨left, cell, right, rfl, rfl⟩ := cells_split inside
      obtain ⟨l', taken, after, _⟩ := DoublyLinked.detach_spec holds
      refine ⟨l', by simp [start, taken], _, after, ?_⟩
      rw [List.map_append, List.map_append, List.eraseIdx_append_of_length_le (by simp)]
      simp
    · rw [List.drop_eq_nil_of_le (by omega)]
      refine ⟨l, rfl, cells, holds, ?_⟩
      rw [List.eraseIdx_of_length_le (by simpa using inside)]

/-- **After any calls of `list.c` the list carries what the calls say.** -/
theorem list_carries (calls : List ListCall) (few : calls.length < 2 ^ 63) :
    ∃ l, calls.foldlM LinkedList.call DoublyLinked.create = some l ∧
      Carries l (calls.foldl valuesAfter []) := by
  have run : ∀ (calls : List ListCall) (l : LinkedList) (values : List Bytes), Carries l values →
      values.length + calls.length < 2 ^ 63 →
      ∃ l', calls.foldlM LinkedList.call l = some l' ∧
        Carries l' (calls.foldl valuesAfter values) := by
    intro calls
    induction calls with
    | nil => exact fun l values carries _ => ⟨l, rfl, carries⟩
    | cons call rest ih =>
      intro l values carries few
      rw [List.length_cons] at few
      obtain ⟨l', called, after⟩ := carries.call (by omega) call
      have grown := length_valuesAfter values call
      obtain ⟨l'', ran, last⟩ := ih l' _ after (by omega)
      exact ⟨l'', by rw [List.foldlM_cons, called]; exact ran, last⟩
  exact run calls _ [] ⟨[], .create, rfl⟩ (by simpa using few)

end Calls

/-! ### The commands -/

section Commands

variable {l : LinkedList} {values : List Bytes} {low high : Int}

/-- **`LRANGE` in memory**: no index overflows, the walk stays inside. -/
theorem Carries.lrange (carries : Carries l values) (few : values.length < 2 ^ 63)
    (low_fits : -(llongMax : Int) ≤ low ∧ low ≤ llongMax)
    (high_fits : -(llongMax : Int) ≤ high ∧ high ≤ llongMax) :
    l.lrange low high = some (replyArrayHeader (rangeOf values low high).length ++
      (rangeOf values low high).flatMap replyBulk) := by
  obtain ⟨cells, holds, rfl⟩ := carries
  rw [List.length_map] at few
  have few' : (cells.length : Int) < 2 ^ 63 := by exact_mod_cast few
  unfold LinkedList.lrange
  rw [longLen holds few, rangeNormalizeChecked_eq (by omega) few' low_fits high_fits, rangeOf_eq,
    List.length_map]
  simp only [Option.bind_eq_bind, Option.bind_some]
  cases range : rangeNormalize cells.length low high with
  | none => rfl
  | some bounds =>
    obtain ⟨first, last⟩ := bounds
    obtain ⟨lowest, ordered, highest⟩ := rangeNormalize_some range
    obtain ⟨i, rfl⟩ := Int.eq_ofNat_of_zero_le lowest
    have walked := ((holds.leads false).drop i).collect (n := (last - i + 1).toNat)
      (by simp [orient]; omega)
    dsimp only
    rw [rangeCount_eq lowest ordered (by omega), Option.bind_some, nodeAt_spec holds few,
      Option.bind_some, show cells.drop i = (orient false cells).drop i from rfl, walked,
      Option.bind_some, length_slice lowest ordered (by rw [List.length_map]; exact highest), slice,
      Int.toNat_natCast, ← List.map_drop, ← List.map_take]
    rfl

/-- **`LTRIM` in memory**: both loops together leave the range. -/
theorem Carries.ltrim (carries : Carries l values) (few : values.length < 2 ^ 63)
    (low_fits : -(llongMax : Int) ≤ low ∧ low ≤ llongMax)
    (high_fits : -(llongMax : Int) ≤ high ∧ high ≤ llongMax) :
    if rangeOf values low high = [] then l.ltrim low high = some none
    else ∃ l', l.ltrim low high = some (some l') ∧ Carries l' (rangeOf values low high) := by
  obtain ⟨cells, holds, rfl⟩ := carries
  rw [List.length_map] at few
  have few' : (cells.length : Int) < 2 ^ 63 := by exact_mod_cast few
  unfold LinkedList.ltrim
  rw [longLen holds few, rangeNormalizeChecked_eq (by omega) few' low_fits high_fits, rangeOf_eq,
    List.length_map]
  simp only [Option.bind_eq_bind, Option.bind_some]
  cases range : rangeNormalize cells.length low high with
  | none => exact (if_pos rfl).mpr rfl
  | some bounds =>
    obtain ⟨first, last⟩ := bounds
    obtain ⟨lowest, ordered, highest⟩ := rangeNormalize_some range
    have size := length_slice (l := cells.map Prod.snd) lowest ordered
      (by rw [List.length_map]; exact highest)
    have filled : slice (cells.map Prod.snd) first last ≠ [] := fun empty => by
      rw [empty, List.length_nil] at size
      omega
    obtain ⟨l', front, after⟩ := trimFront_spec holds (i := first.toNat) (by omega)
    have few'' : (cells.drop first.toNat).length < 2 ^ 63 := by
      rw [List.length_drop]
      omega
    have fuel : l'.len.toNat = (cells.drop first.toNat).length := by
      rw [after.len, UInt64.toNat_ofNat_of_lt' (few''.trans (by decide))]
    obtain ⟨l'', back, trimmed⟩ := trimBack_spec after few'' (last - first + 1).toNat l'.len.toNat
      (by omega)
    rw [Int.toNat_of_nonneg (by omega)] at back
    dsimp only
    rw [if_neg filled, holds.head, front, Option.bind_some, rangeCount_eq lowest ordered (by omega),
      Option.bind_some, back, Option.bind_some]
    refine ⟨l'', rfl, _, trimmed, ?_⟩
    rw [List.map_take, List.map_drop, slice]

/-- **`LREM` in memory**, forwards and backwards. -/
theorem Carries.lrem (carries : Carries l values) (few : values.length < 2 ^ 63) {count : Int}
    (fits : -(llongMax : Int) ≤ count ∧ count ≤ llongMax) (target : Bytes) :
    ∃ l' removed, l.lrem count target = some (l', removed) ∧
      Carries l' (lremList count target values).1 ∧
      (lremList count target values).2 = replyInteger removed := by
  obtain ⟨cells, holds, rfl⟩ := carries
  rw [List.length_map] at few
  have limit : (llongMax : Int) = 2 ^ 63 - 1 := by decide
  have short : cells.length ≤ l.fresh := by
    have inside : cells.map Prod.fst ⊆ List.range l.fresh := fun x member =>
      List.mem_range.mpr (holds.allocated x member)
    have bound := (holds.distinct.subperm inside).length_le
    rwa [List.length_range, List.length_map] at bound
  unfold LinkedList.lrem lremList
  by_cases forward : count ≥ 0
  · have agree : ∀ removed : Nat, (decide (count = 0) || decide ((removed : Int) < count)) =
        !(if count = 0 then none else some count.toNat : Option Nat).any (· ≤ removed) := by
      intro removed
      split
      · simp [*]
      · rw [Bool.eq_iff_iff]
        simp [*]
    obtain ⟨l', kept, walked, after, values⟩ := remLoop_spec target
      (fun removed => count = 0 || removed < count) _ agree false l.fresh [] cells holds short 0
      (by simpa using few)
    rw [if_pos forward, if_pos forward, holds.head]
    exact ⟨l', _, walked, ⟨kept, after, values⟩, rfl⟩
  · have agree : ∀ removed : Nat, decide ((removed : Int) < -count) =
        !(some (-count).toNat : Option Nat).any (· ≤ removed) := by
      intro removed
      rw [Bool.eq_iff_iff]
      simp
    obtain ⟨l', kept, walked, after, values⟩ := remLoop_spec target
      (fun removed => removed < -count) _ agree true l.fresh [] cells.reverse
      (by simpa [orient] using holds) (by simpa using short) 0 (by simpa using few)
    have first : l.tail = start cells.reverse := holds.first true
    rw [if_neg forward, if_neg forward, checked_of_range (by omega) (by omega), first]
    rw [List.map_reverse] at walked values
    refine ⟨l', _, walked, ⟨kept.reverse, by simpa [orient] using after, ?_⟩, rfl⟩
    rw [List.map_reverse, values]

end Commands

end Miniredis
