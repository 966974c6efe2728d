/-
**`KEYS` under a clock that moves (`db.c`).**

`KEYS` counts the matching keys in one pass over the table, writes the count as the header of its
reply, and prints the keys in a second pass. Each pass reads the clock anew for every entry, so a
key that expires between its two readings is counted and not printed.

* `mem_keysPass` — what a pass finds.
* `keysPass_shorter` — a later pass finds no more, and as many only if no key expires in between.
* `replyMembers_counted` — a header is right only for as many bulk strings as it announces.
* `keys_exact_iff` — exactly when the reply is what it should be.
-/

import Miniredis.Dispatch.Expiration
import Mathlib.Order.Monotone.Defs

namespace Miniredis

/-! ### Passes -/

section Passes

variable {now : Nat → Int} {pattern key : Bytes} {i : Nat} {pairs : List (Bytes × Robj)}

/-- A pass finds the matching entries that are not expired when it comes to them. -/
theorem mem_keysPass : key ∈ keysPass now pattern i pairs ↔
    ∃ j o, pairs[j]? = some (key, o) ∧ keyExpired (now (i + j)) o = false ∧
      utilGlobMatch pattern key = true := by
  induction pairs generalizing i with
  | nil => simp [keysPass]
  | cons pair rest ih =>
    obtain ⟨first, o⟩ := pair
    have split : (∃ j o', ((first, o) :: rest)[j]? = some (key, o') ∧
          keyExpired (now (i + j)) o' = false ∧ utilGlobMatch pattern key = true) ↔
        (key = first ∧ keyExpired (now i) o = false ∧ utilGlobMatch pattern key = true) ∨
          key ∈ keysPass now pattern (i + 1) rest := by
      rw [ih]
      constructor
      · rintro ⟨_ | j, o', there, fresh, hit⟩
        · obtain ⟨rfl, rfl⟩ := Prod.mk.inj (Option.some.inj there)
          exact .inl ⟨rfl, fresh, hit⟩
        · exact .inr ⟨j, o', there, by rwa [Nat.add_right_comm], hit⟩
      · rintro (⟨rfl, fresh, hit⟩ | ⟨j, o', there, fresh, hit⟩)
        · exact ⟨0, o, rfl, fresh, hit⟩
        · exact ⟨j + 1, o', there, by rwa [← Nat.add_assoc, Nat.add_right_comm], hit⟩
    rw [split, keysPass]
    by_cases picked : (!keyExpired (now i) o && utilGlobMatch pattern first) = true
    · rw [if_pos picked, List.mem_cons]
      simp only [Bool.and_eq_true, Bool.not_eq_true'] at picked
      refine or_congr_left ⟨?_, fun here => here.1⟩
      rintro rfl
      exact ⟨rfl, picked⟩
    · rw [if_neg picked]
      refine (or_iff_right ?_).symm
      rintro ⟨rfl, fresh, hit⟩
      exact picked (by rw [fresh, hit]; rfl)

theorem keysPass_sublist (now : Nat → Int) (pattern : Bytes) (i : Nat)
    (pairs : List (Bytes × Robj)) :
    (keysPass now pattern i pairs).Sublist (pairs.map Prod.fst) := by
  induction pairs generalizing i with
  | nil => exact .slnil
  | cons pair rest ih =>
    rw [keysPass]
    split_ifs
    · exact (ih (i + 1)).cons_cons pair.1
    · exact (ih (i + 1)).cons pair.1

/-- A matching key expires between two readings, `n` apart, at the same entry. -/
def ExpiresBetween (now : Nat → Int) (pattern : Bytes) (n i : Nat) (pairs : List (Bytes × Robj)) :
    Prop :=
  ∃ j key o, pairs[j]? = some (key, o) ∧ utilGlobMatch pattern key = true ∧
    keyExpired (now (i + j)) o = false ∧ keyExpired (now (n + i + j)) o = true

theorem expiresBetween_cons {n : Nat} {o : Robj} {rest : List (Bytes × Robj)} :
    ExpiresBetween now pattern n i ((key, o) :: rest) ↔
      (utilGlobMatch pattern key = true ∧ keyExpired (now i) o = false ∧
        keyExpired (now (n + i)) o = true) ∨ ExpiresBetween now pattern n (i + 1) rest := by
  constructor
  · rintro ⟨_ | j, other, o', there, hit, fresh, expired⟩
    · obtain ⟨rfl, rfl⟩ := Prod.mk.inj (Option.some.inj there)
      exact .inl ⟨hit, fresh, expired⟩
    · refine .inr ⟨j, other, o', there, hit, ?_, ?_⟩
      · rwa [Nat.add_right_comm]
      · rwa [← Nat.add_assoc, Nat.add_right_comm]
  · rintro (⟨hit, fresh, expired⟩ | ⟨j, other, o', there, hit, fresh, expired⟩)
    · exact ⟨0, key, o, rfl, hit, fresh, expired⟩
    · refine ⟨j + 1, other, o', there, hit, ?_, ?_⟩
      · rwa [← Nat.add_assoc, Nat.add_right_comm]
      · rwa [← Nat.add_assoc, Nat.add_right_comm]

/-- **A later pass finds no more, and as many only if nothing expires in between.** -/
theorem keysPass_shorter (rising : Monotone now) (n i : Nat) (pairs : List (Bytes × Robj)) :
    (keysPass now pattern (n + i) pairs).length ≤ (keysPass now pattern i pairs).length ∧
      ((keysPass now pattern i pairs).length = (keysPass now pattern (n + i) pairs).length ↔
        ¬ ExpiresBetween now pattern n i pairs) := by
  induction pairs generalizing i with
  | nil => exact ⟨Nat.le_refl _, iff_of_true rfl fun ⟨j, key, o, there, _⟩ => by cases there⟩
  | cons pair rest ih =>
    obtain ⟨key, o⟩ := pair
    obtain ⟨fewer, same⟩ := ih (i + 1)
    rw [← Nat.add_assoc] at fewer same
    have later : now i ≤ now (n + i) := rising (by omega)
    rw [expiresBetween_cons, not_or, ← same]
    rw [keysPass, keysPass]
    cases hit : utilGlobMatch pattern key with
    | false => simpa using fewer
    | true =>
      cases early : keyExpired (now i) o with
      | true =>
        rw [keyExpired_later later early]
        simpa using fewer
      | false =>
        cases late : keyExpired (now (n + i)) o with
        | false => simpa using fewer
        | true =>
          -- counted and not printed
          simp only [Bool.not_false, Bool.not_true, Bool.and_true, Bool.false_eq_true, if_true,
            if_false, List.length_cons, and_self, not_true_eq_false, false_and, iff_false]
          exact ⟨Nat.le_succ_of_le fewer, by omega⟩

end Passes

/-! ### Counted replies -/

section Counted

theorem replyBulk_append_inj {s s' rest rest' : Bytes}
    (same : replyBulk s ++ rest = replyBulk s' ++ rest') : s = s' ∧ rest = rest' := by
  have encoded : ∀ s, replyBulk s = (Wire.Value.bulk s).encode := fun s => by
    simp [replyBulk, Wire.Value.encode, text, crlf]
  rw [encoded, encoded] at same
  obtain ⟨values, rests⟩ := Wire.Value.encode_append_inj _ _ _ _ same
  exact ⟨Wire.Value.bulk.inj values, rests⟩

theorem bulks_injective {l l' : List Bytes} (same : l.flatMap replyBulk = l'.flatMap replyBulk) :
    l = l' := by
  induction l generalizing l' with
  | nil =>
    cases l' with
    | nil => rfl
    | cons s rest => simp [replyBulk, text] at same
  | cons s rest ih =>
    cases l' with
    | nil => simp [replyBulk, text] at same
    | cons s' rest' =>
      obtain ⟨rfl, later⟩ := replyBulk_append_inj same
      rw [ih later]

/-- **A header is right only for as many bulk strings as it announces.** -/
theorem replyMembers_counted {n : Nat} {printed l : List Bytes} :
    replyArrayHeader n ++ printed.flatMap replyBulk = replyMembers l ↔
      n = printed.length ∧ printed = l := by
  constructor
  · intro same
    have lines : Decimal.render n ++ 13 :: 10 :: printed.flatMap replyBulk =
        Decimal.render l.length ++ 13 :: 10 :: l.flatMap replyBulk := by
      simpa [replyMembers, replyArrayHeader, text, crlf] using same
    obtain ⟨counts, bodies⟩ := (Wire.plain_render _).split (Wire.plain_render _) lines
    obtain rfl := bulks_injective bodies
    exact ⟨Decimal.render_injective counts, rfl⟩
  · rintro ⟨rfl, rfl⟩
    rfl

end Counted

/-! ### `KEYS` -/

section Keys

/-- The reply lists the keys that match, each once: only such as were not expired at `start`, and
all that are not expired at `finish`. -/
def ListsKeys (start finish : Int) (db : Db) (pattern reply : Bytes) : Prop :=
  ∃ l, reply = replyMembers l ∧ l.Nodup ∧
    (∀ key ∈ l, utilGlobMatch pattern key = true ∧ (live start db key).isSome) ∧
    ∀ key, utilGlobMatch pattern key = true → (live finish db key).isSome → key ∈ l

variable {now : Nat → Int} {db : Db} {pattern : Bytes} {start finish : Int}

/-- What a pass prints lies between what is there at the start and what is there at the end. -/
theorem keysPass_between {i : Nat} (begins : ∀ j, i ≤ j → start ≤ now j)
    (ends : ∀ j < i + db.d.pairs.length, now j ≤ finish) :
    (∀ key ∈ keysPass now pattern i db.d.pairs,
      utilGlobMatch pattern key = true ∧ (live start db key).isSome) ∧
    ∀ key, utilGlobMatch pattern key = true → (live finish db key).isSome →
      key ∈ keysPass now pattern i db.d.pairs := by
  constructor
  · intro key listed
    obtain ⟨j, o, there, fresh, hit⟩ := mem_keysPass.mp listed
    have found : db.d.get key = some o :=
      (HashTable.Table.mem_pairs ..).mp (List.mem_of_getElem? there)
    refine ⟨hit, Option.isSome_iff_exists.mpr ⟨o, Option.filter_eq_some_iff.mpr ⟨found, ?_⟩⟩⟩
    cases early : keyExpired start o with
    | false => rfl
    | true => rw [keyExpired_later (begins _ (Nat.le_add_right i j)) early] at fresh; cases fresh
  · intro key hit alive
    obtain ⟨o, seen⟩ := Option.isSome_iff_exists.mp alive
    obtain ⟨found, fresh⟩ := Option.filter_eq_some_iff.mp seen
    obtain ⟨j, there⟩ := List.getElem?_of_mem ((HashTable.Table.mem_pairs ..).mpr found)
    have inside : j < db.d.pairs.length := (List.getElem?_eq_some_iff.mp there).1
    refine mem_keysPass.mpr ⟨j, o, there, ?_, hit⟩
    cases late : keyExpired (now (i + j)) o with
    | false => rfl
    | true => simp [keyExpired_later (ends (i + j) (by omega)) late] at fresh

/-- **`KEYS` is exact unless a matching key expires between its two readings.** -/
theorem keys_exact_iff (env : Env) (db : Db) (word pattern : Bytes) (rising : Monotone env.now)
    (start finish : Int) (begins : start ≤ env.now 0)
    (ends : env.now (2 * db.d.pairs.length - 1) ≤ finish) :
    ListsKeys start finish db pattern (cmdKeys env db [word, pattern]).2 ↔
      ¬ ExpiresBetween env.now pattern db.d.pairs.length 0 db.d.pairs := by
  have run : (cmdKeys env db [word, pattern]).2 =
      replyArrayHeader (keysPass env.now pattern 0 db.d.pairs).length ++
        (keysPass env.now pattern db.d.pairs.length db.d.pairs).flatMap replyBulk := rfl
  have counts := (@keysPass_shorter env.now pattern rising db.d.pairs.length 0 db.d.pairs).2
  rw [run, ← counts]
  constructor
  · rintro ⟨l, reply, _⟩
    obtain ⟨count, rfl⟩ := replyMembers_counted.mp reply
    exact count
  · intro count
    obtain ⟨only, all⟩ := @keysPass_between env.now db pattern start finish db.d.pairs.length
      (fun j _ => begins.trans (rising (Nat.zero_le j)))
      (fun j below => (rising (by omega)).trans ends)
    refine ⟨_, replyMembers_counted.mpr ⟨count, rfl⟩, ?_, only, all⟩
    exact (keysPass_sublist ..).nodup (HashTable.Table.pairs_nodup ..)

/-- Under a clock that stands still nothing expires in between. -/
theorem keys_exact_stopped :
    ListsKeys 0 0 sampleLapsed.db (text "*")
      (cmdKeys sampleEnv sampleLapsed.db [text "keys", text "*"]).2 := by
  refine (keys_exact_iff sampleEnv sampleLapsed.db _ _ monotone_const 0 0 (Int.le_refl 0)
    (Int.le_refl 0)).mpr ?_
  rintro ⟨j, key, o, _, _, fresh, expired⟩
  exact Bool.false_ne_true (fresh.symm.trans expired)

/-- The one key expires at time 1, after it is counted and before it is printed. -/
theorem keys_announces_lost_key :
    Monotone (fun i : Nat => (i : Int)) ∧
      (cmdKeys { sampleEnv with now := fun i => i } sampleLapsed.db [text "keys", text "*"]).2 =
        replyArrayHeader 1 ∧
      ¬ ListsKeys 0 1 sampleLapsed.db (text "*") (cmdKeys { sampleEnv with now := fun i => i }
        sampleLapsed.db [text "keys", text "*"]).2 := by
  have reply : (cmdKeys { sampleEnv with now := fun i => i } sampleLapsed.db
      [text "keys", text "*"]).2 = replyArrayHeader 1 := by decide
  refine ⟨fun _ _ le => Int.ofNat_le.mpr le, reply, ?_⟩
  rintro ⟨l, same, _⟩
  rw [reply, ← List.append_nil (replyArrayHeader 1)] at same
  have count := (@replyMembers_counted 1 [] l).mp same
  exact absurd count.1 (by decide)

end Keys

end Miniredis
