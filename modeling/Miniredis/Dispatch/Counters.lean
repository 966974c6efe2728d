/-
**Counters (`db.c`).**

`INCR` and `DECR` count in the text of a string key, `HINCRBY` in the text of a field of a hash.
Every step reads the text, adds, tests the sum for an overflow and prints it.

* `Counter.Holds` — the text a counter has, over the times of a run.
* `CountsExactly` — step by step, the counter follows the exact sum: a sum in range is answered and
  stored, any other is refused and leaves the text.
* `counts_exactly_iff` — the counter follows the sum as long as no step that could be answered
  starts at `-2^63`, which is printed but not read.
* `counter_sum_defined_iff` — the sum the handler computes is defined in C exactly when it is in
  range; the test for the overflow comes after it.
-/

import Miniredis.Dispatch.ExactDeadlines
import Miniredis.Dispatch.Steady
import Miniredis.Model.Counters

namespace Miniredis

/-! ### The sum -/

section Sum

variable {v delta : Int}

/-- **The overflow test after a wrapping sum accepts exactly the sums in range.** -/
theorem addChecked_eq (low : -(2 ^ 63) ≤ v) (high : v < 2 ^ 63) (deltaLow : -(2 ^ 63) ≤ delta)
    (deltaHigh : delta < 2 ^ 63) : addChecked v delta = checked (v + delta) := by
  unfold addChecked checked
  dsimp only
  by_cases above : 2 ^ 63 ≤ v + delta
  · rw [wrap64_of_above above (by omega), if_pos (by omega), if_neg (by omega)]
  by_cases below : v + delta < -(2 ^ 63)
  · rw [wrap64_of_below (by omega) below, if_pos (by omega), if_neg (by omega)]
  · rw [wrap64_of_range (by omega) (by omega), if_neg (by omega), if_pos (by omega)]

theorem checked_range {value result : Int} (inside : checked value = some result) :
    -(2 ^ 63) ≤ result ∧ result < 2 ^ 63 := by
  obtain ⟨range, rfl⟩ := checked_eq_some.mp inside
  exact range

theorem checked_isSome {value : Int} :
    (checked value).isSome ↔ -(2 ^ 63) ≤ value ∧ value < 2 ^ 63 := by
  unfold checked
  split_ifs with range
  · exact iff_of_true rfl range
  · exact iff_of_false (by simp) range

/-- Where the tested sum is defined, the test that follows it finds nothing. -/
theorem addChecked_of_checked {nv : Int} (inside : checked (v + delta) = some nv) :
    addChecked v delta = some nv ∧ ¬ ((delta > 0 ∧ nv < v) ∨ (delta < 0 ∧ nv > v)) := by
  obtain ⟨range, rfl⟩ := checked_eq_some.mp inside
  have clear : ¬ ((delta > 0 ∧ v + delta < v) ∨ (delta < 0 ∧ v + delta > v)) := by omega
  refine ⟨?_, clear⟩
  unfold addChecked
  dsimp only
  rw [wrap64_of_range range.1 range.2, if_neg clear]

end Sum

/-! ### Counters and their calls -/

/-- What is counted in: a string key or a field of a hash. -/
inductive Counter where
  | string (key : Bytes)
  | field (key name : Bytes)

/-- A request on a counter. -/
inductive CounterCall where
  | incr (key : Bytes)
  | decr (key : Bytes)
  | hincrby (key name increment : Bytes)

namespace CounterCall

def counter : CounterCall → Counter
  | incr key => .string key
  | decr key => .string key
  | hincrby key name _ => .field key name

/-- The increment, if it is accepted. -/
def delta : CounterCall → Option Int
  | incr _ => some 1
  | decr _ => some (-1)
  | hincrby _ _ increment => stringToLl increment

def serve (env : Env) (db : Db) : CounterCall → Db × Bytes
  | incr key => cmdIncr env db [text "incr", key]
  | decr key => cmdDecr env db [text "decr", key]
  | hincrby key name increment => cmdHincrby env db [text "hincrby", key, name, increment]

def serveChecked (env : Env) (db : Db) : CounterCall → Option (Db × Bytes)
  | incr key => cmdIncrChecked env db [text "incr", key]
  | decr key => cmdDecrChecked env db [text "decr", key]
  | hincrby key name increment => cmdHincrbyChecked env db [text "hincrby", key, name, increment]

theorem delta_range {call : CounterCall} {d : Int} (read : call.delta = some d) :
    -(2 ^ 63) ≤ d ∧ d < 2 ^ 63 := by
  cases call with
  | incr key =>
    obtain rfl := Option.some.inj read
    decide
  | decr key =>
    obtain rfl := Option.some.inj read
    decide
  | hincrby key name increment =>
    have range := stringToLl_range read
    unfold llongMax at range
    omega

end CounterCall

/-- A step of a run on one counter: a call on it with an increment that is accepted, at one of the
times of the run. -/
structure CounterStep (counter : Counter) (times : Set Int) where
  env : Env
  call : CounterCall
  delta : Int
  aimed : call.counter = counter
  timed : env.now 0 ∈ times
  read : call.delta = some delta

/-- The text in the counter at each of the times, `none` if there is none. -/
def Counter.Holds (times : Set Int) (db : Db) : Counter → Option Bytes → Prop
  | .string key, content => HoldsString times db key content
  | .field key name, content =>
    (Steady times db key none ∧ content = none) ∨
      ∃ h expireAt, Steady times db key (some ⟨.hash h, expireAt⟩) ∧ h.get name = content

/-- The number in a counter; without a text it counts as zero. -/
def counterNumber (content : Option Bytes) : Option Int :=
  match content with
  | none => some 0
  | some s => stringToLlN s

theorem hashInteger_eq (h : Dict Bytes) (name : Bytes) :
    hashInteger h name = counterNumber (h.get name) := by
  unfold hashInteger counterNumber
  cases h.get name <;> rfl

theorem counterNumber_range {content : Option Bytes} {v : Int}
    (read : counterNumber content = some v) : -(2 ^ 63) < v ∧ v < 2 ^ 63 := by
  cases content with
  | none =>
    obtain rfl := Option.some.inj read
    decide
  | some s =>
    have range := stringToLlN_range read
    unfold llongMax at range
    omega

/-- What a step does, by what the counter has. -/
structure Counts (counter : Counter) (times : Set Int) (content : Option Bytes) (delta : Int)
    (result : Db × Bytes) : Prop where
  unreadable : counterNumber content = none →
    IsError result.2 ∧ counter.Holds times result.1 content
  refused {v : Int} : counterNumber content = some v → addChecked v delta = none →
    IsError result.2 ∧ counter.Holds times result.1 content
  added {v nv : Int} : counterNumber content = some v → addChecked v delta = some nv →
    result.2 = replyInteger nv ∧ counter.Holds times result.1 (some (Decimal.renderInt nv))

section Steps

variable {times : Set Int} {env : Env} {db : Db} {key : Bytes} {content : Option Bytes}

/-- A decision of `incr_decr` on the number it has read. -/
theorem incrDecrStep_counts {entry : Option Robj} {delta v expireAt : Int}
    (steady : Steady times db key entry) (among : env.now 0 ∈ times)
    (shown : ∀ db', Steady times db' key entry → (Counter.string key).Holds times db' content)
    (number : counterNumber content = some v)
    (decides : incrDecrBody delta entry = incrDecrStep delta v expireAt)
    (lasting : ∀ val, Lasting times ⟨val, expireAt⟩) :
    Counts (.string key) times content delta (onKey (env.now 0) db key (incrDecrBody delta)) := by
  refine ⟨fun unread => ?_, fun read overflows => ?_, fun read fits => ?_⟩
  · rw [number] at unread
    cases unread
  · obtain rfl := Option.some.inj (number.symm.trans read)
    rw [incrDecrStep, overflows] at decides
    obtain ⟨after, reply⟩ := steady.kept among decides
    exact ⟨reply ▸ isError_replyError _, shown _ after⟩
  · obtain rfl := Option.some.inj (number.symm.trans read)
    rw [incrDecrStep, fits] at decides
    obtain ⟨after, reply⟩ := steady.stored among decides (lasting _)
    exact ⟨reply, .inr ⟨_, _, after, rfl⟩⟩

theorem incrDecr_counts (delta : Int) (name : Bytes) (among : env.now 0 ∈ times)
    (holds : (Counter.string key).Holds times db content) :
    Counts (.string key) times content delta (incrDecr delta env db [name, key]) := by
  rw [show incrDecr delta env db [name, key] =
    onKey (env.now 0) db key (incrDecrBody delta) from rfl]
  rcases holds with ⟨steady, rfl⟩ | ⟨s, expireAt, steady, rfl⟩
  · exact incrDecrStep_counts steady among (fun _ after => .inl ⟨after, rfl⟩) rfl rfl
      (lasting_new times)
  · have shown (db' : Db) (after : Steady times db' key (some ⟨.string s, expireAt⟩)) :
        (Counter.string key).Holds times db' (some s) := .inr ⟨s, expireAt, after, rfl⟩
    cases number : stringToLlN s with
    | none =>
      have decides : incrDecrBody delta (some ⟨.string s, expireAt⟩) = (.keep, notAnInteger) := by
        simp only [incrDecrBody, Kind.body, stringKind, number]
      obtain ⟨after, reply⟩ := steady.kept among decides
      refine ⟨fun _ => ⟨reply ▸ isError_replyError _, shown _ after⟩, ?_, ?_⟩
      all_goals
        intro v
        rw [counterNumber, number]
        intros
        contradiction
    | some v =>
      refine incrDecrStep_counts steady among shown number ?_ fun val => steady.lasting
      simp only [incrDecrBody, Kind.body, stringKind, number]

/-- A command that edits a hash acts on the one that is there or on a new one. -/
theorem Counter.Holds.upserted {name : Bytes} {f : Dict Bytes → Dict Bytes × Bytes}
    (holds : (Counter.field key name).Holds times db content) (among : env.now 0 ∈ times) :
    ∃ h expireAt, h.get name = content ∧
      Steady times (onKey (env.now 0) db key (hashKind.upsert env.seed f)).1 key
        (some ⟨.hash (f h).1, expireAt⟩) ∧
      (onKey (env.now 0) db key (hashKind.upsert env.seed f)).2 = (f h).2 := by
  rcases holds with ⟨steady, rfl⟩ | ⟨h, expireAt, steady, same⟩
  · exact ⟨dictCreate env.seed, -1, HashTable.Table.get_create .., steady.stored among rfl
      (lasting_new times _)⟩
  · exact ⟨h, expireAt, same, steady.written among rfl⟩

theorem hincrby_counts {name increment : Bytes} {delta : Int} (among : env.now 0 ∈ times)
    (read : stringToLl increment = some delta)
    (holds : (Counter.field key name).Holds times db content) (word : Bytes) :
    Counts (.field key name) times content delta
      (cmdHincrby env db [word, key, name, increment]) := by
  have acts : cmdHincrby env db [word, key, name, increment] =
      onKey (env.now 0) db key (hashKind.upsert env.seed (hincrbyHash name delta)) := by
    simp only [cmdHincrby, arg, List.getD_cons_succ, List.getD_cons_zero, read]
    rfl
  rw [acts]
  obtain ⟨h, expireAt, rfl, after, reply⟩ := holds.upserted (f := hincrbyHash name delta) among
  have same := hashInteger_eq h name
  refine ⟨fun unread => ?_, fun number overflows => ?_, fun number fits => ?_⟩
  · rw [hincrbyHash, same, unread] at after reply
    exact ⟨reply ▸ isError_replyError _, .inr ⟨h, expireAt, after, rfl⟩⟩
  · simp only [hincrbyHash, same, number, overflows] at after reply
    exact ⟨reply ▸ isError_replyError _, .inr ⟨h, expireAt, after, rfl⟩⟩
  · simp only [hincrbyHash, same, number, fits] at after reply
    exact ⟨reply, .inr ⟨_, expireAt, after, (HashTable.Table.get_set ..).trans (if_pos rfl)⟩⟩

/-- **One step of a counter.** -/
theorem CounterStep.counts {counter : Counter} (step : CounterStep counter times)
    (holds : counter.Holds times db content) :
    Counts counter times content step.delta (step.call.serve step.env db) := by
  obtain ⟨env, call, delta, rfl, timed, read⟩ := step
  cases call with
  | incr key =>
    obtain rfl := Option.some.inj read
    exact incrDecr_counts 1 _ timed holds
  | decr key =>
    obtain rfl := Option.some.inj read
    exact incrDecr_counts (-1) _ timed holds
  | hincrby key name increment => exact hincrby_counts timed read holds _

end Steps

/-! ### Runs -/

/-- The exact value after some increments, those that lead out of range left out. -/
def exactValue (v : Int) (deltas : List Int) : Int :=
  deltas.foldl (fun v delta => (checked (v + delta)).getD v) v

/-- **The counter follows the exact value**: each step whose sum is in range is answered with it and
stores it, each other one is refused and leaves the text. -/
def CountsExactly {counter : Counter} {times : Set Int} :
    List (CounterStep counter times) → Db → Option Bytes → Int → Prop
  | [], _, _, _ => True
  | step :: rest, db, content, v =>
    let (after, reply) := step.call.serve step.env db
    match checked (v + step.delta) with
    | some nv =>
      reply = replyInteger nv ∧ counter.Holds times after (some (Decimal.renderInt nv)) ∧
        CountsExactly rest after (some (Decimal.renderInt nv)) nv
    | none => IsError reply ∧ counter.Holds times after content ∧ CountsExactly rest after content v

section Runs

variable {counter : Counter} {times : Set Int} {db : Db} {content : Option Bytes} {v : Int}

theorem exactly_some {step : CounterStep counter times} {rest : List (CounterStep counter times)}
    {nv : Int} (fits : checked (v + step.delta) = some nv) :
    CountsExactly (step :: rest) db content v ↔
      (step.call.serve step.env db).2 = replyInteger nv ∧
        counter.Holds times (step.call.serve step.env db).1 (some (Decimal.renderInt nv)) ∧
        CountsExactly rest (step.call.serve step.env db).1 (some (Decimal.renderInt nv)) nv := by
  simp only [CountsExactly, fits]

theorem exactly_none {step : CounterStep counter times} {rest : List (CounterStep counter times)}
    (overflows : checked (v + step.delta) = none) :
    CountsExactly (step :: rest) db content v ↔
      IsError (step.call.serve step.env db).2 ∧
        counter.Holds times (step.call.serve step.env db).1 content ∧
        CountsExactly rest (step.call.serve step.env db).1 content v := by
  simp only [CountsExactly, overflows]

/-- The least `long long` is printed and not read. -/
theorem stringToLlN_least : stringToLlN (Decimal.renderInt (-(2 ^ 63))) = none := by decide

/-- The text stands for the number: it reads back, or it is the least `long long`. -/
def Denotes (content : Option Bytes) (v : Int) : Prop :=
  counterNumber content = some v ∨ v = -(2 ^ 63) ∧ counterNumber content = none

theorem Denotes.range (denotes : Denotes content v) : -(2 ^ 63) ≤ v ∧ v < 2 ^ 63 := by
  rcases denotes with read | ⟨rfl, -⟩
  · have range := counterNumber_range read
    omega
  · decide

theorem denotes_printed {nv : Int} (low : -(2 ^ 63) ≤ nv) (high : nv < 2 ^ 63) :
    Denotes (some (Decimal.renderInt nv)) nv := by
  by_cases least : nv = -(2 ^ 63)
  · subst least
    exact .inr ⟨rfl, stringToLlN_least⟩
  · refine .inl (stringToLlN_renderInt ?_ ?_)
    all_goals
      unfold llongMax
      omega

/-- What holds at every cut of a list, by its first element. -/
theorem forall_cut_cons {α : Type} {P : List α → α → Prop} {a : α} {rest : List α} :
    (∀ before next later, a :: rest = before ++ next :: later → P before next) ↔
      P [] a ∧ ∀ before next later, rest = before ++ next :: later → P (a :: before) next := by
  constructor
  · intro cuts
    refine ⟨cuts [] a rest rfl, fun before next later same => ?_⟩
    exact cuts (a :: before) next later (by rw [same, List.cons_append])
  · rintro ⟨first, others⟩ before next later same
    cases before with
    | nil =>
      obtain ⟨rfl, -⟩ := List.cons.inj same
      exact first
    | cons head before =>
      obtain ⟨rfl, tail⟩ := List.cons.inj same
      exact others before next later tail

/-- Whatever text stands for the value, the run follows the sum up to the first step that starts
at the least number and could be answered. -/
theorem denotes_exact_iff (steps : List (CounterStep counter times))
    (holds : counter.Holds times db content) (denotes : Denotes content v) :
    CountsExactly steps db content v ↔ ∀ before next later, steps = before ++ next :: later →
      exactValue v (before.map (·.delta)) = -(2 ^ 63) → next.delta < 0 := by
  induction steps generalizing db content v with
  | nil =>
    refine iff_of_true trivial fun before next later same => ?_
    exact absurd same (by simp)
  | cons step rest ih =>
    have counts := step.counts holds
    obtain ⟨deltaLow, deltaHigh⟩ := CounterCall.delta_range step.read
    have range := denotes.range
    rw [forall_cut_cons]
    change _ ↔ (v = _ → _) ∧ ∀ before next later, _ →
      exactValue ((checked (v + step.delta)).getD v) _ = _ → _
    cases sum : checked (v + step.delta) with
    | some nv =>
      rw [exactly_some sum, Option.getD_some]
      rcases denotes with read | ⟨rfl, unread⟩
      · have adds := addChecked_eq range.1 range.2 deltaLow deltaHigh
        obtain ⟨reply, after⟩ := counts.added read (adds.trans sum)
        have bounds := checked_range sum
        have notLeast := counterNumber_range read
        rw [ih after (denotes_printed bounds.1 bounds.2)]
        refine ⟨fun exactly => ⟨fun least => ?_, exactly.2.2⟩, fun later => ⟨reply, after, later.2⟩⟩
        omega
      · -- the printed least number is refused although the sum is in range
        obtain ⟨wrong, -⟩ := counts.unreadable unread
        have inside := (checked_eq_some.mp sum).1
        refine iff_of_false (fun exactly => ?_) fun later => ?_
        · rw [exactly.1] at wrong
          exact not_isError_replyInteger _ wrong
        · have negative := later.1 rfl
          omega
    | none =>
      rw [exactly_none sum, Option.getD_none]
      have kept : IsError (step.call.serve step.env db).2 ∧
          counter.Holds times (step.call.serve step.env db).1 content := by
        rcases denotes with read | ⟨-, unread⟩
        · exact counts.refused read
            ((addChecked_eq range.1 range.2 deltaLow deltaHigh).trans sum)
        · exact counts.unreadable unread
      rw [ih kept.2 denotes]
      refine ⟨fun exactly => ⟨fun least => ?_, exactly.2.2⟩, fun later => ⟨kept.1, kept.2, later.2⟩⟩
      by_contra positive
      rw [checked, if_pos (by omega)] at sum
      cases sum

/-- **When a counter follows the exact sum.** -/
theorem counts_exactly_iff (steps : List (CounterStep counter times))
    (holds : counter.Holds times db content) (read : counterNumber content = some v) :
    CountsExactly steps db content v ↔ ∀ before next later, steps = before ++ next :: later →
      exactValue v (before.map (·.delta)) = -(2 ^ 63) → next.delta < 0 :=
  denotes_exact_iff steps holds (.inl read)

/-- A run with one step that follows the sum. -/
theorem counter_follows :
    CountsExactly
      [(⟨sampleEnv, .incr (text "k"), 1, rfl, trivial, rfl⟩ :
        CounterStep (.string (text "k")) Set.univ)]
      (singleStore "k" (.string (text "41"))) (some (text "41")) 41 := by
  have holds : (Counter.string (text "k")).Holds Set.univ (singleStore "k" (.string (text "41")))
      (some (text "41")) := .inr ⟨_, _, fun t _ => live_singleStore t _ _, rfl⟩
  refine (counts_exactly_iff _ holds (by decide)).mpr ?_
  intro before next later same least
  cases before with
  | nil => exact absurd least (by decide)
  | cons step before => exact absurd (List.cons.inj same).2 (by simp)

/-- `DECR` at the least number but one stores a text that the next `INCR` does not read. -/
theorem decremented_counter_sticks :
    let db := singleStore "k" (.string (text "-9223372036854775807"))
    let after := cmdDecr sampleEnv db [text "decr", text "k"]
    after.2 = replyInteger (-(2 ^ 63)) ∧
      (cmdIncr sampleEnv after.1 [text "incr", text "k"]).2 = notAnInteger ∧
      ¬ CountsExactly
        [(⟨sampleEnv, .decr (text "k"), -1, rfl, trivial, rfl⟩ :
          CounterStep (.string (text "k")) Set.univ),
          ⟨sampleEnv, .incr (text "k"), 1, rfl, trivial, rfl⟩]
        db (some (text "-9223372036854775807")) (-9223372036854775807) := by
  have stuck : (cmdIncr sampleEnv (cmdDecr sampleEnv
      (singleStore "k" (.string (text "-9223372036854775807"))) [text "decr", text "k"]).1
      [text "incr", text "k"]).2 = notAnInteger := by decide
  refine ⟨by decide, stuck, fun exactly => ?_⟩
  have first : checked (-9223372036854775807 + -1) = some (-(2 ^ 63)) := by decide
  have second : checked (-(2 ^ 63) + 1) = some (-9223372036854775807) := by decide
  obtain ⟨answer, -⟩ := (exactly_some second).mp ((exactly_some first).mp exactly).2.2
  exact replyError_ne_integer _ _ (stuck.symm.trans answer)

end Runs

/-! ### The sum in C -/

section Defined

variable {times : Set Int} {env : Env} {db : Db} {key : Bytes} {content : Option Bytes}

theorem onKeyChecked_map {now : Int} {sum : Option Int}
    {tested : Option Robj → Option (Update × Bytes)} {body : Option Robj → Update × Bytes}
    (decides : tested (live now db key) = sum.map fun _ => body (live now db key)) :
    onKeyChecked now db key tested = sum.map fun _ => onKey now db key body := by
  rw [onKeyChecked, lookupKey_live, decides]
  cases sum with
  | none => rfl
  | some nv =>
    have same : onKey now db key (fun _ => body (live now db key)) = onKey now db key body := by
      rw [onKey, onKey, ← lookupKey_live]
    exact congrArg some same

theorem incrDecrStepChecked_eq (delta v expireAt : Int) :
    incrDecrStepChecked delta v expireAt =
      (checked (v + delta)).map fun _ => incrDecrStep delta v expireAt := by
  cases sum : checked (v + delta) with
  | none => rw [incrDecrStepChecked, sum]; rfl
  | some nv =>
    obtain ⟨adds, clear⟩ := addChecked_of_checked sum
    rw [incrDecrStepChecked, sum, Option.map_some, incrDecrStep, adds]
    exact if_neg clear

theorem incrDecrChecked_eq {delta v : Int} (name : Bytes) (among : env.now 0 ∈ times)
    (holds : (Counter.string key).Holds times db content)
    (read : counterNumber content = some v) :
    incrDecrChecked delta env db [name, key] =
      (checked (v + delta)).map fun _ => incrDecr delta env db [name, key] := by
  show onKeyChecked (env.now 0) db key (incrDecrBodyChecked delta) =
    (checked (v + delta)).map fun _ => onKey (env.now 0) db key (incrDecrBody delta)
  refine onKeyChecked_map ?_
  rcases holds with ⟨steady, rfl⟩ | ⟨s, expireAt, steady, rfl⟩
  · obtain rfl := Option.some.inj read
    rw [steady _ among]
    exact incrDecrStepChecked_eq delta 0 (-1)
  · have number : stringToLlN s = some v := read
    rw [steady _ among]
    simp only [incrDecrBodyChecked, incrDecrBody, Kind.bodyChecked, Kind.body, stringKind, number]
    exact incrDecrStepChecked_eq delta v expireAt

theorem hincrbyHashChecked_eq {field : Bytes} {h : Dict Bytes} {v : Int} (delta : Int)
    (number : hashInteger h field = some v) :
    hincrbyHashChecked field delta h =
      (checked (v + delta)).map fun _ => hincrbyHash field delta h := by
  cases sum : checked (v + delta) with
  | none => simp only [hincrbyHashChecked, number, sum]; rfl
  | some nv =>
    obtain ⟨adds, clear⟩ := addChecked_of_checked sum
    simp only [hincrbyHashChecked, number, sum, Option.map_some, hincrbyHash, adds]
    exact if_neg clear

theorem hincrbyChecked_eq {name increment : Bytes} {delta v : Int} (word : Bytes)
    (among : env.now 0 ∈ times) (accepted : stringToLl increment = some delta)
    (holds : (Counter.field key name).Holds times db content)
    (read : counterNumber content = some v) :
    cmdHincrbyChecked env db [word, key, name, increment] =
      (checked (v + delta)).map fun _ => cmdHincrby env db [word, key, name, increment] := by
  have acts : cmdHincrby env db [word, key, name, increment] =
      onKey (env.now 0) db key (hashKind.upsert env.seed (hincrbyHash name delta)) := by
    simp only [cmdHincrby, arg, List.getD_cons_succ, List.getD_cons_zero, accepted]
    rfl
  have tested : cmdHincrbyChecked env db [word, key, name, increment] =
      onKeyChecked (env.now 0) db key (hincrbyBodyChecked env.seed name delta) := by
    simp only [cmdHincrbyChecked, arg, List.getD_cons_succ, List.getD_cons_zero, accepted]
    rfl
  rw [acts, tested]
  refine onKeyChecked_map ?_
  rcases holds with ⟨steady, rfl⟩ | ⟨h, expireAt, steady, rfl⟩
  · have zero : hashInteger (dictCreate env.seed) name = some v := by rw [← read]; rfl
    rw [steady _ among]
    simp only [hincrbyBodyChecked, Kind.bodyChecked, hincrbyHashChecked_eq delta zero]
    cases checked (v + delta) <;> rfl
  · have number : hashInteger h name = some v := (hashInteger_eq h name).trans read
    rw [steady _ among]
    simp only [hincrbyBodyChecked, Kind.bodyChecked, hashKind, hincrbyHashChecked_eq delta number]
    cases checked (v + delta) <;> rfl

/-- The handler with its sum tested is the handler where the sum is in range. -/
theorem CounterStep.serveChecked_eq {counter : Counter} {v : Int}
    (step : CounterStep counter times) (holds : counter.Holds times db content)
    (read : counterNumber content = some v) :
    step.call.serveChecked step.env db =
      (checked (v + step.delta)).map fun _ => step.call.serve step.env db := by
  obtain ⟨env, call, delta, rfl, timed, accepted⟩ := step
  cases call with
  | incr key =>
    obtain rfl := Option.some.inj accepted
    exact incrDecrChecked_eq _ timed holds read
  | decr key =>
    obtain rfl := Option.some.inj accepted
    exact incrDecrChecked_eq _ timed holds read
  | hincrby key name increment => exact hincrbyChecked_eq _ timed accepted holds read

/-- The operands leave the sum in range. A number that is read is never the least one, so there is
always room to count down by one. -/
def CounterCall.Safe (v delta : Int) : CounterCall → Prop
  | incr _ => v ≠ 2 ^ 63 - 1
  | decr _ => True
  | hincrby _ _ _ =>
    (0 ≤ delta → v ≤ 2 ^ 63 - 1 - delta) ∧ (delta < 0 → -(2 ^ 63) - delta ≤ v)

theorem CounterCall.safe_iff {call : CounterCall} {v delta : Int}
    (accepted : call.delta = some delta) (read : counterNumber content = some v) :
    call.Safe v delta ↔ -(2 ^ 63) ≤ v + delta ∧ v + delta < 2 ^ 63 := by
  have stored := counterNumber_range read
  have given := CounterCall.delta_range accepted
  cases call with
  | incr key =>
    obtain rfl := Option.some.inj accepted
    show v ≠ 2 ^ 63 - 1 ↔ _
    omega
  | decr key =>
    obtain rfl := Option.some.inj accepted
    exact iff_of_true trivial (by omega)
  | hincrby key name increment =>
    show (0 ≤ delta → v ≤ 2 ^ 63 - 1 - delta) ∧ (delta < 0 → -(2 ^ 63) - delta ≤ v) ↔ _
    omega

/-- **The sum of a counter is defined in C exactly when its operands leave room for it.** -/
theorem counter_sum_defined_iff {counter : Counter} {v : Int} (step : CounterStep counter times)
    (holds : counter.Holds times db content) (read : counterNumber content = some v) :
    step.call.serveChecked step.env db = some (step.call.serve step.env db) ↔
      step.call.Safe v step.delta := by
  rw [step.serveChecked_eq holds read, CounterCall.safe_iff step.read read, ← checked_isSome]
  cases checked (v + step.delta) with
  | none => exact iff_of_false (by simp) (by simp)
  | some nv => exact iff_of_true rfl rfl

theorem counter_sum_defined :
    cmdHincrbyChecked sampleEnv (singleStore "a" (.string (text "x")))
        [text "hincrby", text "k", text "f", text "5"] =
      some (cmdHincrby sampleEnv (singleStore "a" (.string (text "x")))
        [text "hincrby", text "k", text "f", text "5"]) :=
  have absent : (Counter.field (text "k") (text "f")).Holds Set.univ
      (singleStore "a" (.string (text "x"))) none := .inl ⟨fun t _ => rfl, rfl⟩
  (counter_sum_defined_iff
    (⟨sampleEnv, .hincrby (text "k") (text "f") (text "5"), 5, rfl, trivial, by decide⟩ :
      CounterStep (.field (text "k") (text "f")) Set.univ) absent rfl).mpr
        ⟨by decide, by decide⟩

/-- `INCR` at the largest `long long`: the sum overflows before the test that looks for it. -/
theorem incr_overflows :
    cmdIncrChecked sampleEnv (singleStore "k" (.string (text "9223372036854775807")))
      [text "incr", text "k"] = none := by rfl

end Defined

end Miniredis
