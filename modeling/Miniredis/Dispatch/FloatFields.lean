/-
**Numbers as text (`parse_double`, `reply_double`, `HINCRBYFLOAT`).**

A score is sent as the text that `%.17g` prints and comes back through `strtod`; a field that
`HINCRBYFLOAT` counts in holds nothing but such a text.

* `parseDouble_formatG17` — what is printed is read back bit for bit; a NaN and a subnormal number
  are refused.
* `FollowsSum` — step by step, a field follows the floating-point sum of its increments.
* `follows_sum_iff` — it does as long as no step that could be answered starts at a subnormal sum,
  which is stored and never read again.
-/

import Miniredis.Dispatch.Counters
import Miniredis.Lib.Binary64Text

namespace Miniredis

/-! ### Scores as text -/

/-- **What is printed of a number is read as that number**, unless it is a NaN or subnormal. -/
theorem parseDouble_formatG17 (d : Double) :
    parseDouble d.formatG17 = if d.isNaN || d.isSubnormal then none else some d := by
  cases nan : d.isNaN with
  | true =>
    have read := Double.strtod_nan nan
    have filled : d.formatG17 ≠ [] := fun empty => by
      rw [empty] at read
      cases read
    unfold parseDouble
    rw [if_neg filled, read]
    rfl
  | false =>
    have read := Double.strtod_formatG17 nan
    have filled : d.formatG17 ≠ [] := fun empty => by
      rw [empty] at read
      cases read
    unfold parseDouble
    rw [if_neg filled, read]
    cases d.isSubnormal with
    | true => rfl
    | false =>
      dsimp only
      rw [nan]
      rfl

/-! ### Fields that hold a number -/

/-- The number in a field; without a text it counts as zero. -/
def fieldNumber (content : Option Bytes) : Option Double :=
  match content with
  | none => some Double.zero
  | some s => parseDouble (cstr s)

/-- The sum, unless `HINCRBYFLOAT` refuses it. -/
def sumChecked (v delta : Double) : Option Double :=
  if (v.add delta).isNaN || (v.add delta).isInf then none else some (v.add delta)

/-- A step of a run on one field: an increment that is accepted, at one of the times of the run. -/
structure FloatStep (times : Set Int) where
  env : Env
  increment : Bytes
  delta : Double
  timed : env.now 0 ∈ times
  read : parseDouble increment = some delta

def FloatStep.serve {times : Set Int} (step : FloatStep times) (key name : Bytes) (db : Db) :
    Db × Bytes :=
  cmdHincrbyfloat step.env db [text "hincrbyfloat", key, name, step.increment]

section Steps

variable {times : Set Int} {db : Db} {key name : Bytes} {content : Option Bytes}

theorem hashDouble_eq (h : Dict Bytes) (name : Bytes) :
    hashDouble h name = fieldNumber (h.get name) := by
  unfold hashDouble fieldNumber
  cases h.get name <;> rfl

/-- What a step does, by what the field has. -/
structure FloatAdds (key name : Bytes) (times : Set Int) (content : Option Bytes) (delta : Double)
    (result : Db × Bytes) : Prop where
  unreadable : fieldNumber content = none →
    IsError result.2 ∧ (Counter.field key name).Holds times result.1 content
  refused {v : Double} : fieldNumber content = some v → sumChecked v delta = none →
    IsError result.2 ∧ (Counter.field key name).Holds times result.1 content
  added {v nv : Double} : fieldNumber content = some v → sumChecked v delta = some nv →
    result.2 = replyDouble nv ∧
      (Counter.field key name).Holds times result.1 (some nv.formatG17)

/-- **One step of a field.** -/
theorem FloatStep.adds (step : FloatStep times)
    (holds : (Counter.field key name).Holds times db content) :
    FloatAdds key name times content step.delta (step.serve key name db) := by
  have acts : step.serve key name db = onKey (step.env.now 0) db key
      (hashKind.upsert step.env.seed (hincrbyfloatHash name step.delta)) := by
    simp only [FloatStep.serve, cmdHincrbyfloat, arg, List.getD_cons_succ, List.getD_cons_zero,
      step.read]
    rfl
  rw [acts]
  obtain ⟨h, expireAt, rfl, after, reply⟩ :=
    holds.upserted (f := hincrbyfloatHash name step.delta) step.timed
  have same := hashDouble_eq h name
  refine ⟨fun unread => ?_, fun number refuses => ?_, fun number fits => ?_⟩
  · rw [hincrbyfloatHash, same, unread] at after reply
    exact ⟨reply ▸ isError_replyError _, .inr ⟨h, expireAt, after, rfl⟩⟩
  · unfold sumChecked at refuses
    split_ifs at refuses with wrong
    simp only [hincrbyfloatHash, same, number, if_pos wrong] at after reply
    exact ⟨reply ▸ isError_replyError _, .inr ⟨h, expireAt, after, rfl⟩⟩
  · unfold sumChecked at fits
    split_ifs at fits with wrong
    obtain rfl := Option.some.inj fits
    simp only [hincrbyfloatHash, same, number, if_neg wrong] at after reply
    exact ⟨reply, .inr ⟨_, expireAt, after, (HashTable.Table.get_set ..).trans (if_pos rfl)⟩⟩

end Steps

/-! ### Runs -/

/-- The floating-point sum, the increments that are refused left out. -/
def floatSum (v : Double) (deltas : List Double) : Double :=
  deltas.foldl (fun v delta => (sumChecked v delta).getD v) v

/-- **The field follows the sum**: each step is answered with the sum and stores its text, or it is
refused, where the sum is no finite number, and leaves the field. -/
def FollowsSum {times : Set Int} (key name : Bytes) :
    List (FloatStep times) → Db → Option Bytes → Double → Prop
  | [], _, _, _ => True
  | step :: rest, db, content, v =>
    let (after, reply) := step.serve key name db
    match sumChecked v step.delta with
    | some nv =>
      reply = replyDouble nv ∧ (Counter.field key name).Holds times after (some nv.formatG17) ∧
        FollowsSum key name rest after (some nv.formatG17) nv
    | none =>
      IsError reply ∧ (Counter.field key name).Holds times after content ∧
        FollowsSum key name rest after content v

section Runs

variable {times : Set Int} {db : Db} {key name : Bytes} {content : Option Bytes} {v : Double}

theorem follows_some {step : FloatStep times} {rest : List (FloatStep times)} {nv : Double}
    (fits : sumChecked v step.delta = some nv) :
    FollowsSum key name (step :: rest) db content v ↔
      (step.serve key name db).2 = replyDouble nv ∧
        (Counter.field key name).Holds times (step.serve key name db).1 (some nv.formatG17) ∧
        FollowsSum key name rest (step.serve key name db).1 (some nv.formatG17) nv := by
  simp only [FollowsSum, fits]

theorem follows_none {step : FloatStep times} {rest : List (FloatStep times)}
    (refuses : sumChecked v step.delta = none) :
    FollowsSum key name (step :: rest) db content v ↔
      IsError (step.serve key name db).2 ∧
        (Counter.field key name).Holds times (step.serve key name db).1 content ∧
        FollowsSum key name rest (step.serve key name db).1 content v := by
  simp only [FollowsSum, refuses]

/-- The text stands for the number: it reads back, or the number is subnormal. -/
def Stands (content : Option Bytes) (v : Double) : Prop :=
  if v.isSubnormal then fieldNumber content = none else fieldNumber content = some v

theorem stands_printed {delta nv : Double} (fits : sumChecked v delta = some nv) :
    Stands (some nv.formatG17) nv := by
  unfold sumChecked at fits
  split_ifs at fits with wrong
  rw [Bool.or_eq_true, not_or, Option.some.inj fits] at wrong
  have number : nv.isNaN = false := Bool.eq_false_of_not_eq_true wrong.1
  have printed : fieldNumber (some nv.formatG17) =
      if nv.isNaN || nv.isSubnormal then none else some nv := by
    rw [fieldNumber, cstr_of_zero_notMem (Double.zero_notMem_formatG17 nv)]
    exact parseDouble_formatG17 nv
  unfold Stands
  rw [printed, number, Bool.false_or]
  split_ifs <;> rfl

/-- Whatever text stands for the number, the run follows the sum up to the first step that starts at
a subnormal sum and could be answered. -/
theorem stands_follows_iff (steps : List (FloatStep times))
    (holds : (Counter.field key name).Holds times db content) (stands : Stands content v) :
    FollowsSum key name steps db content v ↔ ∀ before next later, steps = before ++ next :: later →
      (floatSum v (before.map (·.delta))).isSubnormal = true →
        sumChecked (floatSum v (before.map (·.delta))) next.delta = none := by
  induction steps generalizing db content v with
  | nil =>
    refine iff_of_true trivial fun before next later same => ?_
    exact absurd same (by simp)
  | cons step rest ih =>
    have adds := step.adds holds
    rw [forall_cut_cons]
    change _ ↔ (v.isSubnormal = true → sumChecked v _ = none) ∧ ∀ before next later, _ →
      (floatSum ((sumChecked v step.delta).getD v) _).isSubnormal = true →
        sumChecked (floatSum ((sumChecked v step.delta).getD v) _) _ = none
    cases sum : sumChecked v step.delta with
    | some nv =>
      rw [follows_some sum, Option.getD_some]
      cases low : v.isSubnormal with
      | false =>
        rw [Stands, low, if_neg Bool.false_ne_true] at stands
        obtain ⟨reply, after⟩ := adds.added stands sum
        rw [ih after (stands_printed sum)]
        refine ⟨fun follows => ⟨fun absurdly => ?_, follows.2.2⟩,
          fun later => ⟨reply, after, later.2⟩⟩
        cases absurdly
      | true =>
        -- the printed number is refused although the sum is finite
        rw [Stands, low, if_pos rfl] at stands
        obtain ⟨wrong, -⟩ := adds.unreadable stands
        refine iff_of_false (fun follows => ?_) fun later => ?_
        · rw [follows.1] at wrong
          exact not_isError_replyBulk _ wrong
        · have absurdly := later.1 rfl
          cases absurdly
    | none =>
      rw [follows_none sum, Option.getD_none]
      have kept : IsError (step.serve key name db).2 ∧
          (Counter.field key name).Holds times (step.serve key name db).1 content := by
        unfold Stands at stands
        split_ifs at stands
        · exact adds.unreadable stands
        · exact adds.refused stands sum
      rw [ih kept.2 stands]
      exact ⟨fun follows => ⟨fun _ => rfl, follows.2.2⟩, fun later => ⟨kept.1, kept.2, later.2⟩⟩

end Runs

/-- **When a field follows the sum of its increments.** -/
theorem follows_sum_iff {times : Set Int} {db : Db} {key name : Bytes} {content : Option Bytes}
    {v : Double} (steps : List (FloatStep times))
    (holds : (Counter.field key name).Holds times db content)
    (read : fieldNumber content = some v) (normal : v.isSubnormal = false) :
    FollowsSum key name steps db content v ↔ ∀ before next later, steps = before ++ next :: later →
      (floatSum v (before.map (·.delta))).isSubnormal = true →
        sumChecked (floatSum v (before.map (·.delta))) next.delta = none := by
  refine stands_follows_iff steps holds ?_
  rw [Stands, normal, if_neg Bool.false_ne_true]
  exact read

/-- The number `2 ^ -923`. -/
def sampleIncrement : Double := ⟨0x0640000000000000⟩

/-- `HINCRBYFLOAT` by that number, as the server prints it. -/
def sampleFloatStep : FloatStep Set.univ where
  env := sampleEnv
  increment := sampleIncrement.formatG17
  delta := sampleIncrement
  timed := trivial
  read := by rw [parseDouble_formatG17, if_neg (by decide)]

theorem new_field_follows_sum :
    FollowsSum (text "h") (text "f") [sampleFloatStep, sampleFloatStep] (dbCreate sampleSeed) none
      Double.zero := by
  have holds : (Counter.field (text "h") (text "f")).Holds Set.univ (dbCreate sampleSeed) none :=
    .inl ⟨fun _ _ => rfl, rfl⟩
  rw [follows_sum_iff _ holds rfl (by decide)]
  intro before next later same low
  cases before with
  | nil => exact absurd low (by decide)
  | cons first before =>
    obtain ⟨rfl, rest⟩ := List.cons.inj same
    cases before with
    | nil => exact absurd low (by decide)
    | cons second before => exact absurd (List.cons.inj rest).2 (by simp)

end Miniredis
