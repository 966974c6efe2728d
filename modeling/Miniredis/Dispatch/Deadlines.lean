/-
**Deadlines of `SET` (`db.c`).**

A time argument is in seconds or milliseconds, and relative or absolute (`TimeKind`); the deadline
it asks for is a number (`TimeKind.deadline`). `cmd_set` turns an absolute time into one relative to
the clock, and takes a negative relative time for none.

* `set_deadline_iff` — `SET` with a time leaves what `SET` and `PEXPIREAT` leave, except for an
  absolute time in the past.
* `set_past_persists` — such a time, replayed from a rewritten file, leaves a key for good.
-/

import Miniredis.Dispatch.Expiration

namespace Miniredis

/-! ### Times -/

section Times

/-- How a time argument counts. -/
structure TimeKind where
  seconds : Bool
  relative : Bool

namespace TimeKind

/-- The time in milliseconds. -/
def millis (kind : TimeKind) (v : Int) : Int := if kind.seconds then v * 1000 else v

/-- The deadline that is asked for at a clock value. -/
def deadline (kind : TimeKind) (now v : Int) : Int :=
  if kind.relative then now + kind.millis v else kind.millis v

/-- What `cmd_set` holds in `expire_ms`. -/
def expireMs (kind : TimeKind) (now v : Int) : Int :=
  if kind.relative then kind.millis v else wrap64 (kind.millis v - now)

end TimeKind

/-- The kind of a `SET` option. -/
def setTimeKind (option : Bytes) : TimeKind :=
  if strcaseEq option (text "EX") then ⟨true, true⟩
  else if strcaseEq option (text "PX") then ⟨false, true⟩
  else if strcaseEq option (text "EXAT") then ⟨true, false⟩
  else ⟨false, false⟩

theorem setExpireMs_eq (now v : Int) (option : Bytes) :
    setExpireMs now option v =
      if (setTimeKind option).seconds ∧ v > int64MaxSeconds then .error invalidSetExpire
      else .ok ((setTimeKind option).expireMs now v) := by
  unfold setExpireMs setTimeKind TimeKind.expireMs TimeKind.millis
  split_ifs <;> simp_all

theorem TimeKind.millis_range {kind : TimeKind} {v : Int} (low : 0 ≤ v) (high : v < 2 ^ 63)
    (fits : kind.seconds = true → v ≤ int64MaxSeconds) :
    0 ≤ kind.millis v ∧ kind.millis v < 2 ^ 63 := by
  unfold millis
  unfold int64MaxSeconds at fits
  split_ifs with seconds
  · have := fits seconds
    omega
  · exact ⟨low, high⟩

theorem stringToLl_lt {s : Bytes} {v : Int} (read : stringToLl s = some v) : v < 2 ^ 63 := by
  have range := (stringToLl_range read).2
  unfold llongMax at range
  omega

end Times

/-! ### `SET` with a time -/

section Set

variable {env : Env} {db : Db} {name key value option time : Bytes} {v now : Int}

theorem onKey_store_get (now : Int) (db : Db) (key : Bytes) (o : Robj) (reply other : Bytes) :
    (onKey now db key fun _ => (.store o, reply)).1.d.get other =
      if other = key then some o else db.d.get other := by
  by_cases same : other = key
  · rw [if_pos same, same]
    exact (HashTable.Table.get_set ..).trans (if_pos rfl)
  · rw [if_neg same, onKey_get_other same]

/-- The options of an accepted `SET` with a time. -/
theorem readSetOptions_time (clock : Nat → Int) (known : isSetExpireOption option = true)
    (read : stringToLl time = some v) (positive : 0 < v)
    (fits : (setTimeKind option).seconds = true → v ≤ int64MaxSeconds) :
    readSetOptions clock [name, key, value, option, time] =
      .ok ⟨false, false, (setTimeKind option).expireMs (clock 3) v⟩ := by
  have valid : ¬ ((setTimeKind option).seconds = true ∧ v > int64MaxSeconds) := by
    rintro ⟨seconds, large⟩
    have := fits seconds
    omega
  show setOptions clock 3 [option, time] _ = _
  rw [setOptions, if_pos known, read]
  dsimp only
  rw [if_neg (by omega), setExpireMs_eq, if_neg valid]
  rfl

/-- A `SET` with a time that replies `OK` has a positive time it can multiply. -/
theorem cmdSet_accepts (known : isSetExpireOption option = true) (read : stringToLl time = some v)
    (accepted : (cmdSet env db [name, key, value, option, time]).2 = replyOk) :
    0 < v ∧ ((setTimeKind option).seconds = true → v ≤ int64MaxSeconds) := by
  by_contra fails
  have options : readSetOptions env.now [name, key, value, option, time] =
      .error invalidSetExpire := by
    show setOptions env.now 3 [option, time] _ = _
    rw [setOptions, if_pos known, read]
    dsimp only
    split_ifs with low
    · rfl
    · have large : (setTimeKind option).seconds = true ∧ v > int64MaxSeconds := by
        by_contra small
        exact fails ⟨by omega, fun seconds => not_lt.mp fun large => small ⟨seconds, large⟩⟩
      rw [setExpireMs_eq, if_pos large]
  have refused : ¬ invalidSetExpire = replyOk := by decide
  rw [cmdSet, if_neg (by simp), ← readSetOptions, options] at accepted
  exact refused accepted

theorem cmdSet_time (still : ∀ i, env.now i = now) (known : isSetExpireOption option = true)
    (read : stringToLl time = some v) (positive : 0 < v)
    (fits : (setTimeKind option).seconds = true → v ≤ int64MaxSeconds) :
    cmdSet env db [name, key, value, option, time] = onKey now db key fun _ =>
      (.store ⟨.string value, setDeadline now ((setTimeKind option).expireMs now v)⟩, replyOk) := by
  rw [cmdSet, if_neg (by simp), ← readSetOptions,
    readSetOptions_time env.now known read positive fits]
  simp only [still]
  rfl

/-- What the store holds after an accepted `SET` with a time. -/
theorem cmdSet_time_get (still : ∀ i, env.now i = now) (known : isSetExpireOption option = true)
    (read : stringToLl time = some v) (positive : 0 < v)
    (fits : (setTimeKind option).seconds = true → v ≤ int64MaxSeconds) (other : Bytes) :
    (cmdSet env db [name, key, value, option, time]).1.d.get other =
      if other = key then
        some ⟨.string value, setDeadline now ((setTimeKind option).expireMs now v)⟩
      else db.d.get other := by
  rw [cmdSet_time still known read positive fits, onKey_store_get]

/-- `SET` without options stores the value without a deadline. -/
theorem cmdSet_plain (still : ∀ i, env.now i = now) :
    cmdSet env db [name, key, value] = onKey now db key fun _ =>
      (.store ⟨.string value, -1⟩, replyOk) := by
  have options : readSetOptions env.now [name, key, value] = .ok ⟨false, false, -1⟩ := rfl
  rw [cmdSet, if_neg (by simp), ← readSetOptions, options]
  simp only [still]
  rfl

theorem cmdPexpireat_get (db : Db) {o : Robj} {t : Int} (found : db.d.get key = some o)
    (persistent : o.expireAt = -1) (low : 0 ≤ t) (high : t < 2 ^ 63) (other : Bytes) :
    (cmdPexpireat env db [name, key, Decimal.renderInt t]).1.d.get other =
      if other = key then some { o with expireAt := t } else db.d.get other := by
  have fresh : Unexpired (env.now 0) db key := by
    intro o' there
    rw [found] at there
    cases there
    simp [keyExpired, persistent]
  have runs : cmdPexpireat env db [name, key, Decimal.renderInt t] =
      onKey (env.now 0) db key (expireatBody t) := by
    rw [cmdPexpireat, cmdExpireatGeneric, if_neg (by simp)]
    have read : stringToLl (arg [name, key, Decimal.renderInt t] 2) = some t :=
      stringToLl_renderInt low high
    rw [read]
    dsimp only
    rw [if_neg (by omega)]
    rfl
  rw [runs]
  by_cases same : other = key
  · subst same
    rw [if_pos rfl]
    simp [onKey, lookupKey_unexpired fresh, found, expireatBody, Update.apply,
      HashTable.Table.get_write]
  · rw [if_neg same, onKey_get_other same]

/-- The deadline `SET` stores is the one asked for, or none at all. -/
theorem setDeadline_eq (kind : TimeKind) (clock : -(2 ^ 63) ≤ now ∧ now < 2 ^ 63)
    (millis : 0 ≤ kind.millis v ∧ kind.millis v < 2 ^ 63)
    (fits : kind.deadline now v < 2 ^ 63) :
    setDeadline now (kind.expireMs now v) =
      if kind.relative ∨ (now ≤ kind.millis v ∧ kind.millis v - now < 2 ^ 63)
      then kind.deadline now v else -1 := by
  unfold TimeKind.expireMs TimeKind.deadline at *
  unfold setDeadline
  cases relative : kind.relative with
  | true =>
    rw [relative] at fits
    simp only [if_true, true_or] at fits ⊢
    rw [if_neg (by omega), wrap64_of_range (by omega) fits]
  | false =>
    simp only [Bool.false_eq_true, if_false, false_or]
    by_cases high : kind.millis v - now < 2 ^ 63
    · rw [wrap64_of_range (by omega) high]
      by_cases past : kind.millis v - now < 0
      · rw [if_pos past, if_neg (by omega)]
      · rw [if_neg past, if_pos (by omega), wrap64_of_range (by omega) (by omega)]
        omega
    · -- a clock far below zero: the difference wraps to a negative one
      rw [wrap64_of_above (by omega) (by omega), if_pos (by omega), if_neg (by omega)]

/-- **When `SET` honours a time**: a relative time exactly when its deadline is not negative, an
absolute time exactly when it has not passed (and lies less than `2 ^ 63` ahead). -/
theorem set_deadline_iff (env : Env) (db : Db) (name key value option time name' : Bytes)
    (v now : Int) (still : ∀ i, env.now i = now) (clock : -(2 ^ 63) ≤ now ∧ now < 2 ^ 63)
    (known : isSetExpireOption option = true) (read : stringToLl time = some v)
    (accepted : (cmdSet env db [name, key, value, option, time]).2 = replyOk)
    (fits : (setTimeKind option).deadline now v < 2 ^ 63) :
    let deadline := (setTimeKind option).deadline now v
    let after := (cmdSet env db [name, key, value, option, time]).1
    let spelled := (cmdPexpireat env (cmdSet env db [name, key, value]).1
      [name', key, Decimal.renderInt deadline]).1
    (∀ t, live t after = live t spelled ∧ (live t after key = none ↔ deadline ≤ t)) ↔
      0 ≤ deadline ∧ ((setTimeKind option).relative = false →
        now ≤ deadline ∧ deadline - now < 2 ^ 63) := by
  intro deadline after spelled
  obtain ⟨positive, small⟩ := cmdSet_accepts known read accepted
  have millis := TimeKind.millis_range positive.le (stringToLl_lt read) small
  have get : ∀ other, after.d.get other = if other = key then
        some ⟨.string value, setDeadline now ((setTimeKind option).expireMs now v)⟩
      else db.d.get other := cmdSet_time_get still known read positive small
  have here (t : Int) : live t after key = none ↔
      0 ≤ setDeadline now ((setTimeKind option).expireMs now v) ∧
        setDeadline now ((setTimeKind option).expireMs now v) ≤ t := by
    rw [live_eq_none_iff ((get key).trans (if_pos rfl)), keyExpired, Bool.and_eq_true,
      decide_eq_true_eq, decide_eq_true_eq]
  have stored := setDeadline_eq (setTimeKind option) clock millis fits
  have absolute (given : (setTimeKind option).relative = false) :
      deadline = (setTimeKind option).millis v := if_neg (by simp [given])
  constructor
  · intro honoured
    have gone := (here deadline).mp ((honoured deadline).2.mpr le_rfl)
    rw [stored] at gone
    split_ifs at gone with holds
    · refine ⟨gone.1, fun given => ?_⟩
      rw [absolute given]
      exact holds.resolve_left (by simp [given])
    · -- stored as -1, the key does not expire
      exact absurd gone.1 (by decide)
  · rintro ⟨nonneg, ahead⟩ t
    have holds : (setTimeKind option).relative = true ∨
        (now ≤ (setTimeKind option).millis v ∧ (setTimeKind option).millis v - now < 2 ^ 63) := by
      cases given : (setTimeKind option).relative with
      | true => exact .inl rfl
      | false => exact .inr (absolute given ▸ ahead given)
    have exactly : setDeadline now ((setTimeKind option).expireMs now v) = deadline :=
      stored.trans (if_pos holds)
    refine ⟨funext fun other => live_congr ?_, ?_⟩
    · have plain (other : Bytes) : (cmdSet env db [name, key, value]).1.d.get other =
          if other = key then some ⟨.string value, -1⟩ else db.d.get other := by
        rw [cmdSet_plain still, onKey_store_get]
      rw [get, exactly, cmdPexpireat_get _ ((plain key).trans (if_pos rfl)) rfl nonneg fits, plain]
      split_ifs <;> rfl
    · rw [here, exactly]
      exact ⟨fun both => both.2, fun late => ⟨nonneg, late⟩⟩

theorem set_deadline_iff_sample :
    let after := (cmdSet (sampleEnvAt 5) (singleStore "a" (.string (text "x")))
      [text "set", text "k", text "v", text "EX", text "7"]).1
    live 7004 after (text "k") ≠ none ∧ live 7005 after (text "k") = none := by
  have honoured := (set_deadline_iff (sampleEnvAt 5) (singleStore "a" (.string (text "x")))
    (text "set") (text "k") (text "v") (text "EX") (text "7") (text "pexpireat") 7 5
    (fun _ => rfl) (by decide) (by decide) (by decide) (by decide) (by decide)).mpr (by decide)
  exact ⟨fun gone => absurd ((honoured 7004).2.mp gone) (by decide),
    (honoured 7005).2.mpr (by decide)⟩

/-- `SET k v PXAT 1` at time 2000, as the file that was rewritten before has it, leaves a key that
never expires, where `PEXPIREAT` would have made it expire. -/
theorem set_past_persists :
    let argv := [text "SET", text "k", text "v", text "PXAT", text "1"]
    let db : Db := ⟨dictCreate sampleSeed, 0⟩
    aofRewriteKey (text "k") ⟨.string (text "v"), 1⟩ = [argv] ∧
      (cmdSet (sampleEnvAt 2000) db argv).2 = replyOk ∧
      (cmdSet (sampleEnvAt 2000) db argv).1.d.get (text "k") = some ⟨.string (text "v"), -1⟩ ∧
      live 2000 (cmdPexpireat (sampleEnvAt 2000)
        (cmdSet (sampleEnvAt 2000) db [text "SET", text "k", text "v"]).1
        [text "PEXPIREAT", text "k", text "1"]).1 (text "k") = none := by
  refine ⟨?_, ?_, ?_, ?_⟩
  · rfl
  · decide
  · rfl
  · decide

end Set

end Miniredis
