/-
**Deadlines without overflow (`db.c`).**

Nine commands and options compute a deadline in `int64_t`, each with checks of its own. The handlers
of `Model.Deadlines` stop at an overflow; where they do not, they are the handlers that wrap
(`DeadlineCall.handlerChecked_yields`).

* `deadline_exact_iff` — no operation overflows and the exact deadline is stored, unless a relative
  time leads beyond `INT64_MAX` or an absolute time given to `SET` has passed.
* `pexpire_overflows` — the largest relative time wraps to a deadline that means none.
-/

import Miniredis.Dispatch.Deadlines
import Miniredis.Model.Deadlines

namespace Miniredis

/-! ### Arithmetic without overflow -/

section Overflow

variable {α β : Type} {db : Db} {now : Int}

/-- Where a computation is defined, it has this value. -/
def Yields (x : Option α) (y : α) : Prop := ∀ r, x = some r → y = r

theorem Yields.some (y : α) : Yields (some y) y := fun _ same => Option.some.inj same

theorem Yields.none (y : α) : Yields none y := fun _ same => by cases same

theorem Yields.bind {x : Option α} {y : α} {f : α → Option β} {z : β} (first : Yields x y)
    (next : Yields (f y) z) : Yields (x.bind f) z := by
  intro r same
  obtain ⟨a, here, there⟩ := Option.bind_eq_some_iff.mp same
  rw [← first a here] at there
  exact next r there

theorem Yields.checked (value : Int) : Yields (Miniredis.checked value) value :=
  fun _ same => (checked_eq_some.mp same).2

theorem Yields.checked_wrap (value : Int) : Yields (Miniredis.checked value) (wrap64 value) := by
  intro r same
  obtain ⟨range, rfl⟩ := checked_eq_some.mp same
  exact wrap64_of_range range.1 range.2

theorem Yields.onKey {key : Bytes} {body : Option Robj → Option (Update × Bytes)}
    {body' : Option Robj → Update × Bytes} (same : ∀ found, Yields (body found) (body' found)) :
    Yields (onKeyChecked now db key body) (Miniredis.onKey now db key body') :=
  .bind (same _) (.some _)

theorem setExpireMsChecked_yields (now : Int) (option : Bytes) (v : Int) :
    Yields (setExpireMsChecked now option v) (setExpireMs now option v) := by
  unfold setExpireMsChecked setExpireMs
  split_ifs
  · exact .some _
  · exact .bind (.checked _) (.some _)
  · exact .some _
  · exact .some _
  · exact .bind (.checked _) (.bind (.checked_wrap _) (.some _))
  · exact .bind (.checked_wrap _) (.some _)

theorem setOptionsChecked_yields (clock : Nat → Int) (i : Nat) (words : List Bytes)
    (options : SetOptions) :
    Yields (setOptionsChecked clock i words options) (setOptions clock i words options) := by
  fun_induction setOptions clock i words options with
  | case1 => exact .some _
  | case2 _ a options timed =>
    rw [setOptionsChecked, if_pos timed]
    exact .some _
  | case3 _ a options plain nx =>
    rw [setOptionsChecked, if_neg plain, if_pos nx]
    exact .some _
  | case4 _ a options plain other xx =>
    rw [setOptionsChecked, if_neg plain, if_neg other, if_pos xx]
    exact .some _
  | case5 _ a options plain other unknown =>
    rw [setOptionsChecked, if_neg plain, if_neg other, if_neg unknown]
    exact .some _
  | case6 i a t rest options timed unread =>
    rw [setOptionsChecked, if_pos timed, unread]
    exact .some _
  | case7 i a t rest options timed v read low =>
    rw [setOptionsChecked, if_pos timed, read]
    dsimp only
    rw [if_pos low]
    exact .some _
  | case8 i a t rest options timed v read positive reply refused =>
    have yields := setExpireMsChecked_yields (clock i) a v
    rw [setOptionsChecked, if_pos timed, read]
    dsimp only
    rw [if_neg positive]
    cases ran : setExpireMsChecked (clock i) a v with
    | none => exact .none _
    | some result =>
      rw [← yields result ran, refused]
      exact .some _
  | case9 i a t rest options timed v read positive ms taken ih =>
    have yields := setExpireMsChecked_yields (clock i) a v
    rw [setOptionsChecked, if_pos timed, read]
    dsimp only
    rw [if_neg positive]
    cases ran : setExpireMsChecked (clock i) a v with
    | none => exact .none _
    | some result =>
      rw [← yields result ran, taken]
      exact ih
  | case10 i a t rest options plain nx ih =>
    rw [setOptionsChecked, if_neg plain, if_pos nx]
    exact ih
  | case11 i a t rest options plain other xx ih =>
    rw [setOptionsChecked, if_neg plain, if_neg other, if_pos xx]
    exact ih
  | case12 i a t rest options plain other unknown =>
    rw [setOptionsChecked, if_neg plain, if_neg other, if_neg unknown]
    exact .some _

theorem setBodyChecked_yields (options : SetOptions) (now : Int) (value : Bytes)
    (found : Option Robj) :
    Yields (setBodyChecked options now value found) (setBody options now value found) := by
  unfold setBodyChecked setBody
  split_ifs
  · exact .some _
  · exact .some _
  · refine .bind ?_ (.some _)
    unfold setDeadlineChecked setDeadline
    split_ifs
    · exact .some _
    · exact .checked_wrap _

theorem cmdSetChecked_yields (env : Env) (db : Db) (argv : Argv) :
    Yields (cmdSetChecked env db argv) (cmdSet env db argv) := by
  have yields := setOptionsChecked_yields env.now 3 (argv.drop 3) ⟨false, false, -1⟩
  unfold cmdSetChecked cmdSet
  split_ifs
  · exact .some _
  cases ran : setOptionsChecked env.now 3 (argv.drop 3) ⟨false, false, -1⟩ with
  | none => exact .none _
  | some result =>
    rw [yields result ran]
    cases result with
    | error reply => exact .some _
    | ok options =>
      dsimp only
      split_ifs
      · exact .some _
      · exact .onKey fun found => setBodyChecked_yields options _ _ found

theorem cmdSetexChecked_yields (env : Env) (db : Db) (argv : Argv) :
    Yields (cmdSetexChecked env db argv) (cmdSetex env db argv) := by
  unfold cmdSetexChecked cmdSetex
  split_ifs
  · exact .some _
  cases stringToLl (arg argv 2) with
  | none => exact .some _
  | some secs =>
    dsimp only
    split_ifs
    · exact .some _
    · exact .bind (.checked _) (.bind (.checked_wrap _) (.some _))

theorem expireBodyChecked_yields (isMs : Bool) (name : Bytes) (v now : Int)
    (found : Option Robj) :
    Yields (expireBodyChecked isMs name v now found) (expireBody isMs name v now found) := by
  unfold expireBodyChecked expireBody
  cases found with
  | none => exact .some _
  | some o =>
    by_cases large : (!isMs && decide (v > int64MaxSeconds)) = true
    · simp only [if_pos large]
      exact .some _
    simp only [if_neg large]
    cases isMs with
    | true => exact .bind (.some _) (.bind (.checked_wrap _) (.some _))
    | false => exact .bind (.checked _) (.bind (.checked_wrap _) (.some _))

theorem cmdExpireGenericChecked_yields (isMs : Bool) (env : Env) (db : Db) (argv : Argv) :
    Yields (cmdExpireGenericChecked isMs env db argv) (cmdExpireGeneric isMs env db argv) := by
  unfold cmdExpireGenericChecked cmdExpireGeneric
  split_ifs
  · exact .some _
  cases stringToLl (arg argv 2) with
  | none => exact .some _
  | some v =>
    dsimp only
    split_ifs
    · exact .some _
    · exact .onKey fun found => expireBodyChecked_yields isMs _ v _ found

theorem expireatBodyChecked_yields (isMs : Bool) (ts : Int) (found : Option Robj) :
    Yields (expireatBodyChecked isMs ts found)
      (expireatBody (if isMs then ts else ts * 1000) found) := by
  cases found with
  | none => exact .some _
  | some o =>
    cases isMs with
    | true => exact .bind (.some _) (.some _)
    | false => exact .bind (.checked _) (.some _)

theorem cmdExpireatGenericChecked_yields (isMs : Bool) (env : Env) (db : Db) (argv : Argv) :
    Yields (cmdExpireatGenericChecked isMs env db argv) (cmdExpireatGeneric isMs env db argv) := by
  unfold cmdExpireatGenericChecked cmdExpireatGeneric
  by_cases arity : argv.length ≠ 3
  · rw [if_pos arity, if_pos arity]
    exact .some _
  rw [if_neg arity, if_neg arity]
  cases stringToLl (arg argv 2) with
  | none => exact .some _
  | some ts =>
    dsimp only
    split
    · exact .some _
    split
    · exact .some _
    · exact .onKey fun found => expireatBodyChecked_yields isMs ts found

end Overflow

/-! ### Exact deadlines -/

section Exact

/-- A command, or an option of one, that stores a deadline. -/
inductive DeadlineCall where
  | set (option : Bytes) (known : isSetExpireOption option = true)
  | setex
  | expire (isMs : Bool)
  | expireat (isMs : Bool)

namespace DeadlineCall

/-- How the call counts its time. -/
def kind : DeadlineCall → TimeKind
  | set option _ => setTimeKind option
  | setex => ⟨true, true⟩
  | expire isMs => ⟨!isMs, true⟩
  | expireat isMs => ⟨!isMs, false⟩

def argv (call : DeadlineCall) (name key value time : Bytes) : Argv :=
  match call with
  | set option _ => [name, key, value, option, time]
  | setex => [name, key, time, value]
  | expire _ | expireat _ => [name, key, time]

def handler : DeadlineCall → Handler
  | set _ _ => cmdSet
  | setex => cmdSetex
  | expire isMs => cmdExpireGeneric isMs
  | expireat isMs => cmdExpireatGeneric isMs

def handlerChecked : DeadlineCall → CheckedHandler
  | set _ _ => cmdSetChecked
  | setex => cmdSetexChecked
  | expire isMs => cmdExpireGenericChecked isMs
  | expireat isMs => cmdExpireatGenericChecked isMs

/-- The reply of a call that has stored its deadline. -/
def success : DeadlineCall → Bytes
  | set _ _ | setex => replyOk
  | expire _ | expireat _ => replyInteger 1

theorem handlerChecked_yields (call : DeadlineCall) (env : Env) (db : Db) (argv : Argv) :
    Yields (call.handlerChecked env db argv) (call.handler env db argv) := by
  cases call with
  | set option known => exact cmdSetChecked_yields env db argv
  | setex => exact cmdSetexChecked_yields env db argv
  | expire isMs => exact cmdExpireGenericChecked_yields isMs env db argv
  | expireat isMs => exact cmdExpireatGenericChecked_yields isMs env db argv

/-- The deadline the call is to store lies in `int64_t`, and is not in the past for a `SET`. -/
def Sound (call : DeadlineCall) (now v : Int) : Prop :=
  match call with
  | set option _ =>
    if (setTimeKind option).relative then now + (setTimeKind option).millis v < 2 ^ 63
    else now ≤ (setTimeKind option).millis v
  | setex | expire _ => now + call.kind.millis v < 2 ^ 63
  | expireat _ => True

end DeadlineCall

variable {env : Env} {db : Db} {name key value option time : Bytes} {v now : Int}

/-- A checked call stores the deadline it computes. -/
def Stores (result : Option (Db × Bytes)) (key reply : Bytes) : Option Int → Prop
  | none => result = none
  | some d => ∃ after o, result = some (after, reply) ∧ after.d.get key = some o ∧ o.expireAt = d

theorem Stores.iff {result : Option (Db × Bytes)} {reply : Bytes} {computed : Option Int}
    (stores : Stores result key reply computed) (d : Int) :
    (∃ after o, result = some (after, reply) ∧ after.d.get key = some o ∧ o.expireAt = d) ↔
      computed = some d := by
  cases computed with
  | none =>
    refine iff_of_false ?_ (by simp)
    rintro ⟨after, o, ran, -, -⟩
    rw [show result = none from stores] at ran
    cases ran
  | some d' =>
    obtain ⟨after, o, ran, found, rfl⟩ := stores
    rw [ran]
    constructor
    · rintro ⟨after', o', same, found', rfl⟩
      cases same
      rw [found] at found'
      cases found'
      rfl
    · rintro ⟨⟩
      exact ⟨after, o, rfl, found, rfl⟩

theorem checked_add_iff {a b : Int} (low : 0 ≤ a + b) :
    checked (a + b) = some (a + b) ↔ a + b < 2 ^ 63 := by
  rw [checked_eq_some]
  omega

theorem checked_product (low : 0 ≤ v) (small : v ≤ int64MaxSeconds) :
    checked (v * 1000) = some (v * 1000) := by
  unfold int64MaxSeconds at small
  exact checked_of_range (by omega) (by omega)

theorem Stores.onKey_store {body : Option Robj → Option (Update × Bytes)} {computed : Option Int}
    {reply : Bytes} (val : Value)
    (decides : ∀ found, body found = computed.bind fun d => some (.store ⟨val, d⟩, reply)) :
    Stores (onKeyChecked now db key body) key reply computed := by
  unfold onKeyChecked
  rw [decides]
  cases computed with
  | none => rfl
  | some d =>
    refine ⟨_, ⟨val, d⟩, rfl, ?_, rfl⟩
    exact (onKey_store_get now db key ⟨val, d⟩ reply key).trans (if_pos rfl)

theorem Stores.onKey_write {body : Option Robj → Option (Update × Bytes)} {computed : Option Int}
    {o : Robj} {reply : Bytes} (found : live now db key = some o)
    (decides : body (some o) =
      computed.bind fun d => some (.write { o with expireAt := d }, reply)) :
    Stores (onKeyChecked now db key body) key reply computed := by
  unfold onKeyChecked
  rw [lookupKey_live, found, decides]
  cases computed with
  | none => rfl
  | some d =>
    have there : (lookupKey now db key).2.d.get key = some o := by
      rw [← lookupKey_fst, lookupKey_live, found]
    refine ⟨_, { o with expireAt := d }, rfl, ?_, rfl⟩
    show ((lookupKey now db key).2.d.write key { o with expireAt := d }).get key = _
    rw [HashTable.Table.get_write, if_pos rfl, there]
    rfl

theorem setExpireMsChecked_eq (low : 0 ≤ now) (high : now ≤ 2 ^ 53) (positive : 0 < v)
    (range : v < 2 ^ 63) (fits : (setTimeKind option).seconds = true → v ≤ int64MaxSeconds) :
    setExpireMsChecked now option v = some (.ok (if (setTimeKind option).relative
      then (setTimeKind option).millis v else (setTimeKind option).millis v - now)) := by
  have product := checked_product positive.le
  by_cases ex : strcaseEq option (text "EX") = true
  · have kind : setTimeKind option = ⟨true, true⟩ := if_pos ex
    rw [kind] at fits ⊢
    rw [setExpireMsChecked, if_pos ex, if_neg (not_lt.mpr (fits rfl)), product (fits rfl)]
    rfl
  by_cases px : strcaseEq option (text "PX") = true
  · have kind : setTimeKind option = ⟨false, true⟩ := (if_neg ex).trans (if_pos px)
    rw [kind, setExpireMsChecked, if_neg ex, if_pos px]
    rfl
  by_cases exat : strcaseEq option (text "EXAT") = true
  · have kind : setTimeKind option = ⟨true, false⟩ :=
      (if_neg ex).trans ((if_neg px).trans (if_pos exat))
    rw [kind] at fits ⊢
    have small := fits rfl
    have difference : checked (v * 1000 - now) = some (v * 1000 - now) := by
      unfold int64MaxSeconds at small
      exact checked_of_range (by omega) (by omega)
    rw [setExpireMsChecked, if_neg ex, if_neg px, if_pos exat, if_neg (not_lt.mpr small),
      product small, Option.bind_eq_bind, Option.bind_some, difference]
    rfl
  · have kind : setTimeKind option = ⟨false, false⟩ :=
      (if_neg ex).trans ((if_neg px).trans (if_neg exat))
    rw [kind, setExpireMsChecked, if_neg ex, if_neg px, if_neg exat,
      checked_of_range (by omega) (by omega)]
    rfl

theorem cmdSet_stores (still : ∀ i, env.now i = now) (low : 0 ≤ now) (high : now ≤ 2 ^ 53)
    (known : isSetExpireOption option = true) (read : stringToLl time = some v) (positive : 0 < v)
    (fits : (setTimeKind option).seconds = true → v ≤ int64MaxSeconds) :
    Stores (cmdSetChecked env db [name, key, value, option, time]) key replyOk
      (setDeadlineChecked now (if (setTimeKind option).relative
        then (setTimeKind option).millis v else (setTimeKind option).millis v - now)) := by
  have options := setExpireMsChecked_eq low high positive (stringToLl_lt read) fits
  generalize (if (setTimeKind option).relative = true then (setTimeKind option).millis v
    else (setTimeKind option).millis v - now) = ms at options ⊢
  have parsed : setOptionsChecked env.now 3 [option, time] ⟨false, false, -1⟩ =
      some (.ok ⟨false, false, ms⟩) := by
    rw [setOptionsChecked, if_pos known, read]
    dsimp only
    rw [if_neg (by omega), still, options]
    rfl
  unfold cmdSetChecked
  rw [if_neg (by simp)]
  simp only [List.drop_succ_cons, List.drop_zero, parsed, Bool.and_self, Bool.false_eq_true,
    if_false, still]
  exact .onKey_store (.string value) fun _ => rfl

theorem cmdSetex_accepts (read : stringToLl time = some v)
    (accepted : (cmdSetex env db [name, key, time, value]).2 = replyOk) :
    0 < v ∧ v ≤ int64MaxSeconds := by
  have refused : ¬ replyError (text "invalid expire time in 'setex' command") = replyOk := by decide
  have parsed : stringToLl (arg [name, key, time, value] 2) = some v := read
  rw [cmdSetex, if_neg (by simp), parsed] at accepted
  by_contra fails
  have outside : v ≤ 0 ∨ v > int64MaxSeconds := by omega
  dsimp only at accepted
  rw [if_pos outside] at accepted
  exact refused accepted

theorem cmdSetex_stores (still : ∀ i, env.now i = now) (read : stringToLl time = some v)
    (positive : 0 < v) (fits : v ≤ int64MaxSeconds) :
    Stores (cmdSetexChecked env db [name, key, time, value]) key replyOk
      (checked (now + v * 1000)) := by
  have parsed : stringToLl (arg [name, key, time, value] 2) = some v := read
  rw [cmdSetexChecked, if_neg (by simp), parsed]
  dsimp only
  rw [if_neg (by omega), checked_product positive.le fits, still, Option.bind_eq_bind,
    Option.bind_some]
  cases checked (now + v * 1000) with
  | none => rfl
  | some d =>
    refine ⟨_, ⟨.string value, d⟩, rfl, ?_, rfl⟩
    exact (HashTable.Table.get_set ..).trans (if_pos rfl)

/-- A command that replies 1, and 0 for a missing key, found its key. -/
theorem found_of_reply_one {body : Option Robj → Update × Bytes}
    (missing : (body none).2 = replyInteger 0)
    (accepted : (onKey now db key body).2 = replyInteger 1) :
    ∃ o, live now db key = some o ∧ (body (some o)).2 = replyInteger 1 := by
  rw [(onKey_live ..).2] at accepted
  cases found : live now db key with
  | none =>
    rw [found, missing] at accepted
    exact absurd (replyInteger_injective accepted) (by decide)
  | some o =>
    rw [found] at accepted
    exact ⟨o, rfl, accepted⟩

/-- `EXPIRE` or `PEXPIRE` that replies 1 found its key and can multiply. -/
theorem cmdExpire_accepts {isMs : Bool} (read : stringToLl time = some v)
    (accepted : (cmdExpireGeneric isMs env db [name, key, time]).2 = replyInteger 1) :
    0 ≤ v ∧ (isMs = false → v ≤ int64MaxSeconds) ∧ ∃ o, live (env.now 0) db key = some o := by
  have parsed : stringToLl (arg [name, key, time] 2) = some v := read
  rw [cmdExpireGeneric, if_neg (by simp), parsed] at accepted
  dsimp only at accepted
  by_cases low : v < 0
  · rw [if_pos low] at accepted
    exact absurd accepted (replyError_ne_integer _ 1)
  rw [if_neg low] at accepted
  obtain ⟨o, found, set⟩ := found_of_reply_one rfl accepted
  refine ⟨not_lt.mp low, fun seconds => ?_, o, found⟩
  by_contra large
  have outside : (!isMs && decide (v > int64MaxSeconds)) = true := by
    simp [seconds, not_le.mp large]
  rw [expireBody] at set
  dsimp only at set
  rw [if_pos outside] at set
  exact absurd set (replyError_ne_integer _ 1)

theorem cmdExpire_stores {isMs : Bool} {o : Robj} (name : Bytes) (still : ∀ i, env.now i = now)
    (read : stringToLl time = some v) (low : 0 ≤ v) (fits : isMs = false → v ≤ int64MaxSeconds)
    (found : live now db key = some o) :
    Stores (cmdExpireGenericChecked isMs env db [name, key, time]) key (replyInteger 1)
      (checked (now + if isMs then v else v * 1000)) := by
  have parsed : stringToLl (arg [name, key, time] 2) = some v := read
  rw [cmdExpireGenericChecked, if_neg (by simp), parsed]
  dsimp only
  rw [if_neg (by omega), still, still]
  refine .onKey_write found ?_
  rw [expireBodyChecked]
  cases isMs with
  | true => rfl
  | false =>
    rw [if_neg (by simpa using fits rfl), checkedIf, if_pos rfl, checked_product low (fits rfl)]
    rfl

theorem cmdExpireat_accepts {isMs : Bool} (read : stringToLl time = some v)
    (accepted : (cmdExpireatGeneric isMs env db [name, key, time]).2 = replyInteger 1) :
    0 ≤ v ∧ (isMs = false → v ≤ int64MaxSeconds) ∧ ∃ o, live (env.now 0) db key = some o := by
  have parsed : stringToLl (arg [name, key, time] 2) = some v := read
  rw [cmdExpireatGeneric, if_neg (by simp), parsed] at accepted
  dsimp only at accepted
  by_cases low : v < 0
  · rw [if_pos low] at accepted
    exact absurd accepted (replyError_ne_integer _ 1)
  rw [if_neg low] at accepted
  by_cases outside : (!isMs && decide (v > int64MaxSeconds)) = true
  · rw [if_pos outside] at accepted
    exact absurd accepted (replyError_ne_integer _ 1)
  rw [if_neg outside] at accepted
  obtain ⟨o, found, -⟩ := found_of_reply_one rfl accepted
  refine ⟨not_lt.mp low, fun seconds => ?_, o, found⟩
  by_contra large
  exact outside (by simp [seconds, not_le.mp large])

theorem cmdExpireat_stores {isMs : Bool} {o : Robj} (name : Bytes) (still : ∀ i, env.now i = now)
    (read : stringToLl time = some v) (low : 0 ≤ v) (fits : isMs = false → v ≤ int64MaxSeconds)
    (found : live now db key = some o) :
    Stores (cmdExpireatGenericChecked isMs env db [name, key, time]) key (replyInteger 1)
      (some (if isMs then v else v * 1000)) := by
  have parsed : stringToLl (arg [name, key, time] 2) = some v := read
  have inside : ¬ (!isMs && decide (v > int64MaxSeconds)) = true := by
    cases isMs with
    | true => simp
    | false => simpa using fits rfl
  rw [cmdExpireatGenericChecked, if_neg (by simp), parsed]
  dsimp only
  rw [if_neg (by omega), if_neg inside, still]
  refine .onKey_write found ?_
  rw [expireatBodyChecked]
  cases isMs with
  | true => rfl
  | false =>
    rw [checkedIf, if_pos rfl, checked_product low (fits rfl)]
    rfl

/-- The deadline an accepted call computes. -/
def DeadlineCall.computed (call : DeadlineCall) (now v : Int) : Option Int :=
  match call with
  | set option _ =>
    setDeadlineChecked now (if (setTimeKind option).relative
      then (setTimeKind option).millis v else (setTimeKind option).millis v - now)
  | setex | expire _ => checked (now + call.kind.millis v)
  | expireat _ => some (call.kind.millis v)

theorem DeadlineCall.stores (call : DeadlineCall) (still : ∀ i, env.now i = now) (low : 0 ≤ now)
    (high : now ≤ 2 ^ 53) (read : stringToLl time = some v)
    (accepted : (call.handler env db (call.argv name key value time)).2 = call.success) :
    (0 ≤ call.kind.millis v ∧ call.kind.millis v < 2 ^ 63) ∧
      Stores (call.handlerChecked env db (call.argv name key value time)) key call.success
        (call.computed now v) := by
  have range := stringToLl_lt read
  cases call with
  | set option known =>
    obtain ⟨positive, fits⟩ := cmdSet_accepts known read accepted
    exact ⟨TimeKind.millis_range positive.le range fits,
      cmdSet_stores still low high known read positive fits⟩
  | setex =>
    obtain ⟨positive, fits⟩ := cmdSetex_accepts read accepted
    exact ⟨TimeKind.millis_range positive.le range fun _ => fits,
      cmdSetex_stores still read positive fits⟩
  | expire isMs =>
    obtain ⟨nonneg, fits, o, found⟩ := cmdExpire_accepts read accepted
    rw [still] at found
    refine ⟨TimeKind.millis_range nonneg range (by simpa [kind] using fits), ?_⟩
    have stores := cmdExpire_stores name still read nonneg fits found
    cases isMs <;> exact stores
  | expireat isMs =>
    obtain ⟨nonneg, fits, o, found⟩ := cmdExpireat_accepts read accepted
    rw [still] at found
    refine ⟨TimeKind.millis_range nonneg range (by simpa [kind] using fits), ?_⟩
    have stores := cmdExpireat_stores name still read nonneg fits found
    cases isMs <;> exact stores

/-- The computation is exact where the deadline is sound. -/
theorem DeadlineCall.computed_eq_iff (call : DeadlineCall) (low : 0 ≤ now)
    (millis : 0 ≤ call.kind.millis v ∧ call.kind.millis v < 2 ^ 63) :
    call.computed now v = some (call.kind.deadline now v) ↔ call.Sound now v := by
  cases call with
  | set option known =>
    have same : (set option known).kind = setTimeKind option := rfl
    rw [same] at millis ⊢
    simp only [computed, Sound, TimeKind.deadline]
    by_cases relative : (setTimeKind option).relative = true
    · rw [if_pos relative, if_pos relative, if_pos relative, setDeadlineChecked,
        if_neg (by omega)]
      exact checked_add_iff (by omega)
    · rw [if_neg relative, if_neg relative, if_neg relative, setDeadlineChecked]
      by_cases past : (setTimeKind option).millis v - now < 0
      · rw [if_pos past, Option.some.injEq]
        omega
      · rw [if_neg past, checked_eq_some]
        omega
  | setex => exact checked_add_iff (by omega)
  | expire isMs => exact checked_add_iff (by omega)
  | expireat isMs => exact iff_of_true rfl trivial

/-- **When a deadline is computed without overflow and stored exactly.** -/
theorem deadline_exact_iff (call : DeadlineCall) (env : Env) (db : Db)
    (name key value time : Bytes) (v now : Int) (still : ∀ i, env.now i = now) (low : 0 ≤ now)
    (high : now ≤ 2 ^ 53) (read : stringToLl time = some v)
    (accepted : (call.handler env db (call.argv name key value time)).2 = call.success) :
    (∃ after o,
        call.handlerChecked env db (call.argv name key value time) = some (after, call.success) ∧
        call.handler env db (call.argv name key value time) = (after, call.success) ∧
        after.d.get key = some o ∧ o.expireAt = call.kind.deadline now v ∧
        (call.kind.relative = true → now ≤ o.expireAt)) ↔
      call.Sound now v := by
  obtain ⟨millis, stores⟩ := call.stores still low high read accepted
  rw [← call.computed_eq_iff low millis, ← stores.iff]
  constructor
  · rintro ⟨after, o, ran, -, found, exactly, -⟩
    exact ⟨after, o, ran, found, exactly⟩
  · rintro ⟨after, o, ran, found, exactly⟩
    refine ⟨after, o, ran, call.handlerChecked_yields _ _ _ _ ran, found, exactly,
      fun relative => ?_⟩
    -- an exact deadline is now plus a time that is not negative
    rw [exactly, TimeKind.deadline, if_pos relative]
    omega

theorem deadline_exact_iff_sample :
    ∃ after o, cmdSetChecked (sampleEnvAt 5) (singleStore "a" (.string (text "x")))
        [text "set", text "k", text "v", text "EXAT", text "7"] = some (after, replyOk) ∧
      after.d.get (text "k") = some o ∧ o.expireAt = 7000 := by
  obtain ⟨after, o, ran, -, found, exactly, -⟩ := (deadline_exact_iff
    (.set (text "EXAT") (by decide)) (sampleEnvAt 5) (singleStore "a" (.string (text "x")))
    (text "set") (text "k") (text "v") (text "7") 7 5 (fun _ => rfl) (by decide) (by decide)
    (by decide) (by decide)).mpr (show (5 : Int) ≤ 7000 by decide)
  exact ⟨after, o, ran, found, exactly⟩

/-- `PEXPIRE` with the largest time at time 1: the sum overflows, and where it wraps the deadline
is negative, which means none. -/
theorem pexpire_overflows :
    let argv := [text "pexpire", text "k", text "9223372036854775807"]
    let db := singleStore "k" (.string (text "v"))
    cmdExpireGenericChecked true (sampleEnvAt 1) db argv = none ∧
      (cmdPexpire (sampleEnvAt 1) db argv).2 = replyInteger 1 ∧
      (cmdPexpire (sampleEnvAt 1) db argv).1.d.get (text "k") =
        some ⟨.string (text "v"), -(2 ^ 63)⟩ := by
  refine ⟨?_, ?_, ?_⟩
  · rfl
  · decide
  · rfl

end Exact

end Miniredis
