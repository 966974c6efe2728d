/-
**A string as a lock with a lease (`cmd_set`).**

Clients compete for a lock with `SET key holder NX PX ms`: who hears `OK` has it for `ms`
milliseconds, and nobody releases it before.

* `FreeFrom` — from a time on the key is there until the lease ends, and then it is not.
* `acquire_serves` — one attempt. The source reads the clock once for the lookup and once more for
  the deadline.
* `sharedLock` — the lock as an object that clients share.
* `leases_exclusive` — no two leases overlap, and an attempt fails only while a lease runs.
-/

import Miniredis.Dispatch.Objects
import Miniredis.Dispatch.Steady

namespace Miniredis

/-! ### Locks -/

/-- An attempt at a time, and the end of the lease it is for. -/
structure Acquire where
  time : Int
  stop : Int
  ordered : time ≤ stop

/-- What a lock that is free from a time on replies, and from when it is free then. -/
def lockCall (free : Int) (ask : Acquire) : Bytes × Int :=
  if ask.time < free then (replyNull, free) else (replyOk, ask.stop)

/-- The attempts that succeed. -/
def granted : Int → List Acquire → List Acquire
  | _, [] => []
  | free, ask :: asks =>
    if ask.time < free then granted free asks else ask :: granted ask.stop asks

/-- An attempt succeeds only when the lock is free. -/
theorem free_le_granted (free : Int) (asks : List Acquire) :
    ∀ ask ∈ granted free asks, free ≤ ask.time := by
  induction asks generalizing free with
  | nil => exact fun ask member => absurd member List.not_mem_nil
  | cons first asks ih =>
    intro ask member
    rw [granted] at member
    split at member
    next => exact ih free ask member
    next idle =>
      rcases List.mem_cons.mp member with rfl | member
      · exact not_lt.mp idle
      · calc free ≤ first.time := not_lt.mp idle
          _ ≤ first.stop := first.ordered
          _ ≤ ask.time := ih first.stop ask member

/-- **Leases do not overlap.** -/
theorem granted_exclusive (free : Int) (asks : List Acquire) :
    (granted free asks).Pairwise fun ask later => ask.stop ≤ later.time := by
  induction asks generalizing free with
  | nil => exact .nil
  | cons first asks ih =>
    rw [granted]
    split
    next => exact ih free
    next => exact .cons (free_le_granted first.stop asks) (ih first.stop)

/-! ### Attempts -/

/-- The command is an attempt on the lock under the key. -/
structure Acquire.Asks (key : Bytes) (ask : Acquire) (env : Env) (cmd : Command) : Prop where
  known : entryOf cmd = some (entry "set" true cmdSet)
  shape : ∃ word holder ms, ∃ v : Int,
    cmd.map cstr = [word, key, holder, text "NX", text "PX", ms] ∧
    stringToLl ms = some v ∧ 0 < v ∧ ask.time = env.now 6 ∧ ask.stop = env.now 7 + v
  clock : 0 ≤ env.now 7
  room : ask.stop < 2 ^ 63

/-- From time `t` on the key is there before time `free` and missing from then on. -/
def FreeFrom (t : Int) (db : Db) (key : Bytes) (free : Int) : Prop :=
  ∀ u, t ≤ u → ((live u db key).isSome ↔ u < free)

section Attempts

variable {t u free : Int} {db db' : Db} {key : Bytes} {env : Env}

theorem FreeFrom.agree (holds : FreeFrom t db key free) (le : t ≤ u)
    (agree : AgreeFrom u {key} db' db) : FreeFrom u db' key free := by
  intro v from_u
  rw [agree key rfl v from_u]
  exact holds v (le.trans from_u)

/-- The options of an attempt. -/
theorem setOptions_lease (now : Nat → Int) {ms : Bytes} {v : Int} (reads : stringToLl ms = some v)
    (positive : 0 < v) :
    setOptions now 3 [text "NX", text "PX", ms] ⟨false, false, -1⟩ = .ok ⟨true, false, v⟩ := by
  have nx : isSetExpireOption (text "NX") = false := by decide
  have px : isSetExpireOption (text "PX") = true := by decide
  have plain : strcaseEq (text "PX") (text "EX") = false := by decide
  have isNx : strcaseEq (text "NX") (text "NX") = true := by decide
  have isPx : strcaseEq (text "PX") (text "PX") = true := by decide
  simp only [setOptions, nx, px, isNx, reads, setExpireMs, plain, isPx, not_le.mpr positive,
    Bool.false_eq_true, if_true, if_false]

/-- An attempt is a command on the key that reads the clock twice. -/
theorem cmdSet_lease (word holder : Bytes) {ms : Bytes} {v : Int} (reads : stringToLl ms = some v)
    (positive : 0 < v) :
    cmdSet env db [word, key, holder, text "NX", text "PX", ms] =
      onKey (env.now 6) db key (setBody ⟨true, false, v⟩ (env.now 7) holder) := by
  unfold cmdSet
  simp only [List.drop_succ_cons, List.drop_zero, setOptions_lease env.now reads positive]
  rfl

/-- What is under the key is there until its deadline. -/
theorem freeFrom_of_get {o : Robj} (t : Int) (there : db.d.get key = some o)
    (deadline : 0 ≤ o.expireAt) : FreeFrom t db key o.expireAt := by
  intro u _
  rw [live, there]
  simp [Option.filter_some, keyExpired, deadline]

/-- **An attempt succeeds if the lock is free.** -/
theorem acquire_serves {v : Int} (holder : Bytes) (holds : FreeFrom t db key free)
    (le : ∀ i, t ≤ env.now i) (positive : 0 < v) (clock : 0 ≤ env.now 7)
    (room : env.now 7 + v < 2 ^ 63) {ask : Acquire} (time : ask.time = env.now 6)
    (stop : ask.stop = env.now 7 + v) :
    FreeFrom t (onKey (env.now 6) db key (setBody ⟨true, false, v⟩ (env.now 7) holder)).1 key
        (lockCall free ask).2 ∧
      (onKey (env.now 6) db key (setBody ⟨true, false, v⟩ (env.now 7) holder)).2 =
        (lockCall free ask).1 := by
  have there := onKey_get_self (env.now 6) db key (setBody ⟨true, false, v⟩ (env.now 7) holder)
  have reply := (onKey_live (env.now 6) db key (setBody ⟨true, false, v⟩ (env.now 7) holder)).2
  have seen := holds (env.now 6) (le 6)
  rw [lockCall, time, stop]
  cases found : live (env.now 6) db key with
  | some o =>
    -- The lookup keeps what it finds, so the key is as it was at every time.
    rw [found] at there reply seen
    have same : db.d.get key = some o := (Option.filter_eq_some_iff.mp found).1
    rw [if_pos (seen.mp rfl)]
    refine ⟨fun u from_t => ?_, reply⟩
    rw [live, there.trans same.symm]
    exact holds u from_t
  | none =>
    rw [found] at there reply seen
    have deadline : setDeadline (env.now 7) v = env.now 7 + v := by
      rw [setDeadline, if_neg (by omega), wrap64_of_range (by omega) room]
    have positive : 0 ≤ setDeadline (env.now 7) v := by omega
    rw [if_neg fun before => absurd (seen.mpr before) (by decide), ← deadline]
    exact ⟨freeFrom_of_get t there positive, reply⟩

theorem Acquire.Asks.serves {ask : Acquire} {cmd : Command} {s : Server}
    (asks : ask.Asks key env cmd) (holds : FreeFrom t s.db key free) (le : ∀ i, t ≤ env.now i)
    (io : Io) :
    FreeFrom t (dispatchCommand env io s cmd).1.db key (lockCall free ask).2 ∧
      (dispatchCommand env io s cmd).2.out = (lockCall free ask).1 := by
  obtain ⟨known, ⟨word, holder, ms, v, words, reads, positive, time, stop⟩, clock, room⟩ := asks
  obtain ⟨store, out⟩ := @dispatchCommand_data env io s cmd _ cmdSet known rfl
  rw [store, out, words, cmdSet_lease word holder reads positive]
  exact acquire_serves holder holds le positive clock (stop ▸ room) time stop

end Attempts

/-- The lock under a key. -/
def sharedLock (key : Bytes) : SharedObject Int Acquire where
  key := key
  call := lockCall
  Asks ask env cmd := ask.Asks key env cmd
  Holds t db free := FreeFrom t db key free
  agree := FreeFrom.agree
  serves io asks holds le := asks.serves holds le io

/-! ### Leases -/

/-- The attempts of a run that hear `OK`. -/
def winners {ι : Type} : List ι → List Bytes → List ι
  | ask :: asks, reply :: replies =>
    if reply = replyOk then ask :: winners asks replies else winners asks replies
  | _, _ => []

theorem winners_granted (free : Int) (asks : List Acquire) :
    winners asks (Machine.trace lockCall free asks).1 = granted free asks := by
  induction asks generalizing free with
  | nil => rfl
  | cons ask asks ih =>
    show (if (lockCall free ask).1 = replyOk then
      ask :: winners asks (Machine.trace lockCall (lockCall free ask).2 asks).1
      else winners asks (Machine.trace lockCall (lockCall free ask).2 asks).1) = _
    rw [ih, granted, lockCall]
    split
    next => exact if_neg (show replyNull ≠ replyOk by decide)
    next => exact if_pos rfl

/-- **No two leases overlap.** Whatever other clients, the expiry cycle and children do in between,
the replies are those of one lock, and who hears `OK` later does so after the earlier lease. -/
theorem leases_exclusive {t u free : Int} {key : Bytes} (s : Server) {traffic : Traffic Acquire}
    (marked : (sharedLock key).Marked traffic) (clocked : Clocked t traffic.events u)
    (holds : FreeFrom t s.db key free) :
    traffic.replies s = (Machine.trace lockCall free traffic.calls).1 ∧
      (∀ ask ∈ winners traffic.calls (traffic.replies s), free ≤ ask.time) ∧
      (winners traffic.calls (traffic.replies s)).Pairwise fun ask later =>
        ask.stop ≤ later.time := by
  have replies : traffic.replies s = (Machine.trace lockCall free traffic.calls).1 :=
    (SharedObject.run_serves marked clocked holds).1
  rw [replies, winners_granted]
  exact ⟨rfl, free_le_granted free traffic.calls, granted_exclusive free traffic.calls⟩

/-- An attempt of ten milliseconds. -/
def attemptAt (time : Int) (holder : String) : Option Acquire × Event :=
  (some ⟨time, time + 10, by omega⟩, requestAt time ["SET", "l", holder, "NX", "PX", "10"])

/-- Three attempts, the second during the lease of the first, and an expiry cycle. -/
def sampleAttempts : Traffic Acquire :=
  [attemptAt 0 "x", attemptAt 5 "y", (none, .cron (fun _ => 11) .smooth), attemptAt 12 "z"]

theorem attemptAt_asks {time : Int} (holder : String) (low : 0 ≤ time) (high : time ≤ 100) :
    Acquire.Asks (text "l") ⟨time, time + 10, by omega⟩ (sampleEnvAt time)
      (["SET", "l", holder, "NX", "PX", "10"].map text) where
  known := @entryOf_eq (text "SET") (entry "set" true cmdSet) (by simp [commands]) (by decide) _
  shape := ⟨_, _, _, 10, rfl, by decide, by decide, rfl, rfl⟩
  clock := low
  room := show time + 10 < 2 ^ 63 by omega

theorem sampleAttempts_marked : (sharedLock (text "l")).Marked sampleAttempts := by
  refine ⟨?_, ?_⟩
  · intro ask e member
    simp only [sampleAttempts, attemptAt, List.mem_cons, Prod.mk.injEq, Option.some.injEq,
      reduceCtorEq, false_and, false_or, or_false, List.not_mem_nil] at member
    rcases member with ⟨rfl, rfl⟩ | ⟨rfl, rfl⟩ | ⟨rfl, rfl⟩
    · exact ⟨_, _, _, rfl, attemptAt_asks "x" (by decide) (by decide)⟩
    · exact ⟨_, _, _, rfl, attemptAt_asks "y" (by decide) (by decide)⟩
    · exact ⟨_, _, _, rfl, attemptAt_asks "z" (by decide) (by decide)⟩
  · intro e member
    simp only [sampleAttempts, attemptAt, List.mem_cons, Prod.mk.injEq, true_and, reduceCtorEq,
      false_and, false_or, or_false, List.not_mem_nil] at member
    subst member
    trivial

theorem leases_exclusive_among_three :
    sampleAttempts.replies (sampleStart false) = [replyOk, replyNull, replyOk] ∧
      (∀ ask ∈ winners sampleAttempts.calls (sampleAttempts.replies (sampleStart false)),
        0 ≤ ask.time) ∧
      (winners sampleAttempts.calls (sampleAttempts.replies (sampleStart false))).Pairwise
        fun ask later => ask.stop ≤ later.time := by
  have later : (5 : Int) ≤ 11 := by decide
  have clocked : Clocked 0 sampleAttempts.events 12 :=
    ⟨0, le_refl _, requestAt_between _ (by decide) (by decide), 5, by decide,
      requestAt_between _ (by decide) (by decide), 11, later, fun _ => ⟨later, le_refl _⟩, 12,
      by decide, requestAt_between _ (by decide) (by decide), le_refl _⟩
  have empty : FreeFrom 0 (sampleStart false).db (text "l") 0 := by
    intro u from_zero
    have missing : live u (sampleStart false).db (text "l") = none := rfl
    rw [missing]
    exact ⟨fun there => absurd there (by decide),
      fun before => absurd before (not_lt.mpr from_zero)⟩
  exact leases_exclusive (sampleStart false) sampleAttempts_marked clocked empty

end Miniredis
