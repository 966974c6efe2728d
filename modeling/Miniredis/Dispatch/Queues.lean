/-
**A list as a queue between clients (`db.c`).**

Some clients push with `RPUSH`, others pop with `LPOP`, and more clients work on other keys, with
expiry cycles, children and signals in between.

* `QueueAt` — from a time on the key holds the queue, and is missing if the queue is empty.
* `push_serves`, `pop_serves` — one command on the queue.
* `sharedQueue` — the queue as an object that clients share.
* `queue_delivers` — the replies are those of one queue; every value that is pushed is delivered to
  one pop, in the order of the pushes, or still there.
-/

import Miniredis.Dispatch.Objects
import Miniredis.Dispatch.SetPops
import Miniredis.Rewrite.Content

namespace Miniredis

/-! ### Queues -/

/-- What clients ask of a queue. -/
inductive QueueCall where
  | push (first : Bytes) (rest : List Bytes)
  | pop (count : Nat)

/-- What a queue replies, and what it is then. -/
def queueCall (q : List Bytes) : QueueCall → Bytes × List Bytes
  | .push first rest => (replyInteger (q ++ first :: rest).length, q ++ first :: rest)
  | .pop count => (if q = [] then replyNull else popReply count (q.take count), q.drop count)

/-- The values that are pushed. -/
def pushedValues : List QueueCall → List Bytes
  | [] => []
  | .push first rest :: calls => first :: rest ++ pushedValues calls
  | .pop _ :: calls => pushedValues calls

/-- The values that are popped. -/
def poppedValues : List Bytes → List QueueCall → List Bytes
  | _, [] => []
  | q, .push first rest :: calls => poppedValues (q ++ first :: rest) calls
  | q, .pop count :: calls => q.take count ++ poppedValues (q.drop count) calls

/-- **Nothing is lost, doubled or overtaken.** -/
theorem popped_pushed (q : List Bytes) (calls : List QueueCall) :
    poppedValues q calls ++ (Machine.trace queueCall q calls).2 = q ++ pushedValues calls := by
  induction calls generalizing q with
  | nil => exact (List.append_nil q).symm
  | cons call calls ih =>
    cases call with
    | push first rest =>
      refine (ih (q ++ first :: rest)).trans ?_
      rw [pushedValues, List.append_assoc]
    | pop count =>
      rw [poppedValues, List.append_assoc, pushedValues]
      refine (congrArg (q.take count ++ ·) (ih (q.drop count))).trans ?_
      rw [← List.append_assoc, List.take_append_drop]

/-! ### Commands on the queue -/

/-- The command asks the queue under the key. -/
inductive QueueCall.Asks (key : Bytes) : QueueCall → Command → Prop
  | push {cmd : Command} {word first : Bytes} {rest : List Bytes}
      (known : entryOf cmd = some (entry "rpush" true cmdRpush))
      (words : cmd.map cstr = word :: key :: first :: rest) : Asks key (.push first rest) cmd
  | pop {cmd : Command} {word : Bytes} {rest : List Bytes} {count : Nat}
      (known : entryOf cmd = some (entry "lpop" true cmdLpop))
      (words : cmd.map cstr = word :: key :: rest) (few : rest.length ≤ 1)
      (asked : popCount (word :: key :: rest) = some (count : Int)) : Asks key (.pop count) cmd

/-- What the key of a queue holds. -/
def queued (expireAt : Int) (q : List Bytes) : Option Robj :=
  if q = [] then none else some ⟨.list q, expireAt⟩

/-- From time `t` on the queue is seen under the key. -/
def QueueAt (t : Int) (db : Db) (key : Bytes) (q : List Bytes) : Prop :=
  ∃ expireAt, Steady (Set.Ici t) db key (queued expireAt q)

section Commands

variable {t u : Int} {db db' : Db} {key word first : Bytes} {q rest : List Bytes} {env : Env}

theorem QueueAt.agree (holds : QueueAt t db key q) (le : t ≤ u)
    (agree : AgreeFrom u {key} db' db) : QueueAt u db' key q := by
  obtain ⟨expireAt, steady⟩ := holds
  refine ⟨expireAt, fun v from_u => ?_⟩
  rw [agree key rfl v from_u]
  exact steady v (le.trans from_u)

/-- **`RPUSH` puts its values behind the others.** -/
theorem push_serves (holds : QueueAt t db key q) (le : t ≤ env.now 0) :
    QueueAt t (cmdRpush env db (word :: key :: first :: rest)).1 key (q ++ first :: rest) ∧
      (cmdRpush env db (word :: key :: first :: rest)).2 =
        replyInteger (q ++ first :: rest).length := by
  obtain ⟨expireAt, steady⟩ := holds
  have shape : cmdRpush env db (word :: key :: first :: rest) = onKey (env.now 0) db key
      (listKind.upsert env.seed (listPushReply false (first :: rest))) := by
    unfold cmdRpush listPush
    rw [if_neg (by simp)]
    rfl
  have pushed (l : List Bytes) : listPushReply false (first :: rest) l =
      (l ++ first :: rest, replyInteger (l ++ first :: rest).length) := by
    rw [listPushReply, listPushAll_tail]
  rw [shape]
  cases q with
  | nil =>
    have decides : listKind.upsert env.seed (listPushReply false (first :: rest)) none =
        (.store (robjNew (.list (first :: rest))), replyInteger (first :: rest).length) := by
      show (Update.store (robjNew (.list (listPushReply false (first :: rest) []).1)),
        (listPushReply false (first :: rest) []).2) = _
      rw [pushed, List.nil_append]
    obtain ⟨after, reply⟩ := steady.stored le decides (lasting_new _ _)
    exact ⟨⟨-1, after⟩, reply⟩
  | cons v q =>
    have decides : listKind.upsert env.seed (listPushReply false (first :: rest))
        (some ⟨.list (v :: q), expireAt⟩) = (.write ⟨.list (v :: q ++ first :: rest), expireAt⟩,
          replyInteger (v :: q ++ first :: rest).length) := by
      show (Update.write ⟨.list (listPushReply false (first :: rest) (v :: q)).1, expireAt⟩,
        (listPushReply false (first :: rest) (v :: q)).2) = _
      rw [pushed]
    obtain ⟨after, reply⟩ := Steady.written steady le decides
    exact ⟨⟨expireAt, after⟩, reply⟩

theorem listPopMany_head (n : Nat) (l : List Bytes) :
    listPopMany true n l = (l.take n, l.drop n) := by
  induction n generalizing l with
  | zero => rfl
  | succ n ih =>
    cases l with
    | nil => rfl
    | cons v l =>
      have first : listPopOne true (v :: l) = some (v, l) := rfl
      rw [listPopMany, first]
      simp [ih]

theorem listPopReply_head (count : Nat) {q : List Bytes} (filled : q ≠ []) :
    listPopReply true count q = (q.drop count, popReply count (q.take count)) := by
  obtain ⟨v, q, rfl⟩ := List.exists_cons_of_ne_nil filled
  unfold listPopReply popReply
  split
  · obtain rfl : count = 1 := by omega
    rfl
  · dsimp only
    rw [listPopMany_head]
    split
    · rfl
    · rw [List.take_length, List.drop_length, List.take_of_length_le (by omega),
        List.drop_of_length_le (by omega)]
      rfl

/-- What is left of the queue is at its key. -/
theorem maybeDeleteKey_queued (o : Robj) (expireAt : Int) (q : List Bytes) :
    (maybeDeleteKey ⟨.list q, expireAt⟩).leaves (some o) = queued expireAt q := by
  cases q <;> rfl

/-- **`LPOP` takes the first values.** -/
theorem pop_serves {count : Nat} (few : rest.length ≤ 1)
    (asked : popCount (word :: key :: rest) = some (count : Int)) (holds : QueueAt t db key q)
    (le : t ≤ env.now 0) :
    QueueAt t (cmdLpop env db (word :: key :: rest)).1 key (q.drop count) ∧
      (cmdLpop env db (word :: key :: rest)).2 =
        if q = [] then replyNull else popReply count (q.take count) := by
  obtain ⟨expireAt, steady⟩ := holds
  have shape : cmdLpop env db (word :: key :: rest) =
      onKey (env.now 0) db key (listKind.shrink replyNull (listPopReply true count)) := by
    unfold cmdLpop listPop
    rw [if_neg (by simp only [List.length_cons]; omega), asked]
    rfl
  rw [shape]
  by_cases empty : q = []
  · subst empty
    obtain ⟨after, reply⟩ := steady.kept le
      (show listKind.shrink replyNull (listPopReply true count) none = _ from rfl)
    rw [List.drop_nil]
    exact ⟨⟨expireAt, after⟩, reply⟩
  · rw [queued, if_neg empty] at steady
    have decides : listKind.shrink replyNull (listPopReply true count)
        (some ⟨.list q, expireAt⟩) =
          (maybeDeleteKey ⟨.list (q.drop count), expireAt⟩, popReply count (q.take count)) := by
      show (maybeDeleteKey ⟨.list (listPopReply true count q).1, expireAt⟩,
        (listPopReply true count q).2) = _
      rw [listPopReply_head count empty]
    obtain ⟨after, reply⟩ := steady.onKey le decides fun o left => by
      rw [maybeDeleteKey_queued, queued] at left
      split_ifs at left
      obtain rfl := Option.some.inj left
      exact steady.lasting
    rw [maybeDeleteKey_queued] at after
    exact ⟨⟨expireAt, after⟩, reply.trans (if_neg empty).symm⟩

end Commands

/-! ### The shared queue -/

/-- A command on the queue. -/
theorem QueueCall.Asks.serves {t : Int} {key : Bytes} {q : List Bytes} {s : Server}
    {call : QueueCall} {cmd : Command} (asks : call.Asks key cmd) (holds : QueueAt t s.db key q)
    {env : Env} (le : t ≤ env.now 0) (io : Io) :
    QueueAt t (dispatchCommand env io s cmd).1.db key (queueCall q call).2 ∧
      (dispatchCommand env io s cmd).2.out = (queueCall q call).1 := by
  cases asks with
  | push known words =>
    obtain ⟨store, out⟩ := @dispatchCommand_data env io s cmd _ cmdRpush known rfl
    rw [store, out, words]
    exact push_serves holds le
  | pop known words few asked =>
    obtain ⟨store, out⟩ := @dispatchCommand_data env io s cmd _ cmdLpop known rfl
    rw [store, out, words]
    exact pop_serves few asked holds le

/-- The queue under a key. -/
def sharedQueue (key : Bytes) : SharedObject (List Bytes) QueueCall where
  key := key
  call := queueCall
  Asks call _ cmd := call.Asks key cmd
  Holds t db q := QueueAt t db key q
  agree := QueueAt.agree
  serves io asks holds le := asks.serves holds (le 0) io

/-- **Each value that is pushed is delivered once, in order.** Whatever other clients, the expiry
cycle and children do in between, the replies are those of one queue, and what was popped from it,
with what is left under the key, is what was pushed. -/
theorem queue_delivers {t u : Int} {key : Bytes} {q : List Bytes} (s : Server)
    {traffic : Traffic QueueCall} (marked : (sharedQueue key).Marked traffic)
    (clocked : Clocked t traffic.events u) (holds : QueueAt t s.db key q) :
    ∃ left, traffic.replies s = (Machine.trace queueCall q traffic.calls).1 ∧
      QueueAt u (run s traffic.events).db key left ∧
      poppedValues q traffic.calls ++ left = q ++ pushedValues traffic.calls := by
  obtain ⟨replies, left⟩ := SharedObject.run_serves marked clocked holds
  exact ⟨_, replies, left, popped_pushed q traffic.calls⟩

/-- Two values are pushed and one popped, with a command on another key in between. -/
def sampleTraffic : Traffic QueueCall :=
  [(some (.push (text "a") [text "b"]), requestAt 0 ["RPUSH", "q", "a", "b"]),
    (none, requestAt 1 ["INCR", "n"]), (some (.pop 1), requestAt 2 ["LPOP", "q"])]

theorem sampleTraffic_marked : (sharedQueue (text "q")).Marked sampleTraffic := by
  have rpush : QueueCall.Asks (text "q") (.push (text "a") [text "b"])
      (["RPUSH", "q", "a", "b"].map text) :=
    .push (@entryOf_eq (text "RPUSH") (entry "rpush" true cmdRpush) (by simp [commands])
      (by decide) _) rfl
  have lpop : QueueCall.Asks (text "q") (.pop 1) (["LPOP", "q"].map text) :=
    .pop (@entryOf_eq (text "LPOP") (entry "lpop" true cmdLpop) (by simp [commands])
      (by decide) _) rfl (by decide) rfl
  have incr : namedBy (["INCR", "n"].map text) = {text "n"} := by
    have known := @entryOf_eq (text "INCR") (entry "incr" true cmdIncr) (by simp [commands])
      (by decide) [text "n"]
    refine (namedBy_eq known).trans ?_
    rw [keysNamed_single (by decide)]
    rfl
  refine ⟨?_, ?_⟩
  · intro call e member
    simp only [sampleTraffic, List.mem_cons, Prod.mk.injEq, Option.some.injEq, reduceCtorEq,
      false_and, false_or, or_false, List.not_mem_nil] at member
    rcases member with ⟨rfl, rfl⟩ | ⟨rfl, rfl⟩
    · exact ⟨_, _, _, rfl, rpush⟩
    · exact ⟨_, _, _, rfl, lpop⟩
  · intro e member
    simp only [sampleTraffic, List.mem_cons, Prod.mk.injEq, true_and, reduceCtorEq, false_and,
      false_or, or_false, List.not_mem_nil] at member
    subst member
    rintro key rfl
    rw [incr]
    decide

theorem queue_delivers_one_of_two :
    ∃ left, sampleTraffic.replies (sampleStart false) =
        (Machine.trace queueCall [] sampleTraffic.calls).1 ∧
      QueueAt 2 (run (sampleStart false) sampleTraffic.events).db (text "q") left ∧
      [text "a"] ++ left = [text "a", text "b"] := by
  have clocked : Clocked 0 sampleTraffic.events 2 :=
    ⟨0, le_refl _, requestAt_between _ (by decide) (by decide), 1, by decide,
      requestAt_between _ (by decide) (by decide), 2, by decide,
      requestAt_between _ (by decide) (by decide), le_refl _⟩
  have empty : QueueAt 0 (sampleStart false).db (text "q") [] := ⟨-1, fun _ _ => rfl⟩
  exact queue_delivers (sampleStart false) sampleTraffic_marked clocked empty

end Miniredis
