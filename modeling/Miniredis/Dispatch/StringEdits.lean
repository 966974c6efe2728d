/-
**Edits of strings (`db.c`).**

`SETRANGE` and `APPEND` change the bytes of a string key, `GETRANGE` and `STRLEN` read them.

* `Overwritten s o v t` — `t` is `s` with `v` written at `o`, position by position, and zeros in a
  gap.
* `Follows` — a run of calls on one key, with the content before and after each and its reply.
* `string_edits` — every run follows, what `SETRANGE` wrote is what `GETRANGE` reads there, `STRLEN`
  answers what the last edit did, and in memory each edit stays inside its block.
-/

import Miniredis.Dispatch.ListRanges
import Miniredis.Dispatch.Steady
import Miniredis.Structures.StringBuffer

namespace Miniredis

/-! ### What an edit leaves -/

section Overwrite

variable {s v : Bytes} {o : Nat}

/-- The bytes `t` are `s` with `v` written at `o`. -/
structure Overwritten (s : Bytes) (o : Nat) (v t : Bytes) : Prop where
  length : t.length = max s.length (o + v.length)
  written : ∀ i, o ≤ i → i < o + v.length → t[i]? = v[i - o]?
  kept : ∀ i, i < s.length → ¬ (o ≤ i ∧ i < o + v.length) → t[i]? = s[i]?
  gap : ∀ i, s.length ≤ i → i < t.length → ¬ (o ≤ i ∧ i < o + v.length) → t[i]? = some 0

/-- The bytes before the written range, padded with zeros if they are missing. -/
theorem length_front (s v : Bytes) (o : Nat) :
    ((StringBuffer.padded s (o + v.length)).take o).length = o := by
  rw [List.length_take, StringBuffer.length_padded]
  omega

theorem getElem?_padded_old {need i : Nat} (old : i < s.length) :
    (StringBuffer.padded s need)[i]? = s[i]? := by
  rw [StringBuffer.padded, List.getElem?_append_left old]

theorem getElem?_padded_new {need i : Nat} (new : s.length ≤ i) (inside : i < need) :
    (StringBuffer.padded s need)[i]? = some 0 := by
  rw [StringBuffer.padded, List.getElem?_append_right new, List.getElem?_replicate,
    if_pos (by omega)]

/-- Outside the written range the padded bytes stay. -/
theorem getElem?_setrangeBytes_outside {i : Nat} (outside : ¬ (o ≤ i ∧ i < o + v.length)) :
    (setrangeBytes s o v)[i]? = (StringBuffer.padded s (o + v.length))[i]? := by
  have front := length_front s v o
  rw [StringBuffer.setrangeBytes_eq]
  by_cases before : i < o
  · rw [List.append_assoc, List.getElem?_append_left (by rw [front]; exact before),
      List.getElem?_take_of_lt before]
  · have after : o + v.length ≤ i := by omega
    rw [List.getElem?_append_right (by rw [List.length_append, front]; exact after),
      List.length_append, front, List.getElem?_drop]
    congr 1
    omega

/-- **`SETRANGE` overwrites.** -/
theorem setrangeBytes_overwritten (s : Bytes) (o : Nat) (v : Bytes) :
    Overwritten s o v (setrangeBytes s o v) := by
  have length := setrangeBytes_length s o v
  refine ⟨length, fun i low high => ?_, fun i old outside => ?_, fun i new inside outside => ?_⟩
  · have front := length_front s v o
    rw [StringBuffer.setrangeBytes_eq, List.append_assoc,
      List.getElem?_append_right (by rw [front]; exact low), front,
      List.getElem?_append_left (by omega)]
  · rw [getElem?_setrangeBytes_outside outside, getElem?_padded_old old]
  · rw [getElem?_setrangeBytes_outside outside, getElem?_padded_new new (by omega)]

/-- What was written is what is read there. -/
theorem rangeOf_setrangeBytes (filled : v ≠ []) :
    rangeOf (setrangeBytes s o v) o (o + v.length - 1) = v := by
  have front := length_front s v o
  have positive : 0 < v.length := List.length_pos_iff.mpr filled
  have last : (position (setrangeBytes s o v).length (o + v.length - 1) + 1).toNat =
      o + v.length := by
    rw [position, if_neg (by omega)]
    omega
  have first : (position (setrangeBytes s o v).length o).toNat = o := by
    rw [position, if_neg (by omega), Int.toNat_natCast]
  rw [rangeOf_eq_drop, last, first, StringBuffer.setrangeBytes_eq,
    List.take_left' (by rw [List.length_append, front]), List.drop_left' front]

end Overwrite

/-! ### Calls on one key -/

/-- A request on a string key. -/
inductive StringCall where
  | setrange (offset value : Bytes)
  | append (value : Bytes)
  | getrange (start stop : Bytes)
  | strlen

namespace StringCall

def serve (key : Bytes) (env : Env) (db : Db) : StringCall → Db × Bytes
  | setrange offset value => cmdSetrange env db [text "setrange", key, offset, value]
  | append value => cmdAppend env db [text "append", key, value]
  | getrange start stop => cmdGetrange env db [text "getrange", key, start, stop]
  | strlen => cmdStrlen env db [text "strlen", key]

def isEdit : StringCall → Bool
  | setrange _ _ | append _ => true
  | getrange _ _ | strlen => false

/-- The numbers are read, the offset is not negative and the written range ends below the
allocation limit, and a value is a C string. -/
def Accepted : StringCall → Prop
  | setrange offset value =>
    (∃ o : Nat, stringToLl offset = some (o : Int) ∧ o + value.length < mallocLimit) ∧ 0 ∉ value
  | append value => 0 ∉ value
  | getrange start stop =>
    (∃ low, stringToLl start = some low) ∧ ∃ high, stringToLl stop = some high
  | strlen => True

/-- What a call does to the content, and its reply. -/
def Does (before after : Option Bytes) (reply : Bytes) : StringCall → Prop
  | setrange offset value => ∃ (o : Nat) (t : Bytes), stringToLl offset = some (o : Int) ∧
      Overwritten (before.getD []) o value t ∧ after = some t ∧ reply = replyInteger t.length
  | append value => after = some (before.getD [] ++ value) ∧
      reply = replyInteger (before.getD [] ++ value).length
  | getrange start stop => ∃ low high, stringToLl start = some low ∧ stringToLl stop = some high ∧
      after = before ∧ reply = replyBulk (rangeOf (before.getD []) low high)
  | strlen => after = before ∧ reply = replyInteger (before.getD []).length

end StringCall

/-- A call of a run, at one of its times. -/
structure StringStep (times : Set Int) where
  env : Env
  call : StringCall
  timed : env.now 0 ∈ times
  accepted : call.Accepted

section Steps

variable {times : Set Int} {env : Env} {db : Db} {key : Bytes} {content : Option Bytes}

/-- A call that changes the bytes that are there, or starts from none. -/
theorem HoldsString.upsert (holds : HoldsString times db key content)
    (among : env.now 0 ∈ times) (act : Bytes → Bytes × Bytes) :
    HoldsString times (onKey (env.now 0) db key (stringKind.upsert env.seed act)).1 key
        (some (act (content.getD [])).1) ∧
      (onKey (env.now 0) db key (stringKind.upsert env.seed act)).2 =
        (act (content.getD [])).2 := by
  rcases holds with ⟨steady, rfl⟩ | ⟨s, expireAt, steady, rfl⟩
  · obtain ⟨after, reply⟩ := steady.stored among
      (show stringKind.upsert env.seed act none =
        (.store (robjNew (.string (act []).1)), (act []).2) from rfl) (lasting_new times _)
    exact ⟨.inr ⟨_, _, after, rfl⟩, reply⟩
  · obtain ⟨after, reply⟩ := steady.written among
      (show stringKind.upsert env.seed act (some ⟨.string s, expireAt⟩) =
        (.write ⟨.string (act s).1, expireAt⟩, (act s).2) from rfl)
    exact ⟨.inr ⟨_, _, after, rfl⟩, reply⟩

/-- A call that reads the bytes that are there, or none. -/
theorem HoldsString.read (holds : HoldsString times db key content)
    (among : env.now 0 ∈ times) (reply : Bytes → Bytes) :
    HoldsString times (onKey (env.now 0) db key (stringKind.read (reply []) reply)).1 key content ∧
      (onKey (env.now 0) db key (stringKind.read (reply []) reply)).2 =
        reply (content.getD []) := by
  rcases holds with ⟨steady, rfl⟩ | ⟨s, expireAt, steady, rfl⟩
  · obtain ⟨after, answer⟩ := steady.kept among
      (show stringKind.read (reply []) reply none = (.keep, reply []) from rfl)
    exact ⟨.inl ⟨after, rfl⟩, answer⟩
  · obtain ⟨after, answer⟩ := steady.kept among
      (show stringKind.read (reply []) reply (some ⟨.string s, expireAt⟩) = (.keep, reply s) from
        rfl)
    exact ⟨.inr ⟨_, _, after, rfl⟩, answer⟩

theorem HoldsString.setrange {offset : Bytes} {o : Nat}
    (holds : HoldsString times db key content) (among : env.now 0 ∈ times)
    (read : stringToLl offset = some (o : Int)) {value : Bytes}
    (allowed : o + value.length < mallocLimit) (name : Bytes) :
    HoldsString times (cmdSetrange env db [name, key, offset, value]).1 key
        (some (setrangeBytes (content.getD []) o value)) ∧
      (cmdSetrange env db [name, key, offset, value]).2 =
        replyInteger (setrangeBytes (content.getD []) o value).length := by
  have acts : cmdSetrange env db [name, key, offset, value] =
      onKey (env.now 0) db key (stringKind.upsert env.seed (setrangeString o value)) := by
    unfold cmdSetrange
    rw [if_neg (by simp), show arg [name, key, offset, value] 2 = offset from rfl, read]
    dsimp only
    rw [if_neg (by omega)]
    rfl
  have edited := holds.upsert among (setrangeString o value)
  rw [setrangeString_of_lt _ allowed] at edited
  rw [acts]
  exact edited

theorem HoldsString.getrange {start stop : Bytes} {low high : Int}
    (holds : HoldsString times db key content) (among : env.now 0 ∈ times)
    (first : stringToLl start = some low) (second : stringToLl stop = some high) (name : Bytes) :
    HoldsString times (cmdGetrange env db [name, key, start, stop]).1 key content ∧
      (cmdGetrange env db [name, key, start, stop]).2 =
        replyBulk (rangeOf (content.getD []) low high) := by
  have acts : cmdGetrange env db [name, key, start, stop] =
      onKey (env.now 0) db key
        (stringKind.read (replyBulkCstr []) (getrangeReply low high)) := by
    unfold cmdGetrange
    rw [if_neg (by simp), show arg [name, key, start, stop] 2 = start from rfl,
      show arg [name, key, start, stop] 3 = stop from rfl, first, second]
    rfl
  have empty : replyBulkCstr [] = getrangeReply low high [] := by
    rw [getrangeReply_eq]
    rfl
  rw [acts, empty, ← getrangeReply_eq]
  exact holds.read among _

theorem HoldsString.strlen (holds : HoldsString times db key content)
    (among : env.now 0 ∈ times) (name : Bytes) :
    HoldsString times (cmdStrlen env db [name, key]).1 key content ∧
      (cmdStrlen env db [name, key]).2 = replyInteger (content.getD []).length :=
  holds.read among fun s => replyInteger s.length

theorem HoldsString.append (holds : HoldsString times db key content)
    (among : env.now 0 ∈ times) (name value : Bytes) :
    HoldsString times (cmdAppend env db [name, key, value]).1 key
        (some (content.getD [] ++ value)) ∧
      (cmdAppend env db [name, key, value]).2 =
        replyInteger (content.getD [] ++ value).length := by
  rw [List.length_append]
  exact holds.upsert among (appendBytes value)

/-- **One call.** -/
theorem StringStep.does (step : StringStep times) (holds : HoldsString times db key content) :
    ∃ after, step.call.Does content after (step.call.serve key step.env db).2 ∧
      HoldsString times (step.call.serve key step.env db).1 key after := by
  obtain ⟨env, call, timed, accepted⟩ := step
  cases call with
  | setrange offset value =>
    obtain ⟨⟨o, read, allowed⟩, -⟩ := accepted
    obtain ⟨after, reply⟩ := holds.setrange timed read allowed (text "setrange")
    exact ⟨_, ⟨o, _, read, setrangeBytes_overwritten _ o value, rfl, reply⟩, after⟩
  | append value =>
    obtain ⟨after, reply⟩ := holds.append timed (text "append") value
    exact ⟨_, ⟨rfl, reply⟩, after⟩
  | getrange start stop =>
    obtain ⟨⟨low, first⟩, high, second⟩ := accepted
    obtain ⟨after, reply⟩ := holds.getrange timed first second (text "getrange")
    exact ⟨_, ⟨low, high, first, second, rfl, reply⟩, after⟩
  | strlen =>
    obtain ⟨after, reply⟩ := holds.strlen timed (text "strlen")
    exact ⟨_, ⟨rfl, reply⟩, after⟩

end Steps

/-! ### Runs -/

/-- A run of calls, one after the other, with their replies. -/
def serveStrings {times : Set Int} (key : Bytes) : List (StringStep times) → Db → Db × List Bytes
  | [], db => (db, [])
  | step :: rest, db =>
    let (next, reply) := step.call.serve key step.env db
    let (last, replies) := serveStrings key rest next
    (last, reply :: replies)

/-- Some calls lead from a content to another with these replies. -/
inductive Follows : List StringCall → Option Bytes → List Bytes → Option Bytes → Prop
  | nil (content : Option Bytes) : Follows [] content [] content
  | cons {call : StringCall} {rest : List StringCall} {reply : Bytes} {replies : List Bytes}
      {first next last : Option Bytes} (does : call.Does first next reply)
      (follows : Follows rest next replies last) :
      Follows (call :: rest) first (reply :: replies) last

section Runs

variable {times : Set Int} {db : Db} {key : Bytes} {content : Option Bytes}

theorem StringCall.Does.edit {call : StringCall} {before after : Option Bytes} {reply : Bytes}
    (does : call.Does before after reply) (edit : call.isEdit = true) :
    reply = replyInteger (after.getD []).length := by
  cases call with
  | setrange offset value =>
    obtain ⟨o, t, -, -, rfl, reply⟩ := does
    exact reply
  | append value =>
    obtain ⟨rfl, reply⟩ := does
    exact reply
  | getrange start stop => cases edit
  | strlen => cases edit

theorem StringCall.Does.read {call : StringCall} {before after : Option Bytes} {reply : Bytes}
    (does : call.Does before after reply) (read : call.isEdit = false) : after = before := by
  cases call with
  | setrange offset value => cases read
  | append value => cases read
  | getrange start stop =>
    obtain ⟨low, high, -, -, same, -⟩ := does
    exact same
  | strlen => exact does.1

/-- Reads leave the content. -/
theorem Follows.reads {calls : List StringCall} {before after : Option Bytes}
    {replies : List Bytes} (follows : Follows calls before replies after)
    (reads : ∀ call ∈ calls, call.isEdit = false) : after = before := by
  induction follows with
  | nil content => rfl
  | cons does _ ih =>
    rw [ih fun call member => reads call (List.mem_cons_of_mem _ member)]
    exact does.read (reads _ List.mem_cons_self)

theorem serveStrings_follows (steps : List (StringStep times))
    (holds : HoldsString times db key content) :
    ∃ after, Follows (steps.map (·.call)) content (serveStrings key steps db).2 after ∧
      HoldsString times (serveStrings key steps db).1 key after := by
  induction steps generalizing db content with
  | nil => exact ⟨content, .nil content, holds⟩
  | cons step rest ih =>
    obtain ⟨next, does, there⟩ := step.does holds
    obtain ⟨after, follows, last⟩ := ih there
    exact ⟨after, .cons does follows, last⟩

/-- What `SETRANGE` wrote is what `GETRANGE` reads there. -/
theorem written_is_read (write read : StringStep times)
    (holds : HoldsString times db key content) {offset value start stop : Bytes} {o : Nat}
    (writes : write.call = .setrange offset value) (reads : read.call = .getrange start stop)
    (place : stringToLl offset = some (o : Int)) (first : stringToLl start = some (o : Int))
    (last : stringToLl stop = some ((o : Int) + value.length - 1)) (filled : value ≠ []) :
    (read.call.serve key read.env (write.call.serve key write.env db).1).2 = replyBulk value := by
  have accepted := write.accepted
  rw [writes] at accepted
  obtain ⟨⟨o', place', allowed⟩, -⟩ := accepted
  obtain rfl : o' = o := Int.ofNat.inj (Option.some.inj (place'.symm.trans place))
  have written := (holds.setrange write.timed place allowed (text "setrange")).1
  have answer := (written.getrange read.timed first last (text "getrange")).2
  rw [Option.getD_some, rangeOf_setrangeBytes filled] at answer
  rw [writes, reads]
  exact answer

/-- `STRLEN` answers what the last edit did. -/
theorem strlen_of_edit (edit last : StringStep times) (reads : List (StringStep times))
    (holds : HoldsString times db key content) (edits : edit.call.isEdit = true)
    (reading : ∀ read ∈ reads, read.call.isEdit = false) (asks : last.call = .strlen) :
    (last.call.serve key last.env
        (serveStrings key reads (edit.call.serve key edit.env db).1).1).2 =
      (edit.call.serve key edit.env db).2 := by
  obtain ⟨next, does, there⟩ := edit.does holds
  obtain ⟨after, follows, here⟩ := serveStrings_follows reads there
  have same : after = next := follows.reads fun call member => by
    obtain ⟨read, inside, rfl⟩ := List.mem_map.mp member
    exact reading read inside
  rw [asks, does.edit edits, ← same]
  exact (here.strlen last.timed (text "strlen")).2

/-- **Edits of strings.** After any run: it followed its calls; what `SETRANGE` writes is what
`GETRANGE` reads there; `STRLEN` answers what the edit before it did. In memory an edit below the
allocation limit succeeds and leaves the same bytes. -/
theorem string_edits (steps : List (StringStep times))
    (holds : HoldsString times db key content) :
    (∃ after, Follows (steps.map (·.call)) content (serveStrings key steps db).2 after ∧
      HoldsString times (serveStrings key steps db).1 key after) ∧
    (∀ (write read : StringStep times) (offset value start stop : Bytes) (o : Nat),
      write.call = .setrange offset value → read.call = .getrange start stop →
      stringToLl offset = some (o : Int) → stringToLl start = some (o : Int) →
      stringToLl stop = some ((o : Int) + value.length - 1) → value ≠ [] →
      (read.call.serve key read.env
        (write.call.serve key write.env (serveStrings key steps db).1).1).2 = replyBulk value) ∧
    (∀ (edit last : StringStep times) (reads : List (StringStep times)),
      edit.call.isEdit = true → (∀ read ∈ reads, read.call.isEdit = false) →
      last.call = .strlen →
      (last.call.serve key last.env (serveStrings key reads
        (edit.call.serve key edit.env (serveStrings key steps db).1).1).1).2 =
          (edit.call.serve key edit.env (serveStrings key steps db).1).2) ∧
    ∀ (limit : Nat) (s value : Bytes) (o : Nat), limit ≤ 2 ^ 63 →
      (s.length < limit → StringBuffer.new limit s = some (bufferOf s)) ∧
      (s.length + value.length < limit →
        (bufferOf s).append limit value = some (bufferOf (s ++ value))) ∧
      (o + value.length < limit → ∃ t, Overwritten s o value t ∧
        (bufferOf s).setrange limit o value = some (bufferOf t)) := by
  obtain ⟨after, follows, there⟩ := serveStrings_follows steps holds
  refine ⟨⟨after, follows, there⟩, ?_, ?_, ?_⟩
  · intro write read offset value start stop o writes reads place first last filled
    exact written_is_read write read there writes reads place first last filled
  · intro edit last reads edits reading asks
    exact strlen_of_edit edit last reads there edits reading asks
  · intro limit s value o bounded
    refine ⟨StringBuffer.new_eq bounded, StringBuffer.append_eq bounded, fun allowed => ?_⟩
    exact ⟨_, setrangeBytes_overwritten s o value, StringBuffer.setrange_eq bounded allowed⟩

/-- `SETRANGE` beyond the end of a string, then `STRLEN`. -/
theorem setrange_then_strlen :
    (cmdStrlen sampleEnv (cmdSetrange sampleEnv (singleStore "k" (.string (text "ab")))
        [text "setrange", text "k", text "4", text "xy"]).1 [text "strlen", text "k"]).2 =
      (cmdSetrange sampleEnv (singleStore "k" (.string (text "ab")))
        [text "setrange", text "k", text "4", text "xy"]).2 :=
  have holds : HoldsString Set.univ (singleStore "k" (.string (text "ab"))) (text "k")
      (some (text "ab")) := .inr ⟨_, _, fun t _ => live_singleStore t _ _, rfl⟩
  (string_edits [] holds).2.2.1
    ⟨sampleEnv, .setrange (text "4") (text "xy"), trivial, ⟨4, by decide, by decide⟩, by decide⟩
    ⟨sampleEnv, .strlen, trivial, trivial⟩ [] rfl (by simp) rfl

end Runs

end Miniredis
