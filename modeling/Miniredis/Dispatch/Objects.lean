/-
**Objects that clients share under a key (`db.c`).**

Clients use a key as an object of their own: a queue, a lock. Each of them asks with commands on the
key, among commands on other keys, expiry cycles, children and signals.

* `SharedObject` — what the object is for, how a command asks it, and what the key holds for it.
* `SharedObject.run_serves` — over any interleaving the replies are those of the one object, asked
  in the order of the commands.
-/

import Miniredis.Dispatch.Isolation
import Miniredis.Lib.Machine

namespace Miniredis

/-- An object with states `σ` and calls `ι` under a key, and that one command serves one call. -/
structure SharedObject (σ ι : Type) where
  key : Bytes
  /-- What the object replies, and its next state. -/
  call : σ → ι → Bytes × σ
  /-- The command asks for the call. -/
  Asks : ι → Env → Command → Prop
  /-- From a time on the store holds the object in the state. -/
  Holds : Int → Db → σ → Prop
  agree : ∀ {t u : Int} {db db' : Db} {state : σ}, Holds t db state → t ≤ u →
    AgreeFrom u {key} db' db → Holds u db' state
  serves : ∀ {t : Int} {env : Env} {s : Server} {cmd : Command} {state : σ} {ask : ι} (io : Io),
    Asks ask env cmd → Holds t s.db state → (∀ i, t ≤ env.now i) →
      Holds t (dispatchCommand env io s cmd).1.db (call state ask).2 ∧
        (dispatchCommand env io s cmd).2.out = (call state ask).1

/-- A run in which the commands that ask an object are marked with the call. -/
abbrev Traffic (ι : Type) := List (Option ι × Event)

/-- The calls, in order. -/
def Traffic.calls {ι : Type} (traffic : Traffic ι) : List ι := traffic.filterMap Prod.fst

/-- The events, in order. -/
def Traffic.events {ι : Type} (traffic : Traffic ι) : List Event := traffic.map Prod.snd

/-- What is sent for an event. -/
def Event.out (s : Server) : Event → Bytes
  | .command env io cmd => (dispatchCommand env io s cmd).2.out
  | _ => []

/-- The replies to the calls. -/
def Traffic.replies {ι : Type} : Server → Traffic ι → List Bytes
  | _, [] => []
  | s, (some _, e) :: rest => e.out s :: Traffic.replies (step s e) rest
  | s, (none, e) :: rest => Traffic.replies (step s e) rest

namespace SharedObject

variable {σ ι : Type} (object : SharedObject σ ι)

/-- The marked events ask the object, the others leave its key alone. -/
def Marked (traffic : Traffic ι) : Prop :=
  (∀ ask e, (some ask, e) ∈ traffic →
    ∃ env io cmd, e = .command env io cmd ∧ object.Asks ask env cmd) ∧
  ∀ e, (none, e) ∈ traffic → e.Foreign {object.key}

variable {object} {t u : Int} {s : Server} {state : σ}

theorem Marked.tail {first : Option ι × Event} {traffic : Traffic ι}
    (marked : object.Marked (first :: traffic)) : object.Marked traffic :=
  ⟨fun ask e member => marked.1 ask e (List.mem_cons_of_mem _ member),
    fun e member => marked.2 e (List.mem_cons_of_mem _ member)⟩

/-- **The server is the object.** -/
theorem run_serves {traffic : Traffic ι} (marked : object.Marked traffic)
    (clocked : Clocked t traffic.events u) (holds : object.Holds t s.db state) :
    traffic.replies s = (Machine.trace object.call state traffic.calls).1 ∧
      object.Holds u (run s traffic.events).db
        (Machine.trace object.call state traffic.calls).2 := by
  induction traffic generalizing t s state with
  | nil => exact ⟨rfl, object.agree holds clocked (.refl u {object.key} s.db)⟩
  | cons first traffic ih =>
    obtain ⟨mark, e⟩ := first
    obtain ⟨m, le, between, clocked⟩ := clocked
    cases mark with
    | none =>
      have same := step_foreign (marked.2 e List.mem_cons_self) between le
        (.refl t {object.key} s.db)
      exact ih marked.tail clocked (object.agree holds le same)
    | some ask =>
      obtain ⟨env, io, cmd, rfl, asks⟩ := marked.1 ask e List.mem_cons_self
      obtain ⟨after, reply⟩ := object.serves io asks holds fun i => (between i).1
      have later := ih marked.tail clocked (object.agree after le (.refl m {object.key} _))
      exact ⟨congrArg₂ List.cons reply later.1, later.2⟩

end SharedObject

end Miniredis
