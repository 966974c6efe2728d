/-
**Replies on their way out (`server.c`, `dynbuf.c`).**

`read_client` appends replies while an earlier flush may be half done, and `write_client` forgets
its buffer only when all of it is handed over. What a socket was handed and what is still pending
are, together and in order, the replies to the commands of its own client (`reply_stream`).
-/

import Miniredis.Network.Loop

namespace Miniredis

/-! ### Reading appends -/

section Append

/-- Replies were appended, one for each command dispatched. -/
def Session.Appends (x x' : Session) : Prop :=
  ∃ new : List (Command × Bytes), x'.answered = x.answered ++ new ∧
    x'.client.out = x.client.out ++ new.flatMap Prod.snd ∧ x'.client.outSent = x.client.outSent

theorem Session.Appends.refl (x : Session) : x.Appends x := ⟨[], by simp, by simp, rfl⟩

theorem Session.Appends.trans {x x' x'' : Session} (first : x.Appends x')
    (second : x'.Appends x'') : x.Appends x'' := by
  obtain ⟨front, answered, out, sent⟩ := first
  obtain ⟨back, answered', out', sent'⟩ := second
  refine ⟨front ++ back, ?_, ?_, sent'.trans sent⟩
  · rw [answered', answered, List.append_assoc]
  · rw [out', out, List.flatMap_append, List.append_assoc]

variable (worlds : Nat → World)

theorem Session.appends_dispatch (x : Session) (cmd : Command) (consumed : Nat) :
    x.Appends (x.dispatch worlds cmd consumed) :=
  ⟨[_], rfl, by rw [List.flatMap_singleton]; rfl, rfl⟩

theorem drainLoop_appends (fuel : Nat) (x : Session) : x.Appends (drainLoop worlds fuel x).1 := by
  induction fuel generalizing x with
  | zero => exact .refl x
  | succ fuel ih =>
    unfold drainLoop
    dsimp only
    split_ifs
    · exact x.appends_dispatch worlds _ _
    · exact (x.appends_dispatch worlds _ _).trans (ih _)
    · exact .refl x
    · exact .refl x

theorem readClient_appends (recvs : List Recv) (x : Session) :
    x.Appends (readClient worlds recvs x).1 := by
  fun_induction readClient worlds recvs x with
  | case1 | case2 | case4 | case5 => exact .refl _
  | case3 recvs x ih => exact ih
  | case6 chunk recvs x received exceeds => exact .refl x
  | case7 chunk recvs x received within x' exit drained =>
    have appends := drainLoop_appends worlds received.client.inBuf.length received
    rw [drained] at appends
    exact appends
  | case8 chunk recvs x received within x' drained ih =>
    have appends := drainLoop_appends worlds received.client.inBuf.length received
    rw [drained] at appends
    exact Session.Appends.trans appends ih

end Append

/-! ### Writing hands over -/

section Handed

/-- **`write_client` hands over the front of what is pending and keeps the rest.** -/
theorem writeClient_pending (c : Client) (sends : List Send) (within : c.outSent ≤ c.out.length) :
    let (c', handed, _) := writeClient c sends
    c'.outSent ≤ c'.out.length ∧ handed ++ c'.out.drop c'.outSent = c.out.drop c.outSent := by
  fun_induction writeClient c sends with
  | case1 c left => exact ⟨within, rfl⟩
  | case2 c drained =>
    have done : c.out.drop c.outSent = [] := List.drop_eq_nil_of_le (not_lt.mp drained)
    exact ⟨le_rfl, by simp [done]⟩
  | case3 c sends left k pending n c' handed ok wrote ih =>
    have fits : n ≤ pending.length := min_le_right _ _
    have size : pending.length = c.out.length - c.outSent := List.length_drop
    have next := ih (by dsimp only; omega)
    rw [wrote] at next
    refine ⟨next.1, ?_⟩
    rw [List.append_assoc, next.2, ← List.drop_drop]
    exact List.take_append_drop n pending
  | case4 c sends left => exact ⟨within, rfl⟩
  | case5 c sends left ih => exact ih within
  | case6 c sends left => exact ⟨within, rfl⟩
  | case7 c sends left => exact ⟨within, rfl⟩
  | case8 c send sends drained =>
    have done : c.out.drop c.outSent = [] := List.drop_eq_nil_of_le (not_lt.mp drained)
    exact ⟨le_rfl, by simp [done]⟩

/-- What a connection was handed is the front of its replies; the rest is pending. -/
structure View.Intact (v : View) : Prop where
  handed : v.socket.handed <+: v.answered.flatMap Prod.snd
  within : ∀ c, v.client = some c → c.outSent ≤ c.out.length
  pending : ∀ c, v.client = some c →
    v.socket.handed ++ c.out.drop c.outSent = v.answered.flatMap Prod.snd

/-- As long as there is a client, the first part follows from the others. -/
theorem View.intact_some {c : Client} {socket : Socket} {answered : List (Command × Bytes)}
    (within : c.outSent ≤ c.out.length)
    (pending : socket.handed ++ c.out.drop c.outSent = answered.flatMap Prod.snd) :
    View.Intact ⟨some c, socket, answered⟩ := by
  refine ⟨⟨_, pending⟩, ?_, ?_⟩
  · rintro c' ⟨⟩
    exact within
  · rintro c' ⟨⟩
    exact pending

theorem View.Intact.moves {before later : View} (move : Moves before later)
    (intact : before.Intact) : later.Intact := by
  cases move with
  | accept subscribed registered => exact intact_some le_rfl rfl
  | @read c socket answered server worlds recvs opened =>
    have within := intact.within c rfl
    have pending := intact.pending c rfl
    have appends := readClient_appends worlds recvs ⟨server, c, [], []⟩
    generalize readClient worlds recvs ⟨server, c, [], []⟩ = result at appends
    obtain ⟨x, exit⟩ := result
    obtain ⟨new, answers, out, sent⟩ := appends
    dsimp only at answers out sent pending
    have bound : x.client.outSent ≤ x.client.out.length := by
      rw [out, sent, List.length_append]
      omega
    have rest : socket.handed ++ x.client.out.drop x.client.outSent =
        (answered ++ x.answered).flatMap Prod.snd := by
      rw [answers, out, sent, List.drop_append_of_le_length within, ← List.append_assoc, pending]
      simp
    rw [View.afterRead]
    split_ifs
    all_goals exact intact_some bound rest
  | @write c socket answered sends strict =>
    have handed := writeClient_pending c sends (intact.within c rfl)
    have pending := intact.pending c rfl
    generalize writeClient c sends = result at handed
    obtain ⟨c', bytes, ok⟩ := result
    obtain ⟨within, kept⟩ := handed
    dsimp only at pending
    have rest : (socket.handed ++ bytes) ++ c'.out.drop c'.outSent =
        answered.flatMap Prod.snd := by
      rw [List.append_assoc, kept, pending]
    rw [View.afterWrite]
    split_ifs
    all_goals exact intact_some within rest
  | @close c socket answered => exact intact_some (intact.within c rfl) (intact.pending c rfl)
  | drop closing => exact ⟨intact.handed, by rintro _ ⟨⟩, by rintro _ ⟨⟩⟩

/-- **The bytes handed to a socket are the front of the replies to its client's own commands**, in
the order of execution, at every point of every run; while there is a client the rest is pending,
and nothing is missing once its buffer is drained. -/
theorem reply_stream (s : Server) (events : List NetEvent) (id : Nat) :
    (((Net.start s).run events).sockets id).handed <+: ((Net.start s).run events).replies id ∧
      ∀ c, ((Net.start s).run events).clients id = some c →
        c.outSent ≤ c.out.length ∧
        (((Net.start s).run events).sockets id).handed ++ c.out.drop c.outSent =
          ((Net.start s).run events).replies id ∧
        (c.outSent = c.out.length →
          (((Net.start s).run events).sockets id).handed =
            ((Net.start s).run events).replies id) := by
  have intact : (((Net.start s).run events).view id).Intact :=
    run_keeps ⟨List.nil_prefix, nofun, nofun⟩ View.Intact.moves s events id
  rw [Net.replies_view]
  refine ⟨intact.handed, fun c found => ?_⟩
  have pending := intact.pending c found
  refine ⟨intact.within c found, pending, fun drained => ?_⟩
  rw [← pending, drained, List.drop_length, List.append_nil]
  rfl

end Handed

end Miniredis
