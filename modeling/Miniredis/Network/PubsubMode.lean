/-
**Subscribed mode (`pubsub.c`).**

A client is in subscribed mode while its counter is not zero. The counter goes up with every call to
`pubsub_subscribe` and down once for every list the client is taken out of, so a subscription to a
channel the client is already in is counted and never taken back. `surplus` is the number of these;
only `pubsub_unsubscribe_all` clears it.

* `counts_run` — after any calls the counter is the number of the client's channels and its surplus.
* `mode_matches_iff` — the counter is zero exactly when the client is in no list, unless the client
  has left every channel with a surplus.
* `repeated_subscription_sticks` — two subscriptions to one channel and one unsubscription.
-/

import Miniredis.Network.Pubsub

namespace Miniredis

open Function (update update_of_ne update_self)

/-! ### Repeated subscriptions -/

section Surplus

/-- A call's effect on the number of a client's repeated subscriptions. -/
def repeated (subs : Finset (Nat × Bytes)) (n : Nat → Nat) : PubsubCall → Nat → Nat
  | .subscribe c chan => if (c, chan) ∈ subs then update n c (n c + 1) else n
  | .unsubscribeAll c => update n c 0
  | .unsubscribe _ _ | .unsubscribeChannels _ _ | .publish _ _ => n

/-- The subscriptions of each client to channels it was in, since it last was taken out of all of
them by `pubsub_unsubscribe_all`. -/
def surplus (calls : List PubsubCall) : Nat → Nat :=
  (calls.foldl (fun (state : Finset (Nat × Bytes) × (Nat → Nat)) call =>
    (subscribed state.1 call, repeated state.1 state.2 call)) (∅, fun _ => 0)).2

theorem surplus_concat (calls : List PubsubCall) (call : PubsubCall) :
    surplus (calls ++ [call]) = repeated (subscriptions calls) (surplus calls) call := by
  have first (calls : List PubsubCall) :
      (calls.foldl (fun (state : Finset (Nat × Bytes) × (Nat → Nat)) call =>
        (subscribed state.1 call, repeated state.1 state.2 call)) (∅, fun _ => 0)).1 =
      subscriptions calls := by
    induction calls using List.reverseRecOn with
    | nil => rfl
    | append_singleton calls call ih =>
      rw [List.foldl_concat, subscriptions_concat]
      dsimp only
      rw [ih]
  rw [surplus, List.foldl_concat]
  dsimp only
  rw [first]
  rfl

end Surplus

/-! ### The counter -/

section Counter

variable {h : Hub} {subs : Finset (Nat × Bytes)} {extra : Nat → Nat} {c : Nat} {chan : Bytes}

/-- The lists hold the subscriptions, and each counter is their number and a surplus. -/
structure Hub.Counts (h : Hub) (subs : Finset (Nat × Bytes)) (extra : Nat → Nat) : Prop where
  holds : h.Holds subs
  total : ∀ c, (h.clients c).subscribed = ((subs.filter (·.1 = c)).card : Int) + extra c

theorem Hub.Counts.subscribe (counts : h.Counts subs extra)
    (room : (h.clients c).subscribed + 1 < 2 ^ 31) :
    (pubsubSubscribe h c chan).1.Counts (insert (c, chan) subs)
      (repeated subs extra (.subscribe c chan)) := by
  refine ⟨counts.holds.subscribe room, fun c' => ?_⟩
  have before := counts.total c'
  have natural : 0 ≤ (h.clients c).subscribed := le_trans (by omega) (counts.holds.counted c)
  change (update h.clients c _ c').subscribed = _
  rw [Finset.filter_insert, repeated]
  by_cases same : c' = c
  · subst same
    rw [update_self, if_pos rfl]
    dsimp only
    rw [Int.bmod_eq_of_le_mul_two (by omega) (by omega)]
    by_cases inside : (c', chan) ∈ subs
    · have already : (c', chan) ∈ subs.filter (·.1 = c') := Finset.mem_filter.mpr ⟨inside, rfl⟩
      rw [if_pos inside, update_self, Finset.insert_eq_of_mem already]
      push_cast
      omega
    · have new : (c', chan) ∉ subs.filter (·.1 = c') := fun member =>
        inside (Finset.mem_filter.mp member).1
      rw [if_neg inside, Finset.card_insert_of_notMem new]
      push_cast
      omega
  · rw [update_of_ne same, if_neg (fun other => same other.symm)]
    split_ifs
    · rw [update_of_ne same]
      exact before
    · exact before

theorem Hub.Counts.unsubscribe (counts : h.Counts subs extra) :
    (pubsubUnsubscribe h c chan).1.Counts (subs.erase (c, chan)) extra := by
  refine ⟨counts.holds.unsubscribe, fun c' => ?_⟩
  have before := counts.total c'
  rw [clients_unsubscribe, Finset.filter_erase]
  by_cases leaves : c' = c ∧ c ∈ h.list chan
  · obtain ⟨rfl, inside⟩ := leaves
    have present : (c', chan) ∈ subs.filter (·.1 = c') :=
      Finset.mem_filter.mpr ⟨(counts.holds.member c' chan).mp inside, rfl⟩
    have fewer := Finset.card_erase_add_one present
    rw [if_pos ⟨rfl, inside, by omega⟩]
    omega
  · have absent : (c, chan) ∉ subs.filter (·.1 = c') := by
      intro member
      obtain ⟨inside, same⟩ := Finset.mem_filter.mp member
      exact leaves ⟨same.symm, (counts.holds.member c chan).mpr inside⟩
    rw [if_neg fun all => leaves ⟨all.1, all.2.1⟩, Finset.erase_eq_of_notMem absent, before]
    omega

theorem Hub.Counts.append (counts : h.Counts subs extra) (c : Nat) (bytes : Bytes) :
    (h.append c bytes).Counts subs extra :=
  ⟨counts.holds.append c bytes, fun c' =>
    (subscribed_append h c bytes c').trans (counts.total c')⟩

theorem Hub.Counts.leaveChannel (counts : h.Counts subs extra)
    (frame : Option (Bytes → Int → Bytes)) :
    (leaveChannel c frame h (chan, h.list chan)).Counts (subs.erase (c, chan)) extra := by
  rw [Miniredis.leaveChannel]
  split_ifs with inside
  · cases frame with
    | none => exact counts.unsubscribe
    | some frame => exact counts.unsubscribe.append _ _
  · rw [Finset.erase_eq_of_notMem]
    · exact counts
    · rw [← counts.holds.member]
      simpa [clientInList] using inside

theorem Hub.Counts.unsubscribeAll (counts : h.Counts subs extra) :
    (pubsubUnsubscribeAll h c).Counts (subs.filter (·.1 ≠ c))
      (repeated subs extra (.unsubscribeAll c)) := by
  refine ⟨counts.holds.unsubscribeAll, fun c' => ?_⟩
  have before := counts.total c'
  have own := counts.total c
  rw [filter_leave, repeated, pubsubUnsubscribeAll]
  by_cases same : c' = c
  · subst same
    rw [if_pos rfl, update_self]
    split_ifs with zero
    · exact zero
    · change (update h.clients c' _ c').subscribed = _
      rw [update_self]
      rfl
  · rw [if_neg same, update_of_ne same]
    split_ifs with zero
    · exact before
    · change (update h.clients c _ c').subscribed = _
      rw [update_of_ne same]
      exact before

theorem Hub.Counts.publish (counts : h.Counts subs extra) (chan msg : Bytes) :
    (pubsubPublish h chan msg).1.Counts subs extra := by
  refine ⟨counts.holds.publish chan msg, fun c => ?_⟩
  rcases publish_cases h chan msg with ⟨_, _, clients, _⟩ | loop
  · rw [clients]
    exact counts.total c
  · rw [loop, subscribed_deliver]
    exact counts.total c

/-- **A call that finds room keeps the count.** -/
theorem Hub.Counts.call (counts : h.Counts subs extra) {call : PubsubCall} (room : h.Room call) :
    (h.call call).Counts (subscribed subs call) (repeated subs extra call) := by
  cases call with
  | subscribe c chan => exact counts.subscribe (room c rfl)
  | unsubscribe c chan => exact counts.unsubscribe
  | unsubscribeChannels c frame =>
    exact counts.holds.unsubscribeChannels_keeps (P := fun h subs => h.Counts subs extra) frame
      (fun _ before => before.leaveChannel frame) counts
  | unsubscribeAll c => exact counts.unsubscribeAll
  | publish chan msg => exact counts.publish chan msg

end Counter

/-! ### Any sequence of calls -/

section Runs

/-- **The counter after any calls in which it does not overflow.** -/
theorem counts_run (seed : Seed) (start : Nat → Client)
    (fresh : ∀ c, (start c).subscribed = 0) (calls : List PubsubCall)
    (each : ∀ c, subscribeCalls calls c < 2 ^ 31) :
    ((pubsubCreate seed start).run calls).Counts (subscriptions calls) (surplus calls) := by
  induction calls using List.reverseRecOn with
  | nil => exact ⟨(holds_run seed fresh [] each).1, fun c => fresh c⟩
  | append_singleton calls call ih =>
    have before := subscribeCalls_init each
    have room := Hub.room_of_counts (holds_run seed fresh calls before).2 each
    rw [subscriptions_concat, surplus_concat, run_concat]
    exact (ih before).call room

/-- **When subscribed mode tells whether the client is in a list**: unless it is in none, and has a
surplus. Fewer than `2 ^ 31` subscriptions of a client keep its counter, an `int`, from
overflowing. -/
theorem mode_matches_iff (seed : Seed) (start : Nat → Client)
    (fresh : ∀ c, (start c).subscribed = 0) (calls : List PubsubCall)
    (each : ∀ c, subscribeCalls calls c < 2 ^ 31) (c : Nat) :
    ((((pubsubCreate seed start).run calls).clients c).subscribed = 0 ↔
        ∀ chan, c ∉ ((pubsubCreate seed start).run calls).list chan) ↔
      (∃ chan, (c, chan) ∈ subscriptions calls) ∨ surplus calls c = 0 := by
  have counts := counts_run seed start fresh calls each
  have total := counts.total c
  have nowhere : (∀ chan, c ∉ ((pubsubCreate seed start).run calls).list chan) ↔
      ((subscriptions calls).filter (·.1 = c)).card = 0 := by
    rw [Finset.card_eq_zero, Finset.filter_eq_empty_iff]
    constructor
    · rintro out ⟨c', chan⟩ member rfl
      exact out chan ((counts.holds.member c' chan).mpr member)
    · intro out chan inside
      exact out ((counts.holds.member c chan).mp inside) rfl
  have somewhere : (∃ chan, (c, chan) ∈ subscriptions calls) ↔
      ((subscriptions calls).filter (·.1 = c)).card ≠ 0 := by
    rw [Ne, ← nowhere, not_forall]
    exact exists_congr fun chan => by rw [not_not, counts.holds.member]
  rw [nowhere, somewhere, total]
  omega

theorem mode_matches_iff_sample :
    (((pubsubCreate (Vector.replicate 16 0) fun _ => clientInit 0).run sampleCalls).clients
        2).subscribed = 0 ↔
      ∀ chan, 2 ∉ ((pubsubCreate (Vector.replicate 16 0) fun _ => clientInit 0).run
        sampleCalls).list chan :=
  (mode_matches_iff (Vector.replicate 16 0) (fun _ => clientInit 0) (fun _ => rfl) sampleCalls
    (fun _ => lt_of_le_of_lt List.countP_le_length (by decide)) 2).mpr (.inr (by decide))

/-- A client that subscribes to a channel twice and leaves it is in no list, and still counts one
subscription. -/
theorem repeated_subscription_sticks :
    let after := (pubsubCreate (Vector.replicate 16 0) fun _ => clientInit 0).run
      [.subscribe 1 (text "news"), .subscribe 1 (text "news"), .unsubscribe 1 (text "news")]
    (after.clients 1).subscribed = 1 ∧ ∀ chan, 1 ∉ after.list chan := by
  intro after
  have counts := counts_run (Vector.replicate 16 0) (fun _ => clientInit 0) (fun _ => rfl)
    [.subscribe 1 (text "news"), .subscribe 1 (text "news"), .unsubscribe 1 (text "news")]
    fun _ => lt_of_le_of_lt List.countP_le_length (by decide)
  have none : subscriptions [.subscribe 1 (text "news"), .subscribe 1 (text "news"),
      .unsubscribe 1 (text "news")] = ∅ := by decide
  rw [none] at counts
  exact ⟨(counts.total 1).trans (by decide), fun chan inside =>
    Finset.notMem_empty _ ((counts.holds.member 1 chan).mp inside)⟩

end Runs

end Miniredis
