/-
**Delivery of published messages (`pubsub.c`).**

What the registry is for is a set of subscriptions: a client subscribes to a channel, and leaves it
by name or by leaving every channel (`subscriptions`). The lists agree with that set as long as no
client's counter overflows (`holds_run`), since a counter is never below the number of the client's
channels: then the early exit on `subscribed == 0` finds a client that is in no list.

* `publish_delivers` — a message goes once to each subscriber, to nobody else, and is counted;
* `publish_overflow_differs` — a client that subscribes `2 ^ 32` times stays in the list.
-/

import Miniredis.Model.Pubsub
import Mathlib.Data.Finset.Card

namespace Miniredis

open Function (update update_of_ne update_self)
open HashTable (Table)

/-! ### Subscriptions -/

section Subscriptions

/-- The effect of a call on the set of subscriptions. -/
def subscribed (subs : Finset (Nat × Bytes)) : PubsubCall → Finset (Nat × Bytes)
  | .subscribe c chan => insert (c, chan) subs
  | .unsubscribe c chan => subs.erase (c, chan)
  | .unsubscribeChannels c _ | .unsubscribeAll c => subs.filter (·.1 ≠ c)
  | .publish _ _ => subs

/-- The subscriptions that calls leave. -/
def subscriptions (calls : List PubsubCall) : Finset (Nat × Bytes) := calls.foldl subscribed ∅

/-- The client of a `pubsub_subscribe`. -/
def PubsubCall.subscriber : PubsubCall → Option Nat
  | .subscribe c _ => some c
  | _ => none

/-- The clients that subscribe to something. -/
def subscribers (calls : List PubsubCall) : Finset Nat :=
  (calls.filterMap PubsubCall.subscriber).toFinset

theorem subscriptions_concat (calls : List PubsubCall) (call : PubsubCall) :
    subscriptions (calls ++ [call]) = subscribed (subscriptions calls) call :=
  List.foldl_concat ..

theorem mem_subscribers {calls : List PubsubCall} {c : Nat} {chan : Bytes}
    (member : (c, chan) ∈ subscriptions calls) : c ∈ subscribers calls := by
  induction calls using List.reverseRecOn with
  | nil => simp [subscriptions] at member
  | append_singleton calls call ih =>
    rw [subscriptions_concat] at member
    have grows : subscribers calls ⊆ subscribers (calls ++ [call]) := by
      intro c inside
      simp only [subscribers, List.filterMap_append, List.mem_toFinset] at inside ⊢
      exact List.mem_append_left _ inside
    cases call with
    | subscribe c' chan' =>
      rcases Finset.mem_insert.mp member with same | old
      · cases same
        simp [subscribers, PubsubCall.subscriber]
      · exact grows (ih old)
    | unsubscribe c' chan' => exact grows (ih (Finset.mem_of_mem_erase member))
    | unsubscribeChannels c' frame => exact grows (ih (Finset.mem_filter.mp member).1)
    | unsubscribeAll c' => exact grows (ih (Finset.mem_filter.mp member).1)
    | publish chan' msg => exact grows (ih member)

end Subscriptions

/-! ### Lists and counters -/

section Lists

variable {h : Hub} {subs : Finset (Nat × Bytes)} {c : Nat} {chan : Bytes}

/-- The clients in the list of a channel. -/
def Hub.list (h : Hub) (chan : Bytes) : List Nat := (h.channels.get chan).getD []

/-- The lists hold the subscriptions, and no counter is below the number of its client's. -/
structure Hub.Holds (h : Hub) (subs : Finset (Nat × Bytes)) : Prop where
  distinct : ∀ chan, (h.list chan).Nodup
  member : ∀ c chan, c ∈ h.list chan ↔ (c, chan) ∈ subs
  counted : ∀ c, ((subs.filter (·.1 = c)).card : Int) ≤ (h.clients c).subscribed

theorem Hub.list_write {l : List Nat} (found : h.channels.get chan = some l) (l' : List Nat)
    (other : Bytes) :
    Hub.list { h with channels := h.channels.write chan l' } other =
      if other = chan then l' else h.list other := by
  rw [list, Table.get_write, found]
  split_ifs <;> rfl

theorem list_subscribe (h : Hub) (c : Nat) (chan other : Bytes) :
    (pubsubSubscribe h c chan).1.list other =
      if other = chan then if c ∈ h.list chan then h.list chan else h.list chan ++ [c]
      else h.list other := by
  unfold pubsubSubscribe channelSubscribers clientInList Hub.list Hub.count
  cases found : h.channels.get chan with
  | none =>
    simp only [List.contains_nil, Bool.false_eq_true, if_false, Table.get_write, Table.get_set,
      Option.getD_none, List.not_mem_nil]
    split_ifs <;> rfl
  | some l =>
    simp only [List.contains_iff_mem, Option.getD_some]
    split_ifs with inside same same
    · rw [same, found]
      rfl
    · rfl
    · rw [Table.get_write, if_pos same, found]
      rfl
    · rw [Table.get_write, if_neg same]

theorem Hub.Holds.subscribe (holds : h.Holds subs)
    (room : (h.clients c).subscribed + 1 < 2 ^ 31) :
    (pubsubSubscribe h c chan).1.Holds (insert (c, chan) subs) where
  distinct other := by
    rw [list_subscribe]
    split_ifs with same inside
    · exact holds.distinct chan
    · rw [← List.concat_eq_append]
      exact (holds.distinct chan).concat inside
    · exact holds.distinct other
  member c' other := by
    rw [list_subscribe, Finset.mem_insert, Prod.mk.injEq, ← holds.member]
    split_ifs with same inside
    · subst same
      constructor
      · exact .inr
      · rintro (⟨rfl, _⟩ | old)
        · exact inside
        · exact old
    · subst same
      simp [or_comm]
    · simp [same]
  counted c' := by
    have before := holds.counted c'
    have small : ((insert (c, chan) subs).filter (·.1 = c')).card ≤
        (subs.filter (·.1 = c')).card + if c' = c then 1 else 0 := by
      rw [Finset.filter_insert]
      split_ifs with same other
      · exact Finset.card_insert_le _ _
      · exact absurd same.symm other
      · exact Nat.le_add_right _ _
      · exact le_rfl
    change _ ≤ (update h.clients c _ c').subscribed
    by_cases same : c' = c
    · subst same
      rw [update_self]
      dsimp only
      rw [Int.bmod_eq_of_le_mul_two (by omega) (by omega)]
      rw [if_pos rfl] at small
      omega
    · rw [update_of_ne same]
      rw [if_neg same] at small
      omega

theorem list_unsubscribe (h : Hub) (c : Nat) (chan other : Bytes) :
    (pubsubUnsubscribe h c chan).1.list other =
      if other = chan then (h.list chan).erase c else h.list other := by
  unfold pubsubUnsubscribe channelSubscribers clientInList
  cases found : h.channels.get chan with
  | none =>
    have empty : h.list chan = [] := by rw [Hub.list, found]; rfl
    dsimp only
    split_ifs with same
    · rw [same, empty]
      rfl
    · rfl
  | some l =>
    have full : h.list chan = l := by rw [Hub.list, found]; rfl
    have written := Hub.list_write found (l.erase c) other
    rw [full]
    dsimp only
    by_cases inside : l.contains c = true
    · rw [if_pos inside]
      split
      · exact written
      · exact written
    · rw [if_neg inside, List.erase_of_not_mem (by simpa using inside)]
      split_ifs with same
      · rw [same, full]
      · rfl

theorem clients_unsubscribe (h : Hub) (c : Nat) (chan : Bytes) (c' : Nat) :
    ((pubsubUnsubscribe h c chan).1.clients c').subscribed =
      (h.clients c').subscribed -
        if c' = c ∧ c ∈ h.list chan ∧ 0 < (h.clients c).subscribed then 1 else 0 := by
  unfold pubsubUnsubscribe channelSubscribers clientInList Hub.list
  cases found : h.channels.get chan with
  | none => simp
  | some l =>
    simp only [List.contains_iff_mem, Option.getD_some]
    by_cases inside : c ∈ l
    · rw [if_pos inside]
      by_cases positive : 0 < (h.clients c).subscribed
      · rw [if_pos positive]
        by_cases same : c' = c
        · subst same
          simp [Hub.count, inside, positive]
        · simp [Hub.count, same]
      · simp [positive]
    · simp [inside]

theorem Hub.Holds.unsubscribe (holds : h.Holds subs) :
    (pubsubUnsubscribe h c chan).1.Holds (subs.erase (c, chan)) where
  distinct other := by
    rw [list_unsubscribe]
    split_ifs
    · exact (holds.distinct chan).erase c
    · exact holds.distinct other
  member c' other := by
    rw [list_unsubscribe, Finset.mem_erase, ← holds.member, Ne, Prod.mk.injEq]
    split_ifs with same
    · subst same
      rw [(holds.distinct other).mem_erase_iff]
      simp
    · simp [same]
  counted c' := by
    rw [clients_unsubscribe, Finset.filter_erase]
    have before := holds.counted c'
    split_ifs with leaves
    · obtain ⟨rfl, inside, positive⟩ := leaves
      have present : (c', chan) ∈ subs.filter (·.1 = c') :=
        Finset.mem_filter.mpr ⟨(holds.member c' chan).mp inside, rfl⟩
      have fewer := Finset.card_erase_add_one present
      omega
    · have fewer : ((subs.filter (·.1 = c')).erase (c, chan)).card ≤
          (subs.filter (·.1 = c')).card := Finset.card_le_card (Finset.erase_subset _ _)
      omega

/-- A client that counts no subscription is in no list. -/
theorem Hub.Holds.idle (holds : h.Holds subs) (zero : (h.clients c).subscribed = 0) :
    subs.filter (·.1 ≠ c) = subs := by
  have none := holds.counted c
  rw [zero] at none
  have empty : subs.filter (·.1 = c) = ∅ := Finset.card_eq_zero.mp (by omega)
  exact Finset.filter_true_of_mem fun p member same =>
    Finset.notMem_empty p (empty ▸ Finset.mem_filter.mpr ⟨member, same⟩)

theorem list_unsubscribeAll (counts : (h.clients c).subscribed ≠ 0) (other : Bytes) :
    (pubsubUnsubscribeAll h c).list other = (h.list other).filter (· ≠ c) := by
  rw [pubsubUnsubscribeAll, if_neg counts]
  change (Table.get (Table.writeAll _ h.channels.pairs h.channels) other).getD [] = _
  rw [Table.get_writeAll, Hub.list]
  cases h.channels.get other <;> rfl

/-- The subscriptions of a client are those left when every other client's are taken away. -/
theorem filter_leave (subs : Finset (Nat × Bytes)) (c c' : Nat) :
    (subs.filter (·.1 ≠ c)).filter (·.1 = c') =
      if c' = c then ∅ else subs.filter (·.1 = c') := by
  ext p
  split_ifs with same <;> simp only [Finset.mem_filter, Finset.notMem_empty] <;> grind

theorem Hub.Holds.unsubscribeAll (holds : h.Holds subs) :
    (pubsubUnsubscribeAll h c).Holds (subs.filter (·.1 ≠ c)) := by
  by_cases zero : (h.clients c).subscribed = 0
  · rw [pubsubUnsubscribeAll, if_pos zero, holds.idle zero]
    exact holds
  refine ⟨fun other => ?_, fun c' other => ?_, fun c' => ?_⟩
  · rw [list_unsubscribeAll zero]
    exact (holds.distinct other).filter _
  · rw [list_unsubscribeAll zero, Finset.mem_filter, ← holds.member]
    simp
  · rw [filter_leave, pubsubUnsubscribeAll, if_neg zero]
    change _ ≤ (update h.clients c _ c').subscribed
    by_cases same : c' = c
    · subst same
      simp
    · rw [if_neg same, update_of_ne same]
      exact holds.counted c'

theorem subscribed_append (h : Hub) (c : Nat) (bytes : Bytes) (c' : Nat) :
    ((h.append c bytes).clients c').subscribed = (h.clients c').subscribed := by
  change (update h.clients c _ c').subscribed = _
  by_cases same : c' = c
  · subst same
    rw [update_self]
  · rw [update_of_ne same]

theorem Hub.Holds.append (holds : h.Holds subs) (c : Nat) (bytes : Bytes) :
    (h.append c bytes).Holds subs :=
  ⟨holds.distinct, holds.member, fun c' =>
    (holds.counted c').trans_eq (subscribed_append h c bytes c').symm⟩

theorem Hub.Holds.leaveChannel (holds : h.Holds subs) (frame : Option (Bytes → Int → Bytes)) :
    (leaveChannel c frame h (chan, h.list chan)).Holds (subs.erase (c, chan)) := by
  rw [Miniredis.leaveChannel]
  split_ifs with inside
  · cases frame with
    | none => exact holds.unsubscribe
    | some frame => exact holds.unsubscribe.append _ _
  · rw [Finset.erase_eq_of_notMem]
    · exact holds
    · rw [← holds.member]
      simpa [clientInList] using inside

/-- Leaving a channel changes no other channel's list. -/
theorem list_leaveChannel {frame : Option (Bytes → Int → Bytes)} {l : List Nat} {other : Bytes}
    (apart : other ≠ chan) : (leaveChannel c frame h (chan, l)).list other = h.list other := by
  rw [leaveChannel]
  split_ifs
  · cases frame with
    | none => exact (list_unsubscribe ..).trans (if_neg apart)
    | some frame => exact (list_unsubscribe ..).trans (if_neg apart)
  · rfl

/-- What leaving one channel keeps, the pass of `pubsub_unsubscribe_channels` keeps. -/
theorem leaveChannels_keeps {P : Hub → Finset (Nat × Bytes) → Prop}
    {frame : Option (Bytes → Int → Bytes)}
    (leaves : ∀ {h subs} chan, P h subs →
      P (leaveChannel c frame h (chan, h.list chan)) (subs.erase (c, chan)))
    (visits : List (Bytes × List Nat)) (distinct : (visits.map Prod.fst).Nodup)
    (current : ∀ visit ∈ visits, h.list visit.1 = visit.2) (before : P h subs) :
    P (visits.foldl (leaveChannel c frame) h)
      (subs.filter fun p => p.1 ≠ c ∨ p.2 ∉ visits.map Prod.fst) := by
  induction visits generalizing h subs with
  | nil => simpa using before
  | cons visit visits ih =>
    obtain ⟨chan, l⟩ := visit
    rw [List.map_cons, List.nodup_cons] at distinct
    obtain rfl : h.list chan = l := current (chan, l) List.mem_cons_self
    have left := ih distinct.2 (fun visit member => by
      have apart : visit.1 ≠ chan := by
        rintro rfl
        exact distinct.1 (List.mem_map.mpr ⟨visit, member, rfl⟩)
      rw [list_leaveChannel apart]
      exact current visit (List.mem_cons_of_mem _ member)) (leaves chan before)
    have same : (subs.filter fun p => p.1 ≠ c ∨ p.2 ∉ chan :: visits.map Prod.fst) =
        (subs.erase (c, chan)).filter fun p => p.1 ≠ c ∨ p.2 ∉ visits.map Prod.fst := by
      ext ⟨c', chan'⟩
      simp only [Finset.mem_filter, Finset.mem_erase, List.mem_cons]
      grind
    rw [List.map_cons, same]
    exact left

/-- What leaving one channel keeps, `pubsub_unsubscribe_channels` keeps. -/
theorem Hub.Holds.unsubscribeChannels_keeps {P : Hub → Finset (Nat × Bytes) → Prop}
    (holds : h.Holds subs) (frame : Option (Bytes → Int → Bytes))
    (leaves : ∀ {h subs} chan, P h subs →
      P (Miniredis.leaveChannel c frame h (chan, h.list chan)) (subs.erase (c, chan)))
    (before : P h subs) :
    P (pubsubUnsubscribeChannels h c frame) (subs.filter (·.1 ≠ c)) := by
  rw [pubsubUnsubscribeChannels]
  split_ifs with zero
  · rw [holds.idle zero]
    exact before
  · have left := leaveChannels_keeps leaves h.channels.pairs h.channels.pairs_nodup
      (fun visit member => by
        rw [Hub.list, (h.channels.mem_pairs visit.1 visit.2).mp member]
        rfl) before
    -- a channel with a subscriber is in the table, so the pass visits it
    convert left using 1
    refine Finset.filter_congr fun p member => ?_
    have visited : p.2 ∈ h.channels.pairs.map Prod.fst := by
      have inside := (holds.member p.1 p.2).mpr member
      rw [Table.mem_keys]
      cases found : h.channels.get p.2 with
      | none =>
        rw [Hub.list, found] at inside
        cases inside
      | some l => rfl
    simp [visited]

theorem Hub.Holds.unsubscribeChannels (holds : h.Holds subs)
    (frame : Option (Bytes → Int → Bytes)) :
    (pubsubUnsubscribeChannels h c frame).Holds (subs.filter (·.1 ≠ c)) :=
  holds.unsubscribeChannels_keeps frame (fun _ before => before.leaveChannel frame) holds

end Lists

/-! ### Messages -/

section Messages

variable {h : Hub} {subs : Finset (Nat × Bytes)}

/-- One turn of the loop of `pubsub_publish`. -/
def deliver (frame : Bytes) (state : Hub × Int) (sub : Nat) : Hub × Int :=
  (state.1.append sub frame, (state.2 + 1).bmod (2 ^ 32))

/-- What the loop of `pubsub_publish` does to a client it passes once at most. -/
theorem out_deliver (frame : Bytes) {l : List Nat} (distinct : l.Nodup) (h : Hub) (n : Int)
    (c : Nat) :
    (((l.foldl (deliver frame) (h, n)).1).clients c).out =
      (h.clients c).out ++ if c ∈ l then frame else [] := by
  induction l generalizing h n with
  | nil => simp
  | cons sub l ih =>
    rw [List.nodup_cons] at distinct
    rw [List.foldl_cons, deliver, ih distinct.2]
    change (update h.clients sub _ c).out ++ _ = _
    by_cases same : c = sub
    · subst same
      simp [distinct.1]
    · rw [update_of_ne same]
      simp [same]

theorem count_deliver (frame : Bytes) (l : List Nat) (h : Hub) (n : Int) :
    (l.foldl (deliver frame) (h, n.bmod (2 ^ 32))).2 = (n + l.length).bmod (2 ^ 32) := by
  induction l generalizing h n with
  | nil => simp
  | cons sub l ih =>
    rw [List.foldl_cons, deliver]
    dsimp only
    rw [Int.bmod_add_bmod, ih, List.length_cons]
    push_cast
    ring_nf

theorem Hub.Holds.deliver (holds : h.Holds subs) (frame : Bytes) (l : List Nat) (n : Int) :
    (l.foldl (Miniredis.deliver frame) (h, n)).1.Holds subs := by
  induction l generalizing h n with
  | nil => exact holds
  | cons sub l ih => exact ih (holds.append sub frame) _

/-- The loop of `pubsub_publish` runs over the list of the channel, if there is one. -/
theorem publish_cases (h : Hub) (chan msg : Bytes) :
    (h.list chan = [] ∧ (∀ other, (pubsubPublish h chan msg).1.list other = h.list other) ∧
        (pubsubPublish h chan msg).1.clients = h.clients ∧ (pubsubPublish h chan msg).2 = 0) ∨
      pubsubPublish h chan msg =
        (h.list chan).foldl (Miniredis.deliver (messageFrame chan msg)) (h, 0) := by
  unfold pubsubPublish channelSubscribers
  cases found : h.channels.get chan with
  | none =>
    refine .inl ⟨?_, fun _ => rfl, rfl, rfl⟩
    rw [Hub.list, found]
    rfl
  | some l =>
    have full : h.list chan = l := by
      rw [Hub.list, found]
      rfl
    cases l with
    | nil =>
      refine .inl ⟨full, fun other => ?_, rfl, rfl⟩
      -- the channel that is dropped had an empty list
      by_cases same : other = chan
      · rw [same, full, Hub.list, Table.get_delete, if_pos rfl]
        rfl
      · rw [Hub.list, Table.get_delete, if_neg same, Hub.list]
    | cons first rest =>
      rw [full]
      exact .inr rfl

theorem Hub.Holds.publish (holds : h.Holds subs) (chan msg : Bytes) :
    (pubsubPublish h chan msg).1.Holds subs := by
  rcases publish_cases h chan msg with ⟨_, lists, clients, _⟩ | loop
  · refine ⟨fun other => ?_, fun c other => ?_, fun c => ?_⟩
    · rw [lists]
      exact holds.distinct other
    · rw [lists]
      exact holds.member c other
    · rw [clients]
      exact holds.counted c
  · rw [loop]
    exact holds.deliver _ _ _

theorem out_publish (holds : h.Holds subs) (chan msg : Bytes) (c : Nat) :
    ((pubsubPublish h chan msg).1.clients c).out =
      (h.clients c).out ++ if (c, chan) ∈ subs then messageFrame chan msg else [] := by
  rw [if_congr (holds.member c chan).symm rfl rfl]
  rcases publish_cases h chan msg with ⟨empty, _, clients, _⟩ | loop
  · rw [clients, empty]
    simp
  · rw [loop]
    exact out_deliver _ (holds.distinct chan) h 0 c

/-- The list of a channel is as long as the channel has subscriptions. -/
theorem Hub.Holds.card (holds : h.Holds subs) (chan : Bytes) :
    (subs.filter (·.2 = chan)).card = (h.list chan).length := by
  rw [← List.toFinset_card_of_nodup (holds.distinct chan)]
  refine Finset.card_bij (fun p _ => p.1) ?_ ?_ ?_
  · rintro ⟨c, chan'⟩ member
    obtain ⟨inside, rfl⟩ := Finset.mem_filter.mp member
    exact List.mem_toFinset.mpr ((holds.member c chan').mpr inside)
  · rintro ⟨c, chan'⟩ member ⟨c', chan''⟩ member' same
    obtain ⟨_, rfl⟩ := Finset.mem_filter.mp member
    obtain ⟨_, rfl⟩ := Finset.mem_filter.mp member'
    exact Prod.ext same rfl
  · intro c member
    refine ⟨(c, chan), ?_, rfl⟩
    exact Finset.mem_filter.mpr ⟨(holds.member c chan).mp (List.mem_toFinset.mp member), rfl⟩

theorem count_publish (holds : h.Holds subs) (chan msg : Bytes)
    (few : (subs.filter (·.2 = chan)).card < 2 ^ 31) :
    (pubsubPublish h chan msg).2 = ((subs.filter (·.2 = chan)).card : Int) := by
  rw [holds.card] at few ⊢
  rcases publish_cases h chan msg with ⟨empty, _, _, none⟩ | loop
  · rw [none, empty]
    rfl
  · rw [loop]
    refine (count_deliver _ _ h 0).trans ?_
    rw [zero_add]
    exact Int.bmod_eq_of_le_mul_two (by omega) (by omega)

end Messages

/-! ### Any sequence of calls -/

section Runs

variable {h : Hub} {subs : Finset (Nat × Bytes)}

/-- The counter of a client a call may raise has room. -/
def Hub.Room (h : Hub) (call : PubsubCall) : Prop :=
  ∀ c, call.subscriber = some c → (h.clients c).subscribed + 1 < 2 ^ 31

/-- The calls of a client to `pubsub_subscribe`. -/
def subscribeCalls (calls : List PubsubCall) (c : Nat) : Nat :=
  calls.countP (·.subscriber = some c)

/-- **A call that finds room changes the lists as it changes the subscriptions.** -/
theorem Hub.Holds.call (holds : h.Holds subs) {call : PubsubCall} (room : h.Room call) :
    (h.call call).Holds (subscribed subs call) := by
  cases call with
  | subscribe c chan => exact holds.subscribe (room c rfl)
  | unsubscribe c chan => exact holds.unsubscribe
  | unsubscribeChannels c frame => exact holds.unsubscribeChannels frame
  | unsubscribeAll c => exact holds.unsubscribeAll
  | publish chan msg => exact holds.publish chan msg

theorem subscribed_leaveChannels (c : Nat) (frame : Option (Bytes → Int → Bytes))
    (visits : List (Bytes × List Nat)) (h : Hub) (c' : Nat) :
    ((visits.foldl (leaveChannel c frame) h).clients c').subscribed ≤
      (h.clients c').subscribed := by
  induction visits generalizing h with
  | nil => exact le_rfl
  | cons visit visits ih =>
    refine (ih _).trans ?_
    obtain ⟨chan, l⟩ := visit
    have lower : ((pubsubUnsubscribe h c chan).1.clients c').subscribed ≤
        (h.clients c').subscribed := by
      rw [clients_unsubscribe]
      split_ifs <;> omega
    rw [leaveChannel]
    split_ifs
    · cases frame with
      | none => exact lower
      | some frame => exact (subscribed_append ..).trans_le lower
    · exact le_rfl

theorem subscribed_deliver (frame : Bytes) (l : List Nat) (h : Hub) (n : Int) (c : Nat) :
    ((l.foldl (deliver frame) (h, n)).1.clients c).subscribed = (h.clients c).subscribed := by
  induction l generalizing h n with
  | nil => rfl
  | cons sub l ih => exact (ih _ _).trans (subscribed_append h sub frame c)

/-- A call raises the counter of its subscriber by one at most, and no other. -/
theorem subscribed_call (holds : h.Holds subs) {call : PubsubCall} (room : h.Room call) (c : Nat) :
    ((h.call call).clients c).subscribed ≤
      (h.clients c).subscribed + if call.subscriber = some c then 1 else 0 := by
  have natural : 0 ≤ (h.clients c).subscribed := le_trans (by omega) (holds.counted c)
  cases call with
  | subscribe c' chan =>
    change (update h.clients c' _ c).subscribed ≤ _
    by_cases same : c = c'
    · subst same
      have bound := room c rfl
      rw [update_self]
      dsimp only
      rw [Int.bmod_eq_of_le_mul_two (by omega) (by omega)]
      simp [PubsubCall.subscriber]
    · rw [update_of_ne same]
      split_ifs <;> omega
  | unsubscribe c' chan =>
    change ((pubsubUnsubscribe h c' chan).1.clients c).subscribed ≤ _
    rw [clients_unsubscribe]
    simp only [PubsubCall.subscriber]
    split_ifs <;> omega
  | unsubscribeChannels c' frame =>
    change ((pubsubUnsubscribeChannels h c' frame).clients c).subscribed ≤ _ + 0
    rw [pubsubUnsubscribeChannels, add_zero]
    split_ifs
    · exact le_rfl
    · exact subscribed_leaveChannels c' frame _ h c
  | unsubscribeAll c' =>
    change ((pubsubUnsubscribeAll h c').clients c).subscribed ≤ _ + 0
    rw [pubsubUnsubscribeAll, add_zero]
    split_ifs
    · exact le_rfl
    · change (update h.clients c' _ c).subscribed ≤ _
      by_cases same : c = c'
      · subst same
        rw [update_self]
        exact natural
      · rw [update_of_ne same]
  | publish chan msg =>
    change ((pubsubPublish h chan msg).1.clients c).subscribed ≤ _ + 0
    rw [add_zero]
    rcases publish_cases h chan msg with ⟨_, _, clients, _⟩ | loop
    · rw [clients]
    · rw [loop, subscribed_deliver]

theorem subscribeCalls_concat (calls : List PubsubCall) (call : PubsubCall) (c : Nat) :
    subscribeCalls (calls ++ [call]) c =
      subscribeCalls calls c + if call.subscriber = some c then 1 else 0 := by
  simp [subscribeCalls, List.countP_append, List.countP_singleton]

/-- A counter that does not exceed the subscriptions made has room for one more. -/
theorem Hub.room_of_counts {calls : List PubsubCall} {call : PubsubCall}
    (counts : ∀ c, (h.clients c).subscribed ≤ subscribeCalls calls c)
    (each : ∀ c, subscribeCalls (calls ++ [call]) c < 2 ^ 31) : h.Room call := by
  intro c same
  have total := each c
  rw [subscribeCalls_concat, if_pos same] at total
  have count := counts c
  omega

theorem subscribeCalls_init {calls : List PubsubCall} {call : PubsubCall} {bound : Nat}
    (each : ∀ c, subscribeCalls (calls ++ [call]) c < bound) (c : Nat) :
    subscribeCalls calls c < bound :=
  lt_of_le_of_lt (by rw [subscribeCalls_concat]; exact Nat.le_add_right _ _) (each c)

theorem run_concat (calls : List PubsubCall) (call : PubsubCall) :
    h.run (calls ++ [call]) = (h.run calls).call call := List.foldl_concat ..

/-- **The lists hold the subscriptions after any calls in which no counter overflows.** -/
theorem holds_run (seed : Seed) {start : Nat → Client} (fresh : ∀ c, (start c).subscribed = 0)
    (calls : List PubsubCall) (each : ∀ c, subscribeCalls calls c < 2 ^ 31) :
    ((pubsubCreate seed start).run calls).Holds (subscriptions calls) ∧
      ∀ c, (((pubsubCreate seed start).run calls).clients c).subscribed ≤
        subscribeCalls calls c := by
  induction calls using List.reverseRecOn with
  | nil =>
    refine ⟨⟨fun _ => List.nodup_nil, fun c chan => ?_, fun c => ?_⟩, fun c => (fresh c).le⟩
    · simp [subscriptions, Hub.run, Hub.list, pubsubCreate]
    · exact (fresh c).ge
  | append_singleton calls call ih =>
    obtain ⟨holds, counts⟩ := ih (subscribeCalls_init each)
    have room := Hub.room_of_counts counts each
    rw [subscriptions_concat, run_concat]
    refine ⟨holds.call room, fun c => ?_⟩
    have raised := subscribed_call holds room c
    have count := counts c
    rw [subscribeCalls_concat]
    push_cast
    omega

/-- **A message goes once to each subscriber of its channel, to nobody else, and is counted**; and a
client that leaves every channel is in no list. No client may make `2 ^ 31` subscriptions, and no
`2 ^ 31` clients may subscribe: the counters are `int`s. -/
theorem publish_delivers (seed : Seed) (start : Nat → Client)
    (fresh : ∀ c, (start c).subscribed = 0) (calls : List PubsubCall)
    (each : ∀ c, subscribeCalls calls c < 2 ^ 31) (many : (subscribers calls).card < 2 ^ 31)
    (chan msg : Bytes) :
    (∀ c, ((pubsubPublish ((pubsubCreate seed start).run calls) chan msg).1.clients c).out =
        (((pubsubCreate seed start).run calls).clients c).out ++
          if (c, chan) ∈ subscriptions calls then messageFrame chan msg else []) ∧
      (pubsubPublish ((pubsubCreate seed start).run calls) chan msg).2 =
        (((subscriptions calls).filter (·.2 = chan)).card : Int) ∧
      ∀ c other l, (pubsubUnsubscribeAll ((pubsubCreate seed start).run calls) c).channels.get other
        = some l → c ∉ l := by
  obtain ⟨holds, _⟩ := holds_run seed fresh calls each
  refine ⟨out_publish holds chan msg, count_publish holds chan msg ?_, ?_⟩
  · refine lt_of_le_of_lt ?_ many
    refine Finset.card_le_card_of_injOn Prod.fst ?_ ?_
    · rintro ⟨c, chan'⟩ member
      exact mem_subscribers (Finset.mem_filter.mp member).1
    · rintro ⟨c, chan'⟩ member ⟨c', chan''⟩ member' same
      obtain ⟨_, rfl⟩ := Finset.mem_filter.mp member
      obtain ⟨_, rfl⟩ := Finset.mem_filter.mp member'
      exact Prod.ext same rfl
  · intro c other l found inside
    have left := (holds.unsubscribeAll (c := c)).member c other
    rw [Hub.list, found] at left
    simpa using left.mp inside

/-- Two clients subscribe, one of them twice, and the other leaves again. -/
def sampleCalls : List PubsubCall :=
  [.subscribe 1 (text "news"), .subscribe 1 (text "news"), .subscribe 2 (text "news"),
    .unsubscribe 2 (text "news")]

theorem publish_delivers_sample :
    (pubsubPublish ((pubsubCreate (Vector.replicate 16 0) fun _ => clientInit 0).run sampleCalls)
      (text "news") (text "hi")).2 = 1 :=
  (publish_delivers (Vector.replicate 16 0) (fun _ => clientInit 0) (fun _ => rfl) sampleCalls
    (fun _ => lt_of_le_of_lt List.countP_le_length (by decide)) (by decide) (text "news")
    (text "hi")).2.1.trans (by decide)

end Runs

/-! ### A counter that overflows -/

section Overflow

variable (seed : Seed) (start : Nat → Client) (c : Nat) (chan : Bytes)

/-- A client that subscribes to one channel again and again is once in its list, and counts. -/
theorem run_replicate (fresh : (start c).subscribed = 0) (n : Nat) :
    ((pubsubCreate seed start).run (List.replicate (n + 1) (.subscribe c chan))).list chan = [c] ∧
      (((pubsubCreate seed start).run (List.replicate (n + 1) (.subscribe c chan))).clients
        c).subscribed = ((n + 1 : Nat) : Int).bmod (2 ^ 32) := by
  induction n with
  | zero =>
    refine ⟨(list_subscribe (pubsubCreate seed start) c chan chan).trans ?_, ?_⟩
    · simp [Hub.list, pubsubCreate]
    · change (update start c _ c).subscribed = _
      rw [update_self]
      change ((start c).subscribed + 1).bmod (2 ^ 32) = _
      rw [fresh]
      rfl
  | succ n ih =>
    have step : (pubsubCreate seed start).run (List.replicate (n + 1 + 1) (.subscribe c chan)) =
        (pubsubSubscribe ((pubsubCreate seed start).run
          (List.replicate (n + 1) (.subscribe c chan))) c chan).1 := by
      rw [List.replicate_succ', run_concat]
      rfl
    rw [step]
    generalize (pubsubCreate seed start).run (List.replicate (n + 1) (.subscribe c chan)) = h at ih
    obtain ⟨once, counts⟩ := ih
    refine ⟨?_, ?_⟩
    · rw [list_subscribe, once]
      simp
    · change (update h.clients c _ c).subscribed = _
      rw [update_self]
      dsimp only
      rw [counts, Int.bmod_add_bmod]
      rfl

/-- A counter that comes back to zero leaves its client in the list for good. -/
theorem unsubscribeAll_replicate (fresh : (start c).subscribed = 0) {n : Nat} (some : n ≠ 0)
    (wraps : (n : Int).bmod (2 ^ 32) = 0) :
    ((pubsubCreate seed start).run
      (List.replicate n (.subscribe c chan) ++ [.unsubscribeAll c])).list chan = [c] := by
  obtain ⟨n, rfl⟩ := Nat.exists_eq_succ_of_ne_zero some
  obtain ⟨once, counts⟩ := run_replicate seed start c chan fresh n
  rw [run_concat]
  change (pubsubUnsubscribeAll _ c).list chan = _
  rw [pubsubUnsubscribeAll, if_pos (counts.trans wraps)]
  exact once

/-- A client subscribes to one channel `n` times and leaves every channel. -/
def leaveAfter (n : Nat) : List PubsubCall :=
  List.replicate n (.subscribe 0 (text "news")) ++ [.unsubscribeAll 0]

theorem publish_leaveAfter {n : Nat} (some : n ≠ 0) (wraps : (n : Int).bmod (2 ^ 32) = 0) :
    (0, text "news") ∉ subscriptions (leaveAfter n) ∧
      0 ∈ ((pubsubCreate seed fun _ => clientInit 0).run (leaveAfter n)).list (text "news") ∧
      ((pubsubPublish ((pubsubCreate seed fun _ => clientInit 0).run (leaveAfter n))
          (text "news") (text "hi")).1.clients 0).out =
        (((pubsubCreate seed fun _ => clientInit 0).run (leaveAfter n)).clients 0).out ++
          messageFrame (text "news") (text "hi") := by
  have stays : ((pubsubCreate seed fun _ => clientInit 0).run (leaveAfter n)).list (text "news") =
      [0] :=
    unsubscribeAll_replicate seed (fun _ => clientInit 0) 0 (text "news") rfl some wraps
  refine ⟨?_, by rw [stays]; exact List.mem_singleton_self 0, ?_⟩
  · rw [leaveAfter, subscriptions_concat]
    simp [subscribed]
  · rcases publish_cases ((pubsubCreate seed fun _ => clientInit 0).run (leaveAfter n))
      (text "news") (text "hi") with ⟨empty, _⟩ | loop
    · rw [stays] at empty
      cases empty
    · rw [loop, stays, out_deliver _ (List.nodup_singleton 0)]
      rfl

/-- **After `2 ^ 32` subscriptions a client that left every channel is still in the list** and gets
what is published. -/
theorem publish_overflow_differs :
    (0, text "news") ∉ subscriptions (leaveAfter (2 ^ 32)) ∧
      0 ∈ ((pubsubCreate (Vector.replicate 16 0) fun _ => clientInit 0).run
        (leaveAfter (2 ^ 32))).list (text "news") ∧
      ((pubsubPublish ((pubsubCreate (Vector.replicate 16 0) fun _ => clientInit 0).run
          (leaveAfter (2 ^ 32))) (text "news") (text "hi")).1.clients 0).out =
        (((pubsubCreate (Vector.replicate 16 0) fun _ => clientInit 0).run
          (leaveAfter (2 ^ 32))).clients 0).out ++ messageFrame (text "news") (text "hi") :=
  publish_leaveAfter _ (by decide) (by decide)

end Overflow

end Miniredis
