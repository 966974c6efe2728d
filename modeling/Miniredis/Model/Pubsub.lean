/-
**Channels and their subscribers (`pubsub.c`).**

A registry maps each channel to the list of the clients subscribed to it. A client also counts its
subscriptions, in an `int` that the registry keeps beside the lists: a second subscription to the
same channel is counted and changes no list. A channel whose list is empty stays until something is
published on it. An `int` that overflows wraps around.

Clients are known by number, as in `Net`. A pass of the iterator visits each channel once, and what
is done at a channel changes no other channel's list, so the list a pass finds there is the one from
before the pass.
-/

import Miniredis.Model.Client

namespace Miniredis

/-- A registry, and the clients its lists point to. -/
structure Hub where
  channels : Dict (List Nat)
  clients : Nat → Client

/-- `pubsub_create`. -/
def pubsubCreate (seed : Seed) (clients : Nat → Client) : Hub := ⟨dictCreate seed, clients⟩

/-- An assignment to `c->subscribed`. -/
def Hub.count (h : Hub) (c : Nat) (subscribed : Int) : Hub :=
  { h with clients := Function.update h.clients c { h.clients c with subscribed := subscribed } }

/-- `dynbuf_append` to a client's output. -/
def Hub.append (h : Hub) (c : Nat) (bytes : Bytes) : Hub :=
  { h with
    clients := Function.update h.clients c { h.clients c with out := (h.clients c).out ++ bytes } }

def channelSubscribers (h : Hub) (chan : Bytes) : Option (List Nat) := h.channels.get chan

def clientInList (l : List Nat) (c : Nat) : Bool := l.contains c

def pubsubSubscribe (h : Hub) (c : Nat) (chan : Bytes) : Hub × Int :=
  let (channels, l) :=
    match channelSubscribers h chan with
    | some l => (h.channels, l)
    | none => ((h.channels.set chan []).2, [])
  let channels := if clientInList l c then channels else channels.write chan (l ++ [c])
  let subscribed := ((h.clients c).subscribed + 1).bmod (2 ^ 32)
  ({ h with channels := channels }.count c subscribed, subscribed)

def pubsubUnsubscribe (h : Hub) (c : Nat) (chan : Bytes) : Hub × Int :=
  let h :=
    match channelSubscribers h chan with
    | none => h
    | some l =>
      if clientInList l c then
        let h := { h with channels := h.channels.write chan (l.erase c) }
        if (h.clients c).subscribed > 0 then h.count c ((h.clients c).subscribed - 1) else h
      else h
  (h, (h.clients c).subscribed)

def pubsubUnsubscribeAll (h : Hub) (c : Nat) : Hub :=
  if (h.clients c).subscribed = 0 then h
  else
    let channels := HashTable.Table.writeAll (fun l => l.filter (· ≠ c)) h.channels.pairs h.channels
    { h with channels := channels }.count c 0

/-- What `pubsub_unsubscribe_channels` does at one channel; `frame`, if it is given, says what the
callback appends to the client's output for a channel and a count. -/
def leaveChannel (c : Nat) (frame : Option (Bytes → Int → Bytes)) (h : Hub) :
    Bytes × List Nat → Hub
  | (chan, l) =>
    if clientInList l c then
      let (h, count) := pubsubUnsubscribe h c chan
      match frame with
      | some frame => h.append c (frame chan count)
      | none => h
    else h

def pubsubUnsubscribeChannels (h : Hub) (c : Nat) (frame : Option (Bytes → Int → Bytes)) : Hub :=
  if (h.clients c).subscribed = 0 then h
  else h.channels.pairs.foldl (leaveChannel c frame) h

/-- The push frame of a message. -/
def messageFrame (chan msg : Bytes) : Bytes :=
  text "*3\r\n$7\r\nmessage\r\n$" ++ Decimal.render chan.length ++ text "\r\n" ++ chan ++
    text "\r\n$" ++ Decimal.render msg.length ++ text "\r\n" ++ msg ++ text "\r\n"

def pubsubPublish (h : Hub) (chan msg : Bytes) : Hub × Int :=
  match channelSubscribers h chan with
  | none => (h, 0)
  | some [] => ({ h with channels := (h.channels.delete chan).2 }, 0)
  | some l =>
    l.foldl (fun (h, receivers) sub =>
      (h.append sub (messageFrame chan msg), (receivers + 1).bmod (2 ^ 32))) (h, 0)

/-! ### Calls one after another -/

inductive PubsubCall where
  | subscribe (c : Nat) (chan : Bytes)
  | unsubscribe (c : Nat) (chan : Bytes)
  | unsubscribeChannels (c : Nat) (frame : Option (Bytes → Int → Bytes))
  | unsubscribeAll (c : Nat)
  | publish (chan msg : Bytes)

def Hub.call (h : Hub) : PubsubCall → Hub
  | .subscribe c chan => (pubsubSubscribe h c chan).1
  | .unsubscribe c chan => (pubsubUnsubscribe h c chan).1
  | .unsubscribeChannels c frame => pubsubUnsubscribeChannels h c frame
  | .unsubscribeAll c => pubsubUnsubscribeAll h c
  | .publish chan msg => (pubsubPublish h chan msg).1

def Hub.run (h : Hub) (calls : List PubsubCall) : Hub := calls.foldl Hub.call h

end Miniredis
