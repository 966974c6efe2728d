/-
**`SPOP` removes what it returns (`db.c`).**

`SPOP` draws a member from the table, replies with it and deletes it, as often as it is asked to.
Whatever `rand()` yields, the members it returns are distinct and the set is left without exactly
those.

* `Draws` — members drawn from a set, and the rest.
* `spopLoop_draws` — the loop draws as many as it is asked for.
* `dispatchCommand_filledSets` — no command leaves a set without members, so the branch of `SPOP`
  for an empty set is not reached.
* `spop_removes_what_it_returns` — the reply, the set and the key after `SPOP`.
-/

import Miniredis.Dispatch.KeptDeadlines

namespace Miniredis

/-! ### Draws from a set -/

section Draws

/-- `drawn` are distinct members of the set, and `rest` is the set without them. -/
structure Draws (s : Dict Unit) (drawn : List Bytes) (rest : Dict Unit) : Prop where
  distinct : drawn.Nodup
  members : ∀ member ∈ drawn, (s.get member).isSome
  rest : ∀ member, rest.get member = if member ∈ drawn then none else s.get member

variable {s rest : Dict Unit} {drawn : List Bytes} {member : Bytes}

theorem Draws.nil (s : Dict Unit) : Draws s [] s :=
  ⟨.nil, fun _ inside => absurd inside List.not_mem_nil, fun _ => rfl⟩

/-- One more draw in front. -/
theorem Draws.cons (present : (s.get member).isSome)
    (draws : Draws (s.delete member).2 drawn rest) :
    Draws s (member :: drawn) rest := by
  have gone : member ∉ drawn := by
    intro again
    have left := draws.members member again
    rw [HashTable.Table.get_delete, if_pos rfl] at left
    cases left
  refine ⟨draws.distinct.cons gone, ?_, ?_⟩
  · intro other inside
    rcases List.mem_cons.mp inside with rfl | later
    · exact present
    · have left := draws.members other later
      rwa [HashTable.Table.get_delete, if_neg (by rintro rfl; exact gone later)] at left
  · intro other
    rw [draws.rest, HashTable.Table.get_delete]
    by_cases same : other = member
    · subst same
      rw [if_neg gone, if_pos rfl, if_pos List.mem_cons_self]
    · rw [if_neg same]
      exact if_congr (by rw [List.mem_cons, or_iff_right same]) rfl rfl

/-- The draws taken off leave that many fewer. -/
theorem spopLoop_draws (n : Nat) (s : Dict Unit) (rand : Nat → Nat) (enough : n ≤ dictSize s) :
    Draws s (spopLoop n s rand).1 (spopLoop n s rand).2 := by
  induction n generalizing s rand with
  | zero => exact .nil s
  | succ n ih =>
    obtain ⟨⟨member, _⟩, drawn, present⟩ := dictRandomEntry_some s rand (by
      unfold dictSize at enough
      omega)
    have count : dictSize (s.delete member).2 + 1 = dictSize s := s.used_delete member present
    rw [spopLoop]
    cases draw : dictRandomEntry s rand with
    | mk entry later =>
      rw [draw] at drawn
      cases drawn
      exact (ih (s.delete member).2 later (by omega)).cons present

end Draws

/-! ### The body -/

section Body

variable {s : Dict Unit} {expireAt count : Int} {rand : Nat → Nat}

/-- The reply to a pop: one bulk string for a count of one, an array otherwise. -/
def popReply (count : Int) (popped : List Bytes) : Bytes :=
  if count = 1 then replyField popped.head? else replyMembers popped

/-- What `SPOP` does to a set, an empty set popped once apart. -/
theorem spopBody_draws (s : Dict Unit) (expireAt : Int) (rand : Nat → Nat) (low : 0 ≤ count) :
    ∃ popped rest, Draws s popped rest ∧ (popped.length : Int) = min count (dictSize s) ∧
      (spopBody count rand (some ⟨.set s, expireAt⟩)).2 = popReply count popped ∧
      (dictSize s ≠ 0 ∨ count ≠ 1 →
        (spopBody count rand (some ⟨.set s, expireAt⟩)).1 =
          maybeDeleteKey ⟨.set rest, expireAt⟩) := by
  show ∃ popped rest, _ ∧ _ ∧ (if count = 1 then _ else _ : Update × Bytes).2 = _ ∧
    (_ → (if count = 1 then _ else _ : Update × Bytes).1 = _)
  by_cases one : count = 1
  · simp only [popReply, if_pos one]
    by_cases empty : dictSize s = 0
    · have nothing : dictRandomEntry s rand = (none, rand) := if_pos empty
      refine ⟨[], s, .nil s, by simp [empty, one], by rw [nothing]; rfl, fun filled => ?_⟩
      exact absurd one (filled.resolve_left fun ne => ne empty)
    · obtain ⟨⟨member, _⟩, drawn, present⟩ := dictRandomEntry_some s rand empty
      refine ⟨[member], (s.delete member).2, (Draws.nil _).cons present, ?_, ?_, fun _ => ?_⟩
      · rw [List.length_singleton]
        omega
      · rw [drawn]
        rfl
      · rw [drawn]
  · simp only [popReply, if_neg one]
    have enough : (if count < dictSize s then count.toNat else dictSize s) ≤ dictSize s := by
      split_ifs <;> omega
    have least : ((if count < dictSize s then count.toNat else dictSize s : Nat) : Int) =
        min count (dictSize s) := by
      split_ifs <;> omega
    obtain ⟨length, _⟩ := spopLoop_counts _ s rand enough
    refine ⟨_, _, spopLoop_draws _ s rand enough, ?_, ?_, fun _ => rfl⟩
    · rw [length, least]
    · rw [replyMembers, length]

/-- The set is kept, or its key removed with its last member. -/
theorem maybeDeleteKey_leaves (o : Robj) (rest : Dict Unit) (expireAt : Int) :
    (maybeDeleteKey ⟨.set rest, expireAt⟩).leaves (some o) =
      if dictSize rest = 0 then none else some ⟨.set rest, expireAt⟩ := by
  by_cases empty : dictSize rest = 0
  · rw [maybeDeleteKey_empty expireAt empty, if_pos empty]
    rfl
  · have filled : (Value.set rest).isEmpty = false := decide_eq_false empty
    simp only [maybeDeleteKey, filled, if_neg empty]
    rfl

theorem popCount_nonneg {argv : Argv} {count : Int} (accepted : popCount argv = some count) :
    0 ≤ count := by
  unfold popCount at accepted
  split_ifs at accepted with three
  · cases parsed : stringToLl (arg argv 2) with
    | none =>
      rw [parsed] at accepted
      cases accepted
    | some v =>
      rw [parsed] at accepted
      dsimp only at accepted
      split_ifs at accepted with negative
      obtain rfl := Option.some.inj accepted
      omega
  · obtain rfl := Option.some.inj accepted
    decide

end Body

/-! ### Sets have members -/

section FilledSets

/-- No key holds a set without members. -/
def FilledSets (db : Db) : Prop := Every (fun o => ¬ o.val.Hollow) db

/-- A set may not lose its last member where it is. -/
def KeepsSolid (found : Option Robj) (o : Robj) : Prop := Solid found → ¬ o.val.Hollow

variable {env : Env} {db : Db} {argv : Argv}

theorem FilledSets.seen (filled : FilledSets db) (t : Int) (key : Bytes) :
    Solid (live t db key) := fun o found => filled key o (Option.filter_eq_some_iff.mp found).1

theorem FilledSets.decided {rest : Db × Bytes} (filled : FilledSets db)
    (decides : Decides KeepsSolid env argv db rest) : FilledSets rest.1 := by
  intro key o after
  rcases decides.get after with kept | ⟨i, keeps⟩
  · exact filled key o kept
  · exact keeps (filled.seen (env.now i) key)

theorem cmdSet_decides : Handler.Decides cmdSet KeepsSolid := by
  intro env db argv
  refine .check ?_
  split
  · exact .reply _
  refine .check (.onKey _ fun found => ?_)
  unfold setBody
  split_ifs
  · trivial
  · trivial
  · exact fun _ => Kind.stringKind_solid _

theorem cmdGetset_decides : Handler.Decides cmdGetset KeepsSolid := by
  intro env db argv
  refine .check (.onKey _ (Kind.body_puts ?_ fun o s => ?_))
  · exact fun _ => Kind.stringKind_solid _
  · exact fun _ => Kind.stringKind_solid _

/-- A new deadline for the object that was found. -/
theorem keepsSolid_deadline (o : Robj) (expireAt : Int) :
    KeepsSolid (some o) { o with expireAt := expireAt } := fun solid => solid o rfl

theorem cmdExpireGeneric_decides (isMs : Bool) :
    Handler.Decides (cmdExpireGeneric isMs) KeepsSolid := by
  intro env db argv
  refine .check ?_
  split
  · exact .reply _
  refine .check (.onKey _ fun found => ?_)
  cases found with
  | none => trivial
  | some o =>
    unfold expireBody
    dsimp only
    split_ifs
    · trivial
    · exact keepsSolid_deadline o _
    · exact keepsSolid_deadline o _

theorem cmdExpireatGeneric_decides (isMs : Bool) :
    Handler.Decides (cmdExpireatGeneric isMs) KeepsSolid := by
  intro env db argv
  refine .check ?_
  split
  · exact .reply _
  refine .check (.check (.onKey _ fun found => ?_))
  cases found with
  | none => trivial
  | some o => exact keepsSolid_deadline o _

theorem cmdRename_filledSets (filled : FilledSets db) :
    FilledSets (cmdRename env db argv).1 := by
  have looked := (lookupKey_collects env.now 0 db (arg argv 1)).every filled
  have solid := filled.seen (env.now 0) (arg argv 1)
  rw [← lookupKey_live] at solid
  unfold cmdRename
  split
  · exact filled
  split
  · exact filled
  split
  · rename_i found
    rwa [found] at looked
  · rename_i o after found
    rw [found] at looked solid
    exact looked.delete.set (solid o rfl)

theorem cmdSetex_filledSets (filled : FilledSets db) : FilledSets (cmdSetex env db argv).1 := by
  unfold cmdSetex
  split
  · exact filled
  split
  · exact filled
  split
  · exact filled
  · exact filled.set (Kind.stringKind_solid (arg argv 3))

theorem cmdFlushall_filledSets (filled : FilledSets db) :
    FilledSets (cmdFlushall env db argv).1 := by
  unfold cmdFlushall
  split
  · exact filled
  · exact every_empty _ _

/-- The commands that may change a deadline keep the members of sets. -/
theorem resetting_filledSets {e : CmdEntry} {h : Handler} (member : e ∈ commands)
    (action : e.fn = .data h) (resets : e.name ∈ resetting) (filled : FilledSets db) :
    FilledSets (h env db argv).1 := by
  have is : ∀ {name : String} {handler : Handler}, entry name true handler ∈ commands →
      e.name = text name → handler = h := by
    intro name handler there same
    obtain rfl := commands_unique member there same
    exact Action.data.inj action
  simp only [resetting, List.mem_cons, List.not_mem_nil, or_false] at resets
  rcases resets with name | name | name | name | name | name | name | name | name | name | name
  · obtain rfl := @is _ cmdSet (by simp [commands]) name
    exact filled.decided (cmdSet_decides env db argv)
  · obtain rfl := @is _ cmdMset (by simp [commands]) name
    unfold cmdMset
    split
    · exact filled
    · exact msetLoop_every Kind.stringKind_solid _ filled
  · obtain rfl := @is _ cmdSetex (by simp [commands]) name
    exact cmdSetex_filledSets filled
  · obtain rfl := @is _ cmdGetset (by simp [commands]) name
    exact filled.decided (cmdGetset_decides env db argv)
  · obtain rfl := @is _ cmdRename (by simp [commands]) name
    exact cmdRename_filledSets filled
  · obtain rfl := @is _ cmdDel (by simp [commands]) name
    unfold cmdDel
    split
    · exact filled
    · exact delLoop_every _ 0 filled
  · obtain rfl := @is _ cmdFlushall (by simp [commands]) name
    exact cmdFlushall_filledSets filled
  · obtain rfl := @is _ cmdExpire (by simp [commands]) name
    exact filled.decided (cmdExpireGeneric_decides false env db argv)
  · obtain rfl := @is _ cmdPexpire (by simp [commands]) name
    exact filled.decided (cmdExpireGeneric_decides true env db argv)
  · obtain rfl := @is _ cmdExpireat (by simp [commands]) name
    exact filled.decided (cmdExpireatGeneric_decides false env db argv)
  · obtain rfl := @is _ cmdPexpireat (by simp [commands]) name
    exact filled.decided (cmdExpireatGeneric_decides true env db argv)

/-- **No command leaves a set without members.** -/
theorem dispatchCommand_filledSets {io : Io} {s : Server} {cmd : Command} (stopped : env.Stopped)
    (filled : FilledSets s.db) : FilledSets (dispatchCommand env io s cmd).1.db := by
  rcases data_or_idle cmd with ⟨e, h, known, action⟩ | idle
  · by_cases resets : e.name ∈ resetting
    · rw [(dispatchCommand_data known action).1]
      exact resetting_filledSets (entryOf_mem known) action resets filled
    · intro key o after
      have other : ∀ e', entryOf cmd = some e' → e'.name ∉ resetting := by
        intro e' known'
        obtain rfl := Option.some.inj (known.symm.trans known')
        exact resets
      rcases dispatchCommand_amends stopped other after with kept | amended
      · exact filled key o kept
      · exact amended.solid (filled.seen (env.now 0) key)
  · rw [dispatchCommand_idle idle]
    exact filled

end FilledSets

/-! ### `SPOP` -/

/-- **`SPOP` removes what it returns.** Sets that commands built have members, so nothing is left
out. -/
theorem spop_removes_what_it_returns :
    (∀ seed cursor, FilledSets ⟨dictCreate seed, cursor⟩) ∧
    (∀ env io s cmd, env.Stopped → FilledSets s.db →
      FilledSets (dispatchCommand env io s cmd).1.db) ∧
    ∀ env db argv count s expireAt, 2 ≤ argv.length → argv.length ≤ 3 →
      popCount argv = some count →
      live (env.now 0) db (arg argv 1) = some ⟨.set s, expireAt⟩ →
      ∃ popped rest, Draws s popped rest ∧ (popped.length : Int) = min count (dictSize s) ∧
        (cmdSpop env db argv).2 = popReply count popped ∧
        (FilledSets db → (cmdSpop env db argv).1.d.get (arg argv 1) =
          if dictSize rest = 0 then none else some ⟨.set rest, expireAt⟩) ∧
        ∀ key, key ≠ arg argv 1 → (cmdSpop env db argv).1.d.get key = db.d.get key := by
  refine ⟨every_empty, fun _ _ _ _ => dispatchCommand_filledSets, ?_⟩
  intro env db argv count s expireAt long short accepted found
  obtain ⟨popped, rest, draws, length, reply, update⟩ :=
    spopBody_draws s expireAt env.rand (popCount_nonneg accepted)
  have run : cmdSpop env db argv =
      onKey (env.now 0) db (arg argv 1) (spopBody count env.rand) := by
    rw [cmdSpop, if_neg (by omega), accepted]
  refine ⟨popped, rest, draws, length, ?_, fun filled => ?_, ?_⟩
  · rw [run, (onKey_live ..).2, found, reply]
  · have members : dictSize s ≠ 0 := fun empty =>
      filled.seen (env.now 0) (arg argv 1) _ found ⟨s, rfl, empty⟩
    rw [run, onKey_get_self, found, update (.inl members), maybeDeleteKey_leaves]
  · intro key other
    rw [run]
    exact onKey_get_other other

/-- A set of two members, popped three times at once, is gone. -/
theorem spop_takes_both :
    let s := (((dictCreate sampleSeed : Dict Unit).set (text "a") ()).2.set (text "b") ()).2
    let argv := ["spop", "k", "3"].map text
    ∃ popped rest, Draws s popped rest ∧ (popped.length : Int) = min 3 (dictSize s) ∧
      (cmdSpop sampleEnv (singleStore "k" (.set s)) argv).2 = popReply 3 popped := by
  intro s argv
  obtain ⟨popped, rest, draws, length, reply, _⟩ := spop_removes_what_it_returns.2.2 sampleEnv
    (singleStore "k" (.set s)) argv 3 s (-1) (by decide) (by decide) (by decide)
    (live_singleStore _ _ _)
  exact ⟨popped, rest, draws, length, reply⟩

end Miniredis
