/-
**No client can tell an expired entry from a dropped one (`db.c`).**

What a client can see of a store at one time is a function, `live`. Under a clock that stands still
a command acts on that function alone:

* `commands_transparent` — two stores that look the same give the same reply and look the same after
  it; `DEL`, `KEYS`, `DBSIZE` and `INFO` left open.
* `expiration_transparent_iff` — a store and the same store without its expired entries: `KEYS`
  differs in its order at most, and `DEL` counts an expired entry that it is asked to delete.
-/

import Miniredis.Dispatch.Confined

namespace Miniredis

open HashTable (Table)

/-! ### Transparent commands -/

section Transparent

variable {t : Int} {db db' : Db}

/-- What is seen at one time settles what is seen later. -/
theorem agreeFrom_univ (same : live t db = live t db') : AgreeFrom t Set.univ db db' := by
  have later (db : Db) {u : Int} (le : t ≤ u) (key : Bytes) :
      live u db key = (live t db key).filter fun o => !keyExpired u o := by
    unfold live
    rw [Option.filter_filter]
    refine congrArg (Option.filter · (db.d.get key)) (funext fun o => ?_)
    cases gone : keyExpired t o with
    | true => simp [keyExpired_later le gone]
    | false => simp
  intro key _ u le
  rw [later db le, later db' le, same]

/-- A command on stores that look the same. -/
theorem Confined.transparent {heard : Prop} {K : Set Bytes} {act : Db → Db × Bytes}
    (confined : Confined heard t K act) (same : live t db = live t db') :
    live t (act db).1 = live t (act db').1 ∧ (heard → (act db).2 = (act db').2) := by
  have wide := confined.widen (Set.subset_univ K)
  have agree := agreeFrom_univ same
  exact ⟨funext fun key => wide.agree agree key (Set.mem_univ key) t le_rfl,
    fun hears => wide.reply hears agree⟩

/-- **A data command depends on what is seen only.** -/
theorem commands_transparent {cmd : Command} {e : CmdEntry} {h : Handler} {env : Env}
    (known : entryOf cmd = some e) (action : e.fn = .data h) (stopped : env.Stopped)
    (same : live (env.now 0) db = live (env.now 0) db') :
    live (env.now 0) (h env db (cmd.map cstr)).1 = live (env.now 0) (h env db' (cmd.map cstr)).1 ∧
      (e.name ∉ revealing → (h env db (cmd.map cstr)).2 = (h env db' (cmd.map cstr)).2) := by
  have confined := commands_confined e (entryOf_mem known)
  unfold CmdEntry.Confined at confined
  rw [action] at confined
  exact (confined env _ _ (entryOf_free known) fun i => (stopped i).ge).transparent same

end Transparent

/-! ### Dropping the expired entries -/

section Purged

/-- The second store is the first without its expired entries. -/
def Purged (t : Int) (db db' : Db) : Prop := ∀ key, db'.d.get key = live t db key

variable {t : Int} {db db' : Db}

theorem Purged.same (purged : Purged t db db') : live t db = live t db' := by
  funext key
  rw [show live t db' key = (live t db key).filter fun o => !keyExpired t o from
    congrArg _ (purged key), live, Option.filter_filter]
  simp only [Bool.and_self]

theorem Purged.delete (purged : Purged t db db') (key : Bytes) :
    Purged t { db with d := (db.d.delete key).2 } { db' with d := (db'.d.delete key).2 } := by
  intro other
  rw [live_delete, Table.get_delete]
  by_cases same : other = key
  · rw [if_pos same, same, Function.update_self]
  · rw [if_neg same, Function.update_of_ne same, purged other]

/-- The store with its expired entries deleted. -/
def purge (t : Int) (db : Db) : Db :=
  let expired := db.d.pairs.filter fun pair => keyExpired t pair.2
  { db with d := db.d.deleteAll (expired.map Prod.fst) }

theorem purge_purged (t : Int) (db : Db) : Purged t db (purge t db) := by
  intro key
  refine (Table.get_deleteAll _ _ db.d).trans ?_
  split
  · rename_i named
    obtain ⟨⟨_, o⟩, member, rfl⟩ := List.mem_map.mp named
    obtain ⟨stored, expired⟩ := List.mem_filter.mp member
    rw [live_expired ((Table.mem_pairs ..).mp stored) expired]
  · rename_i unnamed
    refine (live_unexpired fun o found => Bool.eq_false_of_not_eq_true fun expired => ?_).symm
    exact unnamed (List.mem_map.mpr ⟨(key, o),
      List.mem_filter.mpr ⟨(Table.mem_pairs ..).mpr found, expired⟩, rfl⟩)

end Purged

/-! ### `DEL` and `KEYS` -/

section Revealing

variable {t : Int} {env : Env} {db db' : Db} {argv : Argv}

theorem unexpired_delete {key other : Bytes} (fresh : Unexpired t db key) :
    Unexpired t { db with d := (db.d.delete key).2 } other ↔ Unexpired t db other := by
  by_cases same : other = key
  · subst same
    refine iff_of_true (fun o found => ?_) fresh
    rw [Table.get_delete, if_pos rfl] at found
    cases found
  · unfold Unexpired
    rw [Table.get_delete, if_neg same]

/-- **Every expired entry among its arguments adds to what `DEL` counts.** -/
theorem delLoop_count (keys : List Bytes) {n n' : Nat} (purged : Purged t db db') (le : n' ≤ n) :
    (delLoop keys db n).2 = (delLoop keys db' n').2 ↔
      n = n' ∧ ∀ key ∈ keys, Unexpired t db key := by
  induction keys generalizing db db' n n' with
  | nil => simp [delLoop]
  | cons key rest ih =>
    have next := purged.delete key
    unfold delLoop
    simp only [Table.delete_fst, purged key]
    by_cases fresh : Unexpired t db key
    · rw [live_unexpired fresh, ih next (by split <;> omega)]
      simp only [unexpired_delete fresh, List.forall_mem_cons, fresh, true_and]
      split <;> simp
    · obtain ⟨o, found, expired⟩ : ∃ o, db.d.get key = some o ∧ keyExpired t o = true := by
        simpa [Unexpired] using fresh
      -- from here on the first loop is ahead for good
      rw [live_expired found expired, found, ih next (by simp; omega)]
      simp only [Option.isSome_some, if_true, Option.isSome_none, Bool.false_eq_true, if_false]
      refine iff_of_false (fun both => by omega) fun both => fresh (both.2 key List.mem_cons_self)

theorem replyInteger_injective : Function.Injective replyInteger := by
  intro n m same
  unfold replyInteger at same
  rw [List.append_left_inj, List.append_right_inj] at same
  exact Decimal.renderInt_injective same

theorem cmdDel_reply (purged : Purged t db db') :
    (cmdDel env db argv).2 = (cmdDel env db' argv).2 ↔
      ∀ key ∈ argv.drop 1, Unexpired t db key := by
  have counts := delLoop_count (argv.drop 1) purged (le_refl 0)
  rw [and_iff_right rfl] at counts
  rw [← counts]
  unfold cmdDel
  split
  · rename_i short
    rw [List.drop_eq_nil_of_le (by omega)]
    simp [delLoop]
  · dsimp only
    rw [replyInteger_injective.eq_iff, Nat.cast_inj]

/-- The keys `KEYS` finds in a table. -/
def keysFound (t : Int) (pattern : Bytes) (d : Dict Robj) : List Bytes :=
  (d.pairs.filter fun pair => !keyExpired t pair.2 && utilGlobMatch pattern pair.1).map Prod.fst

theorem mem_keysFound {pattern key : Bytes} :
    key ∈ keysFound t pattern db.d ↔
      (live t db key).isSome ∧ utilGlobMatch pattern key = true := by
  unfold keysFound live
  simp only [List.mem_map, List.mem_filter, Bool.and_eq_true, Bool.not_eq_true', Prod.exists,
    exists_and_right, exists_eq_right, Table.mem_pairs, Option.isSome_filter,
    Option.any_eq_true]
  constructor
  · rintro ⟨o, found, fresh, hit⟩
    exact ⟨⟨o, found, fresh⟩, hit⟩
  · rintro ⟨⟨o, found, fresh⟩, hit⟩
    exact ⟨o, found, fresh, hit⟩

theorem keysFound_nodup (t : Int) (pattern : Bytes) (d : Dict Robj) :
    (keysFound t pattern d).Nodup :=
  List.Nodup.sublist (List.filter_sublist.map Prod.fst) (Table.pairs_nodup ..)

theorem keysFound_perm (pattern : Bytes) (same : live t db = live t db') :
    (keysFound t pattern db.d).Perm (keysFound t pattern db'.d) := by
  refine (List.perm_ext_iff_of_nodup (keysFound_nodup ..) (keysFound_nodup ..)).mpr fun key => ?_
  rw [mem_keysFound, mem_keysFound, same]

theorem cmdKeys_reply (stopped : env.Stopped) (two : argv.length = 2) :
    (cmdKeys env db argv).2 = replyMembers (keysFound (env.now 0) (arg argv 1) db.d) := by
  unfold cmdKeys
  rw [if_neg (not_not.mpr two), keysPass_stopped stopped, keysPass_stopped stopped]
  rfl

end Revealing

/-! ### Transparency -/

section Transparency

/-- The replies are equal, or both are replies of `KEYS` with the same keys. -/
def SameReply (cmd : Command) (out out' : Bytes) : Prop :=
  out = out' ∨ entryOf cmd = some (entry "keys" false cmdKeys) ∧
    ∃ keys keys' : List Bytes, keys.Perm keys' ∧ out = replyMembers keys ∧ out' = replyMembers keys'

/-- The commands that report on the whole table, and those that write it to a file. -/
def reporting : List Bytes :=
  [text "dbsize", text "info", text "save", text "bgsave", text "rewriteaof", text "bgrewriteaof"]

/-- `DEL` is asked to delete an expired entry. -/
def DeletesExpired (t : Int) (db : Db) (cmd : Command) : Prop :=
  entryOf cmd = some (entry "del" true cmdDel) ∧
    ∃ key ∈ (cmd.map cstr).drop 1, ∃ o, db.d.get key = some o ∧ keyExpired t o = true

/-- The action has to do with a data command or with nothing but its client. -/
def Action.isLocal : Action → Bool
  | .data _ | .quit => true
  | _ => false

theorem commands_local : ∀ e ∈ commands, e.fn.isLocal = true ∨ e.name ∈ reporting := by decide

variable {env : Env} {io : Io} {s s' : Server} {cmd : Command}

theorem dispatchCommand_idle_out (idle : ∀ e h, entryOf cmd = some e → e.fn ≠ .data h)
    (scope : ∀ e, entryOf cmd = some e → e.name ∉ reporting) :
    (dispatchCommand env io s cmd).2.out = (dispatchCommand env io s' cmd).2.out := by
  cases known : entryOf cmd with
  | none =>
    cases cmd with
    | nil => rfl
    | cons name args =>
      rw [dispatchCommand_unknown env io s known, dispatchCommand_unknown env io s' known]
  | some e =>
    rw [dispatchCommand_found known, dispatchCommand_found known]
    have plain := (commands_local e (entryOf_mem known)).resolve_right (scope e known)
    cases action : e.fn with
    | data h => exact absurd action (idle e h known)
    | quit => rfl
    | _ =>
      rw [action] at plain
      cases plain

/-- A `KEYS` under one time prints what is seen. -/
theorem cmdKeys_same {db db' : Db} (known : entryOf cmd = some (entry "keys" false cmdKeys))
    (stopped : env.Stopped) (same : live (env.now 0) db = live (env.now 0) db') :
    SameReply cmd (cmdKeys env db (cmd.map cstr)).2 (cmdKeys env db' (cmd.map cstr)).2 ∧
      live (env.now 0) (cmdKeys env db (cmd.map cstr)).1 =
        live (env.now 0) (cmdKeys env db' (cmd.map cstr)).1 := by
  constructor
  · by_cases two : (cmd.map cstr).length = 2
    · rw [cmdKeys_reply stopped two, cmdKeys_reply stopped two]
      exact .inr ⟨known, _, _, keysFound_perm _ same, rfl, rfl⟩
    · refine .inl ?_
      unfold cmdKeys
      rw [if_pos two, if_pos two]
  · unfold cmdKeys
    split <;> exact same

theorem data_same {e : CmdEntry} {h : Handler} {db db' : Db} (known : entryOf cmd = some e)
    (action : e.fn = .data h) (other : e ≠ entry "del" true cmdDel) (scope : e.name ∉ reporting)
    (stopped : env.Stopped) (same : live (env.now 0) db = live (env.now 0) db') :
    SameReply cmd (h env db (cmd.map cstr)).2 (h env db' (cmd.map cstr)).2 ∧
      live (env.now 0) (h env db (cmd.map cstr)).1 =
        live (env.now 0) (h env db' (cmd.map cstr)).1 := by
  have member := entryOf_mem known
  by_cases keys : e = entry "keys" false cmdKeys
  · subst keys
    cases action
    exact cmdKeys_same known stopped same
  · have hidden : e.name ∉ revealing := by
      intro shown
      simp only [revealing, List.mem_cons, List.not_mem_nil, or_false] at shown
      rcases shown with name | name | name | name
      · exact other (commands_unique member (by simp [commands]) name)
      · exact keys (commands_unique member (by simp [commands]) name)
      · exact scope (by rw [name]; decide)
      · exact scope (by rw [name]; decide)
    obtain ⟨after, reply⟩ := commands_transparent known action stopped same
    exact ⟨.inl (reply hidden), after⟩

/-- A `DEL` gives the same reply exactly if it names no expired entry. -/
theorem cmdDel_same {t : Int} {db db' : Db} (known : entryOf cmd = some (entry "del" true cmdDel))
    (purged : Purged t db db') :
    SameReply cmd (cmdDel env db (cmd.map cstr)).2 (cmdDel env db' (cmd.map cstr)).2 ↔
      ¬ DeletesExpired t db cmd := by
  have other : ¬ entryOf cmd = some (entry "keys" false cmdKeys) := by
    rw [known]
    exact fun same => absurd (congrArg CmdEntry.name (Option.some.inj same)) (by decide)
  unfold SameReply DeletesExpired
  rw [or_iff_left fun both => other both.1, and_iff_right known, cmdDel_reply purged]
  simp only [Unexpired, not_exists, not_and, Bool.not_eq_true]

end Transparency

/-- **Dropping the expired entries of a store is visible to a `DEL` that names one of them, and to
no other command.** -/
theorem expiration_transparent_iff (env : Env) (io : Io) (s : Server) (cmd : Command) {db' : Db}
    (stopped : env.Stopped) (purged : Purged (env.now 0) s.db db')
    (scope : ∀ e, entryOf cmd = some e → e.name ∉ reporting) :
    (SameReply cmd (dispatchCommand env io s cmd).2.out
          (dispatchCommand env io { s with db := db' } cmd).2.out ∧
        live (env.now 0) (dispatchCommand env io s cmd).1.db =
          live (env.now 0) (dispatchCommand env io { s with db := db' } cmd).1.db) ↔
      ¬ DeletesExpired (env.now 0) s.db cmd := by
  have same := purged.same
  rcases data_or_idle cmd with ⟨e, h, known, action⟩ | idle
  · obtain ⟨store, out⟩ := @dispatchCommand_data env io s cmd e h known action
    obtain ⟨store', out'⟩ := @dispatchCommand_data env io { s with db := db' } cmd e h known action
    rw [store, out, store', out']
    by_cases del : e = entry "del" true cmdDel
    · subst del
      cases action
      rw [and_iff_left (commands_transparent known rfl stopped same).1]
      exact cmdDel_same known purged
    · have fine : ¬ DeletesExpired (env.now 0) s.db cmd := fun ⟨found, _⟩ =>
        del (Option.some.inj (known.symm.trans found))
      exact iff_of_true (data_same known action del (scope e known) stopped same) fine
  · have fine : ¬ DeletesExpired (env.now 0) s.db cmd := fun ⟨found, _⟩ => idle _ _ found rfl
    refine iff_of_true ⟨.inl (dispatchCommand_idle_out idle scope), ?_⟩ fine
    rw [dispatchCommand_idle idle, dispatchCommand_idle idle]
    exact same

/-- A server with an entry that expires at time `1`. -/
def sampleLapsed : Server := step (sampleStart false) (requestAt 0 ["SET", "k", "v", "PX", "1"])

theorem exists_transparent :
    SameReply (["EXISTS", "k"].map text)
        (dispatchCommand (sampleEnvAt 2000) .smooth sampleLapsed
          (["EXISTS", "k"].map text)).2.out
        (dispatchCommand (sampleEnvAt 2000) .smooth
          { sampleLapsed with db := purge 2000 sampleLapsed.db } (["EXISTS", "k"].map text)).2.out ∧
      live 2000 (dispatchCommand (sampleEnvAt 2000) .smooth sampleLapsed
          (["EXISTS", "k"].map text)).1.db =
        live 2000 (dispatchCommand (sampleEnvAt 2000) .smooth
          { sampleLapsed with db := purge 2000 sampleLapsed.db }
            (["EXISTS", "k"].map text)).1.db := by
  have known : entryOf (["EXISTS", "k"].map text) = some (entry "exists" false cmdExists) :=
    entryOf_eq (by simp [commands]) (by decide) _
  refine (expiration_transparent_iff (sampleEnvAt 2000) .smooth sampleLapsed _ (fun _ => rfl)
    (purge_purged 2000 sampleLapsed.db) ?_).mpr ?_
  · intro e found
    rw [known] at found
    cases found
    decide
  · rintro ⟨found, _⟩
    rw [known] at found
    exact absurd (congrArg CmdEntry.name (Option.some.inj found)) (by decide)

/-- `DEL` counts the expired entry, which no other command sees. -/
theorem del_counts_expired :
    (dispatchCommand (sampleEnvAt 2000) .smooth sampleLapsed (["DEL", "k"].map text)).2.out =
        replyInteger 1 ∧
      (dispatchCommand (sampleEnvAt 2000) .smooth
        { sampleLapsed with db := purge 2000 sampleLapsed.db } (["DEL", "k"].map text)).2.out =
          replyInteger 0 ∧
      ¬ SameReply (["DEL", "k"].map text) (replyInteger 1) (replyInteger 0) := by
  refine ⟨by decide, by decide, ?_⟩
  have known : entryOf (["DEL", "k"].map text) = some (entry "del" true cmdDel) :=
    entryOf_eq (by simp [commands]) (by decide) _
  rintro (same | ⟨found, _⟩)
  · exact absurd (replyInteger_injective same) (by decide)
  · rw [known] at found
    exact absurd (congrArg CmdEntry.name (Option.some.inj found)) (by decide)

end Miniredis
