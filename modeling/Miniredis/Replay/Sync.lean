/-
**Two executions of one log, key by key.**

A live store and a store that is rebuilt from the log execute the same write commands. On a set `K`
of keys they are in sync. A command whose first key is in sync keeps them so; one that overwrites
its keys brings them into sync; any other command puts its own keys out of sync and no more
(`synced`, `SimOn.synced`).
-/

import Miniredis.Replay.Reach

namespace Miniredis

open HashTable (Table)

/-! ### Logged commands -/

/-- The command is an `SPOP`. -/
def isSpop (cmd : Command) : Bool :=
  match entryOf cmd with
  | some e => e.name = text "spop"
  | none => false

/-- The keys a command can change. -/
def reached (cmd : Command) : Set Bytes :=
  match entryOf cmd with
  | some e => keysOf e.name (cmd.map cstr)
  | none => ∅

/-- The deadline that a command writes, `-1` if it writes none. -/
def deadline (now : Nat → Int) (cmd : Command) : Int :=
  match entryOf cmd with
  | some e => ((deadlines.lookup e.name).map fun d => d now (cmd.map cstr)).getD (-1)
  | none => -1

section Logged

variable {env : Env} {db : Db} {cmd : Command} {name : Bytes} {h : Handler}

theorem entryOf_cstr : entryOf (cmd.map cstr) = entryOf cmd := by
  unfold entryOf
  rw [List.map_map, show cstr ∘ cstr = cstr from funext cstr_cstr]

/-- The frame of a command has the effect of the command. -/
theorem execute_cstr : execute env db (cmd.map cstr) = execute env db cmd := by
  unfold execute
  rw [entryOf_cstr, List.map_map, show cstr ∘ cstr = cstr from funext cstr_cstr]

/-- A command that is not logged leaves the unexpired objects alone. -/
theorem execute_unlogged {K : Set Bytes} (silent : logged cmd = [])
    (unexpired : UnexpiredOn K env db) : Untouched K db (execute env db cmd) := by
  unfold logged at silent
  unfold execute
  cases found : entryOf cmd with
  | none => exact .refl K db
  | some e =>
    obtain ⟨name, isWrite, fn⟩ := e
    rw [found] at silent
    cases isWrite with
    | true => cases silent
    | false =>
      have sound := commands_sound _ (entryOf_mem found)
      cases fn with
      | data h => exact sound unexpired
      | _ => exact .refl K db

/-- A logged command runs a data handler; unless it is `SPOP`, the table vouches for it. -/
theorem logged_inv (logs : logged cmd ≠ []) :
    ∃ name h, entryOf cmd = some ⟨name, true, .data h⟩ ∧
      (name = text "spop" ∨ h.Sim ∨ ∃ d, (name, d) ∈ deadlines ∧ h.TimedSim d) ∧
      ∀ env db, execute env db cmd = (h env db (cmd.map cstr)).1 := by
  unfold logged at logs
  unfold execute
  cases found : entryOf cmd with
  | none =>
    rw [found] at logs
    exact absurd rfl logs
  | some e =>
    obtain ⟨name, isWrite, fn⟩ := e
    rw [found] at logs
    cases isWrite with
    | false => exact absurd rfl logs
    | true =>
      have sound := commands_sound _ (entryOf_mem found)
      cases fn with
      | data h => exact ⟨name, h, rfl, sound, fun _ _ => rfl⟩
      | _ => exact sound.elim

theorem asksRewrite_logged (logs : logged cmd ≠ []) : asksRewrite cmd = false := by
  obtain ⟨_, _, found, _⟩ := logged_inv logs
  simp [asksRewrite, found]

theorem isSpop_name (found : entryOf cmd = some ⟨name, true, .data h⟩)
    (other : isSpop cmd = false) : name ≠ text "spop" := by
  unfold isSpop at other
  rw [found] at other
  exact of_decide_eq_false other

/-- A logged command changes no key it does not name. -/
theorem execute_get_other {key : Bytes} (logs : logged cmd ≠ []) (other : key ∉ reached cmd) :
    (execute env db cmd).d.get key = db.d.get key := by
  obtain ⟨name, h, found, _, effect⟩ := logged_inv logs
  have reach := commands_reach _ (entryOf_mem found)
  rw [effect]
  unfold reached at other
  rw [found] at other
  exact reach env db _ key (entryOf_free found) other

theorem deadline_eq {d : Deadline} (found : entryOf cmd = some ⟨name, true, .data h⟩)
    (timed : (name, d) ∈ deadlines) (now : Nat → Int) :
    deadline now cmd = d now (cmd.map cstr) := by
  have looked : deadlines.lookup name = some d := by
    simp only [deadlines, List.mem_cons, Prod.mk.injEq, List.not_mem_nil, or_false] at timed
    rcases timed with
      ⟨rfl, rfl⟩ | ⟨rfl, rfl⟩ | ⟨rfl, rfl⟩ | ⟨rfl, rfl⟩ | ⟨rfl, rfl⟩ | ⟨rfl, rfl⟩ <;>
      rfl
  unfold deadline
  rw [found]
  dsimp only
  rw [looked]
  rfl

/-- A logged command other than `SPOP` keeps similar stores similar on a set that has its first
key, if its deadlines are related. -/
theorem execute_logged {E : Int → Int → Prop} {K : Set Bytes} (env env' : Env) {db' : Db}
    (logs : logged cmd ≠ []) (other : isSpop cmd = false) (named : arg (cmd.map cstr) 1 ∈ K)
    (times : E (deadline env.now cmd) (deadline env'.now cmd))
    (alike : Alike E K env env' db db') :
    SimOn E K (execute env db cmd) (execute env' db' cmd) := by
  obtain ⟨name, h, found, sound, effect⟩ := logged_inv logs
  rw [effect, effect]
  rcases sound with spop | sim | ⟨d, timed, sim⟩
  · exact absurd spop (isSpop_name found other)
  · exact sim named alike
  · rw [deadline_eq found timed, deadline_eq found timed] at times
    exact sim times alike

end Logged

/-! ### Commands that overwrite their keys -/

/-- The options of a `SET` are accepted and have no condition among them. -/
def setsAlways (argv : Argv) : Bool :=
  match readSetOptions (fun _ => 0) argv with
  | .ok options => !options.nx && !options.xx
  | .error _ => false

/-- The time of a `SETEX` is accepted. -/
def setexAccepts (argv : Argv) : Bool :=
  match stringToLl (arg argv 2) with
  | some secs => 0 < secs && secs ≤ int64MaxSeconds
  | none => false

/-- The command sets or deletes every key it names, whatever they hold. -/
def overwrites (name : Bytes) (argv : Argv) : Bool :=
  if name = text "flushall" then argv.length = 1
  else if name = text "del" then 2 ≤ argv.length
  else if name = text "mset" then 3 ≤ argv.length && argv.length % 2 = 1
  else if name = text "set" then 3 ≤ argv.length && setsAlways argv
  else if name = text "setex" then argv.length = 4 && setexAccepts argv
  else false

section Overwrites

variable {E : Int → Int → Prop} {env env' : Env} {argv : Argv} {key : Bytes}

theorem cmdFlushall_overwrites (db db' : Db) (arity : argv.length = 1) :
    Option.Rel (Robj.Sim E) ((cmdFlushall env db argv).1.d.get key)
      ((cmdFlushall env' db' argv).1.d.get key) := by
  unfold cmdFlushall
  rw [if_neg (not_not.mpr arity), if_neg (not_not.mpr arity)]
  dsimp only
  rw [dictCreate_get, dictCreate_get]
  exact .none

theorem delLoop_get {args : List Bytes} (db : Db) (n : Nat) (named : key ∈ args) :
    (delLoop args db n).1.d.get key = none := by
  induction args generalizing db n with
  | nil => cases named
  | cons first rest ih =>
    by_cases later : key ∈ rest
    · exact ih _ _ later
    · have same : key = first := (List.mem_cons.mp named).resolve_right later
      exact (delLoop_get_other _ later).trans ((Table.get_delete ..).trans (if_pos same))

theorem cmdDel_overwrites (db db' : Db) (arity : 2 ≤ argv.length) (named : key ∈ argv.drop 1) :
    Option.Rel (Robj.Sim E) ((cmdDel env db argv).1.d.get key)
      ((cmdDel env' db' argv).1.d.get key) := by
  unfold cmdDel
  rw [if_neg (not_lt.mpr arity), if_neg (not_lt.mpr arity)]
  dsimp only
  rw [delLoop_get db 0 named, delLoop_get db' 0 named]
  exact .none

theorem msetLoop_overwrites (clean : E (-1) (-1)) {args : List Bytes} (db db' : Db)
    (named : key ∈ msetKeys args) :
    Option.Rel (Robj.Sim E) ((msetLoop args db).d.get key) ((msetLoop args db').d.get key) := by
  fun_induction msetLoop args db generalizing db' with
  | case1 first value rest db ih =>
    rw [msetLoop]
    by_cases later : key ∈ msetKeys rest
    · exact ih _ later
    · have same : key = first := (List.mem_cons.mp named).resolve_right later
      rw [msetLoop_get_other later, msetLoop_get_other later]
      simp only [Table.get_set, if_pos same]
      exact .some (Robj.sim_new clean rfl)
  | case2 args db short =>
    rw [msetKeys] at named
    · cases named
    · exact short

theorem cmdMset_overwrites (clean : E (-1) (-1)) (db db' : Db)
    (arity : 3 ≤ argv.length ∧ argv.length % 2 = 1) (named : key ∈ msetKeys (argv.drop 1)) :
    Option.Rel (Robj.Sim E) ((cmdMset env db argv).1.d.get key)
      ((cmdMset env' db' argv).1.d.get key) := by
  have accepted : ¬ (argv.length < 3 ∨ (argv.length - 1) % 2 = 1) := by omega
  unfold cmdMset
  rw [if_neg accepted, if_neg accepted]
  exact msetLoop_overwrites clean db db' named

theorem cmdSetex_overwrites (db db' : Db) (arity : argv.length = 4)
    (accepted : setexAccepts argv = true)
    (times : E (setexDeadline env.now argv) (setexDeadline env'.now argv)) :
    Option.Rel (Robj.Sim E) ((cmdSetex env db argv).1.d.get (arg argv 1))
      ((cmdSetex env' db' argv).1.d.get (arg argv 1)) := by
  unfold setexAccepts at accepted
  unfold setexDeadline at times
  unfold cmdSetex
  rw [if_neg (not_not.mpr arity), if_neg (not_not.mpr arity)]
  cases number : stringToLl (arg argv 2) with
  | none =>
    rw [number] at accepted
    cases accepted
  | some secs =>
    rw [number] at accepted times
    simp only [Bool.and_eq_true, decide_eq_true_eq] at accepted
    have valid : ¬ (secs ≤ 0 ∨ secs > int64MaxSeconds) := by omega
    dsimp only at times ⊢
    rw [if_neg valid, if_neg valid] at times ⊢
    simp only [Table.get_set, if_pos]
    exact .some ⟨rfl, times⟩

/-- What an unconditional `SET` leaves at its key. -/
theorem cmdSet_get (db : Db) (arity : 3 ≤ argv.length) (always : setsAlways argv = true) :
    (cmdSet env db argv).1.d.get (arg argv 1) =
      some ⟨.string (arg argv 2), setCommandDeadline env.now argv⟩ := by
  have flags : (readSetOptions env.now argv).map SetOptions.flags =
      (readSetOptions (fun _ => 0) argv).map SetOptions.flags := setOptions_flags _ _ _ _ _ _ rfl
  unfold setsAlways at always
  unfold cmdSet setCommandDeadline
  rw [if_neg (not_lt.mpr arity), ← readSetOptions]
  cases first : readSetOptions (fun _ => 0) argv with
  | error reply =>
    rw [first] at always
    cases always
  | ok options =>
    rw [first] at always flags
    simp only [Bool.and_eq_true, Bool.not_eq_true'] at always
    cases second : readSetOptions env.now argv with
    | error reply =>
      rw [second] at flags
      cases flags
    | ok options' =>
      rw [second] at flags
      obtain ⟨nx, xx⟩ := Prod.mk.inj (Except.ok.inj flags)
      rw [always.1] at nx
      rw [always.2] at xx
      simp [nx, onKey, setBody, xx, Update.apply, Table.get_set]

theorem cmdSet_overwrites (db db' : Db) (arity : 3 ≤ argv.length)
    (always : setsAlways argv = true)
    (times : E (setCommandDeadline env.now argv) (setCommandDeadline env'.now argv)) :
    Option.Rel (Robj.Sim E) ((cmdSet env db argv).1.d.get (arg argv 1))
      ((cmdSet env' db' argv).1.d.get (arg argv 1)) := by
  rw [cmdSet_get db arity always, cmdSet_get db' arity always]
  exact .some ⟨rfl, times⟩

end Overwrites

/-- The command overwrites the keys it names. -/
def overwritten (cmd : Command) : Bool :=
  match entryOf cmd with
  | some e => overwrites e.name (cmd.map cstr)
  | none => false

section Synced

variable {E : Int → Int → Prop} {K : Set Bytes} {env env' : Env} {db db' : Db} {cmd : Command}

theorem handler_eq {name : String} {h : Handler} (h' : Handler)
    (found : entryOf cmd = some ⟨text name, true, .data h⟩)
    (there : entry name true h' ∈ commands) :
    h = h' := by
  have same := commands_unique (entryOf_mem found) there rfl
  simpa [entry] using same

/-- **A command that overwrites its keys leaves the same at them in any two stores.** -/
theorem execute_overwrites {key : Bytes} (logs : logged cmd ≠ []) (resets : overwritten cmd = true)
    (named : key ∈ reached cmd) (clean : E (-1) (-1))
    (times : E (deadline env.now cmd) (deadline env'.now cmd)) :
    Option.Rel (Robj.Sim E) ((execute env db cmd).d.get key)
      ((execute env' db' cmd).d.get key) := by
  obtain ⟨name, h, found, _, effect⟩ := logged_inv logs
  unfold overwritten at resets
  unfold reached at named
  rw [found] at resets named
  rw [effect, effect]
  dsimp only at resets named
  unfold overwrites at resets
  split at resets
  · rename_i flushall
    subst flushall
    rw [handler_eq cmdFlushall found (by simp [commands])]
    exact cmdFlushall_overwrites db db' (of_decide_eq_true resets)
  split at resets
  · rename_i del
    subst del
    rw [handler_eq cmdDel found (by simp [commands])]
    exact cmdDel_overwrites db db' (of_decide_eq_true resets) named
  split at resets
  · rename_i mset
    subst mset
    rw [handler_eq cmdMset found (by simp [commands])]
    exact cmdMset_overwrites clean db db' (by simpa using resets) named
  split at resets
  · rename_i set
    subst set
    have timed : (text "set", setCommandDeadline) ∈ deadlines := by simp [deadlines]
    rw [deadline_eq found timed, deadline_eq found timed] at times
    rw [handler_eq cmdSet found (by simp [commands]), show key = arg (cmd.map cstr) 1 from named]
    simp only [Bool.and_eq_true, decide_eq_true_eq] at resets
    exact cmdSet_overwrites db db' resets.1 resets.2 times
  split at resets
  · rename_i setex
    subst setex
    have timed : (text "setex", setexDeadline) ∈ deadlines := by simp [deadlines]
    rw [deadline_eq found timed, deadline_eq found timed] at times
    rw [handler_eq cmdSetex found (by simp [commands]), show key = arg (cmd.map cstr) 1 from named]
    simp only [Bool.and_eq_true, decide_eq_true_eq] at resets
    exact cmdSetex_overwrites db db' resets.1 resets.2 times
  · cases resets

/-- The command is a `RENAME` that finds its source. -/
def moves (db : Db) (cmd : Command) : Prop :=
  (∃ h, entryOf cmd = some ⟨text "rename", true, .data h⟩) ∧ cmd.length = 3 ∧
    arg (cmd.map cstr) 1 ≠ arg (cmd.map cstr) 2 ∧ (db.d.get (arg (cmd.map cstr) 1)).isSome

/-- A `RENAME` moves similar objects to its target. -/
theorem execute_moves (moved : moves db cmd) (source : arg (cmd.map cstr) 1 ∈ K)
    (alike : Alike E K env env' db db') :
    Option.Rel (Robj.Sim E) ((execute env db cmd).d.get (arg (cmd.map cstr) 2))
      ((execute env' db' cmd).d.get (arg (cmd.map cstr) 2)) := by
  obtain ⟨⟨h, found⟩, arity, apart, present⟩ := moved
  have same := handler_eq cmdRename found (by simp [commands])
  have length : ¬ (cmd.map cstr).length ≠ 3 := by simp [arity]
  unfold execute
  rw [found, same]
  dsimp only
  unfold cmdRename
  rw [lookupKey_unexpired (alike.first _ source 0), lookupKey_unexpired (alike.second _ source 0),
    if_neg length, if_neg length, if_neg apart, if_neg apart]
  rcases alike.sim.at source with ⟨missing, _⟩ | ⟨o, o', first, second, sim⟩
  · rw [missing] at present
    cases present
  · rw [first, second]
    simp only [Table.get_set, if_pos]
    exact .some sim

/-! ### Staying in sync -/

/-- The keys in sync after a logged command. A key it does not name stays in sync. If the command
is `steady`, keys also stay in sync when its first key is, and it brings those into sync that it
overwrites or that it moves such an object to. -/
def synced (steady : Prop) (K : Set Bytes) (db : Db) (cmd : Command) : Set Bytes :=
  { key | key ∈ K ∧ key ∉ reached cmd ∨
    steady ∧ (overwritten cmd = true ∧ key ∈ reached cmd ∨
      arg (cmd.map cstr) 1 ∈ K ∧ (key ∈ K ∨ moves db cmd ∧ key = arg (cmd.map cstr) 2)) }

/-- **Similar stores are similar at the keys in sync after a command.** -/
theorem SimOn.synced {steady : Prop} (logs : logged cmd ≠ []) (alike : Alike E K env env' db db')
    (times : steady → E (deadline env.now cmd) (deadline env'.now cmd))
    (kept : steady → arg (cmd.map cstr) 1 ∈ K →
      SimOn E K (execute env db cmd) (execute env' db' cmd)) :
    SimOn E (synced steady K db cmd) (execute env db cmd) (execute env' db' cmd) := by
  rintro key (⟨member, other⟩ | ⟨steady, ⟨resets, named⟩ | ⟨source, member | ⟨moved, rfl⟩⟩⟩)
  · rw [execute_get_other logs other, execute_get_other logs other]
    exact alike.sim key member
  · exact execute_overwrites logs resets named alike.clean (times steady)
  · exact kept steady source key member
  · exact execute_moves moved source alike

end Synced

/-! ### Runs -/

/-- The keys of `K` that no reading of the clock finds expired. -/
def alive (now : Nat → Int) (db : Db) (K : Set Bytes) : Set Bytes :=
  { key | key ∈ K ∧ ∀ i, Unexpired (now i) db key }

/-- The keys in sync after an event. A key falls out of sync when it expires in the live store. -/
def Event.follow (steady : Db → Command → Prop) (K : Set Bytes) (s : Server) : Event → Set Bytes
  | .command env _ cmd =>
    if Miniredis.logged cmd = [] then alive env.now s.db K
    else synced (steady s.db cmd) (alive env.now s.db K) s.db cmd
  | .cron now _ => alive now s.db K
  | .child _ _ | .signal => K

/-- The keys in sync after a run. -/
def follow (steady : Db → Command → Prop) : Set Bytes → Server → List Event → Set Bytes
  | K, _, [] => K
  | K, s, e :: rest => follow steady (e.follow steady K s) (step s e) rest

end Miniredis
