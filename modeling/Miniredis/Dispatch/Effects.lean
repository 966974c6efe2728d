/-
**What a command changes in the store (`db.c`).**

* `failed_command_iff` — a failed command changes nothing a client can see, with one exception:
  `HINCRBYFLOAT` with an infinite increment creates its key before it refuses.
* `commands_fill` — a command that succeeds leaves no empty container.
* `commands_touch_named` — a read changes no key, a write none but those among its arguments.
-/

import Miniredis.Replay.Sync

namespace Miniredis

/-! ### What a client can see -/

section Live

/-- The object a client can see at a key. -/
def live (t : Int) (db : Db) (key : Bytes) : Option Robj :=
  (db.d.get key).filter fun o => !keyExpired t o

variable {t : Int} {db db' : Db} {key : Bytes} {env : Env}

theorem lookupKey_live (t : Int) (db : Db) (key : Bytes) :
    (lookupKey t db key).1 = live t db key := by
  unfold lookupKey live
  split
  · rename_i absent
    rw [absent]
    rfl
  · rename_i o found
    rw [found]
    by_cases expired : keyExpired t o = true
    · rw [if_pos expired, Option.filter_some, if_neg (by simp [expired])]
    · rw [if_neg expired, Option.filter_some, if_pos (by simp [expired])]

theorem live_congr (same : db'.d.get key = db.d.get key) : live t db' key = live t db key := by
  rw [live, same, live]

theorem live_absent (absent : db.d.get key = none) : live t db key = none := by
  rw [live, absent]
  rfl

theorem live_expired {o : Robj} (found : db.d.get key = some o) (expired : keyExpired t o = true) :
    live t db key = none := by
  rw [live, found, Option.filter_some, if_neg (by simp [expired])]

/-- What is expired stays so. -/
theorem keyExpired_later {t t' : Int} {o : Robj} (later : t ≤ t')
    (expired : keyExpired t o = true) : keyExpired t' o = true := by
  simp only [keyExpired, Bool.and_eq_true, decide_eq_true_eq] at expired ⊢
  omega

theorem live_eq_none_iff {o : Robj} (found : db.d.get key = some o) :
    live t db key = none ↔ keyExpired t o = true := by
  rw [live, found, Option.filter_some]
  cases keyExpired t o <;> simp

theorem live_unexpired (fresh : Unexpired t db key) : live t db key = db.d.get key := by
  rw [live]
  cases found : db.d.get key with
  | none => rfl
  | some o => rw [Option.filter_some, if_pos (by simp [fresh o found])]

/-- Both see the same, and no key is new. -/
structure ChangesNothing (t : Int) (db db' : Db) : Prop where
  seen : live t db' = live t db
  present : ∀ key, (db'.d.get key).isSome → (db.d.get key).isSome

/-- Nothing a client sees is lost when expired entries are dropped. -/
theorem Collects.changesNothing (stopped : env.Stopped) (collects : Collects env.now db db') :
    ChangesNothing (env.now 0) db db' := by
  constructor
  · funext key
    rcases collects key with same | ⟨gone, i, o, found, expired⟩
    · exact live_congr same
    · rw [stopped i] at expired
      rw [live_absent gone, live_expired found expired]
  · intro key there
    rcases collects key with same | ⟨gone, _⟩
    · rwa [same] at there
    · rw [gone] at there
      cases there

end Live

/-! ### Failed commands -/

section Failures

variable {env : Env} {io : Io} {s : Server} {db : Db} {argv : Argv} {cmd : Command}

/-- The key of a refused `HINCRBYFLOAT` holds an empty hash. -/
theorem cmdHincrbyfloat_infinite (infinite : InfiniteIncrement argv)
    (absent : live (env.now 0) db (arg argv 1) = none) :
    IsError (cmdHincrbyfloat env db argv).2 ∧
      (cmdHincrbyfloat env db argv).1.d.get (arg argv 1) =
        some (robjNew (.hash (dictCreate env.seed))) := by
  obtain ⟨four, delta, parsed, inf⟩ := infinite
  have overflow : ((Double.zero.add delta).isNaN || (Double.zero.add delta).isInf) = true := by
    rw [Double.zero_add_inf inf, inf, Bool.or_true]
  have refused : hincrbyfloatHash (arg argv 2) delta (hashKind.fresh env.seed) =
      (hashKind.fresh env.seed, replyError (text "increment would produce NaN or Infinity")) :=
    (hincrbyfloatHash_fresh ..).trans (if_pos overflow)
  have missing : (lookupKey (env.now 0) db (arg argv 1)).1 = none :=
    (lookupKey_live ..).trans absent
  unfold cmdHincrbyfloat
  rw [if_neg (not_not.mpr four), parsed]
  unfold onKey
  dsimp only
  rw [missing]
  unfold Kind.upsert Kind.body
  dsimp only
  -- the new hash is stored before the sum is refused
  rw [refused]
  exact ⟨isError_replyError _, (HashTable.Table.get_set ..).trans (if_pos rfl)⟩

/-- The command makes a key and then refuses. -/
def LeavesEmptyHash (t : Int) (db : Db) (cmd : Command) : Prop :=
  entryOf cmd = some (entry "hincrbyfloat" true cmdHincrbyfloat) ∧
    InfiniteIncrement (cmd.map cstr) ∧ live t db (arg (cmd.map cstr) 1) = none

theorem LeavesEmptyHash.breaks (leaves : LeavesEmptyHash (env.now 0) s.db cmd) :
    IsError (dispatchCommand env io s cmd).2.out ∧
      ¬ ChangesNothing (env.now 0) s.db (dispatchCommand env io s cmd).1.db := by
  obtain ⟨known, infinite, absent⟩ := leaves
  obtain ⟨store, out⟩ := @dispatchCommand_data env io s cmd _ cmdHincrbyfloat known rfl
  obtain ⟨wrong, made⟩ := cmdHincrbyfloat_infinite infinite absent
  rw [store, out]
  refine ⟨wrong, fun nothing => ?_⟩
  have same := congrFun nothing.seen (arg (cmd.map cstr) 1)
  rw [absent, live, made] at same
  cases same

theorem hincrbyfloat_mem : entry "hincrbyfloat" true cmdHincrbyfloat ∈ commands := by
  simp [commands]

end Failures

/-- **A failed command other than `ZADD` changes nothing, unless it is a `HINCRBYFLOAT` that adds an
infinity to a key no client sees.** -/
theorem failed_command_iff (env : Env) (io : Io) (s : Server) (cmd : Command)
    (stopped : env.Stopped) (other : ∀ e, entryOf cmd = some e → e.name ≠ text "zadd") :
    (IsError (dispatchCommand env io s cmd).2.out →
        ChangesNothing (env.now 0) s.db (dispatchCommand env io s cmd).1.db) ↔
      ¬ LeavesEmptyHash (env.now 0) s.db cmd := by
  refine ⟨fun unchanged leaves => leaves.breaks.2 (unchanged leaves.breaks.1), fun fine wrong => ?_⟩
  rcases data_or_idle cmd with ⟨e, h, known, action⟩ | idle
  · refine Collects.changesNothing stopped
      ((dispatchCommand_behaves known action).fails ?_ wrong)
    rintro ⟨i, zadd | ⟨name, missing, infinite⟩⟩
    · exact other e known zadd
    · have same : e = entry "hincrbyfloat" true cmdHincrbyfloat :=
        commands_unique (entryOf_mem known) hincrbyfloat_mem name
      rw [stopped i, lookupKey_live] at missing
      exact fine ⟨same ▸ known, infinite, missing⟩
  · rw [dispatchCommand_idle idle]
    exact Collects.changesNothing stopped (.refl env.now s.db)

theorem failed_incr_unchanged :
    IsError (dispatchCommand sampleEnv .smooth (sampleStart false) (["INCR"].map text)).2.out ∧
      ChangesNothing 0 (sampleStart false).db
        (dispatchCommand sampleEnv .smooth (sampleStart false) (["INCR"].map text)).1.db := by
  have known : entryOf (["INCR"].map text) = some (entry "incr" true cmdIncr) :=
    entryOf_eq (by simp [commands]) (by decide) []
  have wrong : IsError
      (dispatchCommand sampleEnv .smooth (sampleStart false) (["INCR"].map text)).2.out := by
    rw [(dispatchCommand_data known rfl).2]
    exact isError_replyError _
  refine ⟨wrong, (failed_command_iff sampleEnv .smooth (sampleStart false) _ (fun _ => rfl) ?_).mpr
    ?_ wrong⟩
  · intro e found
    rw [known] at found
    cases found
    decide
  · rintro ⟨found, _⟩
    rw [known] at found
    exact absurd (congrArg CmdEntry.name (Option.some.inj found)) (by decide)

/-- The reply is an error, and the key is there. -/
theorem hincrbyfloat_leaves_hash :
    IsError (dispatchCommand sampleEnv .smooth (sampleStart false)
        (["HINCRBYFLOAT", "k", "f", "inf"].map text)).2.out ∧
      ¬ ChangesNothing 0 (sampleStart false).db (dispatchCommand sampleEnv .smooth
        (sampleStart false) (["HINCRBYFLOAT", "k", "f", "inf"].map text)).1.db := by
  have leaves : LeavesEmptyHash (sampleEnv.now 0) (sampleStart false).db
      (["HINCRBYFLOAT", "k", "f", "inf"].map text) :=
    ⟨entryOf_eq hincrbyfloat_mem (by decide) _,
      ⟨rfl, .ofMagnitude false Double.infMagnitude, by decide, by decide⟩, rfl⟩
  exact leaves.breaks

/-! ### Empty containers -/

/-- **A command that succeeds leaves no empty container behind.** -/
theorem commands_fill (env : Env) (io : Io) (s : Server) (cmd : Command) (full : NoEmpty s.db)
    (succeeds : ¬ IsError (dispatchCommand env io s cmd).2.out) :
    NoEmpty (dispatchCommand env io s cmd).1.db := by
  rcases data_or_idle cmd with ⟨e, h, known, action⟩ | idle
  · exact (dispatchCommand_behaves known action).fills full succeeds
  · rw [dispatchCommand_idle idle]
    exact full

theorem rpush_leaves_filled :
    NoEmpty (dispatchCommand sampleEnv .smooth (sampleStart false)
      (["RPUSH", "l", "a"].map text)).1.db := by
  refine commands_fill sampleEnv .smooth (sampleStart false) _ (fun key o found => ?_) (by decide)
  rw [show (sampleStart false).db.d.get key = none from dictCreate_get _ key] at found
  cases found

/-! ### Named keys -/

section Named

variable {env : Env} {db : Db} {argv : Argv} {key : Bytes}

/-- The write command of the entry changes no key but those among its arguments. -/
def CmdEntry.TouchesNamed (e : CmdEntry) : Prop :=
  match e.isWrite, e.fn with
  | true, .data h => e.name ≠ text "flushall" → ∀ env db argv key, 13 ∉ arg argv 0 → key ∉ argv →
      (h env db argv).1.d.get key = db.d.get key
  | _, _ => True

theorem arg_mem {i : Nat} (inside : i < argv.length) : arg argv i ∈ argv := by
  unfold arg
  rw [List.getD_eq_getElem _ _ inside]
  exact List.getElem_mem inside

theorem ne_arg {i : Nat} (inside : i < argv.length) (unnamed : key ∉ argv) : key ≠ arg argv i :=
  fun same => unnamed (same ▸ arg_mem inside)

theorem Handler.Tame.touchesNamed {h : Handler} {words : Argv → Prop}
    {excused : Argv → Option Robj → Prop} (tame : h.Tame words excused) (free : 13 ∉ arg argv 0)
    (unnamed : key ∉ argv) : (h env db argv).1.d.get key = db.d.get key := by
  rcases tame.plan env free with ⟨out, _, same⟩ | ⟨i, body, named, _, same⟩
  · rw [same]
  · exact tame.get_other free (ne_arg (by omega) unnamed)

theorem msetKeys_subset (args : List Bytes) : msetKeys args ⊆ args := by
  fun_induction msetKeys args with
  | case1 key value rest ih =>
    exact List.cons_subset_cons key (List.subset_cons_of_subset value ih)
  | case2 => exact List.nil_subset _

theorem others_touchNamed : ∀ e ∈ others, e.TouchesNamed := by
  refine List.forall_iff_forall_mem.mp ?_
  refine ⟨?_, trivial, trivial, ?_, ?_, ?_, trivial, trivial, trivial, trivial, ?_, trivial,
    trivial, trivial, trivial, trivial, trivial, trivial⟩
  · intro _ env db argv key _ unnamed
    exact cmdDel_get_other fun named => unnamed (List.mem_of_mem_drop named)
  · intro _ env db argv key _ unnamed
    exact cmdMset_get_other fun named =>
      unnamed (List.mem_of_mem_drop (msetKeys_subset _ named))
  · intro _ env db argv key _ unnamed
    by_cases three : argv.length = 3
    · exact cmdRename_get_other (ne_arg (by omega) unnamed) (ne_arg (by omega) unnamed)
    · show (cmdRename env db argv).1.d.get key = _
      unfold cmdRename
      rw [if_pos three]
  · intro _ env db argv key _ unnamed
    by_cases four : argv.length = 4
    · exact cmdSetex_get_other (ne_arg (by omega) unnamed)
    · show (cmdSetex env db argv).1.d.get key = _
      unfold cmdSetex
      rw [if_pos four]
  · intro other
    exact absurd rfl other

theorem commands_touchNamed : ∀ e ∈ commands, e.TouchesNamed := by
  intro e member
  rcases commands_tame e member with tame | other
  · unfold CmdEntry.Tame at tame
    unfold CmdEntry.TouchesNamed
    cases e.isWrite with
    | false => trivial
    | true =>
      cases action : e.fn with
      | data h =>
        rw [action] at tame
        exact fun _ _ _ _ _ free unnamed => tame.touchesNamed free unnamed
      | _ => trivial
  · exact others_touchNamed e other

end Named

/-- **A command touches only what it names.** At any key under a read command, and at a key that is
no argument of a write command, an object that stays unexpired is left as it is, and an object that
disappears was expired. -/
theorem commands_touch_named (env : Env) (io : Io) (s : Server) {cmd : Command} {e : CmdEntry}
    (known : entryOf cmd = some e) (key : Bytes)
    (unnamed : e.isWrite = true → e.name ≠ text "flushall" ∧ key ∉ cmd.map cstr) :
    ((∀ i, Unexpired (env.now i) s.db key) →
        (dispatchCommand env io s cmd).1.db.d.get key = s.db.d.get key) ∧
      ∀ o, s.db.d.get key = some o → (dispatchCommand env io s cmd).1.db.d.get key = none →
        ∃ i, keyExpired (env.now i) o = true := by
  have spared : (∀ i, Unexpired (env.now i) s.db key) →
      (dispatchCommand env io s cmd).1.db.d.get key = s.db.d.get key := by
    intro unexpired
    rw [dispatchCommand_db]
    cases writes : e.isWrite with
    | false =>
      have silent : logged cmd = [] := by simp [logged, known, writes]
      refine execute_unlogged silent (K := {key}) ?_ key rfl
      rintro _ rfl
      exact unexpired
    | true =>
      obtain ⟨flushall, other⟩ := unnamed writes
      have touches := commands_touchNamed e (entryOf_mem known)
      obtain ⟨name, isWrite, fn⟩ := e
      unfold CmdEntry.TouchesNamed at touches
      unfold execute
      rw [known]
      cases fn with
      | data h =>
        cases writes
        exact touches flushall env s.db _ key (entryOf_free known) other
      | _ => rfl
  refine ⟨spared, fun o found gone => ?_⟩
  by_contra fresh
  have same := spared fun i o' found' => by
    rw [found] at found'
    cases found'
    exact Bool.eq_false_of_not_eq_true fun expired => fresh ⟨i, expired⟩
  rw [gone, found] at same
  cases same

theorem set_touches_named :
    ((∀ i, Unexpired (sampleEnv.now i) (step (sampleStart false) (request ["SET", "x", "1"])).db
        (text "x")) →
        (dispatchCommand sampleEnv .smooth (step (sampleStart false) (request ["SET", "x", "1"]))
          (["SET", "k", "v"].map text)).1.db.d.get (text "x") =
            (step (sampleStart false) (request ["SET", "x", "1"])).db.d.get (text "x")) ∧
      ∀ o, (step (sampleStart false) (request ["SET", "x", "1"])).db.d.get (text "x") = some o →
        (dispatchCommand sampleEnv .smooth (step (sampleStart false) (request ["SET", "x", "1"]))
          (["SET", "k", "v"].map text)).1.db.d.get (text "x") = none →
            ∃ i, keyExpired (sampleEnv.now i) o = true :=
  commands_touch_named sampleEnv .smooth _
    (entryOf_eq (e := entry "set" true cmdSet) (by simp [commands]) (by decide) _) (text "x")
    fun _ => ⟨by decide, by decide⟩

end Miniredis
