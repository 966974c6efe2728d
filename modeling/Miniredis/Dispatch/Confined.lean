/-
**The keys that a command depends on (`db.c`).**

* `AgreeFrom` — from some time on two stores show the same under the keys of a set.
* `Confined` — a command leaves every key alone that it does not name, and what it does to those it
  names, and answers, depends on what is seen under them; `commands_confined` for the whole table,
  with the replies of `DEL`, `KEYS`, `DBSIZE` and `INFO` left open.
-/

import Miniredis.Dispatch.Steady
import Miniredis.Replay.Reach

namespace Miniredis

open HashTable (Table)

/-! ### Stores that agree from a time on -/

/-- From time `t` on a client sees the same in both stores under the keys of `K`. -/
def AgreeFrom (t : Int) (K : Set Bytes) (db db' : Db) : Prop :=
  ∀ key ∈ K, ∀ u, t ≤ u → live u db key = live u db' key

section Agree

variable {t u : Int} {K : Set Bytes} {db db' after after' : Db} {key : Bytes} {o : Robj}
  {now : Nat → Int}

theorem AgreeFrom.refl (t : Int) (K : Set Bytes) (db : Db) : AgreeFrom t K db db :=
  fun _ _ _ _ => rfl

theorem AgreeFrom.symm (agree : AgreeFrom t K db db') : AgreeFrom t K db' db :=
  fun key member u le => (agree key member u le).symm

theorem AgreeFrom.trans {db'' : Db} (first : AgreeFrom t K db db')
    (second : AgreeFrom t K db' db'') : AgreeFrom t K db db'' :=
  fun key member u le => (first key member u le).trans (second key member u le)

theorem AgreeFrom.later (agree : AgreeFrom t K db db') (le : t ≤ u) : AgreeFrom u K db db' :=
  fun key member v from_u => agree key member v (le.trans from_u)

/-- A store that is untouched at the keys of `K`. -/
theorem AgreeFrom.untouched (same : ∀ key ∈ K, db'.d.get key = db.d.get key) :
    AgreeFrom t K db' db :=
  fun key member _ _ => live_congr (same key member)

/-- A change of one key that leaves the same object in both stores. -/
theorem AgreeFrom.change (agree : AgreeFrom t K db db') (key : Bytes)
    (here : after.d.get key = after'.d.get key)
    (away : ∀ other, other ≠ key → after.d.get other = db.d.get other)
    (away' : ∀ other, other ≠ key → after'.d.get other = db'.d.get other) :
    AgreeFrom t K after after' := by
  intro other member v le
  by_cases same : other = key
  · subst same
    exact live_congr here
  · rw [live_congr (away other same), live_congr (away' other same)]
    exact agree other member v le

theorem AgreeFrom.lookup (agree : AgreeFrom t K db db') (member : key ∈ K) (le : t ≤ u) :
    (lookupKey u db key).1 = (lookupKey u db' key).1 ∧
      AgreeFrom t K (lookupKey u db key).2 (lookupKey u db' key).2 := by
  have same : (lookupKey u db key).1 = (lookupKey u db' key).1 := by
    rw [lookupKey_live, lookupKey_live, agree key member u le]
  refine ⟨same, agree.change key ?_ (fun _ => lookupKey_get_other)
    fun _ => lookupKey_get_other⟩
  rw [← lookupKey_fst, ← lookupKey_fst, same]

theorem AgreeFrom.onKey (agree : AgreeFrom t K db db') (member : key ∈ K) (le : t ≤ u)
    (body : Option Robj → Update × Bytes) :
    (onKey u db key body).2 = (Miniredis.onKey u db' key body).2 ∧
      AgreeFrom t K (Miniredis.onKey u db key body).1 (Miniredis.onKey u db' key body).1 := by
  have same := agree key member u le
  refine ⟨?_, agree.change key ?_ (fun _ => onKey_get_other) fun _ => onKey_get_other⟩
  · rw [(onKey_live u db key body).2, (onKey_live u db' key body).2, same]
  · rw [onKey_get_self, onKey_get_self, same]

theorem AgreeFrom.set (agree : AgreeFrom t K db db') (key : Bytes) (o : Robj) :
    AgreeFrom t K { db with d := (db.d.set key o).2 } { db' with d := (db'.d.set key o).2 } := by
  refine agree.change key ?_ (fun other ne => ?_) fun other ne => ?_
  · rw [Table.get_set, if_pos rfl, Table.get_set, if_pos rfl]
  · rw [Table.get_set, if_neg ne]
  · rw [Table.get_set, if_neg ne]

theorem AgreeFrom.delete (agree : AgreeFrom t K db db') (key : Bytes) :
    AgreeFrom t K { db with d := (db.d.delete key).2 } { db' with d := (db'.d.delete key).2 } := by
  refine agree.change key ?_ (fun other ne => ?_) fun other ne => ?_
  · rw [Table.get_delete, if_pos rfl, Table.get_delete, if_pos rfl]
  · rw [Table.get_delete, if_neg ne]
  · rw [Table.get_delete, if_neg ne]

/-- Dropping entries that have expired shows at no later time. -/
theorem Collects.agreeFrom (collects : Collects now db db') (readings : ∀ i, now i ≤ t) :
    AgreeFrom t K db' db := by
  intro key _ u le
  rcases collects key with same | ⟨gone, i, o, found, expired⟩
  · exact live_congr same
  · rw [live_absent gone,
      live_expired found (keyExpired_later ((readings i).trans le) expired)]

end Agree

/-! ### Confined commands -/

/-- The command leaves the keys outside `K` alone; what it makes of the keys of `K`, and its reply
where it is `heard`, depend on what is seen under them from time `t` on. -/
structure Confined (heard : Prop) (t : Int) (K : Set Bytes) (act : Db → Db × Bytes) : Prop where
  frame : ∀ db, ∀ key ∉ K, (act db).1.d.get key = db.d.get key
  agree : ∀ {db db'}, AgreeFrom t K db db' → AgreeFrom t K (act db).1 (act db').1
  reply : heard → ∀ {db db'}, AgreeFrom t K db db' → (act db).2 = (act db').2

/-- A command confined to the keys its arguments name, as long as the clock does not go back. -/
def Handler.Confined (h : Handler) (heard : Prop) (named : Argv → Set Bytes) : Prop :=
  ∀ env argv t, 13 ∉ arg argv 0 → (∀ i, t ≤ env.now i) →
    Miniredis.Confined heard t (named argv) fun db => h env db argv

section Confined

variable {heard : Prop} {t u : Int} {K L : Set Bytes} {act : Db → Db × Bytes} {key : Bytes}
  {named : Argv → Set Bytes}

theorem Confined.answer (out : Bytes) : Confined heard t K fun db => (db, out) :=
  ⟨fun _ _ _ => rfl, id, fun _ _ _ _ => rfl⟩

/-- A report on the whole store, which is not heard. -/
theorem Confined.report (silent : ¬ heard) (out : Db → Bytes) :
    Confined heard t K fun db => (db, out db) :=
  ⟨fun _ _ _ => rfl, id, fun hears => absurd hears silent⟩

theorem Confined.check {c : Prop} [Decidable c] {out : Bytes} (passes : Confined heard t K act) :
    Confined heard t K fun db => if c then (db, out) else act db := by
  by_cases fails : c
  · simp only [if_pos fails]
    exact .answer out
  · simp only [if_neg fails]
    exact passes

theorem Confined.onKey (member : key ∈ K) (le : t ≤ u) (body : Option Robj → Update × Bytes) :
    Confined heard t K fun db => onKey u db key body where
  frame _ _ outside := onKey_get_other fun same => outside (same ▸ member)
  agree agree := (agree.onKey member le body).2
  reply _ _ _ agree := (agree.onKey member le body).1

/-- A confined command does not care for what two stores show under further keys. -/
theorem Confined.widen (confined : Confined heard t K act) (sub : K ⊆ L) :
    Confined heard t L act where
  frame db key outside := confined.frame db key fun member => outside (sub member)
  agree := by
    intro db db' agree key member u le
    by_cases inside : key ∈ K
    · exact confined.agree (fun key member => agree key (sub member)) key inside u le
    · rw [live_congr (confined.frame db key inside), live_congr (confined.frame db' key inside)]
      exact agree key member u le
  reply hears _ _ agree := confined.reply hears fun key member => agree key (sub member)

theorem Handler.Tame.confined {h : Handler} {words : Argv → Prop}
    {excused : Argv → Option Robj → Prop} (tame : h.Tame words excused) :
    h.Confined heard fun argv => {arg argv 1} := by
  intro env argv t free readings
  rcases tame.plan env free with ⟨out, _, does⟩ | ⟨i, body, _, _, does⟩
  · simp only [does]
    exact .answer out
  · simp only [does]
    exact .onKey (Set.mem_singleton _) (readings i) body

end Confined

/-! ### Commands on several keys -/

section Several

variable {heard : Prop} {t : Int} {K : Set Bytes} {now : Nat → Int} {db db' : Db}
  {keys : List Bytes} {key : Bytes}

theorem mgetLoop_frame (i : Nat) (outside : key ∉ keys) :
    (mgetLoop now i keys db).1.d.get key = db.d.get key := by
  induction keys generalizing i db with
  | nil => rfl
  | cons first rest ih =>
    rw [List.mem_cons, not_or] at outside
    exact (ih (i + 1) outside.2).trans (lookupKey_get_other outside.1)

theorem mgetLoop_agree (readings : ∀ i, t ≤ now i) (i : Nat) (inside : ∀ key ∈ keys, key ∈ K)
    (agree : AgreeFrom t K db db') :
    (mgetLoop now i keys db).2 = (mgetLoop now i keys db').2 ∧
      AgreeFrom t K (mgetLoop now i keys db).1 (mgetLoop now i keys db').1 := by
  induction keys generalizing i db db' with
  | nil => exact ⟨rfl, agree⟩
  | cons first rest ih =>
    rw [List.forall_mem_cons] at inside
    obtain ⟨found, looked⟩ := agree.lookup inside.1 (readings i)
    obtain ⟨out, after⟩ := ih (i + 1) inside.2 looked
    unfold mgetLoop
    dsimp only
    rw [found, out]
    exact ⟨rfl, after⟩

theorem existsLoop_frame (i n : Nat) (outside : key ∉ keys) :
    (existsLoop now i keys db n).1.d.get key = db.d.get key := by
  induction keys generalizing i n db with
  | nil => rfl
  | cons first rest ih =>
    rw [List.mem_cons, not_or] at outside
    exact (ih (i + 1) _ outside.2).trans (lookupKey_get_other outside.1)

theorem existsLoop_agree (readings : ∀ i, t ≤ now i) (i n : Nat) (inside : ∀ key ∈ keys, key ∈ K)
    (agree : AgreeFrom t K db db') :
    (existsLoop now i keys db n).2 = (existsLoop now i keys db' n).2 ∧
      AgreeFrom t K (existsLoop now i keys db n).1 (existsLoop now i keys db' n).1 := by
  induction keys generalizing i n db db' with
  | nil => exact ⟨rfl, agree⟩
  | cons first rest ih =>
    rw [List.forall_mem_cons] at inside
    obtain ⟨found, looked⟩ := agree.lookup inside.1 (readings i)
    unfold existsLoop
    dsimp only
    rw [found]
    exact ih (i + 1) _ inside.2 looked

theorem setArgs_frame (i : Nat) (outside : key ∉ keys) :
    (setArgs now i keys db).2.d.get key = db.d.get key := by
  induction keys generalizing i db with
  | nil => rfl
  | cons first rest ih =>
    rw [List.mem_cons, not_or] at outside
    have looked : (lookupKey (now i) db first).2.d.get key = db.d.get key :=
      lookupKey_get_other outside.1
    unfold setArgs
    dsimp only
    split
    · exact (ih (i + 1) outside.2).trans looked
    · split
      · exact looked
      · exact (ih (i + 1) outside.2).trans looked

theorem setArgs_agree (readings : ∀ i, t ≤ now i) (i : Nat) (inside : ∀ key ∈ keys, key ∈ K)
    (agree : AgreeFrom t K db db') :
    (setArgs now i keys db).1 = (setArgs now i keys db').1 ∧
      AgreeFrom t K (setArgs now i keys db).2 (setArgs now i keys db').2 := by
  induction keys generalizing i db db' with
  | nil => exact ⟨rfl, agree⟩
  | cons first rest ih =>
    rw [List.forall_mem_cons] at inside
    obtain ⟨found, looked⟩ := agree.lookup inside.1 (readings i)
    obtain ⟨sets, after⟩ := ih (i + 1) inside.2 looked
    unfold setArgs
    dsimp only
    rw [found]
    split
    · exact ⟨congrArg (Option.map _) sets, after⟩
    · split
      · exact ⟨rfl, looked⟩
      · exact ⟨congrArg (Option.map _) sets, after⟩

theorem delLoop_agree (n n' : Nat) (agree : AgreeFrom t K db db') :
    AgreeFrom t K (delLoop keys db n).1 (delLoop keys db' n').1 := by
  induction keys generalizing n n' db db' with
  | nil => exact agree
  | cons first rest ih => exact ih _ _ (agree.delete first)

theorem msetLoop_agree (args : List Bytes) (agree : AgreeFrom t K db db') :
    AgreeFrom t K (msetLoop args db) (msetLoop args db') := by
  fun_induction msetLoop args db generalizing db' with
  | case1 first value rest db ih =>
    rw [msetLoop]
    exact ih (agree.set first _)
  | case2 args db other =>
    rw [msetLoop]
    · exact agree
    · exact other

theorem cmdMget_confined :
    Handler.Confined cmdMget heard fun argv => { key | key ∈ argv.drop 1 } := by
  intro env argv t _ readings
  refine .check ⟨fun db key outside => mgetLoop_frame 0 outside, fun agree => ?_,
    fun _ _ _ agree => ?_⟩
  · exact (mgetLoop_agree readings 0 (fun _ => id) agree).2
  · exact congrArg (replyArrayHeader _ ++ ·) (mgetLoop_agree readings 0 (fun _ => id) agree).1

theorem cmdExists_confined :
    Handler.Confined cmdExists heard fun argv => { key | key ∈ argv.drop 1 } := by
  intro env argv t _ readings
  refine .check ⟨fun db key outside => existsLoop_frame 0 0 outside, fun agree => ?_,
    fun _ _ _ agree => ?_⟩
  · exact (existsLoop_agree readings 0 0 (fun _ => id) agree).2
  · exact congrArg (fun n : Nat => replyInteger n)
      (existsLoop_agree readings 0 0 (fun _ => id) agree).1

theorem setOperation_long {env : Env} {argv : Argv} (name : Bytes)
    (reply : Seed → List (Option (Dict Unit)) → Bytes) (long : ¬ argv.length < 2) (db : Db) :
    setOperation name reply env db argv =
      ((setArgs env.now 0 (argv.drop 1) db).2,
        ((setArgs env.now 0 (argv.drop 1) db).1.map (reply env.seed)).getD replyWrongtype) := by
  unfold setOperation
  rw [if_neg long]
  rcases setArgs env.now 0 (argv.drop 1) db with ⟨_ | sets, after⟩ <;> rfl

theorem setOperation_confined (name : Bytes) (reply : Seed → List (Option (Dict Unit)) → Bytes) :
    Handler.Confined (setOperation name reply) heard fun argv => { key | key ∈ argv.drop 1 } := by
  intro env argv t _ readings
  by_cases short : argv.length < 2
  · simp only [setOperation, if_pos short]
    exact .answer _
  simp only [setOperation_long name reply short]
  refine ⟨fun db key outside => setArgs_frame 0 outside, fun agree => ?_, fun _ _ _ agree => ?_⟩
  · exact (setArgs_agree readings 0 (fun _ => id) agree).2
  · rw [(setArgs_agree readings 0 (fun _ => id) agree).1]

theorem cmdDel_confined (silent : ¬ heard) :
    Handler.Confined cmdDel heard fun argv => { key | key ∈ argv.drop 1 } :=
  fun _ _ _ _ _ => .check ⟨fun _ _ outside => delLoop_get_other 0 outside,
    fun agree => delLoop_agree 0 0 agree, fun hears => absurd hears silent⟩

theorem cmdMset_confined :
    Handler.Confined cmdMset heard fun argv => { key | key ∈ msetKeys (argv.drop 1) } :=
  fun _ _ _ _ _ => .check ⟨fun _ _ outside => msetLoop_get_other outside,
    fun agree => msetLoop_agree _ agree, fun _ _ _ _ => rfl⟩

theorem cmdRename_confined :
    Handler.Confined cmdRename heard fun argv => {arg argv 1, arg argv 2} := by
  intro env argv t _ readings
  have moves {db db' : Db} (agree : AgreeFrom t {arg argv 1, arg argv 2} db db') :
      (cmdRename env db argv).2 = (cmdRename env db' argv).2 ∧
        AgreeFrom t {arg argv 1, arg argv 2} (cmdRename env db argv).1
          (cmdRename env db' argv).1 := by
    obtain ⟨found, looked⟩ := agree.lookup (Set.mem_insert _ _) (readings 0)
    unfold cmdRename
    split
    · exact ⟨rfl, agree⟩
    split
    · exact ⟨rfl, agree⟩
    generalize lookupKey (env.now 0) db (arg argv 1) = first at found looked ⊢
    generalize lookupKey (env.now 0) db' (arg argv 1) = second at found looked ⊢
    obtain ⟨o, after⟩ := first
    obtain ⟨o', after'⟩ := second
    cases found
    cases o with
    | none => exact ⟨rfl, looked⟩
    | some o => exact ⟨rfl, (looked.delete (arg argv 1)).set (arg argv 2) o⟩
  refine ⟨fun db key outside => ?_, fun agree => (moves agree).2,
    fun _ _ _ agree => (moves agree).1⟩
  rw [Set.mem_insert_iff, Set.mem_singleton_iff, not_or] at outside
  exact cmdRename_get_other outside.1 outside.2

theorem cmdSetex_confined : Handler.Confined cmdSetex heard fun argv => {arg argv 1} := by
  intro env argv t _ readings
  refine .check ?_
  cases stringToLl (arg argv 2) with
  | none => exact .answer _
  | some seconds =>
    refine .check ⟨fun db key outside => ?_, fun agree => agree.set _ _, fun _ _ _ _ => rfl⟩
    exact (Table.get_set ..).trans (if_neg outside)

theorem cmdFlushall_confined : Handler.Confined cmdFlushall heard fun _ => Set.univ :=
  fun _ _ _ _ _ => .check ⟨fun _ key outside => absurd (Set.mem_univ key) outside,
    fun _ _ _ _ _ => rfl, fun _ _ _ _ => rfl⟩

end Several

/-! ### The table -/

/-- The commands that name no key. -/
def keyless : List Bytes :=
  [text "ping", text "echo", text "select", text "command", text "quit", text "keys", text "dbsize",
    text "info", text "save", text "bgsave", text "rewriteaof", text "bgrewriteaof"]

/-- The commands whose arguments are all keys. -/
def manyKeys : List Bytes :=
  [text "del", text "exists", text "mget", text "sinter", text "sunion", text "sdiff"]

/-- The keys that a command of this name reads or changes. -/
def keysNamed (name : Bytes) (argv : Argv) : Set Bytes :=
  if name = text "flushall" then Set.univ
  else if name ∈ keyless then ∅
  else if name ∈ manyKeys then { key | key ∈ argv.drop 1 }
  else if name = text "mset" then { key | key ∈ msetKeys (argv.drop 1) }
  else if name = text "rename" then {arg argv 1, arg argv 2}
  else {arg argv 1}

/-- The commands whose reply depends on more than what is seen. -/
def revealing : List Bytes := [text "del", text "keys", text "dbsize", text "info"]

def CmdEntry.Confined (e : CmdEntry) : Prop :=
  match e.fn with
  | .data h => h.Confined (e.name ∉ revealing) (keysNamed e.name)
  | _ => True

section Table

theorem keysNamed_many {name : Bytes} (many : name ∈ manyKeys) :
    keysNamed name = fun argv => { key | key ∈ argv.drop 1 } := by
  have apart : ∀ name ∈ manyKeys, name ≠ text "flushall" ∧ name ∉ keyless := by decide
  funext argv
  rw [keysNamed, if_neg (apart name many).1, if_neg (apart name many).2, if_pos many]

/-- The names of the commands that do not name just their first argument. -/
def spread : List Bytes :=
  [text "flushall", text "mset", text "rename"] ++ keyless ++ manyKeys

theorem keysNamed_single {name : Bytes} (single : name ∉ spread) :
    keysNamed name = fun argv => {arg argv 1} := by
  simp only [spread, List.mem_append, List.mem_cons, List.not_mem_nil, or_false, not_or] at single
  obtain ⟨⟨⟨flushall, mset, rename⟩, free⟩, many⟩ := single
  funext argv
  rw [keysNamed, if_neg flushall, if_neg free, if_neg many, if_neg mset, if_neg rename]

variable {heard : Prop} {named : Argv → Set Bytes}

theorem cmdPing_confined : Handler.Confined cmdPing heard named :=
  fun _ _ _ _ _ => .check (.check (.answer _))

theorem cmdEcho_confined : Handler.Confined cmdEcho heard named :=
  fun _ _ _ _ _ => .check (.answer _)

theorem cmdSelect_confined : Handler.Confined cmdSelect heard named := by
  intro env argv t _ _
  refine .check ?_
  cases stringToLl (arg argv 1) with
  | none => exact .answer _
  | some index => exact .check (.answer _)

/-- The commands that do not act on their first argument alone. -/
def spreading : List CmdEntry :=
  [ entry "ping" false cmdPing,
    entry "echo" false cmdEcho,
    entry "select" false cmdSelect,
    entry "command" false cmdCommand ] ++ others

theorem spreading_commands : ∀ e ∈ spreading, e ∈ commands := by
  simp [spreading, others, commands]

theorem spreading_confined : ∀ e ∈ spreading, e.Confined := by
  have many {name : Bytes} {h : Handler} {heard : Prop} (member : name ∈ manyKeys)
      (confined : h.Confined heard fun argv => { key | key ∈ argv.drop 1 }) :
      h.Confined heard (keysNamed name) := by
    rwa [keysNamed_many member]
  refine List.forall_iff_forall_mem.mp ?_
  exact
    ⟨cmdPing_confined, cmdEcho_confined, cmdSelect_confined,
     fun _ _ _ _ _ => .answer _,
     many (by decide) (cmdDel_confined fun heard => heard (by decide)),
     many (by decide) cmdExists_confined,
     many (by decide) cmdMget_confined,
     cmdMset_confined, cmdRename_confined, cmdSetex_confined,
     many (by decide) (setOperation_confined _ _),
     many (by decide) (setOperation_confined _ _),
     many (by decide) (setOperation_confined _ _),
     fun _ _ _ _ _ => .check (.report (fun heard => heard (by decide)) _),
     cmdFlushall_confined,
     fun _ _ _ _ _ => .check (.report (fun heard => heard (by decide)) _),
     fun _ _ _ _ _ => .report (fun heard => heard (by decide)) _,
     trivial, trivial, trivial, trivial, trivial⟩

/-- **Every data command is confined to the keys it names.** -/
theorem commands_confined : ∀ e ∈ commands, e.Confined := by
  have names : ∀ e ∈ commands, e.name ∈ spreading.map CmdEntry.name ∨ e.name ∉ spread := by decide
  intro e member
  by_cases known : e ∈ spreading
  · exact spreading_confined e known
  have single : e.name ∉ spread := by
    refine (names e member).resolve_left fun name => known ?_
    obtain ⟨twin, listed, same⟩ := List.mem_map.mp name
    rwa [commands_unique member (spreading_commands twin listed) same.symm]
  have tame := (commands_tame e member).resolve_right fun other =>
    known (List.mem_append_right _ other)
  unfold CmdEntry.Tame at tame
  unfold CmdEntry.Confined
  cases action : e.fn with
  | data h =>
    rw [action] at tame
    rw [keysNamed_single single]
    exact tame.confined
  | _ => trivial

end Table

end Miniredis
