/-
**The log refines the store.**

Without expiries and `SPOP`, what a write command does depends on the dataset alone, so replaying
the log of a run into an empty store rebuilds the dataset of the run, whatever the clocks, hash
seeds and table layouts of the two (`aofReplay_run`).
-/

import Miniredis.Replay.Pops

namespace Miniredis

/-! ### Stores without expiries -/

/-- No key has an expiry. -/
def NoExpiry (db : Db) : Prop := ∀ key o, db.d.get key = some o → o.expireAt < 0

/-- Both or neither of two expiries are set. -/
def SameSign (e e' : Int) : Prop := e < 0 ↔ e' < 0

section NoExpiry

variable {db db' : Db} {env : Env}

theorem NoExpiry.unexpiredAt (none : NoExpiry db) (now : Int) (key : Bytes) :
    Unexpired now db key := by
  intro o found
  have negative := none key o found
  simp only [keyExpired, Bool.and_eq_false_iff, decide_eq_false_iff_not]
  omega

theorem NoExpiry.unexpired (none : NoExpiry db) (K : Set Bytes) (env : Env) :
    UnexpiredOn K env db := fun key _ i => none.unexpiredAt (env.now i) key

theorem NoExpiry.untouched (none : NoExpiry db) (same : Untouched Set.univ db db') :
    NoExpiry db' := fun key o found => none key o (by rw [← same key trivial, found])

theorem SimOn.noExpiry {K : Set Bytes} (sim : SimOn SameSign K db db') (none : NoExpiry db) :
    ∀ key ∈ K, ∀ o, db'.d.get key = some o → o.expireAt < 0 := by
  intro key member o found
  rcases sim.at member with ⟨_, missing⟩ | ⟨old, new, first, second, same⟩
  · rw [missing] at found
    cases found
  · rw [second] at found
    cases found
    exact same.expire.mp (none key old first)

/-- Contents and the absence of expiries give similarity with signs. -/
theorem SimOn.withSigns {E : Int → Int → Prop} {K : Set Bytes} (sim : SimOn E K db db')
    (none : NoExpiry db) (none' : ∀ key ∈ K, ∀ o, db'.d.get key = some o → o.expireAt < 0) :
    SimOn SameSign K db db' := by
  intro key member
  rcases sim.at member with ⟨first, second⟩ | ⟨old, new, first, second, same⟩
  · rw [first, second]
    exact .none
  · rw [first, second]
    exact .some ⟨same.content, iff_of_true (none key _ first) (none' key member _ second)⟩

theorem SimOn.dataset_at {E : Int → Int → Prop} {K : Set Bytes} {key : Bytes}
    (sim : SimOn E K db db') (member : key ∈ K) : dataset db key = dataset db' key := by
  unfold dataset
  rcases sim.at member with ⟨first, second⟩ | ⟨old, new, first, second, same⟩
  · rw [first, second]
  · rw [first, second]
    exact congrArg some same.content

/-- Where only contents matter, similarity is equality of datasets. -/
theorem simOn_of_dataset {K : Set Bytes} (same : ∀ key ∈ K, dataset db key = dataset db' key) :
    SimOn (fun _ _ => True) K db db' := by
  intro key member
  have equal := same key member
  unfold dataset at equal
  cases first : db.d.get key with
  | none =>
    rw [first] at equal
    rw [Option.map_eq_none_iff.mp equal.symm]
    exact .none
  | some o =>
    rw [first] at equal
    obtain ⟨o', second, content⟩ := Option.map_eq_some_iff.mp equal.symm
    rw [second]
    exact .some ⟨content.symm, trivial⟩

theorem dataset_eq {E : Int → Int → Prop} (sim : SimOn E Set.univ db db') :
    dataset db = dataset db' := funext fun key => sim.dataset_at (Set.mem_univ key)

end NoExpiry

/-! ### The periodic expiry -/

section Cycle

variable {now : Nat → Int} {key : Bytes}

theorem expireBucket_get (n : Nat) (chain : List (HashTable.Entry Bytes Robj)) (d : Dict Robj)
    (kept : ∀ entry ∈ chain, entry.key = key → ∀ i, keyExpired (now i) entry.val = false) :
    (expireBucket now n chain d).2.get key = d.get key := by
  induction chain generalizing n d with
  | nil => rfl
  | cons entry rest ih =>
    unfold expireBucket
    rw [ih _ _ fun other member => kept other (List.mem_cons_of_mem _ member)]
    split
    · rename_i expired
      have other : key ≠ entry.key := fun same => by
        rw [kept entry List.mem_cons_self same.symm n] at expired
        cases expired
      rw [HashTable.Table.get_delete, if_neg other]
    · rfl

theorem expireLoop_get (fuel n cursor : Nat) (d : Dict Robj)
    (unexpired : ∀ o, d.get key = some o → ∀ i, keyExpired (now i) o = false) :
    (expireLoop now fuel n cursor d).2.get key = d.get key := by
  induction fuel generalizing n cursor d with
  | zero => rfl
  | succ fuel ih =>
    unfold expireLoop
    split
    · have bucket : (expireBucket now n (d.chain cursor) d).2.get key = d.get key :=
        expireBucket_get n (d.chain cursor) d fun entry member same =>
          unexpired entry.val (same ▸ d.get_of_mem_chain member)
      dsimp only
      rw [ih _ _ _ (by rwa [bucket]), bucket]
    · rfl

/-- The periodic expiry leaves alone a key that no reading of the clock finds expired. -/
theorem dbExpireCycle_get {db : Db} (unexpired : ∀ i, Unexpired (now i) db key) :
    (dbExpireCycle now db).d.get key = db.d.get key := by
  unfold dbExpireCycle
  split
  · rfl
  · exact expireLoop_get _ _ _ _ fun o found i => unexpired i o found

end Cycle

/-! ### Commands that set no expiry -/

/-- The command has no way to set an expiry: it is none of the commands that write a deadline, or
a `SET` without a time among its options. -/
def timeless (cmd : Command) : Bool :=
  match entryOf cmd with
  | some e =>
    !(deadlines.map Prod.fst).contains e.name ||
      (e.name = text "set" && ((cmd.map cstr).drop 3).all fun a => !isSetExpireOption a)
  | none => true

/-- **Such a command leaves a store without expiries as it is in this respect.** -/
theorem noExpiry_execute {env : Env} {db : Db} {cmd : Command} (none : NoExpiry db)
    (untimed : timeless cmd = true) : NoExpiry (execute env db cmd) := by
  by_cases silent : logged cmd = []
  · exact none.untouched (execute_unlogged silent (none.unexpired _ _))
  -- a store is similar to itself over negative expiries exactly if it has no others
  have self : Alike (fun e _ => e < 0) Set.univ env env db db := by
    refine ⟨by decide, fun key _ => ?_, none.unexpired _ _, none.unexpired _ _⟩
    cases found : db.d.get key with
    | none => exact .none
    | some o => exact .some ⟨rfl, none key o found⟩
  obtain ⟨name, h, found, sound, effect⟩ := logged_inv silent
  have sim : SimOn (fun e _ => e < 0) Set.univ (execute env db cmd) (execute env db cmd) := by
    rcases sound with spop | sim | ⟨deadline, timed, sim⟩
    · refine execute_spop_self silent ?_ self
      unfold isSpop
      rw [found]
      exact decide_eq_true spop
    · rw [effect]
      exact sim (Set.mem_univ _) self
    · rw [effect]
      have named : (deadlines.map Prod.fst).contains name = true :=
        List.contains_iff_mem.mpr (List.mem_map_of_mem timed)
      unfold timeless at untimed
      rw [found] at untimed
      simp only [named, Bool.not_true, Bool.false_or, Bool.and_eq_true, decide_eq_true_eq,
        List.all_eq_true, Bool.not_eq_true'] at untimed
      obtain ⟨rfl, plain⟩ := untimed
      have set : deadline = setCommandDeadline := by simpa [deadlines, text] using timed
      subst set
      exact sim (by rw [setCommandDeadline_untimed plain]; decide) self
  intro key o found
  rcases sim.at (Set.mem_univ key) with ⟨missing, _⟩ | ⟨o', _, present, _, same⟩
  · rw [missing] at found
    cases found
  · rw [present] at found
    cases found
    exact same.expire

/-! ### Runs -/

/-- A live store without expiries and a rebuilt one with the same contents at the keys of `K`, none
of which expires there. -/
structure Mirror (K : Set Bytes) (live replayed : Db) : Prop where
  sim : SimOn (fun _ _ => True) K live replayed
  live : NoExpiry live
  replayed : ∀ key ∈ K, ∀ o, replayed.d.get key = some o → o.expireAt < 0

theorem noExpiry_of_empty {db : Db} (empty : ∀ key, db.d.get key = none) : NoExpiry db := by
  intro key o found
  rw [empty] at found
  cases found

theorem Mirror.of_empty {db db' : Db} (empty : ∀ key, db.d.get key = none)
    (blank : ∀ key, db'.d.get key = none) : Mirror Set.univ db db' := by
  refine ⟨fun key _ => ?_, noExpiry_of_empty empty, fun key _ => noExpiry_of_empty blank key⟩
  rw [empty, blank]
  exact .none

/-- A command is dispatched with success of its append; it asks for no rewrite and, whatever the
clock reads, gives no key an expiry. -/
structure Plain (s : Server) (io : Io) (cmd : Command) : Prop where
  delivered : Deliverable cmd
  appends : io.append = none
  noRewrite : asksRewrite cmd = false
  noExpiry : ∀ env, NoExpiry (execute env s.db cmd)

/-- The commands of the run are plain; children, signals and turns of the loop come as they may. -/
def PlainEvent (s : Server) : Event → Prop
  | .command _ io cmd => Plain s io cmd
  | .child _ _ | .signal | .cron _ _ => True

section Runs

variable {s : Server} {db : Db} {K : Set Bytes}

theorem Mirror.alike {E : Int → Int → Prop} (mirror : Mirror K s.db db) (clean : E (-1) (-1))
    (sim : SimOn E K s.db db) (env env' : Env) : Alike E K env env' s.db db := by
  refine ⟨clean, sim, mirror.live.unexpired K env, fun key member i o found => ?_⟩
  have negative := mirror.replayed key member o found
  simp only [keyExpired, Bool.and_eq_false_iff, decide_eq_false_iff_not]
  omega

/-- A logged command that pops all or nothing keeps a mirrored store similar. -/
theorem Alike.execute {E : Int → Int → Prop} {env env' : Env} {cmd : Command}
    (alike : Alike E K env env' s.db db) (logs : logged cmd ≠ [])
    (whole : popsWhole s.db cmd) (named : arg (cmd.map cstr) 1 ∈ K)
    (times : E (deadline env.now cmd) (deadline env'.now cmd)) :
    SimOn E K (execute env s.db cmd) (execute env' db cmd) := by
  cases spop : isSpop cmd with
  | true => exact execute_spop logs spop (whole spop) alike
  | false => exact execute_logged env env' logs spop named times alike

/-- Executing a plain command and its frame. -/
theorem Mirror.command {env : Env} {io : Io} {cmd : Command} (mirror : Mirror K s.db db)
    (envs : Nat → Env) (plain : Plain s io cmd) (i : Nat) :
    Mirror (if logged cmd = [] then K else synced (popsWhole s.db cmd) K s.db cmd)
      (execute env s.db cmd) (executeAll envs i db (logged cmd)) := by
  by_cases silent : logged cmd = []
  · have kept := execute_unlogged silent (mirror.live.unexpired Set.univ env)
    rw [if_pos silent, silent]
    refine ⟨fun key member => ?_, mirror.live.untouched kept, mirror.replayed⟩
    rw [kept key (Set.mem_univ key)]
    exact mirror.sim key member
  · have frame : logged cmd = [cmd.map cstr] := (logged_eq cmd).resolve_left silent
    have same := mirror.alike trivial mirror.sim env (envs i)
    have contents := SimOn.synced silent same (fun _ => trivial)
      fun whole named => same.execute silent whole named trivial
    -- the replay sets no expiry because the run, with the clock of the replay, would set none
    have signed := mirror.alike Iff.rfl
      (mirror.sim.withSigns mirror.live mirror.replayed) (envs i) (envs i)
    have signs := SimOn.synced silent signed (fun _ => Iff.rfl)
      fun whole named => signed.execute silent whole named Iff.rfl
    rw [if_neg silent, frame]
    show Mirror _ _ (Miniredis.execute (envs i) db (cmd.map cstr))
    rw [execute_cstr]
    exact ⟨contents, plain.noExpiry env, signs.noExpiry (plain.noExpiry (envs i))⟩

theorem reapChildren_db {io : Io} : (reapChildren io s).db = s.db := by
  unfold reapChildren
  split
  · rfl
  · dsimp only
    split
    · exact aofReopen_db
    · rfl

/-- What an event does to the store. -/
def Event.act (db : Db) : Event → Db
  | .command env _ cmd => execute env db cmd
  | .cron now _ => dbExpireCycle now db
  | .child _ _ | .signal => db

theorem step_db (s : Server) (e : Event) : (step s e).db = e.act s.db := by
  cases e with
  | command env io cmd => exact dispatchCommand_db
  | child i move => exact childMove_db i move
  | signal =>
    unfold step
    dsimp only
    split <;> rfl
  | cron now io => exact reapChildren_db

theorem NoExpiry.cycle (none : NoExpiry db) (now : Nat → Int) :
    Untouched Set.univ db (dbExpireCycle now db) := fun key _ =>
  dbExpireCycle_get fun i => none.unexpiredAt (now i) key

theorem alive_eq (none : NoExpiry db) (now : Nat → Int) : alive now db K = K :=
  Set.ext fun key => and_iff_left fun i => none.unexpiredAt (now i) key

theorem Mirror.step {e : Event} (mirror : Mirror K s.db db) (envs : Nat → Env)
    (plain : PlainEvent s e) (i : Nat) :
    Mirror (e.follow popsWhole K s) (step s e).db (executeAll envs i db e.logged) := by
  rw [step_db]
  cases e with
  | command env io cmd =>
    rw [Event.follow, alive_eq mirror.live]
    exact mirror.command envs plain i
  | cron now io =>
    have kept := mirror.live.cycle now
    rw [Event.follow, alive_eq mirror.live]
    refine ⟨fun key member => ?_, mirror.live.untouched kept, mirror.replayed⟩
    rw [Event.act, kept key (Set.mem_univ key)]
    exact mirror.sim key member
  | child | signal => exact mirror

/-- The run and the execution of its log stay in step. -/
theorem Mirror.run {events : List Event} (mirror : Mirror K s.db db) (envs : Nat → Env)
    (plain : Along PlainEvent s events) (i : Nat) :
    Mirror (follow popsWhole K s events) (run s events).db
      (executeAll envs i db (events.flatMap Event.logged)) := by
  induction events generalizing s db i K with
  | nil => exact mirror
  | cons e rest ih =>
    rw [List.flatMap_cons, executeAll_append]
    exact ih (mirror.step envs plain.1 i) plain.2 _

theorem PlainEvent.recorded {e : Event} (plain : PlainEvent s e) : e.Recorded := by
  cases e with
  | command env io cmd => exact ⟨plain.delivered, plain.appends, plain.noRewrite⟩
  | _ => trivial

/-- Without expiries, pops of all members or none put no key out of sync. -/
theorem follow_univ {events : List Event} (none : NoExpiry s.db)
    (plain : Along PlainEvent s events) (whole : Along WholePop s events) :
    follow popsWhole Set.univ s events = Set.univ := by
  induction events generalizing s with
  | nil => rfl
  | cons e rest ih =>
    have nowhere : Mirror ∅ s.db s.db :=
      ⟨fun _ absurd => absurd.elim, none, fun _ absurd => absurd.elim⟩
    have next : NoExpiry (step s e).db := (nowhere.step (fun _ => sampleEnv) plain.1 0).live
    have all : e.follow popsWhole Set.univ s = Set.univ := by
      cases e with
      | command env io cmd =>
        rw [Event.follow, alive_eq none]
        split
        · rfl
        · exact Set.eq_univ_of_forall fun key =>
            .inr ⟨whole.1, .inr ⟨Set.mem_univ _, .inl (Set.mem_univ _)⟩⟩
      | cron now io => exact alive_eq none now
      | child j move => rfl
      | signal => rfl
    rw [follow, all]
    exact ih next plain.2 whole.2

/-- **Replaying the log of a run into an empty store rebuilds the dataset of the run.** -/
theorem aofReplay_run {start : Server} {events : List Event} (restarted : Server)
    (envs : Nat → Env) (opened : Quiet start [])
    (empty : ∀ key, start.db.d.get key = none) (plain : Along PlainEvent start events)
    (noSpop : ∀ e ∈ events, e.isSpop = false) (blank : ∀ key, restarted.db.d.get key = none)
    (file : restarted.disk.aof.contents .file = (run start events).disk.aof.contents .file) :
    (aofReplay envs restarted).1 = 0 ∧
      dataset (aofReplay envs restarted).2.db = dataset (run start events).db := by
  obtain ⟨rc, executed⟩ := aofReplay_log envs opened
    (plain.forall fun _ _ here => here.recorded) file
  have final := (Mirror.of_empty empty blank).run envs plain 0
  have whole : Along WholePop start events :=
    Along.of_forall (fun e member => WholePop.of_other (noSpop e member)) start
  rw [follow_univ (noExpiry_of_empty empty) plain whole] at final
  rw [executed]
  exact ⟨rc, (dataset_eq final.sim).symm⟩

/-- A server restarted after a run of the small server, before it replays the log. -/
def sampleRestart (events : List Event) : Server :=
  { sampleStart false with disk := (run (sampleStart false) events).disk }

theorem sampleRestart_empty (events : List Event) (key : Bytes) :
    (sampleRestart events).db.d.get key = none := sampleStart_empty false key

/-- Requests of the small server that are short and set no expiry. -/
theorem requests_plain {requests : List (List String)} {s : Server} (none : NoExpiry s.db)
    (simple : ∀ words ∈ requests, (words.map text).length ≤ 1000 ∧
      (∀ a ∈ words.map text, a.length ≤ 1000) ∧ asksRewrite (words.map text) = false ∧
      timeless (words.map text) = true) : Along PlainEvent s (requests.map request) := by
  induction requests generalizing s with
  | nil => trivial
  | cons words rest ih =>
    obtain ⟨few, short, noRewrite, untimed⟩ := simple words List.mem_cons_self
    refine ⟨⟨deliverable_of_short few short, rfl, noRewrite,
      fun env => noExpiry_execute none untimed⟩, ih ?_ (List.forall_mem_cons.mp simple).2⟩
    rw [request, step, dispatchCommand_db]
    exact noExpiry_execute none untimed

/-- A write and a failing write. -/
def sampleEvents : List Event := [["SET", "k", "v"], ["INCR", "k"]].map request

theorem aofReplay_run_sample :
    dataset (aofReplay (fun _ => sampleEnv) (sampleRestart sampleEvents)).2.db =
      dataset (run (sampleStart false) sampleEvents).db ∧
    (dispatchCommand sampleEnv .smooth (run (sampleStart false) sampleEvents)
      [text "GET", text "k"]).2.out = replyBulk (text "v") :=
  ⟨(aofReplay_run (sampleRestart sampleEvents) (fun _ => sampleEnv) (sampleStart_quiet false)
    (sampleStart_empty false)
    (requests_plain (noExpiry_of_empty (sampleStart_empty false)) (by decide))
    (by decide) (sampleRestart_empty _) rfl).2, by decide⟩

/-! ### Runs with pops -/

/-- **The replay of a run with pops agrees with it at every key in sync.** A pop that takes some
members of a set and not all puts its key out of sync, until the key is overwritten. -/
theorem aofReplay_spop {start : Server} {events : List Event} (restarted : Server)
    (envs : Nat → Env) (opened : Quiet start [])
    (empty : ∀ key, start.db.d.get key = none) (plain : Along PlainEvent start events)
    (blank : ∀ key, restarted.db.d.get key = none)
    (file : restarted.disk.aof.contents .file = (run start events).disk.aof.contents .file)
    {key : Bytes} (member : key ∈ follow popsWhole Set.univ start events) :
    dataset (aofReplay envs restarted).2.db key = dataset (run start events).db key := by
  have final := (Mirror.of_empty empty blank).run envs plain 0
  rw [(aofReplay_log envs opened (plain.forall fun _ _ here => here.recorded) file).2]
  exact (final.sim.dataset_at member).symm

/-- The member is in the set at the key. -/
def hasMember (db : Db) (key member : Bytes) : Bool :=
  (valueAt setKind db key).any fun s => (s.get member).isSome

theorem hasMember_of_dataset {db db' : Db} {key : Bytes} (same : dataset db key = dataset db' key)
    (member : Bytes) : hasMember db key member = hasMember db' key member := by
  have sets := valueAt_same setKind_lawful same
  unfold hasMember
  generalize valueAt setKind db key = s, valueAt setKind db' key = s' at sets
  cases sets with
  | none => rfl
  | some equal => simp [setKind_same.mp equal member]

/-- The environment of a replay with other random numbers. -/
def otherEnv : Env := { sampleEnv with rand := fun _ => 1 }

/-- One member of two is popped. -/
def popEvents : List Event := [["SADD", "s", "a", "b"], ["SPOP", "s"]].map request

/-- The replay draws the other member. -/
theorem aofReplay_spop_differs :
    dataset (aofReplay (fun _ => otherEnv) (sampleRestart popEvents)).2.db (text "s") ≠
      dataset (run (sampleStart false) popEvents).db (text "s") := by
  intro same
  have drawn : hasMember (aofReplay (fun _ => otherEnv) (sampleRestart popEvents)).2.db (text "s")
      (text "a") = !hasMember (run (sampleStart false) popEvents).db (text "s") (text "a") := by
    decide
  rw [hasMember_of_dataset same] at drawn
  simp at drawn

/-- A set is popped empty and filled again. -/
def popAllEvents : List Event := [["SADD", "s", "a"], ["SPOP", "s"], ["SADD", "s", "b"]].map request

theorem popAllEvents_whole : Along WholePop (sampleStart false) popAllEvents := by
  refine ⟨WholePop.of_other (by decide) _, fun _ count o s counted found set => ?_,
    WholePop.of_other (by decide) _, trivial⟩
  have single : ((step (sampleStart false) (request ["SADD", "s", "a"])).db.d.get (text "s")).map
      (fun o => (setKind.unwrap o.val).map dictSize) = some (some 1) := by decide
  have one : popCount ((["SPOP", "s"].map text).map cstr) = some 1 := by decide
  rw [show arg (List.map cstr (List.map text ["SPOP", "s"])) 1 = text "s" by decide] at found
  rw [found, Option.map_some, set, Option.map_some] at single
  rw [one] at counted
  cases counted
  simp only [Option.some.injEq] at single
  omega

theorem aofReplay_spop_sample :
    dataset (aofReplay (fun _ => otherEnv) (sampleRestart popAllEvents)).2.db (text "s") =
      dataset (run (sampleStart false) popAllEvents).db (text "s") ∧
    hasMember (run (sampleStart false) popAllEvents).db (text "s") (text "b") = true := by
  have empty := noExpiry_of_empty (sampleStart_empty false)
  have plain : Along PlainEvent (sampleStart false) popAllEvents :=
    requests_plain empty (by decide)
  have synced : text "s" ∈ follow popsWhole Set.univ (sampleStart false) popAllEvents := by
    rw [follow_univ empty plain popAllEvents_whole]
    exact Set.mem_univ _
  exact ⟨aofReplay_spop (sampleRestart popAllEvents) _ (sampleStart_quiet false)
    (sampleStart_empty false) plain (sampleRestart_empty _) rfl synced, by decide⟩

end Runs

end Miniredis
