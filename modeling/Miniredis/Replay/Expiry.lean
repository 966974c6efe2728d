/-
**Expiries and the log.**

The log holds no expiries: neither the lazy nor the periodic one writes a frame. A replay gives
the relative deadlines anew, so it meets keys that had already expired when the run met them. A
key is in sync as long as it has not expired in the run, and again from the moment it is set or
deleted whatever it held; the replay agrees with the run at the keys in sync (`aofReplay_expiry`).
-/

import Miniredis.Replay.Refinement

namespace Miniredis

/-! ### Deadlines of a replay -/

/-- A clock standing at `now` has not reached the deadline, or there is none. -/
def Ahead (now deadline : Int) : Prop := deadline < 0 ∨ now < deadline

/-- The deadline that the command writes when it is replayed at `now` is still ahead. -/
def lasting (now : Int) (_ : Db) (cmd : Command) : Prop := Ahead now (deadline (fun _ => now) cmd)

section Tracks

variable {now : Int} {K : Set Bytes} {s : Server} {db : Db} {envs : Nat → Env}

theorem Ahead.unexpired {o : Robj} (ahead : Ahead now o.expireAt) : keyExpired now o = false := by
  unfold Ahead at ahead
  simp only [keyExpired, Bool.and_eq_false_iff, decide_eq_false_iff_not]
  omega

/-- The contents agree at the keys of `K`, and no deadline there is reached in the replay. -/
def Tracks (now : Int) (K : Set Bytes) (live replayed : Db) : Prop :=
  SimOn (fun _ deadline => Ahead now deadline) K live replayed

theorem Tracks.alive (tracks : Tracks now K s.db db) (clock : Nat → Int) :
    Tracks now (alive clock s.db K) s.db db := fun key member => tracks key member.1

/-- A command meets no expired object at the keys that are alive. -/
theorem Tracks.alike (tracks : Tracks now K s.db db) (env : Env) {env' : Env}
    (still : ∀ j, env'.now j = now) :
    Alike (fun _ deadline => Ahead now deadline) (Miniredis.alive env.now s.db K) env env' s.db
      db := by
  refine ⟨.inl (by decide), tracks.alive env.now, fun key member => member.2,
    fun key member j o found => ?_⟩
  rcases tracks.at member.1 with ⟨_, missing⟩ | ⟨_, o', _, present, same⟩
  · rw [missing] at found
    cases found
  · rw [present] at found
    cases found
    rw [still j]
    exact same.expire.unexpired

/-- Executing a command at any time, and its frame at `now`. -/
theorem Tracks.command {cmd : Command} (tracks : Tracks now K s.db db) (env : Env)
    (still : ∀ i j, (envs i).now j = now) (noSpop : isSpop cmd = false) (i : Nat) :
    Tracks now
      (if logged cmd = [] then Miniredis.alive env.now s.db K
        else synced (lasting now s.db cmd) (Miniredis.alive env.now s.db K) s.db cmd)
      (execute env s.db cmd) (executeAll envs i db (logged cmd)) := by
  have alike := tracks.alike env (still i)
  by_cases silent : logged cmd = []
  · rw [if_pos silent, silent]
    intro key member
    rw [execute_unlogged silent alike.first key member]
    exact alike.sim key member
  · have frame : logged cmd = [cmd.map cstr] := (logged_eq cmd).resolve_left silent
    have clock : (envs i).now = fun _ => now := funext (still i)
    rw [if_neg silent, frame]
    show Tracks now _ _ (execute (envs i) db (cmd.map cstr))
    rw [execute_cstr]
    refine SimOn.synced silent alike (fun steady => ?_) fun steady named =>
      execute_logged env (envs i) silent noSpop named ?_ alike
    all_goals
      rw [clock]
      exact steady

theorem Tracks.step {e : Event} (tracks : Tracks now K s.db db)
    (still : ∀ i j, (envs i).now j = now) (noSpop : e.isSpop = false) (i : Nat) :
    Tracks now (e.follow (lasting now) K s) (step s e).db (executeAll envs i db e.logged) := by
  rw [step_db]
  cases e with
  | command env io cmd => exact tracks.command env still noSpop i
  | cron clock io =>
    intro key member
    rw [Event.act, dbExpireCycle_get member.2]
    exact tracks key member.1
  | child | signal => exact tracks

theorem Tracks.run {events : List Event} (tracks : Tracks now K s.db db)
    (still : ∀ i j, (envs i).now j = now) (noSpop : ∀ e ∈ events, e.isSpop = false) (i : Nat) :
    Tracks now (follow (lasting now) K s events) (run s events).db
      (executeAll envs i db (events.flatMap Event.logged)) := by
  induction events generalizing s db i K with
  | nil => exact tracks
  | cons e rest ih =>
    rw [List.flatMap_cons, executeAll_append]
    exact ih (tracks.step still (noSpop e List.mem_cons_self) i)
      (List.forall_mem_cons.mp noSpop).2 _

end Tracks

/-! ### Replaying at a later time -/

/-- **The replay at any time agrees with the run at every key in sync.** The clock of the run is
arbitrary; a key that expires in the run, or whose deadline is reached in the replay, is out of
sync until it is overwritten. -/
theorem aofReplay_expiry {start : Server} {events : List Event} (restarted : Server)
    (envs : Nat → Env) (opened : Quiet start []) (empty : ∀ key, start.db.d.get key = none)
    (recorded : ∀ e ∈ events, e.Recorded) (noSpop : ∀ e ∈ events, e.isSpop = false)
    (blank : ∀ key, restarted.db.d.get key = none)
    (file : restarted.disk.aof.contents .file = (run start events).disk.aof.contents .file)
    {now : Int} (still : ∀ i j, (envs i).now j = now) {key : Bytes}
    (member : key ∈ follow (lasting now) Set.univ start events) :
    dataset (aofReplay envs restarted).2.db key = dataset (run start events).db key := by
  have before : Tracks now Set.univ start.db restarted.db := fun key _ => by
    rw [empty, blank]
    exact .none
  rw [(aofReplay_log envs opened recorded file).2]
  exact (before.run still noSpop 0).dataset_at member |>.symm

/-- The small server's surroundings at a time. -/
def sampleEnvAt (time : Int) : Env := { sampleEnv with now := fun _ => time }

/-- A client's command at a time. -/
def requestAt (time : Int) (words : List String) : Event :=
  .command (sampleEnvAt time) .smooth (words.map text)

/-- `SETNX` finds its key expired. -/
def lapseEvents : List Event :=
  [requestAt 0 ["SET", "k", "v", "EX", "1"], requestAt 2000 ["SETNX", "k", "w"]]

/-- The replay finds the key alive again and keeps the old value, where the run left a new value
without an expiry. -/
theorem aofReplay_expiry_differs :
    ((run (sampleStart false) lapseEvents).db.d.get (text "k")).map (·.expireAt) = some (-1) ∧
    dataset (aofReplay (fun _ => sampleEnvAt 3000) (sampleRestart lapseEvents)).2.db (text "k") ≠
      dataset (run (sampleStart false) lapseEvents).db (text "k") := by
  refine ⟨by decide, fun same => ?_⟩
  have values := valueAt_same stringKind_lawful same
  have replayed : valueAt stringKind
      (aofReplay (fun _ => sampleEnvAt 3000) (sampleRestart lapseEvents)).2.db (text "k") =
      some (text "v") := by decide
  have live : valueAt stringKind (run (sampleStart false) lapseEvents).db (text "k") =
      some (text "w") := by decide
  rw [replayed, live] at values
  cases values with
  | some equal => exact absurd (stringKind_same.mp equal) (by decide)

/-- A key expires and is set again. -/
def renewEvents : List Event :=
  [requestAt 0 ["SET", "k", "v", "EX", "1"], requestAt 2000 ["GET", "k"],
    requestAt 2000 ["SET", "k", "w"]]

theorem renewEvents_recorded : ∀ e ∈ renewEvents, e.Recorded := by
  have short : ∀ words ∈ [["SET", "k", "v", "EX", "1"], ["GET", "k"], ["SET", "k", "w"]],
      (words.map text).length ≤ 1000 ∧ (∀ a ∈ words.map text, a.length ≤ 1000) ∧
        asksRewrite (words.map text) = false := by decide
  intro e member
  simp only [renewEvents, List.mem_cons, List.not_mem_nil, or_false] at member
  rcases member with rfl | rfl | rfl <;>
    exact ⟨deliverable_of_short (short _ (by simp)).1 (short _ (by simp)).2.1, rfl,
      (short _ (by simp)).2.2⟩

theorem aofReplay_expiry_sample :
    dataset (aofReplay (fun _ => sampleEnvAt 3000) (sampleRestart renewEvents)).2.db (text "k") =
      dataset (run (sampleStart false) renewEvents).db (text "k") ∧
    valueAt stringKind (run (sampleStart false) renewEvents).db (text "k") =
      some (text "w") := by
  have synced : text "k" ∈ follow (lasting 3000) Set.univ (sampleStart false) renewEvents := by
    -- the last command overwrites the key
    refine .inr ⟨.inl (by decide), .inl ⟨by decide, ?_⟩⟩
    exact (Set.mem_singleton _ : text "k" ∈ ({text "k"} : Set Bytes))
  exact ⟨aofReplay_expiry (sampleRestart renewEvents) _ (sampleStart_quiet false)
    (sampleStart_empty false) renewEvents_recorded (by decide) (sampleRestart_empty _) rfl
    (fun _ _ => rfl) synced, by decide⟩

end Miniredis
