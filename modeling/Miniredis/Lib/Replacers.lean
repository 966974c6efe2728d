/-
**Several processes that replace one file.**

Each process writes its own content to the shared temporary file and renames that over the target.
Nothing keeps them apart, so a process that opens the temporary file truncates what another one is
about to rename.

* `Pool.run_contents`: as long as no process opens the temporary file while another one has it
  written in part or in full and may still rename it, the target holds its old content or the whole
  content of one process at every moment, whatever fails.
* `Pool.move_live`: a process that is still at work can be moved by its place among those at work.
-/

import Miniredis.Lib.FileSystem

namespace FileSystem

variable {Path : Type} [DecidableEq Path] {σ : Type}

/-- A process and the source that it renders. -/
structure Process (σ : Type) where
  source : σ
  phase : Phase

/-- Files and the processes that share them, those that have ended included. -/
structure Pool (Path σ : Type) where
  files : FileSystem Path
  processes : List (Process σ)

/-- What can happen next: a process starts, or one makes a move. -/
inductive Act (σ : Type) where
  | start (source : σ)
  | move (i : Nat) (move : Move)

/-- The paths and contents of the replacements. -/
structure Service (Path σ : Type) where
  temporary : Path
  target : Path
  render : σ → List UInt8

def Service.job (service : Service Path σ) (source : σ) : Job Path :=
  ⟨service.temporary, service.target, service.render source⟩

def Pool.act (service : Service Path σ) (pool : Pool Path σ) : Act σ → Pool Path σ
  | .start source => { pool with processes := pool.processes ++ [⟨source, .opening⟩] }
  | .move i move =>
    match pool.processes[i]? with
    | none => pool
    | some process =>
      let (files, phase) := process.phase.move (service.job process.source) pool.files move
      ⟨files, pool.processes.set i { process with phase := phase }⟩

theorem Pool.act_missing {service : Service Path σ} {pool : Pool Path σ} {i : Nat}
    (missing : pool.processes[i]? = none) (move : Move) :
    pool.act service (.move i move) = pool := by
  simp only [Pool.act, missing]

theorem Pool.act_move {service : Service Path σ} {pool : Pool Path σ} {i : Nat}
    {process : Process σ} (found : pool.processes[i]? = some process) (move : Move) :
    pool.act service (.move i move) =
      ⟨(process.phase.move (service.job process.source) pool.files move).1,
        pool.processes.set i { process with
          phase := (process.phase.move (service.job process.source) pool.files move).2 }⟩ := by
  simp only [Pool.act, found]

def Pool.run (service : Service Path σ) (pool : Pool Path σ) (acts : List (Act σ)) :
    Pool Path σ :=
  acts.foldl (Pool.act service) pool

/-! ### Exclusive runs -/

/-- The process has the temporary file open or written and may still rename it. -/
def Phase.pending : Phase → Bool
  | .writing _ _ _ | .closing true | .replacing => true
  | .opening | .closing false | .exited _ => false

/-- The act does not open the temporary file under a process that may still rename it. -/
def Pool.exclusive (pool : Pool Path σ) : Act σ → Bool
  | .start _ => true
  | .move i move =>
    match pool.processes[i]? with
    | some ⟨_, .opening⟩ =>
      !move.succeeds || pool.processes.all fun process => !process.phase.pending
    | _ => true

/-- Every act of the run is exclusive where it happens. -/
def Pool.exclusively (service : Service Path σ) (pool : Pool Path σ) : List (Act σ) → Bool
  | [] => true
  | act :: rest => pool.exclusive act && (pool.act service act).exclusively service rest

theorem Pool.exclusively_take {service : Service Path σ} {pool : Pool Path σ}
    {acts : List (Act σ)} (exclusively : pool.exclusively service acts = true) (n : Nat) :
    pool.exclusively service (acts.take n) = true := by
  induction acts generalizing pool n with
  | nil => simpa using exclusively
  | cons act rest ih =>
    cases n with
    | zero => rfl
    | succ n =>
      simp only [Pool.exclusively, List.take_succ_cons, Bool.and_eq_true] at exclusively ⊢
      exact ⟨exclusively.1, ih exclusively.2 n⟩

/-! ### The target of an exclusive run -/

section Moves

variable {job : Job Path} {fs : FileSystem Path} {phase : Phase}

omit [DecidableEq Path] in
theorem Phase.holds_of_not_pending (idle : phase.pending = false) : phase.Holds job fs := by
  cases phase with
  | opening => trivial
  | writing inode offset left => cases idle
  | closing ok =>
    rintro rfl
    cases idle
  | replacing => cases idle
  | exited ok => trivial

/-- A process that cannot rename touches the files only by opening. -/
theorem Phase.move_not_pending (idle : phase.pending = false) (move : Move)
    (still : phase = .opening → move.succeeds = false) :
    (phase.move job fs move).1 = fs ∧ (phase.move job fs move).2.pending = false := by
  cases phase with
  | opening =>
    cases move with
    | kill => exact ⟨rfl, rfl⟩
    | go bytes fails =>
      cases fails with
      | false => cases still rfl
      | true => exact ⟨rfl, rfl⟩
  | writing inode offset left => cases idle
  | closing ok =>
    cases ok with
    | true => cases idle
    | false => cases move <;> exact ⟨rfl, rfl⟩
  | replacing => cases idle
  | exited ok => cases move <;> exact ⟨rfl, rfl⟩

/-- **A move leaves the target's content or puts the whole new one in its place.** -/
theorem Phase.move_contents (apart : job.target ≠ job.temporary) (holds : phase.Holds job fs)
    (move : Move) :
    (phase.move job fs move).1.contents job.target = fs.contents job.target ∨
      (phase.move job fs move).1.contents job.target = some job.content := by
  rcases Phase.move_target phase fs apart move with ⟨same, _⟩ | ⟨last, done, _⟩
  · left
    unfold contents
    rw [same]
    cases found : fs.entry job.target with
    | none => rfl
    | some inode =>
      have other : fs.entry job.temporary ≠ some inode := fun there =>
        apart (fs.unlinked _ _ _ found there)
      exact congrArg some (Phase.move_data holds move (fs.allocated _ _ found) other)
  · right
    refine Phase.move_done apart holds (fun ended => ?_) move done
    subst last
    cases ended

end Moves

/-- Whatever a process may still rename is its own content, and at most one process may rename. -/
structure Pool.Sound (service : Service Path σ) (pool : Pool Path σ) : Prop where
  holds : ∀ process ∈ pool.processes,
    process.phase.Holds (service.job process.source) pool.files
  alone : ∀ (i j : Nat) (first second : Process σ), pool.processes[i]? = some first →
    pool.processes[j]? = some second → first.phase.pending = true →
    second.phase.pending = true → i = j

section Run

variable {service : Service Path σ} {pool : Pool Path σ}

/-- What a move finds: the others cannot rename, or the move changes no file. -/
theorem Pool.Sound.others (sound : pool.Sound service) {i : Nat} {process : Process σ}
    (found : pool.processes[i]? = some process) {move : Move}
    (exclusive : pool.exclusive (.move i move) = true) :
    (∀ j other, pool.processes[j]? = some other → j ≠ i → other.phase.pending = false) ∨
      (process.phase.move (service.job process.source) pool.files move).1 = pool.files ∧
        (process.phase.move (service.job process.source) pool.files move).2.pending = false := by
  by_cases busy : process.phase.pending = true
  · left
    intro j other there ne
    by_contra both
    exact ne (sound.alone j i other process there found (by simpa using both) busy)
  · have idle : process.phase.pending = false := by simpa using busy
    by_cases opens : process.phase = .opening ∧ move.succeeds = true
    · left
      intro j other there _
      obtain ⟨source, phase⟩ := process
      obtain ⟨rfl, succeeds⟩ := opens
      simp only [Pool.exclusive, found, succeeds, Bool.not_true, Bool.false_or, List.all_eq_true,
        Bool.not_eq_true'] at exclusive
      exact exclusive other (List.mem_of_getElem? there)
    · right
      refine Phase.move_not_pending idle move fun opening => ?_
      simpa [opening] using opens

theorem Pool.Sound.act (sound : pool.Sound service) {act : Act σ}
    (exclusive : pool.exclusive act = true) : (pool.act service act).Sound service := by
  cases act with
  | start source =>
    refine ⟨fun process member => ?_, fun i j first second here there busy busy' => ?_⟩
    · rcases List.mem_append.mp member with old | new
      · exact sound.holds process old
      · obtain rfl := List.mem_singleton.mp new
        trivial
    · -- the new process is not pending, so both are old ones
      have old : ∀ {k : Nat} {process : Process σ},
          (pool.processes ++ [⟨source, .opening⟩])[k]? = some process →
          process.phase.pending = true → pool.processes[k]? = some process := by
        intro k process found pending
        rw [List.getElem?_append] at found
        split at found
        · exact found
        · obtain rfl := List.mem_singleton.mp (List.mem_of_getElem? found)
          cases pending
      exact sound.alone i j first second (old here busy) (old there busy') busy busy'
  | move i move =>
    cases found : pool.processes[i]? with
    | none => exact (Pool.act_missing found move).symm ▸ sound
    | some process =>
      rw [Pool.act_move found]
      have others := sound.others found exclusive
      have own := (sound.holds process (List.mem_of_getElem? found)).move move
      refine ⟨fun other member => ?_, fun j k first second here there busy busy' => ?_⟩
      · obtain ⟨j, here⟩ := List.mem_iff_getElem?.mp member
        rw [List.getElem?_set] at here
        split at here
        · split at here
          · cases here
            exact own
          · cases here
        · rename_i ne
          rcases others with idle | ⟨same, _⟩
          · exact Phase.holds_of_not_pending (idle j other here (Ne.symm ne))
          · show other.phase.Holds _ (process.phase.move _ pool.files move).1
            rw [same]
            exact sound.holds other (List.mem_of_getElem? here)
      · -- a process that moved is pending only if the others are not
        have moved : ∀ {a b : Nat} {p q : Process σ}, a ≠ b →
            (pool.processes.set i { process with phase :=
              (process.phase.move (service.job process.source) pool.files move).2 })[a]? = some p →
            pool.processes[b]? = some q → b ≠ i → p.phase.pending = true →
            q.phase.pending = true → False := by
          intro a b p q ne first second away pending pending'
          rcases others with idle | ⟨_, still⟩
          · exact absurd (idle b q second away) (by simp [pending'])
          · rw [List.getElem?_set] at first
            split at first
            · split at first
              · cases first
                simp [still] at pending
              · cases first
            · exact ne (sound.alone a b p q first second pending pending')
        by_contra ne
        by_cases away : k = i
        · subst away
          rw [List.getElem?_set_ne (Ne.symm ne)] at here
          exact moved (Ne.symm ne) there here ne busy' busy
        · rw [List.getElem?_set_ne (Ne.symm away)] at there
          exact moved ne here there away busy busy'

/-- A move of a sound pool leaves the target or puts a whole content in its place. -/
theorem Pool.Sound.contents (sound : pool.Sound service)
    (apart : service.target ≠ service.temporary) (act : Act σ) :
    (pool.act service act).files.contents service.target = pool.files.contents service.target ∨
      ∃ process ∈ pool.processes, (pool.act service act).files.contents service.target =
        some (service.render process.source) := by
  cases act with
  | start source => exact .inl rfl
  | move i move =>
    cases found : pool.processes[i]? with
    | none => exact .inl (by rw [Pool.act_missing found])
    | some process =>
      rw [Pool.act_move found]
      have member := List.mem_of_getElem? found
      rcases Phase.move_contents (show (service.job process.source).target ≠ _ from apart)
        (sound.holds process member) move with same | new
      · exact .inl same
      · exact .inr ⟨process, member, new⟩

/-- The sources of the processes: those there are and those started. -/
theorem Pool.act_source {act : Act σ} {process : Process σ}
    (member : process ∈ (pool.act service act).processes) :
    (∃ old ∈ pool.processes, old.source = process.source) ∨ act = .start process.source := by
  cases act with
  | start source =>
    rcases List.mem_append.mp member with old | new
    · exact .inl ⟨process, old, rfl⟩
    · obtain rfl := List.mem_singleton.mp new
      exact .inr rfl
  | move i move =>
    left
    cases found : pool.processes[i]? with
    | none =>
      rw [Pool.act_missing found] at member
      exact ⟨process, member, rfl⟩
    | some moved =>
      rw [Pool.act_move found] at member
      rcases List.mem_or_eq_of_mem_set member with old | rfl
      · exact ⟨process, old, rfl⟩
      · exact ⟨moved, List.mem_of_getElem? found, rfl⟩

/-- **An exclusive run shows the old content or the whole content of one process.** -/
theorem Pool.run_contents (apart : service.target ≠ service.temporary) (sound : pool.Sound service)
    {acts : List (Act σ)} (exclusively : pool.exclusively service acts = true) :
    (pool.run service acts).files.contents service.target = pool.files.contents service.target ∨
      ∃ source, ((∃ process ∈ pool.processes, process.source = source) ∨ .start source ∈ acts) ∧
        (pool.run service acts).files.contents service.target = some (service.render source) := by
  induction acts generalizing pool with
  | nil => exact .inl rfl
  | cons act rest ih =>
    simp only [Pool.exclusively, Bool.and_eq_true] at exclusively
    rcases ih (sound.act exclusively.1) exclusively.2 with kept | ⟨source, origin, shown⟩
    · rcases sound.contents apart act with same | ⟨process, member, new⟩
      · exact .inl (kept.trans same)
      · exact .inr ⟨process.source, .inl ⟨process, member, rfl⟩, kept.trans new⟩
    · refine .inr ⟨source, ?_, shown⟩
      rcases origin with ⟨process, member, rfl⟩ | started
      · rcases Pool.act_source member with old | rfl
        · exact .inl old
        · exact .inr List.mem_cons_self
      · exact .inr (List.mem_cons_of_mem _ started)

end Run

/-! ### The processes at work -/

/-- The processes that have not ended. -/
def Pool.live (pool : Pool Path σ) : List (Process σ) :=
  pool.processes.filter fun process => !process.phase.ended

theorem Pool.live_start (service : Service Path σ) (pool : Pool Path σ) (source : σ) :
    (pool.act service (.start source)).live = pool.live ++ [⟨source, .opening⟩] := by
  simp [Pool.act, Pool.live, Phase.ended]

/-- **A process at work moves in its place among those at work.** -/
theorem Pool.move_live (service : Service Path σ) {pool : Pool Path σ}
    {left right : List (Process σ)} {process : Process σ}
    (here : pool.live = left ++ process :: right) (move : Move) :
    ∃ i, (pool.act service (.move i move)).files =
        (process.phase.move (service.job process.source) pool.files move).1 ∧
      (pool.act service (.move i move)).live =
        left ++ ([{ process with phase := (process.phase.move (service.job process.source)
          pool.files move).2 }].filter fun process => !process.phase.ended) ++ right := by
  obtain ⟨front, tail, split, kept, rest⟩ := List.filter_eq_append_iff.mp here
  obtain ⟨ended, back, splitTail, gone, _, after⟩ := List.filter_eq_cons_iff.mp rest
  have found : pool.processes[front.length + ended.length]? = some process := by
    rw [split, splitTail, ← List.append_assoc, ← List.length_append,
      List.getElem?_append_right le_rfl, Nat.sub_self]
    rfl
  have blank : ended.filter (fun process => !process.phase.ended) = [] :=
    List.filter_eq_nil_iff.mpr fun other member => by simpa using gone other member
  refine ⟨front.length + ended.length, by rw [Pool.act_move found], ?_⟩
  rw [Pool.act_move found, Pool.live]
  simp only
  rw [split, splitTail, ← List.append_assoc, ← List.length_append, List.set_append_right _ _ le_rfl,
    Nat.sub_self, List.set_cons_zero, List.filter_append, List.filter_append, kept, blank,
    List.append_nil, ← List.singleton_append, List.filter_append, after, List.append_assoc]

end FileSystem
