/-
**Files, descriptors and atomic replacement.**

A directory maps paths to inodes and inodes hold bytes; an open descriptor is an inode, so it keeps
naming the same bytes when the path is renamed over. `Phase` is a process that replaces a file
atomically: it opens and truncates a temporary file, writes the new contents piece by piece,
synchronizes, closes and renames. Every operation may fail and the process may be killed at any
time. Two processes that use one temporary file share its inode.
-/

import Mathlib.Logic.Function.Basic
import Mathlib.Tactic

/-- A directory and the contents of its inodes. Every inode named is allocated, and no two paths
name the same one. -/
structure FileSystem (Path : Type) where
  entry : Path → Option Nat
  data : Nat → List UInt8
  next : Nat
  allocated : ∀ path inode, entry path = some inode → inode < next
  unlinked : ∀ path other inode, entry path = some inode → entry other = some inode → path = other

set_option linter.unusedSectionVars false

namespace FileSystem

variable {Path : Type} [DecidableEq Path]

/-- No file at all. -/
def empty : FileSystem Path := ⟨fun _ => none, fun _ => [], 0, by simp, by simp⟩

/-- The bytes found at a path. -/
def contents (fs : FileSystem Path) (path : Path) : Option (List UInt8) :=
  (fs.entry path).map fs.data

/-- Set the bytes of an inode. -/
def setData (fs : FileSystem Path) (inode : Nat) (bytes : List UInt8) : FileSystem Path :=
  { fs with data := Function.update fs.data inode bytes }

/-- A fresh empty file at a path. -/
def link (fs : FileSystem Path) (path : Path) : FileSystem Path where
  entry := Function.update fs.entry path (some fs.next)
  data := Function.update fs.data fs.next []
  next := fs.next + 1
  allocated := by
    intro other inode found
    rw [Function.update_apply] at found
    split at found
    · cases found
      exact Nat.lt_succ_self _
    · exact Nat.lt_succ_of_lt (fs.allocated other inode found)
  unlinked := by
    intro first second inode here there
    rw [Function.update_apply] at here there
    split at here <;> split at there
    · rename_i one two
      rw [one, two]
    · cases here
      exact absurd (fs.allocated _ _ there) (lt_irrefl _)
    · cases there
      exact absurd (fs.allocated _ _ here) (lt_irrefl _)
    · exact fs.unlinked first second inode here there

/-- `open` with `O_CREAT`: the inode at a path, a fresh empty one if there is none. -/
def create (fs : FileSystem Path) (path : Path) : Nat × FileSystem Path :=
  match fs.entry path with
  | some inode => (inode, fs)
  | none => (fs.next, fs.link path)

/-- `open` with `O_CREAT | O_TRUNC`. -/
def openTrunc (fs : FileSystem Path) (path : Path) : Nat × FileSystem Path :=
  ((fs.create path).1, (fs.create path).2.setData (fs.create path).1 [])

/-- `write` on a descriptor opened with `O_APPEND`. -/
def append (fs : FileSystem Path) (inode : Nat) (bytes : List UInt8) : FileSystem Path :=
  fs.setData inode (fs.data inode ++ bytes)

@[simp]
theorem append_entry (fs : FileSystem Path) (inode : Nat) (bytes : List UInt8) :
    (fs.append inode bytes).entry = fs.entry := rfl

@[simp]
theorem append_data (fs : FileSystem Path) (inode : Nat) (bytes : List UInt8) :
    (fs.append inode bytes).data inode = fs.data inode ++ bytes := Function.update_self ..

/-- `bytes` written over `old` at an offset; a gap before it reads as zeros. -/
def overwrite (old : List UInt8) (offset : Nat) (bytes : List UInt8) : List UInt8 :=
  (old ++ List.replicate (offset - old.length) 0).take offset ++ bytes ++
    old.drop (offset + bytes.length)

/-- `write` on a descriptor with an offset. -/
def writeAt (fs : FileSystem Path) (inode offset : Nat) (bytes : List UInt8) : FileSystem Path :=
  fs.setData inode (overwrite (fs.data inode) offset bytes)

/-- `rename` of an existing file over another path. -/
def rename (fs : FileSystem Path) (source target : Path) : FileSystem Path :=
  match present : fs.entry source with
  | none => fs
  | some inode =>
    { fs with
      entry := fun path =>
        if path = target then some inode else if path = source then none else fs.entry path
      allocated := by
        intro path found same
        split_ifs at same
        · cases same
          exact fs.allocated source inode present
        · exact fs.allocated path found same
      unlinked := by
        intro first second found here there
        split_ifs at here there
        · simp_all
        · rename_i moved
          cases here
          exact absurd (fs.unlinked _ _ _ there present) moved
        · rename_i _ moved _
          cases there
          exact absurd (fs.unlinked _ _ _ here present) moved
        · exact fs.unlinked first second found here there }

/-! ### Atomic replacement -/

/-- Where a replacing process stands. -/
inductive Phase where
  /-- About to open the temporary file. -/
  | opening
  /-- Writing at an offset of the open temporary file; with nothing left it synchronizes. -/
  | writing (inode offset : Nat) (left : List UInt8)
  /-- About to close, the writes having succeeded or not. -/
  | closing (ok : Bool)
  | replacing
  | exited (ok : Bool)
deriving DecidableEq

/-- The process is over. -/
def Phase.ended : Phase → Bool
  | .exited _ => true
  | _ => false

/-- One operation of the process: how many bytes a write takes, whether the operation fails, or
that the process is killed before it. -/
inductive Move where
  | go (bytes : Nat) (fails : Bool)
  | kill
deriving DecidableEq

/-- What a replacing process works on. -/
structure Job (Path : Type) where
  temporary : Path
  target : Path
  content : List UInt8

/-- One move of a replacing process. -/
def Phase.move (job : Job Path) (fs : FileSystem Path) : Phase → Move → FileSystem Path × Phase
  | .exited ok, _ => (fs, .exited ok)
  | _, .kill => (fs, .exited false)
  | .opening, .go _ fails =>
    if fails then (fs, .exited false)
    else ((fs.openTrunc job.temporary).2, .writing (fs.openTrunc job.temporary).1 0 job.content)
  | .writing inode offset left, .go bytes fails =>
    if left = [] then (fs, .closing (!fails))
    else if fails then (fs.writeAt inode offset (left.take bytes), .closing false)
    else
      (fs.writeAt inode offset (left.take bytes),
        .writing inode (offset + (left.take bytes).length) (left.drop bytes))
  | .closing ok, .go _ fails => (fs, if ok && !fails then .replacing else .exited false)
  | .replacing, .go _ fails =>
    -- another process that shares the temporary file may have renamed it away
    if fails ∨ fs.entry job.temporary = none then (fs, .exited false)
    else (fs.rename job.temporary job.target, .exited true)

/-- The moves that take a process from a phase to its end when nothing fails. -/
def Phase.rest (job : Job Path) : Phase → List Move
  | .opening => [.go 0 false, .go job.content.length false, .go 0 false, .go 0 false, .go 0 false]
  | .writing _ _ left => [.go left.length false, .go 0 false, .go 0 false, .go 0 false]
  | .closing _ => [.go 0 false, .go 0 false]
  | .replacing => [.go 0 false]
  | .exited _ => []

/-! ### What a replacing process has done -/

/-- The temporary file of a process that nobody disturbs holds what the process has written. -/
def Phase.Holds (job : Job Path) (fs : FileSystem Path) : Phase → Prop
  | .opening => True
  | .writing inode offset left => fs.entry job.temporary = some inode ∧
      offset = (fs.data inode).length ∧ fs.data inode ++ left = job.content
  | .closing ok => ok = true → fs.contents job.temporary = some job.content
  | .replacing => fs.contents job.temporary = some job.content
  | .exited _ => True

section Replacement

variable {job : Job Path} {fs : FileSystem Path} {phase : Phase}

theorem overwrite_end (old bytes : List UInt8) : overwrite old old.length bytes = old ++ bytes := by
  simp [overwrite]

theorem create_entry (path : Path) :
    (fs.create path).2.entry path = some (fs.create path).1 := by
  unfold create
  split
  · assumption
  · exact Function.update_self ..

theorem create_entry_other {path other : Path} (ne : other ≠ path) :
    (fs.create path).2.entry other = fs.entry other := by
  unfold create
  split
  · rfl
  · exact Function.update_of_ne ne ..

theorem create_data {path : Path} {inode : Nat} (old : inode < fs.next) :
    (fs.create path).2.data inode = fs.data inode := by
  unfold create
  split
  · rfl
  · exact Function.update_of_ne (by omega) ..

theorem ne_create {path : Path} {inode : Nat} (old : inode < fs.next)
    (other : fs.entry path ≠ some inode) : inode ≠ (fs.create path).1 := by
  unfold create
  split
  · rename_i found
    intro same
    exact other (found.trans (congrArg some same.symm))
  · exact Nat.ne_of_lt old

theorem create_next (path : Path) : fs.next ≤ (fs.create path).2.next := by
  unfold create
  split
  · exact le_rfl
  · exact Nat.le_succ _

theorem rename_entry {source target : Path} {inode : Nat} (present : fs.entry source = some inode)
    (path : Path) : (fs.rename source target).entry path =
      if path = target then some inode else if path = source then none else fs.entry path := by
  unfold rename
  split
  · rename_i missing
    rw [present] at missing
    cases missing
  · rename_i found there
    rw [present] at there
    cases there
    rfl

theorem rename_data (source target : Path) : (fs.rename source target).data = fs.data := by
  unfold rename
  split <;> rfl

theorem rename_next (source target : Path) : (fs.rename source target).next = fs.next := by
  unfold rename
  split <;> rfl

theorem rename_source {source target : Path} (apart : target ≠ source) :
    (fs.rename source target).entry source = none := by
  cases present : fs.entry source with
  | none =>
    unfold rename
    split
    · exact present
    · rename_i found
      rw [present] at found
      cases found
  | some inode => rw [rename_entry present, if_neg apart.symm, if_pos rfl]

theorem Phase.move_ended (ended : phase.ended = true) (move : Move) :
    phase.move job fs move = (fs, phase) := by
  cases phase with
  | exited ok => cases move <;> rfl
  | _ => cases ended

/-- **A process that nobody disturbs holds what it has written.** -/
theorem Phase.Holds.move (holds : phase.Holds job fs) (move : Move) :
    (phase.move job fs move).2.Holds job (phase.move job fs move).1 := by
  cases phase with
  | exited ok => trivial
  | opening =>
    cases move with
    | kill => trivial
    | go bytes fails =>
      simp only [Phase.move]
      split
      · trivial
      · have emptied : (fs.openTrunc job.temporary).2.data (fs.openTrunc job.temporary).1 = [] :=
          Function.update_self ..
        exact ⟨create_entry job.temporary, by rw [emptied]; rfl, by rw [emptied]; rfl⟩
  | writing inode offset left =>
    obtain ⟨entry, length, content⟩ := holds
    cases move with
    | kill => trivial
    | go bytes fails =>
      simp only [Phase.move]
      split
      · rename_i done
        intro _
        show (fs.entry job.temporary).map fs.data = _
        rw [entry, Option.map_some, ← content, done, List.append_nil]
      split
      · intro failed
        cases failed
      · have written : (fs.writeAt inode offset (left.take bytes)).data inode =
            fs.data inode ++ left.take bytes := by
          rw [length]
          exact (Function.update_self ..).trans (overwrite_end _ _)
        refine ⟨entry, ?_, ?_⟩
        · rw [written, length, List.length_append]
        · rw [written, List.append_assoc, List.take_append_drop, content]
  | closing ok =>
    cases move with
    | kill => trivial
    | go bytes fails =>
      simp only [Phase.move]
      split
      · rename_i both
        simp only [Bool.and_eq_true] at both
        exact holds both.1
      · trivial
  | replacing =>
    cases move with
    | kill => trivial
    | go bytes fails =>
      simp only [Phase.move]
      split <;> trivial

/-- A move changes no other inode that exists. -/
theorem Phase.move_data (holds : phase.Holds job fs) (move : Move) {inode : Nat}
    (old : inode < fs.next) (other : fs.entry job.temporary ≠ some inode) :
    (phase.move job fs move).1.data inode = fs.data inode := by
  cases phase with
  | exited ok => rfl
  | opening =>
    cases move with
    | kill => rfl
    | go bytes fails =>
      simp only [Phase.move]
      split
      · rfl
      · exact (Function.update_of_ne (ne_create old other) ..).trans (create_data old)
  | writing file offset left =>
    obtain ⟨entry, _, _⟩ := holds
    have ne : inode ≠ file := fun same => other (same ▸ entry)
    cases move with
    | kill => rfl
    | go bytes fails =>
      simp only [Phase.move]
      split
      · rfl
      split <;> exact Function.update_of_ne ne ..
  | closing ok => cases move <;> rfl
  | replacing =>
    cases move with
    | kill => rfl
    | go bytes fails =>
      simp only [Phase.move]
      split
      · rfl
      · exact congrFun (rename_data ..) inode

/-- A move either leaves the target where it is or is the rename. -/
theorem Phase.move_target (phase : Phase) (fs : FileSystem Path)
    (apart : job.target ≠ job.temporary) (move : Move) :
    ((phase.move job fs move).1.entry job.target = fs.entry job.target ∧
        ((phase.move job fs move).2 = .exited true → phase = .exited true)) ∨
      (phase = .replacing ∧ (phase.move job fs move).2 = .exited true ∧
        (phase.move job fs move).1 = fs.rename job.temporary job.target) := by
  cases phase with
  | exited ok => exact .inl ⟨rfl, fun same => same⟩
  | opening =>
    cases move with
    | kill => exact .inl ⟨rfl, nofun⟩
    | go bytes fails =>
      simp only [Phase.move]
      split
      · exact .inl ⟨rfl, nofun⟩
      · exact .inl ⟨create_entry_other apart, nofun⟩
  | writing inode offset left =>
    cases move with
    | kill => exact .inl ⟨rfl, nofun⟩
    | go bytes fails =>
      simp only [Phase.move]
      split
      · exact .inl ⟨rfl, nofun⟩
      split <;> exact .inl ⟨rfl, nofun⟩
  | closing ok =>
    cases move with
    | kill => exact .inl ⟨rfl, nofun⟩
    | go bytes fails =>
      refine .inl ⟨rfl, ?_⟩
      simp only [Phase.move]
      split <;> exact nofun
  | replacing =>
    cases move with
    | kill => exact .inl ⟨rfl, nofun⟩
    | go bytes fails =>
      simp only [Phase.move]
      split
      · exact .inl ⟨rfl, nofun⟩
      · exact .inr ⟨trivial, rfl, rfl⟩

/-- **The move that ends a replacement puts the content at the target.** -/
theorem Phase.move_done (apart : job.target ≠ job.temporary) (holds : phase.Holds job fs)
    (before : phase = .exited true → fs.contents job.target = some job.content) (move : Move)
    (done : (phase.move job fs move).2 = .exited true) :
    (phase.move job fs move).1.contents job.target = some job.content := by
  rcases Phase.move_target phase fs apart move with ⟨_, already⟩ | ⟨last, _, renamed⟩
  · have ended := already done
    subst ended
    exact before rfl
  · subst last
    obtain ⟨inode, entry, data⟩ := Option.map_eq_some_iff.mp
      (show (fs.entry job.temporary).map fs.data = some job.content from holds)
    rw [renamed, contents, rename_entry entry, if_pos rfl, rename_data, Option.map_some, data]

/-- A move takes no inode back. -/
theorem Phase.move_next (move : Move) : fs.next ≤ (phase.move job fs move).1.next := by
  cases phase with
  | exited ok => exact le_rfl
  | opening =>
    cases move with
    | kill => exact le_rfl
    | go bytes fails =>
      simp only [Phase.move]
      split
      · exact le_rfl
      · exact create_next job.temporary
  | writing inode offset left =>
    cases move with
    | kill => exact le_rfl
    | go bytes fails =>
      simp only [Phase.move]
      split_ifs <;> exact le_rfl
  | closing ok => cases move <;> exact le_rfl
  | replacing =>
    cases move with
    | kill => exact le_rfl
    | go bytes fails =>
      simp only [Phase.move]
      split
      · exact le_rfl
      · exact (rename_next ..).ge

/-- A move gives the temporary file no inode that existed under another name. -/
theorem Phase.move_temporary (apart : job.target ≠ job.temporary) (move : Move) {inode : Nat}
    (old : inode < fs.next) (other : fs.entry job.temporary ≠ some inode) :
    (phase.move job fs move).1.entry job.temporary ≠ some inode := by
  cases phase with
  | exited ok => exact other
  | opening =>
    cases move with
    | kill => exact other
    | go bytes fails =>
      simp only [Phase.move]
      split
      · exact other
      · intro same
        have created : (fs.create job.temporary).2.entry job.temporary = some inode := same
        rw [create_entry] at created
        exact ne_create old other (Option.some.inj created).symm
  | writing file offset left =>
    cases move with
    | kill => exact other
    | go bytes fails =>
      simp only [Phase.move]
      split_ifs <;> exact other
  | closing ok => cases move <;> exact other
  | replacing =>
    cases move with
    | kill => exact other
    | go bytes fails =>
      simp only [Phase.move]
      split
      · exact other
      · rw [rename_source apart]
        exact nofun

end Replacement

/-! ### Replacement of an open file -/

/-- A process replaces the target while `old`, the inode that was there when it started, stays
open elsewhere: the target is `old` until the rename and another inode, with the content, from
then on. -/
structure Phase.Beside (job : Job Path) (fs : FileSystem Path) (phase : Phase) (old : Nat) :
    Prop where
  holds : phase.Holds job fs
  allocated : old < fs.next
  apart : fs.entry job.temporary ≠ some old
  before : phase ≠ .exited true → fs.entry job.target = some old
  after : phase = .exited true →
    fs.contents job.target = some job.content ∧ fs.entry job.target ≠ some old

section Beside

variable {job : Job Path} {fs : FileSystem Path} {phase : Phase} {old : Nat}

theorem Phase.Beside.start (apart : job.target ≠ job.temporary)
    (there : fs.entry job.target = some old) : Phase.opening.Beside job fs old :=
  ⟨trivial, fs.allocated _ _ there, fun same => apart (fs.unlinked _ _ _ there same),
    fun _ => there, nofun⟩

/-- **A move keeps the file that is open elsewhere, and its bytes.** -/
theorem Phase.Beside.move (apart : job.target ≠ job.temporary) (beside : phase.Beside job fs old)
    (move : Move) :
    (phase.move job fs move).2.Beside job (phase.move job fs move).1 old ∧
      (phase.move job fs move).1.data old = fs.data old := by
  refine ⟨⟨beside.holds.move move, beside.allocated.trans_le (Phase.move_next move),
    Phase.move_temporary apart move beside.allocated beside.apart, fun going => ?_,
    fun done => ⟨Phase.move_done apart beside.holds (fun ended => (beside.after ended).1) move done,
      ?_⟩⟩, Phase.move_data beside.holds move beside.allocated beside.apart⟩
  · rcases Phase.move_target phase fs apart move with ⟨same, _⟩ | ⟨_, ended, _⟩
    · rw [same]
      refine beside.before fun ended => ?_
      subst ended
      exact going rfl
    · exact absurd ended going
  · rcases Phase.move_target phase fs apart move with
      ⟨same, already⟩ | ⟨last, _, renamed⟩
    · rw [same]
      exact (beside.after (already done)).2
    · -- the new target is the temporary file's inode, which `old` is not
      subst last
      obtain ⟨inode, entry, _⟩ := Option.map_eq_some_iff.mp
        (show (fs.entry job.temporary).map fs.data = some job.content from beside.holds)
      rw [renamed, rename_entry entry, if_pos rfl, ← entry]
      exact beside.apart

theorem append_contents_other {path : Path} (bytes : List UInt8)
    (other : fs.entry path ≠ some old) :
    (fs.append old bytes).contents path = fs.contents path := by
  unfold contents
  rw [append_entry]
  cases found : fs.entry path with
  | none => rfl
  | some inode =>
    have ne : inode ≠ old := fun same => other (found.trans (congrArg some same))
    exact congrArg some (Function.update_of_ne ne ..)

/-- Appending to the file that is open elsewhere does not disturb the process. -/
theorem Phase.Beside.append (beside : phase.Beside job fs old) (bytes : List UInt8) :
    phase.Beside job (fs.append old bytes) old := by
  have temporary := append_contents_other bytes beside.apart
  refine ⟨?_, beside.allocated, beside.apart, beside.before, fun done =>
    ⟨(append_contents_other bytes (beside.after done).2).trans (beside.after done).1,
      (beside.after done).2⟩⟩
  cases phase with
  | opening => trivial
  | writing inode offset left =>
    obtain ⟨entry, length, content⟩ := beside.holds
    have ne : inode ≠ old := fun same => beside.apart (same ▸ entry)
    have data : (fs.append old bytes).data inode = fs.data inode := Function.update_of_ne ne ..
    exact ⟨entry, by rw [data]; exact length, by rw [data]; exact content⟩
  | closing ok => exact fun written => temporary.trans (beside.holds written)
  | replacing => exact temporary.trans beside.holds
  | exited ok => trivial

end Beside

/-! ### Undisturbed success -/

/-- No operation of the process has failed. -/
def Phase.sound : Phase → Bool
  | .closing ok | .exited ok => ok
  | .opening | .writing _ _ _ | .replacing => true

/-- The operation succeeds. -/
def Move.succeeds : Move → Bool
  | .go _ fails => !fails
  | .kill => false

theorem Phase.sound_move {job : Job Path} {fs : FileSystem Path} {phase : Phase} {move : Move}
    (holds : phase.Holds job fs) (sound : phase.sound = true) (succeeds : move.succeeds = true) :
    (phase.move job fs move).2.sound = true := by
  cases move with
  | kill => cases succeeds
  | go bytes fails =>
    cases fails with
    | true => cases succeeds
    | false =>
      cases phase with
      | opening => rfl
      | writing inode offset left =>
        simp only [Phase.move, Bool.false_eq_true, if_false]
        split <;> rfl
      | closing ok =>
        cases sound
        rfl
      | replacing =>
        have written : fs.contents job.temporary = some job.content := holds
        have present : fs.entry job.temporary ≠ none := fun missing => by
          rw [contents, missing] at written
          cases written
        simp [Phase.move, present, Phase.sound]
      | exited ok => exact sound

theorem Phase.sound_ended {phase : Phase} (sound : phase.sound = true)
    (ended : phase.ended = true) : phase = .exited true := by
  cases phase with
  | exited ok =>
    cases sound
    rfl
  | _ => cases ended

theorem Phase.failed_ended {phase : Phase} (going : phase ≠ .exited true)
    (ended : phase.ended = true) : phase = .exited false := by
  cases phase with
  | exited ok =>
    cases ok with
    | false => rfl
    | true => exact absurd rfl going
  | _ => cases ended

end FileSystem
