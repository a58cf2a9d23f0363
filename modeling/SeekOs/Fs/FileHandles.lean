import SeekOs.Fs.FileTable
import SeekOs.Lib.Runs

/-!
# Who holds an open file

The handle that `vfs_open` returns names that call for good, also in the tables
that forks copy it into.  `vfs_copy` counts a copy in the record of the parent
and clones the record with its count, while `vfs_close` counts down the record
of the calling task alone; and the clone has no private data.  So a handle that
went through a fork is not closed by the first `vfs_close`, and files whose
private data is needed cannot be read through it.

As long as only files that were not copied are closed, and only files that are
read without private data are copied, every opened file is closed once, by its
last holder.
-/

namespace SeekOs.Fs

open SeekOs.Base SeekOs.Lib Function List Option FileTables

inductive FileOp where
  | vfsOpen (task : Nat) (cwd path : Text) (openmode : OpenMode)
  | vfsOpenConsole (task : Nat) (cwd path : Text) (fh : Int)
  | fork (parent child : Nat)
  | vfsClose (task : Nat) (fh : Int)
  | vfsRead (task : Nat) (fh len : Int)
  | vfsWrite (task : Nat) (fh : Int) (bytes : List UInt8)
  | vfsLseek (task : Nat) (fh offset : Int) (wence : Wence)

namespace FileTables

variable {φ ι δ : Type*}
variable {task file other dest src : Nat} {fh result : Int} {record : VfsFile ι δ}

section Step

variable (lookup : ι → Text → LookupResult ι) (ops : FileOps φ ι δ)

/-- One call.  A task opens its consoles once, and a forked task starts with an
empty list. -/
def step (tables : FileTables φ ι δ) : FileOp → Option (FileTables φ ι δ)
  | .vfsOpen task cwd path openmode =>
    (tables.vfsOpen ops lookup task cwd path openmode).map Prod.fst
  | .vfsOpenConsole task cwd path fh =>
    if 0 ≤ fh ∧ fh ≤ 2 ∧ tables.findFile task fh = none then
      (tables.vfsOpenConsole ops lookup task cwd path fh).map Prod.fst
    else
      none
  | .fork parent child =>
    if tables.openFiles child = [] then
      some (tables.vfsCopy child parent)
    else
      none
  | .vfsClose task fh => (tables.vfsClose ops task fh).map Prod.fst
  | .vfsRead task fh len => (tables.vfsRead ops task fh len).map Prod.fst
  | .vfsWrite task fh bytes =>
    (tables.vfsWrite ops task fh bytes).map Prod.fst
  | .vfsLseek task fh offset wence =>
    (tables.vfsLseek ops task fh offset wence).map Prod.fst

end Step

section

variable (tables : FileTables φ ι δ)

/-- A file of `vfs_open` with the given handle is in the list of a task. -/
def Held (fh : Int) : Prop :=
  ∃ task, ∃ file ∈ tables.openFiles task,
    (tables.files file).isConsole = false ∧ tables.handle file = fh

/-- How often a file of `vfs_open` with the given handle was closed in its file
system. -/
def closes (fh : Int) : Nat :=
  tables.closed.countP fun file =>
    !(tables.files file).isConsole && decide (tables.handle file = fh)

/-- `vfs_open` has returned the handle. -/
def Issued (fh : Int) : Prop :=
  vfsMinHandle < fh ∧ fh ≤ tables.vfsNextHandleCount

/-- The records are where they belong: in one list, under a handle that is
unique there, and alone under their handle while their count is one. -/
structure Placed : Prop where
  listed_lt : ∀ {task file}, file ∈ tables.openFiles task → file < tables.fileCount
  closed_lt : ∀ {file}, file ∈ tables.closed → file < tables.fileCount
  one_list : ∀ {first second file}, file ∈ tables.openFiles first →
    file ∈ tables.openFiles second → first = second
  handles : ∀ task, ((tables.openFiles task).map tables.handle).Nodup
  consoles : ∀ {task file}, file ∈ tables.openFiles task →
    (tables.files file).isConsole = true → tables.handle file ≤ 2
  counted : ∀ {task file}, file ∈ tables.openFiles task → 1 ≤ (tables.files file).count
  alone : ∀ {first second file other},
    file ∈ tables.openFiles first → other ∈ tables.openFiles second →
    (tables.files file).isConsole = false →
    (tables.files other).isConsole = false →
    tables.handle other = tables.handle file →
    (tables.files file).count ≤ 1 → other = file

/-- Every handle is held and not closed yet, or closed once and not held. -/
structure Accounted : Prop where
  issued : ∀ fh, tables.Issued fh →
    tables.Held fh ∧ tables.closes fh = 0 ∨ ¬tables.Held fh ∧ tables.closes fh = 1
  unissued : ∀ fh, ¬tables.Issued fh → ¬tables.Held fh ∧ tables.closes fh = 0

structure Sound : Prop where
  placed : tables.Placed
  accounted : tables.Accounted
  next_ge : vfsMinHandle ≤ tables.vfsNextHandleCount

end

variable {tables : FileTables φ ι δ}

theorem sound_boot (vfs : Vfs ι) (mounted : φ) (blank : VfsFile ι δ) :
    (boot vfs mounted blank).Sound := by
  have unheld : ∀ fh, ¬(boot vfs mounted blank).Held fh := by
    rintro fh ⟨task, file, listed, _⟩
    simp [boot] at listed
  refine ⟨⟨?_, ?_, ?_, ?_, ?_, ?_, ?_⟩, ⟨?_, ?_⟩, le_refl _⟩
  · intro task file listed
    simp [boot] at listed
  · intro file closed
    simp [boot] at closed
  · intro first second file listed
    simp [boot] at listed
  · intro task
    exact nodup_nil
  · intro task file listed
    simp [boot] at listed
  · intro task file listed
    simp [boot] at listed
  · intro first second file other listed
    simp [boot] at listed
  · intro fh issued
    exact absurd issued.2 (not_le.mpr issued.1)
  · intro fh _
    exact ⟨unheld fh, rfl⟩

/-! ## Searching a list -/

theorem findFile_listed (found : tables.findFile task fh = some file) :
    file ∈ tables.openFiles task ∧ tables.handle file = fh := by
  refine ⟨List.mem_of_find?_eq_some found, ?_⟩
  simpa using List.find?_some found

theorem Placed.findFile_eq (placed : tables.Placed) (listed : file ∈ tables.openFiles task) :
    tables.findFile task (tables.handle file) = some file := by
  cases found : tables.findFile task (tables.handle file) with
  | none =>
    have missing := List.find?_eq_none.mp found file listed
    simp at missing
  | some other =>
    obtain ⟨otherListed, same⟩ := findFile_listed found
    rw [inj_on_of_nodup_map (placed.handles task) otherListed listed same]

/-! ## What the calls do to the tables -/

/-- Two tables with the same records up to private data. -/
structure Alike (tables after : FileTables φ ι δ) : Prop where
  openFiles : after.openFiles = tables.openFiles
  closed : after.closed = tables.closed
  fileCount : after.fileCount = tables.fileCount
  handle : ∀ file, after.handle file = tables.handle file
  isConsole : ∀ file, (after.files file).isConsole = (tables.files file).isConsole
  count : ∀ file, (after.files file).count = (tables.files file).count

/-- A file was closed and taken from the list of a task. -/
structure Disposed (tables after : FileTables φ ι δ) (task file : Nat) : Prop where
  openFiles : after.openFiles = update tables.openFiles task
    ((tables.openFiles task).erase file)
  closed : after.closed = file :: tables.closed
  freed : after.freed = file :: tables.freed
  fileCount : after.fileCount = tables.fileCount
  next : after.vfsNextHandleCount = tables.vfsNextHandleCount
  handle : ∀ other, after.handle other = tables.handle other
  isConsole : ∀ other, (after.files other).isConsole = (tables.files other).isConsole
  count : ∀ other, other ≠ file → (after.files other).count = (tables.files other).count

variable {after : FileTables φ ι δ} {ops : FileOps φ ι δ} {owner : Nat} {openmode : OpenMode}

theorem addCount_count (file : Nat) (change : Int) :
    ((tables.addCount file change).files file).count = (tables.files file).count + change := by
  simp [addCount, updateFile]

theorem addCount_files {change : Int} (different : other ≠ file) :
    (tables.addCount file change).files other = tables.files other := by
  simp [addCount, updateFile, different]

theorem addCount_view (file : Nat) (change : Int) (other : Nat) :
    ((tables.addCount file change).files other).toFsFile = (tables.files other).toFsFile ∧
      ((tables.addCount file change).files other).fInode = (tables.files other).fInode := by
  by_cases same : other = file
  · subst other
    simp [addCount, updateFile]
  · simp [addCount, updateFile, same]

theorem addCount_handle (file : Nat) (change : Int) (other : Nat) :
    (tables.addCount file change).handle other = tables.handle other := by
  rw [handle, (addCount_view file change other).1, handle]

theorem addCount_isConsole (file : Nat) (change : Int) (other : Nat) :
    ((tables.addCount file change).files other).isConsole = (tables.files other).isConsole := by
  rw [(addCount_view file change other).1]

theorem alike_setPrivate (tables : FileTables φ ι δ) (mounted : φ)
    (file : Nat) (contents : FilePrivate δ) :
    Alike tables (tables.setPrivate mounted file contents) := by
  have kept : ∀ other,
      ((tables.setPrivate mounted file contents).files other).fHandle =
          (tables.files other).fHandle ∧
        ((tables.setPrivate mounted file contents).files other).isConsole =
          (tables.files other).isConsole ∧
        ((tables.setPrivate mounted file contents).files other).count =
          (tables.files other).count := by
    intro other
    by_cases same : other = file
    · subst other
      simp [setPrivate, updateFile]
    · simp [setPrivate, updateFile, same]
  exact ⟨rfl, rfl, rfl, fun other => (kept other).1,
    fun other => (kept other).2.1, fun other => (kept other).2.2⟩

theorem disposed_of_dispose (done : tables.dispose ops task file = some (after, result)) :
    Disposed tables after task file := by
  obtain ⟨⟨mounted, closing⟩, _, same⟩ := map_eq_some_iff.mp done
  cases same
  exact ⟨rfl, rfl, rfl, rfl, rfl, fun _ => rfl, fun _ => rfl, fun _ _ => rfl⟩

/-- `vfs_close` finds no file, counts a file down, or disposes of it. -/
theorem vfsClose_cases (done : tables.vfsClose ops task fh = some (after, result)) :
    tables.findFile task fh = none ∧ after = tables ∧ result = -1 ∨
      ∃ file, tables.findFile task fh = some file ∧
        (1 < (tables.files file).count ∧ after = tables.addCount file (-1) ∧ result = 0 ∨
          (tables.files file).count ≤ 1 ∧ Disposed tables after task file) := by
  cases found : tables.findFile task fh with
  | none =>
    simp only [vfsClose, found, Option.some.injEq, Prod.mk.injEq] at done
    exact .inl ⟨rfl, done.1.symm, done.2.symm⟩
  | some file =>
    refine .inr ⟨file, rfl, ?_⟩
    simp only [vfsClose, found] at done
    by_cases more : 1 < (tables.files file).count
    · rw [if_pos (by simpa [addCount_count] using more)] at done
      cases done
      exact .inl ⟨more, rfl, rfl⟩
    · rw [if_neg (by simpa [addCount_count] using more)] at done
      have disposed := disposed_of_dispose done
      refine .inr ⟨not_lt.mp more, disposed.openFiles, disposed.closed,
        disposed.freed, disposed.fileCount, disposed.next, ?_, ?_, ?_⟩
      · intro other
        rw [disposed.handle, addCount_handle]
      · intro other
        rw [disposed.isConsole, addCount_isConsole]
      · intro other different
        rw [disposed.count other different, addCount_files different]

/-! ## What keeps the records in their places -/

/-- A step that makes no record, lists none that was not listed there, and
lowers no count keeps the places. -/
private theorem Placed.of_fewer (placed : tables.Placed)
    (listed : ∀ {task file}, file ∈ after.openFiles task →
      file ∈ tables.openFiles task ∧ (tables.files file).count ≤ (after.files file).count)
    (handles : ∀ task, ((after.openFiles task).map after.handle).Nodup)
    (closed : ∀ {file}, file ∈ after.closed → file < tables.fileCount)
    (fileCount : after.fileCount = tables.fileCount)
    (handle : ∀ file, after.handle file = tables.handle file)
    (isConsole : ∀ file, (after.files file).isConsole = (tables.files file).isConsole) :
    after.Placed := by
  refine ⟨?_, ?_, ?_, handles, ?_, ?_, ?_⟩
  · intro task file inList
    rw [fileCount]
    exact placed.listed_lt (listed inList).1
  · intro file isClosed
    rw [fileCount]
    exact closed isClosed
  · intro first second file left right
    exact placed.one_list (listed left).1 (listed right).1
  · intro task file inList
    rw [isConsole, handle]
    exact placed.consoles (listed inList).1
  · intro task file inList
    exact (placed.counted (listed inList).1).trans (listed inList).2
  · intro first second file other left right
    simp only [isConsole, handle]
    intro fileOpened otherOpened same single
    exact placed.alone (listed left).1 (listed right).1 fileOpened otherOpened
      same ((listed left).2.trans single)

theorem Placed.of_alike (placed : tables.Placed) (alike : Alike tables after) : after.Placed := by
  apply placed.of_fewer _ _ _ alike.fileCount alike.handle alike.isConsole
  · intro task file listed
    rw [alike.openFiles] at listed
    exact ⟨listed, (alike.count file).ge⟩
  · intro task
    rw [alike.openFiles, funext alike.handle]
    exact placed.handles task
  · intro file closed
    rw [alike.closed] at closed
    exact placed.closed_lt closed

private theorem Disposed.listed_iff (disposed : Disposed tables after task file)
    (placed : tables.Placed) (listed : file ∈ tables.openFiles task)
    :
    other ∈ after.openFiles owner ↔ other ∈ tables.openFiles owner ∧ other ≠ file := by
  have nodup : (tables.openFiles task).Nodup := List.Nodup.of_map _ (placed.handles task)
  rw [disposed.openFiles]
  by_cases same : owner = task
  · subst owner
    rw [update_self, nodup.mem_erase_iff, and_comm]
  · rw [update_of_ne same]
    constructor
    · intro elsewhere
      refine ⟨elsewhere, ?_⟩
      rintro rfl
      exact same (placed.one_list elsewhere listed)
    · exact fun elsewhere => elsewhere.1

theorem Placed.of_disposed (placed : tables.Placed) (listed : file ∈ tables.openFiles task)
    (disposed : Disposed tables after task file) :
    after.Placed := by
  have members : ∀ {owner other}, other ∈ after.openFiles owner ↔
      other ∈ tables.openFiles owner ∧ other ≠ file :=
    disposed.listed_iff placed listed
  apply placed.of_fewer _ _ _ disposed.fileCount disposed.handle disposed.isConsole
  · intro owner other left
    exact ⟨(members.mp left).1, (disposed.count other (members.mp left).2).ge⟩
  · intro owner
    rw [funext disposed.handle, disposed.openFiles]
    by_cases same : owner = task
    · subst owner
      rw [update_self]
      exact (placed.handles task).sublist (erase_sublist.map tables.handle)
    · rw [update_of_ne same]
      exact placed.handles owner
  · intro other closed
    rw [disposed.closed] at closed
    rcases mem_cons.mp closed with rfl | earlier
    · exact placed.listed_lt listed
    · exact placed.closed_lt earlier

private theorem listed_addFile : other ∈ (tables.addFile task record).openFiles owner ↔
      other ∈ tables.openFiles owner ∨ owner = task ∧ other = tables.fileCount := by
  by_cases same : owner = task
  · subst owner
    simp [addFile, dlistAddPrev]
  · simp [addFile, same]

private theorem files_addFile_old (old : file < tables.fileCount) :
    (tables.addFile task record).files file = tables.files file := by
  simp [addFile, update_of_ne old.ne]

private theorem files_addFile_new :
    (tables.addFile task record).files tables.fileCount = record := by
  simp [addFile]

/-- A new record keeps the places if its handle is new in the list, and every
record under its handle is counted twice. -/
theorem Placed.addFile (placed : tables.Placed)
    (newHandle : ∀ file ∈ tables.openFiles task, tables.handle file ≠ record.fHandle)
    (console : record.isConsole = true → record.fHandle ≤ 2)
    (positive : 1 ≤ record.count)
    (shared : ∀ owner, ∀ file ∈ tables.openFiles owner,
      (tables.files file).isConsole = false → record.isConsole = false →
      tables.handle file = record.fHandle →
      1 < (tables.files file).count ∧ 1 < record.count) :
    (tables.addFile task record).Placed := by
  have notListed : ∀ owner, tables.fileCount ∉ tables.openFiles owner :=
    fun owner listed => (placed.listed_lt listed).ne rfl
  refine ⟨?_, ?_, ?_, ?_, ?_, ?_, ?_⟩
  · intro owner file listed
    rcases listed_addFile.mp listed with old | ⟨_, rfl⟩
    · exact (placed.listed_lt old).trans (Nat.lt_succ_self _)
    · exact Nat.lt_succ_self _
  · intro file closed
    exact (placed.closed_lt closed).trans (Nat.lt_succ_self _)
  · intro first second file left right
    rcases listed_addFile.mp left with oldLeft | ⟨rfl, rfl⟩
    · rcases listed_addFile.mp right with oldRight | ⟨_, rfl⟩
      · exact placed.one_list oldLeft oldRight
      · exact absurd oldLeft (notListed first)
    · rcases listed_addFile.mp right with oldRight | ⟨rfl, _⟩
      · exact absurd oldRight (notListed second)
      · rfl
  · intro owner
    have kept : (tables.openFiles owner).map (tables.addFile task record).handle =
        (tables.openFiles owner).map tables.handle := by
      apply map_congr_left
      intro file listed
      simp only [handle, files_addFile_old (placed.listed_lt listed)]
    by_cases same : owner = task
    · subst owner
      have appended : (tables.addFile task record).openFiles task =
          tables.openFiles task ++ [tables.fileCount] := by
        simp [FileTables.addFile, dlistAddPrev]
      have newest : (tables.addFile task record).handle tables.fileCount = record.fHandle := by
        simp only [handle, files_addFile_new]
      rw [appended, map_append, kept, nodup_append]
      refine ⟨placed.handles task, nodup_singleton _, ?_⟩
      intro fh listed other isNew
      obtain ⟨file, inList, rfl⟩ := mem_map.mp listed
      rw [map_singleton, mem_singleton, newest] at isNew
      rw [isNew]
      exact newHandle file inList
    · have unchanged : (tables.addFile task record).openFiles owner = tables.openFiles owner := by
        simp [FileTables.addFile, same]
      rw [unchanged, kept]
      exact placed.handles owner
  · intro owner file listed
    simp only [handle]
    rcases listed_addFile.mp listed with old | ⟨_, rfl⟩
    · rw [files_addFile_old (placed.listed_lt old)]
      exact placed.consoles old
    · rw [files_addFile_new]
      exact console
  · intro owner file listed
    rcases listed_addFile.mp listed with old | ⟨_, rfl⟩
    · rw [files_addFile_old (placed.listed_lt old)]
      exact placed.counted old
    · rw [files_addFile_new]
      exact positive
  · intro first second file other left right
    simp only [handle]
    rcases listed_addFile.mp left with oldLeft | ⟨_, rfl⟩
    · rw [files_addFile_old (placed.listed_lt oldLeft)]
      rcases listed_addFile.mp right with oldRight | ⟨_, rfl⟩
      · rw [files_addFile_old (placed.listed_lt oldRight)]
        exact placed.alone oldLeft oldRight
      · rw [files_addFile_new]
        intro fileOpened recordOpened same single
        have both := (shared first file oldLeft fileOpened recordOpened same.symm).1
        omega
    · rw [files_addFile_new]
      rcases listed_addFile.mp right with oldRight | ⟨_, rfl⟩
      · rw [files_addFile_old (placed.listed_lt oldRight)]
        intro recordOpened otherOpened same single
        have both := (shared second other oldRight otherOpened recordOpened same).2
        omega
      · exact fun _ _ _ _ => rfl

/-! ## What keeps the handles accounted for -/

theorem Alike.held_iff (alike : Alike tables after) (fh : Int) :
    after.Held fh ↔ tables.Held fh := by
  simp only [Held, alike.openFiles, alike.isConsole, alike.handle]

theorem Alike.closes_eq (alike : Alike tables after) (fh : Int) :
    after.closes fh = tables.closes fh := by
  simp only [closes, alike.closed, alike.isConsole, alike.handle]

/-- Tables that hold and have closed the same handles account for the same. -/
theorem Accounted.transfer (accounted : tables.Accounted)
    (next : after.vfsNextHandleCount = tables.vfsNextHandleCount)
    (held : ∀ fh, after.Held fh ↔ tables.Held fh)
    (closes : ∀ fh, after.closes fh = tables.closes fh) :
    after.Accounted := by
  refine ⟨?_, ?_⟩
  · intro fh issued
    rw [Issued, next] at issued
    rw [held, closes]
    exact accounted.issued fh issued
  · intro fh unissued
    rw [Issued, next] at unissued
    rw [held, closes]
    exact accounted.unissued fh unissued

theorem Sound.of_alike (sound : tables.Sound) (alike : Alike tables after)
    (next : after.vfsNextHandleCount = tables.vfsNextHandleCount) :
    after.Sound :=
  ⟨sound.placed.of_alike alike, sound.accounted.transfer next alike.held_iff alike.closes_eq,
    next ▸ sound.next_ge⟩

private theorem Disposed.held_iff (disposed : Disposed tables after task file)
    (placed : tables.Placed) (listed : file ∈ tables.openFiles task)
    (notEnded : (tables.files file).isConsole = false → tables.handle file ≠ fh) :
    after.Held fh ↔ tables.Held fh := by
  simp only [Held, disposed.isConsole, disposed.handle, disposed.listed_iff placed listed]
  constructor
  · rintro ⟨owner, other, found, isHeld⟩
    exact ⟨owner, other, found.1, isHeld⟩
  · rintro ⟨owner, other, found, opened, same⟩
    refine ⟨owner, other, ⟨found, ?_⟩, opened, same⟩
    rintro rfl
    exact notEnded opened same

/-- Closing a console closes no handle of `vfs_open`, and closing a file that
is alone under its handle ends that handle. -/
theorem Sound.of_disposed (sound : tables.Sound) (listed : file ∈ tables.openFiles task)
    (single : (tables.files file).count ≤ 1)
    (disposed : Disposed tables after task file) :
    after.Sound := by
  have placed := sound.placed
  have closesEq : ∀ fh, after.closes fh = tables.closes fh +
      if !(tables.files file).isConsole && decide (tables.handle file = fh) then 1 else 0 := by
    intro fh
    simp only [closes, disposed.closed, disposed.isConsole, disposed.handle, countP_cons]
  refine ⟨placed.of_disposed listed disposed, ?_, disposed.next ▸ sound.next_ge⟩
  cases kind : (tables.files file).isConsole with
  | true =>
    apply sound.accounted.transfer disposed.next
    · intro fh
      apply disposed.held_iff placed listed
      simp [kind]
    · intro fh
      simp [closesEq, kind]
  | false =>
    have ended : ¬after.Held (tables.handle file) := by
      rintro ⟨owner, other, found, opened, same⟩
      rw [disposed.isConsole] at opened
      rw [disposed.handle] at same
      obtain ⟨inList, different⟩ := (disposed.listed_iff placed listed).mp found
      exact different (placed.alone listed inList kind opened same single)
    have held : tables.Held (tables.handle file) := ⟨task, file, listed, kind, rfl⟩
    refine ⟨?_, ?_⟩
    · intro fh issued
      rw [Issued, disposed.next] at issued
      by_cases same : fh = tables.handle file
      · subst fh
        have before := sound.accounted.issued _ issued
        rw [closesEq]
        simp only [kind, Bool.not_false, decide_true, Bool.and_self, if_true]
        rcases before with ⟨_, zero⟩ | ⟨unheld, _⟩
        · exact .inr ⟨ended, by omega⟩
        · exact absurd held unheld
      · have other : ¬tables.handle file = fh := fun eq => same eq.symm
        rw [disposed.held_iff placed listed fun _ => other, closesEq]
        simpa [other] using sound.accounted.issued fh issued
    · intro fh unissued
      rw [Issued, disposed.next] at unissued
      have before := sound.accounted.unissued fh unissued
      have other : ¬tables.handle file = fh := by
        rintro rfl
        exact before.1 held
      rw [disposed.held_iff placed listed fun _ => other, closesEq]
      simpa [other] using before

private theorem closes_addFile (placed : tables.Placed) (fh : Int) :
    (tables.addFile task record).closes fh = tables.closes fh := by
  apply countP_congr
  intro file closed
  rw [handle, files_addFile_old (placed.closed_lt closed)]
  exact Iff.rfl

private theorem held_addFile (placed : tables.Placed) (fh : Int) :
    (tables.addFile task record).Held fh ↔
      tables.Held fh ∨ record.isConsole = false ∧ record.fHandle = fh := by
  constructor
  · rintro ⟨owner, file, listed, opened, same⟩
    rcases listed_addFile.mp listed with old | ⟨_, rfl⟩
    · simp only [handle, files_addFile_old (placed.listed_lt old)] at opened same
      exact .inl ⟨owner, file, old, opened, same⟩
    · simp only [handle, files_addFile_new] at opened same
      exact .inr ⟨opened, same⟩
  · rintro (⟨owner, file, listed, opened, same⟩ | ⟨opened, same⟩)
    · refine ⟨owner, file, listed_addFile.mpr (.inl listed), ?_, ?_⟩
      · rw [files_addFile_old (placed.listed_lt listed)]
        exact opened
      · rw [handle, files_addFile_old (placed.listed_lt listed)]
        exact same
    · refine ⟨task, tables.fileCount, listed_addFile.mpr (.inr ⟨rfl, rfl⟩), ?_, ?_⟩
      · rw [files_addFile_new]
        exact opened
      · rw [handle, files_addFile_new]
        exact same

/-! ## Opening -/

theorem openAt_spec {dentry : Nat} {isConsole : Bool}
    (done : tables.openAt ops task dentry fh openmode isConsole = some after) :
    ∃ mounted record,
      after = { tables with mounted := mounted }.addFile task record ∧
        record.fHandle = fh ∧ record.isConsole = isConsole ∧
        record.count = 1 := by
  simp only [openAt] at done
  split at done
  · cases done
  · split at done
    · cases done
    · obtain ⟨⟨mounted, opened⟩, _, same⟩ := map_eq_some_iff.mp done
      exact ⟨mounted, _, same.symm, rfl, rfl, rfl⟩

/-- Tables that differ in the dentries, the mounted file systems and the next
handle. -/
private theorem alike_environment (tables : FileTables φ ι δ) (vfs : Vfs ι)
    (mounted : φ) (next : Int) :
    Alike tables { tables with
      vfs := vfs, mounted := mounted, vfsNextHandleCount := next } :=
  ⟨rfl, rfl, rfl, fun _ => rfl, fun _ => rfl, fun _ => rfl⟩

variable {lookup : ι → Text → LookupResult ι} {parent child : Nat}

section

variable (sound : tables.Sound)
include sound

private theorem Sound.issue {vfs : Vfs ι} {mounted : φ}
    (newHandle : record.fHandle = tables.vfsNextHandleCount + 1)
    (opened : record.isConsole = false) (single : record.count = 1) :
    ({ tables with
        vfs := vfs
        mounted := mounted
        vfsNextHandleCount := record.fHandle }.addFile task record).Sound := by
  have alike := alike_environment tables vfs mounted record.fHandle
  have placed := sound.placed.of_alike alike
  have unissued : ¬tables.Issued record.fHandle := by
    intro issued
    have le := issued.2
    omega
  have unheld := (sound.accounted.unissued _ unissued).1
  have isNew : ∀ owner, ∀ file ∈ tables.openFiles owner, (tables.files file).isConsole = false →
      tables.handle file ≠ record.fHandle :=
    fun owner file listed kind same =>
      unheld ⟨owner, file, listed, kind, same⟩
  have ge := sound.next_ge
  refine ⟨placed.addFile ?_ (by simp [opened]) single.ge ?_, ⟨?_, ?_⟩, ?_⟩
  · intro file listed
    cases kind : (tables.files file).isConsole with
    | true =>
      have low : tables.handle file ≤ 2 := sound.placed.consoles listed kind
      change tables.handle file ≠ record.fHandle
      simp only [vfsMinHandle] at ge
      omega
    | false => exact isNew task file listed kind
  · intro owner file listed kind _ same
    exact absurd same (isNew owner file listed kind)
  · intro fh issued
    rw [held_addFile placed, closes_addFile placed, alike.held_iff, alike.closes_eq]
    by_cases same : record.fHandle = fh
    · subst fh
      exact .inl ⟨.inr ⟨opened, rfl⟩, (sound.accounted.unissued _ unissued).2⟩
    · have before : tables.Issued fh := by
        have le : fh ≤ record.fHandle := issued.2
        exact ⟨issued.1, by omega⟩
      simpa [same] using sound.accounted.issued fh before
  · intro fh isNot
    rw [held_addFile placed, closes_addFile placed, alike.held_iff, alike.closes_eq]
    have different : record.fHandle ≠ fh := by
      rintro rfl
      exact isNot ⟨by omega, le_refl _⟩
    have before : ¬tables.Issued fh := by
      intro issued
      apply isNot
      have le := issued.2
      exact ⟨issued.1, show fh ≤ record.fHandle by omega⟩
    simpa [different] using sound.accounted.unissued fh before
  · change vfsMinHandle ≤ record.fHandle
    omega

variable {cwd path : Text}

private theorem Sound.vfsOpen (left : tables.vfsNextHandleCount < 2 ^ 31 - 1)
    (done : tables.vfsOpen ops lookup task cwd path openmode = some (after, result)) :
    after.Sound := by
  simp only [FileTables.vfsOpen] at done
  split at done
  · cases done
  · rename_i vfs _
    cases done
    exact sound.of_alike (alike_environment tables vfs tables.mounted _) rfl
  · obtain ⟨opened, spec, same⟩ := map_eq_some_iff.mp done
    cases same
    obtain ⟨mounted, record, rfl, newHandle, kind, single⟩ := openAt_spec spec
    have ge := sound.next_ge
    simp only [vfsMinHandle] at ge
    have next : toInt32 (tables.vfsNextHandleCount + 1) = tables.vfsNextHandleCount + 1 :=
      toInt32_of_range (by omega) (by omega)
    rw [← newHandle]
    exact sound.issue (newHandle.trans next) kind single

/-- A record under a handle that is held already, or of a console, changes no
account. -/
private theorem Sound.addFile (known : record.isConsole = false → tables.Held record.fHandle)
    (placed : (tables.addFile task record).Placed) :
    (tables.addFile task record).Sound := by
  refine ⟨placed, ?_, sound.next_ge⟩
  apply sound.accounted.transfer
  · rfl
  · intro fh
    rw [held_addFile sound.placed]
    constructor
    · rintro (held | ⟨opened, rfl⟩)
      · exact held
      · exact known opened
    · exact .inl
  · exact closes_addFile sound.placed

private theorem Sound.addConsole (kind : record.isConsole = true) (low : record.fHandle ≤ 2)
    (single : record.count = 1)
    (missing : tables.findFile task record.fHandle = none) :
    (tables.addFile task record).Sound := by
  refine sound.addFile (by simp [kind]) (sound.placed.addFile ?_ ?_ ?_ ?_)
  · intro file listed same
    have free := List.find?_eq_none.mp missing file listed
    simp [same] at free
  · exact fun _ => low
  · exact single.ge
  · intro owner file _ _ opened
    rw [kind] at opened
    cases opened

private theorem Sound.vfsOpenConsole (low : fh ≤ 2) (missing : tables.findFile task fh = none)
    (done : tables.vfsOpenConsole ops lookup task cwd path fh = some (after, result)) :
    after.Sound := by
  simp only [FileTables.vfsOpenConsole] at done
  split at done
  · cases done
  · rename_i vfs _
    cases done
    exact sound.of_alike (alike_environment tables vfs tables.mounted _) rfl
  · rename_i vfs dentry _
    obtain ⟨opened, spec, same⟩ := map_eq_some_iff.mp done
    cases same
    obtain ⟨mounted, record, rfl, rfl, kind, single⟩ := openAt_spec spec
    have elsewhere := sound.of_alike (alike_environment tables vfs mounted _) rfl
    exact elsewhere.addConsole kind low single missing

end

/-! ## Copying -/

/-- Counting a record up keeps the places, and makes room for a copy. -/
private theorem Sound.countUp (sound : tables.Sound) (file : Nat) :
    (tables.addCount file 1).Sound := by
  have placed := sound.placed
  have countLe : ∀ other, (tables.files other).count ≤
      ((tables.addCount file 1).files other).count := by
    intro other
    by_cases same : other = file
    · subst other
      rw [addCount_count]
      omega
    · rw [addCount_files same]
  refine ⟨?_, ?_, sound.next_ge⟩
  · refine placed.of_fewer ?_ ?_ placed.closed_lt rfl (addCount_handle file 1)
      (addCount_isConsole file 1)
    · intro owner other found
      exact ⟨found, countLe other⟩
    · intro owner
      rw [funext (addCount_handle file 1)]
      exact placed.handles owner
  · apply sound.accounted.transfer
    · rfl
    · intro fh
      simp only [Held, addCount_isConsole, addCount_handle]
      exact Iff.rfl
    · intro fh
      simp only [closes, addCount_isConsole, addCount_handle]
      rfl

private theorem copyFile_console (kind : (tables.files file).isConsole = true) :
    tables.copyFile dest file = tables := by
  rw [copyFile, if_pos kind]

private theorem copyFile_opened (kind : (tables.files file).isConsole = false) :
    tables.copyFile dest file =
      (tables.addCount file 1).addFile dest ((tables.addCount file 1).files file).copied := by
  rw [copyFile, if_neg (by simp [kind])]

/-- One round of `vfs_copy`, for a file that some task lists and whose handle
is new in the copy. -/
private theorem Sound.copyFile (sound : tables.Sound) (listed : file ∈ tables.openFiles src)
    (newHandle : (tables.files file).isConsole = false →
      ∀ other ∈ tables.openFiles dest, tables.handle other ≠ tables.handle file) :
    (tables.copyFile dest file).Sound := by
  cases kind : (tables.files file).isConsole with
  | true =>
    rw [copyFile_console kind]
    exact sound
  | false =>
    have counted := sound.countUp file
    have view : ((tables.addCount file 1).files file).toFsFile = (tables.files file).toFsFile :=
      (addCount_view file 1 file).1
    have twice : 1 < ((tables.addCount file 1).files file).count := by
      have once := sound.placed.counted listed
      rw [addCount_count]
      omega
    rw [copyFile_opened kind]
    refine counted.addFile ?_ (counted.placed.addFile ?_ ?_ ?_ ?_)
    · intro opened
      exact ⟨src, file, listed, opened, rfl⟩
    · intro other inCopy
      rw [addCount_handle]
      change _ ≠ ((tables.addCount file 1).files file).fHandle
      rw [view]
      exact newHandle kind other inCopy
    · intro isConsole
      change ((tables.addCount file 1).files file).isConsole = true at isConsole
      rw [view, kind] at isConsole
      cases isConsole
    · exact twice.le
    · intro owner other found opened _ same
      refine ⟨?_, twice⟩
      by_contra single
      have isFile := counted.placed.alone found listed opened
        (by rw [view]; exact kind) same.symm (not_lt.mp single)
      subst other
      exact single twice

/-- What the rounds of `vfs_copy` leave as it was. -/
private structure Copying (src dest : Nat) (tables after : FileTables φ ι δ) : Prop where
  mounted : after.mounted = tables.mounted
  source : after.openFiles src = tables.openFiles src
  grows : ∀ file ∈ tables.openFiles dest, file ∈ after.openFiles dest
  more : tables.fileCount ≤ after.fileCount
  view : ∀ file < tables.fileCount,
    (after.files file).toFsFile = (tables.files file).toFsFile ∧
      (after.files file).fInode = (tables.files file).fInode

/-- A record is what `vfs_copy` makes of another one. -/
structure CopyOf (tables : FileTables φ ι δ) (file copy : Nat) : Prop where
  view : (tables.files copy).toFsFile = { (tables.files file).toFsFile with fPdata := none }
  inode : (tables.files copy).fInode = (tables.files file).fInode

private theorem Copying.trans {middle : FileTables φ ι δ} (left : Copying src dest tables middle)
    (right : Copying src dest middle after) :
    Copying src dest tables after := by
  refine ⟨right.mounted.trans left.mounted, right.source.trans left.source,
    ?_, left.more.trans right.more, ?_⟩
  · intro file listed
    exact right.grows file (left.grows file listed)
  · intro file old
    obtain ⟨leftView, leftInode⟩ := left.view file old
    obtain ⟨rightView, rightInode⟩ := right.view file (old.trans_le left.more)
    exact ⟨rightView.trans leftView, rightInode.trans leftInode⟩

private theorem copying_copyFile (apart : src ≠ dest) :
    Copying src dest tables (tables.copyFile dest file) := by
  cases kind : (tables.files file).isConsole with
  | true =>
    rw [copyFile_console kind]
    exact ⟨rfl, rfl, fun _ listed => listed, le_refl _, fun _ _ => ⟨rfl, rfl⟩⟩
  | false =>
    rw [copyFile_opened kind]
    refine ⟨rfl, ?_, ?_, Nat.le_succ _, ?_⟩
    · rw [addFile]
      exact update_of_ne apart _ _
    · intro other listed
      exact listed_addFile.mpr (.inl listed)
    · intro other old
      have before : other < (tables.addCount file 1).fileCount := old
      rw [files_addFile_old before]
      exact addCount_view file 1 other

private theorem listed_copyFile {copied : Nat}
    (inCopy : copied ∈ (tables.copyFile dest file).openFiles dest) :
    copied ∈ tables.openFiles dest ∨
      (tables.copyFile dest file).handle copied = tables.handle file := by
  cases kind : (tables.files file).isConsole with
  | true =>
    rw [copyFile_console kind] at inCopy
    exact .inl inCopy
  | false =>
    rw [copyFile_opened kind] at inCopy ⊢
    rcases listed_addFile.mp inCopy with old | ⟨_, rfl⟩
    · exact .inl old
    · right
      rw [handle, files_addFile_new]
      exact addCount_handle file 1 file

private theorem copyOf_copyFile (dest : Nat) (kind : (tables.files file).isConsole = false)
    (old : file < tables.fileCount) :
    ∃ copy ∈ (tables.copyFile dest file).openFiles dest,
      copy < (tables.copyFile dest file).fileCount ∧
        CopyOf (tables.copyFile dest file) file copy := by
  have before : file < (tables.addCount file 1).fileCount := old
  rw [copyFile_opened kind]
  have newest : ((tables.addCount file 1).addFile dest
      ((tables.addCount file 1).files file).copied).files tables.fileCount =
        ((tables.addCount file 1).files file).copied :=
    files_addFile_new
  refine ⟨tables.fileCount, listed_addFile.mpr (.inr ⟨rfl, rfl⟩), Nat.lt_succ_self _, ?_, ?_⟩
  · rw [newest, files_addFile_old before]
    rfl
  · rw [newest, files_addFile_old before]
    rfl

private theorem CopyOf.of_copying {copy : Nat}
    (copyOf : CopyOf tables file copy) (copying : Copying src dest tables after)
    (fileOld : file < tables.fileCount) (copyOld : copy < tables.fileCount) :
    CopyOf after file copy := by
  obtain ⟨fileView, fileInode⟩ := copying.view file fileOld
  obtain ⟨copyView, copyInode⟩ := copying.view copy copyOld
  refine ⟨?_, ?_⟩
  · rw [copyView, fileView]
    exact copyOf.view
  · rw [copyInode, fileInode]
    exact copyOf.inode

/-- The loop of `vfs_copy`, over the part of the list that is left. -/
private theorem Sound.copyLoop (apart : src ≠ dest) {remaining : List Nat}
    {tables : FileTables φ ι δ} (sound : tables.Sound)
    (listed : ∀ file ∈ remaining, file ∈ tables.openFiles src)
    (distinct : (remaining.map tables.handle).Nodup)
    (newHandle : ∀ file ∈ remaining, (tables.files file).isConsole = false →
      ∀ other ∈ tables.openFiles dest, tables.handle other ≠ tables.handle file) :
    (remaining.foldl (FileTables.copyFile dest) tables).Sound ∧
      Copying src dest tables (remaining.foldl (FileTables.copyFile dest) tables) ∧
      ∀ file ∈ remaining, (tables.files file).isConsole = false →
        ∃ copy ∈ (remaining.foldl (FileTables.copyFile dest) tables).openFiles dest,
          CopyOf (remaining.foldl (FileTables.copyFile dest) tables) file copy := by
  induction remaining generalizing tables with
  | nil =>
    refine ⟨sound, ?_, by simp⟩
    exact ⟨rfl, rfl, fun _ listed => listed, le_refl _, fun _ _ => ⟨rfl, rfl⟩⟩
  | cons file rest induction =>
    have fileListed := listed file mem_cons_self
    have fileOld := sound.placed.listed_lt fileListed
    have copying : Copying src dest tables (tables.copyFile dest file) := copying_copyFile apart
    have once : (tables.copyFile dest file).Sound :=
      sound.copyFile fileListed (newHandle file mem_cons_self)
    have handleKept : ∀ other < tables.fileCount,
        (tables.copyFile dest file).handle other = tables.handle other := by
      intro other old
      rw [handle, (copying.view other old).1, handle]
    have restOld : ∀ other ∈ rest, other < tables.fileCount :=
      fun other inRest => sound.placed.listed_lt (listed other (mem_cons_of_mem _ inRest))
    rw [map_cons, nodup_cons] at distinct
    have restListed : ∀ other ∈ rest, other ∈ (tables.copyFile dest file).openFiles src := by
      intro other inRest
      rw [copying.source]
      exact listed other (mem_cons_of_mem _ inRest)
    have restDistinct : (rest.map (tables.copyFile dest file).handle).Nodup := by
      have same : rest.map (tables.copyFile dest file).handle = rest.map tables.handle :=
        map_congr_left fun other inRest =>
          handleKept other (restOld other inRest)
      rw [same]
      exact distinct.2
    have restNew : ∀ other ∈ rest, ((tables.copyFile dest file).files other).isConsole = false →
        ∀ copied ∈ (tables.copyFile dest file).openFiles dest,
          (tables.copyFile dest file).handle copied ≠ (tables.copyFile dest file).handle other := by
      intro other inRest opened copied inCopy
      rw [handleKept other (restOld other inRest)]
      rcases listed_copyFile inCopy with old | isFile
      · rw [handleKept copied (sound.placed.listed_lt old)]
        rw [(copying.view other (restOld other inRest)).1] at opened
        exact newHandle other (mem_cons_of_mem _ inRest) opened copied old
      · rw [isFile]
        intro same
        apply distinct.1
        rw [same]
        exact mem_map_of_mem inRest
    obtain ⟨restSound, restCopying, restCopies⟩ := induction once restListed restDistinct restNew
    refine ⟨restSound, copying.trans restCopying, ?_⟩
    intro other inList opened
    rcases mem_cons.mp inList with rfl | inRest
    · obtain ⟨copy, copyListed, copyOld, copyOf⟩ := copyOf_copyFile dest opened fileOld
      exact ⟨copy, restCopying.grows copy copyListed,
        copyOf.of_copying restCopying (fileOld.trans_le copying.more) copyOld⟩
    · apply restCopies other inRest
      rw [(copying.view other (restOld other inRest)).1]
      exact opened

/-- `vfs_copy` into the empty list of a forked task. -/
private theorem Sound.vfsCopy (sound : tables.Sound) (empty : tables.openFiles child = []) :
    (tables.vfsCopy child parent).Sound ∧
      (tables.vfsCopy child parent).openFiles parent = tables.openFiles parent ∧
      (tables.vfsCopy child parent).mounted = tables.mounted ∧
      ∀ file ∈ tables.openFiles parent,
        ((tables.vfsCopy child parent).files file).toFsFile = (tables.files file).toFsFile ∧
          ((tables.vfsCopy child parent).files file).fInode = (tables.files file).fInode ∧
          ((tables.files file).isConsole = false →
            ∃ copy ∈ (tables.vfsCopy child parent).openFiles child,
              CopyOf (tables.vfsCopy child parent) file copy) := by
  by_cases same : parent = child
  · subst parent
    rw [FileTables.vfsCopy, empty]
    exact ⟨sound, empty, rfl, by simp⟩
  · obtain ⟨copied, copying, copies⟩ :=
      sound.copyLoop same (fun _ listed => listed) (sound.placed.handles parent) (by simp [empty])
    refine ⟨copied, copying.source, copying.mounted, ?_⟩
    intro file listed
    obtain ⟨view, inode⟩ := copying.view file (sound.placed.listed_lt listed)
    exact ⟨view, inode, copies file listed⟩

/-! ## Runs -/

section Runs

variable (ops)

variable (tables)

/-- A file is read without its private data as it is with it. -/
def ReadsAlone (file : Nat) : Prop :=
  let record := tables.files file
  ∀ len,
    (ops.readFile tables.mounted record.fInode
        { record.toFsFile with fPdata := none } len).map (·.2.2) =
      (ops.readFile tables.mounted record.fInode record.toFsFile len).map (·.2.2)

/-- The next handle is an `int`, and a file that is closed has not been
copied. -/
def Uncopied : FileOp → Prop
  | .vfsOpen _ _ _ _ => tables.vfsNextHandleCount < 2 ^ 31 - 1
  | .vfsClose task fh => ∀ file ∈ tables.findFile task fh, (tables.files file).count ≤ 1
  | _ => True

instance  : DecidablePred tables.Uncopied
  | .vfsOpen _ _ _ _ => inferInstanceAs (Decidable (_ < _))
  | .vfsClose task fh => inferInstanceAs (Decidable (∀ file ∈ tables.findFile task fh, _))
  | .vfsOpenConsole _ _ _ _ => inferInstanceAs (Decidable True)
  | .fork _ _ => inferInstanceAs (Decidable True)
  | .vfsRead _ _ _ => inferInstanceAs (Decidable True)
  | .vfsWrite _ _ _ => inferInstanceAs (Decidable True)
  | .vfsLseek _ _ _ _ => inferInstanceAs (Decidable True)

variable {tables}

/-- A call that does not meet the defects of `vfs_copy`: it closes no file that
was copied, and copies no file that needs its private data. -/
structure Undivided (tables : FileTables φ ι δ) (op : FileOp) : Prop where
  uncopied : tables.Uncopied op
  alone : ∀ parent child, op = .fork parent child →
    ∀ file ∈ tables.openFiles parent,
      (tables.files file).isConsole = false → tables.ReadsAlone ops file

variable {ops}

private theorem Sound.vfsClose (sound : tables.Sound)
    (single : ∀ file ∈ tables.findFile task fh, (tables.files file).count ≤ 1)
    (done : tables.vfsClose ops task fh = some (after, result)) :
    after.Sound ∧ (result = 0 → after.findFile task fh = none) := by
  rcases vfsClose_cases done with
    ⟨missing, rfl, rfl⟩ | ⟨file, found, ⟨shared, _, _⟩ | ⟨_, disposed⟩⟩
  · exact ⟨sound, fun _ => missing⟩
  · exact absurd (single file found) (not_le.mpr shared)
  · obtain ⟨listed, rfl⟩ := findFile_listed found
    refine ⟨sound.of_disposed listed (single file found) disposed, ?_⟩
    intro _
    apply List.find?_eq_none.mpr
    intro other inList
    obtain ⟨wasListed, different⟩ := (disposed.listed_iff sound.placed listed).mp inList
    rw [decide_eq_true_iff, disposed.handle]
    intro same
    exact different (inj_on_of_nodup_map (sound.placed.handles task) wasListed listed same)

private theorem Sound.of_call (sound : tables.Sound) {α : Type} {missing answer : α}
    {call : Nat → Option (φ × FilePrivate δ × α)}
    (done : (match tables.findFile task fh with
      | none => some (tables, missing)
      | some file => (call file).map fun result =>
          (tables.setPrivate result.1 file result.2.1, result.2.2)) = some (after, answer)) :
    after.Sound := by
  split at done
  · cases done
    exact sound
  · obtain ⟨result, _, same⟩ := map_eq_some_iff.mp done
    cases same
    exact sound.of_alike (alike_setPrivate _ _ _ _) rfl

theorem sound_step {op : FileOp} (sound : tables.Sound) (undivided : tables.Undivided ops op)
    (stepped : tables.step lookup ops op = some after) :
    after.Sound := by
  cases op with
  | vfsOpen task cwd path openmode =>
    obtain ⟨⟨opened, result⟩, done, rfl⟩ := map_eq_some_iff.mp stepped
    exact sound.vfsOpen undivided.uncopied done
  | vfsOpenConsole task cwd path fh =>
    by_cases first : 0 ≤ fh ∧ fh ≤ 2 ∧ tables.findFile task fh = none
    · rw [step, if_pos first] at stepped
      obtain ⟨⟨opened, result⟩, done, rfl⟩ := map_eq_some_iff.mp stepped
      exact sound.vfsOpenConsole first.2.1 first.2.2 done
    · rw [step, if_neg first] at stepped
      cases stepped
  | fork parent child =>
    by_cases empty : tables.openFiles child = []
    · rw [step, if_pos empty] at stepped
      cases stepped
      exact (sound.vfsCopy empty).1
    · rw [step, if_neg empty] at stepped
      cases stepped
  | vfsClose task fh =>
    obtain ⟨⟨closed, result⟩, done, rfl⟩ := map_eq_some_iff.mp stepped
    exact (sound.vfsClose undivided.uncopied done).1
  | vfsRead task fh len =>
    obtain ⟨⟨read, result⟩, done, rfl⟩ := map_eq_some_iff.mp stepped
    exact sound.of_call done
  | vfsWrite task fh bytes =>
    obtain ⟨⟨written, result⟩, done, rfl⟩ := map_eq_some_iff.mp stepped
    exact sound.of_call done
  | vfsLseek task fh offset wence =>
    obtain ⟨⟨moved, result⟩, done, rfl⟩ := map_eq_some_iff.mp stepped
    exact sound.of_call done

/-- The handle that a task found before a fork is found by the child, and reads
as the handle of the parent does. -/
private theorem Sound.fork_reads (sound : tables.Sound) (empty : tables.openFiles child = [])
    (alone : ∀ file ∈ tables.openFiles parent,
      (tables.files file).isConsole = false → tables.ReadsAlone ops file)
    (found : tables.findFile parent fh = some file)
    (kind : (tables.files file).isConsole = false) :
    ∃ copy, (tables.vfsCopy child parent).findFile child fh = some copy ∧
      (tables.vfsCopy child parent).findFile parent fh = some file ∧
      ∀ len, (tables.vfsCopy child parent).readResult ops copy len =
        (tables.vfsCopy child parent).readResult ops file len := by
  obtain ⟨listed, rfl⟩ := findFile_listed found
  obtain ⟨copied, source, mounted, kept⟩ := sound.vfsCopy empty
  obtain ⟨view, inode, copies⟩ := kept file listed
  obtain ⟨copy, copyListed, copyOf⟩ := copies kind
  have fileHandle : (tables.vfsCopy child parent).handle file = tables.handle file := by
    rw [handle, view, handle]
  have copyHandle : (tables.vfsCopy child parent).handle copy = tables.handle file := by
    rw [handle, copyOf.view]
    exact fileHandle
  refine ⟨copy, ?_, ?_, ?_⟩
  · rw [← copyHandle]
    exact copied.placed.findFile_eq copyListed
  · rw [← fileHandle]
    apply copied.placed.findFile_eq
    rw [source]
    exact listed
  · intro len
    simp only [readResult, copyOf.view, copyOf.inode, view, inode, mounted]
    exact alone file listed kind len

end Runs

/-- In every run of calls that do not meet the defects of the count, every
handle that was issued is held and not closed, or was closed once and is not
held any more; a close that succeeds takes the handle from the task; and after
a fork the child reads through a handle what the parent does. -/
theorem handles_of_run (lookup : ι → Text → LookupResult ι)
    (ops : FileOps φ ι δ) {vfs : Vfs ι} {mounted : φ} {blank : VfsFile ι δ}
    {calls : List FileOp} {final : FileTables φ ι δ}
    (undivided : AlongOps (step lookup ops) (Undivided ops) (boot vfs mounted blank) calls)
    (run : runOps (step lookup ops) (boot vfs mounted blank) calls = some final) :
    (∀ fh, final.Issued fh →
      final.Held fh ∧ final.closes fh = 0 ∨ ¬final.Held fh ∧ final.closes fh = 1) ∧
    (∀ task fh after, final.Undivided ops (.vfsClose task fh) →
      final.vfsClose ops task fh = some (after, 0) →
      after.findFile task fh = none) ∧
    (∀ parent child after fh file, final.Undivided ops (.fork parent child) →
      final.step lookup ops (.fork parent child) = some after →
      final.findFile parent fh = some file →
      (final.files file).isConsole = false →
      ∃ copy, after.findFile child fh = some copy ∧ after.findFile parent fh = some file ∧
        ∀ len, after.readResult ops copy len = after.readResult ops file len) := by
  have sound : final.Sound :=
    runOps_invariant_along
      (fun _ _ _ sound undivided stepped =>
        sound_step sound undivided stepped)
      (sound_boot vfs mounted blank) undivided run
  refine ⟨sound.accounted.issued, ?_, ?_⟩
  · intro task fh after single done
    exact (sound.vfsClose single.uncopied done).2 rfl
  · intro parent child after fh file forks stepped found kind
    by_cases empty : final.openFiles child = []
    · rw [step, if_pos empty] at stepped
      cases stepped
      exact sound.fork_reads empty (forks.alone parent child rfl) found kind
    · rw [step, if_neg empty] at stepped
      cases stepped

/-! ## Files of the archive -/

def archivePath : Text := [slash, 0x61]

/-- An archive that holds the file `a` with three bytes. -/
def archiveLookup (_ : RamfsData) (name : Text) : LookupResult RamfsData :=
  if name = [0x61] then .filled ⟨3, 0⟩ else .unfilled

/-- The archive mounted at the root, before any file is opened. -/
def archiveBoot : FileTables (List UInt8) RamfsData Unit :=
  boot
    { vfsRoot := some 0
      vfsFsList := []
      dentries := fun _ => ⟨[], some ⟨⟨0, 0⟩, none⟩, 0, []⟩
      dentryCount := 1 }
    [1, 2, 3] ⟨⟨⟨none, 0⟩, 0, .read, false⟩, 0, ⟨0, 0⟩, 0⟩

theorem ramfs_readsAlone (tables : FileTables (List UInt8) RamfsData Unit) (file : Nat) :
    tables.ReadsAlone ramfsFileOps file := by
  intro len
  simp only [ramfsFileOps, ramfsRead]
  split_ifs
  all_goals rfl

/-- Two opened files, one of them closed, and a fork. -/
def archiveCalls : List FileOp :=
  [.vfsOpen 1 [slash] archivePath .read, .vfsOpen 1 [slash] archivePath .read,
    .vfsClose 1 101, .fork 1 2]

theorem handles_of_run_archive :
    ∃ final, runOps (step archiveLookup ramfsFileOps) archiveBoot archiveCalls = some final ∧
      (∀ fh, final.Issued fh →
        final.Held fh ∧ final.closes fh = 0 ∨ ¬final.Held fh ∧ final.closes fh = 1) := by
  have undivided : AlongOps (step archiveLookup ramfsFileOps)
      (Undivided ramfsFileOps) archiveBoot archiveCalls := by
    have uncopied : AlongOps (step archiveLookup ramfsFileOps) Uncopied
        archiveBoot archiveCalls := by
      decide +kernel
    apply uncopied.mono
    intro tables op holds
    exact ⟨holds, fun _ _ _ file _ _ => ramfs_readsAlone tables file⟩
  have defined : (runOps (step archiveLookup ramfsFileOps) archiveBoot archiveCalls).isSome := by
    decide +kernel
  obtain ⟨final, run⟩ := isSome_iff_exists.mp defined
  exact ⟨final, run, (handles_of_run archiveLookup ramfsFileOps undivided run).1⟩

/-- After a fork, the first close of the parent succeeds without closing: the
handle stays in its list, and the file is still read through it. -/
theorem close_after_fork_keeps_handle :
    ∃ forked ∈ runOps (step archiveLookup ramfsFileOps) archiveBoot
        [.vfsOpen 1 [slash] archivePath .read, .fork 1 2],
      ∃ closing ∈ forked.vfsClose ramfsFileOps 1 101,
        closing.2 = 0 ∧ closing.1.findFile 1 101 = some 0 ∧
          (closing.1.vfsRead ramfsFileOps 1 101 3).map (·.2) = some (0, [1, 2, 3]) := by
  decide +kernel

end FileTables

end SeekOs.Fs
