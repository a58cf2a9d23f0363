import SeekOs.Fs.FileHandles
import SeekOs.Mm.Kmalloc
import SeekOs.Mm.MmCopy

/-!
# Loading an image

`elf_load` reads a file into a buffer of the kernel heap and follows the
offsets it finds there.  The buffer and what lies around it are the bytes at
kernel addresses; the pages of the task are physical memory behind its address
space.  The addresses that are read through the header, the destinations of the
copies and the calls of `kfree` are logged.
-/

namespace SeekOs.Proc

open SeekOs.Base SeekOs.Fs SeekOs.Lib SeekOs.Mm Option FileTables

/-- A little-endian value of the given number of bytes. -/
def loadWord (bytes : Nat → UInt8) (address : Nat) : Nat → Nat
  | 0 => 0
  | count + 1 =>
    (bytes address).toNat + 2 ^ 8 * loadWord bytes (address + 1) count

def elfMagic : Nat := 0x464c457f

def ptLoad : Nat := 1

def taskStackSize32kb : Nat := 32 * 1024

def elfProgram (bytes : Nat → UInt8) (ehdr idx : Nat) : Nat :=
  let phoff := loadWord bytes (ehdr + 32) 8
  let phentsize := loadWord bytes (ehdr + 54) 2
  toSizeT (ehdr + phoff + toInt32 (idx * phentsize))

/-- What `elf_load` works on next to the open files.  `buffer` is the block it
has allocated, with its size. -/
structure ElfImage (κ : Type) where
  heap : Heap κ
  mm : MmStruct
  memory : Memory
  ustack : Nat
  startRoutine : Nat
  buffer : Option (Nat × Nat)
  reads : List (Nat × Nat)
  targets : List Nat
  freed : List Nat

namespace ElfImage

variable {κ : Type} [FrameAllocator κ]

/-- Before the call, with empty logs. -/
def start (heap : Heap κ) (mm : MmStruct) (memory : Memory) : ElfImage κ :=
  ⟨heap, mm, memory, 0, 0, none, [], [], []⟩

def noteReads (image : ElfImage κ) (reads : List (Nat × Nat)) : ElfImage κ :=
  { image with reads := reads ++ image.reads }

/-- `vmalloc` in the address space of the task. -/
def vmallocUser (image : ElfImage κ) (ptr size : Nat) :
    Option (ElfImage κ × Nat) :=
  (vmalloc image.heap.memory.kmem image.mm ptr size
    vmmFlagsUser).toOption.map fun (kmem, mm, start) =>
      ({ image with
          heap := { image.heap with
            memory := { image.heap.memory with kmem := kmem } }
          mm := mm }, start)

/-- The body of the loop over the program headers. -/
def loadSegment (bytes : Nat → UInt8) (ehdr : Nat) (image : ElfImage κ)
    (idx : Nat) : Option (ElfImage κ) :=
  let phdr := elfProgram bytes ehdr idx
  let typed := image.noteReads [(phdr, 4)]
  if loadWord bytes phdr 4 ≠ ptLoad then
    some typed
  else
    let memsz := loadWord bytes (phdr + 40) 8
    let filesz := loadWord bytes (phdr + 32) 8
    if memsz = 0 then
      some (typed.noteReads [(phdr + 40, 8)])
    else if filesz = 0 then
      some (typed.noteReads [(phdr + 32, 8), (phdr + 40, 8)])
    else
      let data := toSizeT (ehdr + loadWord bytes (phdr + 8) 8)
      let sized := typed.noteReads [(data, filesz), (phdr + 8, 40)]
      (sized.vmallocUser (loadWord bytes (phdr + 16) 8) memsz).bind
        fun (allocated, pdata) =>
          let copied := (List.range filesz).map fun index =>
            bytes (data + index)
          (mmWrite allocated.memory allocated.mm pdata copied).toOption.map
            fun memory =>
              { allocated with
                memory := memory
                targets := pdata :: allocated.targets }

/-- `elf_load` from the check of the magic number on. -/
def loadImage (bytes : Nat → UInt8) (fbuff : Nat) (image : ElfImage κ) :
    Option (ElfImage κ × Int) :=
  if loadWord bytes fbuff 4 ≠ elfMagic then
    some (image, -1)
  else
    let phnum := loadWord bytes (fbuff + 56) 2
    ((List.range phnum).foldlM (loadSegment bytes fbuff) image).bind
      fun loaded =>
        (loaded.vmallocUser 0 taskStackSize32kb).bind fun (stacked, ustack) =>
          (kfree stacked.heap fbuff).toOption.map fun (heap, _) =>
            ({ stacked with
                heap := heap
                ustack := uptrAdd ustack taskStackSize32kb
                startRoutine := loadWord bytes (fbuff + 24) 8
                freed := fbuff :: stacked.freed }, 0)

/-- `kzalloc` of the buffer, zero for null. -/
def kzallocBuffer (image : ElfImage κ) (size : Nat) :
    Option (ElfImage κ × Nat) :=
  (kmalloc image.heap size).toOption.map fun (heap, block) =>
    ({ image with
        heap := heap
        buffer := block.map fun (ptr, _) => (ptr, size) },
      (block.map Prod.fst).getD 0)

end ElfImage

/-- The buffer after the file system has filled it. -/
def fillBuffer (bytes : Nat → UInt8) (fbuff size : Nat)
    (contents : List UInt8) : Nat → UInt8 := fun address =>
  if fbuff ≤ address ∧ address < fbuff + max size contents.length then
    contents.getD (address - fbuff) 0
  else
    bytes address

variable {κ : Type} [FrameAllocator κ] {φ ι δ : Type*}

/-- The task is the current one. -/
def elfLoad (ops : FileOps φ ι δ) (lookup : ι → Text → LookupResult ι)
    (bytes : Nat → UInt8) (tables : FileTables φ ι δ) (image : ElfImage κ)
    (task : Nat) (cwd path : Text) :
    Option (FileTables φ ι δ × ElfImage κ × Int) :=
  (tables.vfsOpen ops lookup task cwd path .read).bind fun (opened, fh) =>
    if fh < 0 then
      some (opened, image, fh)
    else
      (opened.vfsLseek ops task fh 0 .fromEnd).bind fun (measured, fsize) =>
        if fsize = 0 then
          some (measured, image, -1)
        else
          let size := toSizeT (toInt32 (fsize + 1))
          (measured.vfsLseek ops task fh 0 .set).bind fun (rewound, _) =>
            (image.kzallocBuffer size).bind fun (allocated, fbuff) =>
              (rewound.vfsRead ops task fh fsize).bind
                fun (filled, rflag, contents) =>
                  if rflag = -1 then
                    some (filled, allocated, -1)
                  else
                    let file := fillBuffer bytes fbuff size contents
                    (allocated.loadImage file fbuff).map
                      fun (loaded, result) => (filled, loaded, result)

/-- What a call of `elf_load` should leave behind, for the tables it started
from: it has read inside its buffer, it has copied to no null pointer, and the
file is closed and the buffer freed. -/
structure LoadsTidily (tables after : FileTables φ ι δ) (image : ElfImage κ)
    (task : Nat) : Prop where
  inside : ∀ read ∈ image.reads, ∃ block ∈ image.buffer,
    block.1 ≤ read.1 ∧ read.1 + read.2 ≤ block.1 + block.2
  targets : ∀ target ∈ image.targets, target ≠ 0
  closed : after.openFiles task = tables.openFiles task
  freed : ∀ block ∈ image.buffer, block.1 ∈ image.freed

section Files

variable {ops : FileOps φ ι δ} {lookup : ι → Text → LookupResult ι}
  {tables after : FileTables φ ι δ} {task : Nat}

private theorem vfsLseek_openFiles {fh offset result : Int} {wence : Wence}
    (done : tables.vfsLseek ops task fh offset wence = some (after, result)) :
    after.openFiles = tables.openFiles := by
  rw [vfsLseek] at done
  split at done
  · cases done
    rfl
  · obtain ⟨_, _, same⟩ := map_eq_some_iff.mp done
    cases same
    rfl

private theorem vfsRead_openFiles {fh len result : Int}
    {contents : List UInt8}
    (done : tables.vfsRead ops task fh len = some (after, result, contents)) :
    after.openFiles = tables.openFiles := by
  rw [vfsRead] at done
  split at done
  · cases done
    rfl
  · obtain ⟨_, _, same⟩ := map_eq_some_iff.mp done
    cases same
    rfl

/-- After `vfs_open` the list of open files stays as it is, on every path. -/
private theorem elfLoad_openFiles {bytes : Nat → UInt8}
    {image loaded : ElfImage κ} {cwd path : Text} {result : Int}
    (done : elfLoad ops lookup bytes tables image task cwd path = some (after, loaded, result)) :
    ∃ opened fh, tables.vfsOpen ops lookup task cwd path .read =
      some (opened, fh) ∧ after.openFiles = opened.openFiles := by
  obtain ⟨⟨opened, fh⟩, isOpened, done⟩ := bind_eq_some_iff.mp done
  refine ⟨opened, fh, isOpened, ?_⟩
  dsimp only at done
  split at done
  · cases done
    rfl
  · obtain ⟨⟨measured, fsize⟩, isMeasured, done⟩ := bind_eq_some_iff.mp done
    rw [← vfsLseek_openFiles isMeasured]
    split at done
    · cases done
      rfl
    · obtain ⟨⟨rewound, _⟩, isRewound, done⟩ := bind_eq_some_iff.mp done
      obtain ⟨⟨allocated, fbuff⟩, _, done⟩ := bind_eq_some_iff.mp done
      obtain ⟨⟨filled, rflag, contents⟩, isFilled, done⟩ := bind_eq_some_iff.mp done
      rw [← vfsLseek_openFiles isRewound, ← vfsRead_openFiles isFilled]
      split at done
      · cases done
        rfl
      · obtain ⟨_, _, same⟩ := map_eq_some_iff.mp done
        cases same
        rfl

/-- A call that finds no file returns at once and leaves nothing behind.  Every
other call that returns has opened a file and never closes it, so that exactly
the calls that find none are tidy. -/
theorem elfLoad_tidy_iff (ops : FileOps φ ι δ)
    (lookup : ι → Text → LookupResult ι) (tables : FileTables φ ι δ)
    (bytes : Nat → UInt8) (heap : Heap κ) (mm : MmStruct) (memory : Memory)
    (task : Nat) (cwd path : Text) :
    ((∃ vfs, vfsResolvePath lookup tables.vfs cwd path = .ok (vfs, none)) →
      ∃ after image, elfLoad ops lookup bytes tables
        (.start heap mm memory) task cwd path = some (after, image, enoent)) ∧
    ∀ after image result,
      elfLoad ops lookup bytes tables (.start heap mm memory) task cwd path =
        some (after, image, result) →
      (LoadsTidily tables after image task ↔
        ∃ vfs, vfsResolvePath lookup tables.vfs cwd path = .ok (vfs, none)) := by
  have missing : ∀ vfs,
      vfsResolvePath lookup tables.vfs cwd path = .ok (vfs, none) →
        elfLoad ops lookup bytes tables (.start heap mm memory) task cwd path =
          some ({ tables with vfs := vfs }, .start heap mm memory, enoent) := by
    intro vfs resolved
    simp [elfLoad, vfsOpen, resolved, enoent]
  constructor
  · rintro ⟨vfs, resolved⟩
    exact ⟨_, _, missing vfs resolved⟩
  intro after image result done
  constructor
  · intro tidy
    obtain ⟨opened, fh, isOpened, kept⟩ := elfLoad_openFiles done
    rw [vfsOpen] at isOpened
    split at isOpened
    · cases isOpened
    · rename_i vfs resolved
      exact ⟨vfs, resolved⟩
    · obtain ⟨_, spec, same⟩ := map_eq_some_iff.mp isOpened
      cases same
      obtain ⟨mounted, record, rfl, _⟩ := openAt_spec spec
      -- the new record is at the end of the list
      have closed := tidy.closed
      rw [kept] at closed
      simp [addFile, dlistAddPrev] at closed
  · rintro ⟨vfs, resolved⟩
    rw [missing vfs resolved] at done
    cases done
    constructor
    · intro read member
      cases member
    · intro target member
      cases member
    · rfl
    · intro block member
      cases member

end Files

/-- The heap of a kernel that has no slab yet. -/
def bareHeap : Heap Pmm.Kmem :=
  ⟨⟨bootedKmem, fun _ => none, fun _ => 0⟩, ⟨0, "", [], 0, 0, 0, 0, 0⟩, [], [], fun _ => 0⟩

/-- The root of the archive has no contents.  The call returns an error, and
the file it has opened stays in the list. -/
theorem elfLoad_leaves_empty_file_open :
    ∃ after image, elfLoad ramfsFileOps archiveLookup (fun _ => 0) archiveBoot
        (.start bareHeap ⟨[], fun _ => none⟩ fun _ => 0) 1 [slash] [slash] =
          some (after, image, -1) ∧
      after.openFiles 1 = [0] ∧
      ¬LoadsTidily archiveBoot after image 1 := by
  have facts : ∃ outcome ∈ elfLoad ramfsFileOps archiveLookup
      (fun _ => 0) archiveBoot
      (.start bareHeap ⟨[], fun _ => none⟩ fun _ => 0) 1 [slash] [slash],
        outcome.2.2 = -1 ∧ outcome.1.openFiles 1 = [0] := by
    decide +kernel
  obtain ⟨⟨after, image, result⟩, done, rfl, left⟩ := facts
  refine ⟨after, image, done, left, ?_⟩
  intro tidy
  have closed := tidy.closed
  rw [left] at closed
  cases closed

end SeekOs.Proc
