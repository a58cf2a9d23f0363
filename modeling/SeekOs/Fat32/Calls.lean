import SeekOs.Fat32.Dir

/-!
# The functions that fat32.c exports

Files and directories are found by their paths and then used through a `File` or
a `Dir` of the caller.  A mounted volume with such records is a machine that
takes one call after another.
-/

namespace SeekOs.Fat32

open SeekOs.Fs SeekOs.Lib Function

/-! ## Listing -/

/-- A byte of a short name, as it is shown. -/
def sfnLower (c : UInt8) : UInt8 :=
  if 0x41 ≤ c ∧ c ≤ 0x5a then c ||| 0x20 else c

/-- What `parse_sfn_name` leaves in the static buffer. -/
def parseSfnName (sfnName : List UInt8) : List UInt8 :=
  let base := (sfnName.take 8).takeWhile (· ≠ sfnPad)
  let ext := ((sfnName.drop 8).take 3).takeWhile (· ≠ sfnPad)
  base.map sfnLower ++ if ext = [] then [] else fullStop :: ext.map sfnLower

def decodeTimestamp (date time : Nat) : Timestamp where
  hour := time / 2 ^ 11 % 2 ^ 5
  min := time / 2 ^ 5 % 2 ^ 6
  sec := 2 * (time % 2 ^ 5)
  day := date % 2 ^ 5
  month := date / 2 ^ 5 % 2 ^ 4
  year := date / 2 ^ 9 % 2 ^ 6 + 1980

structure DirInfo where
  created : Timestamp
  modified : Timestamp
  size : Nat
  attr : UInt8
  name : List UInt8

def Entry.info (sfn : Entry) (name : List UInt8) : DirInfo where
  created := decodeTimestamp (sfn.sector.word16 (sfn.idx + 16))
    (sfn.sector.word16 (sfn.idx + 14))
  modified := decodeTimestamp (sfn.sector.word16 (sfn.idx + 24))
    (sfn.sector.word16 (sfn.idx + 22))
  size := sfn.size
  attr := sfn.attr
  name := name

/-- The name in the static buffer, with the entry at hand. -/
def infoHere (len : Nat) : DirM DirInfo := do
  let state ← Action.get
  let sfn ← dirPtr
  pure (sfn.info (state.1.gBuf.slice 0 len))

namespace Volume

variable (vol : Volume)

/-- The end of `fat_dir_read` for an entry with a long name. -/
def readLong : DirM DirInfo := do
  let (crc, len) ← vol.parseLfnName
  let sfn ← loadEntry
  if sfn.sfnIsFree ∨ crc ≠ getCrc sfn.name then Action.fail .broken
  else infoHere len

/-- The end of `fat_dir_read` for an entry without one. -/
def readShort (sfn : Entry) : DirM DirInfo := do
  let name := parseSfnName sfn.name
  setGBuf 0 name
  infoHere name.length

def dirReadLoop : Nat → DirM DirInfo
  | 0 => Action.hang
  | fuel + 1 => do
      let sfn ← loadEntry
      if sfn.sfnIsLast then Action.fail .eof
      else if sfn.sfnIsFree then
        vol.dirNext
        dirReadLoop fuel
      else if sfn.sfnIsLfn then vol.readLong
      else readShort sfn

def fatDirRead : DirM DirInfo :=
  vol.dirReadLoop vol.walkFuel

def fatDirNext : DirM Unit :=
  vol.dirNext

def fatDirRewind : DirM Unit := do
  let dir ← getDir
  vol.dirAtClust dir.sclust

variable (path : Text)

def fatDirOpen : DirM Unit := do
  let followed ← vol.followPath path
  match followed.result with
  | .error err => Action.fail err
  | .ok () => do
      let dir ← getDir
      if ¬vol.dirAtRoot dir then
        let sfn ← loadEntry
        if ¬sfn.isDir then Action.fail .path
        else vol.dirEnter sfn.sfnCluster

/-- A path without components leaves the place of its entry as it was on the
stack. -/
def fatStat (stack : Loc) : DirM DirInfo := do
  let followed ← vol.followPath path
  match followed.result with
  | .error err => Action.fail err
  | .ok () =>
    if subpathLen followed.path ≠ 0 then Action.fail .path
    else do
      vol.rewind (followed.loc.getD stack)
      vol.fatDirRead

/-! ## Deleting -/

/-- The loop of `fat_unlink` over a directory that must be empty. -/
def emptyLoop : Nat → DirM Unit
  | 0 => Action.hang
  | fuel + 1 => do
      let sfn ← loadEntry
      if sfn.sfnIsLast then pure ()
      else if ¬sfn.sfnIsFree then Action.fail .denied
      else
        vol.dirNext
        emptyLoop fuel

/-- The check of `fat_unlink` that a directory is empty, with a `Dir` of its
own. -/
def checkEmpty (clust : Nat) : DirM Unit := do
  let dir ← getDir
  vol.dirEnter clust
  vol.dirAdvance 2
  vol.emptyLoop vol.walkFuel
  modifyDir fun _ => dir

/-- `FAT_ATTR_RO | FAT_ATTR_SYS | FAT_ATTR_LABEL`. -/
def attrProtected : UInt8 := 0x0d

def fatUnlink : DirM Unit := do
  let followed ← vol.followPath path
  match followed.result with
  | .error err => Action.fail err
  | .ok () => do
      let dir ← getDir
      let sfn ← dirPtr
      if vol.dirAtRoot dir then Action.fail .denied
      else if sfn.attr &&& attrProtected ≠ 0 then Action.fail .denied
      else do
        if sfn.isDir then vol.checkEmpty sfn.sfnCluster
        (vol.removeChain sfn.sfnCluster).onFst
        vol.removeEntries (followed.loc.getD ⟨0, 0⟩)
        vol.syncFs.onFst

/-! ## Opening and creating -/

structure OpenFlags where
  write : Bool
  read : Bool
  append : Bool
  trunc : Bool
  create : Bool

/-- The first half of `fat_file_open`: the entry of the file, which is made if it
is missing. -/
def findFile (create : Bool) : DirM Entry := do
  let followed ← vol.followPath path
  match followed.result with
  | .ok () => dirPtr
  | .error .eof =>
    let len := lastSubpathLen followed.path
    if !create then Action.fail .denied
    else if len = 0 then Action.fail .path
    else do
      let clust ← vol.createChain.onFst
      vol.dirAdd (followed.path.take len) fatAttrArchive clust
      dirPtr
  | .error err => Action.fail err

/-- The record that `fat_file_open` fills in for an entry; the sector buffer of
the record is the caller's. -/
def fileOf (flags : OpenFlags) (dir : Dir) (sfn : Entry) (buf : Sector) : File :=
  let truncated := decide (sfn.size ≠ 0) && flags.trunc
  { dirSect := dir.sect
    dirIdx := dir.idx
    sclust := sfn.sfnCluster
    clust := sfn.sfnCluster
    sect := 0xffffffff
    size := if truncated then 0 else sfn.size
    offset := 0
    attr := sfn.attr
    flags :=
      { write := flags.write
        read := flags.read
        accessed := false
        modified := truncated
        fileDirty := false }
    buf := buf }

def stackDir : Dir where
  sclust := 0
  clust := 0
  sect := 0
  idx := 0

def fatFileOpen (flags : OpenFlags) (buf : Sector) : FatM File := do
  let (found, dir) ← (vol.findFile path flags.create).withSnd stackDir
  match found with
  | .error err => Action.fail err
  | .ok sfn => do
      let seek := if flags.append then Seek.fromEnd else Seek.start
      let (sought, file) ← (vol.fatFileSeek 0 seek).withSnd (fileOf flags dir sfn buf)
      match sought with
      | .error err => Action.fail err
      | .ok () => pure file

/-- The two entries of a new directory: its own one, and a copy that names the
parent. -/
def putDots (clust parent : Nat) (sector : Sector) : Sector :=
  let date := encodeDate fatGetTimestamp
  let time := encodeTime fatGetTimestamp
  let named := sector.write 0 (fullStop :: List.replicate 10 sfnPad ++ [0x10])
  let placed := (named.putWord16 20 (clust / 2 ^ 16)).putWord16 26 clust
  let created := (placed.putWord16 16 date).putWord16 14 time
  let modified := (created.putWord16 24 date).putWord16 22 time
  let dotted := modified.putWord16 18 date
  let copied := (dotted.write 32 (dotted.slice 0 32)).write 33 [fullStop]
  (copied.putWord16 52 (parent / 2 ^ 16)).putWord16 58 parent

def fatAttrDir : UInt8 := 0x10

/-- A path that exists is not an error, and nothing is entered then. -/
def fatDirCreate : DirM Unit := do
  let followed ← vol.followPath path
  match followed.result with
  | .ok () => pure ()
  | .error .eof =>
    let len := lastSubpathLen followed.path
    if len = 0 then Action.fail .path
    else do
      let clust ← vol.createChain.onFst
      (vol.clustClear clust).onFst
      (updateBuf (vol.clustToSect clust)).onFst
      let dir ← getDir
      let parent := if dir.sclust = vol.rootClust then 0 else dir.sclust
      (editBuf (putDots clust parent)).onFst
      vol.dirAdd (followed.path.take len) fatAttrDir clust
      vol.dirEnter clust
      vol.syncFs.onFst
  | .error err => Action.fail err

def fatSync : FatM Unit :=
  vol.syncFs

end Volume

/-! ## A mounted volume in use -/

/-- The volume, with the records of its callers. -/
structure FatSystem where
  fat : Fat
  files : Nat → Option File
  dirs : Nat → Option Dir

inductive FatCall where
  | fileOpen (handle : Nat) (path : Text) (flags : Volume.OpenFlags) (buf : Sector)
  | fileClose (handle : Nat)
  | fileRead (handle : Nat) (len : Nat)
  | fileWrite (handle : Nat) (src : List UInt8)
  | fileSeek (handle : Nat) (offset : Int) (seek : Seek)
  | fileSync (handle : Nat)
  | unlink (path : Text)
  | stat (path : Text) (stack : Loc)
  | dirCreate (handle : Nat) (path : Text)
  | dirOpen (handle : Nat) (path : Text)
  | dirRead (handle : Nat)
  | dirNext (handle : Nat)
  | dirRewind (handle : Nat)
  | sync

namespace FatSystem

variable (system : FatSystem)

def onFile {α : Type} (handle : Nat) (act : FileM α) : Option FatSystem :=
  (system.files handle).bind fun file =>
    (act (system.fat, file)).map fun (_, after) =>
      { system with
        fat := after.1
        files := update system.files handle (some after.2) }

def onDir {α : Type} (handle : Nat) (act : DirM α) : Option FatSystem :=
  (system.dirs handle).bind fun dir =>
    (act (system.fat, dir)).map fun (_, after) =>
      { system with
        fat := after.1
        dirs := update system.dirs handle (some after.2) }

/-- A call that fills in the record of a directory if it succeeds. -/
def newDir {α : Type} (handle : Nat) (act : DirM α) : Option FatSystem :=
  (act (system.fat, Volume.stackDir)).map fun (result, after) =>
    { system with
      fat := after.1
      dirs := update system.dirs handle
        (if result.isOk then some after.2 else none) }

def withDir {α : Type} (act : DirM α) : Option FatSystem :=
  (act (system.fat, Volume.stackDir)).map fun (_, after) =>
    { system with fat := after.1 }

variable (vol : Volume)

/-- There is no next state when a call does not return, or uses a record that was
not filled in. -/
def step : FatCall → Option FatSystem
  | .fileOpen handle path flags buf =>
    (vol.fatFileOpen path flags buf system.fat).map fun (result, fat) =>
      { system with
        fat := fat
        files := update system.files handle result.toOption }
  | .fileClose handle =>
    (system.onFile handle vol.fatFileClose).map fun closed =>
      { closed with files := update closed.files handle none }
  | .fileRead handle len => system.onFile handle (vol.fatFileRead len)
  | .fileWrite handle src => system.onFile handle (vol.fatFileWrite src)
  | .fileSeek handle offset seek =>
    system.onFile handle (vol.fatFileSeek offset seek)
  | .fileSync handle => system.onFile handle vol.fatFileSync
  | .unlink path => system.withDir (vol.fatUnlink path)
  | .stat path stack => system.withDir (vol.fatStat path stack)
  | .dirCreate handle path => system.newDir handle (vol.fatDirCreate path)
  | .dirOpen handle path => system.newDir handle (vol.fatDirOpen path)
  | .dirRead handle => system.onDir handle vol.fatDirRead
  | .dirNext handle => system.onDir handle vol.fatDirNext
  | .dirRewind handle => system.onDir handle vol.fatDirRewind
  | .sync =>
    (vol.fatSync system.fat).map fun (_, fat) => { system with fat := fat }

def idle (fat : Fat) : FatSystem where
  fat := fat
  files := fun _ => none
  dirs := fun _ => none

end FatSystem

end SeekOs.Fat32
