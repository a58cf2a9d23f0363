import SeekOs.Fat32.File

/-!
# Directories

The functions of `fat32.c` on a `Dir`: a place in a directory, whose entry is
read from the sector buffer of the volume.  A long name stands in entries of its
own before the entry of the file; it is collected in the static buffer.
-/

namespace SeekOs.Fat32

open SeekOs.Fs SeekOs.Lib

structure Dir where
  sclust : Nat
  clust : Nat
  sect : Nat
  idx : Nat
  deriving DecidableEq

structure Loc where
  sect : Nat
  idx : Nat
  deriving DecidableEq

abbrev DirM (α : Type) : Type :=
  Action (Fat × Dir) FatErr α

def getDir : DirM Dir := do
  let state ← Action.get
  pure state.2

def modifyDir (change : Dir → Dir) : DirM Unit :=
  Action.modify fun state => (state.1, change state.2)

/-! ## Entries -/

/-- The entry at an index of a sector. -/
structure Entry where
  sector : Sector
  idx : Nat

namespace Entry

variable (entry : Entry)

def byte (offset : Nat) : UInt8 :=
  entry.sector.byte (entry.idx + offset)

def name : List UInt8 :=
  entry.sector.slice entry.idx 11

def attr : UInt8 :=
  entry.byte 11

def size : Nat :=
  entry.sector.word32 (entry.idx + 28)

def seq : UInt8 :=
  entry.byte 0

def crc : UInt8 :=
  entry.byte 13

def sfnIsLast : Prop :=
  entry.byte 0 = 0

def sfnIsFree : Prop :=
  entry.byte 0 = 0 ∨ entry.byte 0 = 0xe5

def sfnIsLfn : Prop :=
  entry.attr = 0x0f

def isDir : Prop :=
  entry.attr &&& 0x10 ≠ 0

instance : Decidable entry.sfnIsLast :=
  inferInstanceAs (Decidable (_ = _))

instance : Decidable entry.sfnIsFree :=
  inferInstanceAs (Decidable (_ ∨ _))

instance : Decidable entry.sfnIsLfn :=
  inferInstanceAs (Decidable (_ = _))

instance : Decidable entry.isDir :=
  inferInstanceAs (Decidable (_ ≠ _))

def sfnCluster : Nat :=
  entry.sector.word16 (entry.idx + 20) * 2 ^ 16 + entry.sector.word16 (entry.idx + 26)

end Entry

def dirPtr : DirM Entry := do
  let state ← Action.get
  pure ⟨state.1.cache.block, state.2.idx⟩

/-! ## Names -/

def toUpper (c : UInt8) : UInt8 :=
  if 0x61 ≤ c ∧ c ≤ 0x7a then c &&& 0xdf else c

/-- `name_eq` of two names of one length. -/
def nameEq (a b : List UInt8) : Prop :=
  a.map toUpper = b.map toUpper

instance (a b : List UInt8) : Decidable (nameEq a b) :=
  inferInstanceAs (Decidable (_ = _))

def subpathLen (path : Text) : Nat :=
  (path.takeWhile (· ≠ slash)).length

def lastSubpathLen (path : Text) : Nat :=
  let len := subpathLen path
  if (path.drop len).dropWhile (· = slash) = [] then len else 0

def getCrc (name : List UInt8) : UInt8 :=
  name.foldl (fun sum byte => ((sum &&& 1) <<< 7) + (sum >>> 1) + byte) 0

/-- The special characters that are allowed in a short name. -/
def sfnSpecial : List UInt8 :=
  [0x21, 0x23, 0x24, 0x25, 0x26, 0x27, 0x28, 0x29, 0x2d, 0x40, 0x5e, 0x5f, 0x60,
    0x7b, 0x7d, 0x7e, 0x20]

def sfnChar (c : UInt8) : UInt8 :=
  let c := toUpper c
  if (0x41 ≤ c ∧ c ≤ 0x5a) ∨ (0x30 ≤ c ∧ c ≤ 0x39) ∨ c ∈ sfnSpecial then c
  else 0x5f

def sfnPad : UInt8 := 0x20

def fullStop : UInt8 := 0x2e

/-- Characters of a short name, filled up with `SFN_PAD`. -/
def padSfn (width : Nat) (chars : List UInt8) : List UInt8 :=
  chars.map sfnChar ++ List.replicate (width - chars.length) sfnPad

def putSfnName (name : List UInt8) : List UInt8 :=
  let base := (name.take 8).takeWhile (· ≠ fullStop)
  let rest := ((name.drop base.length).dropWhile (· ≠ fullStop)).drop 1
  padSfn 8 base ++ padSfn 3 (rest.take 3)

def lfnIndices : List Nat :=
  [1, 3, 5, 7, 9, 14, 16, 18, 20, 22, 24, 28, 30]

/-- The two bytes that `put_lfn_name_frag` stores for the i-th character. -/
def lfnChar (frag : List UInt8) (i : Nat) : List UInt8 :=
  if i < frag.length then [frag.getD i 0, 0]
  else if i = frag.length then [0, 0]
  else [0xff, 0xff]

def putLfnNameFrag (idx : Nat) (frag : List UInt8) (sector : Sector) :
    Sector :=
  lfnIndices.zipIdx.foldl (fun sector (offset, i) => sector.write (idx + offset) (lfnChar frag i))
    sector

/-- The characters of a fragment, up to the first zero.  Comparing a `char` with
`0xff` never succeeds. -/
def Entry.lfnFrag (entry : Entry) : List UInt8 :=
  (lfnIndices.map entry.byte).takeWhile (· ≠ 0)

/-! ## Moving in a directory -/

namespace Volume

variable (vol : Volume)

def sectToClust (sect : Nat) : Nat :=
  (sect + (2 ^ 32 - vol.dataSect)) % 2 ^ 32 / 2 ^ vol.clustShift + 2

def dirAtClust (clust : Nat) : DirM Unit :=
  modifyDir fun dir =>
    { dir with clust := clust, sect := vol.clustToSect clust, idx := 0 }

/-- Cluster zero stands for the root. -/
def dirEnter (clust : Nat) : DirM Unit := do
  let clust := if clust = 0 then vol.rootClust else clust
  modifyDir fun dir => { dir with sclust := clust }
  vol.dirAtClust clust

def dirNext : DirM Unit := do
  let dir ← getDir
  if dir.idx + 32 < 512 then
    modifyDir fun dir => { dir with idx := dir.idx + 32 }
  else
    modifyDir fun dir =>
      { dir with idx := 0, sect := (dir.sect + 1) % 2 ^ 32 }
    if (dir.sect + 1) % 2 ^ 32 &&& vol.clustMsk = 0 then
      let (next, flags) ← (vol.getFat dir.clust).onFst
      match flags with
      | .bad => Action.fail .broken
      | .free => Action.fail .broken
      | .last => Action.fail .eof
      | .used => vol.dirAtClust next

def dirAdvance : Nat → DirM Unit
  | 0 => pure ()
  | cnt + 1 => do
      vol.dirNext
      dirAdvance cnt

def dirNextStretch : DirM Unit := do
  match ← vol.dirNext.outcome with
  | .ok () => pure ()
  | .error .eof => do
      let dir ← getDir
      let next ← (vol.stretchChain dir.clust).onFst
      vol.dirAtClust next
      (vol.clustClear next).onFst
  | .error err => Action.fail err

end Volume

/-- `update_buf(dir->fat, dir->sect)`, and the entry there. -/
def loadEntry : DirM Entry := do
  let dir ← getDir
  (updateBuf dir.sect).onFst
  dirPtr

/-- `dir->fat->buf` is changed at the place of the directory. -/
def editEntry (change : Nat → Sector → Sector) : DirM Unit := do
  let dir ← getDir
  (editBuf (change dir.idx)).onFst

def setGBuf (pos : Nat) (chars : List UInt8) : DirM Unit :=
  Action.modify fun state =>
    ({ state.1 with gBuf := state.1.gBuf.write pos chars }, state.2)

/-- What `dir_add` stores in the entry of a fragment. -/
def putLfn (frag : List UInt8) (seq crc : UInt8) (idx : Nat)
    (sector : Sector) : Sector :=
  let named := (putLfnNameFrag idx frag sector).write (idx + 11) [0x0f]
  ((named.write idx [seq]).write (idx + 12) [0, crc]).putWord16 (idx + 26) 0

/-- What `dir_add` stores in the entry of the file: every byte of it. -/
def putSfn (sfnName : List UInt8) (attr : UInt8) (clust : Nat) (idx : Nat)
    (sector : Sector) : Sector :=
  let date := encodeDate fatGetTimestamp
  let time := encodeTime fatGetTimestamp
  let named := sector.write idx (sfnName ++ [attr, 0, 0])
  let created := (named.putWord16 (idx + 14) time).putWord16 (idx + 16) date
  let accessed := (created.putWord16 (idx + 18) date).putWord16 (idx + 20) (clust / 2 ^ 16)
  let modified := (accessed.putWord16 (idx + 22) time).putWord16 (idx + 24) date
  (modified.putWord16 (idx + 26) clust).putWord32 (idx + 28) 0

namespace Volume

variable (vol : Volume)

/-- The loop of `parse_lfn_name` from an entry on; it returns `g_len`. -/
def lfnLoop (crc : UInt8) : Nat → Nat → Entry → DirM Nat
  | 0, len, _ => pure len
  | cnt + 1, len, lfn => do
      if lfn.attr ≠ 0x0f ∨ lfn.crc ≠ crc then Action.fail .broken
      setGBuf (13 * cnt) lfn.lfnFrag
      vol.dirNext
      let following ← loadEntry
      lfnLoop crc cnt (len + lfn.lfnFrag.length) following

/-- It returns `g_crc` and `g_len`. -/
def parseLfnName : DirM (UInt8 × Nat) := do
  let lfn ← loadEntry
  let cnt := (lfn.seq &&& 0x1f).toNat
  if 20 < cnt then Action.fail .broken
  let len ← vol.lfnLoop lfn.crc cnt 0 lfn
  if 255 < len then Action.fail .broken
  pure (lfn.crc, len)

/-- `g_buf` holds the name, compared as in `dir_search`. -/
def lfnMatches (name : List UInt8) (len : Nat) : DirM Bool := do
  let state ← Action.get
  pure (decide (len = name.length ∧ nameEq (state.1.gBuf.slice 0 len) name))

/-- The loop of `dir_search`; it returns where the entries of the file start. -/
def searchLoop (name : List UInt8) : Nat → DirM Loc
  | 0 => Action.hang
  | fuel + 1 => do
      let dir ← getDir
      let sfn ← loadEntry
      if sfn.sfnIsLast then
        Action.fail .eof
      else if sfn.sfnIsFree then
        vol.dirNext
        searchLoop name fuel
      else if sfn.sfnIsLfn then
        let (crc, len) ← vol.parseLfnName
        let sfn ← dirPtr
        if sfn.sfnIsFree ∨ sfn.sfnIsLfn ∨ crc ≠ getCrc sfn.name then
          Action.fail .broken
        if ← lfnMatches name len then
          pure ⟨dir.sect, dir.idx⟩
        else
          vol.dirNext
          searchLoop name fuel
      else if putSfnName name = sfn.name then
        pure ⟨dir.sect, dir.idx⟩
      else
        vol.dirNext
        searchLoop name fuel

/-- A walk that goes on after this many entries goes on forever. -/
def walkFuel : Nat :=
  (vol.clustCnt + 1) * (2 ^ vol.clustShift * 16) + 1

def dirSearch (name : List UInt8) : DirM Loc := do
  let dir ← getDir
  vol.dirAtClust dir.sclust
  vol.searchLoop name vol.walkFuel

def dirAtRoot (dir : Dir) : Prop :=
  dir.clust = vol.rootClust ∧ dir.sect = vol.clustToSect vol.rootClust ∧ dir.idx = 0

instance (dir : Dir) : Decidable (vol.dirAtRoot dir) :=
  inferInstanceAs (Decidable (_ ∧ _))

/-- What `follow_path` returns: the error, the rest of the path, and where the
entries of the last component start. -/
structure Followed where
  result : Except FatErr Unit
  path : Text
  loc : Option Loc

/-- The loop of `follow_path`: every round takes a component off the path. -/
def followPathLoop : Nat → Text → Nat → Bool → Option Loc → DirM Followed
  | 0, _, _, _, _ => Action.hang
  | fuel + 1, path, dirClust, dirEnterable, loc => do
      let path := path.dropWhile (· = slash)
      let len := subpathLen path
      if len = 0 then
        pure ⟨.ok (), path, loc⟩
      else if !dirEnterable then
        pure ⟨.error .path, path, loc⟩
      else
        vol.dirEnter dirClust
        match ← (vol.dirSearch (path.take len)).outcome with
        | .error err => pure ⟨.error err, path, loc⟩
        | .ok found => do
            let sfn ← dirPtr
            followPathLoop fuel (path.drop len) sfn.sfnCluster (decide sfn.isDir) (some found)

/-- The first component names the volume. -/
def followPath (path : Text) : DirM Followed :=
  match path with
  | [] => pure ⟨.error .path, path, none⟩
  | first :: str =>
    let len := subpathLen str
    if first ≠ slash ∨ len = 0 ∨ ¬nameEq (str.take len) vol.name then
      pure ⟨.error .path, path, none⟩
    else do
      vol.dirEnter vol.rootClust
      let dir ← getDir
      vol.followPathLoop (path.length + 1) (str.drop len) dir.clust true none

/-- The loop of `remove_entries` up to the given place. -/
def removeEntriesLoop (last : Loc) : Nat → DirM Unit
  | 0 => Action.hang
  | fuel + 1 => do
      let _ ← loadEntry
      editEntry fun idx sector => sector.write idx [0xe5]
      let dir ← getDir
      if dir.sect ≠ last.sect ∨ dir.idx ≠ last.idx then
        vol.dirNext
        removeEntriesLoop last fuel

def rewind (loc : Loc) : DirM Unit :=
  modifyDir fun dir =>
    { dir with
      clust := vol.sectToClust loc.sect
      sect := loc.sect
      idx := loc.idx }

def removeEntries (loc : Loc) : DirM Unit := do
  let dir ← getDir
  vol.rewind loc
  vol.removeEntriesLoop ⟨dir.sect, dir.idx⟩ vol.walkFuel

/-- The first loop of `dir_add`: the place of the first of enough free entries
in a row, and whether the end of the directory was met. -/
def findFreeEntries (wanted : Nat) :
    Nat → Nat → Bool → Loc → DirM (Bool × Loc)
  | 0, _, _, _ => Action.hang
  | fuel + 1, cnt, eod, loc => do
      if wanted ≤ cnt then
        pure (eod, loc)
      else
        let dir ← getDir
        let sfn ← loadEntry
        let usable : Bool := eod || decide sfn.sfnIsFree
        let loc := if usable ∧ cnt = 0 then ⟨dir.sect, dir.idx⟩ else loc
        vol.dirNextStretch
        findFreeEntries wanted fuel (if usable then cnt + 1 else 0)
          (eod || decide sfn.sfnIsLast) loc

/-- The second loop of `dir_add`: the entries of the fragments, the last one
first. -/
def putFragments (name : List UInt8) (crc : UInt8) :
    Nat → UInt8 → DirM Unit
  | 0, _ => pure ()
  | i + 1, mask => do
      let _ ← loadEntry
      editEntry (putLfn ((name.drop (13 * i)).take 13) (mask ||| .ofNat (i + 1)) crc)
      vol.dirNext
      putFragments name crc i 0

/-- A search that goes on after every cluster was taken goes on forever. -/
def addFuel : Nat :=
  2 * vol.walkFuel

def dirAdd (name : List UInt8) (attr : UInt8) (clust : Nat) : DirM Unit := do
  if name.length = 0 ∨ 255 < name.length then Action.fail .param
  let lfns := (name.length + 12) / 13
  let dir ← getDir
  vol.dirEnter dir.sclust
  let (eod, loc) ← vol.findFreeEntries (lfns + 1) vol.addFuel 0 false ⟨0, 0⟩
  if eod then
    let _ ← loadEntry
    editEntry fun idx sector => sector.write idx [0]
  vol.rewind loc
  let sfnName := putSfnName name
  vol.putFragments name (getCrc sfnName) lfns 0x40
  let _ ← loadEntry
  editEntry (putSfn sfnName attr clust)

end Volume

end SeekOs.Fat32
