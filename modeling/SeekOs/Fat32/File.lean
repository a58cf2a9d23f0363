import SeekOs.Fat32.Table

/-!
# Open files

The functions of `fat32.c` on a `File`.  A handle keeps its place in the chain
and a buffer with one sector, which is read and written past the buffer of the
volume.
-/

namespace SeekOs.Fat32

open SeekOs.Lib

structure FileFlags where
  write : Bool
  read : Bool
  accessed : Bool
  modified : Bool
  fileDirty : Bool
  deriving DecidableEq

structure File where
  dirSect : Nat
  dirIdx : Nat
  sclust : Nat
  clust : Nat
  sect : Nat
  size : Nat
  offset : Nat
  attr : UInt8
  flags : FileFlags
  buf : Sector

abbrev FileM (α : Type) : Type :=
  Action (Fat × File) FatErr α

def getFile : FileM File := do
  let state ← Action.get
  pure state.2

def modifyFile (change : File → File) : FileM Unit :=
  Action.modify fun state => (state.1, change state.2)

inductive Seek where
  | start
  | curr
  | fromEnd
  deriving DecidableEq

structure Timestamp where
  hour : Nat
  min : Nat
  sec : Nat
  day : Nat
  month : Nat
  year : Nat

def fatGetTimestamp : Timestamp where
  hour := 0
  min := 0
  sec := 0
  day := 1
  month := 1
  year := 1980

def encodeDate (ts : Timestamp) : Nat :=
  (ts.year - 1980) % 2 ^ 6 * 2 ^ 9 + ts.month % 2 ^ 4 * 2 ^ 5 + ts.day % 2 ^ 5

def encodeTime (ts : Timestamp) : Nat :=
  ts.sec / 2 % 2 ^ 5 + ts.min % 2 ^ 6 * 2 ^ 5 + ts.hour % 2 ^ 5 * 2 ^ 11

def putAccDate (idx : Nat) (sector : Sector) : Sector :=
  sector.putWord16 (idx + 18) (encodeDate fatGetTimestamp)

def fatAttrArchive : UInt8 := 0x20

/-- What a modified file changes in its `Sfn`. -/
def putModified (idx size : Nat) (sector : Sector) : Sector :=
  let attr := sector.byte (idx + 11) ||| fatAttrArchive
  let sized := (sector.write (idx + 11) [attr]).putWord32 (idx + 28) size
  (sized.putWord16 (idx + 24) (encodeDate fatGetTimestamp)).putWord16 (idx + 22)
    (encodeTime fatGetTimestamp)

namespace Volume

variable (vol : Volume)

/-- The loop of `fat_file_seek` over the chain. -/
def followLoop : Nat → FileM Unit
  | 0 => pure ()
  | count + 1 => do
      let file ← getFile
      let (val, flags) ← (vol.getFat file.clust).onFst
      if flags = .bad ∨ flags = .free then Action.fail .broken
      let next ←
        if flags = .last then (vol.stretchChain file.clust).onFst
        else pure val
      modifyFile fun file => { file with clust := next }
      followLoop count

/-- The place that `fat_file_seek` starts from. -/
def seekBase (file : File) : Seek → Nat
  | .start => 0
  | .curr => file.offset
  | .fromEnd => file.size

/-- The new sector of a file, once its cluster is found. -/
def seekSect (file : File) (off : Nat) : Nat :=
  (vol.clustToSect file.clust + (off / 512 &&& vol.clustMsk)) % 2 ^ 32

/-- The end of `fat_file_seek`: the buffer follows the sector. -/
def switchBuf (ssect : Nat) : FileM Unit := do
  let file ← getFile
  if file.sect ≠ ssect then
    if file.flags.fileDirty then
      (diskWrite file.buf ssect).onFst
      modifyFile fun file =>
        { file with flags := { file.flags with fileDirty := false } }
    let data ← (diskRead file.sect).onFst
    modifyFile fun file => { file with buf := data }

def fatFileSeek (offset : Int) (seek : Seek) : FileM Unit := do
  let file ← getFile
  let ssect := file.sect
  let off64 : Int := seekBase file seek + offset
  if off64 < 0 ∨ 0xffffffff < off64 then Action.fail .eof
  let off := off64.toNat
  let clustSize := 512 * 2 ^ vol.clustShift
  let dstClust := off / clustSize
  let srcClust := file.offset / clustSize
  if dstClust < srcClust then
    modifyFile fun file =>
      { file with
        clust := file.sclust
        sect := vol.clustToSect file.sclust
        offset := 0 }
    vol.followLoop dstClust
  else
    vol.followLoop (dstClust - srcClust)
  modifyFile fun file =>
    { file with sect := vol.seekSect file off, offset := off }
  switchBuf ssect

/-- The loop of `fat_file_read`, with the bytes it has copied and the error that
ends it. -/
def readLoop : Nat → Nat → FileM (List UInt8 × Option FatErr)
  | _, 0 => pure ([], none)
  | 0, _ => Action.hang
  | fuel + 1, len => do
      let file ← getFile
      if file.offset < file.size then
        let idx := file.offset % 512
        let cnt := min len (min (512 - idx) (file.size - file.offset))
        let bytes := file.buf.slice idx cnt
        match ← (vol.fatFileSeek cnt .curr).outcome with
        | .error err => pure (bytes, some err)
        | .ok () => do
            let (rest, err) ← readLoop fuel (len - cnt)
            pure (bytes ++ rest, err)
      else
        pure ([], none)

/-- Every round copies a byte. -/
def fatFileRead (len : Nat) : FileM (List UInt8 × Option FatErr) := do
  let file ← getFile
  if !file.flags.read then Action.fail .denied
  modifyFile fun file =>
    { file with flags := { file.flags with accessed := true } }
  vol.readLoop len len

/-- The loop of `fat_file_write`, with the number of bytes it reports.  An error
of the seek ends the loop and is not reported. -/
def writeLoop : Nat → List UInt8 → FileM Nat
  | _, [] => pure 0
  | 0, _ => Action.hang
  | fuel + 1, src => do
      let file ← getFile
      let idx := file.offset % 512
      let cnt := min src.length (512 - idx)
      modifyFile fun file =>
        { file with
          buf := file.buf.write idx (src.take cnt)
          flags := { file.flags with fileDirty := true } }
      match ← (vol.fatFileSeek cnt .curr).outcome with
      | .error _ => pure cnt
      | .ok () => do
          let rest ← writeLoop fuel (src.drop cnt)
          pure (cnt + rest)

def fatFileWrite (src : List UInt8) : FileM Nat := do
  let file ← getFile
  if !file.flags.write then Action.fail .denied
  modifyFile fun file =>
    { file with
      flags := { file.flags with modified := true, accessed := true } }
  let bytes ← vol.writeLoop src.length src
  modifyFile fun file => { file with size := max file.size file.offset }
  pure bytes

/-- What `fat_file_sync` changes in the `Sfn` of the file. -/
def putEntry (file : File) (sector : Sector) : Sector :=
  let dated :=
    if file.flags.accessed then putAccDate file.dirIdx sector else sector
  if file.flags.modified then putModified file.dirIdx file.size dated
  else dated

def fatFileSync : FileM Unit := do
  let file ← getFile
  (diskWrite file.buf file.sect).onFst
  if file.flags.accessed ∨ file.flags.modified then
    (updateBuf file.dirSect).onFst
    (editBuf (putEntry file)).onFst
  vol.syncFs.onFst
  modifyFile fun file =>
    { file with flags := { file.flags with accessed := false, modified := false } }

def fatFileClose : FileM Unit :=
  vol.fatFileSync

end Volume

end SeekOs.Fat32
