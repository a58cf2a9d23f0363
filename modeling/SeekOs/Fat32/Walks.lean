import SeekOs.Fat32.Calls
import SeekOs.Fat32.TableSteps

/-!
# Walks through directories only read

Following a path and listing a directory load sectors into the buffer of the
volume and collect names in the static buffer.  Whatever these two steps keep is
kept by every walk.
-/

namespace SeekOs.Fat32

open SeekOs.Fs SeekOs.Lib SeekOs.Lib.Action

variable {fails : FatErr → Fat × Dir → Prop} {hangs : Prop} {state : Fat × Dir}

theorem meets_getDir {returns : Dir → Fat × Dir → Prop} :
    Meets getDir state hangs returns fails ↔ returns state.2 state := Iff.rfl

theorem meets_modifyDir {fat : Fat} {dir : Dir} (change : Dir → Dir)
    {returns : Unit → Fat × Dir → Prop} :
    Meets (modifyDir change) (fat, dir) hangs returns fails ↔
      returns () (fat, change dir) := Iff.rfl

theorem meets_dirPtr {returns : Entry → Fat × Dir → Prop} : Meets dirPtr state hangs returns fails ↔
      returns ⟨state.1.cache.block, state.2.idx⟩ state := Iff.rfl

/-- A property that loading a sector cannot change. -/
structure LoadClosed (holds : Fat → Prop) : Prop where
  quiet : ∀ fat, holds fat → fat.Quiet
  load : ∀ fat sect, holds fat → holds (fat.setCache (fat.cache.load sect))
  gBuf : ∀ fat gBuf, holds fat → holds { fat with gBuf := gBuf }

namespace LoadClosed

variable {holds : Fat → Prop} (vol : Volume)

theorem getDir : Keeps getDir fun state => holds state.1 := Keeps.get.bind fun _ => Keeps.pure _

theorem modifyDir (change : Dir → Dir) : Keeps (modifyDir change) fun state => holds state.1 :=
  Keeps.modify fun _ held => held

theorem dirPtr : Keeps dirPtr fun state => holds state.1 := Keeps.get.bind fun _ => Keeps.pure _

theorem dirAtClust (clust : Nat) : Keeps (vol.dirAtClust clust) fun state => holds state.1 :=
  modifyDir _

theorem dirEnter (clust : Nat) : Keeps (vol.dirEnter clust) fun state => holds state.1 :=
  (modifyDir _).bind fun _ => dirAtClust vol _

theorem rewind (loc : Loc) : Keeps (vol.rewind loc) fun state => holds state.1 := modifyDir _

theorem lfnMatches (name : List UInt8) (len : Nat) :
    Keeps (Volume.lfnMatches name len) fun state => holds state.1 :=
  Keeps.get.bind fun _ => Keeps.pure _

theorem infoHere (len : Nat) : Keeps (infoHere len) fun state => holds state.1 :=
  Keeps.get.bind fun _ => dirPtr.bind fun _ => Keeps.pure _

variable (closed : LoadClosed holds)
include closed

theorem updateBuf (sect : Nat) : Keeps (updateBuf sect) holds := by
  intro fat held
  rw [meets_updateBuf (closed.quiet fat held)]
  exact closed.load fat sect held

theorem getFat (clust : Nat) : Keeps (vol.getFat clust) holds := by
  intro fat held
  rw [meets_getFat vol (closed.quiet fat held)]
  split
  · exact closed.load fat _ held
  · exact closed.load fat _ held

theorem loadEntry : Keeps loadEntry fun state => holds state.1 := by
  apply getDir.bind
  intro dir
  apply (closed.updateBuf dir.sect).fst.bind
  intro _
  exact dirPtr

theorem setGBuf (pos : Nat) (chars : List UInt8) :
    Keeps (setGBuf pos chars) fun state => holds state.1 :=
  Keeps.modify fun state held => closed.gBuf state.1 _ held

theorem dirNext : Keeps vol.dirNext fun state => holds state.1 := by
  apply getDir.bind
  intro dir
  apply Keeps.ite
  · exact modifyDir _
  · apply (modifyDir _).bind
    intro _
    apply Keeps.ite
    · apply (closed.getFat vol dir.clust).fst.bind
      rintro ⟨next, flags⟩
      cases flags with
      | bad => exact Keeps.fail _
      | free => exact Keeps.fail _
      | last => exact Keeps.fail _
      | used => exact dirAtClust vol next
    · exact Keeps.pure _

/-! ## Names -/

theorem lfnLoop (crc : UInt8) (cnt : Nat) (len : Nat) (lfn : Entry) :
    Keeps (vol.lfnLoop crc cnt len lfn) fun state => holds state.1 := by
  induction cnt generalizing len lfn with
  | zero => exact Keeps.pure _
  | succ cnt induction =>
    apply Keeps.ite
    · exact Keeps.fail_bind _ _
    · apply (closed.setGBuf _ _).bind
      intro _
      apply (closed.dirNext vol).bind
      intro _
      exact closed.loadEntry.bind fun following => induction _ following

theorem parseLfnName : Keeps vol.parseLfnName fun state => holds state.1 := by
  apply closed.loadEntry.bind
  intro lfn
  apply Keeps.ite
  · exact Keeps.fail_bind _ _
  · apply (closed.lfnLoop vol _ _ _ _).bind
    intro len
    apply Keeps.ite
    · exact Keeps.fail_bind _ _
    · exact Keeps.pure _

theorem searchLoop (name : List UInt8) (fuel : Nat) :
    Keeps (vol.searchLoop name fuel) fun state => holds state.1 := by
  induction fuel with
  | zero => exact Keeps.hang
  | succ fuel induction =>
    have onward : Keeps (vol.dirNext >>= fun _ => vol.searchLoop name fuel)
        fun state => holds state.1 :=
      (closed.dirNext vol).bind fun _ => induction
    apply getDir.bind
    intro dir
    apply closed.loadEntry.bind
    intro sfn
    apply Keeps.ite
    · exact Keeps.fail _
    · apply Keeps.ite
      · exact onward
      · apply Keeps.ite
        · apply (closed.parseLfnName vol).bind
          rintro ⟨crc, len⟩
          apply dirPtr.bind
          intro sfn
          apply Keeps.ite
          · exact Keeps.fail_bind _ _
          · apply (lfnMatches name len).bind
            intro found
            apply Keeps.ite
            · exact Keeps.pure _
            · exact onward
        · apply Keeps.ite
          · exact Keeps.pure _
          · exact onward

theorem dirSearch (name : List UInt8) : Keeps (vol.dirSearch name) fun state => holds state.1 := by
  apply getDir.bind
  intro dir
  apply (dirAtClust vol _).bind
  intro _
  exact closed.searchLoop vol name _

/-! ## Paths -/

theorem followPathLoop (fuel : Nat) (path : Text) (dirClust : Nat)
    (enterable : Bool) (loc : Option Loc) :
    Keeps (vol.followPathLoop fuel path dirClust enterable loc) fun state => holds state.1 := by
  induction fuel generalizing path dirClust enterable loc with
  | zero => exact Keeps.hang
  | succ fuel induction =>
    apply Keeps.ite
    · exact Keeps.pure _
    · apply Keeps.ite
      · exact Keeps.pure _
      · apply (dirEnter vol _).bind
        intro _
        apply (closed.dirSearch vol _).outcome.bind
        intro result
        cases result with
        | error err => exact Keeps.pure _
        | ok found => exact dirPtr.bind fun sfn => induction _ _ _ _

theorem followPath (path : Text) : Keeps (vol.followPath path) fun state => holds state.1 := by
  cases path with
  | nil => exact Keeps.pure _
  | cons first str =>
    apply Keeps.ite
    · exact Keeps.pure _
    · apply (dirEnter vol _).bind
      intro _
      exact getDir.bind fun dir => closed.followPathLoop vol _ _ _ _ _

/-! ## Calls that only read -/

theorem fatDirRead : Keeps vol.fatDirRead fun state => holds state.1 := by
  unfold Volume.fatDirRead
  induction vol.walkFuel with
  | zero => exact Keeps.hang
  | succ fuel induction =>
    apply closed.loadEntry.bind
    intro sfn
    apply Keeps.ite
    · exact Keeps.fail _
    · apply Keeps.ite
      · exact (closed.dirNext vol).bind fun _ => induction
      · apply Keeps.ite
        · apply (closed.parseLfnName vol).bind
          rintro ⟨crc, len⟩
          apply closed.loadEntry.bind
          intro sfn
          apply Keeps.ite
          · exact Keeps.fail _
          · exact infoHere len
        · apply (closed.setGBuf _ _).bind
          intro _
          exact infoHere _

theorem fatDirOpen (path : Text) : Keeps (vol.fatDirOpen path) fun state => holds state.1 := by
  apply (closed.followPath vol path).bind
  rintro ⟨result, rest, loc⟩
  cases result with
  | error err => exact Keeps.fail _
  | ok _ =>
    apply getDir.bind
    intro dir
    apply Keeps.ite
    · apply closed.loadEntry.bind
      intro sfn
      apply Keeps.ite
      · exact Keeps.fail _
      · exact dirEnter vol _
    · exact Keeps.pure _

theorem fatStat (path : Text) (stack : Loc) :
    Keeps (vol.fatStat path stack) fun state => holds state.1 := by
  apply (closed.followPath vol path).bind
  rintro ⟨result, rest, loc⟩
  cases result with
  | error err => exact Keeps.fail _
  | ok _ =>
    apply Keeps.ite
    · exact Keeps.fail _
    · exact (rewind vol _).bind fun _ => closed.fatDirRead vol

theorem findFile (path : Text) : Keeps (vol.findFile path false) fun state => holds state.1 := by
  apply (closed.followPath vol path).bind
  rintro ⟨result, rest, loc⟩
  cases result with
  | ok _ => exact dirPtr
  | error err => cases err <;> exact Keeps.fail _

end LoadClosed

end SeekOs.Fat32
