import SeekOs.Fat32.TableCopies

/-!
# What the calls take for the root

No entry points to the root, so `fat_dir_open` and `fat_unlink` test whether
`follow_path` has left the place at its start.  The place of an entry in the
first slot of the root is the same.
-/

namespace SeekOs.Fat32

open SeekOs.Fs SeekOs.Lib SeekOs.Lib.Action Volume FailsOnly

/-! ## Where a search ends -/

/-- The sector of the place is in the buffer. -/
def Loaded (state : Fat × Dir) : Prop :=
  state.1.cache.address = state.2.sect

theorem updateBuf_loads (sect : Nat) (fat : Fat) : Meets (updateBuf sect) fat True
      (fun _ after => after.cache.address = sect) (fun _ _ => True) := by
  rw [updateBuf, meets_bind, meets_get]
  split
  · apply (Meets.any syncBuf fat).bind
    intro _ synced _
    apply (Meets.any diskAccess synced).bind
    intro _ accessed _
    exact WriteBack.load_address _ _
  · rename_i same
    exact not_not.mp same

theorem loadEntry_loads (state : Fat × Dir) : Meets loadEntry state True
      (fun entry after => after.2 = state.2 ∧ Loaded after ∧
        entry = ⟨after.1.cache.block, after.2.idx⟩)
      (fun _ _ => True) := by
  obtain ⟨fat, dir⟩ := state
  change Meets (getDir >>= fun dir => (updateBuf dir.sect).onFst >>=
    fun _ => dirPtr) (fat, dir) _ _ _
  change Meets ((updateBuf dir.sect).onFst >>= fun _ => dirPtr) _ _ _ _
  rw [meets_bind, meets_onFst]
  apply (updateBuf_loads dir.sect fat).imp id
  · intro _ after loaded
    exact ⟨rfl, loaded, rfl⟩
  · exact fun _ _ _ => trivial

namespace Volume

variable (vol : Volume) {state : Fat × Dir}

theorem lfnLoop_loads (crc : UInt8) (cnt len : Nat) (lfn : Entry) (loaded : Loaded state) :
    Meets (vol.lfnLoop crc cnt len lfn) state True (fun _ => Loaded) (fun _ _ => True) := by
  induction cnt generalizing len lfn state with
  | zero => exact loaded
  | succ cnt induction =>
    rw [lfnLoop]
    split
    · trivial
    · apply (Meets.any (setGBuf _ _) state).bind
      intro _ stored _
      apply (Meets.any vol.dirNext stored).bind
      intro _ moved _
      apply (loadEntry_loads moved).bind
      rintro following after ⟨_, loadedAfter, _⟩
      exact induction _ following loadedAfter

theorem parseLfnName_loads (state : Fat × Dir) :
    Meets vol.parseLfnName state True (fun _ => Loaded) (fun _ _ => True) := by
  apply (loadEntry_loads state).bind
  rintro lfn read ⟨_, loaded, _⟩
  change Meets (ite _ _ _) read _ _ _
  split
  · trivial
  · apply (vol.lfnLoop_loads lfn.crc _ 0 lfn loaded).bind
    intro len after loadedAfter
    split
    · trivial
    · exact loadedAfter

theorem searchLoop_loads (name : List UInt8) (fuel : Nat) (state : Fat × Dir) :
    Meets (vol.searchLoop name fuel) state True (fun _ => Loaded) (fun _ _ => True) := by
  induction fuel generalizing state with
  | zero => trivial
  | succ fuel induction =>
    have onward : ∀ state, Meets (vol.dirNext >>= fun _ => vol.searchLoop name fuel) state True
        (fun _ => Loaded) (fun _ _ => True) := by
      intro state
      apply (Meets.any vol.dirNext state).bind
      exact fun _ after _ => induction after
    rw [searchLoop, meets_bind]
    apply (loadEntry_loads state).bind
    rintro sfn read ⟨_, loaded, _⟩
    split
    · trivial
    · split
      · exact onward read
      · split
        · apply (vol.parseLfnName_loads read).bind
          rintro ⟨crc, len⟩ parsed loadedParsed
          change Meets (ite _ _ _) parsed _ _ _
          split
          · trivial
          · rw [meets_bind]
            change Meets (ite _ _ _) parsed _ _ _
            split
            · exact loadedParsed
            · exact onward parsed
        · split
          · exact loaded
          · exact onward read

theorem dirSearch_loads (name : List UInt8) (state : Fat × Dir) :
    Meets (vol.dirSearch name) state True (fun _ => Loaded) (fun _ _ => True) := by
  apply (Meets.any getDir state).bind
  intro dir _ _
  apply (Meets.any (vol.dirAtClust dir.sclust) _).bind
  exact fun _ after _ => vol.searchLoop_loads name _ after

theorem followPathLoop_loads (fuel : Nat) (path : Text) (dirClust : Nat)
    (enterable : Bool) (loc : Option Loc)
    (loaded : loc.isSome → Loaded state) :
    Meets (vol.followPathLoop fuel path dirClust enterable loc) state True
      (fun followed after => followed.result = .ok () → followed.loc.isSome → Loaded after)
      (fun _ _ => True) := by
  induction fuel generalizing path dirClust enterable loc state with
  | zero => trivial
  | succ fuel induction =>
    change Meets (ite _ _ _) state _ _ _
    split
    · exact fun _ found => loaded found
    · split
      · exact nofun
      · apply (Meets.any (vol.dirEnter dirClust) state).bind
        intro _ entered _
        rw [meets_bind, meets_outcome]
        apply (vol.dirSearch_loads _ entered).imp id
        · intro found after loadedAfter
          rw [meets_bind, meets_dirPtr]
          exact induction _ _ _ (some found) fun _ => loadedAfter
        · intro _ after _
          exact nofun

theorem followPath_loads (path : Text) (state : Fat × Dir) : Meets (vol.followPath path) state True
      (fun followed after => followed.result = .ok () → followed.loc.isSome → Loaded after)
      (fun _ _ => True) := by
  cases path with
  | nil => exact nofun
  | cons first str =>
    rw [followPath]
    split
    · exact nofun
    · apply (Meets.any (vol.dirEnter vol.rootClust) state).bind
      intro _ entered _
      apply (Meets.any getDir entered).bind
      intro dir after _
      exact vol.followPathLoop_loads _ _ _ _ none nofun

/-! ## Calls that cannot be denied -/

end Volume

/-- The call does not return `FAT_ERR_DENIED`. -/
def NeverDenied {σ α : Type} (act : Action σ FatErr α) : Prop :=
  act.FailsOnly (· ≠ .denied)

namespace NeverDenied

theorem diskAccess : NeverDenied diskAccess :=
  .bind .get fun _ => .bind (.modify _) fun _ => .ite (.fail nofun) (.pure _)

theorem syncBuf : NeverDenied syncBuf :=
  .bind .get fun _ =>
    .ite (.bind diskAccess fun _ => .modify _) (.pure _)

theorem updateBuf (sect : Nat) : NeverDenied (updateBuf sect) :=
  .bind .get fun _ =>
    .ite (.bind syncBuf fun _ => .bind diskAccess fun _ => .modify _) (.pure _)

theorem putFat2 (fatSect clust val : Nat) : NeverDenied (putFat2 fatSect clust val) :=
  .bind (updateBuf _) fun _ => .modify _

variable (vol : Volume)

theorem getFat (clust : Nat) : NeverDenied (vol.getFat clust) := by
  apply FailsOnly.bind (updateBuf _)
  intro _
  apply FailsOnly.bind .get
  intro fat
  split
  · exact .fail nofun
  · exact .pure _

theorem putFat (clust val : Nat) : NeverDenied (vol.putFat clust val) := by
  unfold Volume.putFat
  split
  · exact .bind (putFat2 _ _ _) fun _ => putFat2 _ _ _
  · exact putFat2 _ _ _

theorem syncFs : NeverDenied vol.syncFs := by
  apply bind syncBuf
  intro _
  apply FailsOnly.bind .get
  intro fat
  apply FailsOnly.ite
  · exact .bind (updateBuf _) fun _ => .bind (.modify _) fun _ =>
      .bind syncBuf fun _ => .modify _
  · exact .pure _

theorem removeLoop (fuel clust : Nat) : NeverDenied (vol.removeLoop fuel clust) := by
  induction fuel generalizing clust with
  | zero => exact .hang
  | succ fuel induction =>
    apply bind (getFat vol clust)
    rintro ⟨next, flags⟩
    have rest : NeverDenied (do
        vol.putFat clust 0
        Action.modify fun fat : Fat =>
          { fat with freeCnt := (fat.freeCnt + 1) % 2 ^ 32 }
        if flags ≠ .last then vol.removeLoop fuel next) :=
      .bind (putFat vol clust 0) fun _ => .bind (.modify _) fun _ =>
        .ite (induction next) (.pure _)
    apply FailsOnly.ite
    · exact .bind (.fail nofun) fun _ => rest
    · exact rest

theorem removeChain (clust : Nat) : NeverDenied (vol.removeChain clust) :=
  .bind (.modify _) fun _ => .bind (removeLoop vol _ clust) fun _ => syncFs vol

theorem dirNext : NeverDenied vol.dirNext := by
  apply FailsOnly.bind (.bind .get fun _ => .pure _)
  intro dir
  apply FailsOnly.ite
  · exact .modify _
  · apply FailsOnly.bind (.modify _)
    intro _
    apply FailsOnly.ite
    · apply bind (getFat vol dir.clust).onFst
      rintro ⟨next, flags⟩
      cases flags with
      | bad => exact .fail nofun
      | free => exact .fail nofun
      | last => exact .fail nofun
      | used => exact .modify _
    · exact .pure _

theorem loadEntry : NeverDenied loadEntry :=
  .bind (.bind .get fun _ => .pure _) fun dir =>
    .bind (updateBuf dir.sect).onFst fun _ => .bind .get fun _ => .pure _

theorem removeEntries (loc : Loc) : NeverDenied (vol.removeEntries loc) := by
  have loop : ∀ last fuel, NeverDenied (vol.removeEntriesLoop last fuel) := by
    intro last fuel
    induction fuel with
    | zero => exact .hang
    | succ fuel induction =>
      apply bind loadEntry
      intro _
      apply FailsOnly.bind (.bind (.bind .get fun _ => .pure _) fun _ =>
        FailsOnly.onFst (.modify _))
      intro _
      apply FailsOnly.bind (.bind .get fun _ => .pure _)
      intro dir
      exact .ite (.bind (dirNext vol) fun _ => induction) (.pure _)
  exact .bind (.bind .get fun _ => .pure _) fun _ =>
    .bind (.modify _) fun _ => loop _ _

end NeverDenied

/-! ## The root check -/

/-- The entry at a place whose sector is in the buffer. -/
def entryAt (state : Fat × Dir) : Entry :=
  ⟨state.1.cache.block, state.2.idx⟩

variable {fails : FatErr → Fat × Dir → Prop}

variable {hangs : Prop}

theorem meets_loadEntry_loaded {state : Fat × Dir} (loaded : Loaded state)
    {returns : Entry → Fat × Dir → Prop}
    :
    Meets loadEntry state hangs returns fails ↔ returns (entryAt state) state := by
  obtain ⟨fat, dir⟩ := state
  rw [loadEntry, meets_bind, meets_getDir, meets_bind, meets_onFst, updateBuf,
    meets_bind, meets_get, if_neg (by exact not_not.mpr loaded), meets_pure,
    meets_dirPtr]
  exact Iff.rfl

namespace Volume

variable (vol : Volume) {fat : Fat} {dir : Dir} {path : Text} {found : Fat × Dir}

/-- The place at the start of a directory. -/
def entered (clust : Nat) : Dir :=
  let clust := if clust = 0 then vol.rootClust else clust
  ⟨clust, clust, vol.clustToSect clust, 0⟩

/-- The path leads to an entry, whose place is found. -/
def NamesEntry (fat : Fat) (dir : Dir) (path : Text) (found : Fat × Dir) :
    Prop :=
  ∃ rest loc, vol.followPath path (fat, dir) = some (.ok ⟨.ok (), rest, some loc⟩, found)

/-- An entry is opened if it is a directory, and it is denied to remove it only
if it is protected or a directory. -/
structure RootHonest (fat : Fat) (dir : Dir) (path : Text)
    (found : Fat × Dir) : Prop where
  opens : Meets (vol.fatDirOpen path) (fat, dir) False
    (fun _ after => (entryAt found).isDir ∧ after.2 = vol.entered (entryAt found).sfnCluster)
    (fun error _ => error = .path ∧ ¬(entryAt found).isDir)
  unlinks : Meets (vol.fatUnlink path) (fat, dir) True (fun _ _ => True)
    (fun error _ => error = .denied →
      (entryAt found).attr &&& attrProtected ≠ 0 ∨ (entryAt found).isDir)

/-- What `fat_dir_open` does at the place of an entry. -/
theorem fatDirOpen_found (names : vol.NamesEntry fat dir path found)
    {returns : Unit → Fat × Dir → Prop}
    :
    Meets (vol.fatDirOpen path) (fat, dir) hangs returns fails ↔
      if vol.dirAtRoot found.2 then returns () found
      else if (entryAt found).isDir then
        returns () (found.1, vol.entered (entryAt found).sfnCluster)
      else fails .path found := by
  obtain ⟨rest, loc, resolved⟩ := names
  have loaded : Loaded found := (vol.followPath_loads path (fat, dir)).of_returned resolved rfl rfl
  rw [fatDirOpen, meets_bind, Meets, resolved]
  change Meets (getDir >>= _) found _ _ _ ↔ _
  rw [meets_bind, meets_getDir]
  by_cases atRoot : vol.dirAtRoot found.2
  · rw [if_neg (not_not.mpr atRoot), if_pos atRoot, meets_pure]
  · rw [if_pos atRoot, if_neg atRoot, meets_bind, meets_loadEntry_loaded loaded]
    by_cases isDir : (entryAt found).isDir
    · rw [if_neg (not_not.mpr isDir), if_pos isDir]
      exact Iff.rfl
    · rw [if_pos isDir, if_neg isDir, meets_fail]

/-- Away from the start of the root, only protected entries and directories are
denied. -/
theorem fatUnlink_found (names : vol.NamesEntry fat dir path found)
    (elsewhere : ¬vol.dirAtRoot found.2) :
    Meets (vol.fatUnlink path) (fat, dir) True (fun _ _ => True)
      (fun error _ => error = .denied →
        (entryAt found).attr &&& attrProtected ≠ 0 ∨ (entryAt found).isDir) := by
  obtain ⟨rest, loc, resolved⟩ := names
  rw [fatUnlink, meets_bind, Meets, resolved]
  change Meets (getDir >>= _) found _ _ _
  rw [meets_bind, meets_getDir, meets_bind, meets_dirPtr, if_neg elsewhere]
  by_cases shielded : (entryAt found).attr &&& attrProtected ≠ 0
  · rw [if_pos (by exact shielded)]
    exact fun _ => .inl shielded
  · rw [if_neg (by exact shielded)]
    by_cases isDir : (entryAt found).isDir
    · apply (Meets.any _ found).imp id
      · exact fun _ _ _ => trivial
      · exact fun _ _ _ _ => .inr isDir
    · have removes : NeverDenied (do
          (vol.removeChain (entryAt found).sfnCluster).onFst
          vol.removeEntries loc
          vol.syncFs.onFst : DirM Unit) :=
        .bind (NeverDenied.removeChain vol _).onFst fun _ =>
          .bind (NeverDenied.removeEntries vol loc) fun _ =>
            (NeverDenied.syncFs vol).onFst
      rw [if_neg (by exact isDir)]
      apply (removes found).imp id
      · exact fun _ _ _ => trivial
      · exact fun _ _ other denied => absurd denied other

end Volume

/-- The root has one entry, `a`, for cluster three; the slots before it are
free. -/
def slotDisk (attr : UInt8) (idx : Nat) : Nat → Sector :=
  Function.update (tinyDisk smallTable 2) 34
    (putSfn (putSfnName [0x61]) attr 3 idx (ByteBlock.zero.write 0 [0xe5]))

theorem namesEntry_of_meets {vol : Volume} {fat : Fat} {dir : Dir} {path : Text}
    {holds : Fat × Dir → Prop}
    (meets : Meets (vol.followPath path) (fat, dir) False
      (fun followed found => followed.result = .ok () ∧ followed.loc.isSome = true ∧ holds found)
      (fun _ _ => False)) :
    ∃ found, vol.NamesEntry fat dir path found ∧ holds found := by
  obtain ⟨⟨result, rest, loc⟩, found, returned, isOk, isSome, held⟩ := meets.exists_returned
  obtain ⟨place, rfl⟩ := Option.isSome_iff_exists.mp isSome
  subst isOk
  exact ⟨found, ⟨rest, place, returned⟩, held⟩

end SeekOs.Fat32
