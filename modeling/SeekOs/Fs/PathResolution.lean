import SeekOs.Fs.VfsChanges
import SeekOs.Lib.Runs

/-!
# What a path means

A path stands for the dentry that a fold over its components reaches from the
root.  `vfs_resolve_path` agrees with the fold unless it meets one of its own
defects: it takes an empty component for the end of the path, has no result
before the first name, climbs from a mounted root to the mount point instead of
its parent, uses a dentry that a lookup left without inode, and clears bytes
behind its buffer on long paths.
-/

namespace SeekOs.Fs

open Option

open List

open SeekOs.Lib

variable {ι : Type*}
variable {root directory : Nat} {path cwd : Text}

/-! ## The fold -/

/-- The path made absolute with the working directory. -/
def absolutePath (cwd path : Text) : Text :=
  if path.head? = some slash then path
  else if cwd = [slash] then cwd ++ path
  else cwd ++ slash :: path

/-- The components of a text that are not empty. -/
def components (text : Text) : List Text :=
  (text.splitOn slash).filter (· ≠ [])

/-- The root of the file system mounted on a dentry, or the dentry itself. -/
def mountedRoot (vfs : Vfs ι) (dentry : Nat) : Nat :=
  ((vfs.dentries dentry).dInode.bind Inode.iMountpoint).getD dentry

/-- The dentry is the root of a file system mounted on its parent. -/
def IsMountedRoot (vfs : Vfs ι) (dentry : Nat) : Prop :=
  (vfs.dentries (vfs.dentries dentry).dParent).dInode.bind Inode.iMountpoint = some dentry

instance (vfs : Vfs ι) (dentry : Nat) :
    Decidable (IsMountedRoot vfs dentry) :=
  inferInstanceAs (Decidable (_ = _))

/-- The parent of a directory: the root is its own parent, and a mounted root
has the parent of its mount point. -/
def parentOf (vfs : Vfs ι) (root dentry : Nat) : Nat :=
  let parent := (vfs.dentries dentry).dParent
  if dentry = root then root
  else if IsMountedRoot vfs dentry then (vfs.dentries parent).dParent
  else parent

section Fold

variable (lookup : ι → Text → LookupResult ι)

/-- A name looked up in a directory and crossed into what is mounted there. -/
def enterName (vfs : Vfs ι) (directory : Nat) (name : Text) :
    Vfs ι × Option Nat :=
  match findSubdir vfs directory name with
  | some child => (vfs, some (mountedRoot vfs child))
  | none =>
    match (vfs.dentries directory).dInode with
    | none => (vfs, none)
    | some inode =>
      match lookup inode.iPdata name with
      | .filled iPdata =>
        (vfs.linkSubdir directory name (some ⟨iPdata, none⟩), some vfs.dentryCount)
      | _ => (vfs, none)

/-- The fold over the components from a directory on. -/
def walk (root : Nat) : Vfs ι → Nat → List Text → Vfs ι × Option Nat
  | vfs, directory, [] => (vfs, some directory)
  | vfs, directory, component :: rest =>
    if component = dot then
      walk root vfs directory rest
    else if component = dotDot then
      walk root vfs (parentOf vfs root directory) rest
    else
      match enterName lookup vfs directory component with
      | (vfs, none) => (vfs, none)
      | (vfs, some next) => walk root vfs next rest

/-- The meaning of a path: the dentry, if there is one, and the dentry tree
with the names that were looked up on the way. -/
def foldPath (vfs : Vfs ι) (cwd path : Text) : Vfs ι × Option Nat :=
  match vfs.vfsRoot with
  | none => (vfs, none)
  | some root =>
    walk lookup root vfs root (components (absolutePath cwd path))

/-! ## Where the code agrees with the fold -/

/-- A lookup of the name would leave its dentry without an inode. -/
def LeavesUnfilled (vfs : Vfs ι) (directory : Nat) (name : Text) : Prop :=
  findSubdir vfs directory name = none ∧
    ∃ inode ∈ (vfs.dentries directory).dInode, lookup inode.iPdata name = .unfilled

/-- Along the fold no defect is met: the tokens fit the buffer until a lookup
fails, only `.` stands behind an empty token, a name has come up by the end, no
`..` is taken at a mounted root, and no lookup leaves its dentry without an
inode.  The flag says whether a name has come up. -/
def Regular (root : Nat) : Vfs ι → Bool → Nat → List Token → Prop
  | _, named, _, [] => named = true
  | vfs, named, directory, token :: rest =>
    token.Fits ∧
      if token.name = [] then
        named = true ∧ ∀ skipped ∈ rest, skipped.name = [] ∨ skipped.name = dot
      else if token.name = dot then
        Regular root vfs named directory rest
      else if token.name = dotDot then
        (directory = root ∨ ¬IsMountedRoot vfs directory) ∧
          Regular root vfs named (parentOf vfs root directory) rest
      else
        ¬LeavesUnfilled lookup vfs directory token.name ∧
          match enterName lookup vfs directory token.name with
          | (_, none) => True
          | (vfs, some next) => Regular root vfs true next rest

instance (vfs : Vfs ι) (directory : Nat) (name : Text) [DecidableEq ι] :
    Decidable (LeavesUnfilled lookup vfs directory name) :=
  inferInstanceAs (Decidable (_ ∧ _))

instance Regular.decidable [DecidableEq ι] (root : Nat) :
    (vfs : Vfs ι) → (named : Bool) → (directory : Nat) →
    (tokens : List Token) → Decidable (Regular lookup root vfs named directory tokens)
  | _, named, _, [] => inferInstanceAs (Decidable (named = true))
  | vfs, named, directory, token :: rest =>
    have onward := fun (vfs : Vfs ι) (named : Bool) (directory : Nat) =>
      Regular.decidable root vfs named directory rest
    have : Decidable
        (match enterName lookup vfs directory token.name with
          | (_, none) => True
          | (vfs, some next) =>
            Regular lookup root vfs true next rest) :=
      match enterName lookup vfs directory token.name with
      | (_, none) => .isTrue trivial
      | (vfs, some next) => onward vfs true next
    have := onward vfs named directory
    have := onward vfs named (parentOf vfs root directory)
    inferInstanceAs (Decidable (_ ∧ ite _ _ _))

/-- The path is the root itself, or regular from the root on. -/
def RegularPath (vfs : Vfs ι) (cwd path : Text) : Prop :=
  ∀ root ∈ vfs.vfsRoot, path = [slash] ∨
    Regular lookup root vfs false root (tokens ((absolutePath cwd path).splitOn slash))

instance (vfs : Vfs ι) (cwd path : Text) [DecidableEq ι] :
    Decidable (RegularPath lookup vfs cwd path) :=
  inferInstanceAs (Decidable (∀ _ ∈ _, _))

end Fold

/-! ## The dentry tree -/

/-- The root is its own parent, and every cached child has an inode. -/
structure Linked (vfs : Vfs ι) : Prop where
  root : ∀ root ∈ vfs.vfsRoot, root < vfs.dentryCount ∧ (vfs.dentries root).dParent = root
  inodes : ∀ owner, ∀ child ∈ (vfs.dentries owner).dSubdirs, (vfs.dentries child).dInode.isSome

namespace Linked

variable {vfs : Vfs ι} {dentry : Dentry ι}

theorem init : Linked (vfsInit : Vfs ι) := by
  constructor
  · intro root member
    cases member
  · intro owner child member
    cases member

theorem allocate (linked : Linked vfs)
    (filled : dentry.dInode.isSome) (childless : dentry.dSubdirs = []) :
    Linked (vfs.allocate dentry) := by
  constructor
  · intro root member
    obtain ⟨old, selfParent⟩ := linked.root root member
    refine ⟨Nat.lt_succ_of_lt old, ?_⟩
    simpa [Vfs.allocate, Function.update_of_ne old.ne] using selfParent
  · intro owner child member
    simp only [Vfs.allocate, Function.update_apply] at member ⊢
    split
    · exact filled
    · split at member
      · rw [childless] at member
        cases member
      · exact linked.inodes owner child member

/-- Replacing a dentry by one that differs in its children and in an inode that
stays there. -/
theorem update (linked : Linked vfs) {number : Nat}
    (parentEq : dentry.dParent = (vfs.dentries number).dParent)
    (filled : (vfs.dentries number).dInode.isSome → dentry.dInode.isSome)
    (children : ∀ child ∈ dentry.dSubdirs,
      child ∈ (vfs.dentries number).dSubdirs ∨ (vfs.dentries child).dInode.isSome) :
    Linked { vfs with
      dentries := Function.update vfs.dentries number dentry } := by
  have keeps : ∀ child, (vfs.dentries child).dInode.isSome →
      (Function.update vfs.dentries number dentry child).dInode.isSome := by
    intro child isFilled
    rw [Function.update_apply]
    split
    · next same =>
        rw [same] at isFilled
        exact filled isFilled
    · exact isFilled
  constructor
  · intro root member
    obtain ⟨old, selfParent⟩ := linked.root root member
    refine ⟨old, ?_⟩
    simp only [Function.update_apply]
    split
    · next same => rw [parentEq, ← same, selfParent, same]
    · exact selfParent
  · intro owner child member
    apply keeps
    simp only [Function.update_apply] at member
    split at member
    · rcases children child member with known | isFilled
      · exact linked.inodes number child known
      · exact isFilled
    · exact linked.inodes owner child member

theorem linkSubdir (linked : Linked vfs) (parent : Nat) (name : Text) (inode : Inode ι) :
    Linked (vfs.linkSubdir parent name (some inode)) := by
  have allocated : Linked (vfs.allocate ⟨name, some inode, parent, []⟩) := linked.allocate rfl rfl
  refine allocated.update rfl id ?_
  intro child member
  rcases mem_append.mp member with known | new
  · exact Or.inl known
  · rw [mem_singleton.mp new]
    right
    simp [Vfs.allocate]

theorem enterName (linked : Linked vfs)
    (lookup : ι → Text → LookupResult ι) (directory : Nat) (name : Text) :
    Linked (enterName lookup vfs directory name).1 := by
  unfold Fs.enterName
  split
  · exact linked
  · split
    · exact linked
    · split
      · exact linked.linkSubdir directory name _
      · exact linked

end Linked

theorem enterName_root (lookup : ι → Text → LookupResult ι) (vfs : Vfs ι)
    (directory : Nat) (name : Text) :
    (enterName lookup vfs directory name).1.vfsRoot = vfs.vfsRoot := by
  unfold enterName
  split
  · rfl
  · split
    · rfl
    · split
      · rfl
      · rfl

section Agreement

variable {lookup : ι → Text → LookupResult ι} {vfs : Vfs ι} {rest : List Token}

theorem crossMount_filled {dentry : Nat} (filled : (vfs.dentries dentry).dInode.isSome) :
    crossMount vfs dentry = .ok (mountedRoot vfs dentry) := by
  obtain ⟨inode, inodeEq⟩ := isSome_iff_exists.mp filled
  simp [crossMount, mountedRoot, inodeEq]

/-- The lookup in the code is the lookup of the fold, or it stops at a dentry
without inode. -/
theorem resolveName_eq (linked : Linked vfs) (directory : Nat) (name : Text) :
    (¬LeavesUnfilled lookup vfs directory name →
      resolveName lookup vfs directory name = .ok (enterName lookup vfs directory name)) ∧
    (LeavesUnfilled lookup vfs directory name →
      resolveName lookup vfs directory name = .error .nullPointer) := by
  unfold resolveName enterName LeavesUnfilled
  cases cached : findSubdir vfs directory name with
  | some child =>
    have member : child ∈ (vfs.dentries directory).dSubdirs := List.mem_of_find?_eq_some cached
    have crossed := crossMount_filled (linked.inodes directory child member)
    simp [crossed, Except.map]
  | none =>
    cases inodeEq : (vfs.dentries directory).dInode with
    | none => simp
    | some inode =>
      cases result : lookup inode.iPdata name with
      | null => simp [result]
      | filled iPdata =>
        have fresh := linkSubdir_inode vfs directory name (some ⟨iPdata, none⟩)
        simp [result, crossMount, fresh, Except.map]
      | unfilled =>
        have fresh := linkSubdir_inode vfs directory name none
        simp [result, crossMount, fresh, Except.map]

/-- Only `.` and empty components do not move the fold. -/
theorem walk_dots {tokens : List Token}
    (dots : ∀ token ∈ tokens, token.name = [] ∨ token.name = dot) :
    walk lookup root vfs directory ((tokens.map Token.name).filter (· ≠ [])) =
      (vfs, some directory) := by
  induction tokens with
  | nil => rfl
  | cons token tokens induction =>
    have rest := induction fun other member =>
      dots other (mem_cons_of_mem token member)
    rcases dots token mem_cons_self with isEmpty | isDot
    · simpa [isEmpty] using rest
    · have nonempty : dot ≠ [] := by decide
      simpa [isDot, nonempty, walk] using rest

/-- Climbing by `d_parent` is climbing in the fold, except at a mounted
root. -/
theorem parentOf_eq (linked : Linked vfs) (isRoot : vfs.vfsRoot = some root)
    (plain : directory = root ∨ ¬IsMountedRoot vfs directory) :
    (vfs.dentries directory).dParent = parentOf vfs root directory := by
  unfold parentOf
  by_cases atRoot : directory = root
  · rw [if_pos atRoot, atRoot]
    exact (linked.root root isRoot).2
  · rw [if_neg atRoot, if_neg (plain.resolve_left atRoot)]

/-- The loop of `vfs_resolve_path` over the tokens that are left, without the
buffers they are cut from. -/
def resolveTokens (lookup : ι → Text → LookupResult ι) :
    Vfs ι → Option Nat → Nat → List Token → Except Fault (Vfs ι × Option Nat)
  | vfs, current, _, [] => .ok (vfs, current)
  | vfs, current, parent, token :: rest =>
    if ¬token.Fits then
      .error .overrun
    else if token.name = [] then
      .ok (vfs, current)
    else
      match resolveComponent lookup vfs current parent token.name with
      | .error fault => .error fault
      | .ok (vfs, none) => .ok (vfs, none)
      | .ok (vfs, some (current, parent)) =>
        resolveTokens lookup vfs current parent rest

theorem resolveLoop_eq {segments : List Text} {tmppath nextpath : List UInt8} {current : Option Nat}
    {parent fuel : Nat}
    (holds : HoldsText vfsMaxPathLength tmppath (joined segments))
    (proper : Segments segments)
    (nextLength : nextpath.length = vfsMaxPathLength)
    (tokensEq : tokens segments = rest) (enough : rest.length < fuel) :
    resolveLoop lookup fuel vfs tmppath nextpath current parent =
      resolveTokens lookup vfs current parent rest := by
  induction rest generalizing vfs segments tmppath nextpath current parent fuel with
  | nil =>
    obtain ⟨fuel, rfl⟩ := Nat.exists_eq_add_of_lt enough
    rw [joined_of_no_tokens tokensEq] at holds
    simp [resolveLoop, vfsNextPath_end holds, resolveTokens]
  | cons token rest induction =>
    obtain ⟨fuel, rfl⟩ : ∃ next, fuel = next + 1 := ⟨fuel - 1, by omega⟩
    have enoughLeft : rest.length < fuel := by
      simpa using Nat.lt_of_succ_lt_succ enough
    rw [resolveLoop, resolveTokens]
    by_cases fits : token.Fits
    case neg =>
      have overrun := (vfsNextPath_token holds proper nextLength tokensEq).2 fits
      rw [overrun, if_pos fits]
    obtain ⟨shortened, component, remaining, cutOff⟩ :=
      (vfsNextPath_token holds proper nextLength tokensEq).1 fits
    rw [cutOff.result, if_neg (not_not_intro fits)]
    by_cases isEmpty : token.name = []
    · simp [isEmpty]
    simp only [isEmpty, ne_eq, not_false_eq_true, decide_true,
      Bool.not_true, Bool.false_eq_true, if_false,
      cutOff.component.textOf]
    cases resolveComponent lookup vfs current parent token.name with
    | error fault => rfl
    | ok stepped =>
      obtain ⟨after, cursors⟩ := stepped
      cases cursors with
      | none => rfl
      | some cursors =>
        exact induction cutOff.holds cutOff.proper
          cutOff.component.length cutOff.tokensEq enoughLeft

section Round

variable {token : Token} {current next : Option Nat}
  {parent directory : Nat} {after : Vfs ι}

theorem resolveTokens_missing (fits : token.Fits) (nonempty : token.name ≠ [])
    (resolved : resolveComponent lookup vfs current parent token.name = .ok (after, none)) :
    resolveTokens lookup vfs current parent (token :: rest) = .ok (after, none) := by
  rw [resolveTokens, if_neg (not_not_intro fits), if_neg nonempty, resolved]

theorem resolveTokens_onward (fits : token.Fits) (nonempty : token.name ≠ [])
    (resolved : resolveComponent lookup vfs current parent token.name =
      .ok (after, some (next, directory))) :
    resolveTokens lookup vfs current parent (token :: rest) =
      resolveTokens lookup after next directory rest := by
  rw [resolveTokens, if_neg (not_not_intro fits), if_neg nonempty, resolved]

/-- A name is looked up as in the fold, unless it leaves its dentry without an
inode. -/
theorem resolveComponent_name (linked : Linked vfs) {name : Text}
    (notDot : name ≠ dot) (notDotDot : name ≠ dotDot)
    (filled : ¬LeavesUnfilled lookup vfs parent name) :
    resolveComponent lookup vfs current parent name =
      .ok ((enterName lookup vfs parent name).1,
        (enterName lookup vfs parent name).2.map fun dentry => (some dentry, dentry)) := by
  unfold resolveComponent
  rw [if_neg notDot, if_neg notDotDot, (resolveName_eq linked parent name).1 filled]
  rfl

end Round

/-- The loop follows the fold over the tokens that are left.  Before the first
name `current` is null and `parent` is the root. -/
theorem resolveTokens_walk {named : Bool} (linked : Linked vfs) (isRoot : vfs.vfsRoot = some root)
    (atRoot : named = false → directory = root)
    (regular : Regular lookup root vfs named directory rest) :
    resolveTokens lookup vfs (if named then some directory else none) directory rest =
      .ok (walk lookup root vfs directory ((rest.map Token.name).filter (· ≠ []))) := by
  induction rest generalizing vfs named directory with
  | nil =>
    have isNamed : named = true := regular
    simp [resolveTokens, isNamed, walk]
  | cons token rest induction =>
    obtain ⟨fits, regular⟩ := regular
    rw [map_cons, filter_cons]
    by_cases isEmpty : token.name = []
    · rw [if_pos isEmpty] at regular
      obtain ⟨isNamed, dots⟩ := regular
      have unkept : ¬decide (token.name ≠ []) = true := by
        simpa using isEmpty
      rw [resolveTokens, if_neg (not_not_intro fits), if_pos isEmpty,
        if_neg unkept, walk_dots dots, isNamed]
      rfl
    have kept : decide (token.name ≠ []) = true := by
      simpa using isEmpty
    rw [if_neg isEmpty] at regular
    rw [if_pos kept, walk]
    by_cases isDot : token.name = dot
    · rw [if_pos isDot] at regular ⊢
      rw [resolveTokens_onward fits isEmpty (if_pos isDot)]
      exact induction linked isRoot atRoot regular
    rw [if_neg isDot] at regular ⊢
    by_cases isDotDot : token.name = dotDot
    · rw [if_pos isDotDot] at regular ⊢
      obtain ⟨plain, regular⟩ := regular
      have climb := parentOf_eq linked isRoot plain
      have stays : named = false → parentOf vfs root directory = root := by
        intro unnamed
        rw [atRoot unnamed, parentOf, if_pos rfl]
      have onward := induction linked isRoot stays regular
      refine (resolveTokens_onward fits isEmpty ?_).trans onward
      cases named with
      | true => simp [resolveComponent, isDotDot, climb, dot, dotDot]
      | false =>
        have same : parentOf vfs root directory = directory := (stays rfl).trans (atRoot rfl).symm
        simp [resolveComponent, isDotDot, same, dot, dotDot]
    rw [if_neg isDotDot] at regular ⊢
    obtain ⟨filled, regular⟩ := regular
    have resolved := fun current : Option Nat =>
      @resolveComponent_name _ lookup vfs current directory linked _ isDot isDotDot filled
    have stillLinked := linked.enterName lookup directory token.name
    have stillRoot := enterName_root lookup vfs directory token.name
    cases entered : enterName lookup vfs directory token.name with
    | mk after found =>
      rw [entered] at regular stillLinked stillRoot resolved
      cases found with
      | none => exact resolveTokens_missing fits isEmpty (resolved _)
      | some next =>
        rw [resolveTokens_onward fits isEmpty (resolved _)]
        exact induction stillLinked (stillRoot.trans isRoot)
          (fun unnamed => by cases unnamed) regular

/-- The texts that `whole_path` is put together from. -/
theorem wholePath_eq (cwdProper : (0 : UInt8) ∉ cwd) (pathProper : (0 : UInt8) ∉ path) :
    ∃ pieces : List Text, (∀ piece ∈ pieces, (0 : UInt8) ∉ piece) ∧
      pieces.flatten = absolutePath cwd path ∧
      wholePath cwd path = pieces.foldlM cat (List.replicate vfsMaxPathLength 0) := by
  have blank : textLength (List.replicate vfsMaxPathLength (0 : UInt8)) = some 0 :=
    (HoldsText.empty (by decide)).textLength
  unfold wholePath absolutePath
  by_cases isAbsolute : path.head? = some slash
  · refine ⟨[path], by simpa using pathProper, by simp [isAbsolute], ?_⟩
    simp [isAbsolute, cat, blank]
  · by_cases isRoot : cwd = [slash]
    · refine ⟨[cwd, path], by simp [cwdProper, pathProper], by simp [isAbsolute, isRoot], ?_⟩
      simp [isAbsolute, isRoot, cat, blank]
    · refine ⟨[cwd, [slash], path], ?_, by simp [isAbsolute, isRoot], ?_⟩
      · simp [cwdProper, pathProper, slash]
      · simp [isAbsolute, isRoot, cat, blank, bind_assoc]

/-- `whole_path` holds the absolute path if it fits. -/
theorem wholePath_holds (cwdProper : (0 : UInt8) ∉ cwd) (pathProper : (0 : UInt8) ∉ path)
    (short : (absolutePath cwd path).length < vfsMaxPathLength) :
    ∃ whole, wholePath cwd path = some whole ∧
      HoldsText vfsMaxPathLength whole (absolutePath cwd path) := by
  obtain ⟨pieces, proper, whole, isWhole⟩ := wholePath_eq cwdProper pathProper
  rw [isWhole, ← whole]
  exact ((HoldsText.empty (by decide)).cats proper).1 (whole ▸ short)

/-- A path that does not fit leaves `whole_path` without a terminator, or is
copied behind its end. -/
theorem wholePath_overrun (cwdProper : (0 : UInt8) ∉ cwd) (pathProper : (0 : UInt8) ∉ path)
    (long : vfsMaxPathLength ≤ (absolutePath cwd path).length) :
    (wholePath cwd path).bind textLength = none := by
  obtain ⟨pieces, proper, whole, isWhole⟩ := wholePath_eq cwdProper pathProper
  rw [isWhole]
  exact ((HoldsText.empty (by decide)).cats proper).2 (whole ▸ long)

theorem vfsResolvePath_tokens (lookup : ι → Text → LookupResult ι)
    (isRoot : vfs.vfsRoot = some root) (notSlash : path ≠ [slash])
    (cwdProper : (0 : UInt8) ∉ cwd) (pathProper : (0 : UInt8) ∉ path)
    (short : (absolutePath cwd path).length < vfsMaxPathLength) :
    vfsResolvePath lookup vfs cwd path =
      resolveTokens lookup vfs none root (tokens ((absolutePath cwd path).splitOn slash)) := by
  obtain ⟨whole, wholeEq, wholeHolds⟩ := wholePath_holds cwdProper pathProper short
  have proper := wholeHolds.proper
  have empty : HoldsText vfsMaxPathLength (List.replicate vfsMaxPathLength (0 : UInt8)) [] :=
    HoldsText.empty (by decide)
  obtain ⟨tmppath, tmppathEq, tmppathHolds⟩ := empty.append proper (by simpa using short)
  rw [length_nil] at tmppathEq
  rw [nil_append, ← joined_splitOn (absolutePath cwd path)] at tmppathHolds
  have enough : (tokens ((absolutePath cwd path).splitOn slash)).length < vfsMaxPathLength + 1 := by
    have few := tokens_length ((absolutePath cwd path).splitOn slash)
    have few' := segments_length ((absolutePath cwd path).splitOn slash)
    rw [joined_splitOn] at few'
    omega
  simp only [vfsResolvePath, isRoot, if_neg notSlash, wholeEq,
    wholeHolds.textLength, wholeHolds.take, tmppathEq]
  exact resolveLoop_eq tmppathHolds (segments_splitOn proper) empty.length rfl enough

theorem vfsResolvePath_overrun (isRoot : vfs.vfsRoot = some root)
    (notSlash : path ≠ [slash]) (cwdProper : (0 : UInt8) ∉ cwd)
    (pathProper : (0 : UInt8) ∉ path)
    (long : vfsMaxPathLength ≤ (absolutePath cwd path).length) :
    vfsResolvePath lookup vfs cwd path = .error .overrun := by
  have fails := wholePath_overrun cwdProper pathProper long
  simp only [vfsResolvePath, isRoot, if_neg notSlash]
  cases wholeEq : wholePath cwd path with
  | none => rfl
  | some whole =>
    rw [wholeEq, bind_some] at fails
    simp only [fails]

/-- On a linked tree a regular path is resolved to what the fold reaches. -/
theorem vfsResolvePath_eq (linked : Linked vfs) (cwdProper : (0 : UInt8) ∉ cwd)
    (pathProper : (0 : UInt8) ∉ path)
    (short : (absolutePath cwd path).length < vfsMaxPathLength)
    (regular : RegularPath lookup vfs cwd path) :
    vfsResolvePath lookup vfs cwd path = .ok (foldPath lookup vfs cwd path) := by
  cases isRoot : vfs.vfsRoot with
  | none => simp only [vfsResolvePath, foldPath, isRoot]
  | some root =>
    by_cases isSlash : path = [slash]
    · subst isSlash
      simp only [vfsResolvePath, foldPath, isRoot]
      rfl
    have regularTokens := (regular root isRoot).resolve_left isSlash
    have loop := resolveTokens_walk linked isRoot (fun _ => rfl) regularTokens
    rw [tokens_names] at loop
    rw [vfsResolvePath_tokens lookup isRoot isSlash cwdProper pathProper short]
    simp only [foldPath, isRoot]
    exact loop

end Agreement

/-! ## Every reachable tree is linked -/

section Reachable

variable {lookup : ι → Text → LookupResult ι} {vfs : Vfs ι}

theorem Linked.change {next : Vfs ι} (linked : Linked vfs)
    (change : Change lookup vfs next) : Linked next := by
  cases change with
  | registerFs fs => exact ⟨linked.root, linked.inodes⟩
  | link link =>
    cases link
    exact linked.linkSubdir _ _ _
  | unmountRoot =>
    refine ⟨?_, linked.inodes⟩
    intro root member
    cases member
  | @mountRoot fs iPdata =>
    have allocated : Linked (vfs.makeRoot fs iPdata vfs.dentryCount) := linked.allocate rfl rfl
    refine ⟨?_, allocated.inodes⟩
    intro root member
    cases member
    exact ⟨Nat.lt_succ_self _, by simp [Vfs.makeRoot, Vfs.allocate]⟩
  | mountOn =>
    apply Linked.allocate
    · exact linked.update rfl (fun _ => rfl) fun child member =>
        Or.inl member
    · rfl
    · rfl

theorem vfsStep_linked (vfs : Vfs ι) (op : VfsOp ι) (after : Vfs ι)
    (linked : Linked vfs) (stepped : vfsStep lookup vfs op = .ok after) :
    Linked after :=
  (vfsStep_changes stepped).invariant linked fun _ _ change linked =>
    linked.change change

end Reachable

/-- After any mounts and resolutions, a regular path is resolved to the dentry
that the fold over its components reaches, and to null exactly when one of the
lookups of the fold fails. -/
theorem vfsResolvePath_folds (lookup : ι → Text → LookupResult ι)
    (ops : List (VfsOp ι)) {vfs : Vfs ι}
    (reached : runExcept (vfsStep lookup) vfsInit ops = .ok vfs)
    {cwd path : Text}
    (cwdProper : (0 : UInt8) ∉ cwd) (pathProper : (0 : UInt8) ∉ path)
    (short : (absolutePath cwd path).length < vfsMaxPathLength)
    (regular : RegularPath lookup vfs cwd path) :
    vfsResolvePath lookup vfs cwd path = .ok (foldPath lookup vfs cwd path) := by
  have linked : Linked vfs := runExcept_invariant vfsStep_linked Linked.init reached
  exact vfsResolvePath_eq linked cwdProper pathProper short regular

/-! ## The file systems mounted at boot -/

/-- The directories of the boot volume that the kernel mounts on, and the
terminal. -/
inductive BootNode where
  | volume
  | dev
  | ttyfs
  | terminal
  deriving DecidableEq

def devName : Text := [0x64, 0x65, 0x76]

def ttyfsName : Text := [0x74, 0x74, 0x79, 0x66, 0x73]

def fat32Name : Text := [0x66, 0x61, 0x74, 0x33, 0x32]

/-- The volume holds `/dev/ttyfs`, and the terminal has no entries. -/
def bootLookup : BootNode → Text → LookupResult BootNode
  | .volume, name => if name = devName then .filled .dev else .null
  | .dev, name => if name = ttyfsName then .filled .ttyfs else .null
  | _, _ => .null

def ttyfsPath : Text := slash :: devName ++ slash :: ttyfsName

/-- What `kernel_main` does with the file systems. -/
@[irreducible] def bootOps : List (VfsOp BootNode) :=
  [.registerFs ⟨ttyfsName, [], some .terminal⟩, .registerFs ⟨fat32Name, [slash], some .volume⟩,
    .mountFs [slash] [slash] fat32Name,
    .mountFs [slash] ttyfsPath ttyfsName]

theorem vfsResolvePath_folds_boot :
    ∃ vfs, runExcept (vfsStep bootLookup) vfsInit bootOps = .ok vfs ∧
      vfsResolvePath bootLookup vfs [slash] ttyfsPath =
        .ok (foldPath bootLookup vfs [slash] ttyfsPath) := by
  have outcome : Outcome (fun vfs => RegularPath bootLookup vfs [slash] ttyfsPath)
      (fun _ => False) (runExcept (vfsStep bootLookup) vfsInit bootOps) := by
    decide +kernel
  obtain ⟨vfs, reached, regular⟩ := outcome.exists_ok
  exact ⟨vfs, reached, vfsResolvePath_folds bootLookup bootOps reached
    (by decide) (by decide) (by decide) regular⟩

/-- The tokenizer takes the empty component of `//dev` for the end of the path,
and nothing is found. -/
theorem repeated_slash_counterexample :
    ∃ vfs, runExcept (vfsStep bootLookup) vfsInit bootOps = .ok vfs ∧
      (0 : UInt8) ∉ slash :: slash :: devName ∧
      (absolutePath [slash] (slash :: slash :: devName)).length < vfsMaxPathLength ∧
      (vfsResolvePath bootLookup vfs [slash] (slash :: slash :: devName)).map Prod.snd = .ok none ∧
      (foldPath bootLookup vfs [slash] (slash :: slash :: devName)).2 = some 1 := by
  have outcome : Outcome
      (fun vfs => (0 : UInt8) ∉ slash :: slash :: devName ∧
        (absolutePath [slash] (slash :: slash :: devName)).length < vfsMaxPathLength ∧
        (vfsResolvePath bootLookup vfs [slash]
            (slash :: slash :: devName)).map Prod.snd = .ok none ∧
        (foldPath bootLookup vfs [slash] (slash :: slash :: devName)).2 = some 1)
      (fun _ => False) (runExcept (vfsStep bootLookup) vfsInit bootOps) := by
    decide +kernel
  exact outcome.exists_ok

end SeekOs.Fs
