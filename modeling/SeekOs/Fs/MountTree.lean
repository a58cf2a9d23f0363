import SeekOs.Fs.DentryTree

/-!
# Mounts over the tree of dentries

Numbers grow from a directory to its entries and from a mount point to the root
mounted there.  A dentry is visible if names alone lead to it from the root;
`..` at a mounted root goes to the dentry underneath, which is not.
-/

namespace SeekOs.Fs

open SeekOs.Lib List DentryTree Nat

variable {ι : Type*}

/-- The root of the file system that is mounted on a dentry. -/
def mountOf (vfs : Vfs ι) (number : Nat) : Option Nat :=
  (vfs.dentries number).dInode.bind Inode.iMountpoint

/-- How the file systems name their root dentries: ramfs and ttyfs leave the
name empty, FAT32 calls it `/`. -/
def RootName (name : Text) : Prop :=
  name = [] ∨ name = [slash]

instance (name : Text) : Decidable (RootName name) :=
  inferInstanceAs (Decidable (_ ∨ _))

/-- The tree of dentries and the file systems mounted over it. -/
structure MountTree (lookup : ι → Text → LookupResult ι) (vfs : Vfs ι) :
    Prop extends DentryTree lookup vfs where
  listed : ∀ fs ∈ vfs.vfsFsList, RootName fs.rootName
  root : ∀ root ∈ vfs.vfsRoot, root < vfs.dentryCount ∧ (vfs.dentries root).dParent = root
  order : ∀ owner, ∀ child ∈ (vfs.dentries owner).dSubdirs, owner < child
  above : ∀ number < vfs.dentryCount, (vfs.dentries number).dParent ≤ number
  mounts : ∀ dentry mounted, mountOf vfs dentry = some mounted →
    dentry < mounted ∧ mounted < vfs.dentryCount ∧ (vfs.dentries mounted).dParent = dentry
  componentNames : ∀ owner, ∀ child ∈ (vfs.dentries owner).dSubdirs,
    ComponentName (vfs.dentries child).dName
  rootNames : ∀ dentry mounted, mountOf vfs dentry = some mounted →
    RootName (vfs.dentries mounted).dName
  allNames : ∀ number < vfs.dentryCount,
    ComponentName (vfs.dentries number).dName ∨ RootName (vfs.dentries number).dName

namespace MountTree

variable {lookup : ι → Text → LookupResult ι} {vfs next : Vfs ι}

theorem init : MountTree lookup (vfsInit : Vfs ι) where
  toDentryTree := DentryTree.init
  listed := fun fs member => by cases member
  root := fun root member => by cases member
  order := fun owner child member => by cases member
  above := fun number small => by cases small
  mounts := fun dentry mounted isMounted => by cases isMounted
  componentNames := fun owner child member => by cases member
  rootNames := fun dentry mounted isMounted => by cases isMounted
  allNames := fun number small => by cases small

/-- What linking a name leaves alone, and the one dentry it adds. -/
structure LinkFrame (vfs next : Vfs ι) : Prop where
  keeps : DentryTree.Keeps vfs next
  count : next.dentryCount = vfs.dentryCount + 1
  root : next.vfsRoot = vfs.vfsRoot
  mount : ∀ number, mountOf next number = mountOf vfs number
  newName : ComponentName (next.dentries vfs.dentryCount).dName
  newParent : (next.dentries vfs.dentryCount).dParent < vfs.dentryCount
  subdirs : ∀ owner child, child ∈ (next.dentries owner).dSubdirs ↔
    child ∈ (vfs.dentries owner).dSubdirs ∨
      child = vfs.dentryCount ∧ owner < vfs.dentryCount ∧
        (next.dentries vfs.dentryCount).dParent = owner

theorem linkFrame (tree : DentryTree lookup vfs)
    (link : Link lookup vfs next) : LinkFrame vfs next := by
  cases link with
  | @intro directory inode name iPdata isName inodeEq uncached found =>
  have small : directory < vfs.dentryCount := tree.lt_of_inode (by rw [inodeEq]; rfl)
  obtain ⟨atNew, atDirectory, elsewhere⟩ :=
    linkSubdir_dentries small name (some ⟨iPdata, none⟩)
  constructor
  · exact keeps_linkSubdir small name (some ⟨iPdata, none⟩)
  · rfl
  · rfl
  · intro number
    by_cases isNew : number = vfs.dentryCount
    · simp [mountOf, isNew, atNew, (tree.blank _ (le_refl _)).1]
    by_cases same : number = directory
    · rw [mountOf, same, atDirectory, mountOf]
    · rw [mountOf, elsewhere number same isNew, mountOf]
  · rw [atNew]
    exact isName
  · rw [atNew]
    exact small
  · intro owner child
    rw [tree.mem_linkSubdir small, atNew]
    constructor
    · rintro (old | ⟨rfl, rfl⟩)
      · exact Or.inl old
      · exact Or.inr ⟨rfl, small, rfl⟩
    · rintro (old | ⟨isNew, _, isDirectory⟩)
      · exact Or.inl old
      · exact Or.inr ⟨isDirectory.symm, isNew⟩

section

variable (tree : MountTree lookup vfs) {fs : VfsFs ι}

include tree

/-- One more dentry: a directory gets a component, or a tree gets a root. -/
theorem withDentry (nextTree : DentryTree lookup next) (keeps : DentryTree.Keeps vfs next)
    (countEq : next.dentryCount = vfs.dentryCount + 1)
    (listEq : next.vfsFsList = vfs.vfsFsList)
    (rootEq : next.vfsRoot = vfs.vfsRoot)
    (subdirs : ∀ owner child, child ∈ (next.dentries owner).dSubdirs →
      child ∈ (vfs.dentries owner).dSubdirs ∨
        child = vfs.dentryCount ∧ owner < vfs.dentryCount ∧
          ComponentName (next.dentries vfs.dentryCount).dName)
    (named : ComponentName (next.dentries vfs.dentryCount).dName ∨
      RootName (next.dentries vfs.dentryCount).dName)
    (newParent : (next.dentries vfs.dentryCount).dParent ≤ vfs.dentryCount)
    (mountCases : ∀ dentry mounted, mountOf next dentry = some mounted →
      mountOf vfs dentry = some mounted ∨
        mounted = vfs.dentryCount ∧ dentry < vfs.dentryCount ∧
          (next.dentries vfs.dentryCount).dParent = dentry ∧
          RootName (next.dentries vfs.dentryCount).dName) :
    MountTree lookup next := by
  constructor
  · exact nextTree
  · rw [listEq]
    exact tree.listed
  · intro root isRoot
    rw [rootEq] at isRoot
    obtain ⟨rootSmall, selfParent⟩ := tree.root root isRoot
    rw [countEq, keeps.parent root rootSmall]
    exact ⟨lt_succ_of_lt rootSmall, selfParent⟩
  · intro owner child member
    rcases subdirs owner child member with old | ⟨rfl, small, _⟩
    · exact tree.order owner child old
    · exact small
  · intro number inside
    rw [countEq] at inside
    rcases Nat.lt_succ_iff_lt_or_eq.mp inside with old | rfl
    · rw [keeps.parent number old]
      exact tree.above number old
    · exact newParent
  · intro dentry mounted isMounted
    rw [countEq]
    rcases mountCases dentry mounted isMounted with old | ⟨rfl, below, parent, _⟩
    · obtain ⟨above, inside, parent⟩ := tree.mounts dentry mounted old
      rw [keeps.parent mounted inside]
      exact ⟨above, lt_succ_of_lt inside, parent⟩
    · exact ⟨below, lt_succ_self _, parent⟩
  · intro owner child member
    rcases subdirs owner child member with old | ⟨rfl, _, isName⟩
    · rw [keeps.name child (tree.child_lt old)]
      exact tree.componentNames owner child old
    · exact isName
  · intro dentry mounted isMounted
    rcases mountCases dentry mounted isMounted with old | ⟨rfl, _, _, isName⟩
    · rw [keeps.name mounted (tree.mounts dentry mounted old).2.1]
      exact tree.rootNames dentry mounted old
    · exact isName
  · intro number inside
    rw [countEq] at inside
    rcases Nat.lt_succ_iff_lt_or_eq.mp inside with old | rfl
    · rw [keeps.name number old]
      exact tree.allNames number old
    · exact named

theorem link (link : Link lookup vfs next) : MountTree lookup next := by
  have frame := linkFrame tree.toDentryTree link
  apply tree.withDentry (tree.toDentryTree.change (.link link)) frame.keeps frame.count
    (Links.environment (.single link)).1 frame.root
  · intro owner child member
    exact ((frame.subdirs owner child).mp member).imp_right
      fun new => ⟨new.1, new.2.1, frame.newName⟩
  · exact .inl frame.newName
  · exact frame.newParent.le
  · intro dentry mounted isMounted
    exact .inl (frame.mount dentry ▸ isMounted)

theorem makeRoot (registered : fs ∈ vfs.vfsFsList) (iPdata : ι) :
    MountTree lookup (vfs.makeRoot fs iPdata vfs.dentryCount) := by
  apply tree.withDentry (tree.allocate rfl) (keeps_allocate vfs _) rfl rfl rfl
  · intro owner child member
    rw [tree.subdirs_allocate rfl owner] at member
    exact .inl member
  · right
    simpa [Vfs.allocate] using tree.listed fs registered
  · simp [Vfs.allocate]
  · intro dentry mounted isMounted
    left
    by_cases isNew : dentry = vfs.dentryCount
    · simp [mountOf, isNew, Vfs.allocate] at isMounted
    · rwa [mountOf, allocate_dentries _ isNew] at isMounted

theorem mountOn (registered : fs ∈ vfs.vfsFsList) (iPdata : ι) {dentry : Nat} {inode : Inode ι}
    (inodeEq : (vfs.dentries dentry).dInode = some inode) :
    MountTree lookup ((covered vfs dentry inode vfs.dentryCount).makeRoot fs iPdata dentry) := by
  have small : dentry < vfs.dentryCount := tree.lt_of_inode (by rw [inodeEq]; rfl)
  have covers := tree.cover inodeEq vfs.dentryCount
  have coveredKeeps := keeps_covered inodeEq vfs.dentryCount
  have coveredSubdirs := fun owner => @subdirs_covered _ vfs dentry inode vfs.dentryCount owner
  have rootKeeps := keeps_allocate (covered vfs dentry inode vfs.dentryCount)
    ⟨fs.rootName, some ⟨iPdata, none⟩, dentry, []⟩
  have isRoot := tree.listed fs registered
  apply tree.withDentry (covers.allocate rfl) _ rfl rfl rfl
  · intro owner child member
    rw [covers.subdirs_allocate rfl owner, coveredSubdirs owner] at member
    exact .inl member
  · right
    simpa [Vfs.allocate, covered] using isRoot
  · simpa [Vfs.allocate, covered] using small.le
  · intro number mounted isMounted
    by_cases isNew : number = vfs.dentryCount
    · simp [mountOf, isNew, Vfs.allocate, covered] at isMounted
    have old : number ≠ (covered vfs dentry inode vfs.dentryCount).dentryCount := isNew
    rw [mountOf, allocate_dentries _ old] at isMounted
    by_cases same : number = dentry
    · right
      subst same
      simp only [covered, Function.update_self, Option.bind_some, Option.some.injEq] at isMounted
      refine ⟨isMounted.symm, small, ?_⟩
      simpa [Vfs.allocate, covered] using isRoot
    · left
      simpa [covered, same, mountOf] using isMounted
  · constructor
    · intro number inside
      rw [rootKeeps.name number inside, coveredKeeps.name number inside]
    · intro number inside
      rw [rootKeeps.parent number inside, coveredKeeps.parent number inside]
    · intro number inside
      rw [rootKeeps.node number inside, coveredKeeps.node number inside]

theorem change (change : Change lookup vfs next)
    (named : ∀ fs ∈ next.vfsFsList, RootName fs.rootName) :
    MountTree lookup next := by
  cases change with
  | registerFs fs =>
    exact ⟨tree.toDentryTree.change (.registerFs vfs fs), named, tree.root,
      tree.order, tree.above, tree.mounts, tree.componentNames,
      tree.rootNames, tree.allNames⟩
  | link link => exact tree.link link
  | unmountRoot =>
    refine ⟨tree.toDentryTree.change (.unmountRoot vfs), tree.listed, ?_,
      tree.order, tree.above, tree.mounts, tree.componentNames,
      tree.rootNames, tree.allNames⟩
    intro root isRoot
    cases isRoot
  | @mountRoot fs iPdata registered made =>
    have rooted := tree.makeRoot registered iPdata
    refine ⟨tree.toDentryTree.change (.mountRoot registered made),
      tree.listed, ?_, rooted.order, rooted.above, rooted.mounts,
      rooted.componentNames, rooted.rootNames, rooted.allNames⟩
    intro root isRoot
    cases isRoot
    exact ⟨lt_succ_self _, by simp [Vfs.makeRoot, Vfs.allocate]⟩
  | mountOn registered _ inodeEq =>
    exact tree.mountOn registered _ inodeEq

end

end MountTree

section Reachable

variable {lookup : ι → Text → LookupResult ι} {vfs next : Vfs ι}

theorem Change.registered (change : Change lookup vfs next) {fs : VfsFs ι}
    (member : fs ∈ vfs.vfsFsList) : fs ∈ next.vfsFsList := by
  cases change with
  | registerFs other => exact mem_append_left _ member
  | link link =>
    cases link
    exact member
  | unmountRoot => exact member
  | mountRoot => exact member
  | mountOn => exact member

theorem MountTree.links (tree : MountTree lookup vfs)
    (links : Links lookup vfs next) : MountTree lookup next := by
  induction links with
  | refl => exact tree
  | tail _ link induction => exact induction.link link

theorem MountTree.links_frame (tree : MountTree lookup vfs) (links : Links lookup vfs next) :
    (∀ number < vfs.dentryCount,
      (next.dentries number).dName = (vfs.dentries number).dName ∧
        (next.dentries number).dParent = (vfs.dentries number).dParent) ∧
    (∀ number, mountOf next number = mountOf vfs number) ∧
    ∀ owner, ∀ child ∈ (vfs.dentries owner).dSubdirs, child ∈ (next.dentries owner).dSubdirs := by
  induction links with
  | refl => exact ⟨fun _ _ => ⟨rfl, rfl⟩, fun _ => rfl, fun _ _ => id⟩
  | @tail middle next links link induction =>
    obtain ⟨kept, mounts, subdirs⟩ := induction
    have frame := linkFrame (tree.links links).toDentryTree link
    refine ⟨?_, ?_, ?_⟩
    · intro number inside
      have still := inside.trans_le (Links.count_le links)
      rw [frame.keeps.name number still, frame.keeps.parent number still]
      exact kept number inside
    · intro number
      rw [frame.mount, mounts]
    · intro owner child member
      exact (frame.subdirs owner child).mpr (Or.inl (subdirs owner child member))

/-- The tree of every state that the operations reach, if no file system with
another root name has been registered. -/
theorem mountTree_of_run {ops : List (VfsOp ι)}
    (reached : runExcept (vfsStep lookup) vfsInit ops = .ok vfs)
    (named : ∀ fs ∈ vfs.vfsFsList, RootName fs.rootName) :
    MountTree lookup vfs := by
  have invariant : (∀ fs ∈ vfs.vfsFsList, RootName fs.rootName) → MountTree lookup vfs := by
    apply runExcept_invariant _ (fun _ => MountTree.init) reached
    intro before op after holds stepped
    apply (vfsStep_changes stepped).invariant holds
    intro before next change holds named
    apply (holds _).change change named
    intro fs member
    exact named fs (change.registered member)
  exact invariant named

end Reachable

/-! ## Dentries that names lead to -/

/-- A step down by a name, with the name of the root that is mounted on the
entry. -/
structure PathStep where
  name : Text
  rootName : Option Text
  deriving DecidableEq

/-- Names lead from the root to a dentry, over the mounts on the way. -/
inductive Visible (vfs : Vfs ι) (root : Nat) : List PathStep → Nat → Prop where
  | root : Visible vfs root [] root
  | child {steps : List PathStep} {owner child : Nat}
      (visible : Visible vfs root steps owner)
      (member : child ∈ (vfs.dentries owner).dSubdirs)
      (uncovered : mountOf vfs child = none) :
      Visible vfs root (steps ++ [⟨(vfs.dentries child).dName, none⟩]) child
  | mounted {steps : List PathStep} {owner child mounted : Nat}
      (visible : Visible vfs root steps owner)
      (member : child ∈ (vfs.dentries owner).dSubdirs)
      (isMounted : mountOf vfs child = some mounted) :
      Visible vfs root (steps ++ [⟨(vfs.dentries child).dName,
        some (vfs.dentries mounted).dName⟩]) mounted

namespace Visible

variable {lookup : ι → Text → LookupResult ι} {vfs next : Vfs ι}
  {root dentry : Nat} {steps : List PathStep}

section

variable (tree : MountTree lookup vfs)

include tree

/-- The way to a dentry leads through dentries with smaller numbers. -/
theorem split (visible : Visible vfs root steps dentry) {front back : List PathStep}
    (stepsEq : steps = front ++ back) :
    ∃ above, Visible vfs root front above ∧ above ≤ dentry ∧ (back ≠ [] → above < dentry) := by
  induction visible generalizing back with
  | root =>
    obtain ⟨rfl, rfl⟩ := append_eq_nil_iff.mp stepsEq.symm
    exact ⟨root, .root, le_refl _, fun nonempty => absurd rfl nonempty⟩
  | @child steps owner child visible member uncovered induction =>
    rcases eq_nil_or_concat back with rfl | ⟨init, last, rfl⟩
    · rw [append_nil] at stepsEq
      rw [← stepsEq]
      exact ⟨child, .child visible member uncovered, le_refl _, fun nonempty => absurd rfl nonempty⟩
    · rw [concat_eq_append, ← append_assoc] at stepsEq
      obtain ⟨above, aboveVisible, below, _⟩ := induction (append_inj_left' stepsEq rfl)
      have smaller := below.trans_lt (tree.order owner child member)
      exact ⟨above, aboveVisible, smaller.le, fun _ => smaller⟩
  | @mounted steps owner child mounted visible member isMounted induction =>
    rcases eq_nil_or_concat back with rfl | ⟨init, last, rfl⟩
    · rw [append_nil] at stepsEq
      rw [← stepsEq]
      exact ⟨mounted, .mounted visible member isMounted, le_refl _,
        fun nonempty => absurd rfl nonempty⟩
    · rw [concat_eq_append, ← append_assoc] at stepsEq
      obtain ⟨above, aboveVisible, below, _⟩ := induction (append_inj_left' stepsEq rfl)
      have smaller := (below.trans_lt (tree.order owner child member)).trans
        (tree.mounts child mounted isMounted).1
      exact ⟨above, aboveVisible, smaller.le, fun _ => smaller⟩

theorem inside (isRoot : vfs.vfsRoot = some root)
    (visible : Visible vfs root steps dentry) : dentry < vfs.dentryCount := by
  cases visible with
  | root => exact (tree.root root isRoot).1
  | child _ member _ => exact tree.child_lt member
  | mounted _ _ isMounted => exact (tree.mounts _ _ isMounted).2.1

theorem links (linked : Links lookup vfs next) (visible : Visible vfs root steps dentry) :
    Visible next root steps dentry := by
  obtain ⟨kept, mounts, subdirs⟩ := tree.links_frame linked
  induction visible with
  | root => exact .root
  | @child steps owner child _ member uncovered induction =>
    rw [← (kept child (tree.child_lt member)).1]
    rw [← mounts] at uncovered
    exact .child induction (subdirs owner child member) uncovered
  | @mounted steps owner child mounted _ member isMounted induction =>
    rw [← (kept child (tree.child_lt member)).1, ← (kept mounted (tree.mounts _ _ isMounted).2.1).1]
    rw [← mounts] at isMounted
    exact .mounted induction (subdirs owner child member) isMounted

/-- A dentry that was there before a name was linked was visible already. -/
theorem of_link (linked : Link lookup vfs next) (visible : Visible next root steps dentry)
    (old : dentry < vfs.dentryCount) : Visible vfs root steps dentry := by
  have frame := MountTree.linkFrame tree.toDentryTree linked
  induction visible with
  | root => exact .root
  | @child steps owner child _ member uncovered induction =>
    rcases (frame.subdirs owner child).mp member with member | ⟨isNew, _⟩
    · rw [frame.keeps.name child old]
      rw [frame.mount] at uncovered
      exact .child (induction ((tree.order owner child member).trans old)) member uncovered
    · exact absurd isNew old.ne
  | @mounted steps owner child mounted _ member isMounted induction =>
    rw [frame.mount] at isMounted
    have childOld := (tree.mounts child mounted isMounted).1.trans old
    rcases (frame.subdirs owner child).mp member with member | ⟨isNew, _⟩
    · rw [frame.keeps.name child childOld, frame.keeps.name mounted old]
      exact .mounted (induction ((tree.order owner child member).trans childOld)) member isMounted
    · exact absurd isNew childOld.ne

theorem of_links (links : Links lookup vfs next) (visible : Visible next root steps dentry)
    (old : dentry < vfs.dentryCount) : Visible vfs root steps dentry := by
  induction links with
  | refl => exact visible
  | @tail middle next links linked induction =>
    have oldInMiddle := old.trans_le (Links.count_le links)
    exact induction (visible.of_link (tree.links links) linked oldInMiddle)

end

end Visible

end SeekOs.Fs
