import SeekOs.Fs.MountTree

/-!
# Resolving names one after the other

A visible dentry is found again by the names on the way to it, and what the
resolver finds by names alone is visible.  A path that has been resolved once
is cached, and resolves to the same dentry from then on.
-/

namespace SeekOs.Fs

open SeekOs.Lib List

variable {ι : Type*} {lookup : ι → Text → LookupResult ι} {vfs next : Vfs ι}
variable {name : Text} {root directory parent dentry : Nat}
  {current : Option Nat} {steps : List PathStep} {after : Vfs ι}
  {rest : List Token} {owner child : Nat} {step : Option Nat} {found : Nat}

theorem MountTree.linked (tree : MountTree lookup vfs) : Linked vfs := ⟨tree.root, tree.inodes⟩

theorem DentryTree.findSubdir_iff (tree : DentryTree lookup vfs) :
    findSubdir vfs owner name = some child ↔
      child ∈ (vfs.dentries owner).dSubdirs ∧ (vfs.dentries child).dName = name := by
  constructor
  · intro found
    refine ⟨List.mem_of_find?_eq_some found, ?_⟩
    simpa using List.find?_some found
  · rintro ⟨member, nameEq⟩
    cases found : findSubdir vfs owner name with
    | none =>
      have missed := List.find?_eq_none.mp found child member
      exact absurd (by simpa using nameEq) missed
    | some other =>
      have otherMember := List.mem_of_find?_eq_some found
      have otherName : (vfs.dentries other).dName = name := by
        simpa using List.find?_some found
      rw [inj_on_of_nodup_map (tree.names owner) otherMember member (otherName.trans nameEq.symm)]

theorem resolveComponent_cached (tree : MountTree lookup vfs)
    (member : child ∈ (vfs.dentries owner).dSubdirs)
    (current : Option Nat) :
    resolveComponent lookup vfs current owner (vfs.dentries child).dName =
      .ok (vfs, some (some (mountedRoot vfs child), mountedRoot vfs child)) := by
  have isName := tree.componentNames owner child member
  have cached := tree.findSubdir_iff.mpr ⟨member, rfl⟩
  have crossed := crossMount_filled (tree.inodes owner child member)
  simp [resolveComponent, isName.notDot, isName.notDotDot, resolveName, cached, crossed, Except.map]

/-! ## Names that lead somewhere -/

/-- Tokens with these names lead the loop from the start to the cursors
`current` and `parent`, or a token that does not fit stops it. -/
def Leads (lookup : ι → Text → LookupResult ι) (vfs : Vfs ι) (root : Nat)
    (names : List Text) (current : Option Nat) (parent : Nat) : Prop :=
  ∀ front rest : List Token, front.map Token.name = names →
    ((∀ token ∈ front, token.Fits) →
      resolveTokens lookup vfs none root (front ++ rest) =
        resolveTokens lookup vfs current parent rest) ∧
    (¬(∀ token ∈ front, token.Fits) →
      resolveTokens lookup vfs none root (front ++ rest) = .error .overrun)

theorem Leads.nil (root : Nat) : Leads lookup vfs root [] none root := by
  intro front rest named
  obtain rfl : front = [] := map_eq_nil_iff.mp named
  simp

theorem Leads.snoc {names : List Text}
    (leads : Leads lookup vfs root names current parent) (nonempty : name ≠ [])
    (resolved : resolveComponent lookup vfs current parent name =
      .ok (vfs, some (step, directory))) :
    Leads lookup vfs root (names ++ [name]) step directory := by
  intro front rest named
  obtain ⟨init, back, rfl, initNamed, backNamed⟩ := map_eq_append_iff.mp named
  obtain ⟨token, rfl, nameEq⟩ := map_eq_singleton_iff.mp backNamed
  rw [append_assoc, singleton_append]
  obtain ⟨fitting, overrunning⟩ := leads init (token :: rest) initNamed
  subst nameEq
  constructor
  · intro fits
    rw [fitting fun token member => fits token (mem_append_left _ member)]
    exact resolveTokens_onward (fits token (mem_append_right _ mem_cons_self)) nonempty resolved
  · intro misfit
    by_cases initFits : ∀ token ∈ init, token.Fits
    · have lastMisfit : ¬token.Fits := by
        intro fits
        apply misfit
        intro other member
        rcases mem_append.mp member with early | last
        · exact initFits other early
        · rw [mem_singleton.mp last]
          exact fits
      rw [fitting initFits, resolveTokens, if_pos lastMisfit]
    · exact overrunning initFits

theorem Visible.leads (tree : MountTree lookup vfs) (visible : Visible vfs root steps dentry) :
    Leads lookup vfs root (steps.map PathStep.name)
      (if steps = [] then none else some dentry) dentry := by
  induction visible with
  | root => exact Leads.nil root
  | @child steps owner child visible member uncovered induction =>
    have crossed : mountedRoot vfs child = child := congrArg (·.getD child) uncovered
    have resolved := resolveComponent_cached tree member (if steps = [] then none else some owner)
    rw [crossed] at resolved
    rw [map_append, if_neg (by simp)]
    exact induction.snoc (tree.componentNames owner child member).nonempty resolved
  | @mounted steps owner child mounted visible member isMounted induction =>
    have crossed : mountedRoot vfs child = mounted := congrArg (·.getD child) isMounted
    have resolved := resolveComponent_cached tree member (if steps = [] then none else some owner)
    rw [crossed] at resolved
    rw [map_append, if_neg (by simp)]
    exact induction.snoc (tree.componentNames owner child member).nonempty resolved

/-! ## What names alone can find -/

theorem enterName_child (tree : MountTree lookup vfs) (isName : ComponentName name)
    (entered : enterName lookup vfs directory name = (after, some found)) :
    Links lookup vfs after ∧
      ∃ child ∈ (after.dentries directory).dSubdirs,
        (after.dentries child).dName = name ∧ mountedRoot after child = found := by
  unfold enterName at entered
  cases cached : findSubdir vfs directory name with
  | some child =>
    rw [cached] at entered
    cases entered
    obtain ⟨member, nameEq⟩ := tree.findSubdir_iff.mp cached
    exact ⟨.refl, child, member, nameEq, rfl⟩
  | none =>
    cases inodeEq : (vfs.dentries directory).dInode with
    | none =>
      simp only [cached, inodeEq] at entered
      cases entered
    | some inode =>
      cases result : lookup inode.iPdata name with
      | null =>
        simp only [cached, inodeEq, result] at entered
        cases entered
      | unfilled =>
        simp only [cached, inodeEq, result] at entered
        cases entered
      | filled iPdata =>
        simp only [cached, inodeEq, result] at entered
        cases entered
        have small : directory < vfs.dentryCount := tree.lt_of_inode (by rw [inodeEq]; rfl)
        have new := (DentryTree.linkSubdir_dentries small name (some ⟨iPdata, none⟩)).1
        refine ⟨.single (.intro isName inodeEq cached result), vfs.dentryCount, ?_, ?_, ?_⟩
        · exact (tree.mem_linkSubdir small).mpr (Or.inr ⟨rfl, rfl⟩)
        · rw [new]
        · rw [mountedRoot, new]
          rfl

/-- A name leads from a visible directory to a visible dentry, in the tree
with the name linked. -/
theorem Visible.enterName (tree : MountTree lookup vfs)
    (visible : Visible vfs root steps directory) (isName : ComponentName name)
    (entered : enterName lookup vfs directory name = (after, some found)) :
    Links lookup vfs after ∧ ∃ steps, Visible after root steps found := by
  obtain ⟨links, child, member, _, crossed⟩ := enterName_child tree isName entered
  have visible := visible.links tree links
  refine ⟨links, ?_⟩
  cases isMounted : mountOf after child with
  | none =>
    have uncovered : mountedRoot after child = child := congrArg (·.getD child) isMounted
    rw [← crossed, uncovered]
    exact ⟨_, .child visible member isMounted⟩
  | some mounted =>
    have covered : mountedRoot after child = mounted := congrArg (·.getD child) isMounted
    rw [← crossed, covered]
    exact ⟨_, .mounted visible member isMounted⟩

/-- What is found without `.` and `..` is visible. -/
theorem visible_of_resolveTokens (tree : MountTree lookup vfs)
    (visible : Visible vfs root steps parent)
    (cursor : current = none ∨ current = some parent)
    (named : ∀ token ∈ rest, token.name = [] ∨ ComponentName token.name)
    (resolved : resolveTokens lookup vfs current parent rest = .ok (after, some dentry)) :
    Links lookup vfs after ∧ ∃ steps, Visible after root steps dentry := by
  induction rest generalizing vfs steps current parent with
  | nil =>
    cases resolved
    rcases cursor with none | some
    · cases none
    · cases some
      exact ⟨.refl, steps, visible⟩
  | cons token rest induction =>
    rw [resolveTokens] at resolved
    split at resolved
    · cases resolved
    split at resolved
    · cases resolved
      rcases cursor with none | some
      · cases none
      · cases some
        exact ⟨.refl, steps, visible⟩
    next nonempty =>
    have isName := (named token mem_cons_self).resolve_left nonempty
    by_cases unfilled : LeavesUnfilled lookup vfs parent token.name
    · have stopped := (resolveName_eq tree.linked parent token.name).2 unfilled
      simp [resolveComponent, isName.notDot, isName.notDotDot, stopped, Except.map] at resolved
    have entering := @resolveComponent_name _ lookup vfs current parent
      tree.linked _ isName.notDot isName.notDotDot unfilled
    rw [entering] at resolved
    cases entered : Fs.enterName lookup vfs parent token.name with
    | mk middle found =>
      rw [entered] at resolved
      cases found with
      | none => cases resolved
      | some found =>
        obtain ⟨links, steps, visible⟩ := visible.enterName tree isName entered
        obtain ⟨restLinks, visible⟩ := induction (tree.links links) visible (Or.inr rfl)
          (fun other member =>
            named other (mem_cons_of_mem token member))
          resolved
        exact ⟨links.trans restLinks, visible⟩

/-! ## Paths that have been resolved -/

/-- What a component did once it does again in every later tree, and its
cursors are in the tree. -/
theorem resolveComponent_again (tree : MountTree lookup vfs) {middle : Vfs ι} (nonempty : name ≠ [])
    (proper : slash ∉ name ∧ (0 : UInt8) ∉ name)
    (cursor : current = none ∨ current = some parent)
    (inside : parent < vfs.dentryCount)
    (resolved : resolveComponent lookup vfs current parent name =
      .ok (middle, some (step, directory)))
    (later : Links lookup middle after) :
    Links lookup vfs middle ∧ (step = none ∨ step = some directory) ∧
      directory < middle.dentryCount ∧
      resolveComponent lookup after current parent name = .ok (after, some (step, directory)) := by
  by_cases isDot : name = dot
  · have stays : resolveComponent lookup vfs current parent name =
        .ok (vfs, some (current, parent)) := if_pos isDot
    rw [stays] at resolved
    cases resolved
    exact ⟨.refl, cursor, inside, if_pos isDot⟩
  by_cases isDotDot : name = dotDot
  · rcases cursor with rfl | rfl
    · have stays : ∀ tree : Vfs ι,
          resolveComponent lookup tree none parent name = .ok (tree, some (none, parent)) := by
        intro tree
        simp [resolveComponent, isDotDot, dot, dotDot]
      rw [stays] at resolved
      cases resolved
      exact ⟨.refl, Or.inl rfl, inside, stays after⟩
    · have climbs : ∀ tree : Vfs ι,
          resolveComponent lookup tree (some parent) parent name =
            .ok (tree, some (some (tree.dentries parent).dParent,
              (tree.dentries parent).dParent)) := by
        intro tree
        simp [resolveComponent, isDotDot, dot, dotDot]
      rw [climbs] at resolved
      cases resolved
      have kept := ((tree.links_frame later).1 parent inside).2
      refine ⟨.refl, Or.inr rfl, (tree.above parent inside).trans_lt inside, ?_⟩
      rw [climbs, kept]
  have isName : ComponentName name := ⟨nonempty, proper.1, proper.2, isDot, isDotDot⟩
  by_cases unfilled : LeavesUnfilled lookup vfs parent name
  · have stopped := (resolveName_eq tree.linked parent name).2 unfilled
    simp [resolveComponent, isDot, isDotDot, stopped, Except.map] at resolved
  have entering := @resolveComponent_name _ lookup vfs current parent
    tree.linked _ isDot isDotDot unfilled
  rw [entering] at resolved
  cases entered : enterName lookup vfs parent name with
  | mk entry found =>
    rw [entered] at resolved
    cases found with
    | none => cases resolved
    | some found =>
      cases resolved
      obtain ⟨links, child, member, nameEq, crossed⟩ := enterName_child tree isName entered
      have treeThen := tree.links links
      obtain ⟨kept, mounts, subdirs⟩ := treeThen.links_frame later
      have again := resolveComponent_cached (treeThen.links later)
        (subdirs parent child member) current
      have stillCrossed : mountedRoot after child = directory := by
        rw [← crossed]
        exact congrArg (·.getD child) (mounts child)
      rw [(kept child (treeThen.child_lt member)).1, nameEq, stillCrossed] at again
      refine ⟨links, Or.inr rfl, ?_, again⟩
      rw [← crossed]
      cases isMounted : mountOf entry child with
      | none =>
        have uncovered : mountedRoot entry child = child := congrArg (·.getD child) isMounted
        rw [uncovered]
        exact treeThen.child_lt member
      | some mounted =>
        have covered : mountedRoot entry child = mounted := congrArg (·.getD child) isMounted
        rw [covered]
        exact (treeThen.mounts child mounted isMounted).2.1

theorem resolveTokens_links {found : Option Nat}
    (proper : ∀ token ∈ rest, slash ∉ token.name ∧ (0 : UInt8) ∉ token.name)
    (resolved : resolveTokens lookup vfs current parent rest = .ok (after, found)) :
    Links lookup vfs after := by
  induction rest generalizing vfs current parent with
  | nil =>
    cases resolved
    exact .refl
  | cons token rest induction =>
    have tokenProper := proper token mem_cons_self
    rw [resolveTokens] at resolved
    split at resolved
    · cases resolved
    split at resolved
    · cases resolved
      exact .refl
    next nonempty =>
    split at resolved
    · cases resolved
    · next stepped =>
        cases resolved
        exact resolveComponent_links nonempty tokenProper stepped
    · next stepped =>
        have first := resolveComponent_links nonempty tokenProper stepped
        have rest := induction
          (fun other member =>
            proper other (mem_cons_of_mem token member))
          resolved
        exact first.trans rest

/-- Names that have been resolved lead to the same dentry from then on.  The
names `done` have led from the start to the cursors. -/
theorem leads_of_resolveTokens {done : List Text} (tree : MountTree lookup vfs)
    (cursor : current = none ∨ current = some parent)
    (inside : parent < vfs.dentryCount) (proper : ∀ token ∈ rest,
      token.name ≠ [] ∧ slash ∉ token.name ∧ (0 : UInt8) ∉ token.name)
    (resolved : resolveTokens lookup vfs current parent rest = .ok (after, some dentry))
    (leads : Leads lookup after root done current parent) :
    Leads lookup after root (done ++ rest.map Token.name) (some dentry)
      dentry := by
  induction rest generalizing vfs current parent done with
  | nil =>
    cases resolved
    rcases cursor with none | some
    · cases none
    · cases some
      rw [map_nil, append_nil]
      exact leads
  | cons token rest induction =>
    obtain ⟨nonempty, noSlash, noNul⟩ := proper token mem_cons_self
    rw [resolveTokens] at resolved
    split at resolved
    · cases resolved
    split at resolved
    · cases resolved
    · cases resolved
    next middle step directory stepped =>
    have properRest : ∀ other ∈ rest, other.name ≠ [] ∧
        slash ∉ other.name ∧ (0 : UInt8) ∉ other.name :=
      fun other member => proper other (mem_cons_of_mem token member)
    have later : Links lookup middle after :=
      resolveTokens_links (fun other member => (properRest other member).2) resolved
    obtain ⟨links, cursor, inside, again⟩ :=
      resolveComponent_again tree nonempty ⟨noSlash, noNul⟩ cursor inside stepped later
    have onward := induction (tree.links links) cursor inside properRest
      resolved (leads.snoc nonempty again)
    rw [append_assoc] at onward
    exact onward

end SeekOs.Fs
