import SeekOs.Fs.VisiblePaths

/-!
# Full paths

`vfs_get_full_path` rebuilds the path of a dentry from the leaf to the root, by
putting names and slashes before what it has.  The path leads back to the
dentry unless a FAT32 root lies in between: it is called `/`, and the resolver
takes the three slashes around it for the end of the path.
-/

namespace SeekOs.Fs

open SeekOs.Lib List Option PathStep Token Nat

variable {ι : Type*}
variable {dentry fuel : Nat} {step : PathStep} {steps : List PathStep}

/-! ## The code -/

/-- Put a text before the one in `full_path`, by way of `temp_path`. -/
def prependPath (tempPath fullPath : List UInt8) (text : Text) :
    Option (List UInt8 × List UInt8) := do
  let length ← textLength fullPath
  let moved ← store tempPath text.length (fullPath.take length)
  let tempPath ← store moved 0 text
  let tempLength ← textLength tempPath
  let fullPath ← store fullPath 0 (tempPath.take tempLength)
  return (tempPath, fullPath)

def fullPathLoop (vfs : Vfs ι) (root : Nat) :
    Nat → Nat → List UInt8 → List UInt8 → Except Fault (List UInt8)
  | 0, _, _, _ => .error .diverged
  | fuel + 1, dentry, tempPath, fullPath =>
    if dentry = root then
      .ok fullPath
    else
      match prependPath tempPath fullPath (vfs.dentries dentry).dName with
      | none => .error .overrun
      | some (tempPath, fullPath) =>
        let parent := (vfs.dentries dentry).dParent
        if parent = dentry then
          .ok fullPath
        else
          match prependPath tempPath fullPath [slash] with
          | none => .error .overrun
          | some (tempPath, fullPath) =>
            fullPathLoop vfs root fuel parent tempPath fullPath

/-- The text without a slash at its end, unless it is nothing else. -/
def stripSlash (text : Text) : Text :=
  if 1 < text.length ∧ text.getLast? = some slash then
    text.dropLast
  else
    text

/-- `vfs_get_full_path` for a handle on the dentry: the text in `buff`. -/
def vfsGetFullPath (vfs : Vfs ι) (dentry len : Nat) : Except Fault Text :=
  match vfs.vfsRoot with
  | none => .error .nullPointer
  | some root =>
    let buffer := List.replicate vfsMaxPathLength 0
    let start :=
      if dentry = root then
        prependPath buffer buffer [slash]
      else
        some (buffer, buffer)
    match start with
    | none => .error .overrun
    | some (tempPath, fullPath) =>
      match fullPathLoop vfs root (vfs.dentryCount + 1) dentry tempPath fullPath with
      | .error fault => .error fault
      | .ok fullPath =>
        match textLength fullPath with
        | none => .error .overrun
        | some fullLen =>
          .ok ((stripSlash (fullPath.take fullLen)).take (len - 1))

/-! ## The text that is built -/

/-- The texts of the loop, without the buffers. -/
def climbText (vfs : Vfs ι) (root : Nat) : Nat → Nat → Text → Option Text
  | 0, _, _ => none
  | fuel + 1, dentry, text =>
    if dentry = root then
      some text
    else
      let named := (vfs.dentries dentry).dName ++ text
      let parent := (vfs.dentries dentry).dParent
      if parent = dentry then
        some named
      else
        climbText vfs root fuel parent (slash :: named)

section Buffers

variable {tempPath fullPath : List UInt8} {text lead : Text}

theorem prependPath_cases (holdsTemp : HoldsText vfsMaxPathLength tempPath text)
    (holdsFull : HoldsText vfsMaxPathLength fullPath text)
    (proper : (0 : UInt8) ∉ lead) :
    (∃ temp full, prependPath tempPath fullPath lead = some (temp, full) ∧
      HoldsText vfsMaxPathLength temp (lead ++ text) ∧
        HoldsText vfsMaxPathLength full (lead ++ text)) ∨
    prependPath tempPath fullPath lead = none ∧ vfsMaxPathLength ≤ (lead ++ text).length := by
  by_cases short : lead.length + text.length < vfsMaxPathLength
  · left
    obtain ⟨moved, temp, movedEq, tempEq, tempHolds⟩ := holdsTemp.prepend proper short
    obtain ⟨full, fullEq, fullHolds⟩ := holdsFull.replace tempHolds.proper
      tempHolds.short (by rw [length_append]; omega)
    refine ⟨temp, full, ?_, tempHolds, fullHolds⟩
    simp only [prependPath, holdsFull.textLength, holdsFull.take, movedEq,
      tempEq, tempHolds.textLength, tempHolds.take, fullEq,
      bind_eq_bind, bind_some]
    rfl
  · right
    have long : vfsMaxPathLength ≤ lead.length + text.length := Nat.le_of_not_lt short
    refine ⟨?_, by rw [length_append]; exact long⟩
    simp only [prependPath, holdsFull.textLength, holdsFull.take, bind_eq_bind, bind_some]
    cases movedEq : store tempPath lead.length text with
    | none => rfl
    | some moved =>
      cases tempEq : store moved 0 lead with
      | none => simp [tempEq]
      | some temp =>
        have full := holdsTemp.prepend_overrun proper long movedEq tempEq
        simp [tempEq, full]

variable {lookup : ι → Text → LookupResult ι} {vfs : Vfs ι} {root : Nat}

theorem MountTree.name_proper (tree : MountTree lookup vfs) (inside : dentry < vfs.dentryCount) :
    (0 : UInt8) ∉ (vfs.dentries dentry).dName := by
  rcases tree.allNames dentry inside with isName | isEmpty | isSlash
  · exact isName.noNul
  · rw [isEmpty]
    exact not_mem_nil
  · rw [isSlash]
    decide

theorem climbText_length {result : Text}
    (climbed : climbText vfs root fuel dentry text = some result) :
    text.length ≤ result.length := by
  induction fuel generalizing dentry text with
  | zero => cases climbed
  | succ fuel induction =>
    rw [climbText] at climbed
    split at climbed
    · cases climbed
      exact le_refl _
    · simp only at climbed
      split at climbed
      · cases climbed
        rw [length_append]
        exact le_add_left _ _
      · have longer := induction climbed
        rw [length_cons, length_append] at longer
        omega

/-- The loop builds the text if it fits, and otherwise does not end well. -/
theorem fullPathLoop_spec (tree : MountTree lookup vfs) (inside : dentry < vfs.dentryCount)
    (holdsTemp : HoldsText vfsMaxPathLength tempPath text)
    (holdsFull : HoldsText vfsMaxPathLength fullPath text) :
    (∀ result, climbText vfs root fuel dentry text = some result →
      result.length < vfsMaxPathLength →
        ∃ filled,
          fullPathLoop vfs root fuel dentry tempPath fullPath = .ok filled ∧
            HoldsText vfsMaxPathLength filled result) ∧
    (∀ filled,
      fullPathLoop vfs root fuel dentry tempPath fullPath = .ok filled →
        ∃ result, climbText vfs root fuel dentry text = some result ∧
          HoldsText vfsMaxPathLength filled result) := by
  induction fuel generalizing dentry tempPath fullPath text with
  | zero => simp [climbText, fullPathLoop]
  | succ fuel induction =>
    rw [climbText, fullPathLoop]
    by_cases atRoot : dentry = root
    · rw [if_pos atRoot, if_pos atRoot]
      constructor
      · intro result isResult _
        cases isResult
        exact ⟨fullPath, rfl, holdsFull⟩
      · intro filled isFilled
        cases isFilled
        exact ⟨text, rfl, holdsFull⟩
    rw [if_neg atRoot, if_neg atRoot]
    simp only
    rcases prependPath_cases holdsTemp holdsFull (tree.name_proper inside) with
      ⟨temp, full, prepended, tempHolds, fullHolds⟩ | ⟨stopped, long⟩
    case inr =>
      rw [stopped]
      constructor
      · intro result climbed short
        exfalso
        split at climbed
        · cases climbed
          exact absurd short (Nat.not_lt_of_le long)
        · have longer := climbText_length climbed
          rw [length_cons] at longer
          omega
      · intro filled failed
        cases failed
    rw [prepended]
    simp only
    by_cases top : (vfs.dentries dentry).dParent = dentry
    · rw [if_pos top, if_pos top]
      constructor
      · intro result isResult _
        cases isResult
        exact ⟨full, rfl, fullHolds⟩
      · intro filled isFilled
        cases isFilled
        exact ⟨_, rfl, fullHolds⟩
    rw [if_neg top, if_neg top]
    rcases prependPath_cases tempHolds fullHolds (by decide : (0 : UInt8) ∉ [slash]) with
      ⟨temp, full, prepended, tempHolds, fullHolds⟩ | ⟨stopped, long⟩
    case inr =>
      rw [stopped]
      constructor
      · intro result climbed short
        exfalso
        have longer := climbText_length climbed
        rw [singleton_append] at long
        omega
      · intro filled failed
        cases failed
    rw [prepended]
    have parentInside := (tree.above dentry inside).trans_lt inside
    exact induction parentInside tempHolds fullHolds

end Buffers

/-! ## The text of a visible dentry -/

namespace PathStep

/-- A slash and a name, and a slash and the name of the root mounted there. -/
def text (step : PathStep) : Text :=
  match step.rootName with
  | none => slash :: step.name
  | some rootName => slash :: step.name ++ slash :: rootName

/-- What the slashes of a step separate. -/
def segments (step : PathStep) : List Text :=
  match step.rootName with
  | none => [step.name]
  | some rootName => step.name :: rootName.splitOn slash

/-- The step without a slash at its end. -/
def stripped (step : PathStep) : PathStep :=
  ⟨step.name, if step.rootName = some [slash] then some [] else none⟩

/-- The root mounted there has no name. -/
def Plain (step : PathStep) : Prop :=
  step.rootName = none ∨ step.rootName = some []

end PathStep

def stepsText (steps : List PathStep) : Text :=
  steps.flatMap PathStep.text

/-- The names of a path as the tree has them. -/
structure ProperStep (step : PathStep) : Prop where
  name : ComponentName step.name
  rootName : ∀ rootName ∈ step.rootName, RootName rootName

theorem ProperStep.stripped (proper : ProperStep step) : ProperStep step.stripped := by
  refine ⟨proper.name, ?_⟩
  intro rootName isRootName
  simp only [PathStep.stripped] at isRootName
  split at isRootName
  · cases isRootName
    exact Or.inl rfl
  · cases isRootName

section Texts

variable {lookup : ι → Text → LookupResult ι} {vfs : Vfs ι} {root : Nat}

theorem Visible.proper (tree : MountTree lookup vfs) (visible : Visible vfs root steps dentry) :
    ∀ step ∈ steps, ProperStep step := by
  induction visible with
  | root =>
    intro step member
    cases member
  | @child steps owner child _ member _ induction =>
    intro step isStep
    rcases mem_append.mp isStep with old | new
    · exact induction step old
    · rw [mem_singleton.mp new]
      refine ⟨tree.componentNames owner child member, ?_⟩
      intro rootName isRootName
      cases isRootName
  | @mounted steps owner child mounted _ member isMounted induction =>
    intro step isStep
    rcases mem_append.mp isStep with old | new
    · exact induction step old
    · rw [mem_singleton.mp new]
      refine ⟨tree.componentNames owner child member, ?_⟩
      intro rootName isRootName
      cases isRootName
      exact tree.rootNames child mounted isMounted

theorem Visible.climbText (tree : MountTree lookup vfs)
    (isRoot : vfs.vfsRoot = some root) (visible : Visible vfs root steps dentry)
    (enough : dentry < fuel) (text : Text) :
    climbText vfs root fuel dentry text = some (stepsText steps ++ text) := by
  have selfParent := (tree.root root isRoot).2
  induction visible generalizing fuel text with
  | root =>
    obtain ⟨fuel, rfl⟩ := Nat.exists_eq_add_of_lt enough
    simp [Fs.climbText, stepsText]
  | @child steps owner child visible member uncovered induction =>
    obtain ⟨fuel, rfl⟩ : ∃ less, fuel = less + 1 := ⟨fuel - 1, by omega⟩
    have parent := tree.parents owner child member
    have below := tree.order owner child member
    have notRoot : child ≠ root := by
      intro isRoot
      rw [isRoot, selfParent] at parent
      omega
    rw [Fs.climbText, if_neg notRoot, parent, if_neg below.ne, induction (by omega)]
    simp [stepsText, PathStep.text]
  | @mounted steps owner child mounted visible member isMounted induction =>
    obtain ⟨above, _, mountedParent⟩ := tree.mounts child mounted isMounted
    have parent := tree.parents owner child member
    have below := tree.order owner child member
    obtain ⟨fuel, rfl⟩ : ∃ less, fuel = less + 2 := ⟨fuel - 2, by omega⟩
    have notRoot : child ≠ root := by
      intro isRoot
      rw [isRoot, selfParent] at parent
      omega
    have mountedNotRoot : mounted ≠ root := by
      intro isRoot
      rw [isRoot, selfParent] at mountedParent
      omega
    rw [Fs.climbText, if_neg mountedNotRoot, mountedParent,
      if_neg above.ne, Fs.climbText, if_neg notRoot, parent,
      if_neg below.ne, induction (by omega)]
    simp [stepsText, PathStep.text]

theorem stepsText_append (front back : List PathStep) :
    stepsText (front ++ back) = stepsText front ++ stepsText back :=
  flatMap_append

theorem splitOn_stepsText (proper : ∀ step ∈ steps, ProperStep step) :
    (stepsText steps).splitOn slash = [] :: steps.flatMap segments := by
  induction steps using List.reverseRecOn with
  | nil => rfl
  | append_singleton steps step induction =>
    have front := induction fun other member =>
      proper other (mem_append_left _ member)
    have noSlash := (proper step (mem_append_right _ mem_cons_self)).name.noSlash
    have single : step.name.splitOn slash = [step.name] := splitOn_eq_singleton noSlash
    simp only [stepsText, flatMap_cons, flatMap_nil, append_nil, flatMap_append] at front ⊢
    cases rootEq : step.rootName with
    | none =>
      simp only [text, segments, rootEq]
      rw [splitOn_append_cons_self, front, single]
      rfl
    | some rootName =>
      simp only [text, segments, rootEq]
      rw [cons_append, splitOn_append_cons_self, splitOn_append_cons_self, front, single]
      rfl

theorem stripSlash_concat {text : Text} (nonempty : text ≠ []) :
    stripSlash (text ++ [slash]) = text := by
  have long : 1 < (text ++ [slash]).length := by
    rw [length_append, length_singleton]
    have := length_pos_iff.mpr nonempty
    omega
  rw [stripSlash, if_pos ⟨long, List.getLast?_concat⟩, dropLast_concat]

theorem stripSlash_stepsText (proper : ProperStep step) :
    stripSlash (stepsText (steps ++ [step])) = stepsText (steps ++ [step.stripped]) := by
  obtain ⟨name, rootName⟩ := step
  have isName : ComponentName name := proper.name
  rw [stepsText_append, stepsText_append]
  simp only [stepsText, flatMap_cons, flatMap_nil, append_nil, stripped]
  cases rootName with
  | none =>
    rw [stripSlash, if_neg]
    · rfl
    · rintro ⟨_, isSlash⟩
      apply isName.noSlash
      have last : (slash :: name).getLast? = name.getLast? := by
        obtain ⟨byte, bytes, rfl⟩ := exists_cons_of_ne_nil isName.nonempty
        rw [List.getLast?_cons_cons]
      simp only [text] at isSlash
      rw [List.getLast?_append_of_ne_nil _ (cons_ne_nil _ _), last] at isSlash
      exact List.mem_of_getLast? isSlash
  | some rootName =>
    rcases proper.rootName rootName rfl with rfl | rfl
    · have shape : text ⟨name, some []⟩ = (slash :: name) ++ [slash] := rfl
      rw [shape, ← append_assoc, stripSlash_concat (by simp)]
      rfl
    · have shape : text ⟨name, some [slash]⟩ =
          text ⟨name, some []⟩ ++ [slash] := by
        simp [text]
      rw [shape, ← append_assoc, stripSlash_concat (by simp [text])]
      rfl

end Texts

/-! ## The tokens of the text -/

section Tokens

/-- A list of segments that does not start with an empty one. -/
def Opens (segments : List Text) : Prop :=
  segments.head? ≠ some []

variable {segments : List Text}

theorem tokens_skip (opens : Opens segments) :
    (tokens ([] :: segments)).map Token.name = (tokens segments).map Token.name := by
  cases segments with
  | nil => rfl
  | cons first segments =>
    cases first with
    | nil => exact absurd rfl opens
    | cons byte bytes =>
      cases segments with
      | nil => rfl
      | cons second segments => simp [tokens]

theorem tokens_cons_name {name : Text} (nonempty : name ≠ []) :
    (tokens (name :: segments)).map Token.name = name :: (tokens segments).map Token.name := by
  obtain ⟨byte, bytes, rfl⟩ := exists_cons_of_ne_nil nonempty
  cases segments with
  | nil => rfl
  | cons second segments => simp [tokens]

section

variable (proper : ∀ step ∈ steps, ProperStep step)
include proper

theorem tokens_steps (plain : ∀ step ∈ steps, step.Plain) {rest : List Text} (opens : Opens rest) :
    (tokens (steps.flatMap PathStep.segments ++ rest)).map Token.name =
        steps.map PathStep.name ++ (tokens rest).map Token.name ∧
      (tokens ([] :: (steps.flatMap PathStep.segments ++ rest))).map Token.name =
        steps.map PathStep.name ++ (tokens rest).map Token.name := by
  induction steps with
  | nil => exact ⟨rfl, tokens_skip opens⟩
  | cons step steps induction =>
    have nonempty := (proper step mem_cons_self).name.nonempty
    obtain ⟨direct, skipping⟩ := induction
      (fun other member => proper other (mem_cons_of_mem step member))
      (fun other member => plain other (mem_cons_of_mem step member))
    have first : (tokens ((step :: steps).flatMap segments ++
        rest)).map Token.name =
          (step :: steps).map PathStep.name ++ (tokens rest).map Token.name := by
      rcases plain step mem_cons_self with noRoot | unnamed
      · simp only [flatMap_cons, PathStep.segments, noRoot, cons_append, nil_append, map_cons]
        rw [tokens_cons_name nonempty, direct]
      · simp only [flatMap_cons, PathStep.segments, unnamed, splitOn_nil, cons_append, nil_append,
          map_cons]
        rw [tokens_cons_name nonempty, skipping]
    refine ⟨first, ?_⟩
    rw [tokens_skip, first]
    simp only [Opens, flatMap_cons, PathStep.segments]
    split
    · simpa using nonempty
    · simpa using nonempty

theorem stripSlash_steps (plain : ∀ step ∈ steps.dropLast, step.Plain) (nonempty : steps ≠ []) :
    ∃ stripped : List PathStep,
      stripSlash (stepsText steps) = stepsText stripped ∧ (∀ step ∈ stripped, ProperStep step) ∧
        (∀ step ∈ stripped, step.Plain) ∧
        stripped.map PathStep.name = steps.map PathStep.name := by
  rcases eq_nil_or_concat steps with rfl | ⟨init, last, rfl⟩
  · exact absurd rfl nonempty
  rw [concat_eq_append] at proper plain ⊢
  rw [dropLast_concat] at plain
  have lastProper := proper last (mem_append_right _ mem_cons_self)
  refine ⟨init ++ [last.stripped], stripSlash_stepsText lastProper, ?_, ?_,
    by simp [PathStep.stripped]⟩
  · intro step member
    rcases mem_append.mp member with early | isLast
    · exact proper step (mem_append_left _ early)
    · rw [mem_singleton.mp isLast]
      exact lastProper.stripped
  · intro step member
    rcases mem_append.mp member with early | isLast
    · exact plain step early
    · rw [mem_singleton.mp isLast, stripped]
      split
      · exact Or.inr rfl
      · exact Or.inl rfl

/-- The full path and what follows it come apart into the names on the way and
the tokens of what follows. -/
theorem tokens_fullPath (plain : ∀ step ∈ steps.dropLast, step.Plain) (nonempty : steps ≠ []) :
    (tokens ((stripSlash (stepsText steps)).splitOn slash)).map Token.name =
        steps.map PathStep.name ∧
      ∀ path : Text, Opens (path.splitOn slash) →
        (tokens ((stripSlash (stepsText steps) ++ slash :: path).splitOn slash)).map Token.name =
          steps.map PathStep.name ++ (tokens (path.splitOn slash)).map Token.name := by
  obtain ⟨stripped, textEq, strippedProper, strippedPlain, names⟩ :=
    stripSlash_steps proper plain nonempty
  rw [textEq, ← names]
  have split := splitOn_stepsText strippedProper
  constructor
  · have alone := (tokens_steps strippedProper strippedPlain (by simp [Opens] : Opens [])).2
    rw [append_nil] at alone
    rw [split, alone]
    simp [tokens]
  · intro path opens
    rw [splitOn_append_cons_self, split]
    exact (tokens_steps strippedProper strippedPlain opens).2

end

/-- Behind a root called `/` there is an empty token. -/
theorem tokens_rooted {front back : List PathStep}
    (proper : ∀ other ∈ front ++ step :: back, ProperStep other)
    (plain : ∀ other ∈ front, other.Plain)
    (rooted : step.rootName = some [slash]) (nonempty : back ≠ []) :
    ∃ rest, (tokens ((stripSlash (stepsText (front ++ step :: back))).splitOn
        slash)).map Token.name =
      (front ++ [step]).map PathStep.name ++ [] :: rest := by
  rcases eq_nil_or_concat back with rfl | ⟨init, last, rfl⟩
  · exact absurd rfl nonempty
  rw [concat_eq_append] at proper ⊢
  have regroup : front ++ step :: (init ++ [last]) = front ++ step :: init ++ [last] := by simp
  rw [regroup] at proper ⊢
  have lastProper := proper last (mem_append_right _ mem_cons_self)
  have strippedProper : ∀ other ∈ front ++ step :: init ++ [last.stripped], ProperStep other := by
    intro other member
    rcases mem_append.mp member with early | isLast
    · exact proper other (mem_append_left _ early)
    · rw [mem_singleton.mp isLast]
      exact lastProper.stripped
  rw [stripSlash_stepsText lastProper, splitOn_stepsText strippedProper]
  have stepProper := proper step (by simp)
  obtain ⟨segment, segments, tailEq⟩ : ∃ segment segments,
      (init ++ [last.stripped]).flatMap PathStep.segments = segment :: segments := by
    apply exists_cons_of_ne_nil
    simp only [ne_eq, flatMap_eq_nil_iff, not_forall]
    refine ⟨last.stripped, mem_append_right _ mem_cons_self, ?_⟩
    simp only [segments]
    split
    · simp
    · simp
  have shape : (front ++ step :: init ++ [last.stripped]).flatMap
      PathStep.segments = front.flatMap PathStep.segments ++
        step.name :: [] :: [] :: segment :: segments := by
    rw [append_assoc, flatMap_append, cons_append, flatMap_cons, tailEq]
    simp only [PathStep.segments, rooted]
    rfl
  have opens : Opens (step.name :: [] :: [] :: segment :: segments) := by
    simpa [Opens] using stepProper.name.nonempty
  refine ⟨(tokens (segment :: segments)).map Token.name, ?_⟩
  rw [shape, (tokens_steps (fun other member => proper other (by simp [member])) plain opens).2,
    tokens_cons_name stepProper.name.nonempty]
  simp [tokens]

end Tokens

/-! ## The path as a whole -/

section Whole

variable {lookup : ι → Text → LookupResult ι} {vfs : Vfs ι} {root : Nat}

theorem stripSlash_length (text : Text) : (stripSlash text).length ≤ text.length := by
  unfold stripSlash
  split
  · rw [length_dropLast]
    exact sub_le _ _
  · exact le_refl _

theorem emptyBuffer_holds : HoldsText vfsMaxPathLength
    (List.replicate vfsMaxPathLength (0 : UInt8)) [] :=
  HoldsText.empty (by decide)

theorem vfsGetFullPath_root (isRoot : vfs.vfsRoot = some root) :
    vfsGetFullPath vfs root vfsMaxPathLength = .ok [slash] := by
  rcases prependPath_cases emptyBuffer_holds emptyBuffer_holds
      (by decide : (0 : UInt8) ∉ [slash]) with
    ⟨temp, full, prepended, _, fullHolds⟩ | ⟨_, long⟩
  · simp only [vfsGetFullPath, isRoot, if_true, prepended, fullPathLoop,
      fullHolds.textLength, fullHolds.take]
    rfl
  · exact absurd long (by decide)

/-- All parts between slashes are empty or names. -/
def NamedText (text : Text) : Prop :=
  ∀ segment ∈ text.splitOn slash, segment = [] ∨ ComponentName segment

theorem NamedText.nil : NamedText [] := by
  intro segment member
  rw [splitOn_nil, mem_singleton] at member
  exact Or.inl member

theorem NamedText.join {front back : Text} (left : NamedText front)
    (right : NamedText back) : NamedText (front ++ slash :: back) := by
  intro segment member
  rw [splitOn_append_cons_self] at member
  rcases mem_append.mp member with inFront | inBack
  · exact left segment inFront
  · exact right segment inBack

theorem NamedText.stripSlash {text : Text} (named : NamedText text) :
    NamedText (stripSlash text) := by
  unfold Fs.stripSlash
  split
  · next ends =>
      obtain ⟨front, rfl⟩ := List.getLast?_eq_some_iff.mp ends.2
      rw [dropLast_concat]
      intro segment member
      apply named segment
      rw [splitOn_append_cons_self]
      exact mem_append_left _ member
  · exact named

theorem stripSlash_subset {text : Text} {byte : UInt8}
    (member : byte ∈ stripSlash text) : byte ∈ text := by
  unfold stripSlash at member
  split at member
  · exact mem_of_mem_dropLast member
  · exact member

theorem stepsText_head (nonempty : steps ≠ []) : (stepsText steps).head? = some slash := by
  obtain ⟨step, steps, rfl⟩ := exists_cons_of_ne_nil nonempty
  simp only [stepsText, flatMap_cons, text]
  split
  · rfl
  · rfl

theorem stripSlash_absolute (proper : ∀ step ∈ steps, ProperStep step) (nonempty : steps ≠ []) :
    (stripSlash (stepsText steps)).head? = some slash ∧ stripSlash (stepsText steps) ≠ [slash] := by
  rcases eq_nil_or_concat steps with rfl | ⟨init, last, rfl⟩
  · exact absurd rfl nonempty
  rw [concat_eq_append] at proper ⊢
  have lastProper := proper last (mem_append_right _ mem_cons_self)
  rw [stripSlash_stepsText lastProper]
  refine ⟨stepsText_head (by simp), ?_⟩
  intro isSlash
  have short := congrArg List.length isSlash
  have named := length_pos_iff.mpr lastProper.name.nonempty
  simp only [stepsText, flatMap_append, flatMap_cons,
    flatMap_nil, append_nil, length_append, text,
    stripped, length_singleton] at short
  split at short
  · rw [length_cons] at short
    omega
  · simp only [length_append, length_cons] at short
    omega

theorem Visible.eq_root (visible : Visible vfs root [] dentry) : dentry = root := by
  generalize stepsEq : ([] : List PathStep) = steps at visible
  cases visible with
  | root => rfl
  | child => simp at stepsEq
  | mounted => simp at stepsEq

/-- The full path of a dentry leads back to it: names lead to the dentry, no
root called `/` lies strictly in between, and neither the path with the slash
that is stripped again nor a token of it overruns its buffer. -/
def ReadsBack (vfs : Vfs ι) (root dentry : Nat) : Prop :=
  ∃ steps, Visible vfs root steps dentry ∧ (∀ step ∈ steps.dropLast, step.rootName ≠ some [slash]) ∧
    (stepsText steps).length < vfsMaxPathLength ∧
    ∀ token ∈ tokens ((stripSlash (stepsText steps)).splitOn slash), token.Fits

theorem ProperStep.plain_iff (proper : ProperStep step) :
    step.Plain ↔ step.rootName ≠ some [slash] := by
  constructor
  · rintro (isNone | isEmpty)
    · rw [isNone]
      simp
    · rw [isEmpty]
      simp
  · intro notSlash
    cases rootEq : step.rootName with
    | none => exact Or.inl rootEq
    | some rootName =>
      rcases proper.rootName rootName rootEq with rfl | rfl
      · exact Or.inr rootEq
      · exact absurd rootEq notSlash

theorem tokens_named {text : Text} (named : NamedText text) :
    ∀ token ∈ tokens (text.splitOn slash), token.name = [] ∨ ComponentName token.name := by
  intro token member
  by_cases isEmpty : token.name = []
  · exact Or.inl isEmpty
  have kept : token.name ∈ ((tokens (text.splitOn slash)).map Token.name).filter (· ≠ []) := by
    rw [mem_filter]
    exact ⟨mem_map_of_mem member, by simpa using isEmpty⟩
  rw [tokens_names, mem_filter] at kept
  exact named token.name kept.1

private theorem exists_first_rooted (rooted : ∃ step ∈ steps, step.rootName = some [slash]) :
    ∃ front step back, steps = front ++ step :: back ∧
      (∀ other ∈ front, other.rootName ≠ some [slash]) ∧ step.rootName = some [slash] := by
  induction steps with
  | nil =>
    obtain ⟨step, member, _⟩ := rooted
    cases member
  | cons first steps induction =>
    by_cases isFirst : first.rootName = some [slash]
    · refine ⟨[], first, steps, rfl, ?_, isFirst⟩
      intro other member
      cases member
    · obtain ⟨step, member, isRooted⟩ := rooted
      rcases mem_cons.mp member with rfl | later
      · exact absurd isRooted isFirst
      obtain ⟨front, found, back, rfl, before, isFound⟩ := induction ⟨step, later, isRooted⟩
      refine ⟨first :: front, found, back, rfl, ?_, isFound⟩
      intro other inFront
      rcases mem_cons.mp inFront with rfl | later
      · exact isFirst
      · exact before other later

section

variable (tree : MountTree lookup vfs)
include tree

theorem MountTree.namedText (inside : dentry < vfs.dentryCount) :
    NamedText (vfs.dentries dentry).dName := by
  intro segment member
  rcases tree.allNames dentry inside with isName | isEmpty | isSlash
  · rw [splitOn_eq_singleton isName.noSlash, mem_singleton] at member
    rw [member]
    exact Or.inr isName
  · rw [isEmpty, splitOn_nil, mem_singleton] at member
    exact Or.inl member
  · rw [isSlash] at member
    have parts : [slash].splitOn slash = [[], []] := by decide
    rw [parts] at member
    left
    simpa using member

theorem climbText_named {text result : Text} (inside : dentry < vfs.dentryCount)
    (named : text = [] ∨ ∃ rest, text = slash :: rest ∧ NamedText rest)
    (climbed : climbText vfs root fuel dentry text = some result) :
    NamedText result := by
  induction fuel generalizing dentry text with
  | zero => cases climbed
  | succ fuel induction =>
    have nameNamed := tree.namedText inside
    have extended : NamedText ((vfs.dentries dentry).dName ++ text) := by
      rcases named with rfl | ⟨rest, rfl, restNamed⟩
      · rw [append_nil]
        exact nameNamed
      · exact nameNamed.join restNamed
    rw [climbText] at climbed
    split at climbed
    · cases climbed
      rcases named with rfl | ⟨rest, rfl, restNamed⟩
      · exact NamedText.nil
      · exact NamedText.nil.join restNamed
    · simp only at climbed
      split at climbed
      · cases climbed
        exact extended
      · exact induction ((tree.above dentry inside).trans_lt inside)
          (Or.inr ⟨_, rfl, extended⟩) climbed

theorem Visible.ne_root (visible : Visible vfs root steps dentry) (nonempty : steps ≠ []) :
    dentry ≠ root := by
  rintro rfl
  obtain ⟨above, aboveVisible, _, below⟩ := visible.split tree (nil_append steps).symm
  exact (below nonempty).ne aboveVisible.eq_root

/-- Behind a root called `/` the resolver stops, short of the dentry. -/
theorem Visible.not_resolves (visible : Visible vfs root steps dentry)
    (rooted : ∃ step ∈ steps.dropLast, step.rootName = some [slash]) :
    (Fs.resolveTokens lookup vfs none root
        (tokens ((stripSlash (stepsText steps)).splitOn slash))).map
      Prod.snd ≠ .ok (some dentry) := by
  rcases eq_nil_or_concat steps with rfl | ⟨init, last, rfl⟩
  · obtain ⟨step, member, _⟩ := rooted
    cases member
  rw [concat_eq_append] at visible rooted ⊢
  rw [dropLast_concat] at rooted
  obtain ⟨front, step, back, rfl, before, isRooted⟩ := exists_first_rooted rooted
  have regroup : front ++ step :: back ++ [last] = front ++ step :: (back ++ [last]) := by simp
  have proper := visible.proper tree
  rw [regroup] at visible proper ⊢
  have plain : ∀ other ∈ front, other.Plain := fun other member =>
    (proper other (mem_append_left _ member)).plain_iff.mpr (before other member)
  obtain ⟨rest, names⟩ := tokens_rooted proper plain isRooted (by simp)
  obtain ⟨reached, ending, tokensEq, reachedNames, endingNames⟩ := map_eq_append_iff.mp names
  obtain ⟨token, others, rfl, isEmpty, _⟩ := map_eq_cons_iff.mp endingNames
  obtain ⟨above, aboveVisible, _, below⟩ :=
    visible.split tree (by simp : front ++ step :: (back ++ [last]) =
      (front ++ [step]) ++ (back ++ [last]))
  have smaller := below (by simp)
  obtain ⟨fitting, overrunning⟩ := aboveVisible.leads tree reached (token :: others) reachedNames
  rw [tokensEq]
  intro resolved
  by_cases fits : ∀ other ∈ reached, other.Fits
  · rw [fitting fits, if_neg (by simp), Fs.resolveTokens] at resolved
    split at resolved
    · cases resolved
    · cases resolved
      exact absurd rfl smaller.ne
  · rw [overrunning fits] at resolved
    cases resolved

section

variable (isRoot : vfs.vfsRoot = some root)
include isRoot

/-- Below the root the result is the text of the loop, if it fits. -/
theorem vfsGetFullPath_spec (inside : dentry < vfs.dentryCount) (notRoot : dentry ≠ root) :
    (∀ result,
      climbText vfs root (vfs.dentryCount + 1) dentry [] = some result →
        result.length < vfsMaxPathLength →
          vfsGetFullPath vfs dentry vfsMaxPathLength = .ok (stripSlash result)) ∧
    (∀ text, vfsGetFullPath vfs dentry vfsMaxPathLength = .ok text →
      ∃ result,
        climbText vfs root (vfs.dentryCount + 1) dentry [] = some result ∧
          result.length < vfsMaxPathLength ∧ (0 : UInt8) ∉ result ∧ text = stripSlash result) := by
  obtain ⟨builds, built⟩ := @fullPathLoop_spec _ dentry
    (vfs.dentryCount + 1) _ _ _ lookup vfs root tree inside emptyBuffer_holds
    emptyBuffer_holds
  have whole : ∀ result : Text, result.length < vfsMaxPathLength →
      (stripSlash result).take (vfsMaxPathLength - 1) = stripSlash result := by
    intro result short
    apply take_of_length_le
    have := stripSlash_length result
    omega
  constructor
  · intro result climbed short
    obtain ⟨filled, loop, holds⟩ := builds result climbed short
    simp only [vfsGetFullPath, isRoot, if_neg notRoot, loop,
      holds.textLength, holds.take, whole result short]
  · intro text isText
    simp only [vfsGetFullPath, isRoot, if_neg notRoot] at isText
    cases loop : fullPathLoop vfs root (vfs.dentryCount + 1) dentry
        (List.replicate vfsMaxPathLength 0)
        (List.replicate vfsMaxPathLength 0) with
    | error fault =>
      rw [loop] at isText
      cases isText
    | ok filled =>
      obtain ⟨result, climbed, holds⟩ := built filled loop
      rw [loop] at isText
      simp only [holds.textLength, holds.take, whole result holds.short] at isText
      cases isText
      exact ⟨result, climbed, holds.short, holds.proper, rfl⟩

/-- The text that `vfs_get_full_path` returns for a visible dentry. -/
theorem Visible.vfsGetFullPath (visible : Visible vfs root steps dentry) (nonempty : steps ≠ [])
    (short : (stepsText steps).length < vfsMaxPathLength) :
    vfsGetFullPath vfs dentry vfsMaxPathLength = .ok (stripSlash (stepsText steps)) ∧
      (0 : UInt8) ∉ stepsText steps := by
  have inside := visible.inside tree isRoot
  have climbed := visible.climbText tree isRoot (lt_succ_of_lt inside) []
  rw [append_nil] at climbed
  obtain ⟨builds, built⟩ := vfsGetFullPath_spec tree isRoot inside (visible.ne_root tree nonempty)
  have isText := builds _ climbed short
  obtain ⟨result, climbed', _, proper, _⟩ := built _ isText
  obtain rfl : stepsText steps = result := Option.some.inj (climbed.symm.trans climbed')
  exact ⟨isText, proper⟩

/-- What the resolver makes of the full path of a visible dentry. -/
theorem Visible.resolve_fullPath (visible : Visible vfs root steps dentry) (nonempty : steps ≠ [])
    (short : (stepsText steps).length < vfsMaxPathLength)
    (proper : (0 : UInt8) ∉ stepsText steps) {cwd : Text}
    (cwdProper : (0 : UInt8) ∉ cwd) :
    vfsResolvePath lookup vfs cwd (stripSlash (stepsText steps)) =
      resolveTokens lookup vfs none root
        (tokens ((stripSlash (stepsText steps)).splitOn slash)) := by
  obtain ⟨head, notSlash⟩ := stripSlash_absolute (visible.proper tree) nonempty
  have isAbsolute : absolutePath cwd (stripSlash (stepsText steps)) =
      stripSlash (stepsText steps) := if_pos head
  have resolved := vfsResolvePath_tokens lookup isRoot notSlash cwdProper
    (fun member => proper (stripSlash_subset member))
    (by
      rw [isAbsolute]
      exact (stripSlash_length _).trans_lt short)
  rwa [isAbsolute] at resolved

theorem visible_of_vfsResolvePath (inside : dentry < vfs.dentryCount)
    {cwd path : Text} (cwdProper : (0 : UInt8) ∉ cwd)
    (pathProper : (0 : UInt8) ∉ path)
    (named : NamedText (absolutePath cwd path))
    (resolved : (vfsResolvePath lookup vfs cwd path).map Prod.snd = .ok (some dentry)) :
    ∃ steps, Visible vfs root steps dentry := by
  by_cases isSlash : path = [slash]
  · rw [isSlash, vfsResolvePath, isRoot] at resolved
    obtain rfl : root = dentry := Option.some.inj (Except.ok.inj resolved)
    exact ⟨[], .root⟩
  by_cases short : (absolutePath cwd path).length < vfsMaxPathLength
  · rw [vfsResolvePath_tokens lookup isRoot isSlash cwdProper pathProper short] at resolved
    cases result : resolveTokens lookup vfs none root
        (tokens ((absolutePath cwd path).splitOn slash)) with
    | error fault =>
      rw [result] at resolved
      cases resolved
    | ok pair =>
      obtain ⟨after, found⟩ := pair
      rw [result] at resolved
      cases resolved
      obtain ⟨links, steps, visible⟩ := visible_of_resolveTokens tree
        .root (Or.inl rfl) (tokens_named named) result
      exact ⟨steps, visible.of_links tree links inside⟩
  · rw [vfsResolvePath_overrun isRoot isSlash cwdProper pathProper
      (Nat.le_of_not_lt short)] at resolved
    cases resolved

theorem readsBack_of_resolves (inside : dentry < vfs.dentryCount) {text : Text}
    (isText : vfsGetFullPath vfs dentry vfsMaxPathLength = .ok text)
    (resolves : ∀ cwd : Text, (0 : UInt8) ∉ cwd →
      (vfsResolvePath lookup vfs cwd text).map Prod.snd = .ok (some dentry)) :
    ReadsBack vfs root dentry := by
  by_cases atRoot : dentry = root
  · rw [atRoot]
    refine ⟨[], .root, by simp, by decide, by decide⟩
  obtain ⟨result, climbed, short, proper, rfl⟩ :=
    (vfsGetFullPath_spec tree isRoot inside atRoot).2 text isText
  have named := climbText_named tree inside (Or.inl rfl) climbed
  -- Seen from the root, the text has nothing but names in it.
  have absoluteNamed : NamedText (absolutePath [slash] (stripSlash result)) := by
    unfold absolutePath
    split
    · exact named.stripSlash
    · exact NamedText.nil.join named.stripSlash
  have fromRoot := resolves [slash] (by decide)
  obtain ⟨steps, visible⟩ := visible_of_vfsResolvePath tree isRoot inside
    (by decide) (fun member => proper (stripSlash_subset member))
    absoluteNamed fromRoot
  have textEq := visible.climbText tree isRoot (lt_succ_of_lt inside) []
  rw [climbed, append_nil] at textEq
  obtain rfl : result = stepsText steps := Option.some.inj textEq
  have nonempty : steps ≠ [] := by
    rintro rfl
    exact atRoot visible.eq_root
  rw [visible.resolve_fullPath tree isRoot nonempty short proper (by decide)] at fromRoot
  have inner : ∀ step ∈ steps.dropLast, step.rootName ≠ some [slash] := by
    intro step member isRooted
    exact visible.not_resolves tree ⟨step, member, isRooted⟩ fromRoot
  refine ⟨steps, visible, inner, short, ?_⟩
  have stepsProper := visible.proper tree
  have names := (tokens_fullPath stepsProper
    (fun step member => (stepsProper step
      (mem_of_mem_dropLast member)).plain_iff.mpr (inner step member))
    nonempty).1
  by_contra misfit
  have overrun := (visible.leads tree _ [] names).2 misfit
  rw [append_nil] at overrun
  rw [overrun] at fromRoot
  cases fromRoot

theorem resolves_of_readsBack (reads : ReadsBack vfs root dentry) :
    ∃ text, vfsGetFullPath vfs dentry vfsMaxPathLength = .ok text ∧
      ∀ cwd : Text, (0 : UInt8) ∉ cwd →
        (vfsResolvePath lookup vfs cwd text).map Prod.snd = .ok (some dentry) := by
  obtain ⟨steps, visible, inner, short, fits⟩ := reads
  by_cases isEmpty : steps = []
  · subst isEmpty
    obtain rfl := visible.eq_root
    refine ⟨[slash], vfsGetFullPath_root isRoot, ?_⟩
    intro cwd _
    rw [vfsResolvePath, isRoot]
    rfl
  obtain ⟨isText, proper⟩ := visible.vfsGetFullPath tree isRoot isEmpty short
  refine ⟨_, isText, ?_⟩
  intro cwd cwdProper
  have stepsProper := visible.proper tree
  have names := (tokens_fullPath stepsProper
    (fun step member => (stepsProper step
      (mem_of_mem_dropLast member)).plain_iff.mpr (inner step member))
    isEmpty).1
  have leads := (visible.leads tree _ [] names).1 fits
  rw [append_nil, if_neg isEmpty] at leads
  rw [visible.resolve_fullPath tree isRoot isEmpty short proper cwdProper, leads]
  rfl

end

end

end Whole

end SeekOs.Fs
