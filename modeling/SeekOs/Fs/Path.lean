import Mathlib.Data.UInt
import SeekOs.Lib.CBuffer

/-!
# Cutting components off a path

`vfs_next_path` works in place: it copies the first component of a path into a
second buffer and moves what follows the next slash to the front.  The buffers
have 256 bytes, and an access outside them has no result here.
-/

namespace SeekOs.Fs

open SeekOs.Lib List Option

abbrev Text := List UInt8

def vfsMaxPathLength : Nat := 256

def slash : UInt8 := 0x2f

def dot : Text := [0x2e]

def dotDot : Text := [0x2e, 0x2e]

/-- The copying loop over the bytes from `path_i` on: whether it met a slash,
how far it went, and the buffer of the component. -/
def copyComponent : Text → List UInt8 → Nat → Option (Bool × Nat × List UInt8)
  | [], next, _ => some (false, 0, next)
  | byte :: rest, next, nextI =>
    if byte = slash then
      some (true, 0, next)
    else do
      let stored ← store next nextI [byte]
      let (foundSlash, count, filled) ← copyComponent rest stored (nextI + 1)
      some (foundSlash, count + 1, filled)

/-- `vfs_next_path`: whether there is a component, and both buffers. -/
def vfsNextPath (path next : List UInt8) (nextlen : Nat) (skiproot : Bool) :
    Option (Bool × List UInt8 × List UInt8) := do
  let pathlen ← textLength path
  if pathlen = 0 then
    return (false, path, next)
  let start := if skiproot && path.head? == some slash then 1 else 0
  let cleared ← clear next 0 nextlen
  let (foundSlash, count, filled) ← copyComponent ((path.take pathlen).drop start) cleared 0
  let pathI := start + count
  let shortened ←
    if foundSlash then do
      let rest := (path.drop (pathI + 1)).take (pathlen - pathI - 1)
      let moved ← store path 0 rest
      clear moved (pathlen - pathI - 1) pathlen
    else
      clear path 0 (pathI + 1)
  let found ← textLength filled
  return (0 < found, shortened, filled)

/-! ## Texts as slash-separated segments -/

/-- The text with a slash between any two segments. -/
def joined (segments : List Text) : Text :=
  [slash].intercalate segments

/-- The segments of a C string: no slash and no terminator in any of them. -/
def Segments (segments : List Text) : Prop :=
  ∀ segment ∈ segments, slash ∉ segment ∧ (0 : UInt8) ∉ segment

/-- A component as the tokenizer cuts it off, with the number of bytes that are
moved and cleared at the front of the path when a slash follows it. -/
structure Token where
  name : Text
  extent : Nat
  deriving DecidableEq

/-- The clearing after the move stays in the buffer. -/
def Token.Fits (token : Token) : Prop :=
  token.extent ≤ vfsMaxPathLength

instance (token : Token) : Decidable token.Fits :=
  inferInstanceAs (Decidable (_ ≤ _))

/-- The components that repeated calls cut off a path.  One slash at the front
is skipped, so every second empty segment of a run of slashes shows up as an
empty component. -/
def tokens : List Text → List Token
  | [] => []
  | [[]] => []
  | [name] => [⟨name, 0⟩]
  | [[], name] => [⟨name, 0⟩]
  | [] :: name :: segment :: segments =>
    ⟨name, (joined (segment :: segments)).length +
      (joined ([] :: name :: segment :: segments)).length⟩ ::
      tokens (segment :: segments)
  | (byte :: bytes) :: segment :: segments =>
    ⟨byte :: bytes, (joined (segment :: segments)).length +
      (joined ((byte :: bytes) :: segment :: segments)).length⟩ ::
      tokens (segment :: segments)

@[simp] theorem joined_singleton (segment : Text) : joined [segment] = segment := by
  simp [joined, List.intercalate]

theorem joined_cons (first second : Text) (segments : List Text) :
    joined (first :: second :: segments) = first ++ slash :: joined (second :: segments) := by
  simp [joined, List.intercalate]

variable {segments : List Text}

theorem joined_concat (nonempty : segments ≠ []) (last : Text) :
    joined (segments ++ [last]) = joined segments ++ slash :: last := by
  induction segments with
  | nil => exact absurd rfl nonempty
  | cons first segments induction =>
    cases segments with
    | nil => simp [joined_cons]
    | cons second segments =>
      have rest := induction (cons_ne_nil second segments)
      rw [cons_append, cons_append, joined_cons, joined_cons,
        ← cons_append, rest, append_assoc, cons_append]

theorem Segments.tail {first : Text} (proper : Segments (first :: segments)) : Segments segments :=
  fun segment member => proper segment (mem_cons_of_mem first member)

theorem mem_joined {byte : UInt8} {segment : Text} (inSegment : byte ∈ segment)
    (member : segment ∈ segments) :
    byte ∈ joined segments := by
  induction segments with
  | nil => cases member
  | cons first segments induction =>
    cases segments with
    | nil =>
      rw [mem_singleton.mp member] at inSegment
      simpa using inSegment
    | cons second segments =>
      rcases mem_cons.mp member with rfl | later
      · exact mem_append_left _ inSegment
      · apply mem_append_right
        exact mem_cons_of_mem slash (induction later)

private theorem slash_not_mem_splitOn (text : Text) :
    ∀ segment ∈ text.splitOn slash, slash ∉ segment := by
  induction text with
  | nil =>
    intro segment member
    rw [splitOn_nil, mem_singleton] at member
    simp [member]
  | cons byte text induction =>
    obtain ⟨first, rest, split⟩ := exists_cons_of_ne_nil (splitOn_ne_nil slash text)
    rw [split] at induction
    rw [splitOn_cons_eq_if_modifyHead, split]
    intro segment member
    by_cases isSlash : byte = slash
    · rw [if_pos (by simpa using isSlash)] at member
      rcases mem_cons.mp member with rfl | later
      · simp
      · exact induction segment later
    · rw [if_neg (by simpa using isSlash), modifyHead_cons] at member
      rcases mem_cons.mp member with rfl | later
      · intro inside
        rcases mem_cons.mp inside with same | inFirst
        · exact isSlash same.symm
        · exact induction first mem_cons_self inFirst
      · exact induction segment (mem_cons_of_mem first later)

theorem joined_splitOn (text : Text) : joined (text.splitOn slash) = text :=
  intercalate_splitOn slash

theorem segments_splitOn {text : Text} (proper : (0 : UInt8) ∉ text) :
    Segments (text.splitOn slash) := by
  intro segment member
  refine ⟨slash_not_mem_splitOn text segment member, ?_⟩
  intro inSegment
  apply proper
  rw [← joined_splitOn text]
  exact mem_joined inSegment member

/-! ## One call of the tokenizer -/

variable {size : Nat} {lead : Text}

section Tokenizer

variable {path next : List UInt8} {name rest : Text}

/-- The copying loop ends at the slash or at the end of the text, with the
component behind what the buffer held before. -/
theorem copyComponent_spec {filled : Text} (holds : HoldsText size next filled)
    (proper : slash ∉ name ∧ (0 : UInt8) ∉ name)
    (short : filled.length + name.length < size) :
    ∃ component, HoldsText size component (filled ++ name) ∧
      copyComponent name next filled.length = some (false, name.length, component) ∧
      ∀ rest, copyComponent (name ++ slash :: rest) next filled.length =
        some (true, name.length, component) := by
  induction name generalizing next filled with
  | nil =>
    refine ⟨next, by simpa using holds, rfl, ?_⟩
    intro rest
    simp [copyComponent]
  | cons byte name induction =>
    obtain ⟨noSlash, noNul⟩ := proper
    have byteNotSlash : byte ≠ slash := fun same => noSlash (same ▸ mem_cons_self)
    have byteNotNul : (0 : UInt8) ∉ [byte] := by
      intro member
      exact noNul (mem_cons.mpr (Or.inl (mem_singleton.mp member)))
    rw [length_cons] at short
    obtain ⟨stored, storedEq, storedHolds⟩ :=
      holds.append byteNotNul (by rw [length_singleton]; omega)
    obtain ⟨component, componentHolds, atEnd, atSlash⟩ :=
      induction storedHolds
        ⟨fun member => noSlash (mem_cons_of_mem byte member),
          fun member => noNul (mem_cons_of_mem byte member)⟩
        (by rw [length_append, length_singleton]; omega)
    rw [length_append, length_singleton] at atEnd atSlash
    refine ⟨component, by simpa using componentHolds, ?_, ?_⟩
    · simp [copyComponent, byteNotSlash, storedEq, atEnd]
    · intro rest
      simp [copyComponent, byteNotSlash, storedEq, atSlash rest]

/-- What stands before the first component: the slash that is skipped, or
nothing if the component is not empty. -/
def Lead (lead name : Text) : Prop :=
  lead = [slash] ∨ lead = [] ∧ name ≠ []

private theorem start_eq (isLead : Lead lead name) (noSlash : slash ∉ name)
    (holds : HoldsText size path (lead ++ name ++ rest)) :
    (if true && path.head? == some slash then 1 else 0) = lead.length := by
  rcases isLead with rfl | ⟨rfl, nonempty⟩
  · simp [holds.cells]
  · obtain ⟨byte, bytes, rfl⟩ := exists_cons_of_ne_nil nonempty
    have different : byte ≠ slash := fun same => noSlash (same ▸ mem_cons_self)
    simp [holds.cells, different]

private theorem Lead.length_pos (isLead : Lead lead name) : 0 < (lead ++ name).length := by
  rcases isLead with rfl | ⟨rfl, nonempty⟩
  · simp
  · simpa [length_pos_iff] using nonempty

private theorem textLength_found {filled : List UInt8} (holds : HoldsText size filled name) :
    textLength filled = some name.length ∧ decide (0 < name.length) = decide (name ≠ []) := by
  refine ⟨holds.textLength, ?_⟩
  exact decide_eq_decide.mpr length_pos_iff

theorem vfsNextPath_last (isLead : Lead lead name) (noSlash : slash ∉ name)
    (holds : HoldsText vfsMaxPathLength path (lead ++ name))
    (nextLength : next.length = vfsMaxPathLength) :
    ∃ shortened component,
      vfsNextPath path next vfsMaxPathLength true =
        some (decide (name ≠ []), shortened, component) ∧
      HoldsText vfsMaxPathLength shortened [] ∧
      HoldsText vfsMaxPathLength component name := by
  have noNul : (0 : UInt8) ∉ name := fun member => holds.proper (mem_append_right lead member)
  have short := holds.short
  rw [length_append] at short
  have positive := isLead.length_pos
  obtain ⟨component, componentHolds, copied, _⟩ :=
    copyComponent_spec (HoldsText.empty (by decide : 0 < vfsMaxPathLength))
      ⟨noSlash, noNul⟩ (by rw [length_nil]; omega)
  obtain ⟨shortened, shortenedEq, shortenedHolds⟩ := holds.erase
  obtain ⟨foundEq, foundDecide⟩ := textLength_found componentHolds
  have holdsAll : HoldsText vfsMaxPathLength path (lead ++ name ++ []) := by
    rwa [append_nil]
  have start := start_eq isLead noSlash holdsAll
  refine ⟨shortened, component, ?_, shortenedHolds, componentHolds⟩
  rw [length_append] at shortenedEq
  rw [vfsNextPath, holds.textLength]
  simp only [bind_eq_bind, bind_some, start,
    positive.ne', if_false, clear_all nextLength, holds.take,
    drop_left]
  rw [length_nil] at copied
  simp only [copied, bind_some, Bool.false_eq_true, if_false, shortenedEq, foundEq, foundDecide]
  rfl

/-- A component with a slash behind it: what follows the slash is moved to
the front, if the clearing behind it stays in the buffer. -/
theorem vfsNextPath_cut (isLead : Lead lead name) (noSlash : slash ∉ name)
    (holds : HoldsText vfsMaxPathLength path (lead ++ name ++ slash :: rest))
    (nextLength : next.length = vfsMaxPathLength) :
    (rest.length + (lead ++ name ++ slash :: rest).length ≤ vfsMaxPathLength →
      ∃ shortened component,
        vfsNextPath path next vfsMaxPathLength true =
          some (decide (name ≠ []), shortened, component) ∧
        HoldsText vfsMaxPathLength shortened rest ∧
        HoldsText vfsMaxPathLength component name) ∧
    (vfsMaxPathLength < rest.length + (lead ++ name ++ slash :: rest).length →
      vfsNextPath path next vfsMaxPathLength true = none) := by
  have regroup : lead ++ name ++ slash :: rest = lead ++ name ++ [slash] ++ rest := by simp
  have noNul : (0 : UInt8) ∉ name := by
    intro member
    apply holds.proper
    exact mem_append_left _ (mem_append_right lead member)
  have short := holds.short
  simp only [length_append, length_cons] at short
  obtain ⟨component, componentHolds, _, copied⟩ :=
    copyComponent_spec (HoldsText.empty (by decide : 0 < vfsMaxPathLength))
      ⟨noSlash, noNul⟩ (by rw [length_nil]; omega)
  have copiedHere := copied rest
  rw [length_nil] at copiedHere
  obtain ⟨foundEq, foundDecide⟩ := textLength_found componentHolds
  have start := start_eq isLead noSlash holds
  have nonempty : (lead ++ name ++ slash :: rest).length ≠ 0 := by simp
  have dropLead : (lead ++ name ++ slash :: rest).drop lead.length = name ++ slash :: rest := by
    rw [append_assoc, drop_left]
  have restLength : (lead ++ name ++ slash :: rest).length -
      (lead.length + name.length) - 1 = rest.length := by
    simp only [length_append, length_cons]
    omega
  have restCells : (path.drop (lead.length + name.length + 1)).take rest.length = rest := by
    have goneLength : lead.length + name.length + 1 = (lead ++ name ++ [slash]).length := by
      simp only [length_append, length_singleton]
    rw [goneLength, holds.cells, regroup, append_assoc _ rest, drop_left, take_left]
  have unfolded : vfsNextPath path next vfsMaxPathLength true =
      (store path 0 rest).bind fun moved =>
        (clear moved rest.length
          (lead ++ name ++ slash :: rest).length).bind fun shortened =>
            some (decide (name ≠ []), shortened, component) := by
    rw [vfsNextPath, holds.textLength]
    simp only [bind_eq_bind, bind_some, start, nonempty,
      if_false, clear_all nextLength, holds.take, dropLead, copiedHere,
      if_true, restLength, restCells, foundEq, foundDecide]
    rfl
  rw [regroup] at holds unfolded ⊢
  constructor
  · intro fits
    obtain ⟨moved, shortened, movedEq, shortenedEq, shortenedHolds⟩ := holds.shift fits
    refine ⟨shortened, component, ?_, shortenedHolds, componentHolds⟩
    rw [unfolded, movedEq, bind_some, shortenedEq, bind_some]
  · intro overrun
    rw [unfolded]
    cases movedEq : store path 0 rest with
    | none => rfl
    | some moved =>
      rw [bind_some, holds.shift_overrun overrun movedEq]
      rfl

theorem vfsNextPath_end (holds : HoldsText vfsMaxPathLength path []) :
    vfsNextPath path next vfsMaxPathLength true = some (false, path, next) := by
  rw [vfsNextPath, holds.textLength]
  rfl

end Tokenizer

/-! ## All calls -/

section Tokens

variable {path next : List UInt8} {token : Token} {rest : List Token}
  {name : Text}

/-- What one call leaves behind when it cuts off a token. -/
structure CutOff (path next : List UInt8) (token : Token)
    (rest : List Token) (shortened component : List UInt8)
    (remaining : List Text) : Prop where
  result : vfsNextPath path next vfsMaxPathLength true =
    some (decide (token.name ≠ []), shortened, component)
  holds : HoldsText vfsMaxPathLength shortened (joined remaining)
  proper : Segments remaining
  tokensEq : tokens remaining = rest
  component : HoldsText vfsMaxPathLength component token.name

private theorem cutOff_last (isLead : Lead lead name) (noSlash : slash ∉ name)
    (holds : HoldsText vfsMaxPathLength path (lead ++ name))
    (nextLength : next.length = vfsMaxPathLength) :
    ∃ shortened component, CutOff path next ⟨name, 0⟩ [] shortened component [] := by
  obtain ⟨shortened, component, result, shortenedHolds, componentHolds⟩ :=
    vfsNextPath_last isLead noSlash holds nextLength
  refine ⟨shortened, component, result, shortenedHolds, ?_, rfl, componentHolds⟩
  intro segment member
  cases member

private theorem cutOff_cut {remaining : List Text}
    (isLead : Lead lead name) (noSlash : slash ∉ name)
    (proper : Segments remaining) (holds : HoldsText vfsMaxPathLength path
      (lead ++ name ++ slash :: joined remaining))
    (nextLength : next.length = vfsMaxPathLength) {extent : Nat}
    (extentEq : extent = (joined remaining).length +
      (lead ++ name ++ slash :: joined remaining).length) :
    (Token.Fits ⟨name, extent⟩ → ∃ shortened component,
      CutOff path next ⟨name, extent⟩ (tokens remaining) shortened component remaining) ∧
    (¬Token.Fits ⟨name, extent⟩ → vfsNextPath path next vfsMaxPathLength true = none) := by
  subst extentEq
  obtain ⟨whenFits, whenNot⟩ := vfsNextPath_cut isLead noSlash holds nextLength
  constructor
  · intro fits
    obtain ⟨shortened, component, result, shortenedHolds, componentHolds⟩ := whenFits fits
    exact ⟨shortened, component, result, shortenedHolds, proper, rfl, componentHolds⟩
  · intro overrun
    exact whenNot (Nat.lt_of_not_le overrun)

/-- The tokens of the text are what the calls cut off one after the other. -/
theorem vfsNextPath_token (holds : HoldsText vfsMaxPathLength path (joined segments))
    (proper : Segments segments)
    (nextLength : next.length = vfsMaxPathLength)
    (cut : tokens segments = token :: rest) :
    (token.Fits → ∃ shortened component remaining,
      CutOff path next token rest shortened component remaining) ∧
    (¬token.Fits → vfsNextPath path next vfsMaxPathLength true = none) := by
  -- the cases follow the equations of `tokens`
  cases segments with
  | nil => cases cut
  | cons first segments =>
    have firstProper := proper first mem_cons_self
    cases segments with
    | nil =>
      cases first with
      | nil => cases cut
      | cons byte bytes =>
        cases cut
        obtain ⟨shortened, component, cutOff⟩ :=
          cutOff_last (Or.inr ⟨rfl, cons_ne_nil byte bytes⟩)
            firstProper.1 (by simpa using holds) nextLength
        exact ⟨fun _ => ⟨shortened, component, [], cutOff⟩,
          fun overrun => absurd (Nat.zero_le _) overrun⟩
    | cons second segments =>
      have secondProper := proper.tail second mem_cons_self
      cases first with
      | nil =>
        cases segments with
        | nil =>
          cases cut
          obtain ⟨shortened, component, cutOff⟩ :=
            cutOff_last (Or.inl rfl) secondProper.1 (by simpa [joined_cons] using holds) nextLength
          exact ⟨fun _ => ⟨shortened, component, [], cutOff⟩,
            fun overrun => absurd (Nat.zero_le _) overrun⟩
        | cons third segments =>
          cases cut
          obtain ⟨whenFits, whenNot⟩ :=
            cutOff_cut (Or.inl rfl) secondProper.1 proper.tail.tail
              (by simpa [joined_cons] using holds) nextLength
              (by simp [joined_cons] :
                (joined (third :: segments)).length +
                    (joined ([] :: second :: third :: segments)).length = _)
          refine ⟨?_, whenNot⟩
          intro fits
          obtain ⟨shortened, component, cutOff⟩ := whenFits fits
          exact ⟨shortened, component, third :: segments, cutOff⟩
      | cons byte bytes =>
        cases cut
        obtain ⟨whenFits, whenNot⟩ :=
          cutOff_cut (Or.inr ⟨rfl, cons_ne_nil byte bytes⟩) firstProper.1 proper.tail
            (by simpa [joined_cons] using holds) nextLength
            (by simp [joined_cons] :
              (joined (second :: segments)).length +
                  (joined ((byte :: bytes) :: second :: segments)).length = _)
        refine ⟨?_, whenNot⟩
        intro fits
        obtain ⟨shortened, component, cutOff⟩ := whenFits fits
        exact ⟨shortened, component, second :: segments, cutOff⟩

theorem joined_of_no_tokens (none : tokens segments = []) : joined segments = [] := by
  cases segments with
  | nil => rfl
  | cons first segments =>
    cases segments with
    | nil =>
      cases first with
      | nil => rfl
      | cons byte bytes => cases none
    | cons second segments =>
      cases first with
      | nil =>
        cases segments with
        | nil => cases none
        | cons third segments => cases none
      | cons byte bytes => cases none

theorem tokens_length (segments : List Text) : (tokens segments).length ≤ segments.length := by
  induction segments using tokens.induct with
  | case1 => simp [tokens]
  | case2 => simp [tokens]
  | case3 name nonempty => simp [tokens]
  | case4 name => simp [tokens]
  | case5 name segment segments induction =>
    simp only [tokens, length_cons] at induction ⊢
    omega
  | case6 byte bytes segment segments induction =>
    simp only [tokens, length_cons] at induction ⊢
    omega

theorem segments_length (segments : List Text) :
    segments.length ≤ (joined segments).length + 1 := by
  induction segments with
  | nil => simp
  | cons first segments induction =>
    cases segments with
    | nil => simp
    | cons second segments =>
      rw [joined_cons]
      simp only [length_cons, length_append] at induction ⊢
      omega

theorem tokens_names (segments : List Text) :
    ((tokens segments).map Token.name).filter (· ≠ []) = segments.filter (· ≠ []) := by
  induction segments using tokens.induct with
  | case1 => rfl
  | case2 => rfl
  | case3 name nonempty => simp [tokens]
  | case4 name => simp [tokens]
  | case5 name segment segments induction =>
    have skipped : ([] :: name :: segment :: segments).filter (· ≠ []) =
        (name :: segment :: segments).filter (· ≠ []) := rfl
    rw [tokens, map_cons, skipped, filter_cons, filter_cons, induction]
  | case6 byte bytes segment segments induction =>
    rw [tokens, map_cons, filter_cons, filter_cons, induction]

end Tokens

end SeekOs.Fs
