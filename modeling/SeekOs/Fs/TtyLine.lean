import SeekOs.Fs.Path
import SeekOs.Lib.Runs
import SeekOs.Mm.Layout

/-!
# The line buffer of the terminal

`ttyfs_read` edits one line in a ring that it never rewinds: a line starts
where the line before it ended.  The ring is related to the line as a list,
on which a backspace drops the last character.
-/

namespace SeekOs.Fs

open SeekOs.Lib SeekOs.Mm Function List Option Nat

def ttyBufferSize : Nat := 4096

def backspace : UInt8 := 8

def newline : UInt8 := 10

structure TtyBuf where
  ibuff : Nat → UInt8
  ibegin : Nat
  isize : Nat
  icursor : Nat

/-- A keyboard event with the character of its key code. -/
structure KeyboardData where
  keyPressed : Bool
  ch : UInt8

/-- The character of an event that is not skipped. -/
def KeyboardData.typed (data : KeyboardData) : Option UInt8 :=
  if data.keyPressed = false ∨ data.ch = 0 then none else some data.ch

namespace TtyBuf

def boot : TtyBuf := ⟨fun _ => 0, 0, 0, 0⟩

/-- `_tty_echo_char`; there is no result when it panics. -/
def ttyEchoChar (tty : TtyBuf) (ch : UInt8) : Option TtyBuf :=
  if ch = backspace then
    if 0 < tty.isize then
      some { tty with
        isize := tty.isize - 1
        icursor := uptrAdd (uptrSub tty.icursor 1) ttyBufferSize % ttyBufferSize }
    else
      some tty
  else if ch = newline ∨ ch = 0 then
    some tty
  else if ttyBufferSize ≤ tty.isize then
    none
  else
    some { tty with
      ibuff := update tty.ibuff tty.icursor ch
      icursor := (tty.icursor + 1) % ttyBufferSize
      isize := tty.isize + 1 }

/-- The loop of `ttyfs_read` over the keyboard events; there is no result
while the line has not ended. -/
def readLine (tty : TtyBuf) : List KeyboardData → Option TtyBuf
  | [] => none
  | data :: rest =>
    match data.typed with
    | none => readLine tty rest
    | some ch =>
      (tty.ttyEchoChar ch).bind fun next =>
        if ch = newline then some next else readLine next rest

/-- The bytes that `ttyfs_read` copies out, in one or two pieces. -/
def copyOut (tty : TtyBuf) (actualLen : Nat) : Text :=
  let availToEnd := ttyBufferSize - tty.ibegin
  if actualLen ≤ availToEnd then
    (List.range actualLen).map fun i => tty.ibuff (tty.ibegin + i)
  else
    ((List.range availToEnd).map fun i => tty.ibuff (tty.ibegin + i)) ++
      (List.range (actualLen - availToEnd)).map tty.ibuff

/-- `ttyfs_read`: the buffer behind it, its result and the bytes it copies. -/
def ttyfsRead (tty : TtyBuf) (len : Int) (events : List KeyboardData) :
    Option (TtyBuf × Int × Text) :=
  if (ttyBufferSize : Int) < len then
    some (tty, -1, [])
  else
    (tty.readLine events).map fun next =>
      let actualLen : Nat := min (len % 2 ^ 32).toNat (next.isize % 2 ^ 32)
      ({ next with isize := 0, ibegin := next.icursor }, actualLen, next.copyOut actualLen)

/-- A call with its length and the keyboard events it waits for. -/
def readStep (tty : TtyBuf) (call : Int × List KeyboardData) : Option TtyBuf :=
  (tty.ttyfsRead call.1 call.2).map Prod.fst

/-- The ring holds the pending characters of a line. -/
structure Shows (tty : TtyBuf) (pending : Text) : Prop where
  begins : tty.ibegin < ttyBufferSize
  fits : tty.isize ≤ ttyBufferSize
  cursor : tty.icursor = (tty.ibegin + tty.isize) % ttyBufferSize
  chars : pending = (List.range tty.isize).map fun i => tty.ibuff ((tty.ibegin + i) % ttyBufferSize)

end TtyBuf

/-- What a character does to the line. -/
def editChar (pending : Text) (ch : UInt8) : Text :=
  if ch = backspace then pending.dropLast
  else if ch = newline ∨ ch = 0 then pending
  else pending ++ [ch]

def editLine (pending chars : Text) : Text :=
  chars.foldl editChar pending

namespace TtyBuf

variable {tty next : TtyBuf} {pending : Text} {ch : UInt8}

section

variable (shows : tty.Shows pending)

include shows

theorem Shows.length : pending.length = tty.isize := by
  simp [shows.chars]

theorem Shows.dropLast (nonempty : 0 < tty.isize) :
    Shows { tty with
      isize := tty.isize - 1
      icursor := uptrAdd (uptrSub tty.icursor 1) ttyBufferSize % ttyBufferSize }
      pending.dropLast := by
  obtain ⟨begins, fits, cursor, chars⟩ := shows
  refine ⟨begins, (sub_le _ _).trans fits, ?_, ?_⟩
  · simp only [uptrAdd, uptrSub, ttyBufferSize] at *
    omega
  · rw [chars, ← Nat.sub_add_cancel nonempty, range_succ, map_append]
    exact dropLast_concat

theorem Shows.append (room : tty.isize < ttyBufferSize) :
    Shows { tty with
      ibuff := update tty.ibuff tty.icursor ch
      icursor := (tty.icursor + 1) % ttyBufferSize
      isize := tty.isize + 1 } (pending ++ [ch]) := by
  obtain ⟨begins, fits, cursor, chars⟩ := shows
  refine ⟨begins, room, ?_, ?_⟩
  · simp only [ttyBufferSize] at *
    omega
  · rw [chars, range_succ, map_append, map_singleton, ← cursor]
    congr 1
    · apply map_congr_left
      intro i member
      have inside := mem_range.mp member
      refine (update_of_ne ?_ _ _).symm
      simp only [ttyBufferSize] at *
      omega
    · simp

/-- An echoed character edits the line, or the line does not fit the ring. -/
theorem Shows.echo (ch : UInt8) :
    tty.ttyEchoChar ch = none ∧ ttyBufferSize < (editChar pending ch).length ∨
      ∃ next, tty.ttyEchoChar ch = some next ∧ next.Shows (editChar pending ch) := by
  unfold ttyEchoChar editChar
  by_cases isBackspace : ch = backspace
  · rw [if_pos isBackspace, if_pos isBackspace]
    by_cases nonempty : 0 < tty.isize
    · rw [if_pos nonempty]
      exact .inr ⟨_, rfl, shows.dropLast nonempty⟩
    · rw [if_neg nonempty]
      have noChars : pending = [] := eq_nil_of_length_eq_zero (by rw [shows.length]; omega)
      rw [noChars] at shows ⊢
      exact .inr ⟨_, rfl, shows⟩
  · rw [if_neg isBackspace, if_neg isBackspace]
    by_cases ignored : ch = newline ∨ ch = 0
    · rw [if_pos ignored, if_pos ignored]
      exact .inr ⟨_, rfl, shows⟩
    · rw [if_neg ignored, if_neg ignored]
      by_cases full : ttyBufferSize ≤ tty.isize
      · rw [if_pos full, length_append, length_singleton, shows.length]
        exact .inl ⟨rfl, lt_succ_of_le full⟩
      · rw [if_neg full]
        exact .inr ⟨_, rfl, shows.append (not_le.mp full)⟩

theorem Shows.echoed (done : tty.ttyEchoChar ch = some next) :
    next.Shows (editChar pending ch) := by
  rcases shows.echo ch with ⟨panics, _⟩ | ⟨other, echoed, after⟩
  · cases panics.symm.trans done
  · cases echoed.symm.trans done
    exact after

/-- Every state that echoed characters lead to shows a line. -/
theorem Shows.run {chars : Text} (run : runOps ttyEchoChar tty chars = some next) :
    next.Shows (editLine pending chars) := by
  induction chars generalizing tty pending with
  | nil =>
    cases run
    exact shows
  | cons ch chars induction =>
    obtain ⟨middle, done, rest⟩ := bind_eq_some_iff.mp run
    exact induction (shows.echoed done) rest

theorem Shows.exists_run {chars : Text}
    (fits : ∀ count ≤ chars.length, (editLine pending (chars.take count)).length ≤ ttyBufferSize) :
    ∃ next, runOps ttyEchoChar tty chars = some next := by
  induction chars generalizing tty pending with
  | nil => exact ⟨tty, rfl⟩
  | cons ch chars induction =>
    rcases shows.echo ch with ⟨_, long⟩ | ⟨middle, echoed, after⟩
    · exact absurd long (not_lt.mpr (fits 1 (le_add_left 1 _)))
    · rw [runOps_cons, echoed]
      exact induction after fun count inside => fits (count + 1) (succ_le_succ inside)

end

/-- The loop echoes the typed characters up to the newline. -/
theorem readLine_eq {events : List KeyboardData} {chars : Text}
    (typed : events.filterMap KeyboardData.typed = chars ++ [newline]) (inLine : newline ∉ chars) :
    tty.readLine events = runOps ttyEchoChar tty chars := by
  induction events generalizing tty chars with
  | nil => simp at typed
  | cons data rest induction =>
    unfold readLine
    cases isTyped : data.typed with
    | none =>
      rw [filterMap_cons_none isTyped] at typed
      exact induction typed inLine
    | some ch =>
      rw [filterMap_cons_some isTyped] at typed
      cases chars with
      | nil =>
        have isNewline := (List.cons.inj typed).1
        simp [isNewline, ttyEchoChar, newline, backspace]
      | cons first chars =>
        obtain ⟨rfl, others⟩ := List.cons.inj typed
        obtain ⟨different, notIn⟩ := not_or.mp (mem_cons.not.mp inLine)
        change (tty.ttyEchoChar ch).bind _ = _
        congr 1
        funext next
        rw [if_neg (Ne.symm different)]
        exact induction others notIn

theorem Shows.readLine {events : List KeyboardData} (shows : tty.Shows pending)
    (done : tty.readLine events = some next) : ∃ line, next.Shows line := by
  induction events generalizing tty pending with
  | nil => cases done
  | cons data rest induction =>
    unfold TtyBuf.readLine at done
    split at done
    · exact induction shows done
    · obtain ⟨middle, echoed, after⟩ := bind_eq_some_iff.mp done
      split at after
      · cases after
        exact ⟨_, shows.echoed echoed⟩
      · exact induction (shows.echoed echoed) after

/-- A line that has been read leaves the ring empty. -/
theorem Shows.taken (shows : tty.Shows pending) :
    Shows { tty with isize := 0, ibegin := tty.icursor } [] := by
  have bound : tty.icursor < ttyBufferSize := by
    rw [shows.cursor]
    exact mod_lt _ (by decide)
  exact ⟨bound, zero_le _, (mod_eq_of_lt bound).symm, rfl⟩

theorem Shows.readStep {call : Int × List KeyboardData} (empty : tty.Shows [])
    (stepped : tty.readStep call = some next) : next.Shows [] := by
  obtain ⟨outcome, result, rfl⟩ := map_eq_some_iff.mp stepped
  unfold ttyfsRead at result
  split at result
  · cases result
    exact empty
  · obtain ⟨ended, done, rfl⟩ := map_eq_some_iff.mp result
    obtain ⟨line, shows⟩ := empty.readLine done
    exact shows.taken

/-- The two pieces are one walk around the ring. -/
theorem copyOut_eq {count : Nat} (begins : tty.ibegin < ttyBufferSize)
    (small : count ≤ ttyBufferSize) :
    tty.copyOut count =
      (List.range count).map fun i => tty.ibuff ((tty.ibegin + i) % ttyBufferSize) := by
  have straight : ∀ length ≤ ttyBufferSize - tty.ibegin,
      ((List.range length).map fun i => tty.ibuff (tty.ibegin + i)) =
        (List.range length).map fun i => tty.ibuff ((tty.ibegin + i) % ttyBufferSize) := by
    intro length short
    apply map_congr_left
    intro i member
    rw [mod_eq_of_lt (by have := mem_range.mp member; omega)]
  unfold copyOut
  simp only
  split
  · rename_i short
    exact straight count short
  · rename_i long
    have parts : count = ttyBufferSize - tty.ibegin + (count - (ttyBufferSize - tty.ibegin)) := by
      omega
    conv_rhs => rw [parts, range_add, map_append, List.map_map]
    rw [straight _ (le_refl _)]
    congr 1
    apply map_congr_left
    intro i member
    have below := mem_range.mp member
    simp only [comp, ttyBufferSize] at *
    congr 1
    omega

theorem Shows.copyOut {count : Nat} (shows : tty.Shows pending)
    (inside : count ≤ pending.length) : tty.copyOut count = pending.take count := by
  rw [shows.length] at inside
  rw [copyOut_eq shows.begins (inside.trans shows.fits), shows.chars, ← map_take,
    take_range, min_eq_left inside]

/-- After any earlier calls, a call returns the edited line as far as it fits
the buffer, and leaves the ring empty.  In every state the cursor stands
behind the pending characters. -/
theorem ttyfsRead_line (history : List (Int × List KeyboardData)) (tty : TtyBuf)
    (run : runOps readStep boot history = some tty) (events : List KeyboardData) (chars : Text)
    (typed : events.filterMap KeyboardData.typed = chars ++ [newline]) (inLine : newline ∉ chars)
    (fits : ∀ count ≤ chars.length, (editLine [] (chars.take count)).length ≤ ttyBufferSize)
    (len : Nat) (short : len ≤ ttyBufferSize) :
    (∃ next, ∃ count : Nat, tty.ttyfsRead len events =
        some (next, (count : Int), (editLine [] chars).take count) ∧
      count = min len (editLine [] chars).length ∧ next.isize = 0) ∧
      ∀ echoed state, runOps ttyEchoChar tty echoed = some state →
        state.icursor = (state.ibegin + state.isize) % ttyBufferSize ∧
          state.isize ≤ ttyBufferSize := by
  have empty : tty.Shows [] := by
    refine runOps_invariant (fun _ _ _ => Shows.readStep) ?_ run
    exact ⟨by decide, zero_le _, rfl, rfl⟩
  constructor
  · obtain ⟨next, reached⟩ := empty.exists_run fits
    have shows := empty.run reached
    have count : min ((len : Int) % 2 ^ 32).toNat (next.isize % 2 ^ 32) =
        min len (editLine [] chars).length := by
      have bound := shows.fits
      rw [shows.length]
      unfold ttyBufferSize at *
      omega
    refine ⟨{ next with isize := 0, ibegin := next.icursor }, _, ?_, rfl, rfl⟩
    rw [← shows.copyOut (min_le_right _ _), ← count, ttyfsRead, if_neg (by omega),
      readLine_eq typed inLine, reached]
    rfl
  · intro echoed state reached
    have shows := empty.run reached
    exact ⟨shows.cursor, shows.fits⟩

/-- The line `hi`, typed with a backspace behind a line that was longer than
the buffer it was read into. -/
theorem ttyfsRead_line_backspace :
    ∃ tty, runOps readStep boot [(1, [⟨true, 0x61⟩, ⟨true, 0x62⟩, ⟨true, newline⟩])] = some tty ∧
      ∃ next, ∃ count : Nat, tty.ttyfsRead 5 [⟨true, 0x68⟩, ⟨false, 0x68⟩, ⟨true, 0x78⟩,
          ⟨true, backspace⟩, ⟨true, 0x69⟩, ⟨true, newline⟩] =
        some (next, (count : Int), [0x68, 0x69]) := by
  obtain ⟨tty, run⟩ : ∃ tty, runOps readStep boot
      [(1, [⟨true, 0x61⟩, ⟨true, 0x62⟩, ⟨true, newline⟩])] = some tty :=
    isSome_iff_exists.mp (by decide +kernel)
  obtain ⟨⟨next, count, result, isCount, _⟩, _⟩ := ttyfsRead_line _ tty run
    [⟨true, 0x68⟩, ⟨false, 0x68⟩, ⟨true, 0x78⟩, ⟨true, backspace⟩, ⟨true, 0x69⟩, ⟨true, newline⟩]
    [0x68, 0x78, backspace, 0x69] (by decide) (by decide) (by decide) 5 (by decide)
  subst isCount
  exact ⟨tty, run, next, _, result⟩

end TtyBuf

end SeekOs.Fs
