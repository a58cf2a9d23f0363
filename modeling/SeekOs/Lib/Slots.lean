import Mathlib.Data.Fintype.Card
import Mathlib.Tactic

/-!
# Tokens in slots

How often a token is held by the slots of a finite family, and how that number
changes when one slot is given another content.
-/

namespace SeekOs.Lib

open Function List Finset

variable {ι α : Type*} [DecidableEq α]

/-- The number of slots that hold a token. -/
def slotCount [Fintype ι] (slots : ι → Option α) (token : α) : Nat :=
  (Finset.univ.filter fun slot => slots slot = some token).card

/-- One if the slot content is the token, else zero. -/
def holds (content : Option α) (token : α) : Nat :=
  if content = some token then 1 else 0

@[simp] theorem holds_none (token : α) : holds none token = 0 := rfl

@[simp] theorem holds_self (token : α) : holds (some token) token = 1 := by
  simp [holds]

theorem holds_of_ne {content : Option α} {token : α}
    (different : content ≠ some token) : holds content token = 0 :=
  if_neg different

theorem count_append_token (queue : List α) (added token : α) :
    (queue ++ [added]).count token = queue.count token + holds (some added) token := by
  by_cases same : added = token
  · simp [same]
  · rw [holds_of_ne (by simpa using same), count_append]
    simp [same]

theorem count_erase_token {queue : List α} {removed : α} (member : removed ∈ queue) (token : α) :
    (queue.erase removed).count token + holds (some removed) token = queue.count token := by
  by_cases same : removed = token
  · subst same
    have positive := count_pos_iff.mpr member
    rw [count_erase_self, holds_self]
    omega
  · rw [count_erase_of_ne (Ne.symm same), holds_of_ne (by simpa using same), Nat.add_zero]

variable [Fintype ι] {slots : ι → Option α} {token : α}

theorem slotCount_eq_sum (slots : ι → Option α) (token : α) :
    slotCount slots token = ∑ slot, holds (slots slot) token := by
  unfold slotCount holds
  rw [card_filter]

/-- Changing one slot takes its old token away and adds its new one. -/
theorem slotCount_update [DecidableEq ι] (slots : ι → Option α) (slot : ι)
    (content : Option α) (token : α) :
    slotCount (update slots slot content) token + holds (slots slot) token =
      slotCount slots token + holds content token := by
  have member : slot ∈ (univ : Finset ι) := mem_univ slot
  rw [slotCount_eq_sum, slotCount_eq_sum, ← add_sum_erase _ _ member, ← add_sum_erase _ _ member]
  have rest :
      ∑ other ∈ univ.erase slot, holds (update slots slot content other) token =
        ∑ other ∈ univ.erase slot, holds (slots other) token := by
    apply sum_congr rfl
    intro other inside
    rw [update_of_ne (ne_of_mem_erase inside)]
  rw [rest, update_self]
  ring

theorem slotCount_pos {slot : ι} (held : slots slot = some token) : 0 < slotCount slots token := by
  apply card_pos.mpr
  exact ⟨slot, by simp [held]⟩

theorem slotCount_eq_zero_iff : slotCount slots token = 0 ↔ ∀ slot, slots slot ≠ some token := by
  unfold slotCount
  simp

theorem slotCount_eq_one_iff : slotCount slots token = 1 ↔ ∃! slot, slots slot = some token := by
  unfold slotCount
  rw [card_eq_one]
  constructor
  · intro ⟨slot, only⟩
    have spec : ∀ other, slots other = some token ↔ other = slot := by
      intro other
      have member := congrArg (other ∈ ·) only
      simpa using member
    exact ⟨slot, (spec slot).mpr rfl, fun other held => (spec other).mp held⟩
  · intro ⟨slot, held, only⟩
    refine ⟨slot, ?_⟩
    ext other
    simp only [Finset.mem_filter, Finset.mem_univ, true_and, Finset.mem_singleton]
    constructor
    · exact only other
    · rintro rfl
      exact held

end SeekOs.Lib
