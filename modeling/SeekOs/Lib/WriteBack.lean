import Mathlib.Logic.Function.Basic
import Mathlib.Tactic

/-!
# A write-back cache of one block

The cache holds one block of a store and writes it back before another block
takes its place.  What a reader sees through the cache is its `view`: loading
and writing back leave it alone, and an edit changes it at the loaded address.
Blocks may also be stored past the cache, so the block it holds can be out of
date; it is coherent on a set of addresses as long as no such store hits the
set.
-/

namespace SeekOs.Lib

open Function

structure WriteBack (α β : Type*) where
  store : α → β
  address : α
  block : β
  dirty : Bool

namespace WriteBack

variable {α β : Type*} [DecidableEq α]

section

variable (cache : WriteBack α β)

/-- Write the block back if it was edited. -/
def sync : WriteBack α β :=
  if cache.dirty then
    { cache with
      store := update cache.store cache.address cache.block
      dirty := false }
  else
    cache

def load (address : α) : WriteBack α β :=
  if cache.address = address then
    cache
  else
    { cache.sync with
      address := address
      block := cache.sync.store address }

def edit (change : β → β) : WriteBack α β :=
  { cache with block := change cache.block, dirty := true }

/-- Take a new block in, with the given contents. -/
def place (address : α) (block : β) : WriteBack α β :=
  { cache with address := address, block := block, dirty := true }

/-- Store a block past the cache. -/
def poke (address : α) (block : β) : WriteBack α β :=
  { cache with store := update cache.store address block }

/-- What a reader finds at an address. -/
def view (address : α) : β :=
  if cache.dirty ∧ address = cache.address then cache.block
  else cache.store address

/-- The block is the one at its address. -/
def Current : Prop :=
  cache.block = cache.view cache.address

end

variable (cache : WriteBack α β)

@[simp] theorem sync_dirty : cache.sync.dirty = false := by
  unfold sync
  split
  · rfl
  · rename_i clean
    exact Bool.not_eq_true _ ▸ clean

@[simp] theorem sync_address : cache.sync.address = cache.address := by
  unfold sync
  split <;> rfl

@[simp] theorem sync_block : cache.sync.block = cache.block := by
  unfold sync
  split <;> rfl

theorem view_of_clean {cache : WriteBack α β} (clean : cache.dirty = false) :
    cache.view = cache.store := by
  funext address
  simp [view, clean]

theorem sync_store : cache.sync.store = cache.view := by
  funext address
  unfold sync view
  cases dirty : cache.dirty with
  | false => simp
  | true => simp [update_apply]

@[simp] theorem sync_view : cache.sync.view = cache.view :=
  (view_of_clean cache.sync_dirty).trans cache.sync_store

theorem sync_eq_self {cache : WriteBack α β} (clean : cache.dirty = false) :
    cache.sync = cache := by
  simp [sync, clean]

theorem sync_load {address : α} (other : cache.address ≠ address) :
    cache.sync.load address = cache.load address := by
  unfold load
  rw [if_neg other, if_neg (cache.sync_address ▸ other), sync_eq_self cache.sync_dirty]

@[simp] theorem load_address (address : α) : (cache.load address).address = address := by
  unfold load
  split
  · assumption
  · rfl

@[simp] theorem load_view (address : α) : (cache.load address).view = cache.view := by
  unfold load
  split
  · rfl
  · rw [view_of_clean (by exact cache.sync_dirty)]
    exact cache.sync_store

theorem load_dirty_of_clean {cache : WriteBack α β} (address : α) (clean : cache.dirty = false) :
    (cache.load address).dirty = false := by
  unfold load
  split
  · exact clean
  · exact cache.sync_dirty

/-- A loaded block is the one at its address, unless the cache held a block for
this address that was out of date. -/
theorem load_block (address : α)
    (current : cache.address = address → cache.block = cache.view address) :
    (cache.load address).block = cache.view address := by
  unfold load
  split
  · rename_i same
    exact current same
  · exact congrFun cache.sync_store address

theorem edit_view (change : β → β) :
    (cache.edit change).view = update cache.view cache.address (change cache.block) := by
  funext address
  by_cases same : address = cache.address
  · subst same
    simp [view, edit]
  · simp [view, edit, same]

theorem place_view {cache : WriteBack α β} (address : α) (block : β) (clean : cache.dirty = false) :
    (cache.place address block).view = update cache.view address block := by
  funext other
  by_cases same : other = address
  · subst same
    simp [view, place]
  · simp [view, place, clean, same]

/-! ## Blocks that are up to date -/

theorem Current.sync {cache : WriteBack α β} (current : cache.Current) : cache.sync.Current := by
  unfold Current
  rw [sync_block, sync_view, sync_address]
  exact current

theorem load_current (address : α) (current : cache.address = address → cache.Current) :
    (cache.load address).Current := by
  unfold Current
  rw [load_view, load_address]
  apply load_block
  intro same
  rw [← same]
  exact current same

theorem edit_current (change : β → β) : (cache.edit change).Current := by
  simp [Current, view, edit]

theorem place_current (address : α) (block : β) : (cache.place address block).Current := by
  simp [Current, view, place]

theorem poke_view {cache : WriteBack α β} {address : α} {block : β}
    (apart : ¬(cache.dirty = true ∧ address = cache.address)) :
    (cache.poke address block).view = update cache.view address block := by
  funext other
  by_cases same : other = address
  · subst same
    have fresh : (cache.poke other block).view other =
        (cache.poke other block).store other := if_neg apart
    rw [fresh]
    simp [poke]
  · simp [view, poke, same]

end WriteBack

end SeekOs.Lib
