import Mathlib.Data.List.Basic
import Mathlib.Tactic

/-!
# Intrusive circular lists

`linked_list_t` is a circular doubly linked list whose sentinel is the list
head.  The components below see such a list as the sequence of its entries,
read along `next` from the head; the operations on sequences are stated here
under the names of the source.
-/

namespace SeekOs.Base

variable {α : Type*}

/-- `dlist_add_prev`: link an entry before the head, that is at the end. -/
def dlistAddPrev (entries : List α) (entry : α) : List α :=
  entries ++ [entry]

/-- `dlist_add_next`: link an entry directly after the head. -/
def dlistAddNext (entries : List α) (entry : α) : List α :=
  entry :: entries

/-- `dlist_remove_next`: unlink the entry after the head, if there is one. -/
def dlistRemoveNext : List α → Option (α × List α)
  | [] => none
  | entry :: entries => some (entry, entries)

/-- `dlist_remove_entry`, seen from a list that may hold the entry. -/
def dlistRemoveEntry [DecidableEq α] (entries : List α) (entry : α) :
    List α :=
  entries.erase entry

end SeekOs.Base
