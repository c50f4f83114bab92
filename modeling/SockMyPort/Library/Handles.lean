/-
# Handles with owners

Handles are opened for owners and closed again, and a handle that was closed can be
opened for another owner. A log of both, the oldest first, says for whom a handle is
open: for the owner of the last event about it, if that event opened it.
-/

import Mathlib.Data.List.Basic
import Mathlib.Data.List.Nodup
import Mathlib.Data.List.Perm.Subperm
import Mathlib.Tactic.Common

namespace Library

universe u v

variable {κ : Type u} {ι : Type v}

/-- A handle is opened, or closed, for an owner. -/
inductive HandleEvent (κ : Type u) (ι : Type v)
  | opened (owner : κ) (handle : ι)
  | closed (owner : κ) (handle : ι)

/-- The handle that an event is about. -/
def HandleEvent.handle : HandleEvent κ ι → ι
  | .opened _ handle => handle
  | .closed _ handle => handle

/-- The last event about the handle is that it was opened for the owner. -/
def OpenedFor (log : List (HandleEvent κ ι)) (owner : κ) (handle : ι) : Prop :=
  ∃ before after, log = before ++ .opened owner handle :: after ∧
    ∀ event ∈ after, event.handle ≠ handle

variable {log : List (HandleEvent κ ι)} {owner other : κ} {handle : ι}
  {event : HandleEvent κ ι}

theorem openedFor_append_opened (log : List (HandleEvent κ ι)) (owner : κ) (handle : ι) :
    OpenedFor (log ++ [.opened owner handle]) owner handle :=
  ⟨log, [], rfl, fun _ hmem => absurd hmem List.not_mem_nil⟩

/-- An event about another handle changes nothing. -/
theorem OpenedFor.append_of_ne (hopened : OpenedFor log owner handle)
    (hne : event.handle ≠ handle) : OpenedFor (log ++ [event]) owner handle := by
  obtain ⟨before, after, rfl, hafter⟩ := hopened
  refine ⟨before, after ++ [event], by rw [List.append_assoc, List.cons_append], ?_⟩
  intro later hlater
  rcases List.mem_append.mp hlater with hlater | hlater
  · exact hafter later hlater
  · rw [List.mem_singleton.mp hlater]
    exact hne

/-- What was opened is in the log. -/
theorem OpenedFor.mem (hopened : OpenedFor log owner handle) :
    .opened owner handle ∈ log := by
  obtain ⟨before, after, rfl, -⟩ := hopened
  exact List.mem_append_right before List.mem_cons_self

/-- A handle is open for one owner at most. -/
theorem OpenedFor.unique (hopened : OpenedFor log owner handle)
    (hother : OpenedFor log other handle) : owner = other := by
  obtain ⟨before, after, rfl, hafter⟩ := hopened
  obtain ⟨before', after', hlog, hafter'⟩ := hother
  induction before generalizing before' with
  | nil =>
      cases before' with
      | nil => exact (HandleEvent.opened.inj (List.cons.inj hlog).1).1
      | cons first before' =>
          have hmem : HandleEvent.opened other handle ∈ after := by
            rw [(List.cons.inj hlog).2]
            exact List.mem_append_right before' List.mem_cons_self
          exact absurd rfl (hafter _ hmem)
  | cons first before ih =>
      cases before' with
      | nil =>
          have hmem : HandleEvent.opened owner handle ∈ after' := by
            rw [← (List.cons.inj hlog).2]
            exact List.mem_append_right before List.mem_cons_self
          exact absurd rfl (hafter' _ hmem)
      | cons first' before' => exact ih before' (List.cons.inj hlog).2

/-- One more number than there are used ones is enough to find a free one. -/
theorem exists_lt_not_mem (used : List ℕ) : ∃ handle < used.length + 1, handle ∉ used := by
  by_contra hnone
  have hsubset : List.range (used.length + 1) ⊆ used := by
    intro handle hhandle
    by_contra hfree
    exact hnone ⟨handle, List.mem_range.mp hhandle, hfree⟩
  have hlength := (List.subperm_of_subset List.nodup_range hsubset).length_le
  rw [List.length_range] at hlength
  omega

end Library
