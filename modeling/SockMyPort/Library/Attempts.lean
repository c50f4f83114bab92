/-
# Functions that read through pointers

A function that runs on fuel and follows pointers has two reasons to have no result: it has
spent its fuel, or it has read through a null pointer. It survives unless it did the second.
-/

import Mathlib.Data.List.Defs
import Mathlib.Logic.Basic

namespace Library

universe u v

variable {α : Type u} {β : Type v}

/-- Why a function has no result. -/
inductive Failure
  | spent
  | nullPointer
  deriving DecidableEq

/-- A result, or the reason why there is none. -/
abbrev Attempt (α : Type u) := Except Failure α

/-- Read through the pointer that a lookup returned. -/
def dereference : Option α → Attempt α
  | some value => .ok value
  | none => .error .nullPointer

/-- Nothing was read through a null pointer. -/
def Survives (attempt : Attempt α) : Prop := attempt ≠ .error .nullPointer

theorem survives_ok (value : α) : Survives (.ok value : Attempt α) := nofun

theorem survives_spent : Survives (.error .spent : Attempt α) := nofun

instance (attempt : Attempt α) : Decidable (Survives attempt) :=
  match attempt with
  | .ok value => .isTrue (survives_ok value)
  | .error .spent => .isTrue survives_spent
  | .error .nullPointer => .isFalse fun hsurvives => hsurvives rfl

@[simp]
theorem toOption_dereference (pointer : Option α) : (dereference pointer).toOption = pointer := by
  cases pointer <;> rfl

/-- What is found can be read. -/
theorem survives_dereference_iff {pointer : Option α} :
    Survives (dereference pointer) ↔ ∃ value, pointer = some value := by
  cases pointer with
  | none => exact iff_of_false (fun hsurvives => hsurvives rfl) (by simp)
  | some value => exact iff_of_true (survives_ok value) ⟨value, rfl⟩

theorem dereference_eq_ok_iff {pointer : Option α} {value : α} :
    dereference pointer = .ok value ↔ pointer = some value := by
  cases pointer with
  | none => exact iff_of_false nofun nofun
  | some other => exact ⟨fun heq => congrArg some (Except.ok.inj heq),
      fun heq => congrArg Except.ok (Option.some.inj heq)⟩

theorem toOption_bind (attempt : Attempt α) (next : α → Attempt β) :
    (attempt.bind next).toOption = attempt.toOption.bind fun value => (next value).toOption := by
  cases attempt <;> rfl

theorem bind_eq_ok_iff {attempt : Attempt α} {next : α → Attempt β} {result : β} :
    attempt.bind next = .ok result ↔ ∃ value, attempt = .ok value ∧ next value = .ok result := by
  cases attempt with
  | error => exact iff_of_false nofun fun ⟨_, hvalue, _⟩ => nomatch hvalue
  | ok value =>
      constructor
      · exact fun hnext => ⟨value, rfl, hnext⟩
      · rintro ⟨other, hother, hnext⟩
        rw [Except.ok.inj hother]
        exact hnext

/-- **Two parts, one after the other.** -/
theorem survives_bind_iff {attempt : Attempt α} {next : α → Attempt β} :
    Survives (attempt.bind next) ↔
      Survives attempt ∧ ∀ value, attempt = .ok value → Survives (next value) := by
  cases attempt with
  | error failure =>
      constructor
      · intro hsurvives
        exact ⟨fun heq => hsurvives (congrArg _ (Except.error.inj heq)), nofun⟩
      · exact fun hsurvives heq => hsurvives.1 (congrArg _ (Except.error.inj heq))
  | ok value =>
      constructor
      · intro hsurvives
        exact ⟨survives_ok value, fun other hother => Except.ok.inj hother ▸ hsurvives⟩
      · exact fun hsurvives => hsurvives.2 value rfl

/-- Reading through all of the pointers of a list that are found. -/
theorem mapM_dereference {lookup : α → Option β} {list : List α}
    (hfound : ∀ value ∈ list, ∃ found, lookup value = some found) :
    list.mapM (fun value => dereference (lookup value)) = .ok (list.filterMap lookup) := by
  induction list with
  | nil => rfl
  | cons value list ih =>
      obtain ⟨found, hvalue⟩ := hfound value List.mem_cons_self
      have hrest := ih fun other hmem => hfound other (List.mem_cons_of_mem _ hmem)
      rw [List.mapM_cons, hvalue, hrest, List.filterMap_cons, hvalue]
      rfl

end Library
