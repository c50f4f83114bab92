/-
# A store with a memory and a disk

Values are put into memory and reach the disk later, one at a time or all at once, in a
format of the disk. A restart loses the memory, and values are read back from the disk.
Dropping a key forgets what is in memory, and evicting it forgets it on both levels. A write
can be cut off.
-/

import Mathlib.Logic.Function.Basic
import Mathlib.Tactic.Common

namespace Library

universe u v w z

/-- How values are written on disk: whatever is there is read as some value, and what was
written as itself. A write that is cut off leaves something that depends on what was there
before, and nothing new where it would not have changed anything. -/
class DiskFormat (α : Type v) (β : outParam (Type w)) (γ : outParam (Type z)) where
  encode : α → β
  decode : β → α
  torn : Option β → β → γ → β
  decode_encode : ∀ value, decode (encode value) = value
  torn_self : ∀ content cut, torn (some content) content cut = content

/-- What is in memory and what is on disk. -/
structure WriteBack (κ : Type u) (α : Type v) (β : Type w) where
  memory : κ → Option α
  disk : κ → Option β

/-- What can be done to a store. -/
inductive StoreOperation (κ : Type u) (α : Type v) (γ : Type z)
  | put (key : κ) (value : α)
  | drop (key : κ)
  | evict (key : κ)
  | store (key : κ)
  | dump
  | restart
  | recover (key : κ)
  /-- Storing the key is cut off. -/
  | tear (key : κ) (cut : γ)
  deriving DecidableEq

namespace WriteBack

variable {κ : Type u} {α : Type v} {β : Type w} {γ : Type z}

/-- Nothing is stored. -/
def empty : WriteBack κ α β := ⟨fun _ => none, fun _ => none⟩

variable [DecidableEq κ] [DiskFormat α β γ]

/-- One operation. A key that is not in memory leaves the disk alone. -/
def apply (store : WriteBack κ α β) : StoreOperation κ α γ → WriteBack κ α β
  | .put key value => { store with memory := Function.update store.memory key (some value) }
  | .drop key => { store with memory := Function.update store.memory key none }
  | .evict key => ⟨Function.update store.memory key none, Function.update store.disk key none⟩
  | .store key =>
      { store with
        disk := Function.update store.disk key
          (((store.memory key).map DiskFormat.encode).or (store.disk key)) }
  | .dump =>
      { store with
        disk := fun key => ((store.memory key).map DiskFormat.encode).or (store.disk key) }
  | .restart => { store with memory := fun _ => none }
  | .recover key =>
      { store with
        memory := Function.update store.memory key ((store.disk key).map DiskFormat.decode) }
  | .tear key cut =>
      { store with
        disk := Function.update store.disk key
          (((store.memory key).map fun value =>
            DiskFormat.torn α (store.disk key) (DiskFormat.encode value) cut).or (store.disk key)) }

/-- Some operations, the first one first. -/
def applyAll (store : WriteBack κ α β) (operations : List (StoreOperation κ α γ)) :
    WriteBack κ α β :=
  operations.foldl apply store

@[simp]
theorem applyAll_nil (store : WriteBack κ α β) : store.applyAll [] = store := rfl

@[simp]
theorem applyAll_cons (store : WriteBack κ α β) (operation : StoreOperation κ α γ)
    (operations : List (StoreOperation κ α γ)) :
    store.applyAll (operation :: operations) = (store.apply operation).applyAll operations := rfl

theorem applyAll_append (store : WriteBack κ α β) (first second : List (StoreOperation κ α γ)) :
    store.applyAll (first ++ second) = (store.applyAll first).applyAll second :=
  List.foldl_append

/-- What every operation keeps, some operations keep. -/
theorem applyAll_invariant {operations : List (StoreOperation κ α γ)} (inv : WriteBack κ α β → Prop)
    (keep : ∀ store operation, operation ∈ operations → inv store → inv (store.apply operation))
    {store : WriteBack κ α β} (hstart : inv store) : inv (store.applyAll operations) := by
  induction operations generalizing store with
  | nil => exact hstart
  | cons operation operations ih =>
      exact ih (fun store other hmem => keep store other (List.mem_cons_of_mem _ hmem))
        (keep store operation List.mem_cons_self hstart)

/-! ## Where keys and values come from -/

variable {store : WriteBack κ α β}

/-- What a level holds after an update, at the key or elsewhere. -/
theorem update_cases {δ : Type*} {level : κ → Option δ} {key other : κ} {new : Option δ} {value : δ}
    (hvalue : Function.update level key new other = some value) :
    (other = key ∧ new = some value) ∨ (other ≠ key ∧ level other = some value) := by
  by_cases hother : other = key
  · subst hother
    rw [Function.update_self] at hvalue
    exact .inl ⟨rfl, hvalue⟩
  · rw [Function.update_of_ne hother] at hvalue
    exact .inr ⟨hother, hvalue⟩

/-- What a level holds after an update. -/
theorem eq_some_of_update {δ : Type*} {level : κ → Option δ} {key other : κ} {new : Option δ}
    {value : δ} (hvalue : Function.update level key new other = some value) :
    (other = key ∧ new = some value) ∨ level other = some value :=
  (update_cases hvalue).imp_right And.right

/-- What a write leaves on disk was in memory, or on disk before. -/
theorem encoded_or {memory : Option α} {disk : Option β} {content : β}
    (hcontent : (memory.map DiskFormat.encode).or disk = some content) :
    (∃ value, memory = some value ∧ content = DiskFormat.encode value) ∨ disk = some content := by
  obtain hmemory | ⟨-, hdisk⟩ := Option.or_eq_some_iff.mp hcontent
  · obtain ⟨value, hvalue, hencoded⟩ := Option.map_eq_some_iff.mp hmemory
    exact .inl ⟨value, hvalue, hencoded.symm⟩
  · exact .inr hdisk

/-- The values of a key, on both levels, satisfy a property, and those on disk are in its
format. -/
structure Among (key : κ) (property : α → Prop) (store : WriteBack κ α β) : Prop where
  memory : ∀ value, store.memory key = some value → property value
  disk : ∀ content, store.disk key = some content →
    ∃ value, property value ∧ content = DiskFormat.encode value

/-- An operation that brings no value of a key but those that satisfy a property. -/
def Supplies (key : κ) (property : α → Prop) : StoreOperation κ α γ → Prop
  | .put other value => other = key → property value
  | .tear other _ => other ≠ key
  | _ => True

omit [DecidableEq κ] in
theorem among_empty (key : κ) (property : α → Prop) :
    Among key property (empty : WriteBack κ α β) :=
  ⟨fun _ hvalue => (by cases hvalue), fun _ hcontent => (by cases hcontent)⟩

/-- **Nothing is invented**: the values of a key are those that were put. -/
theorem Among.apply {key : κ} {property : α → Prop} (hamong : Among key property store)
    {operation : StoreOperation κ α γ} (hsupplies : Supplies key property operation) :
    Among key property (store.apply operation) := by
  obtain ⟨hmemory, hdisk⟩ := hamong
  have hwritten : ∀ content, ((store.memory key).map DiskFormat.encode).or (store.disk key) =
      some content → ∃ value, property value ∧ content = DiskFormat.encode value := by
    intro content hcontent
    obtain ⟨value, hvalue, hencoded⟩ | hcontent := encoded_or hcontent
    · exact ⟨value, hmemory value hvalue, hencoded⟩
    · exact hdisk content hcontent
  cases operation with
  | put other new =>
      refine ⟨fun value hvalue => ?_, hdisk⟩
      obtain ⟨rfl, hnew⟩ | hvalue := eq_some_of_update hvalue
      · exact Option.some.inj hnew ▸ hsupplies rfl
      · exact hmemory value hvalue
  | drop other =>
      refine ⟨fun value hvalue => ?_, hdisk⟩
      obtain ⟨-, hnew⟩ | hvalue := eq_some_of_update hvalue
      · cases hnew
      · exact hmemory value hvalue
  | evict other =>
      refine ⟨fun value hvalue => ?_, fun content hcontent => ?_⟩
      · obtain ⟨-, hnew⟩ | hvalue := eq_some_of_update hvalue
        · cases hnew
        · exact hmemory value hvalue
      · obtain ⟨-, hnew⟩ | hcontent := eq_some_of_update hcontent
        · cases hnew
        · exact hdisk content hcontent
  | store other =>
      refine ⟨hmemory, fun content hcontent => ?_⟩
      obtain ⟨rfl, hnew⟩ | hcontent := eq_some_of_update hcontent
      · exact hwritten content hnew
      · exact hdisk content hcontent
  | dump => exact ⟨hmemory, hwritten⟩
  | restart => exact ⟨fun value hvalue => (by cases hvalue), hdisk⟩
  | recover other =>
      refine ⟨fun value hvalue => ?_, hdisk⟩
      obtain ⟨rfl, hnew⟩ | hvalue := eq_some_of_update hvalue
      · obtain ⟨content, hcontent, rfl⟩ := Option.map_eq_some_iff.mp hnew
        obtain ⟨found, hfound, rfl⟩ := hdisk content hcontent
        rwa [DiskFormat.decode_encode]
      · exact hmemory value hvalue
  | tear other cut =>
      refine ⟨hmemory, fun content hcontent => ?_⟩
      obtain ⟨rfl, -⟩ | hcontent := eq_some_of_update hcontent
      · exact absurd rfl hsupplies
      · exact hdisk content hcontent

theorem Among.applyAll {key : κ} {property : α → Prop} (hamong : Among key property store)
    {operations : List (StoreOperation κ α γ)}
    (hsupplies : ∀ operation ∈ operations, Supplies key property operation) :
    Among key property (store.applyAll operations) :=
  applyAll_invariant (Among key property)
    (fun _ operation hmem h => h.apply (hsupplies operation hmem)) hamong

/-- All keys that have a value on a level satisfy a property. -/
def Keyed (property : κ → Prop) (store : WriteBack κ α β) : Prop :=
  ∀ key, (store.memory key).isSome = true ∨ (store.disk key).isSome = true → property key

omit [DecidableEq κ] [DiskFormat α β γ] in
theorem keyed_empty (property : κ → Prop) : Keyed property (empty : WriteBack κ α β) := by
  rintro key (h | h) <;> cases h

theorem isSome_update {δ : Type*} {level : κ → Option δ} {key other : κ} {new : Option δ}
    (hsome : (Function.update level key new other).isSome = true) :
    (other = key ∧ new.isSome = true) ∨ (level other).isSome = true := by
  obtain ⟨value, hvalue⟩ := Option.isSome_iff_exists.mp hsome
  obtain ⟨hother, rfl⟩ | hold := eq_some_of_update hvalue
  · exact .inl ⟨hother, rfl⟩
  · exact .inr (Option.isSome_iff_exists.mpr ⟨value, hold⟩)

/-- Only a key that is put can be new. -/
theorem Keyed.apply {property : κ → Prop} (hkeyed : Keyed property store)
    {operation : StoreOperation κ α γ}
    (hput : ∀ key value, operation = .put key value → property key) :
    Keyed property (store.apply operation) := by
  have hwritten : ∀ (write : α → β) (key : κ),
      (((store.memory key).map write).or (store.disk key)).isSome = true → property key := by
    intro write key hsome
    rw [Option.isSome_or, Bool.or_eq_true, Option.isSome_map] at hsome
    exact hkeyed key hsome
  intro other hother
  cases operation with
  | put key value =>
      obtain hmemory | hdisk := hother
      · obtain ⟨rfl, -⟩ | hmemory := isSome_update hmemory
        · exact hput other value rfl
        · exact hkeyed other (.inl hmemory)
      · exact hkeyed other (.inr hdisk)
  | drop key =>
      obtain hmemory | hdisk := hother
      · obtain ⟨-, hnew⟩ | hmemory := isSome_update hmemory
        · cases hnew
        · exact hkeyed other (.inl hmemory)
      · exact hkeyed other (.inr hdisk)
  | evict key =>
      obtain hmemory | hdisk := hother
      · obtain ⟨-, hnew⟩ | hmemory := isSome_update hmemory
        · cases hnew
        · exact hkeyed other (.inl hmemory)
      · obtain ⟨-, hnew⟩ | hdisk := isSome_update hdisk
        · cases hnew
        · exact hkeyed other (.inr hdisk)
  | store key =>
      obtain hmemory | hdisk := hother
      · exact hkeyed other (.inl hmemory)
      · obtain ⟨rfl, hnew⟩ | hdisk := isSome_update hdisk
        · exact hwritten _ other hnew
        · exact hkeyed other (.inr hdisk)
  | dump =>
      obtain hmemory | hdisk := hother
      · exact hkeyed other (.inl hmemory)
      · exact hwritten _ other hdisk
  | restart =>
      obtain hmemory | hdisk := hother
      · cases hmemory
      · exact hkeyed other (.inr hdisk)
  | recover key =>
      obtain hmemory | hdisk := hother
      · obtain ⟨rfl, hnew⟩ | hmemory := isSome_update hmemory
        · rw [Option.isSome_map] at hnew
          exact hkeyed other (.inr hnew)
        · exact hkeyed other (.inl hmemory)
      · exact hkeyed other (.inr hdisk)
  | tear key cut =>
      obtain hmemory | hdisk := hother
      · exact hkeyed other (.inl hmemory)
      · obtain ⟨rfl, hnew⟩ | hdisk := isSome_update hdisk
        · exact hwritten _ other hnew
        · exact hkeyed other (.inr hdisk)

theorem Keyed.applyAll {property : κ → Prop} (hkeyed : Keyed property store)
    {operations : List (StoreOperation κ α γ)}
    (hput : ∀ key value, .put key value ∈ operations → property key) :
    Keyed property (store.applyAll operations) :=
  applyAll_invariant (Keyed property)
    (fun _ _ hmem h => h.apply fun key value heq => hput key value (heq ▸ hmem)) hkeyed

/-! ## What memory has of a key -/

/-- There is no other value of a key in memory. -/
def MemoryOnly (key : κ) (value : α) (store : WriteBack κ α β) : Prop :=
  ∀ other, store.memory key = some other → other = value

/-- An operation that brings no other value of a key into memory. -/
def BringsOnly (key : κ) (value : α) : StoreOperation κ α γ → Prop
  | .put other new => other = key → new = value
  | .recover other => other ≠ key
  | _ => True

theorem memoryOnly_put (store : WriteBack κ α β) (key : κ) (value : α) :
    MemoryOnly key value (store.apply (.put key value)) := by
  intro other hother
  obtain ⟨-, hnew⟩ | ⟨hne, -⟩ := update_cases hother
  · exact (Option.some.inj hnew).symm
  · exact absurd rfl hne

theorem memoryOnly_drop (store : WriteBack κ α β) (key : κ) (value : α) :
    MemoryOnly key value (store.apply (.drop key)) := by
  intro other hother
  obtain ⟨-, hnew⟩ | ⟨hne, -⟩ := update_cases hother
  · cases hnew
  · exact absurd rfl hne

theorem MemoryOnly.apply {key : κ} {value : α} (honly : MemoryOnly key value store)
    {operation : StoreOperation κ α γ} (hbrings : BringsOnly key value operation) :
    MemoryOnly key value (store.apply operation) := by
  intro found hfound
  cases operation with
  | put other new =>
      obtain ⟨rfl, hnew⟩ | hfound := eq_some_of_update hfound
      · exact (Option.some.inj hnew).symm.trans (hbrings rfl)
      · exact honly found hfound
  | drop other | evict other =>
      obtain ⟨-, hnew⟩ | hfound := eq_some_of_update hfound
      · cases hnew
      · exact honly found hfound
  | store other | dump | tear other cut => exact honly found hfound
  | restart => cases hfound
  | recover other =>
      obtain ⟨rfl, -⟩ | hfound := eq_some_of_update hfound
      · exact absurd rfl hbrings
      · exact honly found hfound

/-- **No other value** of a key comes into memory by operations that bring none. -/
theorem MemoryOnly.applyAll {key : κ} {value : α} (honly : MemoryOnly key value store)
    {operations : List (StoreOperation κ α γ)}
    (hbrings : ∀ operation ∈ operations, BringsOnly key value operation) :
    MemoryOnly key value (store.applyAll operations) :=
  applyAll_invariant (MemoryOnly key value)
    (fun _ operation hmem h => h.apply (hbrings operation hmem)) honly

/-! ## What stays on disk -/

/-- An operation that neither puts nor evicts a key. -/
def Spares (key : κ) : StoreOperation κ α γ → Prop
  | .put other _ | .evict other => other ≠ key
  | _ => True

instance (key : κ) (operation : StoreOperation κ α γ) : Decidable (Spares key operation) :=
  match operation with
  | .put other _ | .evict other => inferInstanceAs (Decidable (other ≠ key))
  | .drop _ | .store _ | .dump | .restart | .recover _ | .tear _ _ =>
      inferInstanceAs (Decidable True)

/-- A value of a key is on disk, and there is no other one in memory. -/
structure Settled (key : κ) (value : α) (store : WriteBack κ α β) : Prop where
  disk : store.disk key = some (DiskFormat.encode value)
  memory : ∀ other, store.memory key = some other → other = value

/-- A value that was stored is settled. -/
theorem settled_store {key : κ} {value : α} (hmemory : store.memory key = some value) :
    Settled key value (store.apply (.store key)) := by
  refine ⟨?_, fun other hother => Option.some.inj (hother.symm.trans hmemory)⟩
  show Function.update _ _ _ _ = _
  rw [Function.update_self, hmemory, Option.map_some, Option.some_or]

/-- **A settled value stays** while its key is neither put nor evicted: a write of it that
is cut off would not have changed anything. -/
theorem Settled.apply {key : κ} {value : α} (hsettled : Settled key value store)
    {operation : StoreOperation κ α γ} (hspares : Spares key operation) :
    Settled key value (store.apply operation) := by
  obtain ⟨hdisk, hmemory⟩ := hsettled
  have hboth : ((store.memory key).map DiskFormat.encode).or (store.disk key) =
      some (DiskFormat.encode value) := by
    cases hin : store.memory key with
    | none => rw [Option.map_none, Option.none_or, hdisk]
    | some other => rw [Option.map_some, Option.some_or, hmemory other hin]
  cases operation with
  | put other new =>
      refine ⟨hdisk, fun found hfound => hmemory found ?_⟩
      rwa [show (store.apply (.put other new)).memory key = store.memory key from
        Function.update_of_ne (Ne.symm hspares) _ _] at hfound
  | drop other =>
      refine ⟨hdisk, fun found hfound => ?_⟩
      obtain ⟨-, hnew⟩ | hfound := eq_some_of_update hfound
      · cases hnew
      · exact hmemory found hfound
  | evict other =>
      refine ⟨(Function.update_of_ne (Ne.symm hspares) _ _).trans hdisk, fun found hfound => ?_⟩
      obtain ⟨-, hnew⟩ | hfound := eq_some_of_update hfound
      · cases hnew
      · exact hmemory found hfound
  | store other =>
      refine ⟨?_, hmemory⟩
      show Function.update _ _ _ _ = _
      by_cases hother : key = other
      · rw [← hother, Function.update_self, hboth]
      · rw [Function.update_of_ne hother, hdisk]
  | dump => exact ⟨hboth, hmemory⟩
  | restart => exact ⟨hdisk, fun found hfound => by cases hfound⟩
  | recover other =>
      refine ⟨hdisk, fun found hfound => ?_⟩
      obtain ⟨rfl, hnew⟩ | hfound := eq_some_of_update hfound
      · rw [hdisk, Option.map_some, DiskFormat.decode_encode] at hnew
        exact (Option.some.inj hnew).symm
      · exact hmemory found hfound
  | tear other cut =>
      refine ⟨?_, hmemory⟩
      show Function.update _ _ _ _ = _
      by_cases hother : key = other
      · rw [← hother, Function.update_self, hdisk]
        cases hin : store.memory key with
        | none => rw [Option.map_none, Option.none_or]
        | some found =>
            rw [Option.map_some, Option.some_or, hmemory found hin, DiskFormat.torn_self]
      · rw [Function.update_of_ne hother, hdisk]

theorem Settled.applyAll {key : κ} {value : α} (hsettled : Settled key value store)
    {operations : List (StoreOperation κ α γ)}
    (hspares : ∀ operation ∈ operations, Spares key operation) :
    Settled key value (store.applyAll operations) :=
  applyAll_invariant (Settled key value)
    (fun _ operation hmem h => h.apply (hspares operation hmem)) hsettled

/-! ## Several keys -/

/-- A level without one key and without others. -/
theorem ite_update_none {δ : Type*} (level : κ → Option δ) (key other : κ) (keys : List κ) :
    (if other ∈ keys then none else Function.update level key none other) =
      if other ∈ key :: keys then none else level other := by
  by_cases hother : other = key
  · simp [hother]
  · simp [hother]

/-- Evicting some keys. -/
theorem applyAll_evict (store : WriteBack κ α β) (keys : List κ) :
    store.applyAll (keys.map .evict) =
      ⟨fun key => if key ∈ keys then none else store.memory key,
        fun key => if key ∈ keys then none else store.disk key⟩ := by
  induction keys generalizing store with
  | nil => simp
  | cons key keys ih =>
      rw [List.map_cons, applyAll_cons, ih]
      exact congrArg₂ WriteBack.mk (funext fun other => ite_update_none _ _ _ _)
        (funext fun other => ite_update_none _ _ _ _)

end WriteBack

end Library
