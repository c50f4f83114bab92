/-
# Choosing an instance

`distribution.c`. A key that is assigned to a connected instance stays there; otherwise
one of three policies chooses. `key_explicit` computes an index from the first character
with machine arithmetic, which is in range for letters.
-/

import SockMyPort.Coordinador.Tables
import SockMyPort.Library.Rotation
import Mathlib.Tactic.Linarith

namespace SockMyPort.Coordinador

open SockMyPort.Commons

/-- `enum distribution_algorithm_t`. -/
inductive DistributionAlgorithm
  | lsu
  | el
  | ke
  deriving DecidableEq

/-- `struct setup_t`, with the library's sort. -/
structure Setup where
  distribution : DistributionAlgorithm
  sort : ListSort

variable {setup : Setup} {tables : Tables} {key : CString} {excluded : List InstanceRef}

/-! ## The policies -/

/-- The instance that was popped goes to the end and gets the key. -/
def popAndPush (tables : Tables) (key : CString) (excludedInstances : List InstanceRef) :
    Option InstanceRef × Tables :=
  match instanceListPop tables excludedInstances with
  | (none, popped) => (none, popped)
  | (some nextInstance, popped) =>
      (some nextInstance,
        keyTableCreateKey (instanceListPush popped nextInstance) key (some nextInstance))

/-- `equitative_load`. -/
def equitativeLoad (tables : Tables) (key : CString) (excludedInstances : List InstanceRef) :
    Option InstanceRef × Tables :=
  popAndPush tables key excludedInstances

/-- `sort_by_used_space`. -/
def sortByUsedSpace (tables : Tables) (first second : InstanceRef) : Bool :=
  (tables.nodes first).usedEntries ≤ (tables.nodes second).usedEntries

/-- `least_space_used`. -/
def leastSpaceUsed (setup : Setup) (tables : Tables) (key : CString)
    (excludedInstances : List InstanceRef) : Option InstanceRef × Tables :=
  popAndPush (instanceListSort setup.sort tables (sortByUsedSpace tables)) key excludedInstances

/-- `key[0]`, which is the terminator of an empty key. -/
def firstByte : CString → UInt8
  | [] => 0
  | char :: _ => char

/-- `tolower(key[0])` as a `char`, which is signed. -/
def firstChar (key : CString) : ℤ :=
  let byte := (tolower (firstByte key)).toNat
  if byte < 128 then byte else byte - 256

/-- `(first_char - 'a') * size / ('z' - 'a' + 1)`: the difference is converted to the
unsigned type of the size, and the quotient to `int`. -/
def keyExplicitIndex (key : CString) (size : ℕ) : ℤ :=
  Int.bmod ((firstChar key - 97) * size % 2 ^ 64 / 26) (2 ^ 32)

/-- `key_explicit`. -/
def keyExplicit (tables : Tables) (key : CString) (excludedInstances : List InstanceRef) :
    Option InstanceRef × Tables :=
  let index := keyExplicitIndex key (instanceListSize tables excludedInstances)
  match instanceListGetByIndex tables index excludedInstances with
  | none => (none, tables)
  | some node => (some node, keyTableCreateKey tables key (some node))

/-- The `switch` of `dispatch`. -/
def distribute (setup : Setup) (tables : Tables) (key : CString)
    (excludedInstances : List InstanceRef) : Option InstanceRef × Tables :=
  match setup.distribution with
  | .el => equitativeLoad tables key excludedInstances
  | .lsu => leastSpaceUsed setup tables key excludedInstances
  | .ke => keyExplicit tables key excludedInstances

/-- `dispatch`. -/
def dispatch (setup : Setup) (tables : Tables) (key : CString)
    (excludedInstances : List InstanceRef) : Option InstanceRef × Tables :=
  match keyTableGetInstance tables key with
  | none => distribute setup tables key excludedInstances
  | some node =>
      if instanceIsConnected tables node then (some node, tables)
      else distribute setup (keyTableRemove tables key) key excludedInstances

/-! ## What a choice is -/

/-- An available instance of the list was chosen and has got the key; the list was
only rearranged. -/
structure Chooses (tables : Tables) (key : CString) (excluded : List InstanceRef)
    (node : InstanceRef) (next : Tables) : Prop where
  member : node ∈ tables.instanceList
  available : instanceIsAvailable tables excluded node = true
  assigned : keyTableGetInstance next key = some node
  perm : next.instanceList.Perm tables.instanceList
  nodes : next.nodes = tables.nodes
  otherKeys : ∀ other ≠ key, keyTableGet next other = keyTableGet tables other

/-- Nothing was chosen; the list was only rearranged. -/
structure ChoosesNobody (tables next : Tables) : Prop where
  perm : next.instanceList.Perm tables.instanceList
  nodes : next.nodes = tables.nodes
  keyTable : next.keyTable = tables.keyTable

/-- What a policy does, whichever it is. -/
inductive Choice (tables : Tables) (key : CString) (excluded : List InstanceRef) :
    Option InstanceRef × Tables → Prop
  | nobody {next : Tables} (hnobody : ChoosesNobody tables next) :
      Choice tables key excluded (none, next)
  | somebody {node : InstanceRef} {next : Tables}
      (hchooses : Chooses tables key excluded node next) :
      Choice tables key excluded (some node, next)

theorem otherKeys_keyTableCreateKey (node : InstanceRef) {other : CString} (hne : other ≠ key) :
    keyTableGet (keyTableCreateKey tables key (some node)) other = keyTableGet tables other := by
  cases hget : keyTableGet tables key <;>
    simp [keyTableCreateKey, hget, keyTableGet_keyTablePut_of_ne hne]

theorem assigned_keyTableCreateKey (node : InstanceRef) :
    keyTableGetInstance (keyTableCreateKey tables key (some node)) key = some node := by
  rw [keyTableGetInstance, keyTableGet_keyTableCreateKey]
  rfl

/-- Popping and pushing moves an available instance to the end. -/
theorem choice_popAndPush (tables : Tables) (key : CString) (excluded : List InstanceRef) :
    Choice tables key excluded (popAndPush tables key excluded) := by
  cases hfind : tables.instanceList.find? (instanceIsAvailable tables excluded) with
  | none =>
      have hnone : ∀ node ∈ tables.instanceList,
          ¬ instanceIsAvailable tables excluded node = true := by
        simpa using hfind
      simp only [popAndPush, instanceListPop, hfind]
      refine .nobody ⟨?_, rfl, rfl⟩
      rw [listRemoveByCondition, List.eraseP_of_forall_not hnone]
  | some node =>
      simp only [popAndPush, instanceListPop, hfind]
      refine .somebody ⟨List.mem_of_find?_eq_some hfind, List.find?_some hfind,
        assigned_keyTableCreateKey node, ?_, by simp [instanceListPush], ?_⟩
      · rw [keyTableCreateKey_instanceList]
        exact Library.perm_eraseP_append hfind
      · intro other hne
        rw [otherKeys_keyTableCreateKey node hne]
        rfl

/-- A choice from the sorted list is a choice. -/
theorem Choice.of_sorted {comparator : InstanceRef → InstanceRef → Bool}
    {result : Option InstanceRef × Tables}
    (hchoice : Choice (instanceListSort setup.sort tables comparator) key excluded result) :
    Choice tables key excluded result := by
  have hsorted := setup.sort.perm comparator tables.instanceList
  cases hchoice with
  | nobody hnobody => exact .nobody ⟨hnobody.perm.trans hsorted, hnobody.nodes, hnobody.keyTable⟩
  | somebody hchooses =>
      exact .somebody ⟨hsorted.mem_iff.mp hchooses.member, hchooses.available, hchooses.assigned,
        hchooses.perm.trans hsorted, hchooses.nodes, hchooses.otherKeys⟩

theorem instanceListGetByIndex_eq (tables : Tables) (index : ℤ) (excluded : List InstanceRef) :
    instanceListGetByIndex tables index excluded =
      if 0 ≤ index then
        (tables.instanceList.filter (instanceIsAvailable tables excluded))[index.toNat]?
      else none := by
  rw [instanceListGetByIndex, findWithIndex_eq, Int.sub_zero]

theorem choice_keyExplicit (tables : Tables) (key : CString) (excluded : List InstanceRef) :
    Choice tables key excluded (keyExplicit tables key excluded) := by
  simp only [keyExplicit, instanceListGetByIndex_eq]
  split
  · exact .nobody ⟨.refl _, rfl, rfl⟩
  · rename_i node hfound
    split at hfound
    · obtain ⟨hmember, havailable⟩ := List.mem_filter.mp (List.mem_of_getElem? hfound)
      refine .somebody ⟨hmember, havailable, assigned_keyTableCreateKey node, ?_,
        keyTableCreateKey_nodes node, fun other hne => otherKeys_keyTableCreateKey node hne⟩
      rw [keyTableCreateKey_instanceList]
    · cases hfound

/-- **Every policy chooses** an available instance, or nobody. -/
theorem choice_distribute (setup : Setup) (tables : Tables) (key : CString)
    (excluded : List InstanceRef) :
    Choice tables key excluded (distribute setup tables key excluded) := by
  rw [distribute]
  cases setup.distribution with
  | el => exact choice_popAndPush tables key excluded
  | lsu => exact (choice_popAndPush _ key excluded).of_sorted
  | ke => exact choice_keyExplicit tables key excluded

/-! ## The index of a key -/

theorem firstChar_bounds (key : CString) : -128 ≤ firstChar key ∧ firstChar key ≤ 127 := by
  have hbyte := (tolower (firstByte key)).toNat_lt
  simp only [firstChar]
  split <;> omega

/-- The first character is a letter. -/
def StartsWithLetter (key : CString) : Prop := 97 ≤ firstChar key ∧ firstChar key ≤ 122

instance (key : CString) : Decidable (StartsWithLetter key) := by
  unfold StartsWithLetter
  infer_instance

/-- An index among so many instances. -/
def InRange (key : CString) (size : ℕ) : Prop :=
  0 ≤ keyExplicitIndex key size ∧ keyExplicitIndex key size < size

/-- **The index is in range for letters**, and for letters only, as long as there are not
more instances than a negative product can wrap around for. -/
theorem inRange_iff_startsWithLetter {size : ℕ} (hsome : 0 < size) (hsmall : size < 2 ^ 27) :
    InRange key size ↔ StartsWithLetter key := by
  obtain ⟨hlow, hhigh⟩ := firstChar_bounds key
  obtain ⟨difference, hdifference⟩ : ∃ difference, difference = firstChar key - 97 := ⟨_, rfl⟩
  obtain ⟨product, hproduct⟩ : ∃ product, product = difference * (size : ℤ) := ⟨_, rfl⟩
  rw [InRange, StartsWithLetter, keyExplicitIndex, ← hdifference, ← hproduct, Int.bmod_def]
  simp only [Nat.cast_pow, Nat.cast_ofNat]
  rcases lt_trichotomy difference 0 with hnegative | hzero | hpositive
  · have hbelow : product ≤ -(size : ℤ) := by nlinarith
    have habove : -225 * (size : ℤ) ≤ product := by nlinarith
    omega
  · have hnothing : product = 0 := by rw [hproduct, hzero, zero_mul]
    omega
  · rcases le_or_gt difference 25 with hletter | hother
    · have hbelow : product ≤ 25 * (size : ℤ) := by nlinarith
      have habove : (size : ℤ) ≤ product := by nlinarith
      omega
    · have hbelow : product ≤ 30 * (size : ℤ) := by nlinarith
      have habove : 26 * (size : ℤ) ≤ product := by nlinarith
      have hwhole : product % 2 ^ 64 = product := Int.emod_eq_of_lt (by omega) (by omega)
      have hquotient : product / 26 % 2 ^ 32 = product / 26 :=
        Int.emod_eq_of_lt (by omega) (by omega)
      rw [hwhole, hquotient]
      omega

/-! ## The result -/

/-- What the program is meant to do for a key without a connected instance. -/
structure FindsInstance (setup : Setup) (tables : Tables) (key : CString)
    (excluded : List InstanceRef) (result : Option InstanceRef × Tables) : Prop where
  nobody : result.1 = none →
    ∀ node ∈ tables.instanceList, instanceIsConnected tables node = false ∨ node ∈ excluded
  chosen : ∀ node ∈ result.1, node ∈ tables.instanceList ∧
    instanceIsConnected tables node = true ∧ node ∉ excluded ∧
      keyTableGetInstance result.2 key = some node
  perm : result.2.instanceList.Perm tables.instanceList
  least : setup.distribution = .lsu → ∀ node ∈ result.1, ∀ other ∈ tables.instanceList,
    instanceIsConnected tables other = true → other ∉ excluded →
      (tables.nodes node).usedEntries ≤ (tables.nodes other).usedEntries

/-- When an instance is found: `key_explicit` needs a letter, or a great many instances
among which the wrapped index happens to lie. -/
def FindsWhen (setup : Setup) (tables : Tables) (key : CString) (excluded : List InstanceRef) :
    Prop :=
  setup.distribution = .ke →
    let size := instanceListSize tables excluded
    size = 0 ∨ if size < 2 ^ 27 then StartsWithLetter key else InRange key size

theorem instanceIsAvailable_iff {node : InstanceRef} :
    instanceIsAvailable tables excluded node = true ↔
      node ∉ excluded ∧ instanceIsConnected tables node = true := by
  simp [instanceIsAvailable]

/-- The part that holds of every choice. -/
theorem Choice.chosen {result : Option InstanceRef × Tables}
    (hchoice : Choice tables key excluded result) :
    ∀ node ∈ result.1, node ∈ tables.instanceList ∧
      instanceIsConnected tables node = true ∧ node ∉ excluded ∧
        keyTableGetInstance result.2 key = some node := by
  cases hchoice with
  | nobody hnobody =>
      intro node hnode
      cases hnode
  | somebody hchooses =>
      intro node hnode
      obtain rfl := Option.some.inj hnode
      obtain ⟨hincluded, hconnected⟩ := instanceIsAvailable_iff.mp hchooses.available
      exact ⟨hchooses.member, hconnected, hincluded, hchooses.assigned⟩

theorem Choice.perm {result : Option InstanceRef × Tables}
    (hchoice : Choice tables key excluded result) :
    result.2.instanceList.Perm tables.instanceList := by
  cases hchoice with
  | nobody hnobody => exact hnobody.perm
  | somebody hchooses => exact hchooses.perm

theorem popAndPush_fst (tables : Tables) (key : CString) (excluded : List InstanceRef) :
    (popAndPush tables key excluded).1 =
      tables.instanceList.find? (instanceIsAvailable tables excluded) := by
  simp only [popAndPush, instanceListPop]
  split
  · rename_i hnone
    exact (Prod.mk.inj hnone).1.symm
  · rename_i hsome
    exact (Prod.mk.inj hsome).1.symm

/-- The first available instance of a list in order is a least one. -/
theorem least_of_find? {α : Type} {condition : α → Bool} {le : α → α → Bool} {list : List α}
    {found : α} (hrefl : ∀ a, le a a = true) (hsorted : list.Pairwise fun a b => le a b = true)
    (hfind : list.find? condition = some found) :
    ∀ other ∈ list, condition other = true → le found other = true := by
  obtain ⟨hfound, before, after, hlist, hbefore⟩ := List.find?_eq_some_iff_append.mp hfind
  intro other hother hcondition
  rw [hlist] at hother hsorted
  rcases List.mem_append.mp hother with hearly | hlate
  · have hnot := hbefore other hearly
    simp [hcondition] at hnot
  · rcases List.mem_cons.mp hlate with rfl | hafter
    · exact hrefl _
    · exact (List.pairwise_cons.mp (List.pairwise_append.mp hsorted).2.1).1 other hafter

theorem least_leastSpaceUsed {node : InstanceRef}
    (hnode : (leastSpaceUsed setup tables key excluded).1 = some node) :
    ∀ other ∈ tables.instanceList, instanceIsAvailable tables excluded other = true →
      (tables.nodes node).usedEntries ≤ (tables.nodes other).usedEntries := by
  have hsorted := setup.sort.pairwise (sortByUsedSpace tables) tables.instanceList
    (fun a b => by simpa [sortByUsedSpace] using le_total _ _)
    (fun a b c => by simpa [sortByUsedSpace] using le_trans)
  have hperm := setup.sort.perm (sortByUsedSpace tables) tables.instanceList
  rw [leastSpaceUsed, popAndPush_fst] at hnode
  intro other hother havailable
  have hleast := least_of_find? (fun a => by simp [sortByUsedSpace]) hsorted hnode other
    (hperm.mem_iff.mpr hother) havailable
  simpa [sortByUsedSpace] using hleast

/-- `key_explicit` finds nobody when the index is out of range. -/
theorem keyExplicit_fst_eq_none_iff :
    (keyExplicit tables key excluded).1 = none ↔
      ¬ InRange key (instanceListSize tables excluded) := by
  have hsize : (tables.instanceList.filter (instanceIsAvailable tables excluded)).length =
      instanceListSize tables excluded := List.countP_eq_length_filter.symm
  have hfst : (keyExplicit tables key excluded).1 = instanceListGetByIndex tables
      (keyExplicitIndex key (instanceListSize tables excluded)) excluded := by
    simp only [keyExplicit]
    split <;> simp_all
  rw [hfst, instanceListGetByIndex_eq, InRange]
  split
  · rw [List.getElem?_eq_none_iff, hsize]
    omega
  · simp_all

theorem not_available_iff {node : InstanceRef} :
    ¬ instanceIsAvailable tables excluded node = true ↔
      instanceIsConnected tables node = false ∨ node ∈ excluded := by
  rw [instanceIsAvailable_iff, not_and_or, not_not, Bool.not_eq_true, or_comm]

/-- When a policy finds nobody. -/
theorem distribute_fst_eq_none (hnone : (distribute setup tables key excluded).1 = none)
    (hwhen : FindsWhen setup tables key excluded) :
    ∀ node ∈ tables.instanceList, ¬ instanceIsAvailable tables excluded node = true := by
  rw [distribute] at hnone
  cases hdistribution : setup.distribution with
  | el =>
      rw [hdistribution] at hnone
      exact List.find?_eq_none.mp ((popAndPush_fst tables key excluded).symm.trans hnone)
  | lsu =>
      rw [hdistribution] at hnone
      have hsorted := List.find?_eq_none.mp ((popAndPush_fst _ key excluded).symm.trans hnone)
      intro node hmem
      exact hsorted node ((setup.sort.perm (sortByUsedSpace tables) _).mem_iff.mpr hmem)
  | ke =>
      rw [hdistribution] at hnone
      have houtside := keyExplicit_fst_eq_none_iff.mp hnone
      refine List.countP_eq_zero.mp ?_
      rcases Nat.eq_zero_or_pos (instanceListSize tables excluded) with hzero | hpositive
      · exact hzero
      · rcases hwhen hdistribution with hzero | hrange
        · exact hzero
        · refine absurd ?_ houtside
          split at hrange
          · exact (inRange_iff_startsWithLetter hpositive ‹_›).mpr hrange
          · exact hrange

theorem findsInstance_distribute_iff (setup : Setup) (tables : Tables) (key : CString)
    (excluded : List InstanceRef) :
    FindsInstance setup tables key excluded (distribute setup tables key excluded) ↔
      FindsWhen setup tables key excluded := by
  have hchoice := choice_distribute setup tables key excluded
  constructor
  · intro hfinds hke
    by_contra hnot
    obtain ⟨hsome, houtside⟩ := not_or.mp hnot
    have hnone : (distribute setup tables key excluded).1 = none := by
      rw [distribute, hke]
      refine keyExplicit_fst_eq_none_iff.mpr fun hrange => houtside ?_
      split
      · exact (inRange_iff_startsWithLetter (Nat.pos_of_ne_zero hsome) ‹_›).mp hrange
      · exact hrange
    refine hsome (List.countP_eq_zero.mpr fun node hmem => ?_)
    exact not_available_iff.mpr (hfinds.nobody hnone node hmem)
  · intro hwhen
    refine ⟨fun hnone node hmem => ?_, hchoice.chosen, hchoice.perm, fun hlsu => ?_⟩
    · exact not_available_iff.mp (distribute_fst_eq_none hnone hwhen node hmem)
    · intro node hnode other hother hconnected hincluded
      rw [distribute, hlsu] at hnode
      exact least_leastSpaceUsed hnode other hother
        (instanceIsAvailable_iff.mpr ⟨hincluded, hconnected⟩)

/-- Without a connected instance for the key a policy chooses, on a key table that may
have lost the key. -/
theorem dispatch_eq_distribute (setup : Setup) (excluded : List InstanceRef)
    (hkey : ∀ node, keyTableGetInstance tables key = some node →
      instanceIsConnected tables node = false) :
    ∃ keyTable, dispatch setup tables key excluded =
      distribute setup { tables with keyTable := keyTable } key excluded := by
  cases hget : keyTableGetInstance tables key with
  | none => exact ⟨tables.keyTable, by rw [dispatch, hget]⟩
  | some node =>
      refine ⟨(keyTableRemove tables key).keyTable, ?_⟩
      simp only [dispatch, hget, hkey node hget]
      rfl

/-- **Dispatch finds an instance** for a key without a connected one, whenever there is
one, exactly when `key_explicit` is not asked for a key that starts with something else
than a letter. -/
theorem findsInstance_dispatch_iff
    (hkey : ∀ node, keyTableGetInstance tables key = some node →
      instanceIsConnected tables node = false) :
    FindsInstance setup tables key excluded (dispatch setup tables key excluded) ↔
      FindsWhen setup tables key excluded := by
  obtain ⟨keyTable, hdispatch⟩ := dispatch_eq_distribute setup excluded hkey
  rw [hdispatch]
  have hiff := findsInstance_distribute_iff setup { tables with keyTable := keyTable } key excluded
  exact ⟨fun h => hiff.mp ⟨h.nobody, h.chosen, h.perm, h.least⟩,
    fun h => ⟨(hiff.mpr h).nobody, (hiff.mpr h).chosen, (hiff.mpr h).perm, (hiff.mpr h).least⟩⟩

/-- One instance is connected, and no key was created. -/
def oneInstance : Tables where
  nodes _ := ⟨[], 5, 0⟩
  instanceList := [0]
  keyTable _ := none

/-- The policy `KE`. -/
def keyExplicitSetup : Setup := ⟨.ke, insertionListSort⟩

/-- A key that starts with a letter finds the instance. -/
theorem findsInstance_dispatch_iff_letter :
    (dispatch keyExplicitSetup oneInstance [⟨107, by decide⟩] []).1 = some 0 ∧
      FindsInstance keyExplicitSetup oneInstance [⟨107, by decide⟩] []
        (dispatch keyExplicitSetup oneInstance [⟨107, by decide⟩] []) := by
  refine ⟨by decide, (findsInstance_dispatch_iff (by decide)).mpr fun _ => .inr ?_⟩
  rw [if_pos (by decide)]
  decide

/-- A key that starts with a digit finds nobody. -/
theorem not_findsInstance :
    ¬ ∀ (setup : Setup) (tables : Tables) (key : CString) (excluded : List InstanceRef),
      key ≠ [] → key.length ≤ 40 →
      (∀ node, keyTableGetInstance tables key = some node →
        instanceIsConnected tables node = false) →
      FindsInstance setup tables key excluded (dispatch setup tables key excluded) := by
  intro hclaim
  have hfinds := hclaim keyExplicitSetup oneInstance [⟨49, by decide⟩] [] (by decide) (by decide)
    (by decide)
  exact absurd (hfinds.nobody (by decide) 0 (by decide)) (by decide)

end SockMyPort.Coordinador
