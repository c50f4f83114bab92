/-
# The handover of a key

A key that is owed to the first process that waits for it and is not doomed:
other processes may die first, and other keys may be released. Once the key is
released, by itself or with all the keys of its owner, it has been delivered:
the owner does not hold it and the heir has been woken for it. What is delivered
stays so until somebody grants the key to the same owner again.
-/

import SockMyPort.Library.Partition
import Mathlib.Data.List.Find

namespace Library

universe u v

variable {κ : Type u} {α : Type v} [DecidableEq κ] [DecidableEq α]

/-- Elements that are dropped by one condition and not selected by another. -/
theorem filter_eraseP_of_disjoint {β : Type*} {select drop : β → Bool} {list : List β}
    (hdisjoint : ∀ entry ∈ list, drop entry = true → select entry = false) :
    (list.eraseP drop).filter select = list.filter select := by
  induction list with
  | nil => rfl
  | cons entry list ih =>
      have htail := ih fun other hmem => hdisjoint other (List.mem_cons_of_mem _ hmem)
      cases hdrop : drop entry with
      | true =>
          rw [List.eraseP_cons_of_pos hdrop,
            List.filter_cons_of_neg (by simp [hdisjoint entry List.mem_cons_self hdrop])]
      | false =>
          rw [List.eraseP_cons_of_neg (by simp [hdrop]), List.filter_cons, List.filter_cons, htail]

/-- Dropping the first selected entry. -/
theorem filter_eraseP_self {β : Type*} (select : β → Bool) (list : List β) :
    (list.eraseP select).filter select = (list.filter select).tail := by
  induction list with
  | nil => rfl
  | cons entry list ih =>
      cases hselect : select entry with
      | true =>
          rw [List.eraseP_cons_of_pos hselect, List.filter_cons_of_pos hselect, List.tail_cons]
      | false =>
          rw [List.eraseP_cons_of_neg (by simp [hselect]),
            List.filter_cons_of_neg (by simp [hselect]),
            List.filter_cons_of_neg (by simp [hselect]), ih]

/-- Where an entry is dropped by a projection without repetitions, all such
entries are. -/
theorem eraseP_eq_filter {β : Type*} {project : β → α} {list : List β} (value : α)
    (hnodup : (list.map project).Nodup) :
    (list.eraseP fun entry => project entry = value) =
      list.filter fun entry => project entry ≠ value := by
  induction list with
  | nil => rfl
  | cons entry list ih =>
      rw [List.map_cons] at hnodup
      obtain ⟨hnew, hrest⟩ := List.nodup_cons.mp hnodup
      by_cases heq : project entry = value
      · rw [List.eraseP_cons_of_pos (by simp [heq]), List.filter_cons_of_neg (by simp [heq])]
        refine (List.filter_eq_self.mpr fun other hmem => ?_).symm
        refine decide_eq_true fun hother => hnew ?_
        rw [heq, ← hother]
        exact List.mem_map_of_mem hmem
      · rw [List.eraseP_cons_of_neg (by simp [heq]), List.filter_cons_of_pos (by simp [heq]),
          ih hrest]

namespace Dispatcher

variable {dispatcher : Dispatcher κ α} {key : κ} {owner : α} {heir : Option α} {since : ℕ}

/-- The processes that wait for a key, in order. -/
def waitersOf (dispatcher : Dispatcher κ α) (key : κ) : List α :=
  (dispatcher.waiting.filter fun wait => wait.key = key).map Wait.process

omit [DecidableEq α] in
theorem firstWaiter_eq_head? (dispatcher : Dispatcher κ α) (key : κ) :
    dispatcher.firstWaiter key = (dispatcher.waitersOf key).head? := by
  rw [firstWaiter, waitersOf, List.head?_map, List.head?_filter]

/-- Waking a process for another key does not change who waits for a key. -/
theorem waitersOf_wake_other (hnodup : (dispatcher.waiting.map Wait.process).Nodup) {other : κ}
    (hne : other ≠ key) (releases : Bool) :
    (dispatcher.wake other releases).waitersOf key = dispatcher.waitersOf key := by
  cases hfirst : dispatcher.firstWaiter other with
  | none =>
      rw [wake_of_none releases hfirst]
      rfl
  | some process =>
      have hwait := mem_waiting_of_firstWaiter hfirst
      rw [wake_of_some releases hfirst, waitersOf, waitersOf, filter_eraseP_of_disjoint]
      refine fun wait hmem hdrop => decide_eq_false fun hkey => hne ?_
      have hsame := List.inj_on_of_nodup_map hnodup hmem hwait (of_decide_eq_true hdrop)
      rwa [hsame] at hkey

theorem nodup_waiting_wake (hnodup : (dispatcher.waiting.map Wait.process).Nodup) (key : κ)
    (releases : Bool) : ((dispatcher.wake key releases).waiting.map Wait.process).Nodup := by
  cases hfirst : dispatcher.firstWaiter key with
  | none => rwa [wake_of_none releases hfirst]
  | some process =>
      rw [wake_of_some releases hfirst]
      exact hnodup.sublist (List.eraseP_sublist.map _)

/-- **The heirs of different keys** are the processes that wait first for them. -/
theorem heirs_eq_filterMap (hnodup : (dispatcher.waiting.map Wait.process).Nodup) {keys : List κ}
    (hkeys : keys.Nodup) : dispatcher.heirs keys = keys.filterMap dispatcher.firstWaiter := by
  induction keys generalizing dispatcher with
  | nil => rfl
  | cons key keys ih =>
      obtain ⟨hkey, hkeys⟩ := List.nodup_cons.mp hkeys
      have hlater : keys.filterMap (dispatcher.wake key true).firstWaiter =
          keys.filterMap dispatcher.firstWaiter :=
        List.filterMap_congr fun other hmem => by
          have hne : key ≠ other := fun heq => hkey (heq ▸ hmem)
          rw [firstWaiter_eq_head?, firstWaiter_eq_head?, waitersOf_wake_other hnodup hne]
      rw [heirs, ih (nodup_waiting_wake hnodup key true) hkeys, hlater, List.filterMap_cons]
      cases dispatcher.firstWaiter key <;> rfl

/-- When the owner is among those that die, in order, the process that then waits
first does not die after it. -/
def spares (owner : α) : List α → List α → Bool
  | _, [] => true
  | waiters, process :: deaths =>
      if process = owner then waiters.head?.all fun first => decide (first ∉ deaths)
      else spares owner (waiters.filter fun waiter => waiter ≠ process) deaths

/-- The owner holds the key, once, and waits for nothing; every process waits for
one key; the heir is the first that waits for the key and is not doomed. -/
structure Owed (key : κ) (owner : α) (heir : Option α) (since : ℕ) (doomed : List α)
    (dispatcher : Dispatcher κ α) : Prop where
  held : (dispatcher.held.filter fun hold => hold.key = key) = [⟨key, owner⟩]
  waiting : (dispatcher.waiting.map Wait.process).Nodup
  owner : ∀ wait ∈ dispatcher.waiting, wait.process ≠ owner
  heir : ((dispatcher.waitersOf key).find? fun process => process ∉ doomed) = heir
  since : since ≤ dispatcher.woken.length

/-- The owner does not hold the key, and the heir was woken for it. -/
structure Delivered (key : κ) (owner : α) (heir : Option α) (since : ℕ)
    (dispatcher : Dispatcher κ α) : Prop where
  free : ∀ hold ∈ dispatcher.held, ¬ (hold.key = key ∧ hold.holder = owner)
  woken : ∀ process ∈ heir, (⟨process, key⟩ : Wait κ α) ∈ dispatcher.woken.drop since
  since : since ≤ dispatcher.woken.length

/-- The operation gives the key to the owner. -/
def Regrants (key : κ) (owner : α) : Operation κ α → Prop
  | .hold other holder => other = key ∧ holder = owner
  | .claim _ process other => other = key ∧ process = owner
  | _ => False

instance (key : κ) (owner : α) :
    (operation : Operation κ α) → Decidable (Regrants key owner operation)
  | .enter _ _ => .isFalse id
  | .hold _ _ => inferInstanceAs (Decidable (_ = _ ∧ _ = _))
  | .wake _ _ => .isFalse id
  | .die _ => .isFalse id
  | .finish _ => .isFalse id
  | .enlist => .isFalse id
  | .block _ _ => .isFalse id
  | .claim _ _ _ => inferInstanceAs (Decidable (_ = _ ∧ _ = _))
  | .seize _ _ => .isFalse id
  | .preempt _ => .isFalse id
  | .dispatch _ => .isFalse id
  | .act _ => .isFalse id

/-! ## Delivered -/

namespace Delivered

omit [DecidableEq κ] [DecidableEq α] in
/-- Delivery needs fewer nodes of held keys and more wakings only. -/
theorem mono {next : Dispatcher κ α} (hdelivered : dispatcher.Delivered key owner heir since)
    (more : List (Wait κ α))
    (hheld : ∀ hold ∈ next.held, hold ∈ dispatcher.held ∨
      ¬ (hold.key = key ∧ hold.holder = owner))
    (hwoken : next.woken = dispatcher.woken ++ more) :
    next.Delivered key owner heir since where
  free hold hmem := (hheld hold hmem).elim (hdelivered.free hold) id
  woken process hheir := by
    rw [hwoken, List.drop_append_of_le_length hdelivered.since]
    exact List.mem_append_left _ (hdelivered.woken process hheir)
  since := by
    rw [hwoken, List.length_append]
    exact hdelivered.since.trans (Nat.le_add_right _ _)

omit [DecidableEq κ] [DecidableEq α] in
/-- What neither frees nor grants keys keeps a delivery. -/
theorem congr {next : Dispatcher κ α} (hdelivered : dispatcher.Delivered key owner heir since)
    (hheld : next.held = dispatcher.held) (hwoken : next.woken = dispatcher.woken) :
    next.Delivered key owner heir since :=
  hdelivered.mono [] (fun hold hmem => .inl (hheld ▸ hmem)) (by simp [hwoken])

theorem wake (hdelivered : dispatcher.Delivered key owner heir since) (other : κ)
    (releases : Bool) : (dispatcher.wake other releases).Delivered key owner heir since := by
  cases hfirst : dispatcher.firstWaiter other with
  | none =>
      rw [wake_of_none releases hfirst]
      exact hdelivered.mono [] (fun hold hmem => .inl (List.mem_of_mem_eraseP hmem))
        (by simp)
  | some process =>
      rw [wake_of_some releases hfirst]
      refine hdelivered.mono [⟨process, other⟩] (fun hold hmem => .inl ?_) rfl
      cases releases with
      | true => exact List.mem_of_mem_eraseP hmem
      | false => exact hmem

theorem release (hdelivered : dispatcher.Delivered key owner heir since) (process : α) :
    (dispatcher.release process).Delivered key owner heir since := by
  have hkeys :
      (dispatcher.releaseKeys (dispatcher.keysOf process)).Delivered key owner heir since :=
    releaseKeys_keep (Delivered key owner heir since) (fun h => h.wake _ true) _ hdelivered
  exact hkeys.mono [] (fun hold hmem => .inl (List.mem_of_mem_eraseP hmem))
    (List.append_nil _).symm

theorem die (hdelivered : dispatcher.Delivered key owner heir since) (process : α) :
    (dispatcher.die process).Delivered key owner heir since := by
  have hburied : (dispatcher.bury process).Delivered key owner heir since :=
    hdelivered.congr rfl rfl
  exact hburied.release process

theorem finish (hdelivered : dispatcher.Delivered key owner heir since) (process : α) :
    (dispatcher.finish process).Delivered key owner heir since := by
  have hstopped : Delivered key owner heir since
      { dispatcher with running := dispatcher.running.erase process } :=
    hdelivered.congr rfl rfl
  exact hstopped.release process

/-- A delivery is undone by granting the key again only. -/
theorem perform {system : α} {operation : Operation κ α} {next : Dispatcher κ α}
    (hdelivered : dispatcher.Delivered key owner heir since) (howner : owner ≠ system)
    (hgrants : ¬ Regrants key owner operation)
    (hperform : Dispatcher.perform system dispatcher operation = some next) :
    next.Delivered key owner heir since := by
  cases operation with
  | enter process greeted =>
      obtain ⟨-, rfl⟩ := Option.ite_some_none_eq_some.mp hperform
      cases greeted <;> exact hdelivered.congr rfl rfl
  | hold other holder =>
      obtain rfl := Option.some.inj hperform
      refine hdelivered.mono [] (fun hold hmem => ?_) (by simp)
      rcases List.mem_append.mp hmem with hold | hnew
      · exact .inl hold
      · obtain rfl := List.mem_singleton.mp hnew
        exact .inr hgrants
  | wake other releases =>
      obtain ⟨-, rfl⟩ := Option.ite_some_none_eq_some.mp hperform
      exact hdelivered.wake other releases
  | die process =>
      obtain ⟨-, rfl⟩ := Option.ite_some_none_eq_some.mp hperform
      exact hdelivered.die process
  | finish process =>
      obtain ⟨-, rfl⟩ := Option.ite_some_none_eq_some.mp hperform
      exact hdelivered.finish process
  | block process other =>
      obtain ⟨-, rfl⟩ := Option.ite_some_none_eq_some.mp hperform
      exact hdelivered.congr rfl rfl
  | claim place process other =>
      obtain ⟨-, rfl⟩ := Option.ite_some_none_eq_some.mp hperform
      simp only [Dispatcher.claim]
      split
      · cases place <;> exact hdelivered.congr rfl rfl
      · refine hdelivered.mono [] (fun hold hmem => ?_) (by simp)
        rcases List.mem_append.mp hmem with hold | hnew
        · exact .inl hold
        · obtain rfl := List.mem_singleton.mp hnew
          exact .inr hgrants
  | seize process other =>
      obtain rfl := Option.some.inj hperform
      simp only [Dispatcher.seize]
      split
      · exact hdelivered
      · refine hdelivered.mono [] (fun hold hmem => ?_) (by simp)
        rcases List.mem_append.mp hmem with hold | hnew
        · exact .inl hold
        · obtain rfl := List.mem_singleton.mp hnew
          exact .inr fun h => howner h.2.symm
  | preempt process =>
      obtain ⟨-, rfl⟩ := Option.ite_some_none_eq_some.mp hperform
      exact hdelivered.congr rfl rfl
  | dispatch process =>
      obtain ⟨-, rfl⟩ := Option.ite_some_none_eq_some.mp hperform
      exact hdelivered.congr rfl rfl
  | enlist | act process =>
      obtain rfl := Option.some.inj hperform
      exact hdelivered.congr rfl rfl

/-- **A delivery survives every run that does not grant the key again.** -/
theorem execute {system : α} {operations : List (Operation κ α)} {next : Dispatcher κ α}
    (hdelivered : dispatcher.Delivered key owner heir since) (howner : owner ≠ system)
    (hgrants : ∀ operation ∈ operations, ¬ Regrants key owner operation)
    (hexec : (Dispatcher.perform system).execute dispatcher operations = some next) :
    next.Delivered key owner heir since := by
  induction operations generalizing dispatcher with
  | nil =>
      obtain rfl := Option.some.inj hexec
      exact hdelivered
  | cons operation operations ih =>
      obtain ⟨middle, hstep, hrest⟩ := Option.bind_eq_some_iff.mp hexec
      exact ih (hdelivered.perform howner (hgrants operation List.mem_cons_self) hstep)
        (fun other hmem => hgrants other (List.mem_cons_of_mem _ hmem)) hrest

end Delivered

/-! ## Owed -/

namespace Owed

variable {doomed : List α}

/-- An operation that touches neither the keys nor who waits keeps the debt. -/
theorem congr {next : Dispatcher κ α} (howed : dispatcher.Owed key owner heir since doomed)
    (hheld : next.held = dispatcher.held) (hwaiting : next.waiting = dispatcher.waiting)
    (hwoken : next.woken = dispatcher.woken) : next.Owed key owner heir since doomed := by
  refine ⟨hheld ▸ howed.held, hwaiting ▸ howed.waiting, hwaiting ▸ howed.owner, ?_,
    hwoken ▸ howed.since⟩
  rw [waitersOf, hwaiting]
  exact howed.heir

/-- The doomed may be named in any way that agrees on who waits. -/
theorem doomed_congr {others : List α} (howed : dispatcher.Owed key owner heir since doomed)
    (hsame : ∀ process, process ≠ owner → (process ∈ others ↔ process ∈ doomed)) :
    dispatcher.Owed key owner heir since others := by
  refine ⟨howed.held, howed.waiting, howed.owner, ?_, howed.since⟩
  rw [← howed.heir]
  refine List.find?_congr fun process hmem => ?_
  obtain ⟨wait, hwait, rfl⟩ := List.mem_map.mp hmem
  rw [decide_eq_decide, hsame _ (howed.owner wait (List.mem_filter.mp hwait).1)]

/-- Nothing is left to die: the heir waits first. -/
theorem firstWaiter (howed : dispatcher.Owed key owner heir since []) :
    dispatcher.firstWaiter key = heir := by
  rw [firstWaiter_eq_head?, ← howed.heir]
  cases dispatcher.waitersOf key <;> simp

/-- The first that waits is not doomed: it is the heir. -/
theorem spare (howed : dispatcher.Owed key owner heir since doomed)
    (hspared : ∀ process ∈ (dispatcher.waitersOf key).head?, process ∉ doomed) :
    dispatcher.Owed key owner heir since [] := by
  refine ⟨howed.held, howed.waiting, howed.owner, ?_, howed.since⟩
  rw [← howed.heir]
  cases hwaiters : dispatcher.waitersOf key with
  | nil => rfl
  | cons first rest =>
      have hfirst := hspared first (by rw [hwaiters]; rfl)
      simp [hfirst]

/-- Releasing another key keeps the debt. -/
theorem wake_other (howed : dispatcher.Owed key owner heir since doomed) {other : κ}
    (hne : other ≠ key) (releases : Bool) :
    (dispatcher.wake other releases).Owed key owner heir since doomed := by
  have hheld : ((dispatcher.held.eraseP fun hold => hold.key = other).filter
      fun hold => hold.key = key) = [⟨key, owner⟩] := by
    rw [filter_eraseP_of_disjoint, howed.held]
    intro hold _ hdrop
    rw [of_decide_eq_true hdrop]
    exact decide_eq_false hne
  have hwaiters := waitersOf_wake_other howed.waiting hne releases
  cases hfirst : dispatcher.firstWaiter other with
  | none =>
      rw [wake_of_none releases hfirst]
      exact ⟨hheld, howed.waiting, howed.owner, howed.heir, howed.since⟩
  | some process =>
      rw [wake_of_some releases hfirst] at hwaiters ⊢
      refine ⟨?_, howed.waiting.sublist (List.eraseP_sublist.map _), fun wait hmem =>
        howed.owner wait (List.mem_of_mem_eraseP hmem), hwaiters ▸ howed.heir, ?_⟩
      · cases releases with
        | true => exact hheld
        | false => exact howed.held
      · simpa using Nat.le_succ_of_le howed.since

/-- **Releasing the key delivers it.** -/
theorem wake_key (howed : dispatcher.Owed key owner heir since []) :
    (dispatcher.wake key true).Delivered key owner heir since := by
  have hfree : ∀ hold ∈ dispatcher.held.eraseP fun hold => hold.key = key,
      ¬ (hold.key = key ∧ hold.holder = owner) := by
    rintro hold hmem ⟨hkey, -⟩
    have hnode : hold ∈ (dispatcher.held.eraseP fun hold => hold.key = key).filter
        fun hold => hold.key = key := List.mem_filter.mpr ⟨hmem, decide_eq_true hkey⟩
    rw [filter_eraseP_self, howed.held] at hnode
    cases hnode
  have hfirst := howed.firstWaiter
  cases heir with
  | none =>
      rw [wake_of_none true hfirst]
      exact ⟨hfree, fun _ hnone => (Option.not_mem_none _ hnone).elim, howed.since⟩
  | some process =>
      rw [wake_of_some true hfirst]
      refine ⟨hfree, fun other hother => ?_, ?_⟩
      · obtain rfl := Option.mem_some_iff.mp hother
        rw [List.drop_append_of_le_length howed.since]
        exact List.mem_append_right _ (List.mem_singleton_self _)
      · simpa using Nat.le_succ_of_le howed.since

theorem releaseKeys_other {keys : List κ} (howed : dispatcher.Owed key owner heir since doomed)
    (hne : ∀ other ∈ keys, other ≠ key) :
    (dispatcher.releaseKeys keys).Owed key owner heir since doomed := by
  induction keys generalizing dispatcher with
  | nil => exact howed
  | cons other keys ih =>
      exact ih (howed.wake_other (hne other List.mem_cons_self) true)
        fun next hmem => hne next (List.mem_cons_of_mem _ hmem)

theorem waitersOf_releaseKeys_other {keys : List κ}
    (howed : dispatcher.Owed key owner heir since doomed) (hne : ∀ other ∈ keys, other ≠ key) :
    (dispatcher.releaseKeys keys).waitersOf key = dispatcher.waitersOf key := by
  induction keys generalizing dispatcher with
  | nil => rfl
  | cons other keys ih =>
      have hfirst := hne other List.mem_cons_self
      exact (ih (howed.wake_other hfirst true) fun next hmem =>
        hne next (List.mem_cons_of_mem _ hmem)).trans
          (waitersOf_wake_other howed.waiting hfirst true)

/-- Releasing a list of keys that has the key delivers it. -/
theorem releaseKeys_mem {keys : List κ} (howed : dispatcher.Owed key owner heir since [])
    (hmem : key ∈ keys) : (dispatcher.releaseKeys keys).Delivered key owner heir since := by
  induction keys generalizing dispatcher with
  | nil => cases hmem
  | cons other keys ih =>
      by_cases heq : other = key
      · subst heq
        exact releaseKeys_keep (Delivered _ owner heir since) (fun h => h.wake _ true) keys
          howed.wake_key
      · rcases List.mem_cons.mp hmem with hhead | htail
        · exact absurd hhead.symm heq
        · exact ih (howed.wake_other heq true) htail

theorem mem_keysOf (howed : dispatcher.Owed key owner heir since doomed) :
    key ∈ dispatcher.keysOf owner := by
  have hnode : (⟨key, owner⟩ : Hold κ α) ∈ dispatcher.held.filter fun hold => hold.key = key := by
    rw [howed.held]
    exact List.mem_cons_self
  refine List.mem_map.mpr
    ⟨⟨key, owner⟩, List.mem_filter.mpr ⟨List.mem_of_mem_filter hnode, ?_⟩, rfl⟩
  exact decide_eq_true rfl

/-- The node of the key is the owner's. -/
theorem holder_eq (howed : dispatcher.Owed key owner heir since doomed) {hold : Hold κ α}
    (hmem : hold ∈ dispatcher.held) (hkey : hold.key = key) : hold.holder = owner := by
  have hnode : hold ∈ dispatcher.held.filter fun hold => hold.key = key :=
    List.mem_filter.mpr ⟨hmem, decide_eq_true hkey⟩
  rw [howed.held] at hnode
  rw [List.mem_singleton.mp hnode]

/-- The death, or the end, of the owner delivers the key. -/
theorem release_owner (howed : dispatcher.Owed key owner heir since []) :
    (dispatcher.release owner).Delivered key owner heir since := by
  have hkeys := howed.releaseKeys_mem howed.mem_keysOf
  exact hkeys.mono [] (fun hold hmem => .inl (List.mem_of_mem_eraseP hmem))
    (List.append_nil _).symm

theorem die_owner (howed : dispatcher.Owed key owner heir since []) :
    (dispatcher.die owner).Delivered key owner heir since := by
  have hburied : (dispatcher.bury owner).Owed key owner heir since [] := howed.congr rfl rfl rfl
  exact hburied.release_owner

theorem finish_owner (howed : dispatcher.Owed key owner heir since []) :
    (dispatcher.finish owner).Delivered key owner heir since := by
  have hstopped : Owed key owner heir since []
      { dispatcher with running := dispatcher.running.erase owner } := howed.congr rfl rfl rfl
  exact hstopped.release_owner

/-- Another process does not hold the key. -/
theorem ne_of_mem_keysOf (howed : dispatcher.Owed key owner heir since doomed) {process : α}
    (hne : process ≠ owner) : ∀ other ∈ dispatcher.keysOf process, other ≠ key := by
  intro other hmem heq
  obtain ⟨hold, hhold, rfl⟩ := List.mem_map.mp hmem
  obtain ⟨hheld, hholder⟩ := List.mem_filter.mp hhold
  exact hne ((of_decide_eq_true hholder).symm.trans (howed.holder_eq hheld heq))

theorem waitersOf_die (howed : dispatcher.Owed key owner heir since doomed) {process : α}
    (hne : process ≠ owner) : (dispatcher.die process).waitersOf key =
      (dispatcher.waitersOf key).filter fun waiter => waiter ≠ process := by
  have hburied : (dispatcher.bury process).Owed key owner heir since doomed :=
    howed.congr rfl rfl rfl
  have hkeys := hburied.ne_of_mem_keysOf hne
  have hgone : (dispatcher.die process).waiting =
      ((dispatcher.bury process).releaseKeys ((dispatcher.bury process).keysOf
        process)).waiting.filter fun wait => wait.process ≠ process :=
    eraseP_eq_filter process (hburied.releaseKeys_other hkeys).waiting
  have hsame := hburied.waitersOf_releaseKeys_other hkeys
  rw [show dispatcher.waitersOf key = (dispatcher.bury process).waitersOf key from rfl, ← hsame,
    waitersOf, waitersOf, hgone, List.filter_map, List.filter_filter, List.filter_filter]
  refine congrArg _ (List.filter_congr fun wait _ => ?_)
  exact Bool.and_comm _ _

/-- The death of another process keeps the debt, and one less is doomed. -/
theorem die_other {process : α} (hne : process ≠ owner)
    (howed : dispatcher.Owed key owner heir since (process :: doomed)) :
    (dispatcher.die process).Owed key owner heir since doomed := by
  have hburied : (dispatcher.bury process).Owed key owner heir since (process :: doomed) :=
    howed.congr rfl rfl rfl
  have hreleased := hburied.releaseKeys_other (hburied.ne_of_mem_keysOf hne)
  refine ⟨?_, hreleased.waiting.sublist (List.eraseP_sublist.map _), fun wait hmem =>
    hreleased.owner wait (List.mem_of_mem_eraseP hmem), ?_, hreleased.since⟩
  · refine (filter_eraseP_of_disjoint fun hold hmem hdrop => ?_).trans hreleased.held
    refine decide_eq_false fun hkey => hne ?_
    exact (of_decide_eq_true hdrop).symm.trans (hreleased.holder_eq hmem hkey)
  · rw [howed.waitersOf_die hne, List.find?_filter, ← howed.heir]
    refine List.find?_congr fun waiter _ => ?_
    by_cases hsame : waiter = process <;> simp [hsame]

/-- The owner dies, and who then waits first does not die after it. -/
theorem die_spared {deaths : List α}
    (howed : dispatcher.Owed key owner heir since (owner :: deaths))
    (hspares : spares owner (dispatcher.waitersOf key) (owner :: deaths) = true) :
    (dispatcher.die owner).Delivered key owner heir since := by
  rw [spares, if_pos rfl] at hspares
  refine (howed.spare fun first hfirst => ?_).die_owner
  have hlater : first ∉ deaths := by simpa [Option.mem_def.mp hfirst] using hspares
  have hwaits : first ∈ dispatcher.waitersOf key := List.mem_of_head? hfirst
  obtain ⟨wait, hwait, rfl⟩ := List.mem_map.mp hwaits
  have hawake := howed.owner wait (List.mem_filter.mp hwait).1
  simp [hawake, hlater]

/-- **Deaths one after the other.** When the owner is among them the key has been
delivered in the end; otherwise it is still owed, and nobody is doomed. -/
theorem dieAll {system : α} {deaths : List α} {next : Dispatcher κ α}
    (howed : dispatcher.Owed key owner heir since deaths) (howner : owner ≠ system)
    (hspares : spares owner (dispatcher.waitersOf key) deaths = true)
    (hexec : (Dispatcher.perform system).execute dispatcher (deaths.map Operation.die) =
      some next) :
    if owner ∈ deaths then next.Delivered key owner heir since
    else next.Owed key owner heir since [] := by
  induction deaths generalizing dispatcher with
  | nil =>
      obtain rfl := Option.some.inj hexec
      exact howed
  | cons process deaths ih =>
      obtain ⟨middle, hstep, hrest⟩ := Option.bind_eq_some_iff.mp hexec
      obtain ⟨-, rfl⟩ := Option.ite_some_none_eq_some.mp hstep
      by_cases heq : process = owner
      · subst heq
        have hdelivered := howed.die_spared hspares
        have hlater := hdelivered.execute howner (by simp [Regrants]) hrest
        simpa using hlater
      · rw [spares, if_neg heq, ← howed.waitersOf_die heq] at hspares
        have hlater := ih (howed.die_other heq) hspares hrest
        simpa [Ne.symm heq] using hlater

end Owed

end Dispatcher

end Library
