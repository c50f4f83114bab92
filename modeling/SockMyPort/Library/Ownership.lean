/-
# Who owns a key

A key that a process holds has one node, and the process is known. Nodes are added
for free keys only, and a process that leaves takes its nodes with it, so that the
only condition is on the operation that adds a node without looking.
-/

import SockMyPort.Library.Handover

namespace Library.Dispatcher

universe u v

variable {κ : Type u} {α : Type v} [DecidableEq κ] [DecidableEq α]
variable {dispatcher next : Dispatcher κ α} {system : α}

/-- Every node is the system's, or the only one of its key and a known process's. -/
def Owned (system : α) (dispatcher : Dispatcher κ α) : Prop :=
  ∀ hold ∈ dispatcher.held, hold.holder = system ∨
    (hold.holder ∈ dispatcher.known ∧
      (dispatcher.held.filter fun other => other.key = hold.key) = [hold])

/-- A key has one node. -/
def Distinct (dispatcher : Dispatcher κ α) : Prop := dispatcher.keys.Nodup

/-- A node that is added without looking is a known process's, and its key is free. -/
def HoldsFree (dispatcher : Dispatcher κ α) : Operation κ α → Prop
  | .hold key holder => key ∉ dispatcher.keys ∧ holder ∈ dispatcher.known
  | _ => True

/-! ## Released keys -/

theorem held_wake_sublist (dispatcher : Dispatcher κ α) (key : κ) (releases : Bool) :
    (dispatcher.wake key releases).held.Sublist dispatcher.held := by
  cases hfirst : dispatcher.firstWaiter key with
  | none =>
      rw [wake_of_none releases hfirst]
      exact List.eraseP_sublist
  | some process =>
      rw [wake_of_some releases hfirst]
      cases releases with
      | true => exact List.eraseP_sublist
      | false => exact List.Sublist.refl _

/-- A release drops the first node of the key, whether or not somebody waits. -/
theorem held_wake_true (dispatcher : Dispatcher κ α) (key : κ) :
    (dispatcher.wake key true).held = dispatcher.held.eraseP fun hold => hold.key = key := by
  cases hfirst : dispatcher.firstWaiter key with
  | none => rw [wake_of_none true hfirst]
  | some process =>
      rw [wake_of_some true hfirst]
      rfl

theorem known_wake (dispatcher : Dispatcher κ α) (key : κ) (releases : Bool) :
    (dispatcher.wake key releases).known = dispatcher.known := by
  cases hfirst : dispatcher.firstWaiter key with
  | none => rw [wake_of_none releases hfirst]
  | some process => rw [wake_of_some releases hfirst]

theorem held_releaseKeys_sublist (dispatcher : Dispatcher κ α) (keys : List κ) :
    (dispatcher.releaseKeys keys).held.Sublist dispatcher.held :=
  releaseKeys_keep (fun released => released.held.Sublist dispatcher.held)
    (fun hsub => (held_wake_sublist _ _ _).trans hsub) keys (List.Sublist.refl _)

theorem known_releaseKeys (dispatcher : Dispatcher κ α) (keys : List κ) :
    (dispatcher.releaseKeys keys).known = dispatcher.known := by
  refine releaseKeys_keep (fun released => released.known = dispatcher.known)
    (fun hsame => ?_) keys rfl
  rw [known_wake, hsame]

theorem known_release (dispatcher : Dispatcher κ α) (process : α) :
    (dispatcher.release process).known = dispatcher.known.erase process :=
  congrArg (·.erase process) (known_releaseKeys _ _)

theorem held_release_sublist (dispatcher : Dispatcher κ α) (process : α) :
    (dispatcher.release process).held.Sublist dispatcher.held :=
  List.eraseP_sublist.trans (held_releaseKeys_sublist _ _)

namespace Owned

/-- Dropping nodes keeps the rest owned, while their holders are known. -/
theorem shrink (howned : dispatcher.Owned system)
    (hheld : next.held.Sublist dispatcher.held)
    (hknown : ∀ hold ∈ next.held, hold.holder ≠ system → hold.holder ∈ dispatcher.known →
      hold.holder ∈ next.known) : next.Owned system := by
  intro hold hmem
  by_cases hsystem : hold.holder = system
  · exact .inl hsystem
  obtain hsame | ⟨hmember, honly⟩ := howned hold (hheld.subset hmem)
  · exact absurd hsame hsystem
  refine .inr ⟨hknown hold hmem hsystem hmember, ?_⟩
  have hsub := hheld.filter fun other => other.key = hold.key
  rw [honly] at hsub
  have hin : hold ∈ next.held.filter fun other => other.key = hold.key :=
    List.mem_filter.mpr ⟨hmem, decide_eq_true rfl⟩
  obtain hnil | hone := List.sublist_singleton.mp hsub
  · rw [hnil] at hin
    cases hin
  · exact hone

omit [DecidableEq α] in
/-- Adding a node for a free key. -/
theorem grow (howned : dispatcher.Owned system) {key : κ} {holder : α}
    (hfree : key ∉ dispatcher.keys) (hholder : holder = system ∨ holder ∈ next.known)
    (hheld : next.held = dispatcher.held ++ [⟨key, holder⟩])
    (hknown : ∀ process ∈ dispatcher.known, process ∈ next.known) : next.Owned system := by
  have hnone : (dispatcher.held.filter fun other => other.key = key) = [] :=
    List.filter_eq_nil_iff.mpr fun other hmem heq =>
      hfree (of_decide_eq_true heq ▸ List.mem_map_of_mem hmem)
  intro hold hmem
  rw [hheld] at hmem ⊢
  rcases List.mem_append.mp hmem with hbefore | hnew
  · obtain hsystem | ⟨hmember, honly⟩ := howned hold hbefore
    · exact .inl hsystem
    · refine .inr ⟨hknown _ hmember, ?_⟩
      have hne : key ≠ hold.key := fun heq => hfree (heq ▸ List.mem_map_of_mem hbefore)
      rw [List.filter_append, honly, List.filter_cons_of_neg (by simpa using hne)]
      rfl
  · obtain rfl := List.mem_singleton.mp hnew
    refine hholder.imp_right fun hmember => ⟨hmember, ?_⟩
    simp [List.filter_append, hnone]

theorem wake (howned : dispatcher.Owned system) (key : κ) (releases : Bool) :
    (dispatcher.wake key releases).Owned system :=
  howned.shrink (held_wake_sublist _ _ _) fun _ _ _ hmember => by rwa [known_wake]

/-- After its release no node of a key is left, unless the system has others. -/
theorem holder_of_mem_releaseKeys (howned : dispatcher.Owned system) {keys : List κ}
    {hold : Hold κ α} (hmem : hold ∈ (dispatcher.releaseKeys keys).held)
    (hkey : hold.key ∈ keys) : hold.holder = system := by
  induction keys generalizing dispatcher with
  | nil => cases hkey
  | cons key keys ih =>
      rcases List.mem_cons.mp hkey with heq | hlater
      · have hwoken : hold ∈ (dispatcher.wake key true).held :=
          (held_releaseKeys_sublist _ keys).subset hmem
        rw [held_wake_true] at hwoken
        obtain hsystem | ⟨-, honly⟩ := howned hold (List.mem_of_mem_eraseP hwoken)
        · exact hsystem
        have hgone : ((dispatcher.held.eraseP fun other => other.key = key).filter
            fun other => other.key = key) = [] := by
          rw [filter_eraseP_self, ← heq, honly]
          rfl
        have hin : hold ∈ (dispatcher.held.eraseP fun other => other.key = key).filter
            fun other => other.key = key := List.mem_filter.mpr ⟨hwoken, decide_eq_true heq⟩
        rw [hgone] at hin
        cases hin
      · exact ih (howned.wake key true) hmem hlater

/-- A process that releases its keys keeps none. -/
theorem release (howned : dispatcher.Owned system) (process : α) :
    (dispatcher.release process).Owned system := by
  refine howned.shrink (held_release_sublist _ _) fun hold hmem hsystem hmember => ?_
  rw [known_release]
  refine (Multiset.mem_erase_of_ne fun heq => hsystem ?_).mpr hmember
  have hreleased : hold ∈ (dispatcher.releaseKeys (dispatcher.keysOf process)).held :=
    List.mem_of_mem_eraseP hmem
  refine howned.holder_of_mem_releaseKeys hreleased (List.mem_map_of_mem (List.mem_filter.mpr
    ⟨(held_releaseKeys_sublist _ _).subset hreleased, decide_eq_true heq⟩))

omit [DecidableEq α] in
/-- A change of the queues does not matter. -/
theorem congr (howned : dispatcher.Owned system) (hheld : next.held = dispatcher.held)
    (hknown : next.known = dispatcher.known) : next.Owned system := by
  unfold Owned
  rw [hheld, hknown]
  exact howned

/-- **Ownership is kept** by every operation that adds nodes for free keys. -/
theorem perform {operation : Operation κ α} (howned : dispatcher.Owned system)
    (hholds : dispatcher.HoldsFree operation)
    (hperform : Dispatcher.perform system dispatcher operation = some next) :
    next.Owned system := by
  cases operation with
  | enter process greeted =>
      obtain ⟨-, rfl⟩ := Option.ite_some_none_eq_some.mp hperform
      have hknown : (dispatcher.enter process greeted).known = process ::ₘ dispatcher.known := by
        cases greeted <;> rfl
      have hheld : (dispatcher.enter process greeted).held = dispatcher.held := by
        cases greeted <;> rfl
      exact howned.shrink (hheld ▸ List.Sublist.refl _) fun _ _ _ hmember =>
        hknown ▸ Multiset.mem_cons_of_mem hmember
  | hold key holder =>
      obtain rfl := Option.some.inj hperform
      exact howned.grow hholds.1 (.inr hholds.2) rfl fun _ hmember => hmember
  | wake key releases =>
      obtain ⟨-, rfl⟩ := Option.ite_some_none_eq_some.mp hperform
      exact howned.wake key releases
  | die process =>
      obtain ⟨-, rfl⟩ := Option.ite_some_none_eq_some.mp hperform
      have hburied : (dispatcher.bury process).Owned system := howned.congr rfl rfl
      exact hburied.release process
  | finish process =>
      obtain ⟨-, rfl⟩ := Option.ite_some_none_eq_some.mp hperform
      have hstopped : Owned system
          { dispatcher with running := dispatcher.running.erase process } := howned.congr rfl rfl
      exact hstopped.release process
  | claim place process key =>
      obtain ⟨⟨-, hmember⟩, rfl⟩ := Option.ite_some_none_eq_some.mp hperform
      simp only [claim]
      split
      · cases place <;> exact howned.congr rfl rfl
      · exact howned.grow ‹_› (.inr hmember) rfl fun _ hmember => hmember
  | seize process key =>
      obtain rfl := Option.some.inj hperform
      simp only [seize]
      split
      · exact howned
      · rename_i hfree
        exact howned.grow (not_or.mp hfree).2 (.inl rfl) rfl fun _ hmember => hmember
  | block process key =>
      obtain ⟨-, rfl⟩ := Option.ite_some_none_eq_some.mp hperform
      exact howned.congr rfl rfl
  | preempt process =>
      obtain ⟨-, rfl⟩ := Option.ite_some_none_eq_some.mp hperform
      exact howned.congr rfl rfl
  | dispatch process =>
      obtain ⟨-, rfl⟩ := Option.ite_some_none_eq_some.mp hperform
      exact howned.congr rfl rfl
  | enlist | act process =>
      obtain rfl := Option.some.inj hperform
      exact howned.congr rfl rfl

end Owned

namespace Distinct

omit [DecidableEq κ] [DecidableEq α] in
theorem shrink (hdistinct : dispatcher.Distinct)
    (hheld : next.held.Sublist dispatcher.held) : next.Distinct :=
  List.Nodup.sublist (hheld.map Hold.key) hdistinct

omit [DecidableEq κ] [DecidableEq α] in
theorem grow (hdistinct : dispatcher.Distinct) {key : κ} {holder : α}
    (hfree : key ∉ dispatcher.keys) (hheld : next.held = dispatcher.held ++ [⟨key, holder⟩]) :
    next.Distinct := by
  rw [Distinct, keys, hheld, List.map_append]
  exact List.nodup_append'.mpr ⟨hdistinct, List.nodup_singleton _,
    List.disjoint_singleton.mpr hfree⟩

/-- **Keys stay distinct** under every operation that adds nodes for free keys. -/
theorem perform {operation : Operation κ α} (hdistinct : dispatcher.Distinct)
    (hholds : dispatcher.HoldsFree operation)
    (hperform : Dispatcher.perform system dispatcher operation = some next) : next.Distinct := by
  cases operation with
  | enter process greeted =>
      obtain ⟨-, rfl⟩ := Option.ite_some_none_eq_some.mp hperform
      cases greeted <;> exact hdistinct
  | hold key holder =>
      obtain rfl := Option.some.inj hperform
      exact hdistinct.grow hholds.1 rfl
  | wake key releases =>
      obtain ⟨-, rfl⟩ := Option.ite_some_none_eq_some.mp hperform
      exact hdistinct.shrink (held_wake_sublist _ _ _)
  | die process =>
      obtain ⟨-, rfl⟩ := Option.ite_some_none_eq_some.mp hperform
      exact hdistinct.shrink (held_release_sublist (dispatcher.bury process) process)
  | finish process =>
      obtain ⟨-, rfl⟩ := Option.ite_some_none_eq_some.mp hperform
      exact hdistinct.shrink (held_release_sublist
        { dispatcher with running := dispatcher.running.erase process } process)
  | claim place process key =>
      obtain ⟨-, rfl⟩ := Option.ite_some_none_eq_some.mp hperform
      simp only [claim]
      split
      · cases place <;> exact hdistinct
      · exact hdistinct.grow ‹_› rfl
  | seize process key =>
      obtain rfl := Option.some.inj hperform
      simp only [seize]
      split
      · exact hdistinct
      · rename_i hfree
        exact hdistinct.grow (not_or.mp hfree).2 rfl
  | block process key =>
      obtain ⟨-, rfl⟩ := Option.ite_some_none_eq_some.mp hperform
      exact hdistinct
  | preempt process =>
      obtain ⟨-, rfl⟩ := Option.ite_some_none_eq_some.mp hperform
      exact hdistinct
  | dispatch process =>
      obtain ⟨-, rfl⟩ := Option.ite_some_none_eq_some.mp hperform
      exact hdistinct
  | enlist | act process =>
      obtain rfl := Option.some.inj hperform
      exact hdistinct

end Distinct

end Library.Dispatcher
