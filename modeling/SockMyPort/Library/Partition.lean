/-
# Queues that partition the known processes

When every known process is in exactly one queue, once, and the blocked processes
are those that wait, an operation keeps this as long as it takes a process out of
a queue that it is in, and a dying process is not the heir of its own keys.
-/

import SockMyPort.Library.Dispatcher

namespace Library.Dispatcher

universe u v

variable {κ : Type u} {α : Type v} [DecidableEq κ] [DecidableEq α]

/-! ## Lists and multisets -/

/-- Dropping the node of a process drops the process from the list of processes. -/
theorem coe_map_eraseP {β : Type*} (node : β → α) (list : List β) (process : α) :
    (((list.eraseP fun entry => node entry = process).map node : List α) : Multiset α) =
      (list.map node : Multiset α).erase process := by
  induction list with
  | nil => rfl
  | cons entry list ih =>
      by_cases heq : node entry = process
      · simp [heq]
      · simp only [List.eraseP_cons, heq, decide_false, cond_false, List.map_cons,
          ← Multiset.cons_coe, ih]
        rw [Multiset.erase_cons_tail _ heq]

theorem coe_eraseP (list : List α) (process : α) :
    ((list.eraseP fun other => other = process : List α) : Multiset α) =
      (list : Multiset α).erase process := by
  simpa using coe_map_eraseP id list process

omit [DecidableEq α] in
theorem coe_append_singleton (list : List α) (process : α) :
    ((list ++ [process] : List α) : Multiset α) = process ::ₘ (list : Multiset α) :=
  Multiset.coe_eq_coe.mpr (List.perm_append_singleton process list)

/-- Moving an element between two summands keeps the sum. -/
theorem erase_add_cons {process : α} {source target : Multiset α} (hmem : process ∈ source) :
    source.erase process + (process ::ₘ target) = source + target := by
  obtain ⟨rest, rfl⟩ := Multiset.exists_cons_of_mem hmem
  simp

/-! ## Waking -/

omit [DecidableEq α] in
theorem mem_waiting_of_firstWaiter {dispatcher : Dispatcher κ α} {key : κ} {process : α}
    (hfirst : dispatcher.firstWaiter key = some process) :
    (⟨process, key⟩ : Wait κ α) ∈ dispatcher.waiting := by
  obtain ⟨wait, hfind, rfl⟩ := Option.map_eq_some_iff.mp hfirst
  have hkey : wait.key = key := by simpa using List.find?_some hfind
  subst hkey
  exact List.mem_of_find?_eq_some hfind

theorem wake_of_none {dispatcher : Dispatcher κ α} {key : κ} (releases : Bool)
    (hfirst : dispatcher.firstWaiter key = none) :
    dispatcher.wake key releases =
      { dispatcher with held := dispatcher.held.eraseP fun hold => hold.key = key } := by
  simp only [wake, hfirst]

theorem wake_of_some {dispatcher : Dispatcher κ α} {key : κ} {process : α} (releases : Bool)
    (hfirst : dispatcher.firstWaiter key = some process) :
    dispatcher.wake key releases =
      { dispatcher with
        waiting := dispatcher.waiting.eraseP fun wait => wait.process = process
        blocked := dispatcher.blocked.erase process
        ready := process ::ₘ dispatcher.ready
        held :=
          if releases then dispatcher.held.eraseP fun hold => hold.key = key else dispatcher.held
        turns :=
          if releases then dispatcher.turns ++ [⟨process, key⟩] else dispatcher.turns
        woken := dispatcher.woken ++ [⟨process, key⟩] } := by
  simp only [wake, hfirst]

/-- The processes that are woken when keys are released one after the other. -/
def heirs (dispatcher : Dispatcher κ α) : List κ → List α
  | [] => []
  | key :: keys => (dispatcher.firstWaiter key).toList ++ (dispatcher.wake key true).heirs keys

/-- What every waking keeps is kept while keys are released. -/
theorem releaseKeys_keep (inv : Dispatcher κ α → Prop)
    (keep : ∀ {dispatcher : Dispatcher κ α} {key : κ}, inv dispatcher →
      inv (dispatcher.wake key true))
    {dispatcher : Dispatcher κ α} (keys : List κ) (hinv : inv dispatcher) :
    inv (dispatcher.releaseKeys keys) := by
  induction keys generalizing dispatcher with
  | nil => exact hinv
  | cons key keys ih => exact ih (keep hinv)

theorem waiting_wake_subset (dispatcher : Dispatcher κ α) (key : κ) (releases : Bool) :
    (dispatcher.wake key releases).waiting ⊆ dispatcher.waiting := by
  cases hfirst : dispatcher.firstWaiter key with
  | none =>
      rw [wake_of_none releases hfirst]
      exact fun _ hmem => hmem
  | some process =>
      rw [wake_of_some releases hfirst]
      exact List.eraseP_subset

/-- Only a process that waits is an heir. -/
theorem exists_wait_of_mem_heirs {dispatcher : Dispatcher κ α} {keys : List κ} {process : α}
    (hmem : process ∈ dispatcher.heirs keys) :
    ∃ wait ∈ dispatcher.waiting, wait.process = process := by
  induction keys generalizing dispatcher with
  | nil => cases hmem
  | cons key keys ih =>
      rcases List.mem_append.mp hmem with hhead | htail
      · exact ⟨_, mem_waiting_of_firstWaiter (Option.mem_toList.mp hhead), rfl⟩
      · obtain ⟨wait, hwait, hprocess⟩ := ih htail
        exact ⟨wait, waiting_wake_subset _ _ _ hwait, hprocess⟩

/-- Releasing keys does not look at the running processes. -/
theorem releaseKeys_running (dispatcher : Dispatcher κ α) (keys : List κ) (running : Multiset α) :
    ({ dispatcher with running } : Dispatcher κ α).releaseKeys keys =
      { dispatcher.releaseKeys keys with running } := by
  induction keys generalizing dispatcher with
  | nil => rfl
  | cons key keys ih =>
      have hwake : ({ dispatcher with running } : Dispatcher κ α).wake key true =
          { dispatcher.wake key true with running } := by
        cases hfirst : dispatcher.firstWaiter key with
        | none =>
            rw [wake_of_none true hfirst]
            exact wake_of_none true hfirst
        | some process =>
            rw [wake_of_some true hfirst]
            exact wake_of_some true hfirst
      exact (congrArg (releaseKeys · keys) hwake).trans (ih _)

/-! ## Processes that are not the system -/

/-- The system is in no queue, is not connected and waits for nothing. -/
structure Genuine (system : α) (dispatcher : Dispatcher κ α) : Prop where
  queues : system ∉ dispatcher.fresh + dispatcher.ready + dispatcher.running
  connected : system ∉ dispatcher.connected
  waiting : ∀ wait ∈ dispatcher.waiting, wait.process ≠ system

namespace Genuine

variable {system : α} {dispatcher : Dispatcher κ α}

theorem wake (hgenuine : dispatcher.Genuine system) (key : κ) (releases : Bool) :
    (dispatcher.wake key releases).Genuine system := by
  cases hfirst : dispatcher.firstWaiter key with
  | none =>
      rw [wake_of_none releases hfirst]
      exact ⟨hgenuine.queues, hgenuine.connected, hgenuine.waiting⟩
  | some process =>
      have hne := hgenuine.waiting _ (mem_waiting_of_firstWaiter hfirst)
      rw [wake_of_some releases hfirst]
      refine ⟨?_, hgenuine.connected, fun wait hwait =>
        hgenuine.waiting wait (List.eraseP_subset hwait)⟩
      have hqueues := hgenuine.queues
      simp only [Multiset.mem_add, Multiset.mem_cons, not_or] at hqueues ⊢
      exact ⟨⟨hqueues.1.1, hne.symm, hqueues.1.2⟩, hqueues.2⟩

omit [DecidableEq κ] in
theorem leave (hgenuine : dispatcher.Genuine system) (process : α) :
    (dispatcher.leave process).Genuine system :=
  ⟨hgenuine.queues, fun hmem => hgenuine.connected (Multiset.mem_of_mem_filter hmem),
    fun wait hwait => hgenuine.waiting wait (List.eraseP_subset hwait)⟩

theorem release (hgenuine : dispatcher.Genuine system) (process : α) :
    (dispatcher.release process).Genuine system :=
  (releaseKeys_keep (Genuine system) (fun h => h.wake _ _) _ hgenuine).leave process

omit [DecidableEq κ] [DecidableEq α] in
/-- Smaller queues are genuine. -/
theorem shrink {fresh ready running : Multiset α} (blocked : Multiset α)
    (hgenuine : dispatcher.Genuine system) (hfresh : fresh ⊆ dispatcher.fresh)
    (hready : ready ⊆ dispatcher.ready) (hrunning : running ⊆ dispatcher.running) :
    ({ dispatcher with fresh, ready, running, blocked } : Dispatcher κ α).Genuine system := by
  refine ⟨fun hmem => hgenuine.queues ?_, hgenuine.connected, hgenuine.waiting⟩
  simp only [Multiset.mem_add] at hmem ⊢
  exact hmem.imp (Or.imp (@hfresh _) (@hready _)) (@hrunning _)

omit [DecidableEq κ] in
theorem block (hgenuine : dispatcher.Genuine system) {process : α} (hne : process ≠ system)
    (place : Place) (key : κ) : (dispatcher.block place process key).Genuine system := by
  have hwaiting : ∀ wait ∈ dispatcher.waiting ++ [⟨process, key⟩], wait.process ≠ system := by
    intro wait hwait
    rcases List.mem_append.mp hwait with hold | hnew
    · exact hgenuine.waiting wait hold
    · obtain rfl := List.mem_singleton.mp hnew
      exact hne
  cases place with
  | ready =>
      have hshrink := hgenuine.shrink (process ::ₘ dispatcher.blocked)
        (fun _ h => h) (Multiset.erase_subset process dispatcher.ready) (fun _ h => h)
      exact ⟨hshrink.queues, hshrink.connected, hwaiting⟩
  | running =>
      have hshrink := hgenuine.shrink (process ::ₘ dispatcher.blocked)
        (fun _ h => h) (fun _ h => h) (Multiset.erase_subset process dispatcher.running)
      exact ⟨hshrink.queues, hshrink.connected, hwaiting⟩

/-- No operation brings the system in. -/
theorem perform {operation : Operation κ α} {next : Dispatcher κ α}
    (hgenuine : dispatcher.Genuine system)
    (hperform : Dispatcher.perform system dispatcher operation = some next) :
    next.Genuine system := by
  have hqueues := hgenuine.queues
  simp only [Multiset.mem_add, not_or] at hqueues
  cases operation with
  | enter process greeted =>
      obtain ⟨⟨hne, -⟩, rfl⟩ := Option.ite_some_none_eq_some.mp hperform
      cases greeted
      all_goals
        refine ⟨?_, ?_, hgenuine.waiting⟩
        · simpa [Dispatcher.enter, endTurns, Ne.symm hne, not_or] using hqueues
        · simpa [Dispatcher.enter, endTurns, Ne.symm hne] using hgenuine.connected
  | hold key holder =>
      obtain rfl := Option.some.inj hperform
      exact ⟨hgenuine.queues, hgenuine.connected, hgenuine.waiting⟩
  | wake key releases =>
      obtain ⟨-, rfl⟩ := Option.ite_some_none_eq_some.mp hperform
      exact hgenuine.wake key releases
  | die process =>
      obtain ⟨-, rfl⟩ := Option.ite_some_none_eq_some.mp hperform
      exact (hgenuine.shrink _ (Multiset.erase_subset _ _) (Multiset.erase_subset _ _)
        (Multiset.erase_subset _ _)).release process
  | finish process =>
      obtain ⟨-, rfl⟩ := Option.ite_some_none_eq_some.mp hperform
      exact (hgenuine.shrink _ (fun _ h => h) (fun _ h => h)
        (Multiset.erase_subset _ _)).release process
  | enlist =>
      obtain rfl := Option.some.inj hperform
      refine ⟨?_, hgenuine.connected, hgenuine.waiting⟩
      simpa [Dispatcher.enlist, not_or] using ⟨⟨hqueues.1.2, hqueues.1.1⟩, hqueues.2⟩
  | block process key =>
      obtain ⟨⟨hne, -⟩, rfl⟩ := Option.ite_some_none_eq_some.mp hperform
      exact hgenuine.block hne .running key
  | claim place process key =>
      obtain ⟨⟨hne, -⟩, rfl⟩ := Option.ite_some_none_eq_some.mp hperform
      simp only [Dispatcher.claim]
      split
      · have hblock := hgenuine.block hne place key
        exact ⟨hblock.queues, hblock.connected, hblock.waiting⟩
      · exact ⟨hgenuine.queues, hgenuine.connected, hgenuine.waiting⟩
  | seize process key =>
      obtain rfl := Option.some.inj hperform
      simp only [Dispatcher.seize]
      split
      · exact hgenuine
      · exact ⟨hgenuine.queues, hgenuine.connected, hgenuine.waiting⟩
  | preempt process =>
      obtain ⟨hne, rfl⟩ := Option.ite_some_none_eq_some.mp hperform
      refine ⟨?_, hgenuine.connected, hgenuine.waiting⟩
      simp only [Dispatcher.preempt, Multiset.mem_add, Multiset.mem_cons, not_or]
      exact ⟨⟨hqueues.1.1, hne.symm, hqueues.1.2⟩, fun h => hqueues.2 (Multiset.mem_of_mem_erase h)⟩
  | dispatch process =>
      obtain ⟨⟨hready, -⟩, rfl⟩ := Option.ite_some_none_eq_some.mp hperform
      have hne : system ≠ process := fun heq => hqueues.1.2 (heq ▸ hready)
      refine ⟨?_, hgenuine.connected, hgenuine.waiting⟩
      simp only [Dispatcher.dispatch, Multiset.mem_add, Multiset.mem_cons, not_or]
      exact ⟨⟨hqueues.1.1, fun h => hqueues.1.2 (Multiset.mem_of_mem_erase h)⟩, hne, hqueues.2⟩
  | act process =>
      obtain rfl := Option.some.inj hperform
      exact ⟨hgenuine.queues, hgenuine.connected, hgenuine.waiting⟩

end Genuine

/-! ## The partition -/

/-- Every known process is in exactly one queue, once, and connected; the blocked
processes are those that wait, each with one node. -/
structure Partitioned (dispatcher : Dispatcher κ α) : Prop where
  queues : dispatcher.fresh + dispatcher.ready + dispatcher.running + dispatcher.blocked =
    dispatcher.known
  nodup : dispatcher.known.Nodup
  waiting : (dispatcher.waiting.map Wait.process : Multiset α) = dispatcher.blocked
  connected : ∀ process ∈ dispatcher.known, process ∈ dispatcher.connected

/-- The same while a process is being taken out: it is in no queue and may still
wait. -/
structure PartitionedBut (gone : α) (dispatcher : Dispatcher κ α) : Prop where
  queues : dispatcher.fresh + dispatcher.ready + dispatcher.running + dispatcher.blocked =
    dispatcher.known.erase gone
  nodup : dispatcher.known.Nodup
  waiting : (dispatcher.waiting.map Wait.process : Multiset α).erase gone = dispatcher.blocked
  connected : ∀ process ∈ dispatcher.known, process ∈ dispatcher.connected

/-- The operation takes a process out of a queue only if it is there, and a dying
process is not woken by the release of its own keys. -/
def Orderly (dispatcher : Dispatcher κ α) : Operation κ α → Prop
  | .enter _ greeted => greeted = true
  | .die process => process ∉ (dispatcher.bury process).heirs (dispatcher.keysOf process)
  | .finish process => process ∈ dispatcher.running
  | .block process _ => process ∈ dispatcher.running
  | .claim place process key => key ∈ dispatcher.keys → process ∈ dispatcher.processes place
  | .preempt process => process ∈ dispatcher.running
  | _ => True

instance (dispatcher : Dispatcher κ α) :
    (operation : Operation κ α) → Decidable (dispatcher.Orderly operation)
  | .enter _ _ => inferInstanceAs (Decidable (_ = _))
  | .hold _ _ => .isTrue trivial
  | .wake _ _ => .isTrue trivial
  | .die _ => inferInstanceAs (Decidable (_ ∉ _))
  | .finish _ => inferInstanceAs (Decidable (_ ∈ _))
  | .enlist => .isTrue trivial
  | .block _ _ => inferInstanceAs (Decidable (_ ∈ _))
  | .claim _ _ _ => inferInstanceAs (Decidable (_ ∈ _ → _ ∈ _))
  | .seize _ _ => .isTrue trivial
  | .preempt _ => inferInstanceAs (Decidable (_ ∈ _))
  | .dispatch _ => .isTrue trivial
  | .act _ => .isTrue trivial

namespace PartitionedBut

variable {gone : α} {dispatcher : Dispatcher κ α}

theorem wake (hbut : dispatcher.PartitionedBut gone) {key : κ}
    (hheir : dispatcher.firstWaiter key ≠ some gone) (releases : Bool) :
    (dispatcher.wake key releases).PartitionedBut gone := by
  cases hfirst : dispatcher.firstWaiter key with
  | none =>
      rw [wake_of_none releases hfirst]
      exact ⟨hbut.queues, hbut.nodup, hbut.waiting, hbut.connected⟩
  | some process =>
      have hne : process ≠ gone := fun heq => hheir (heq ▸ hfirst)
      have hblocked : process ∈ dispatcher.blocked := by
        rw [← hbut.waiting, Multiset.mem_erase_of_ne hne]
        exact Multiset.mem_coe.mpr (List.mem_map.mpr ⟨_, mem_waiting_of_firstWaiter hfirst, rfl⟩)
      rw [wake_of_some releases hfirst]
      refine ⟨?_, hbut.nodup, ?_, hbut.connected⟩
      · rw [← hbut.queues]
        calc dispatcher.fresh + process ::ₘ dispatcher.ready + dispatcher.running +
              dispatcher.blocked.erase process
            = dispatcher.fresh + dispatcher.running +
                (dispatcher.blocked.erase process + process ::ₘ dispatcher.ready) := by abel
          _ = dispatcher.fresh + dispatcher.running +
                (dispatcher.blocked + dispatcher.ready) := by rw [erase_add_cons hblocked]
          _ = _ := by abel
      · rw [coe_map_eraseP, Multiset.erase_comm, hbut.waiting]

theorem releaseKeys (hbut : dispatcher.PartitionedBut gone) {keys : List κ}
    (hheirs : gone ∉ dispatcher.heirs keys) :
    (dispatcher.releaseKeys keys).PartitionedBut gone := by
  induction keys generalizing dispatcher with
  | nil => exact hbut
  | cons key keys ih =>
      simp only [heirs, List.mem_append, Option.mem_toList, not_or] at hheirs
      exact ih (hbut.wake hheirs.1 true) hheirs.2

omit [DecidableEq κ] in
/-- When the process is forgotten the rest is a partition. -/
theorem leave (hbut : dispatcher.PartitionedBut gone) : (dispatcher.leave gone).Partitioned := by
  refine ⟨hbut.queues, hbut.nodup.erase gone, ?_, fun process hmem => ?_⟩
  · exact (coe_map_eraseP Wait.process dispatcher.waiting gone).trans hbut.waiting
  · obtain ⟨hne, hknown⟩ := hbut.nodup.mem_erase_iff.mp hmem
    exact Multiset.mem_filter.mpr ⟨hbut.connected process hknown, hne⟩

theorem release (hbut : dispatcher.PartitionedBut gone)
    (hheirs : gone ∉ dispatcher.heirs (dispatcher.keysOf gone)) :
    (dispatcher.release gone).Partitioned :=
  (hbut.releaseKeys hheirs).leave

end PartitionedBut

namespace Partitioned

variable {dispatcher : Dispatcher κ α}

omit [DecidableEq κ] in
/-- A process is in no more than one queue, and once. -/
theorem count_le_one (hpart : dispatcher.Partitioned) (process : α) :
    dispatcher.fresh.count process + dispatcher.ready.count process +
      dispatcher.running.count process + dispatcher.blocked.count process ≤ 1 := by
  have hnodup := Multiset.nodup_iff_count_le_one.mp hpart.nodup process
  rw [← hpart.queues] at hnodup
  simpa [Multiset.count_add] using hnodup

omit [DecidableEq κ] [DecidableEq α] in
/-- The processes of a queue are known. -/
theorem known_of_mem (hpart : dispatcher.Partitioned) {process : α}
    (hmem : process ∈ dispatcher.fresh + dispatcher.ready + dispatcher.running +
      dispatcher.blocked) : process ∈ dispatcher.known :=
  hpart.queues ▸ hmem

omit [DecidableEq κ] in
theorem not_waiting_of_running (hpart : dispatcher.Partitioned) {process : α}
    (hrunning : process ∈ dispatcher.running) :
    ¬ ∃ wait ∈ dispatcher.waiting, wait.process = process := by
  rintro ⟨wait, hwait, rfl⟩
  have hblocked : wait.process ∈ dispatcher.blocked := by
    rw [← hpart.waiting]
    exact Multiset.mem_coe.mpr (List.mem_map_of_mem hwait)
  have hle := hpart.count_le_one wait.process
  have hone := Multiset.one_le_count_iff_mem.mpr hblocked
  have hone' := Multiset.one_le_count_iff_mem.mpr hrunning
  omega

theorem wake (hpart : dispatcher.Partitioned) (key : κ) (releases : Bool) :
    (dispatcher.wake key releases).Partitioned := by
  cases hfirst : dispatcher.firstWaiter key with
  | none =>
      rw [wake_of_none releases hfirst]
      exact ⟨hpart.queues, hpart.nodup, hpart.waiting, hpart.connected⟩
  | some process =>
      have hblocked : process ∈ dispatcher.blocked := by
        rw [← hpart.waiting]
        exact Multiset.mem_coe.mpr (List.mem_map.mpr ⟨_, mem_waiting_of_firstWaiter hfirst, rfl⟩)
      rw [wake_of_some releases hfirst]
      refine ⟨?_, hpart.nodup, ?_, hpart.connected⟩
      · rw [← hpart.queues]
        calc dispatcher.fresh + process ::ₘ dispatcher.ready + dispatcher.running +
              dispatcher.blocked.erase process
            = dispatcher.fresh + dispatcher.running +
                (dispatcher.blocked.erase process + process ::ₘ dispatcher.ready) := by abel
          _ = dispatcher.fresh + dispatcher.running +
                (dispatcher.blocked + dispatcher.ready) := by rw [erase_add_cons hblocked]
          _ = _ := by abel
      · rw [coe_map_eraseP, hpart.waiting]

omit [DecidableEq κ] in
/-- A buried process is in no queue. -/
theorem bury (hpart : dispatcher.Partitioned) (process : α) :
    (dispatcher.bury process).PartitionedBut process := by
  refine ⟨?_, hpart.nodup, congrArg (Multiset.erase · process) hpart.waiting, hpart.connected⟩
  have hle := hpart.count_le_one process
  refine Eq.trans ?_ (congrArg (Multiset.erase · process) hpart.queues)
  ext other
  by_cases heq : other = process
  · subst heq
    simp only [Dispatcher.bury, Multiset.count_add, Multiset.count_erase_self]
    omega
  · simp [Dispatcher.bury, Multiset.count_erase_of_ne heq]

theorem die (hpart : dispatcher.Partitioned) {process : α}
    (hheirs : process ∉ (dispatcher.bury process).heirs (dispatcher.keysOf process)) :
    (dispatcher.die process).Partitioned :=
  (hpart.bury process).release hheirs

theorem finish (hpart : dispatcher.Partitioned) {process : α}
    (hrunning : process ∈ dispatcher.running) : (dispatcher.finish process).Partitioned := by
  have hnot := hpart.not_waiting_of_running hrunning
  have hbut : PartitionedBut process
      { dispatcher with running := dispatcher.running.erase process } := by
    refine ⟨?_, hpart.nodup, ?_, hpart.connected⟩
    · rw [← hpart.queues, Multiset.erase_add_left_pos _ (Multiset.mem_add.mpr (.inr hrunning)),
        Multiset.erase_add_right_pos _ hrunning]
    · rw [Multiset.erase_of_notMem, hpart.waiting]
      exact fun hmem => hnot (List.mem_map.mp (Multiset.mem_coe.mp hmem))
  refine hbut.release fun hmem => hnot ?_
  obtain ⟨wait, hwait, hprocess⟩ := exists_wait_of_mem_heirs hmem
  exact ⟨wait, hwait, hprocess⟩

omit [DecidableEq κ] in
theorem block (hpart : dispatcher.Partitioned) (place : Place) {process : α} (key : κ)
    (hmem : process ∈ dispatcher.processes place) :
    (dispatcher.block place process key).Partitioned := by
  have hwaiting : ((dispatcher.waiting ++ [Wait.mk process key]).map Wait.process : Multiset α) =
      process ::ₘ dispatcher.blocked := by
    rw [List.map_append, ← Multiset.coe_add, hpart.waiting, add_comm]
    rfl
  cases place with
  | ready =>
      refine ⟨Eq.trans ?_ hpart.queues, hpart.nodup, hwaiting, hpart.connected⟩
      calc dispatcher.fresh + dispatcher.ready.erase process + dispatcher.running +
            process ::ₘ dispatcher.blocked
          = dispatcher.fresh + dispatcher.running +
              (dispatcher.ready.erase process + process ::ₘ dispatcher.blocked) := by abel
        _ = dispatcher.fresh + dispatcher.running +
              (dispatcher.ready + dispatcher.blocked) := by
                rw [erase_add_cons (show process ∈ dispatcher.ready from hmem)]
        _ = _ := by abel
  | running =>
      refine ⟨Eq.trans ?_ hpart.queues, hpart.nodup, hwaiting, hpart.connected⟩
      calc dispatcher.fresh + dispatcher.ready + dispatcher.running.erase process +
            process ::ₘ dispatcher.blocked
          = dispatcher.fresh + dispatcher.ready +
              (dispatcher.running.erase process + process ::ₘ dispatcher.blocked) := by abel
        _ = dispatcher.fresh + dispatcher.ready +
              (dispatcher.running + dispatcher.blocked) := by
                rw [erase_add_cons (show process ∈ dispatcher.running from hmem)]
        _ = _ := by abel

/-- **Orderly operations keep the partition.** -/
theorem perform {system : α} (hpart : dispatcher.Partitioned) {operation : Operation κ α}
    (horderly : dispatcher.Orderly operation) {next : Dispatcher κ α}
    (hperform : Dispatcher.perform system dispatcher operation = some next) :
    next.Partitioned := by
  cases operation with
  | enter process greeted =>
      obtain ⟨⟨-, hnew⟩, rfl⟩ := Option.ite_some_none_eq_some.mp hperform
      obtain rfl : greeted = true := horderly
      have hfresh : process ∉ dispatcher.known := fun hmem => hnew (hpart.connected process hmem)
      refine ⟨?_, Multiset.nodup_cons.mpr ⟨hfresh, hpart.nodup⟩, hpart.waiting, ?_⟩
      · simp [Dispatcher.enter, ← hpart.queues]
      · intro other hmem
        rcases Multiset.mem_cons.mp hmem with rfl | hknown
        · exact Multiset.mem_cons_self _ _
        · exact Multiset.mem_cons_of_mem (hpart.connected other hknown)
  | hold key holder =>
      obtain rfl := Option.some.inj hperform
      exact ⟨hpart.queues, hpart.nodup, hpart.waiting, hpart.connected⟩
  | wake key releases =>
      obtain ⟨-, rfl⟩ := Option.ite_some_none_eq_some.mp hperform
      exact hpart.wake key releases
  | die process =>
      obtain ⟨-, rfl⟩ := Option.ite_some_none_eq_some.mp hperform
      exact hpart.die horderly
  | finish process =>
      obtain ⟨-, rfl⟩ := Option.ite_some_none_eq_some.mp hperform
      exact hpart.finish horderly
  | enlist =>
      obtain rfl := Option.some.inj hperform
      refine ⟨Eq.trans ?_ hpart.queues, hpart.nodup, hpart.waiting, hpart.connected⟩
      simp only [Dispatcher.enlist]
      abel
  | block process key =>
      obtain ⟨-, rfl⟩ := Option.ite_some_none_eq_some.mp hperform
      exact hpart.block .running key horderly
  | claim place process key =>
      obtain ⟨-, rfl⟩ := Option.ite_some_none_eq_some.mp hperform
      simp only [Dispatcher.claim]
      split
      · have hblock := hpart.block place key (horderly ‹_›)
        exact ⟨hblock.queues, hblock.nodup, hblock.waiting, hblock.connected⟩
      · exact ⟨hpart.queues, hpart.nodup, hpart.waiting, hpart.connected⟩
  | seize process key =>
      obtain rfl := Option.some.inj hperform
      simp only [Dispatcher.seize]
      split
      · exact hpart
      · exact ⟨hpart.queues, hpart.nodup, hpart.waiting, hpart.connected⟩
  | preempt process =>
      obtain ⟨-, rfl⟩ := Option.ite_some_none_eq_some.mp hperform
      refine ⟨Eq.trans ?_ hpart.queues, hpart.nodup, hpart.waiting, hpart.connected⟩
      calc dispatcher.fresh + process ::ₘ dispatcher.ready + dispatcher.running.erase process +
            dispatcher.blocked
          = dispatcher.fresh + dispatcher.blocked +
              (dispatcher.running.erase process + process ::ₘ dispatcher.ready) := by abel
        _ = dispatcher.fresh + dispatcher.blocked +
              (dispatcher.running + dispatcher.ready) := by rw [erase_add_cons horderly]
        _ = _ := by abel
  | dispatch process =>
      obtain ⟨⟨hready, -⟩, rfl⟩ := Option.ite_some_none_eq_some.mp hperform
      refine ⟨Eq.trans ?_ hpart.queues, hpart.nodup, hpart.waiting, hpart.connected⟩
      calc dispatcher.fresh + dispatcher.ready.erase process + process ::ₘ dispatcher.running +
            dispatcher.blocked
          = dispatcher.fresh + dispatcher.blocked +
              (dispatcher.ready.erase process + process ::ₘ dispatcher.running) := by abel
        _ = dispatcher.fresh + dispatcher.blocked +
              (dispatcher.ready + dispatcher.running) := by rw [erase_add_cons hready]
        _ = _ := by abel
  | act process =>
      obtain rfl := Option.some.inj hperform
      exact ⟨hpart.queues, hpart.nodup, hpart.waiting, hpart.connected⟩

end Partitioned

end Library.Dispatcher
