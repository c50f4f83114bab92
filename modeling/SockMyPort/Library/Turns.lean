/-
# Turns that are passed on

A key that is released goes to no one: the process that has waited longest is woken
and has the turn to take it, and the others wait on for a key that is free. They are
served as long as the key is held or a process that is ready or running has the turn.

Only a process that gives up a turn can leave somebody without service. It may do so
when the key is held, when another process has the turn too, or when nobody waits.
-/

import SockMyPort.Library.Partition

namespace Library.Dispatcher

universe u v

variable {κ : Type u} {α : Type v} [DecidableEq κ] [DecidableEq α]

/-! ## Served keys -/

/-- A process that is ready or running has the turn to take the key. -/
def Promised (dispatcher : Dispatcher κ α) (key : κ) : Prop :=
  ∃ turn ∈ dispatcher.turns, turn.key = key ∧
    turn.process ∈ dispatcher.ready + dispatcher.running

/-- The same for another process than the one given. -/
def PromisedBut (dispatcher : Dispatcher κ α) (process : α) (key : κ) : Prop :=
  ∃ turn ∈ dispatcher.turns, turn.key = key ∧ turn.process ≠ process ∧
    turn.process ∈ dispatcher.ready + dispatcher.running

/-- Whoever waits for a free key waits for a process that has the turn to take it. -/
def Served (dispatcher : Dispatcher κ α) : Prop :=
  ∀ wait ∈ dispatcher.waiting, wait.key ∈ dispatcher.keys ∨ dispatcher.Promised wait.key

/-- Those who wait when a node of the process is dropped. -/
def waitingBut (dispatcher : Dispatcher κ α) (process : α) : List (Wait κ α) :=
  dispatcher.waiting.eraseP fun wait => wait.process = process

/-! ## The condition -/

/-- The process can give up its turns: where one of the waiters wants the key, the key
is held or another process has the turn too. -/
def CanPass (dispatcher : Dispatcher κ α) (waiters : List (Wait κ α)) (process : α) : Prop :=
  ∀ turn ∈ dispatcher.turns, turn.process = process →
    (∃ wait ∈ waiters, wait.key = turn.key) →
      turn.key ∈ dispatcher.keys ∨ dispatcher.PromisedBut process turn.key

/-- No key that is released goes to the process itself while others wait for it. -/
def Bequeaths (process : α) : Dispatcher κ α → List κ → Prop
  | _, [] => True
  | dispatcher, key :: keys =>
      (dispatcher.firstWaiter key = some process →
        ∀ wait ∈ (dispatcher.wake key true).waitingBut process, wait.key ≠ key) ∧
      Bequeaths process (dispatcher.wake key true) keys

/-- A process that ends its turns can give them up, one that leaves passes on its keys
as well, and a process waits only for a key that is held or that another has the turn
to take. -/
def HandsOn (dispatcher : Dispatcher κ α) : Operation κ α → Prop
  | .enter process greeted =>
      greeted = true ∨ dispatcher.CanPass dispatcher.waiting process
  | .die process =>
      dispatcher.CanPass (dispatcher.waitingBut process) process ∧
        (dispatcher.bury process).Bequeaths process (dispatcher.keysOf process)
  | .finish process =>
      dispatcher.CanPass (dispatcher.waitingBut process) process ∧
        ({ dispatcher with running := dispatcher.running.erase process } :
          Dispatcher κ α).Bequeaths process (dispatcher.keysOf process)
  | .block process key =>
      dispatcher.CanPass dispatcher.waiting process ∧
        (key ∈ dispatcher.keys ∨ dispatcher.PromisedBut process key)
  | .claim _ process key =>
      key ∈ dispatcher.keys → dispatcher.CanPass dispatcher.waiting process
  | .act process => dispatcher.CanPass dispatcher.waiting process
  | _ => True

instance (dispatcher : Dispatcher κ α) (process : α) (key : κ) :
    Decidable (dispatcher.PromisedBut process key) :=
  inferInstanceAs (Decidable (∃ turn ∈ dispatcher.turns, _))

instance (dispatcher : Dispatcher κ α) (waiters : List (Wait κ α)) (process : α) :
    Decidable (dispatcher.CanPass waiters process) :=
  inferInstanceAs (Decidable (∀ turn ∈ dispatcher.turns, _))

instance decidableBequeaths (process : α) :
    (dispatcher : Dispatcher κ α) → (keys : List κ) →
      Decidable (Bequeaths process dispatcher keys)
  | _, [] => .isTrue trivial
  | dispatcher, key :: keys =>
      have := decidableBequeaths process (dispatcher.wake key true) keys
      inferInstanceAs (Decidable ((_ → ∀ wait ∈ _, _) ∧ _))

instance (dispatcher : Dispatcher κ α) :
    (operation : Operation κ α) → Decidable (dispatcher.HandsOn operation)
  | .enter _ _ => inferInstanceAs (Decidable (_ = _ ∨ _))
  | .hold _ _ => .isTrue trivial
  | .wake _ _ => .isTrue trivial
  | .die _ => inferInstanceAs (Decidable (_ ∧ _))
  | .finish _ => inferInstanceAs (Decidable (_ ∧ _))
  | .enlist => .isTrue trivial
  | .block _ _ => inferInstanceAs (Decidable (_ ∧ (_ ∈ _ ∨ _)))
  | .claim _ _ _ => inferInstanceAs (Decidable (_ ∈ _ → _))
  | .seize _ _ => .isTrue trivial
  | .preempt _ => .isTrue trivial
  | .dispatch _ => .isTrue trivial
  | .act _ => inferInstanceAs (Decidable (CanPass _ _ _))

/-! ## Keeping the service -/

variable {dispatcher : Dispatcher κ α} {process : α} {key : κ}

omit [DecidableEq κ] [DecidableEq α] in
theorem PromisedBut.promised (hbut : dispatcher.PromisedBut process key) :
    dispatcher.Promised key := by
  obtain ⟨turn, hturn, hkey, -, hplace⟩ := hbut
  exact ⟨turn, hturn, hkey, hplace⟩

omit [DecidableEq κ] [DecidableEq α] in
/-- A promise lasts while its turn and the place of its process do. -/
theorem PromisedBut.mono {next : Dispatcher κ α} (hbut : dispatcher.PromisedBut process key)
    (hturns : ∀ turn ∈ dispatcher.turns, turn.process ≠ process → turn ∈ next.turns)
    (hplaces : ∀ other ∈ dispatcher.ready + dispatcher.running, other ≠ process →
      other ∈ next.ready + next.running) : next.PromisedBut process key := by
  obtain ⟨turn, hturn, hkey, hother, hplace⟩ := hbut
  exact ⟨turn, hturns turn hturn hother, hkey, hother, hplaces _ hplace hother⟩

omit [DecidableEq κ] in
/-- Who can pass on its turns leaves every waiter with a key that is held or promised
by another. -/
theorem Served.pass (hserved : dispatcher.Served) {waiters : List (Wait κ α)}
    (hsub : waiters ⊆ dispatcher.waiting) (hpass : dispatcher.CanPass waiters process)
    {wait : Wait κ α} (hwait : wait ∈ waiters) :
    wait.key ∈ dispatcher.keys ∨ dispatcher.PromisedBut process wait.key := by
  rcases hserved wait (hsub hwait) with hheld | ⟨turn, hturn, hkey, hplace⟩
  · exact .inl hheld
  · by_cases hown : turn.process = process
    · rw [← hkey]
      exact hpass turn hturn hown ⟨wait, hwait, hkey.symm⟩
    · exact .inr ⟨turn, hturn, hkey, hown, hplace⟩

omit [DecidableEq κ] [DecidableEq α] in
/-- The waiters are served after a step that keeps their keys held and the promises of
the other processes. -/
theorem Served.of_pass (dispatcher : Dispatcher κ α) {next : Dispatcher κ α} (process : α)
    (hkeys : dispatcher.keys ⊆ next.keys)
    (hturns : ∀ turn ∈ dispatcher.turns, turn.process ≠ process → turn ∈ next.turns)
    (hplaces : ∀ other ∈ dispatcher.ready + dispatcher.running, other ≠ process →
      other ∈ next.ready + next.running)
    (hwaiting : ∀ wait ∈ next.waiting,
      wait.key ∈ dispatcher.keys ∨ dispatcher.PromisedBut process wait.key) :
    next.Served := by
  intro wait hwait
  rcases hwaiting wait hwait with hheld | hbut
  · exact .inl (hkeys hheld)
  · exact .inr (hbut.mono hturns hplaces).promised

omit [DecidableEq κ] [DecidableEq α] in
/-- The waiters are served after a step that takes away no held key, no turn and no
process from the two queues, and adds no waiter. -/
theorem Served.grow {next : Dispatcher κ α} (hserved : dispatcher.Served)
    (hkeys : dispatcher.keys ⊆ next.keys) (hturns : dispatcher.turns ⊆ next.turns)
    (hplaces : ∀ other ∈ dispatcher.ready + dispatcher.running,
      other ∈ next.ready + next.running)
    (hwaiting : next.waiting ⊆ dispatcher.waiting) : next.Served := by
  intro wait hwait
  rcases hserved wait (hwaiting hwait) with hheld | ⟨turn, hturn, hkey, hplace⟩
  · exact .inl (hkeys hheld)
  · exact .inr ⟨turn, hturns hturn, hkey, hplaces _ hplace⟩

omit [DecidableEq κ] in
theorem mem_turns_endTurns {turn : Wait κ α} (hturn : turn ∈ dispatcher.turns)
    (hother : turn.process ≠ process) : turn ∈ (dispatcher.endTurns process).turns :=
  List.mem_filter.mpr ⟨hturn, decide_eq_true hother⟩

omit [DecidableEq α] in
/-- A key that is not the one taken away stays held. -/
theorem mem_keys_eraseP {held : List (Hold κ α)} {other : κ} (hmem : other ∈ held.map Hold.key)
    (hne : other ≠ key) : other ∈ (held.eraseP fun hold => hold.key = key).map Hold.key := by
  obtain ⟨hold, hhold, rfl⟩ := List.mem_map.mp hmem
  exact List.mem_map_of_mem ((List.mem_eraseP_of_neg (by simpa using hne)).mpr hhold)

omit [DecidableEq κ] [DecidableEq α] in
theorem keys_subset_append (held : List (Hold κ α)) (hold : Hold κ α) :
    held.map Hold.key ⊆ (held ++ [hold]).map Hold.key := by
  intro key hkey
  rw [List.map_append]
  exact List.mem_append_left _ hkey

omit [DecidableEq α] in
theorem firstWaiter_ne_none {wait : Wait κ α} (hwait : wait ∈ dispatcher.waiting) :
    dispatcher.firstWaiter wait.key ≠ none := by
  intro hnone
  have hfind := List.find?_eq_none.mp (Option.map_eq_none_iff.mp hnone) wait hwait
  exact hfind (decide_eq_true rfl)

/-- Waking somebody, or freeing a key that nobody waits for, keeps the service. -/
theorem Served.wake (hserved : dispatcher.Served) (key : κ) (releases : Bool) :
    (dispatcher.wake key releases).Served := by
  intro wait hwait
  have hold := waiting_wake_subset dispatcher key releases hwait
  cases hfirst : dispatcher.firstWaiter key with
  | none =>
      have hne : wait.key ≠ key := fun heq => firstWaiter_ne_none hold (heq ▸ hfirst)
      rw [wake_of_none releases hfirst]
      exact (hserved wait hold).imp (mem_keys_eraseP · hne) id
  | some heir =>
      rw [wake_of_some releases hfirst]
      cases releases with
      | false =>
          refine (hserved wait hold).imp id fun ⟨turn, hturn, hkey, hplace⟩ => ?_
          refine ⟨turn, hturn, hkey, ?_⟩
          rw [Multiset.cons_add]
          exact Multiset.mem_cons_of_mem hplace
      | true =>
          by_cases hkey : wait.key = key
          · refine .inr ⟨⟨heir, key⟩, List.mem_append_right _ (List.mem_singleton_self _),
              hkey.symm, ?_⟩
            rw [Multiset.cons_add]
            exact Multiset.mem_cons_self heir _
          · refine (hserved wait hold).imp (mem_keys_eraseP · hkey)
              fun ⟨turn, hturn, hkey, hplace⟩ => ?_
            refine ⟨turn, List.mem_append_left _ hturn, hkey, ?_⟩
            rw [Multiset.cons_add]
            exact Multiset.mem_cons_of_mem hplace

/-! ## Leaving -/

/-- While a process leaves: whoever else waits, waits for a key that is still to be
released, that another process holds, or that another has the turn to take. -/
def Handing (process : α) (keys : List κ) (dispatcher : Dispatcher κ α) : Prop :=
  ∀ wait ∈ dispatcher.waitingBut process, wait.key ∈ keys ∨
    (∃ hold ∈ dispatcher.held, hold.key = wait.key ∧ hold.holder ≠ process) ∨
    dispatcher.PromisedBut process wait.key

omit [DecidableEq κ] in
theorem Handing.start (hserved : dispatcher.Served)
    (hpass : dispatcher.CanPass (dispatcher.waitingBut process) process) :
    Handing process (dispatcher.keysOf process) dispatcher := by
  intro wait hwait
  rcases hserved.pass List.eraseP_subset hpass hwait with hheld | hbut
  · obtain ⟨hold, hhold, hkey⟩ := List.mem_map.mp hheld
    by_cases hown : hold.holder = process
    · refine .inl (List.mem_map.mpr ⟨hold, List.mem_filter.mpr ⟨hhold, ?_⟩, hkey⟩)
      exact decide_eq_true hown
    · exact .inr (.inl ⟨hold, hhold, hkey, hown⟩)
  · exact .inr (.inr hbut)

/-- Dropping a node of another process does not bring a waiter in. -/
theorem waitingBut_wake_subset (dispatcher : Dispatcher κ α) (process : α) (key : κ)
    (releases : Bool) :
    (dispatcher.wake key releases).waitingBut process ⊆ dispatcher.waitingBut process := by
  cases hfirst : dispatcher.firstWaiter key with
  | none =>
      rw [wake_of_none releases hfirst]
      exact fun _ hmem => hmem
  | some heir =>
      rw [wake_of_some releases hfirst]
      by_cases hown : heir = process
      · subst hown
        exact List.eraseP_subset
      · simp only [waitingBut]
        rw [List.eraseP_comm fun wait _ => ?_]
        · exact List.eraseP_subset
        · by_cases hwait : wait.process = heir
          · exact .inr (by simpa [hwait] using hown)
          · exact .inl (by simpa using hwait)

theorem Handing.wake {keys : List κ} (hhanding : Handing process (key :: keys) dispatcher)
    (hbequeath : dispatcher.firstWaiter key = some process →
      ∀ wait ∈ (dispatcher.wake key true).waitingBut process, wait.key ≠ key) :
    Handing process keys (dispatcher.wake key true) := by
  intro wait hwait
  have hbefore := waitingBut_wake_subset dispatcher process key true hwait
  have hold : wait ∈ dispatcher.waiting := List.eraseP_subset hbefore
  have hearlier := hhanding wait hbefore
  by_cases hkey : wait.key = key
  · -- the key is released now, and goes to somebody else
    cases hfirst : dispatcher.firstWaiter key with
    | none => exact absurd (hkey ▸ hfirst) (firstWaiter_ne_none hold)
    | some heir =>
        have hne : heir ≠ process := by
          intro heq
          exact hbequeath (heq ▸ hfirst) wait hwait hkey
        rw [wake_of_some true hfirst]
        refine .inr (.inr ⟨⟨heir, key⟩, List.mem_append_right _ (List.mem_singleton_self _),
          hkey.symm, hne, ?_⟩)
        rw [Multiset.cons_add]
        exact Multiset.mem_cons_self heir _
  · rcases hearlier with hrest | ⟨hold, hhold, heq, hother⟩ | hbut
    · exact .inl ((List.mem_cons.mp hrest).resolve_left hkey)
    · refine .inr (.inl ⟨hold, ?_, heq, hother⟩)
      have hkept : hold ∈ dispatcher.held.eraseP fun hold => hold.key = key :=
        (List.mem_eraseP_of_neg (by simpa [heq] using hkey)).mpr hhold
      cases hfirst : dispatcher.firstWaiter key with
      | none => rwa [wake_of_none true hfirst]
      | some heir => rwa [wake_of_some true hfirst]
    · refine .inr (.inr ?_)
      cases hfirst : dispatcher.firstWaiter key with
      | none => rwa [wake_of_none true hfirst]
      | some heir =>
          rw [wake_of_some true hfirst]
          refine hbut.mono (fun turn hturn _ => List.mem_append_left _ hturn) ?_
          intro other hplace _
          rw [Multiset.cons_add]
          exact Multiset.mem_cons_of_mem hplace

theorem Handing.releaseKeys {keys : List κ} (hhanding : Handing process keys dispatcher)
    (hbequeath : dispatcher.Bequeaths process keys) :
    Handing process [] (dispatcher.releaseKeys keys) := by
  induction keys generalizing dispatcher with
  | nil => exact hhanding
  | cons key keys ih => exact ih (hhanding.wake hbequeath.1) hbequeath.2

omit [DecidableEq κ] in
/-- When the process is forgotten the others are served. -/
theorem Handing.leave (hhanding : Handing process [] dispatcher) :
    (dispatcher.leave process).Served := by
  intro wait hwait
  rcases hhanding wait hwait with hnone | ⟨hold, hhold, heq, hother⟩ | hbut
  · cases hnone
  · refine .inl (List.mem_map.mpr ⟨hold, ?_, heq⟩)
    exact (List.mem_eraseP_of_neg (by simpa using hother)).mpr hhold
  · have hafter : (dispatcher.leave process).PromisedBut process wait.key :=
      hbut.mono (fun turn hturn hne => List.mem_filter.mpr ⟨hturn, decide_eq_true hne⟩)
        fun _ h _ => h
    exact .inr hafter.promised

/-- A process that passes on its turns and its keys leaves the others served; `queues`
are the queues without it. -/
theorem Served.release {fresh ready running blocked : Multiset α} (hserved : dispatcher.Served)
    (hpass : dispatcher.CanPass (dispatcher.waitingBut process) process)
    (hplaces : ∀ other ∈ dispatcher.ready + dispatcher.running, other ≠ process →
      other ∈ ready + running)
    (hbequeath : ({ dispatcher with fresh, ready, running, blocked } :
      Dispatcher κ α).Bequeaths process (dispatcher.keysOf process)) :
    (({ dispatcher with fresh, ready, running, blocked } :
      Dispatcher κ α).release process).Served := by
  have hstart : Handing process (dispatcher.keysOf process)
      ({ dispatcher with fresh, ready, running, blocked } : Dispatcher κ α) := by
    intro wait hwait
    refine (Handing.start hserved hpass wait hwait).imp_right (Or.imp_right fun hbut => ?_)
    exact hbut.mono (fun turn hturn _ => hturn) hplaces
  exact (hstart.releaseKeys hbequeath).leave

/-! ## The operations -/

omit [DecidableEq κ] in
/-- A process that waits for a key leaves a queue; `key` is held or promised. -/
theorem Served.block (hserved : dispatcher.Served) (place : Place)
    (hpass : dispatcher.CanPass dispatcher.waiting process)
    (hkey : key ∈ dispatcher.keys ∨ dispatcher.PromisedBut process key)
    {turns : List (Wait κ α)}
    (hturns : ∀ turn ∈ dispatcher.turns, turn.process ≠ process → turn ∈ turns) :
    ({ dispatcher.block place process key with turns } : Dispatcher κ α).Served := by
  have hwaiting : ∀ wait ∈ dispatcher.waiting ++ [Wait.mk process key],
      wait.key ∈ dispatcher.keys ∨ dispatcher.PromisedBut process wait.key := by
    intro wait hwait
    rcases List.mem_append.mp hwait with hold | hnew
    · exact hserved.pass (fun _ h => h) hpass hold
    · obtain rfl := List.mem_singleton.mp hnew
      exact hkey
  cases place with
  | ready =>
      refine Served.of_pass dispatcher process (fun _ h => h) hturns (fun other hplace hne => ?_)
        hwaiting
      exact (Multiset.mem_add.mp hplace).elim
        (fun h => Multiset.mem_add.mpr (.inl ((Multiset.mem_erase_of_ne hne).mpr h)))
        (fun h => Multiset.mem_add.mpr (.inr h))
  | running =>
      refine Served.of_pass dispatcher process (fun _ h => h) hturns (fun other hplace hne => ?_)
        hwaiting
      exact (Multiset.mem_add.mp hplace).elim
        (fun h => Multiset.mem_add.mpr (.inl h))
        (fun h => Multiset.mem_add.mpr (.inr ((Multiset.mem_erase_of_ne hne).mpr h)))

omit [DecidableEq κ] in
/-- A process ends its turns and nothing else changes. -/
theorem Served.endTurns (hserved : dispatcher.Served)
    (hpass : dispatcher.CanPass dispatcher.waiting process) :
    (dispatcher.endTurns process).Served := by
  refine Served.of_pass dispatcher process (fun _ h => h)
    (fun turn hturn hne => mem_turns_endTurns hturn hne)
    (fun other hplace _ => hplace) ?_
  exact fun wait hwait => hserved.pass (fun _ h => h) hpass hwait

/-- **Operations that hand on their turns keep every waiter served.** -/
theorem Served.perform {system : α} (hserved : dispatcher.Served) {operation : Operation κ α}
    (hhands : dispatcher.HandsOn operation) {next : Dispatcher κ α}
    (hperform : Dispatcher.perform system dispatcher operation = some next) : next.Served := by
  cases operation with
  | enter process greeted =>
      obtain ⟨-, rfl⟩ := Option.ite_some_none_eq_some.mp hperform
      cases greeted with
      | true => exact hserved
      | false => exact hserved.endTurns (hhands.resolve_left (by decide))
  | hold key holder =>
      obtain rfl := Option.some.inj hperform
      exact hserved.grow (keys_subset_append _ _) (fun _ h => h) (fun _ h => h) (fun _ h => h)
  | wake key releases =>
      obtain ⟨-, rfl⟩ := Option.ite_some_none_eq_some.mp hperform
      exact hserved.wake key releases
  | die process =>
      obtain ⟨-, rfl⟩ := Option.ite_some_none_eq_some.mp hperform
      refine Served.release hserved hhands.1 (fun other hplace hne => ?_) hhands.2
      simpa only [Multiset.mem_add, Multiset.mem_erase_of_ne hne] using hplace
  | finish process =>
      obtain ⟨-, rfl⟩ := Option.ite_some_none_eq_some.mp hperform
      refine Served.release hserved hhands.1 (fun other hplace hne => ?_) hhands.2
      simpa only [Multiset.mem_add, Multiset.mem_erase_of_ne hne] using hplace
  | enlist =>
      obtain rfl := Option.some.inj hperform
      refine hserved.grow (fun _ h => h) (fun _ h => h) (fun other hplace => ?_) (fun _ h => h)
      simp only [Dispatcher.enlist, Multiset.mem_add] at hplace ⊢
      exact hplace.imp_left .inl
  | block process key =>
      obtain ⟨-, rfl⟩ := Option.ite_some_none_eq_some.mp hperform
      exact hserved.block .running hhands.1 hhands.2 fun _ hturn _ => hturn
  | claim place process key =>
      obtain ⟨-, rfl⟩ := Option.ite_some_none_eq_some.mp hperform
      simp only [Dispatcher.claim]
      split
      · rename_i hheld
        have hblock := hserved.block place (hhands hheld) (.inl hheld)
          fun turn hturn hne => mem_turns_endTurns hturn hne
        cases place <;> exact hblock
      · exact hserved.grow (keys_subset_append _ _) (fun _ h => h) (fun _ h => h) (fun _ h => h)
  | seize process key =>
      obtain rfl := Option.some.inj hperform
      simp only [Dispatcher.seize]
      split
      · exact hserved
      · exact hserved.grow (keys_subset_append _ _) (fun _ h => h) (fun _ h => h) (fun _ h => h)
  | preempt process =>
      obtain ⟨-, rfl⟩ := Option.ite_some_none_eq_some.mp hperform
      refine hserved.grow (fun _ h => h) (fun _ h => h) (fun other hplace => ?_) (fun _ h => h)
      simp only [Dispatcher.preempt, Multiset.mem_add, Multiset.mem_cons] at hplace ⊢
      by_cases heq : other = process
      · exact .inl (.inl heq)
      · exact hplace.imp .inr (Multiset.mem_erase_of_ne heq).mpr
  | dispatch process =>
      obtain ⟨-, rfl⟩ := Option.ite_some_none_eq_some.mp hperform
      refine hserved.grow (fun _ h => h) (fun _ h => h) (fun other hplace => ?_) (fun _ h => h)
      simp only [Dispatcher.dispatch, Multiset.mem_add, Multiset.mem_cons] at hplace ⊢
      by_cases heq : other = process
      · exact .inr (.inl heq)
      · exact hplace.imp (Multiset.mem_erase_of_ne heq).mpr .inr
  | act process =>
      obtain rfl := Option.some.inj hperform
      exact hserved.endTurns hhands

end Library.Dispatcher
