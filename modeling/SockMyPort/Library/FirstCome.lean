/-
# First come, first served

Requests for keys are looked at in turn. A request for a free key is granted and locks
the key; a request for a locked key is refused. Once its turn is over the key of a
request is locked in either case, so that what a request finds depends on the keys of
those before it only.
-/

import Mathlib.Data.List.Induction
import Mathlib.Data.List.Nodup

namespace Library.FirstCome

universe u v w

variable {ρ : Type u} {κ : Type v} {α : Type w} [DecidableEq κ]

/-- The requests whose keys are locked at their turn. -/
def refused (key : ρ → κ) (locked : List κ) : List ρ → List ρ
  | [] => []
  | request :: requests =>
      if key request ∈ locked then request :: refused key (locked ++ [key request]) requests
      else refused key (locked ++ [key request]) requests

/-- The requests whose keys are free at their turn. -/
def granted (key : ρ → κ) (locked : List κ) : List ρ → List ρ
  | [] => []
  | request :: requests =>
      if key request ∈ locked then granted key (locked ++ [key request]) requests
      else request :: granted key (locked ++ [key request]) requests

variable {key : ρ → κ} {locked others : List κ} {request : ρ} {requests before after : List ρ}

/-! ## What does not matter -/

/-- The order in which keys were locked does not matter. -/
theorem refused_congr (hsame : ∀ other, other ∈ locked ↔ other ∈ others) :
    refused key locked requests = refused key others requests := by
  induction requests generalizing locked others with
  | nil => rfl
  | cons request requests ih =>
      have hnext : ∀ other, other ∈ locked ++ [key request] ↔ other ∈ others ++ [key request] :=
        fun other => by simp only [List.mem_append, hsame other]
      simp only [refused, hsame (key request), ih hnext]

theorem granted_congr (hsame : ∀ other, other ∈ locked ↔ other ∈ others) :
    granted key locked requests = granted key others requests := by
  induction requests generalizing locked others with
  | nil => rfl
  | cons request requests ih =>
      have hnext : ∀ other, other ∈ locked ++ [key request] ↔ other ∈ others ++ [key request] :=
        fun other => by simp only [List.mem_append, hsame other]
      simp only [granted, hsame (key request), ih hnext]

/-! ## One request after the others -/

/-- Later requests find the keys of the earlier ones locked. -/
theorem refused_append :
    refused key locked (before ++ after) =
      refused key locked before ++ refused key (locked ++ before.map key) after := by
  induction before generalizing locked with
  | nil => simp [refused]
  | cons request before ih =>
      rw [List.cons_append, refused, refused, ih, List.map_cons,
        List.append_cons locked (key request) (before.map key)]
      split <;> rfl

theorem granted_append :
    granted key locked (before ++ after) =
      granted key locked before ++ granted key (locked ++ before.map key) after := by
  induction before generalizing locked with
  | nil => simp [granted]
  | cons request before ih =>
      rw [List.cons_append, granted, granted, ih, List.map_cons,
        List.append_cons locked (key request) (before.map key)]
      split <;> rfl

theorem mem_of_mem_refused (hmem : request ∈ refused key locked requests) :
    request ∈ requests := by
  induction requests generalizing locked with
  | nil => cases hmem
  | cons other requests ih =>
      rw [refused] at hmem
      split at hmem
      · rcases List.mem_cons.mp hmem with rfl | hmem
        · exact List.mem_cons_self
        · exact List.mem_cons_of_mem _ (ih hmem)
      · exact List.mem_cons_of_mem _ (ih hmem)

theorem mem_of_mem_granted (hmem : request ∈ granted key locked requests) :
    request ∈ requests := by
  induction requests generalizing locked with
  | nil => cases hmem
  | cons other requests ih =>
      rw [granted] at hmem
      split at hmem
      · exact List.mem_cons_of_mem _ (ih hmem)
      · rcases List.mem_cons.mp hmem with rfl | hmem
        · exact List.mem_cons_self
        · exact List.mem_cons_of_mem _ (ih hmem)

/-- A request is refused when its key is locked or requested before. -/
theorem mem_refused_of_mem (hkey : key request ∈ locked ++ before.map key) :
    request ∈ refused key locked (before ++ request :: after) := by
  rw [refused_append]
  refine List.mem_append_right _ ?_
  rw [refused, if_pos hkey]
  exact List.mem_cons_self

/-- A request is granted when its key is neither locked nor requested before. -/
theorem mem_granted_of_not_mem (hkey : key request ∉ locked ++ before.map key) :
    request ∈ granted key locked (before ++ request :: after) := by
  rw [granted_append]
  refine List.mem_append_right _ ?_
  rw [granted, if_neg hkey]
  exact List.mem_cons_self

/-- A refused request has a turn at which its key is locked. -/
theorem exists_split_of_mem_refused (hmem : request ∈ refused key locked requests) :
    ∃ before after, requests = before ++ request :: after ∧
      key request ∈ locked ++ before.map key := by
  induction requests generalizing locked with
  | nil => cases hmem
  | cons other requests ih =>
      have hlater : request ∈ refused key (locked ++ [key other]) requests →
          ∃ before after, other :: requests = before ++ request :: after ∧
            key request ∈ locked ++ before.map key := by
        intro hmem
        obtain ⟨before, after, rfl, hkey⟩ := ih hmem
        refine ⟨other :: before, after, rfl, ?_⟩
        rwa [List.map_cons, List.append_cons]
      rw [refused] at hmem
      split at hmem
      · rename_i hkey
        rcases List.mem_cons.mp hmem with rfl | hmem
        · exact ⟨[], requests, rfl, List.mem_append_left _ hkey⟩
        · exact hlater hmem
      · exact hlater hmem

/-! ## Keys and requesters -/

/-- A free key that is requested is granted. -/
theorem mem_map_granted {other : κ} (hfree : other ∉ locked) (hmem : other ∈ requests.map key) :
    other ∈ (granted key locked requests).map key := by
  induction requests generalizing locked with
  | nil => cases hmem
  | cons request requests ih =>
      by_cases hsame : other = key request
      · rw [granted, if_neg (hsame ▸ hfree), List.map_cons, hsame]
        exact List.mem_cons_self
      · have hlater : other ∈ (granted key (locked ++ [key request]) requests).map key := by
          refine ih ?_ ((List.mem_cons.mp hmem).resolve_left hsame)
          rw [List.mem_append, List.mem_singleton, not_or]
          exact ⟨hfree, hsame⟩
        rw [granted]
        split
        · exact hlater
        · exact List.mem_cons_of_mem _ hlater

/-- In the end the keys that were requested are locked. -/
theorem mem_locked_append_granted {other : κ} :
    other ∈ locked ++ (granted key locked requests).map key ↔
      other ∈ locked ∨ other ∈ requests.map key := by
  rw [List.mem_append]
  constructor
  · refine Or.imp_right fun hmem => ?_
    obtain ⟨request, hrequest, rfl⟩ := List.mem_map.mp hmem
    exact List.mem_map_of_mem (mem_of_mem_granted hrequest)
  · intro hmem
    by_cases hlocked : other ∈ locked
    · exact .inl hlocked
    · exact .inr (mem_map_granted hlocked (hmem.resolve_left hlocked))

/-- What is granted was free, and no key is granted twice. -/
theorem nodup_granted :
    ((granted key locked requests).map key).Nodup ∧
      ∀ other ∈ (granted key locked requests).map key, other ∉ locked := by
  induction requests generalizing locked with
  | nil => exact ⟨List.nodup_nil, fun _ hmem => absurd hmem List.not_mem_nil⟩
  | cons request requests ih =>
      obtain ⟨hnodup, hfree⟩ := @ih (locked ++ [key request])
      have hlater : ∀ other ∈ (granted key (locked ++ [key request]) requests).map key,
          other ∉ locked ∧ other ≠ key request := by
        intro other hmem
        have hnone := hfree other hmem
        rw [List.mem_append, List.mem_singleton, not_or] at hnone
        exact hnone
      rw [granted]
      split
      · exact ⟨hnodup, fun other hmem => (hlater other hmem).1⟩
      · rename_i hkey
        rw [List.map_cons]
        refine ⟨List.nodup_cons.mpr ⟨fun hmem => (hlater _ hmem).2 rfl, hnodup⟩, ?_⟩
        intro other hmem
        rcases List.mem_cons.mp hmem with rfl | hmem
        · exact hkey
        · exact (hlater other hmem).1

/-- No requester is refused twice when every requester that is refused was not refused
before. -/
theorem nodup_refused {requester : ρ → α}
    (hnew : ∀ before request after, requests = before ++ request :: after →
      key request ∈ locked ++ before.map key →
        requester request ∉ (refused key locked before).map requester) :
    ((refused key locked requests).map requester).Nodup := by
  induction requests using List.reverseRecOn with
  | nil => exact List.nodup_nil
  | append_singleton requests request ih =>
      have hbefore : ((refused key locked requests).map requester).Nodup := by
        refine ih fun before other after hsplit hkey => ?_
        refine hnew before other (after ++ [request]) ?_ hkey
        rw [hsplit, List.append_assoc, List.cons_append]
      rw [refused_append, List.map_append]
      by_cases hkey : key request ∈ locked ++ requests.map key
      · rw [refused, if_pos hkey]
        exact List.nodup_append'.mpr ⟨hbefore, List.nodup_singleton _,
          List.disjoint_singleton.mpr (hnew requests request [] rfl hkey)⟩
      · rw [refused, if_neg hkey]
        simpa [refused] using hbefore

end Library.FirstCome
