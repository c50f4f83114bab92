/-
# The conversation about one statement

At most one ESI has been told to execute, and the connection between scheduler and
coordinator carries messages about its statement only. What is on it, what the
scheduler remembers and whether the key is locked follow from where the statement
is. Each step of an ESI or of a thread goes from one such situation to another.
-/

import SockMyPort.Sistema.Sistema
import SockMyPort.Planificador.SingleExecution
import SockMyPort.Planificador.Ownership

namespace SockMyPort.Sistema

open SockMyPort.Commons SockMyPort.Planificador Library

variable {config : Config}

/-! ## ESIs without an order -/

/-- The ESI waits for an order that has not been sent. -/
def Esi.Idle (esi : Esi) : Prop :=
  esi.phase = .waitForExecutionOrder ∧ esi.orders = 0 ∧ esi.results = []

/-- The ESI has exited, and nothing that it did is under way. -/
def Esi.Gone (esi : Esi) : Prop :=
  esi.alive = false ∧ esi.phase.inFlight = false ∧ esi.results = []

/-- The ESI has nothing to do. -/
def Esi.Quiet (esi : Esi) : Prop := esi.Idle ∨ esi.Gone

theorem Esi.Quiet.results {esi : Esi} (hquiet : esi.Quiet) : esi.results = [] :=
  hquiet.elim (fun hidle => hidle.2.2) fun hgone => hgone.2.2

theorem Esi.Quiet.run {esi : Esi} (hquiet : esi.Quiet) : esi.run = none := by
  obtain ⟨hphase, horders, -⟩ | ⟨hdead, -⟩ := hquiet
  · simp only [Esi.run, hphase, horders]
    cases esi.alive <;> cases esi.lines <;> rfl
  · rw [Esi.run, if_neg (by simp [hdead])]

theorem Esi.Quiet.inFlight {esi : Esi} (hquiet : esi.Quiet) : esi.phase.inFlight = false := by
  obtain ⟨hphase, -⟩ | ⟨-, hphase, -⟩ := hquiet
  · rw [hphase]
    rfl
  · exact hphase

/-- Nothing can be read from an ESI that has sent nothing but its end. -/
theorem Esi.recv_of_results {esi read : Esi} {garbage : ExecutionResult} {received : Received}
    (hresults : esi.results = []) (hrecv : esi.recv garbage = some (received, read)) :
    read = esi ∧ esi.alive = false ∧ received = .failure garbage := by
  simp only [Esi.recv, hresults] at hrecv
  split at hrecv
  · cases hrecv
  · rename_i hdead
    obtain ⟨rfl, rfl⟩ := Prod.mk.inj (Option.some.inj hrecv)
    exact ⟨rfl, Bool.eq_false_iff.mpr hdead, rfl⟩

theorem Esi.recvResult_of_results {esi read : Esi} {garbage scriptGarbage : ExecutionResult}
    {result scriptEnd : Received} (hresults : esi.results = [])
    (hrecv : esi.recvResult garbage scriptGarbage = some (result, scriptEnd, read)) :
    read = esi ∧ esi.alive = false ∧ result = .failure garbage := by
  obtain ⟨⟨received, middle⟩, hfirst, hrest⟩ := Option.bind_eq_some_iff.mp hrecv
  obtain ⟨rfl, hdead, rfl⟩ := Esi.recv_of_results hresults hfirst
  dsimp only at hrest
  obtain ⟨rfl, hpair⟩ := Prod.mk.inj (Option.some.inj hrest)
  obtain ⟨-, rfl⟩ := Prod.mk.inj hpair
  exact ⟨rfl, hdead, rfl⟩

/-- An ESI does not change its connection when it goes on. -/
theorem Esi.connection_of_run {esi next : Esi} (hrun : esi.run = some next) :
    next.fd = esi.fd ∧ next.connected = esi.connected := by
  simp only [Esi.run] at hrun
  split at hrun
  swap
  · cases hrun
  split at hrun
  · split at hrun
    · rw [← Option.some.inj hrun]
      exact ⟨rfl, rfl⟩
    · cases hrun
  · rw [← Option.some.inj hrun]
    exact ⟨rfl, rfl⟩
  · rw [← Option.some.inj hrun]
    exact ⟨rfl, rfl⟩
  · rw [← Option.some.inj hrun]
    exact ⟨rfl, rfl⟩
  · rw [← Option.some.inj hrun]
    exact ⟨rfl, rfl⟩
  · cases hrun

theorem Esi.connection_of_recv {esi read : Esi} {garbage : ExecutionResult} {received : Received}
    (hrecv : esi.recv garbage = some (received, read)) :
    read.fd = esi.fd ∧ read.connected = esi.connected := by
  simp only [Esi.recv] at hrecv
  split at hrecv
  · obtain ⟨-, rfl⟩ := Prod.mk.inj (Option.some.inj hrecv)
    exact ⟨rfl, rfl⟩
  · split at hrecv
    · cases hrecv
    · obtain ⟨-, rfl⟩ := Prod.mk.inj (Option.some.inj hrecv)
      exact ⟨rfl, rfl⟩

/-- Nor does it when the scheduler reads from it. -/
theorem Esi.connection_of_recvResult {esi read : Esi} {garbage scriptGarbage : ExecutionResult}
    {result scriptEnd : Received}
    (hrecv : esi.recvResult garbage scriptGarbage = some (result, scriptEnd, read)) :
    read.fd = esi.fd ∧ read.connected = esi.connected := by
  obtain ⟨⟨received, middle⟩, hfirst, hrest⟩ := Option.bind_eq_some_iff.mp hrecv
  have hmiddle := Esi.connection_of_recv hfirst
  dsimp only at hrest
  split at hrest
  · obtain ⟨⟨code, ended⟩, hsecond, hend⟩ := Option.bind_eq_some_iff.mp hrest
    obtain ⟨-, hpair⟩ := Prod.mk.inj (Option.some.inj hend)
    obtain ⟨-, rfl⟩ := Prod.mk.inj hpair
    have hended := Esi.connection_of_recv hsecond
    exact ⟨hended.1.trans hmiddle.1, hended.2.trans hmiddle.2⟩
  · obtain ⟨-, hpair⟩ := Prod.mk.inj (Option.some.inj hrest)
    obtain ⟨-, rfl⟩ := Prod.mk.inj hpair
    exact hmiddle

/-! ## Situations -/

/-- The owner of a key, when it was answered that the executing ESI owns it. -/
def Allows (key : CString) (who : ℕ) (owners : Owners) : Prop :=
  (owners.filter fun owner => owner.1 = key) = [(key, some who)]

/-- A question is on its way to the scheduler. -/
def Asking (messages : List (CoordinatorMessage × ℕ)) (answers : List (CoordinatorAnswer × Owners))
    (message : CoordinatorMessage) (who : ℕ) : Prop :=
  messages = [(message, who)] ∧ answers = []

/-- An answer is on its way to the coordinator. -/
def Answered (messages : List (CoordinatorMessage × ℕ))
    (answers : List (CoordinatorAnswer × Owners))
    (answer : CoordinatorAnswer) (owners : Owners) : Prop :=
  messages = [] ∧ answers = [(answer, owners)]

/-- Nothing is on its way. -/
def Silent (messages : List (CoordinatorMessage × ℕ))
    (answers : List (CoordinatorAnswer × Owners)) :
    Prop :=
  messages = [] ∧ answers = []

/-- Where the statement of the ESI that was told to execute is, and what is on the
connection: `locked` are the locked keys, `inquired` is the key that the scheduler
remembers, and `inquirer` the ESI that it was asked for. -/
inductive Exchange (locked : List CString) (inquired : Option CString) (inquirer : Option ℕ)
    (messages : List (CoordinatorMessage × ℕ)) (answers : List (CoordinatorAnswer × Owners))
    (who : ℕ) (lines : List EsiOperation) (phase : Phase) (orders : ℕ)
    (results : List ExecutionResult) : Prop
  | ordered (hphase : phase = .waitForExecutionOrder) (horders : orders = 1)
      (hresults : results = []) (hsilent : Silent messages answers)
  | sent {operation : EsiOperation} (hphase : phase = .sent operation) (horders : orders = 0)
      (hresults : results = []) (hline : lines.head? = some operation)
      (hsilent : Silent messages answers)
  | inquiring {operation : EsiOperation} (hphase : phase = .recvKeyState operation)
      (horders : orders = 0) (hresults : results = []) (hline : lines.head? = some operation)
      (hasking : Asking messages answers (.isThisKeyBlocked operation.key) who)
  | unblocked {operation : EsiOperation} {owners : Owners}
      (hphase : phase = .recvKeyState operation) (horders : orders = 0) (hresults : results = [])
      (hline : lines.head? = some operation) (hinquired : inquired = some operation.key)
      (hinquirer : inquirer = some who) (hfree : operation.key ∉ locked)
      (hanswered : Answered messages answers .keyIsNotBlocked owners)
  | blocked {operation : EsiOperation} {owners : Owners}
      (hphase : phase = .recvKeyState operation) (horders : orders = 0) (hresults : results = [])
      (hline : lines.head? = some operation) (hinquired : inquired = some operation.key)
      (hlocked : operation.key ∈ locked)
      (hanswered : Answered messages answers .keyIsBlocked owners)
  | inquiringOwner {operation : EsiOperation}
      (hphase : phase = .recvBlockedByExecutingEsi operation) (horders : orders = 0)
      (hresults : results = []) (hline : lines.head? = some operation)
      (hinquired : inquired = some operation.key) (hlocked : operation.key ∈ locked)
      (hasking : Asking messages answers .isKeyBlockedByExecutingEsi who)
  | owned {operation : EsiOperation} {owners : Owners}
      (hphase : phase = .recvBlockedByExecutingEsi operation) (horders : orders = 0)
      (hresults : results = []) (hline : lines.head? = some operation)
      (hlocked : operation.key ∈ locked) (hallows : Allows operation.key who owners)
      (hanswered : Answered messages answers .keyBlockedByExecutingEsi owners)
  | notOwned {operation : EsiOperation} {owners : Owners}
      (hphase : phase = .recvBlockedByExecutingEsi operation) (horders : orders = 0)
      (hresults : results = []) (hline : lines.head? = some operation)
      (hinquired : inquired = some operation.key) (hlocked : operation.key ∈ locked)
      (hanswered : Answered messages answers .keyNotBlockedByExecutingEsi owners)
  | blocking {operation : EsiOperation} (hphase : phase = .blockKey operation)
      (horders : orders = 0) (hresults : results = []) (hline : lines.head? = some operation)
      (hinquired : inquired = some operation.key) (hinquirer : inquirer = some who)
      (hfree : operation.key ∉ locked) (hasking : Asking messages answers .blockKey who)
  | blockedSuccesfully {operation : EsiOperation} {owners : Owners}
      (hphase : phase = .blockKey operation) (horders : orders = 0) (hresults : results = [])
      (hline : lines.head? = some operation) (hlocked : operation.key ∈ locked)
      (hanswered : Answered messages answers .keyBlockedSuccesfully owners)
  | requested {operation : EsiOperation} (hphase : phase = .requested operation)
      (horders : orders = 0) (hresults : results = []) (hline : lines.head? = some operation)
      (hsilent : Silent messages answers)
  | unblocking {key : CString} (hphase : phase = .unblockKey (.store key)) (horders : orders = 0)
      (hresults : results = []) (hline : lines.head? = some (.store key))
      (hasking : Asking messages answers (.unlockKey key) who)
  | unlockedSuccesfully {key : CString} {owners : Owners}
      (hphase : phase = .unblockKey (.store key)) (horders : orders = 0) (hresults : results = [])
      (hline : lines.head? = some (.store key))
      (hanswered : Answered messages answers .keyUnlockedSuccesfully owners)
  | everythingOk (hphase : phase = .replied .everythingOk) (horders : orders = 0)
      (hresults : results = [])
      (hlocked : ∀ key, lines.head? = some (.get key) → key ∈ locked)
      (hsilent : Silent messages answers)
  | youAreBlocked {key : CString} (hphase : phase = .replied .youAreBlocked) (horders : orders = 0)
      (hresults : results = []) (hline : lines.head? = some (.get key))
      (hinquired : inquired = some key) (hlocked : key ∈ locked) (hsilent : Silent messages answers)
  | illegal (hphase : phase = .replied .illegalOperation) (horders : orders = 0)
      (hresults : results = []) (hsilent : Silent messages answers)
  | scriptEnd (hphase : phase = .sendScriptEnd) (horders : orders = 0)
      (hresults : results = [.executionSuccess]) (hsilent : Silent messages answers)
  | succeeded {code : ExecutionResult} (hphase : phase = .waitForExecutionOrder)
      (horders : orders = 0) (hresults : results = [.executionSuccess, code])
      (hsilent : Silent messages answers)
  | reportedBlocked {key : CString} (hphase : phase = .waitForExecutionOrder) (horders : orders = 0)
      (hresults : results = [.iAmBlocked]) (hline : lines.head? = some (.get key))
      (hinquired : inquired = some key) (hlocked : key ∈ locked) (hsilent : Silent messages answers)

/-- The ESI that was told to execute is somewhere, or has exited. -/
def Engaged (sistema : SistemaState config) (who : ℕ) (esi : Esi) : Prop :=
  Exchange (sistema.planificador.gLockedKeys.map KeyBlocker.key)
      sistema.planificador.lastKeyInquired sistema.inquirer sistema.toPlanificador
      sistema.toCoordinador who esi.lines esi.phase esi.orders esi.results ∨
    (esi.Gone ∧ Silent sistema.toPlanificador sistema.toCoordinador)

/-- Nobody was told to execute, or one ESI, which is executing. -/
inductive Conversation (sistema : SistemaState config) : Prop
  | idle (hquiet : ∀ esi ∈ sistema.esis, esi.Quiet)
      (hsilent : Silent sistema.toPlanificador sistema.toCoordinador)
  | engaged {who : ℕ} {esi : Esi} (hget : sistema.esis[who]? = some esi)
      (hconnected : esi.connected = true)
      (hexecution : sistema.planificador.gExecutionQueue = [esi.fd])
      (hengaged : Engaged sistema who esi)
      (hothers : ∀ (other : ℕ) (esi' : Esi), other ≠ who → sistema.esis[other]? = some esi' →
        esi'.Quiet)

/-! ## Sockets -/

/-- A connected ESI has an open socket, which no other connected ESI has. -/
structure Sockets (connectedFds : List ℤ) (esis : List Esi) : Prop where
  opened : ∀ esi ∈ esis, esi.connected = true → esi.fd ∈ connectedFds
  unique : ∀ (i j : ℕ) (first second : Esi), esis[i]? = some first → esis[j]? = some second →
    first.connected = true → second.connected = true → first.fd = second.fd → i = j

namespace Sockets

variable {connectedFds : List ℤ} {esis : List Esi}

/-- A change of an ESI that keeps its connection. -/
theorem set (hsockets : Sockets connectedFds esis) {who : ℕ} {esi changed : Esi}
    (hget : esis[who]? = some esi) (hfd : changed.fd = esi.fd)
    (hconnected : changed.connected = esi.connected) :
    Sockets connectedFds (esis.set who changed) := by
  have hbefore : ∀ (i : ℕ) (other : Esi), (esis.set who changed)[i]? = some other →
      ∃ before, esis[i]? = some before ∧ before.fd = other.fd ∧
        before.connected = other.connected := by
    intro i other hother
    rw [List.getElem?_set] at hother
    split at hother
    · rename_i heq
      split at hother
      · obtain rfl := Option.some.inj hother
        exact ⟨esi, heq ▸ hget, hfd.symm, hconnected.symm⟩
      · cases hother
    · exact ⟨other, hother, rfl, rfl⟩
  refine ⟨fun other hmem hopen => ?_, fun i j first second hi hj hfirst hsecond hsame => ?_⟩
  · obtain ⟨i, hi⟩ := List.mem_iff_getElem?.mp hmem
    obtain ⟨before, hbefore, hfd, hconn⟩ := hbefore i other hi
    exact hfd ▸ hsockets.opened before (List.mem_of_getElem? hbefore) (hconn.trans hopen)
  · obtain ⟨first', hi', hfd, hconn⟩ := hbefore i first hi
    obtain ⟨second', hj', hfd', hconn'⟩ := hbefore j second hj
    exact hsockets.unique i j first' second' hi' hj' (hconn.trans hfirst) (hconn'.trans hsecond)
      (hfd.trans (hsame.trans hfd'.symm))

/-- The scheduler may close connections. -/
theorem hear (hsockets : Sockets connectedFds esis) (nextFds orders : List ℤ) :
    Sockets nextFds (esis.map (Esi.hear nextFds orders)) := by
  have hbefore : ∀ esi : Esi, (Esi.hear nextFds orders esi).connected = true →
      esi.connected = true ∧ esi.fd ∈ nextFds ∧ (Esi.hear nextFds orders esi).fd = esi.fd := by
    intro esi hopen
    simp only [Esi.hear] at hopen ⊢
    split at hopen
    · rename_i hboth
      obtain ⟨hconn, hmem⟩ := Bool.and_eq_true_iff.mp hboth
      rw [if_pos hboth]
      exact ⟨hconn, by simpa using hmem, rfl⟩
    · cases hopen
  refine ⟨fun other hmem hopen => ?_, fun i j first second hi hj hfirst hsecond hsame => ?_⟩
  · obtain ⟨esi, -, rfl⟩ := List.mem_map.mp hmem
    obtain ⟨-, hnext, hfd⟩ := hbefore esi hopen
    exact hfd ▸ hnext
  · rw [List.getElem?_map] at hi hj
    obtain ⟨first', hi', rfl⟩ := Option.map_eq_some_iff.mp hi
    obtain ⟨second', hj', rfl⟩ := Option.map_eq_some_iff.mp hj
    obtain ⟨hconn, -, hfd⟩ := hbefore first' hfirst
    obtain ⟨hconn', -, hfd'⟩ := hbefore second' hsecond
    exact hsockets.unique i j first' second' hi' hj' hconn hconn'
      (hfd.symm.trans (hsame.trans hfd'))

/-- An ESI connects on a socket that is not open. -/
theorem append (hsockets : Sockets connectedFds esis) {nextFds : List ℤ} {esi : Esi}
    (hnew : esi.fd ∉ connectedFds) (hopen : esi.connected = true → esi.fd ∈ nextFds)
    (hstill : ∀ fd ∈ connectedFds, fd ∈ nextFds) : Sockets nextFds (esis ++ [esi]) := by
  have hclash : ∀ (i : ℕ) (other : Esi), esis[i]? = some other → other.connected = true →
      other.fd ≠ esi.fd := fun i other hi hconn heq =>
    hnew (heq ▸ hsockets.opened other (List.mem_of_getElem? hi) hconn)
  have hsplit : ∀ (i : ℕ) (other : Esi), (esis ++ [esi])[i]? = some other →
      esis[i]? = some other ∨ (i = esis.length ∧ other = esi) := by
    intro i other hi
    rcases Nat.lt_trichotomy i esis.length with hlt | heq | hgt
    · exact .inl (by rwa [List.getElem?_append_left hlt] at hi)
    · subst heq
      rw [List.getElem?_concat_length] at hi
      exact .inr ⟨rfl, (Option.some.inj hi).symm⟩
    · rw [List.getElem?_eq_none (by simp; omega)] at hi
      cases hi
  refine ⟨fun other hmem hconn => ?_, fun i j first second hi hj hfirst hsecond hsame => ?_⟩
  · rcases List.mem_append.mp hmem with hbefore | hlast
    · exact hstill _ (hsockets.opened other hbefore hconn)
    · obtain rfl := List.mem_singleton.mp hlast
      exact hopen hconn
  · rcases hsplit i first hi with hi | ⟨hlast, heq⟩ <;>
      rcases hsplit j second hj with hj | ⟨hlast', heq'⟩
    · exact hsockets.unique i j first second hi hj hfirst hsecond hsame
    · exact absurd (hsame.trans (congrArg Esi.fd heq')) (hclash i first hi hfirst)
    · exact absurd (hsame.symm.trans (congrArg Esi.fd heq)) (hclash j second hj hsecond)
    · rw [hlast, hlast']

/-- The ESI on the socket of a connected ESI is that one. -/
theorem processOn_eq (hsockets : Sockets connectedFds esis) {who : ℕ} {esi : Esi}
    (hget : esis[who]? = some esi) (hconnected : esi.connected = true) :
    processOn esis esi.fd = some who := by
  have hsome : (processOn esis esi.fd).isSome = true := by
    rw [processOn, List.findIdx?_isSome, List.any_eq_true]
    exact ⟨esi, List.mem_of_getElem? hget, by simp [hconnected]⟩
  obtain ⟨found, hfound⟩ := Option.isSome_iff_exists.mp hsome
  obtain ⟨hlt, htest, -⟩ := List.findIdx?_eq_some_iff_getElem.mp hfound
  obtain ⟨hconn, hfd⟩ := Bool.and_eq_true_iff.mp htest
  have hsame := hsockets.unique found who _ esi (List.getElem?_eq_getElem hlt) hget hconn
    hconnected (of_decide_eq_true hfd)
  rw [hfound, hsame]

end Sockets

/-- What `processOn` finds. -/
theorem of_processOn {esis : List Esi} {fd : ℤ} {who : ℕ} (hfound : processOn esis fd = some who) :
    ∃ esi, esis[who]? = some esi ∧ esi.connected = true ∧ esi.fd = fd := by
  obtain ⟨hlt, htest, -⟩ := List.findIdx?_eq_some_iff_getElem.mp hfound
  obtain ⟨hconn, hfd⟩ := Bool.and_eq_true_iff.mp htest
  exact ⟨_, List.getElem?_eq_getElem hlt, hconn, of_decide_eq_true hfd⟩

/-! ## Steps of an ESI -/

section Steps

variable {locked : List CString} {inquired : Option CString} {inquirer : Option ℕ}
variable {messages : List (CoordinatorMessage × ℕ)} {answers : List (CoordinatorAnswer × Owners)}
variable {who : ℕ}

/-- The ESI goes on to the next situation, or exits. -/
theorem Exchange.run {esi next : Esi}
    (hexchange : Exchange locked inquired inquirer messages answers who esi.lines esi.phase
      esi.orders esi.results) (hrun : esi.run = some next) :
    Exchange locked inquired inquirer messages answers who next.lines next.phase next.orders
        next.results ∨ (next.Gone ∧ Silent messages answers) := by
  obtain ⟨fd, lines, phase, orders, results, alive, connected⟩ := esi
  simp only [Esi.run] at hrun
  split at hrun
  swap
  · cases hrun
  cases hexchange with
  | ordered hphase horders hresults hsilent =>
      obtain rfl : phase = _ := hphase
      obtain rfl : orders = 1 := horders
      cases lines with
      | nil => cases hrun
      | cons operation lines =>
          obtain rfl := Option.some.inj hrun
          exact .inl (.sent rfl rfl hresults rfl hsilent)
  | everythingOk hphase horders hresults hlocked hsilent =>
      obtain rfl : phase = _ := hphase
      obtain rfl : results = [] := hresults
      obtain rfl := Option.some.inj hrun
      exact .inl (.scriptEnd rfl horders rfl hsilent)
  | youAreBlocked hphase horders hresults hline hinquired hlocked hsilent =>
      obtain rfl : phase = _ := hphase
      obtain rfl : results = [] := hresults
      obtain rfl := Option.some.inj hrun
      exact .inl (.reportedBlocked rfl horders rfl hline hinquired hlocked hsilent)
  | illegal hphase horders hresults hsilent =>
      obtain rfl : phase = _ := hphase
      obtain rfl := Option.some.inj hrun
      exact .inr ⟨⟨rfl, rfl, hresults⟩, hsilent⟩
  | scriptEnd hphase horders hresults hsilent =>
      obtain rfl : phase = _ := hphase
      obtain rfl : results = _ := hresults
      obtain rfl := Option.some.inj hrun
      exact .inl (.succeeded rfl horders rfl hsilent)
  | succeeded hphase horders hresults hsilent =>
      obtain rfl : phase = _ := hphase
      obtain rfl : orders = 0 := horders
      cases lines <;> cases hrun
  | reportedBlocked hphase horders hresults hline hinquired hlocked hsilent =>
      obtain rfl : phase = _ := hphase
      obtain rfl : orders = 0 := horders
      cases lines <;> cases hrun
  | sent hphase | inquiring hphase | unblocked hphase | blocked hphase | inquiringOwner hphase
  | owned hphase | notOwned hphase | blocking hphase | blockedSuccesfully hphase
  | requested hphase | unblocking hphase | unlockedSuccesfully hphase =>
      obtain rfl : phase = _ := hphase
      cases hrun

/-- What the scheduler reads ends the exchange, unless it finds the ESI lost while
the coordinator is busy with it. -/
theorem Exchange.recvResult {esi read : Esi} {garbage scriptGarbage : ExecutionResult}
    {result scriptEnd : Received}
    (hexchange : Exchange locked inquired inquirer messages answers who esi.lines esi.phase
      esi.orders esi.results)
    (hlost : esi.alive = false → esi.phase.inFlight = false)
    (hrecv : esi.recvResult garbage scriptGarbage = some (result, scriptEnd, read)) :
    read.Quiet ∧ Silent messages answers ∧
      (result = .code .iAmBlocked → ∃ key, inquired = some key ∧ key ∈ locked) := by
  have hnone : ∀ (hresults : esi.results = [])
      (hsilent : esi.phase.inFlight = false → Silent messages answers),
      read.Quiet ∧ Silent messages answers ∧
        (result = .code .iAmBlocked → ∃ key, inquired = some key ∧ key ∈ locked) := by
    intro hresults hsilent
    obtain ⟨rfl, hdead, rfl⟩ := Esi.recvResult_of_results hresults hrecv
    exact ⟨.inr ⟨hdead, hlost hdead, hresults⟩, hsilent (hlost hdead), fun h => by cases h⟩
  cases hexchange with
  | ordered hphase horders hresults hsilent => exact hnone hresults fun _ => hsilent
  | everythingOk hphase horders hresults hlocked hsilent => exact hnone hresults fun _ => hsilent
  | youAreBlocked hphase horders hresults hline hinquired hlocked hsilent =>
      exact hnone hresults fun _ => hsilent
  | illegal hphase horders hresults hsilent => exact hnone hresults fun _ => hsilent
  | scriptEnd hphase horders hresults hsilent =>
      simp only [Esi.recvResult, Esi.recv, hresults, Option.bind_eq_bind, Option.bind_some] at hrecv
      cases halive : esi.alive with
      | true =>
          rw [halive] at hrecv
          cases hrecv
      | false =>
          rw [halive] at hrecv
          obtain ⟨rfl, hpair⟩ := Prod.mk.inj (Option.some.inj hrecv)
          obtain ⟨-, rfl⟩ := Prod.mk.inj hpair
          exact ⟨.inr ⟨rfl, hlost halive, rfl⟩, hsilent, fun h => by cases h⟩
  | succeeded hphase horders hresults hsilent =>
      simp only [Esi.recvResult, Esi.recv, hresults, Option.bind_eq_bind, Option.bind_some] at hrecv
      obtain ⟨rfl, hpair⟩ := Prod.mk.inj (Option.some.inj hrecv)
      obtain ⟨-, rfl⟩ := Prod.mk.inj hpair
      exact ⟨.inl ⟨hphase, horders, rfl⟩, hsilent, fun h => by cases h⟩
  | reportedBlocked hphase horders hresults hline hinquired hlocked hsilent =>
      simp only [Esi.recvResult, Esi.recv, hresults, Option.bind_eq_bind, Option.bind_some] at hrecv
      obtain ⟨rfl, hpair⟩ := Prod.mk.inj (Option.some.inj hrecv)
      obtain ⟨-, rfl⟩ := Prod.mk.inj hpair
      exact ⟨.inl ⟨hphase, horders, rfl⟩, hsilent, fun _ => ⟨_, hinquired, hlocked⟩⟩
  | sent hphase _ hresults | inquiring hphase _ hresults | unblocked hphase _ hresults
  | blocked hphase _ hresults | inquiringOwner hphase _ hresults | owned hphase _ hresults
  | notOwned hphase _ hresults | blocking hphase _ hresults | blockedSuccesfully hphase _ hresults
  | requested hphase _ hresults | unblocking hphase _ hresults
  | unlockedSuccesfully hphase _ hresults =>
      refine hnone hresults fun hidle => ?_
      rw [hphase] at hidle
      cases hidle

/-! ## Steps of a thread -/

/-- The key that the operation of an ESI is about when it is checked. -/
theorem Exchange.askKeyState {lines : List EsiOperation} {operation : EsiOperation}
    (hline : lines.head? = some operation) (hsilent : Silent messages answers) :
    Exchange locked inquired inquirer
      (messages ++ (askKeyState operation).2.map fun message => (message, who)) answers who lines
      (askKeyState operation).1 0 [] := by
  obtain ⟨rfl, rfl⟩ := hsilent
  simp only [Sistema.askKeyState]
  split
  · exact .inquiring rfl rfl rfl hline ⟨rfl, rfl⟩
  · exact .illegal rfl rfl rfl ⟨rfl, rfl⟩

/-- An instance has handled the request. -/
theorem Exchange.handleRequest {lines : List EsiOperation} {operation : EsiOperation}
    {succeeds : Bool} {outcome : Phase × List CoordinatorMessage}
    (hline : lines.head? = some operation) (hsilent : Silent messages answers)
    (hhandle : handleRequest operation succeeds = some outcome) :
    Exchange locked inquired inquirer
      (messages ++ outcome.2.map fun message => (message, who)) answers who lines
      outcome.1 0 [] := by
  obtain ⟨rfl, rfl⟩ := hsilent
  cases operation with
  | get key => cases hhandle
  | set key value =>
      obtain rfl := Option.some.inj hhandle
      cases succeeds with
      | true =>
          refine .everythingOk rfl rfl rfl (fun other hother => ?_) ⟨rfl, rfl⟩
          rw [hline] at hother
          cases hother
      | false => exact .illegal rfl rfl rfl ⟨rfl, rfl⟩
  | store key =>
      obtain rfl := Option.some.inj hhandle
      cases succeeds with
      | true => exact .unblocking rfl rfl rfl hline ⟨rfl, rfl⟩
      | false => exact .illegal rfl rfl rfl ⟨rfl, rfl⟩

/-- The first answer is taken. -/
theorem Exchange.keyUnblocked {lines : List EsiOperation} {operation : EsiOperation}
    (hline : lines.head? = some operation) (hinquired : inquired = some operation.key)
    (hinquirer : inquirer = some who) (hfree : operation.key ∉ locked) :
    Exchange locked inquired inquirer
      ((keyUnblocked operation).2.map fun message => (message, who)) [] who lines
      (keyUnblocked operation).1 0 [] := by
  cases operation with
  | get key => exact .blocking rfl rfl rfl hline hinquired hinquirer hfree ⟨rfl, rfl⟩
  | set key value | store key => exact .illegal rfl rfl rfl ⟨rfl, rfl⟩

/-- The second answer is taken; the executing ESI owns the key. -/
theorem Exchange.keyBlockedByExecutingEsi {lines : List EsiOperation} {operation : EsiOperation}
    (hline : lines.head? = some operation) (hlocked : operation.key ∈ locked) (dispatched : Bool) :
    Exchange locked inquired inquirer [] [] who lines
      (keyBlockedByExecutingEsi operation dispatched) 0 [] := by
  cases operation with
  | get key =>
      refine .everythingOk rfl rfl rfl (fun other hother => ?_) ⟨rfl, rfl⟩
      rw [hline] at hother
      cases hother
      exact hlocked
  | set key value | store key =>
      cases dispatched with
      | true => exact .requested rfl rfl rfl hline ⟨rfl, rfl⟩
      | false => exact .illegal rfl rfl rfl ⟨rfl, rfl⟩

/-- The second answer is taken; another ESI owns the key. -/
theorem Exchange.keyBlocked {lines : List EsiOperation} {operation : EsiOperation}
    (hline : lines.head? = some operation) (hinquired : inquired = some operation.key)
    (hlocked : operation.key ∈ locked) :
    Exchange locked inquired inquirer [] [] who lines (keyBlocked operation) 0 [] := by
  cases operation with
  | get key => exact .youAreBlocked rfl rfl rfl hline hinquired hlocked ⟨rfl, rfl⟩
  | set key value | store key => exact .illegal rfl rfl rfl ⟨rfl, rfl⟩

end Steps

/-- A thread without an operation does not go on. -/
theorem thread_eq_none {sistema : SistemaState config} {who : ℕ} {esi : Esi} (succeeds : Bool)
    (hget : sistema.esis[who]? = some esi) (hidle : esi.phase.inFlight = false) :
    sistema.thread who succeeds = none := by
  have hrecv : sistema.recvAnswer who esi succeeds = none := by
    simp only [SistemaState.recvAnswer]
    cases sistema.toCoordinador with
    | nil => rfl
    | cons answer rest =>
        cases hphase : esi.phase <;> rw [hphase] at hidle <;> first
          | rfl
          | cases hidle
  simp only [SistemaState.thread, hget, Option.bind_eq_bind, Option.bind_some]
  cases hphase : esi.phase <;> rw [hphase] at hidle <;> first
    | exact (congrArg (ite _ · none) hrecv).trans (ite_self _)
    | cases hidle

/-- Taking an answer does not change the scheduler. -/
theorem planificador_of_recvAnswer {sistema next : SistemaState config} {who : ℕ} {esi : Esi}
    {succeeds : Bool} (hrecv : sistema.recvAnswer who esi succeeds = some next) :
    next.planificador = sistema.planificador := by
  simp only [SistemaState.recvAnswer] at hrecv
  split at hrecv
  · cases hrecv
  · split at hrecv
    · obtain ⟨outcome, -, rfl⟩ := Option.map_eq_some_iff.mp hrecv
      rfl
    · obtain ⟨phase, -, rfl⟩ := Option.map_eq_some_iff.mp hrecv
      rfl
    · rw [← Option.some.inj hrecv]
      rfl
    · rw [← Option.some.inj hrecv]
      rfl
    · cases hrecv

/-- Threads do not change the scheduler. -/
theorem planificador_of_thread {sistema next : SistemaState config} {who : ℕ} {succeeds : Bool}
    (hthread : sistema.thread who succeeds = some next) :
    next.planificador = sistema.planificador := by
  obtain ⟨esi, hget, hrest⟩ := Option.bind_eq_some_iff.mp hthread
  split at hrest
  · rw [← Option.some.inj hrest]
    rfl
  · obtain ⟨outcome, -, rfl⟩ := Option.map_eq_some_iff.mp hrest
    rfl
  · exact planificador_of_recvAnswer (Option.ite_none_right_eq_some.mp hrest).2

theorem keyBlocked_ne_requested (operation : EsiOperation) :
    keyBlocked operation ≠ .requested operation := by
  cases operation <;> exact fun heq => by cases heq

/-- What a step of the thread of the engaged ESI leaves: only its phase and the
connection have changed, and what is queued was allowed. -/
structure ThreadStep (sistema next : SistemaState config) (who : ℕ) (esi : Esi) : Prop where
  planificador : next.planificador = sistema.planificador
  inquirer : next.inquirer = sistema.inquirer
  blockedKeys : next.blockedKeys = sistema.blockedKeys
  esis : ∃ phase, next.esis = sistema.esis.set who { esi with phase := phase } ∧
    Engaged next who { esi with phase := phase }
  requests : next.requests = sistema.requests ∨
    ∃ operation owners, next.requests = sistema.requests ++ [⟨operation, who, owners⟩] ∧
      Allows operation.key who owners

/-- **The thread of the engaged ESI** goes to the next situation. -/
theorem threadStep {sistema next : SistemaState config} {who : ℕ} {esi : Esi} {succeeds : Bool}
    (hget : sistema.esis[who]? = some esi) (hengaged : Engaged sistema who esi)
    (hthread : sistema.thread who succeeds = some next) : ThreadStep sistema next who esi := by
  obtain hexchange | ⟨⟨-, hidle, -⟩, -⟩ := hengaged
  swap
  · rw [thread_eq_none succeeds hget hidle] at hthread
    cases hthread
  obtain ⟨fd, lines, phase, orders, results, alive, connected⟩ := esi
  simp only [SistemaState.thread, hget, Option.bind_eq_bind, Option.bind_some] at hthread
  cases hexchange with
  | sent hphase horders hresults hline hsilent =>
      obtain rfl : phase = _ := hphase
      obtain rfl : orders = 0 := horders
      obtain rfl : results = [] := hresults
      obtain rfl := Option.some.inj hthread
      exact ⟨rfl, rfl, rfl, ⟨_, rfl, .inl (.askKeyState hline hsilent)⟩, .inl rfl⟩
  | requested hphase horders hresults hline hsilent =>
      obtain rfl : phase = _ := hphase
      obtain rfl : orders = 0 := horders
      obtain rfl : results = [] := hresults
      obtain ⟨outcome, hhandle, rfl⟩ := Option.map_eq_some_iff.mp hthread
      exact ⟨rfl, rfl, rfl, ⟨_, rfl, .inl (.handleRequest hline hsilent hhandle)⟩, .inl rfl⟩
  | unblocked hphase horders hresults hline hinquired hinquirer hfree hanswered =>
      obtain rfl : phase = _ := hphase
      obtain rfl : orders = 0 := horders
      obtain rfl : results = [] := hresults
      obtain ⟨-, hrecv⟩ := Option.ite_none_right_eq_some.mp hthread
      simp only [SistemaState.recvAnswer, hanswered.2] at hrecv
      obtain rfl := Option.some.inj hrecv
      refine ⟨rfl, rfl, rfl, ⟨_, rfl, .inl ?_⟩, .inl rfl⟩
      have hnext := Exchange.keyUnblocked hline hinquired hinquirer hfree
      simpa [SistemaState.advance, hanswered.1] using hnext
  | blocked hphase horders hresults hline hinquired hlocked hanswered =>
      obtain rfl : phase = _ := hphase
      obtain rfl : orders = 0 := horders
      obtain rfl : results = [] := hresults
      obtain ⟨-, hrecv⟩ := Option.ite_none_right_eq_some.mp hthread
      simp only [SistemaState.recvAnswer, hanswered.2] at hrecv
      obtain rfl := Option.some.inj hrecv
      refine ⟨rfl, rfl, rfl, ⟨_, rfl, .inl ?_⟩, .inl rfl⟩
      exact .inquiringOwner rfl rfl rfl hline hinquired hlocked
        ⟨by simp [SistemaState.advance, hanswered.1], rfl⟩
  | owned hphase horders hresults hline hlocked hallows hanswered =>
      obtain rfl : phase = _ := hphase
      obtain rfl : orders = 0 := horders
      obtain rfl : results = [] := hresults
      obtain ⟨-, hrecv⟩ := Option.ite_none_right_eq_some.mp hthread
      simp only [SistemaState.recvAnswer, hanswered.2] at hrecv
      obtain rfl := Option.some.inj hrecv
      refine ⟨rfl, rfl, rfl, ⟨_, rfl, .inl ?_⟩, ?_⟩
      · suffices hnext :
            Exchange _ _ _ (sistema.toPlanificador ++ []) [] who lines _ 0 [] from hnext
        rw [hanswered.1]
        exact .keyBlockedByExecutingEsi hline hlocked succeeds
      · dsimp only
        split
        · exact .inr ⟨_, _, rfl, hallows⟩
        · exact .inl rfl
  | notOwned hphase horders hresults hline hinquired hlocked hanswered =>
      obtain rfl : phase = _ := hphase
      obtain rfl : orders = 0 := horders
      obtain rfl : results = [] := hresults
      obtain ⟨-, hrecv⟩ := Option.ite_none_right_eq_some.mp hthread
      simp only [SistemaState.recvAnswer, hanswered.2] at hrecv
      obtain rfl := Option.some.inj hrecv
      refine ⟨rfl, rfl, rfl, ⟨_, rfl, .inl ?_⟩, .inl ?_⟩
      · suffices hnext :
            Exchange _ _ _ (sistema.toPlanificador ++ []) [] who lines _ 0 [] from hnext
        rw [hanswered.1]
        exact .keyBlocked hline hinquired hlocked
      · exact if_neg (keyBlocked_ne_requested _)
  | blockedSuccesfully hphase horders hresults hline hlocked hanswered =>
      obtain rfl : phase = _ := hphase
      obtain rfl : orders = 0 := horders
      obtain rfl : results = [] := hresults
      obtain ⟨-, hrecv⟩ := Option.ite_none_right_eq_some.mp hthread
      simp only [SistemaState.recvAnswer, hanswered.2] at hrecv
      obtain rfl := Option.some.inj hrecv
      refine ⟨rfl, rfl, rfl, ⟨_, rfl, .inl ?_⟩, .inl rfl⟩
      refine .everythingOk rfl rfl rfl (fun key hkey => ?_)
        ⟨by simp [SistemaState.advance, hanswered.1], rfl⟩
      obtain rfl := Option.some.inj (hline.symm.trans hkey)
      exact hlocked
  | unlockedSuccesfully hphase horders hresults hline hanswered =>
      obtain rfl : phase = _ := hphase
      obtain rfl : orders = 0 := horders
      obtain rfl : results = [] := hresults
      obtain ⟨-, hrecv⟩ := Option.ite_none_right_eq_some.mp hthread
      simp only [SistemaState.recvAnswer, hanswered.2] at hrecv
      obtain rfl := Option.some.inj hrecv
      refine ⟨rfl, rfl, rfl, ⟨_, rfl, .inl ?_⟩, .inl rfl⟩
      refine .everythingOk rfl rfl rfl (fun key hkey => ?_)
        ⟨by simp [SistemaState.advance, hanswered.1], rfl⟩
      cases hline.symm.trans hkey
  | inquiring hphase _ _ _ hasking | inquiringOwner hphase _ _ _ _ _ hasking
  | blocking hphase _ _ _ _ _ _ hasking | unblocking hphase _ _ _ hasking =>
      -- the answer has not come
      obtain rfl : phase = _ := hphase
      obtain ⟨-, hrecv⟩ := Option.ite_none_right_eq_some.mp hthread
      simp only [SistemaState.recvAnswer, hasking.2] at hrecv
      cases hrecv
  | ordered hphase | everythingOk hphase | youAreBlocked hphase | illegal hphase
  | scriptEnd hphase | succeeded hphase | reportedBlocked hphase =>
      -- the thread has nothing to do
      obtain rfl : phase = _ := hphase
      have hnone := thread_eq_none succeeds hget rfl
      rw [SistemaState.thread, hget] at hnone
      exact absurd (hthread.symm.trans hnone) (by simp)

end SockMyPort.Sistema
