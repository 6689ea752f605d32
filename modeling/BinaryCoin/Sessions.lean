/-
  BinaryCoin — net.cpp: the registry of peer nonces.

  Every connection runs `session_loop` in a thread of its own.  What its
  threads share is `active_peer_nonces_`, which each of them touches in two
  critical sections: the registration after the handshake, and the cleanup
  closure on the way out.  The threads interleave arbitrarily between these.
-/
import BinaryCoin.Lib.Runs
import Mathlib.Data.Finset.Basic
import Mathlib.Logic.Function.Basic
import Mathlib.Tactic.Common

namespace BinaryCoin

open Runs

/-- How far a thread is in `session_loop`. -/
inductive Stage where
  | absent
  /-- up to the end of the handshake -/
  | connecting
  /-- the handshake has returned the peer's version -/
  | greeted (nonce : UInt64)
  /-- returned, as a connection to the node itself -/
  | self
  /-- returned, as a second connection of one peer -/
  | duplicate
  /-- past registration -/
  | running (nonce : UInt64)
  /-- the cleanup closure has run -/
  | ended
  deriving DecidableEq

/-- The nonce a thread is registered under; zero stands for none. -/
def Stage.nonce : Stage → UInt64
  | .running nonce => nonce
  | _ => 0

/-- A thread: its stage, and the variable that its cleanup closure captures. -/
structure Session where
  stage : Stage
  registeredNonce : UInt64
  deriving DecidableEq

/-- What the sessions of a node share. -/
structure PersistentTestnetNode where
  nodeNonce : UInt64
  activePeerNonces : Finset UInt64
  selfConnections : ℕ
  duplicateConnections : ℕ
  sessions : ℕ → Session

/-- The parts of `session_loop` that run without interruption. -/
inductive SessionEvent where
  | start (id : ℕ)
  | handshake (id : ℕ) (nonce : UInt64)
  | register (id : ℕ)
  | cleanup (id : ℕ)

namespace PersistentTestnetNode

/-- A node before its first connection. -/
def initial (nodeNonce : UInt64) : PersistentTestnetNode :=
  ⟨nodeNonce, ∅, 0, 0, fun _ => ⟨.absent, 0⟩⟩

def setSession (node : PersistentTestnetNode) (id : ℕ) (session : Session) :
    PersistentTestnetNode :=
  { node with sessions := Function.update node.sessions id session }

/-- The critical section after the handshake. -/
def register (node : PersistentTestnetNode) (id : ℕ) (nonce : UInt64) : PersistentTestnetNode :=
  let session := node.sessions id
  if nonce = node.nodeNonce then
    { node with selfConnections := node.selfConnections + 1 }.setSession id
      { session with stage := .self }
  else if nonce ∈ node.activePeerNonces then
    { node with duplicateConnections := node.duplicateConnections + 1 }.setSession id
      { session with stage := .duplicate }
  else
    { node with activePeerNonces := insert nonce node.activePeerNonces }.setSession id
      ⟨.running nonce, nonce⟩

/-- The cleanup closure; it runs when the session returns and when it throws, and the locals of the
    session are gone with it. -/
def cleanup (node : PersistentTestnetNode) (id : ℕ) : PersistentTestnetNode :=
  let session := node.sessions id
  let node := if session.registeredNonce ≠ 0 then
      { node with activePeerNonces := node.activePeerNonces.erase session.registeredNonce }
    else node
  node.setSession id ⟨.ended, 0⟩

/-- One uninterrupted part of one session, if the session is where that part begins. -/
def step (node : PersistentTestnetNode) : SessionEvent → Option PersistentTestnetNode
  | .start id =>
    match (node.sessions id).stage with
    | .absent => some (node.setSession id ⟨.connecting, 0⟩)
    | _ => none
  | .handshake id nonce =>
    match (node.sessions id).stage with
    | .connecting => some (node.setSession id { node.sessions id with stage := .greeted nonce })
    | _ => none
  | .register id =>
    match (node.sessions id).stage with
    | .greeted nonce => some (node.register id nonce)
    | _ => none
  | .cleanup id =>
    match (node.sessions id).stage with
    | .absent | .ended => none
    | _ => some (node.cleanup id)

/-- The events of a run. -/
abbrev Runs (node : PersistentTestnetNode) (events : List SessionEvent)
    (node' : PersistentTestnetNode) : Prop :=
  Run (fun node event node' => step node event = some node') node events node'

/-- The session is past registration and has not been cleaned up. -/
def Registered (node : PersistentTestnetNode) (id : ℕ) (nonce : UInt64) : Prop :=
  (node.sessions id).stage = .running nonce

/-- What the registry is for. -/
structure Registry (node : PersistentTestnetNode) : Prop where
  /-- it holds the nonces of the registered sessions -/
  exact : ∀ nonce, nonce ∈ node.activePeerNonces ↔ ∃ id, node.Registered id nonce
  /-- no two registered sessions have one nonce -/
  distinct : ∀ id id' nonce, node.Registered id nonce → node.Registered id' nonce → id = id'
  /-- a session is rejected as a duplicate only if another one has its nonce -/
  justified : ∀ id nonce node', (node.sessions id).stage = .greeted nonce →
    node.step (.register id) = some node' → (node'.sessions id).stage = .duplicate →
    ∃ id', id' ≠ id ∧ node.Registered id' nonce
  /-- nothing stays when all sessions have ended -/
  empty : (∀ id, (node.sessions id).stage = .absent ∨ (node.sessions id).stage = .ended) →
    node.activePeerNonces = ∅

/-! ## What an event does -/

/-- The captured variable says what the session is registered under. -/
def Captured (node : PersistentTestnetNode) : Prop :=
  ∀ id, (node.sessions id).registeredNonce = (node.sessions id).stage.nonce

section
variable {node node' : PersistentTestnetNode} {id id' : ℕ} {nonce nonce' : UInt64}

theorem registered_update {session : Session}
    (h : node'.sessions = Function.update node.sessions id session) :
    node'.Registered id' nonce ↔
      if id' = id then session.stage = .running nonce else node.Registered id' nonce := by
  unfold Registered
  rw [h]
  by_cases hid : id' = id
  · subst hid
    rw [Function.update_self, if_pos rfl]
  · rw [Function.update_of_ne hid, if_neg hid]

theorem registered_quiet {session : Session} (hbefore : ∀ nonce, ¬ node.Registered id nonce)
    (hafter : ∀ nonce, session.stage ≠ .running nonce)
    (h : node'.sessions = Function.update node.sessions id session) :
    node'.Registered id' nonce ↔ node.Registered id' nonce := by
  rw [registered_update h]
  by_cases hid : id' = id
  · subst hid
    rw [if_pos rfl]
    exact iff_of_false (hafter nonce) (hbefore nonce)
  · rw [if_neg hid]

theorem registered_enter (hbefore : ∀ nonce, ¬ node.Registered id nonce)
    (h : node'.sessions = Function.update node.sessions id ⟨.running nonce, nonce⟩) :
    node'.Registered id' nonce' ↔ (id' = id ∧ nonce' = nonce) ∨ node.Registered id' nonce' := by
  rw [registered_update h]
  by_cases hid : id' = id
  · subst hid
    simp [hbefore nonce', eq_comm]
  · simp [hid]

theorem registered_leave
    (h : node'.sessions = Function.update node.sessions id ⟨.ended, 0⟩) :
    node'.Registered id' nonce ↔ id' ≠ id ∧ node.Registered id' nonce := by
  rw [registered_update h]
  by_cases hid : id' = id
  · simp [hid]
  · simp [hid]

/-- What one event does to the registry and the sessions. -/
inductive Change (node node' : PersistentTestnetNode) : SessionEvent → Prop
  /-- a session moves on without having been or becoming registered -/
  | quiet (event : SessionEvent) (id : ℕ) (session : Session)
      (before : ∀ nonce, ¬ node.Registered id nonce) (after : ∀ nonce, session.stage ≠ .running nonce)
      (captured : session.registeredNonce = session.stage.nonce)
      (nonces : node'.activePeerNonces = node.activePeerNonces)
      (sessions : node'.sessions = Function.update node.sessions id session) : Change node node' event
  /-- a session registers under a nonce that is free -/
  | enter (id : ℕ) (nonce : UInt64) (before : ∀ nonce, ¬ node.Registered id nonce)
      (free : nonce ∉ node.activePeerNonces)
      (nonces : node'.activePeerNonces = insert nonce node.activePeerNonces)
      (sessions : node'.sessions = Function.update node.sessions id ⟨.running nonce, nonce⟩) :
      Change node node' (.register id)
  /-- a registered session ends -/
  | leave (id : ℕ) (nonce : UInt64) (before : node.Registered id nonce)
      (nonces : node'.activePeerNonces =
        if nonce ≠ 0 then node.activePeerNonces.erase nonce else node.activePeerNonces)
      (sessions : node'.sessions = Function.update node.sessions id ⟨.ended, 0⟩) :
      Change node node' (.cleanup id)

theorem step_change {event : SessionEvent} (hcap : node.Captured)
    (h : node.step event = some node') : Change node node' event := by
  cases event with
  | start id =>
    rcases hstage : (node.sessions id).stage with _ | _ | _ | _ | _ | _ | _ <;>
      simp only [step, hstage, Option.some.injEq, reduceCtorEq] at h
    subst h
    exact .quiet _ id _ (by simp [Registered, hstage]) (by simp) rfl rfl rfl
  | handshake id nonce =>
    rcases hstage : (node.sessions id).stage with _ | _ | _ | _ | _ | _ | _ <;>
      simp only [step, hstage, Option.some.injEq, reduceCtorEq] at h
    subst h
    have hzero : (node.sessions id).registeredNonce = 0 := by rw [hcap id, hstage]; rfl
    exact .quiet _ id _ (by simp [Registered, hstage]) (by simp) hzero rfl rfl
  | register id =>
    rcases hstage : (node.sessions id).stage with _ | _ | nonce | _ | _ | _ | _ <;>
      simp only [step, hstage, Option.some.injEq, reduceCtorEq] at h
    subst h
    have hzero : (node.sessions id).registeredNonce = 0 := by rw [hcap id, hstage]; rfl
    have hbefore : ∀ nonce, ¬ node.Registered id nonce := by simp [Registered, hstage]
    unfold register
    by_cases hself : nonce = node.nodeNonce
    · rw [if_pos hself]
      exact .quiet _ id _ hbefore (by simp) hzero rfl rfl
    · rw [if_neg hself]
      by_cases hdup : nonce ∈ node.activePeerNonces
      · rw [if_pos hdup]
        exact .quiet _ id _ hbefore (by simp) hzero rfl rfl
      · rw [if_neg hdup]
        exact .enter id nonce hbefore hdup rfl rfl
  | cleanup id =>
    have hquiet : ∀ stage, (node.sessions id).stage = stage → stage.nonce = 0 →
        (∀ nonce, stage ≠ .running nonce) → Change node (node.cleanup id) (.cleanup id) := by
      intro stage hstage hnonce hrunning
      have hzero : (node.sessions id).registeredNonce = 0 := by rw [hcap id, hstage, hnonce]
      refine .quiet _ id ⟨.ended, 0⟩ ?_ (by simp) rfl ?_ ?_
      · intro nonce h
        exact hrunning nonce (hstage.symm.trans h)
      · simp [cleanup, hzero, setSession]
      · simp [cleanup, hzero, setSession]
    rcases hstage : (node.sessions id).stage with _ | _ | _ | _ | _ | nonce | _ <;>
      simp only [step, hstage, Option.some.injEq, reduceCtorEq] at h <;> subst h
    · exact hquiet _ hstage rfl (by simp)
    · exact hquiet _ hstage rfl (by simp)
    · exact hquiet _ hstage rfl (by simp)
    · exact hquiet _ hstage rfl (by simp)
    · have hnonce : (node.sessions id).registeredNonce = nonce := by rw [hcap id, hstage]; rfl
      refine .leave id nonce hstage ?_ ?_
      · rw [← hnonce]
        by_cases hne : (node.sessions id).registeredNonce ≠ 0
        · simp [cleanup, hne, setSession]
        · simp [cleanup, hne, setSession]
      · by_cases hne : (node.sessions id).registeredNonce ≠ 0
        · simp [cleanup, hne, setSession]
        · simp [cleanup, hne, setSession]

/-! ## Every run -/

/-- What carries the registry through a run. -/
structure Consistent (node : PersistentTestnetNode) : Prop where
  captured : node.Captured
  exact : ∀ nonce, nonce ∈ node.activePeerNonces ↔ ∃ id, node.Registered id nonce
  distinct : ∀ id id' nonce, node.Registered id nonce → node.Registered id' nonce → id = id'

theorem Change.captured {event : SessionEvent} (h : Change node node' event)
    (hcap : node.Captured) : node'.Captured := by
  have hupdate : ∀ (id : ℕ) (session : Session), session.registeredNonce = session.stage.nonce →
      node'.sessions = Function.update node.sessions id session → node'.Captured := by
    intro id session hsession hsessions id'
    rw [hsessions]
    by_cases hid : id' = id
    · subst hid
      rwa [Function.update_self]
    · rw [Function.update_of_ne hid]
      exact hcap id'
  cases h with
  | quiet _ id session _ _ hsession _ hsessions => exact hupdate id session hsession hsessions
  | enter id nonce _ _ _ hsessions => exact hupdate id _ rfl hsessions
  | leave id nonce _ _ hsessions => exact hupdate id _ rfl hsessions

/-- **An event keeps the registry**, unless it ends a session registered under zero. -/
theorem Change.consistent {event : SessionEvent} (h : Change node node' event)
    (hn : node.Consistent) (hzero : ∀ id, event = .cleanup id → ¬ node.Registered id 0) :
    node'.Consistent := by
  refine ⟨h.captured hn.captured, ?_, ?_⟩
  · intro nonce
    cases h with
    | quiet _ id session hbefore hafter _ hnonces hsessions =>
      simp only [hnonces, hn.exact, registered_quiet hbefore hafter hsessions]
    | enter id new hbefore hfree hnonces hsessions =>
      simp only [hnonces, Finset.mem_insert, hn.exact, registered_enter hbefore hsessions]
      constructor
      · rintro (rfl | ⟨id', h⟩)
        · exact ⟨id, .inl ⟨rfl, rfl⟩⟩
        · exact ⟨id', .inr h⟩
      · rintro ⟨id', ⟨-, rfl⟩ | h⟩
        · exact .inl rfl
        · exact .inr ⟨id', h⟩
    | leave id old hbefore hnonces hsessions =>
      have hold : old ≠ 0 := by
        rintro rfl
        exact hzero id rfl hbefore
      rw [hnonces, if_pos hold, Finset.mem_erase, hn.exact nonce]
      simp only [registered_leave hsessions]
      constructor
      · rintro ⟨hne, id', h⟩
        refine ⟨id', ?_, h⟩
        rintro rfl
        exact hne (Stage.running.inj (h.symm.trans hbefore))
      · rintro ⟨id', hid, h⟩
        refine ⟨?_, id', h⟩
        rintro rfl
        exact hid (hn.distinct _ _ _ h hbefore)
  · intro id₁ id₂ nonce h₁ h₂
    cases h with
    | quiet _ id session hbefore hafter _ hnonces hsessions =>
      rw [registered_quiet hbefore hafter hsessions] at h₁ h₂
      exact hn.distinct _ _ _ h₁ h₂
    | enter id new hbefore hfree hnonces hsessions =>
      -- a session registered before does not have the free nonce
      have hother : ∀ id', ¬ node.Registered id' new := fun id' h => hfree ((hn.exact new).2 ⟨id', h⟩)
      rw [registered_enter hbefore hsessions] at h₁ h₂
      rcases h₁ with ⟨rfl, rfl⟩ | h₁
      · rcases h₂ with ⟨rfl, -⟩ | h₂
        · rfl
        · exact absurd h₂ (hother _)
      · rcases h₂ with ⟨rfl, rfl⟩ | h₂
        · exact absurd h₁ (hother _)
        · exact hn.distinct _ _ _ h₁ h₂
    | leave id old hbefore hnonces hsessions =>
      rw [registered_leave hsessions] at h₁ h₂
      exact hn.distinct _ _ _ h₁.2 h₂.2

theorem Consistent.initial (nodeNonce : UInt64) : (initial nodeNonce).Consistent := by
  refine ⟨fun id => rfl, fun nonce => ?_, fun id id' nonce h => ?_⟩
  · simp [PersistentTestnetNode.initial, Registered]
  · cases h

/-- A consistent registry does what it is for. -/
theorem Consistent.registry (hn : node.Consistent) : node.Registry where
  exact := hn.exact
  distinct := hn.distinct
  justified id nonce node' hstage h hdup := by
    simp only [step, hstage, Option.some.injEq] at h
    subst h
    unfold register at hdup
    by_cases hself : nonce = node.nodeNonce
    · simp [hself, setSession] at hdup
    · by_cases hmem : nonce ∈ node.activePeerNonces
      · obtain ⟨id', h⟩ := (hn.exact nonce).1 hmem
        refine ⟨id', ?_, h⟩
        rintro rfl
        cases h.symm.trans hstage
      · simp [hself, hmem, setSession] at hdup
  empty hended := by
    refine Finset.eq_empty_of_forall_notMem fun nonce hmem => ?_
    obtain ⟨id, h⟩ := (hn.exact nonce).1 hmem
    rcases hended id with habsent | hend
    · cases h.symm.trans habsent
    · cases h.symm.trans hend

/-- Where a session registered under zero ends, its nonce stays. -/
theorem not_registry_of_zero (hcap : node.Captured) (hn : node.Registry)
    (hreg : node.Registered id 0) : ∃ node', node.step (.cleanup id) = some node' ∧
      ¬ node'.Registry := by
  have hstep : node.step (.cleanup id) = some (node.cleanup id) := by
    have hstage : (node.sessions id).stage = .running 0 := hreg
    simp only [step, hstage]
  have hnonce : (node.sessions id).registeredNonce = 0 := by
    rw [hcap id, show (node.sessions id).stage = .running 0 from hreg]
    rfl
  have hnonces : (node.cleanup id).activePeerNonces = node.activePeerNonces := by
    simp [cleanup, hnonce, setSession]
  have hsessions : (node.cleanup id).sessions = Function.update node.sessions id ⟨.ended, 0⟩ := by
    simp [cleanup, hnonce, setSession]
  refine ⟨_, hstep, fun hregistry => ?_⟩
  have hmem : (0 : UInt64) ∈ (node.cleanup id).activePeerNonces := by
    rw [hnonces, hn.exact 0]
    exact ⟨id, hreg⟩
  obtain ⟨id', h⟩ := (hregistry.exact 0).1 hmem
  obtain ⟨hid, h⟩ := (registered_leave hsessions).1 h
  exact hid (hn.distinct _ _ _ h hreg)

theorem captured_of_run {nodeNonce : UInt64} {events : List SessionEvent}
    (h : (initial nodeNonce).Runs events node) : node.Captured :=
  h.invariant (fun _ _ _ hcap hstep => (step_change hcap hstep).captured hcap) fun _ => rfl

/-- The registry stays consistent along a run in which no session registered under zero ends. -/
theorem consistent_of_run {first : PersistentTestnetNode} {events : List SessionEvent}
    (h : first.Runs events node) (hfirst : first.Consistent)
    (hzero : ∀ pre id post node₁, events = pre ++ .cleanup id :: post → first.Runs pre node₁ →
      ¬ node₁.Registered id 0) : node.Consistent := by
  induction h with
  | nil => exact hfirst
  | cons head tail ih =>
    refine ih ((step_change hfirst.captured head).consistent hfirst ?_) ?_
    · rintro id rfl
      exact hzero [] id _ _ rfl .nil
    · rintro pre id post node₁ rfl hrun
      exact hzero (_ :: pre) id post node₁ rfl (.cons head hrun)

end

/-- **The registry of peer nonces** is right all along a run if and only if no session ends that has
    registered the nonce zero: the variable its cleanup closure captures says then that it has not
    registered. -/
theorem registry_iff (nodeNonce : UInt64) (events : List SessionEvent) :
    (∀ pre post node, events = pre ++ post → (initial nodeNonce).Runs pre node → node.Registry) ↔
      ∀ pre id post node, events = pre ++ .cleanup id :: post →
        (initial nodeNonce).Runs pre node → ¬ node.Registered id 0 := by
  constructor
  · intro hall pre id post node heq hrun hreg
    obtain ⟨node', hstep, hbad⟩ :=
      not_registry_of_zero (captured_of_run hrun) (hall pre _ node heq hrun) hreg
    refine hbad (hall (pre ++ [.cleanup id]) post node' ?_ (hrun.append (.single hstep)))
    rw [heq, List.append_assoc, List.singleton_append]
  · rintro hzero pre post node rfl hrun
    refine (consistent_of_run hrun (Consistent.initial nodeNonce) ?_).registry
    rintro pre' id post' node₁ rfl hrun'
    exact hzero pre' id (post' ++ post) node₁ (by simp) hrun'

/-- A peer with the nonce zero connects and leaves; when it comes back it is a duplicate of no one,
    and when it has left again its nonce is still there. -/
theorem registry_keeps_zero : ∃ node₁ node₂ node₃,
    (initial 7).Runs [.start 0, .handshake 0 0, .register 0, .cleanup 0, .start 1, .handshake 1 0]
      node₁ ∧
    node₁.step (.register 1) = some node₂ ∧ (node₂.sessions 1).stage = .duplicate ∧
    (∀ id nonce, ¬ node₁.Registered id nonce) ∧
    node₂.step (.cleanup 1) = some node₃ ∧
    (∀ id, (node₃.sessions id).stage = .absent ∨ (node₃.sessions id).stage = .ended) ∧
    0 ∈ node₃.activePeerNonces := by
  refine ⟨_, _, _, .cons rfl (.cons rfl (.cons rfl (.cons rfl (.cons rfl (.cons rfl .nil))))), rfl,
    rfl, ?_, rfl, ?_, ?_⟩
  · intro id nonce
    rcases id with _ | _ | id <;>
      simp [Registered, setSession, cleanup, register, initial, Function.update]
  · intro id
    rcases id with _ | _ | id <;> simp [setSession, cleanup, register, initial, Function.update]
  · decide

end PersistentTestnetNode

end BinaryCoin
