/-
  BinaryCoin — net.cpp: the loop of `session_loop`.

  One iteration waits for a message, handles it, and then looks at the timers:
  an unanswered ping that is too old ends the session, and a new ping is sent
  when the last one is old enough.  Handlers leave the iteration with
  `continue`, and so does an exception that is caught, so what follows the
  messages is not always reached.

  What the sockets, the other handlers and the random generator do in an
  iteration is its `Arrival`, which is arbitrary.  A ban that cannot be written
  to disk is left out.
-/
import BinaryCoin.Frame
import BinaryCoin.Lib.Runs

namespace BinaryCoin

open Runs

/-! ## State -/

/-- A point in time or a duration, in nanoseconds (`std::chrono::steady_clock`). -/
abbrev Time := ℤ

def milliseconds (n : ℤ) : Time := 1000000 * n

/-- net.hpp: the limits of a session. -/
structure NetworkPolicy where
  banThreshold : UInt32
  pingInterval : Time
  pingTimeout : Time
  messageWindow : Time
  maxMessagesPerWindow : ℕ

/-- `static_cast<int>(policy_.ban_threshold)` -/
def NetworkPolicy.threshold (policy : NetworkPolicy) : ℤ := policy.banThreshold.toInt32.toInt

/-- The timers of a session. -/
structure Timers where
  lastInventoryScan : Time
  lastPing : Time
  pingSent : Time
  outstandingPing : Option UInt64

/-- The variables of the loop. -/
structure SessionLoop extends Timers where
  misbehaviorScore : ℤ
  messageWindowStarted : Time
  messagesInWindow : ℕ

/-- Before the first iteration. -/
def SessionLoop.initial (now : Time) : SessionLoop where
  lastInventoryScan := now - milliseconds 1000
  lastPing := now
  pingSent := now
  outstandingPing := none
  misbehaviorScore := 0
  messageWindowStarted := now
  messagesInWindow := 0

/-- What a handler of another message does to the loop: it adds to the score, or throws. -/
inductive Handled where
  | done (penalty : ℕ)
  | thrown (e : Exn)

/-- What comes from outside in one iteration. -/
structure Arrival where
  /-- `socket_readable` -/
  readable : Except Exn Bool
  /-- `receive_message`, if the socket is readable -/
  message : Except Exn Message
  receivedAt : Time
  /-- the handler, if it is not one of those below -/
  handled : Handled
  /-- `send_message` of a `pong`, of the inventory and of a `ping` -/
  sendPong : Except Exn Unit
  sendInventory : Except Exn Unit
  sendPing : Except Exn Unit
  /-- `random_nonce` -/
  nonce : UInt64
  /-- the clock after the messages -/
  now : Time

/-! ## One iteration -/

/-- How a part of the loop's body is left without an exception. -/
inductive Exit where
  | proceed
  | continued
  | returned

/-- The messages that other parts of the node answer.  Each of their handlers ends in `continue`. -/
def otherCommands : List Str :=
  [str "getheaders", str "headers", str "getaddr", str "addrv2", str "getblocks", str "blocks",
    str "getmempool", str "getstatus", str "status", str "inv", str "getdata", str "tx", str "block"]

abbrev LoopM := EStateM Exn SessionLoop

def penalize (penalty : ℕ) : LoopM Unit :=
  modify fun s => { s with misbehaviorScore := s.misbehaviorScore + penalty }

def dispatch (arrival : Arrival) (message : Message) : LoopM Exit := do
  if message.command ∈ otherCommands then
    match arrival.handled with
    | .done penalty =>
      penalize penalty
      return .continued
    | .thrown e => throw e
  else if message.command = str "ping" then
    throwIf (message.payload.length ≠ 8) (runtimeError "ping nonce must be 8 bytes")
    arrival.sendPong
    return .continued
  else if message.command = str "pong" then
    if message.payload.length ≠ 8 then
      penalize 10
      return .continued
    else
      let nonce := UInt64.ofNat (LittleEndian.ofLe message.payload)
      if (← get).outstandingPing ≠ some nonce then penalize 5
      else modify fun s => { s with outstandingPing := none }
      return .continued
  else if message.command = str "txack" ∨ message.command = str "notfound" then
    return .continued
  else if message.command = str "bye" then
    return .returned
  else
    penalize 10
    return .proceed

/-- The rate limit: the message is counted in its window. -/
def countMessage (policy : NetworkPolicy) (arrival : Arrival) (s : SessionLoop) : SessionLoop :=
  let s := if arrival.receivedAt - s.messageWindowStarted ≥ policy.messageWindow then
      { s with messageWindowStarted := arrival.receivedAt, messagesInWindow := 0 }
    else s
  { s with messagesInWindow := s.messagesInWindow + 1 }

def receive (policy : NetworkPolicy) (arrival : Arrival) : LoopM Exit := do
  if ← arrival.readable then
    let message ← arrival.message
    modify (countMessage policy arrival)
    if (← get).messagesInWindow > policy.maxMessagesPerWindow then return .returned
    dispatch arrival message
  else return .proceed

def scanInventory (arrival : Arrival) : LoopM Unit := do
  if arrival.now - (← get).lastInventoryScan ≥ milliseconds 200 then
    arrival.sendInventory
    modify fun s => { s with lastInventoryScan := arrival.now }

def checkPing (policy : NetworkPolicy) (arrival : Arrival) : LoopM Exit := do
  let s ← get
  if s.outstandingPing.isSome ∧ arrival.now - s.pingSent ≥ policy.pingTimeout then return .returned
  if s.outstandingPing.isNone ∧ arrival.now - s.lastPing ≥ policy.pingInterval then
    arrival.sendPing
    modify fun s => { s with
      outstandingPing := some arrival.nonce
      pingSent := arrival.now
      lastPing := arrival.now }
  if (← get).misbehaviorScore ≥ policy.threshold then return .returned
  return .continued

/-- What follows the messages. -/
def checkTimers (policy : NetworkPolicy) (arrival : Arrival) : LoopM Exit := do
  scanInventory arrival
  checkPing policy arrival

def loopBody (policy : NetworkPolicy) (arrival : Arrival) : LoopM Exit := do
  match ← receive policy arrival with
  | .proceed => checkTimers policy arrival
  | exit => return exit

/-- `text.find(part) != std::string::npos` -/
def contains (text part : String) : Bool := decide (part.toList <:+: text.toList)

def startsWith (text part : String) : Bool := decide (part.toList <+: text.toList)

/-- The `catch` clause, for `std::runtime_error` and what derives from it. -/
def catchRuntimeError (policy : NetworkPolicy) (e : Exn) (s : SessionLoop) : Option SessionLoop :=
  if e.kind ≠ .runtimeError ∧ e.kind ≠ .systemError then none
  else if startsWith e.what "recv failed:" ∨ startsWith e.what "send failed:" ∨
      startsWith e.what "select failed:" then none
  else if contains e.what "closed" ∨ contains e.what "Connection reset" ∨
      contains e.what "Broken pipe" then none
  else if contains e.what "Resource temporarily unavailable" ∨
      contains e.what "Operation timed out" then none
  else
    let s := { s with misbehaviorScore := s.misbehaviorScore + 25 }
    if s.misbehaviorScore ≥ policy.threshold then none else some s

/-- One iteration; nothing is left when the session ends in it. -/
def iteration (policy : NetworkPolicy) (s : SessionLoop) (arrival : Arrival) : Option SessionLoop :=
  if s.misbehaviorScore ≥ policy.threshold then none
  else match (loopBody policy arrival).run s with
    | .ok .returned _ => none
    | .ok _ s' => some s'
    | .error e s' => catchRuntimeError policy e s'

/-- The iterations of a session that is still alive. -/
abbrev Iterations (policy : NetworkPolicy) (s : SessionLoop) (arrivals : List Arrival)
    (s' : SessionLoop) : Prop :=
  Run (fun s arrival s' => iteration policy s arrival = some s') s arrivals s'

/-! ## The timers along an iteration -/

/-- The ping that is out is too old, or the next one should be out. -/
def Timers.Due (policy : NetworkPolicy) (timers : Timers) (now : Time) : Prop :=
  match timers.outstandingPing with
  | some _ => policy.pingTimeout ≤ now - timers.pingSent
  | none => policy.pingInterval ≤ now - timers.lastPing

namespace Arrival

/-- The message of an iteration. -/
def received (arrival : Arrival) : Option Message :=
  match arrival.readable, arrival.message with
  | .ok true, .ok message => some message
  | _, _ => none

/-- The message answers the ping with this nonce. -/
def Answers (arrival : Arrival) (nonce : UInt64) : Prop :=
  ∃ message, arrival.received = some message ∧ message.command = str "pong" ∧
    message.payload.length = 8 ∧ UInt64.ofNat (LittleEndian.ofLe message.payload) = nonce

/-- The messages that are handled with `continue`. -/
def handledCommands : List Str :=
  otherCommands ++ [str "ping", str "pong", str "txack", str "notfound"]

/-- Something is handled, or no message can be received: the iteration does not get past the
    messages. -/
def Leaves (arrival : Arrival) : Prop :=
  (∃ e, arrival.readable = .error e) ∨
  (arrival.readable = .ok true ∧ ∃ e, arrival.message = .error e) ∨
  ∃ message, arrival.received = some message ∧ message.command ∈ handledCommands

end Arrival

section
variable {policy : NetworkPolicy} {arrival : Arrival} {s s' : SessionLoop}

/-- The timers after the messages. -/
structure Received (arrival : Arrival) (before after : Timers) : Prop where
  lastInventoryScan : after.lastInventoryScan = before.lastInventoryScan
  lastPing : after.lastPing = before.lastPing
  pingSent : after.pingSent = before.pingSent
  answered : ∀ nonce, before.outstandingPing = some nonce → arrival.Answers nonce →
    after.outstandingPing = none
  kept : (∀ nonce, before.outstandingPing = some nonce → ¬ arrival.Answers nonce) →
    after.outstandingPing = before.outstandingPing

theorem Received.of_eq {before after : Timers} (h : after = before)
    (hnot : ∀ nonce, ¬ arrival.Answers nonce) : Received arrival before after := by
  subst h
  exact ⟨rfl, rfl, rfl, fun nonce _ h => absurd h (hnot nonce), fun _ => rfl⟩

/-- How the part of the body up to the timers ends. -/
inductive Left (arrival : Arrival) (s : SessionLoop) : EStateM.Result Exn SessionLoop Exit → Prop
  | proceed {s' : SessionLoop} (hnot : ¬ arrival.Leaves) (h : s'.toTimers = s.toTimers) :
      Left arrival s (.ok .proceed s')
  | continued {s' : SessionLoop} (hleaves : arrival.Leaves)
      (h : Received arrival s.toTimers s'.toTimers) : Left arrival s (.ok .continued s')
  | returned {s' : SessionLoop} : Left arrival s (.ok .returned s')
  | thrown {s' : SessionLoop} {e : Exn} (hleaves : arrival.Leaves)
      (h : Received arrival s.toTimers s'.toTimers) : Left arrival s (.error e s')

theorem throwIf_bind_run {c : Prop} [Decidable c] {e : Exn} {f : Unit → LoopM Exit} :
    (throwIf c e >>= f).run s = if c then .error e s else (f ()).run s := by
  by_cases h : c
  · rw [if_pos h, throwIf, if_pos h]
    rfl
  · rw [if_neg h, throwIf, if_neg h]
    rfl

theorem Arrival.Answers.leaves {nonce : UInt64} (h : arrival.Answers nonce) : arrival.Leaves := by
  obtain ⟨message, hreceived, hpong, -⟩ := h
  exact .inr (.inr ⟨message, hreceived, by rw [hpong]; decide⟩)

theorem dispatch_left {message : Message} (hmessage : arrival.received = some message) :
    Left arrival s ((dispatch arrival message).run s) := by
  have hanswers : ∀ nonce, arrival.Answers nonce ↔ message.command = str "pong" ∧
      message.payload.length = 8 ∧ UInt64.ofNat (LittleEndian.ofLe message.payload) = nonce := by
    intro nonce
    simp [Arrival.Answers, hmessage]
  have hleaves : message.command ∈ Arrival.handledCommands → arrival.Leaves := by
    intro h
    exact .inr (.inr ⟨message, hmessage, h⟩)
  have hsame : message.command ≠ str "pong" → Received arrival s.toTimers s.toTimers := by
    intro hne
    exact .of_eq rfl fun nonce h => hne ((hanswers nonce).1 h).1
  unfold dispatch
  by_cases hother : message.command ∈ otherCommands
  · have hne : message.command ≠ str "pong" := by
      intro h
      rw [h] at hother
      exact absurd hother (by decide)
    rw [if_pos hother]
    cases arrival.handled with
    | done penalty => exact .continued (hleaves (List.mem_append_left _ hother)) (hsame hne)
    | thrown e => exact .thrown (hleaves (List.mem_append_left _ hother)) (hsame hne)
  rw [if_neg hother]
  by_cases hping : message.command = str "ping"
  · have hmem : message.command ∈ Arrival.handledCommands := by rw [hping]; decide
    have hne : message.command ≠ str "pong" := by rw [hping]; decide
    rw [if_pos hping, throwIf_bind_run]
    by_cases hlen : message.payload.length ≠ 8
    · rw [if_pos hlen]
      exact .thrown (hleaves hmem) (hsame hne)
    · rw [if_neg hlen]
      cases arrival.sendPong with
      | ok _ => exact .continued (hleaves hmem) (hsame hne)
      | error e => exact .thrown (hleaves hmem) (hsame hne)
  rw [if_neg hping]
  by_cases hpong : message.command = str "pong"
  · have hmem : message.command ∈ Arrival.handledCommands := by rw [hpong]; decide
    rw [if_pos hpong]
    by_cases hlen : message.payload.length ≠ 8
    · rw [if_pos hlen]
      exact .continued (hleaves hmem) (.of_eq rfl fun nonce h => hlen ((hanswers nonce).1 h).2.1)
    · rw [if_neg hlen]
      show Left arrival s ((do
        if s.outstandingPing ≠ some (UInt64.ofNat (LittleEndian.ofLe message.payload)) then penalize 5
        else modify fun s => { s with outstandingPing := none }
        return .continued : LoopM Exit).run s)
      by_cases hnonce : s.outstandingPing ≠ some (UInt64.ofNat (LittleEndian.ofLe message.payload))
      · rw [if_pos hnonce]
        refine .continued (hleaves hmem) ⟨rfl, rfl, rfl, ?_, fun _ => rfl⟩
        intro nonce hout h
        exact absurd (((hanswers nonce).1 h).2.2 ▸ hout) hnonce
      · rw [if_neg hnonce]
        refine .continued (hleaves hmem) ⟨rfl, rfl, rfl, fun _ _ _ => rfl, ?_⟩
        intro hnot
        rw [not_not] at hnonce hlen
        exact absurd ((hanswers _).2 ⟨hpong, hlen, rfl⟩) (hnot _ hnonce)
  rw [if_neg hpong]
  by_cases hack : message.command = str "txack" ∨ message.command = str "notfound"
  · have hmem : message.command ∈ Arrival.handledCommands := by
      rcases hack with h | h <;> rw [h] <;> decide
    rw [if_pos hack]
    exact .continued (hleaves hmem) (hsame hpong)
  rw [if_neg hack]
  by_cases hbye : message.command = str "bye"
  · rw [if_pos hbye]
    exact .returned
  · rw [if_neg hbye]
    refine .proceed ?_ rfl
    rintro (⟨e, h⟩ | ⟨-, e, h⟩ | ⟨_, h, hmem⟩)
    · simp [Arrival.received, h] at hmessage
    · simp [Arrival.received, h] at hmessage
    · obtain rfl : message = _ := Option.some.inj (hmessage.symm.trans h)
      simp only [Arrival.handledCommands, List.mem_append, List.mem_cons, List.not_mem_nil, or_false]
        at hmem
      rcases hmem with h | h | h | h | h
      · exact hother h
      · exact hping h
      · exact hpong h
      · exact hack (.inl h)
      · exact hack (.inr h)

theorem Left.congr {s₁ : SessionLoop} {r : EStateM.Result Exn SessionLoop Exit}
    (h : s₁.toTimers = s.toTimers) (hleft : Left arrival s₁ r) : Left arrival s r := by
  cases hleft with
  | proceed hnot hsame => exact .proceed hnot (hsame.trans h)
  | continued hleaves hrec => exact .continued hleaves (h ▸ hrec)
  | returned => exact .returned
  | thrown hleaves hrec => exact .thrown hleaves (h ▸ hrec)

theorem receive_left : Left arrival s ((receive policy arrival).run s) := by
  have hsame : arrival.received = none → Received arrival s.toTimers s.toTimers := by
    intro hnone
    refine .of_eq rfl fun nonce h => ?_
    obtain ⟨message, h, -⟩ := h
    cases hnone.symm.trans h
  unfold receive
  rw [EStateM.run_bind]
  cases hreadable : arrival.readable with
  | error e => exact .thrown (.inl ⟨e, hreadable⟩) (hsame (by simp [Arrival.received, hreadable]))
  | ok readable =>
    cases readable with
    | false =>
      refine .proceed ?_ rfl
      rintro (⟨e, h⟩ | ⟨h, -⟩ | ⟨_, h, -⟩)
      · cases hreadable.symm.trans h
      · cases hreadable.symm.trans h
      · simp [Arrival.received, hreadable] at h
    | true =>
      cases hmessage : arrival.message with
      | error e =>
        exact .thrown (.inr (.inl ⟨hreadable, e, hmessage⟩))
          (hsame (by simp [Arrival.received, hreadable, hmessage]))
      | ok message =>
        have hreceived : arrival.received = some message := by
          simp [Arrival.received, hreadable, hmessage]
        have hcount : (countMessage policy arrival s).toTimers = s.toTimers := by
          unfold countMessage
          by_cases hwindow : arrival.receivedAt - s.messageWindowStarted ≥ policy.messageWindow
          · simp only [hwindow, if_true]
          · simp only [hwindow, if_false]
        show Left arrival s ((do
          if (countMessage policy arrival s).messagesInWindow > policy.maxMessagesPerWindow then
            return .returned
          dispatch arrival message : LoopM Exit).run (countMessage policy arrival s))
        by_cases hlimit : (countMessage policy arrival s).messagesInWindow >
            policy.maxMessagesPerWindow
        · rw [if_pos hlimit]
          exact .returned
        · rw [if_neg hlimit]
          exact .congr hcount (dispatch_left hreceived)

namespace Arrival

/-- The inventory is due and cannot be sent. -/
def InventoryFails (arrival : Arrival) (timers : Timers) : Prop :=
  milliseconds 200 ≤ arrival.now - timers.lastInventoryScan ∧ ∃ e, arrival.sendInventory = .error e

/-- A ping is due and cannot be sent. -/
def PingFails (policy : NetworkPolicy) (arrival : Arrival) (timers : Timers) : Prop :=
  timers.outstandingPing = none ∧ policy.pingInterval ≤ arrival.now - timers.lastPing ∧
    ∃ e, arrival.sendPing = .error e

end Arrival

/-- How a part of the body after the messages ends. -/
inductive Checked (policy : NetworkPolicy) (arrival : Arrival) (fails : Prop) (timers : Timers) :
    EStateM.Result Exn SessionLoop Exit → Prop
  | continued {s' : SessionLoop} (hok : ¬ fails) (h : s'.Due policy arrival.now ↔
        timers.outstandingPing = none ∧ policy.pingInterval ≤ arrival.now - timers.lastPing ∧
        policy.pingTimeout ≤ 0) : Checked policy arrival fails timers (.ok .continued s')
  | returned {s' : SessionLoop} : Checked policy arrival fails timers (.ok .returned s')
  | thrown {s' : SessionLoop} {e : Exn} (hfails : fails)
      (h : s'.Due policy arrival.now ↔ timers.Due policy arrival.now) :
      Checked policy arrival fails timers (.error e s')

theorem Checked.imp {fails fails' : Prop} {timers : Timers}
    {r : EStateM.Result Exn SessionLoop Exit} (hiff : fails ↔ fails')
    (h : Checked policy arrival fails timers r) : Checked policy arrival fails' timers r := by
  rwa [← propext hiff]

/-- The last check, and the end of the body. -/
theorem checked_score {timers : Timers} {fails : Prop} (hok : ¬ fails)
    (h : s.Due policy arrival.now ↔ timers.outstandingPing = none ∧
      policy.pingInterval ≤ arrival.now - timers.lastPing ∧ policy.pingTimeout ≤ 0) :
    Checked policy arrival fails timers ((do
      if (← get).misbehaviorScore ≥ policy.threshold then return .returned
      return .continued : LoopM Exit).run s) := by
  show Checked policy arrival fails timers ((if s.misbehaviorScore ≥ policy.threshold then
    pure .returned else pure .continued : LoopM Exit).run s)
  by_cases hscore : s.misbehaviorScore ≥ policy.threshold
  · rw [if_pos hscore]
    exact .returned
  · rw [if_neg hscore]
    exact .continued hok h

theorem checkPing_checked : Checked policy arrival (arrival.PingFails policy s.toTimers) s.toTimers
    ((checkPing policy arrival).run s) := by
  unfold checkPing
  rw [EStateM.run_bind]
  show Checked policy arrival _ _ ((do
    if s.outstandingPing.isSome ∧ arrival.now - s.pingSent ≥ policy.pingTimeout then return .returned
    if s.outstandingPing.isNone ∧ arrival.now - s.lastPing ≥ policy.pingInterval then
      arrival.sendPing
      modify fun s => { s with
        outstandingPing := some arrival.nonce
        pingSent := arrival.now
        lastPing := arrival.now }
    if (← get).misbehaviorScore ≥ policy.threshold then return .returned
    return .continued : LoopM Exit).run s)
  by_cases htimeout : s.outstandingPing.isSome ∧ arrival.now - s.pingSent ≥ policy.pingTimeout
  · rw [if_pos htimeout]
    exact .returned
  · rw [if_neg htimeout]
    by_cases hinterval : s.outstandingPing.isNone ∧ arrival.now - s.lastPing ≥ policy.pingInterval
    · rw [if_pos hinterval]
      have hnone : s.outstandingPing = none := Option.isNone_iff_eq_none.1 hinterval.1
      cases hsend : arrival.sendPing with
      | error e => exact .thrown ⟨hnone, hinterval.2, e, hsend⟩ Iff.rfl
      | ok _ =>
        refine checked_score ?_ ?_
        · rintro ⟨-, -, e, h⟩
          cases hsend.symm.trans h
        · simp [Timers.Due, hnone, hinterval.2]
    · rw [if_neg hinterval]
      refine checked_score ?_ ?_
      · rintro ⟨hnone, hle, -⟩
        exact hinterval ⟨Option.isNone_iff_eq_none.2 hnone, hle⟩
      · cases hout : s.outstandingPing with
        | none =>
          refine iff_of_false ?_ fun h => hinterval ⟨by simp [hout], h.2.1⟩
          simp only [Timers.Due, hout]
          intro hle
          exact hinterval ⟨by simp [hout], hle⟩
        | some nonce =>
          refine iff_of_false ?_ fun h => nomatch h.1
          simp only [Timers.Due, hout]
          intro hle
          exact htimeout ⟨by simp [hout], hle⟩

theorem Checked.of_ping {fails : Prop} {timers timers' : Timers}
    {r : EStateM.Result Exn SessionLoop Exit} (hout : timers.outstandingPing = timers'.outstandingPing)
    (hlast : timers.lastPing = timers'.lastPing) (hsent : timers.pingSent = timers'.pingSent)
    (h : Checked policy arrival fails timers r) : Checked policy arrival fails timers' r := by
  cases h with
  | continued hok h => exact .continued hok (by rw [h, hout, hlast])
  | returned => exact .returned
  | thrown hfails h => exact .thrown hfails (by rw [h, Timers.Due, Timers.Due, hout, hlast, hsent])

theorem scanInventory_run : (scanInventory arrival).run s =
    if arrival.now - s.lastInventoryScan ≥ milliseconds 200 then
      match arrival.sendInventory with
      | .ok _ => .ok () { s with lastInventoryScan := arrival.now }
      | .error e => .error e s
    else .ok () s := by
  show (if arrival.now - s.lastInventoryScan ≥ milliseconds 200 then (do
      arrival.sendInventory
      modify fun s => { s with lastInventoryScan := arrival.now }) else pure () : LoopM Unit).run s = _
  by_cases hscan : arrival.now - s.lastInventoryScan ≥ milliseconds 200
  · rw [if_pos hscan, if_pos hscan]
    cases arrival.sendInventory <;> rfl
  · rw [if_neg hscan, if_neg hscan]
    rfl

theorem checkTimers_checked : Checked policy arrival
    (arrival.InventoryFails s.toTimers ∨ arrival.PingFails policy s.toTimers) s.toTimers
    ((checkTimers policy arrival).run s) := by
  rw [checkTimers, EStateM.run_bind, scanInventory_run]
  by_cases hscan : arrival.now - s.lastInventoryScan ≥ milliseconds 200
  · rw [if_pos hscan]
    cases hsend : arrival.sendInventory with
    | error e => exact .thrown (.inl ⟨hscan, e, hsend⟩) Iff.rfl
    | ok _ =>
      have hfails : arrival.PingFails policy { s.toTimers with lastInventoryScan := arrival.now } ↔
          arrival.InventoryFails s.toTimers ∨ arrival.PingFails policy s.toTimers := by
        refine Iff.trans Iff.rfl (or_iff_right ?_).symm
        rintro ⟨-, e, h⟩
        cases hsend.symm.trans h
      have hchecked : Checked policy arrival _ _ ((checkPing policy arrival).run
          { s with lastInventoryScan := arrival.now }) := checkPing_checked
      show Checked policy arrival _ s.toTimers ((checkPing policy arrival).run
        { s with lastInventoryScan := arrival.now })
      refine .of_ping ?_ ?_ ?_ (hchecked.imp hfails) <;> rfl
  · rw [if_neg hscan]
    exact checkPing_checked.imp (or_iff_right fun h => hscan h.1).symm

/-- The timers are due after the messages, if these got that far. -/
def Timers.DueAfter (policy : NetworkPolicy) (arrival : Arrival) (timers : Timers) : Prop :=
  (∃ nonce, timers.outstandingPing = some nonce ∧ ¬ arrival.Answers nonce ∧
    policy.pingTimeout ≤ arrival.now - timers.pingSent) ∨
  ((∀ nonce, timers.outstandingPing = some nonce → arrival.Answers nonce) ∧
    policy.pingInterval ≤ arrival.now - timers.lastPing)

theorem Received.due {before after : Timers} (h : Received arrival before after) :
    after.Due policy arrival.now ↔ before.DueAfter policy arrival := by
  unfold Timers.DueAfter
  cases hout : before.outstandingPing with
  | none =>
    have hkept : after.outstandingPing = none := by
      rw [h.kept (by simp [hout]), hout]
    simp [Timers.Due, hkept, h.lastPing]
  | some nonce =>
    by_cases hanswers : arrival.Answers nonce
    · have hnone := h.answered nonce hout hanswers
      simp [Timers.Due, hnone, h.lastPing, hanswers]
    · have hkept : after.outstandingPing = some nonce := by
        rw [h.kept ?_, hout]
        intro nonce' h'
        obtain rfl := Option.some.inj (hout.symm.trans h')
        exact hanswers
      simp [Timers.Due, hkept, h.pingSent, hanswers]

/-- The iteration does not get to the end of its body. -/
def Arrival.Skips (policy : NetworkPolicy) (arrival : Arrival) (timers : Timers) : Prop :=
  arrival.Leaves ∨ arrival.InventoryFails timers ∨ arrival.PingFails policy timers

/-- Where an iteration does not get to the end of its body, no timer is due; where it sends a ping,
    the ping is not too old at once. -/
structure Timely (policy : NetworkPolicy) (arrival : Arrival) (timers : Timers) : Prop where
  skips : arrival.Skips policy timers → ¬ timers.DueAfter policy arrival
  sends : timers.outstandingPing = none → policy.pingInterval ≤ arrival.now - timers.lastPing →
    ¬ arrival.Skips policy timers → 0 < policy.pingTimeout

theorem catchRuntimeError_timers {e : Exn} (h : catchRuntimeError policy e s = some s') :
    s'.toTimers = s.toTimers := by
  simp only [catchRuntimeError] at h
  split_ifs at h
  obtain rfl := Option.some.inj h
  rfl

/-- **An iteration that leaves the session alive** has enforced the deadlines exactly if it was
    timely. -/
theorem iteration_due (h : iteration policy s arrival = some s') :
    ¬ s'.Due policy arrival.now ↔ Timely policy arrival s.toTimers := by
  unfold iteration at h
  by_cases hscore : s.misbehaviorScore ≥ policy.threshold
  · rw [if_pos hscore] at h
    cases h
  rw [if_neg hscore, loopBody, EStateM.run_bind] at h
  -- an iteration that skips the timers leaves them as they are after the messages
  have hskip : arrival.Skips policy s.toTimers →
      (s'.Due policy arrival.now ↔ s.DueAfter policy arrival) →
      (¬ s'.Due policy arrival.now ↔ Timely policy arrival s.toTimers) := by
    intro hskips hdue
    rw [hdue]
    exact ⟨fun hnot => ⟨fun _ => hnot, fun _ _ hnot => absurd hskips hnot⟩,
      fun htimely => htimely.skips hskips⟩
  have hleft : Left arrival s ((receive policy arrival).run s) := receive_left
  generalize (receive policy arrival).run s = r at h hleft
  cases hleft with
  | continued hleaves hrec =>
    obtain rfl := Option.some.inj h
    exact hskip (.inl hleaves) hrec.due
  | returned => cases h
  | thrown hleaves hrec =>
    have htimers := catchRuntimeError_timers h
    exact hskip (.inl hleaves) (htimers ▸ hrec.due)
  | @proceed s₁ hnot hsame =>
    have hchecked : Checked policy arrival _ s₁.toTimers ((checkTimers policy arrival).run s₁) :=
      checkTimers_checked
    rw [hsame] at hchecked
    change (match (checkTimers policy arrival).run s₁ with
      | .ok .returned _ => none
      | .ok _ s' => some s'
      | .error e s' => catchRuntimeError policy e s') = some s' at h
    generalize (checkTimers policy arrival).run s₁ = r at h hchecked
    cases hchecked with
    | continued hok hdue =>
      obtain rfl := Option.some.inj h
      have hskips : ¬ arrival.Skips policy s.toTimers := not_or.2 ⟨hnot, hok⟩
      rw [hdue]
      constructor
      · intro hzero
        refine ⟨fun h => absurd h hskips, fun hnone hle _ => ?_⟩
        by_contra hpos
        exact hzero ⟨hnone, hle, not_lt.1 hpos⟩
      · rintro htimely ⟨hnone, hle, hzero⟩
        exact absurd (htimely.sends hnone hle hskips) (not_lt.2 hzero)
    | returned => cases h
    | thrown hfails hdue =>
      have htimers := catchRuntimeError_timers h
      have hrec : Received arrival s.toTimers s.toTimers :=
        .of_eq rfl fun nonce hanswers => hnot hanswers.leaves
      refine hskip (.inr hfails) ?_
      rw [htimers, hdue, hrec.due]

/-- **The deadlines of pings** are enforced all along a session if and only if every iteration is
    timely that leaves the session alive. -/
theorem pings_enforced_iff (start : Time) (arrivals : List Arrival) :
    (∀ pre arrival post s s', arrivals = pre ++ arrival :: post →
      Iterations policy (.initial start) pre s → iteration policy s arrival = some s' →
      ¬ s'.Due policy arrival.now) ↔
    ∀ pre arrival post s s', arrivals = pre ++ arrival :: post →
      Iterations policy (.initial start) pre s → iteration policy s arrival = some s' →
      Timely policy arrival s.toTimers := by
  constructor
  · intro hall pre arrival post s s' heq hrun hstep
    exact (iteration_due hstep).1 (hall pre arrival post s s' heq hrun hstep)
  · intro hall pre arrival post s s' heq hrun hstep
    exact (iteration_due hstep).2 (hall pre arrival post s s' heq hrun hstep)

end

/-! ## A peer that only pings -/

def samplePolicy : NetworkPolicy where
  banThreshold := 100
  pingInterval := milliseconds 100
  pingTimeout := milliseconds 350
  messageWindow := milliseconds 10000
  maxMessagesPerWindow := 2000

/-- An iteration at `n` milliseconds in which everything works. -/
def sampleArrival (n : ℤ) (message : Option Message) : Arrival where
  readable := .ok message.isSome
  message := .ok (message.getD ⟨[], []⟩)
  receivedAt := milliseconds n
  handled := .done 0
  sendPong := .ok ()
  sendInventory := .ok ()
  sendPing := .ok ()
  nonce := 7
  now := milliseconds n

def peerPing : Message := ⟨str "ping", [1, 2, 3, 4, 5, 6, 7, 8]⟩

/-- The node pings its peer, which does not answer but sends a ping of its own every 100
    milliseconds: 400 milliseconds later the session is still alive. -/
theorem pings_not_enforced : ∃ s s',
    Iterations samplePolicy (.initial 0) [sampleArrival 100 none, sampleArrival 200 peerPing,
      sampleArrival 300 peerPing, sampleArrival 400 peerPing] s ∧
    iteration samplePolicy s (sampleArrival 500 peerPing) = some s' ∧
    s'.outstandingPing = some 7 ∧ s'.pingSent = milliseconds 100 ∧
    s'.Due samplePolicy (milliseconds 500) := by
  refine ⟨_, _, .cons rfl (.cons rfl (.cons rfl (.cons rfl .nil))), rfl, rfl, rfl, ?_⟩
  show samplePolicy.pingTimeout ≤ milliseconds 500 - milliseconds 100
  decide

end BinaryCoin
