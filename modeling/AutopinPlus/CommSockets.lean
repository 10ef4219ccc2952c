import AutopinPlus.Error
import AutopinPlus.PartialStep
import AutopinPlus.QtText
import Mathlib.Data.List.Perm.Basic
import Mathlib.Logic.Function.Basic

/-!
# The sockets of the communication channels

Every watchdog that wants messages from its process binds a socket to an address, which is `~/.autopin_socket` unless
configured, and accepts one connection there. `report` comes back to its caller, so a channel goes on after a call
that failed, and what it finds at its address then is not its own. The calls that may fail are `socket`, `fcntl`,
`bind`, `listen`, `accept` and `send`; `close` and `remove` do what they are asked for.
-/
namespace AutopinPlus

/-- What is at a path: the socket that was bound there, or something that was there before. -/
inductive FileNode where
  | socket (fd : Nat)
  | other
  deriving DecidableEq, Repr

/-- The calls of `initCommChannel` that do not fail because of their arguments. -/
structure InitAnswers where
  socket : Bool
  getFlags : Bool
  setFlags : Bool
  bind : Bool
  listen : Bool

/-- The same for `accept` and the calls that follow on it. -/
structure ConnectAnswers where
  accept : Bool
  getFlags : Bool
  setFlags : Bool
  send : Bool

/-- The members of `OSServices` for the channel, with its context. `attempts` is what is left of the loop that waits
for the process, `pending` who has connected and was not accepted, and `peer` who was. -/
structure CommService where
  socketPath : String := ""
  serverSocket : Option Nat := none
  clientSocket : Option Nat := none
  attempts : Nat := 0
  pending : List Nat := []
  peer : Option Nat := none
  context : AutopinContext := {}

/-- A descriptor is called by the number of those that were opened before it. -/
structure CommWorld where
  file : String → Option FileNode
  opened : Nat := 0
  fds : List Nat := []
  services : List (Option CommService) := []

inductive CommEvent where
  /-- `ObservedProcess::start` of a new watchdog, up to the loop that waits for the process. -/
  | start (path : String) (answers : InitAnswers)
  /-- A process connects to a path. -/
  | connect (process : Nat) (path : String)
  /-- One turn of the loop in `connectCommChannel`, and what follows on the last one. -/
  | attempt (i : Nat) (answers : ConnectAnswers)
  | destroy (i : Nat)

def unixPathMax : Nat := 108

namespace CommService

def report (s : CommService) (opt msg : String) : CommService := { s with context := s.context.report .comm opt msg }

/-- The checks of `connectCommChannel` before its loop. -/
def connectCommChannel (s : CommService) (timeout : Nat) : CommService :=
  let s := if s.serverSocket.isNone then
      s.report "not_initialized" "The communication channel is not initialized"
    else if s.clientSocket.isSome then
      s.report "already_initialized" "The communication channel is already connected"
    else s
  { s with attempts := timeout }

/-- What follows the loop: the process is told that it may go on. -/
def acknowledge (s : CommService) (ok : Bool) : CommService :=
  if s.clientSocket.isSome && ok then s else s.report "connect" "Cannot connect to the observed process"

def enqueue (fd process : Nat) (s : CommService) : CommService :=
  if s.serverSocket = some fd then { s with pending := s.pending ++ [process] } else s

/-- The descriptors that it would close. -/
def descriptors (s : CommService) : List Nat := s.serverSocket.toList ++ s.clientSocket.toList

end CommService

namespace CommWorld

def close (w : CommWorld) (fd : Option Nat) : CommWorld := { w with fds := fd.elim w.fds w.fds.erase }

def remove (w : CommWorld) (path : String) : CommWorld := { w with file := Function.update w.file path none }

/-- A call on the server socket. If it fails, the socket is closed. -/
def serverCall (ok : Bool) (msg : String) (x : CommWorld × CommService) : CommWorld × CommService :=
  if x.2.serverSocket.isSome && ok then x
  else (x.1.close x.2.serverSocket, { x.2 with serverSocket := none }.report "socket" msg)

/-- `socket` -/
def serverSocket (ok : Bool) (x : CommWorld × CommService) : CommWorld × CommService :=
  if ok then
    ({ x.1 with opened := x.1.opened + 1, fds := x.1.opened :: x.1.fds }, { x.2 with serverSocket := some x.1.opened })
  else (x.1, { x.2 with serverSocket := none }.report "socket" "Could not create a new socket")

/-- `bind`, which fails where there is something already. -/
def serverBind (ok : Bool) (x : CommWorld × CommService) : CommWorld × CommService :=
  let y := serverCall (ok && (x.1.file x.2.socketPath).isNone) "Cannot bind the communication socket." x
  ({ y.1 with
    file := match y.2.serverSocket with
      | some fd => Function.update y.1.file y.2.socketPath (some (.socket fd))
      | none => y.1.file }, y.2)

/-- `listen`. Here the path is removed as well. -/
def serverListen (ok : Bool) (x : CommWorld × CommService) : CommWorld × CommService :=
  let y := serverCall ok "Cannot setup communication socket" x
  if x.2.serverSocket.isSome && ok then y else (y.1.remove x.2.socketPath, y.2)

/-- Undefined if `strcpy` writes behind the address. The check before it counts code units. -/
def initCommChannel (x : CommWorld × CommService) (path : String) (answers : InitAnswers) :
    Option (CommWorld × CommService) :=
  let x := if x.2.serverSocket.isSome then
      (x.1, x.2.report "already_initialized" "The communication channel is already initialized")
    else x
  let x := serverSocket answers.socket x
  let x := serverCall answers.getFlags "Cannot access socket properties" x
  let x := serverCall answers.setFlags "Cannot set socket properties" x
  let x := (x.1, { x.2 with socketPath := path })
  let x := if (QString.units path.toList).length + 1 > unixPathMax then
      (x.1, x.2.report "comm_target" "The path for the communication socket exceeds the maximum length")
    else x
  if (QString.toStdString path.toList).length + 1 > unixPathMax then none
  else some (serverListen answers.listen (serverBind answers.bind x))

/-- A call on the client socket. -/
def clientCall (ok : Bool) (msg : String) (x : CommWorld × CommService) : CommWorld × CommService :=
  if x.2.clientSocket.isSome && ok then x
  else (x.1.close x.2.clientSocket, { x.2 with clientSocket := none, peer := none }.report "socket" msg)

/-- `accept`, which takes nobody from the queue if it fails, and the flags of the new socket. -/
def accept (answers : ConnectAnswers) (x : CommWorld × CommService) : CommWorld × CommService :=
  if x.2.serverSocket.isSome && answers.accept then
    match x.2.pending with
    | [] => (x.1, { x.2 with attempts := x.2.attempts - 1 })
    | process :: pending =>
      let x := ({ x.1 with opened := x.1.opened + 1, fds := x.1.opened :: x.1.fds },
        { x.2 with attempts := 0, pending := pending, clientSocket := some x.1.opened, peer := some process })
      clientCall answers.setFlags "Cannot set socket properties"
        (clientCall answers.getFlags "Cannot access socket properties" x)
  else
    (x.1, { x.2 with attempts := x.2.attempts - 1 }.report "connect" "Error while connecting to the observed process")

def attempt (answers : ConnectAnswers) (x : CommWorld × CommService) : CommWorld × CommService :=
  let x := accept answers x
  if x.2.attempts = 0 then (x.1, x.2.acknowledge answers.send) else x

def deinitCommChannel (w : CommWorld) (s : CommService) : CommWorld :=
  let w := w.close s.clientSocket
  if s.serverSocket.isSome then (w.close s.serverSocket).remove s.socketPath else w

/-- The kernel queues a connection at the socket that is bound to the path. -/
def enqueue (w : CommWorld) (process : Nat) (path : String) : CommWorld :=
  match w.file path with
  | some (.socket fd) => { w with services := w.services.map (Option.map (CommService.enqueue fd process)) }
  | _ => w

/-- The loops of several channels nest, as each of their turns processes events; a channel is destroyed only when it
is in none of them. -/
def step (w : CommWorld) : CommEvent → Option CommWorld
  | .start path answers =>
    (initCommChannel (w, {}) path answers).map fun x =>
      { x.1 with services := x.1.services ++ [some (x.2.connectCommChannel 60)] }
  | .connect process path => some (w.enqueue process path)
  | .attempt i answers => do
    let s ← w.services[i]?.join
    if s.attempts = 0 then none
    else
      let x := attempt answers (w, s)
      some { x.1 with services := x.1.services.set i (some x.2) }
  | .destroy i => do
    let s ← w.services[i]?.join
    if s.attempts ≠ 0 then none
    else
      let w := w.deinitCommChannel s
      some { w with services := w.services.set i none }

/-- Before the first watchdog, with what is at the paths. -/
def init (there : String → Bool) : CommWorld where
  file := fun path => if there path then some .other else none

end CommWorld

/-! ## What a channel leaves at its address -/

namespace CommService

/-- A channel whose call failed has told its context. -/
theorem isError_report (s : CommService) {opt : String} (msg : String) (h : setsError .comm opt = true) :
    (s.report opt msg).context.isError = true := by
  rw [report, AutopinContext.report_isError, h, Bool.true_or]

theorem isError_report_of (s : CommService) (opt msg : String) (h : s.context.isError = true) :
    (s.report opt msg).context.isError = true := by
  rw [report, AutopinContext.report_isError, h, Bool.or_true]

end CommService

namespace CommWorld

/-- The members that `initCommChannel` does not change, apart from the path. -/
structure Untouched (x y : CommWorld × CommService) : Prop where
  services : y.1.services = x.1.services
  clientSocket : y.2.clientSocket = x.2.clientSocket
  attempts : y.2.attempts = x.2.attempts
  pending : y.2.pending = x.2.pending
  peer : y.2.peer = x.2.peer

theorem Untouched.trans {x y z : CommWorld × CommService} (h : Untouched x y) (h' : Untouched y z) : Untouched x z where
  services := h'.services.trans h.services
  clientSocket := h'.clientSocket.trans h.clientSocket
  attempts := h'.attempts.trans h.attempts
  pending := h'.pending.trans h.pending
  peer := h'.peer.trans h.peer

/-- The state of the server socket between two calls: open, or given up. -/
inductive ServerState (w : CommWorld) (x : CommWorld × CommService) : Prop where
  | opened (server : x.2.serverSocket = some w.opened) (fds : x.1.fds = w.opened :: w.fds)
      (count : x.1.opened = w.opened + 1)
  | failed (server : x.2.serverSocket = none) (fds : x.1.fds = w.fds) (count : w.opened ≤ x.1.opened)
      (told : x.2.context.isError = true)

theorem serverSocket_state (w : CommWorld) (s : CommService) (ok : Bool) :
    ServerState w (serverSocket ok (w, s)) := by
  unfold serverSocket
  cases ok with
  | true => exact .opened rfl rfl rfl
  | false => exact .failed rfl rfl (Nat.le_refl _) (CommService.isError_report _ _ rfl)

theorem ServerState.call {w : CommWorld} {x : CommWorld × CommService} (h : ServerState w x) (ok : Bool)
    (msg : String) : ServerState w (serverCall ok msg x) := by
  unfold serverCall
  cases h with
  | opened server fds count =>
    cases ok with
    | true =>
      rw [if_pos (by simp [server])]
      exact .opened server fds count
    | false =>
      rw [if_neg (by simp)]
      refine .failed rfl ?_ ?_ (CommService.isError_report _ _ rfl)
      · simp [CommWorld.close, server, fds]
      · simp only [CommWorld.close, count]
        omega
  | failed server fds count told =>
    rw [if_neg (by simp [server])]
    refine .failed rfl ?_ count (CommService.isError_report _ _ rfl)
    simp [CommWorld.close, server, fds]

theorem serverCall_untouched (ok : Bool) (msg : String) (x : CommWorld × CommService) :
    Untouched x (serverCall ok msg x) ∧ (serverCall ok msg x).1.file = x.1.file ∧
      (serverCall ok msg x).2.socketPath = x.2.socketPath := by
  unfold serverCall
  by_cases h : (x.2.serverSocket.isSome && ok) = true
  · rw [if_pos h]
    exact ⟨⟨rfl, rfl, rfl, rfl, rfl⟩, rfl, rfl⟩
  · rw [if_neg h]
    exact ⟨⟨rfl, rfl, rfl, rfl, rfl⟩, rfl, rfl⟩

theorem serverBind_state {w : CommWorld} {x : CommWorld × CommService} (h : ServerState w x)
    (hfile : x.1.file = w.file) (ok : Bool) :
    ServerState w (serverBind ok x) ∧
      (((serverBind ok x).2.serverSocket = some w.opened ∧ w.file x.2.socketPath = none ∧
          (serverBind ok x).1.file = Function.update w.file x.2.socketPath (some (.socket w.opened))) ∨
        ((serverBind ok x).2.serverSocket = none ∧ (serverBind ok x).1.file = w.file)) := by
  obtain ⟨-, hsame, hpath⟩ := serverCall_untouched (ok && (x.1.file x.2.socketPath).isNone)
    "Cannot bind the communication socket." x
  have hcall := h.call (ok && (x.1.file x.2.socketPath).isNone) "Cannot bind the communication socket."
  unfold serverBind
  cases hcall with
  | opened server fds count =>
    refine ⟨.opened server fds count, .inl ⟨server, ?_, ?_⟩⟩
    · -- the call does not succeed where there is something
      by_contra hthere
      have hnone : (ok && (x.1.file x.2.socketPath).isNone) = false := by
        rw [hfile]
        cases hnode : w.file x.2.socketPath with
        | none => exact absurd hnode hthere
        | some node => simp
      rw [hnone] at server
      simp [serverCall, CommService.report] at server
    · simp only [server, hsame, hpath]
      rw [hfile]
  | failed server fds count told =>
    refine ⟨.failed server fds count told, .inr ⟨server, ?_⟩⟩
    simp only [server, hsame]
    exact hfile

/-- Either every call succeeded and the socket is bound where there was nothing, or the socket is closed and there is
nothing at the path any more, whatever was there. -/
inductive Outcome (w : CommWorld) (path : String) (x : CommWorld × CommService) : Prop where
  | bound (server : x.2.serverSocket = some w.opened) (fds : x.1.fds = w.opened :: w.fds)
      (count : x.1.opened = w.opened + 1) (free : w.file path = none)
      (file : x.1.file = Function.update w.file path (some (.socket w.opened)))
  | removed (server : x.2.serverSocket = none) (fds : x.1.fds = w.fds) (count : w.opened ≤ x.1.opened)
      (told : x.2.context.isError = true) (file : x.1.file = Function.update w.file path none)

theorem serverListen_outcome {w : CommWorld} {x : CommWorld × CommService} (h : ServerState w x)
    (hfile : x.1.file = w.file) (bindOk listenOk : Bool) :
    Outcome w x.2.socketPath (serverListen listenOk (serverBind bindOk x)) := by
  obtain ⟨hstate, hcases⟩ := serverBind_state h hfile bindOk
  have hpath : (serverBind bindOk x).2.socketPath = x.2.socketPath := (serverCall_untouched _ _ x).2.2
  have hupdate : Function.update (serverBind bindOk x).1.file x.2.socketPath none =
      Function.update w.file x.2.socketPath none := by
    rcases hcases with ⟨-, -, hbound⟩ | ⟨-, hsame⟩
    · rw [hbound, Function.update_idem]
    · rw [hsame]
  have hcall := hstate.call listenOk "Cannot setup communication socket"
  have hsame := (serverCall_untouched listenOk "Cannot setup communication socket" (serverBind bindOk x)).2.1
  simp only [serverListen]
  by_cases hok : ((serverBind bindOk x).2.serverSocket.isSome && listenOk) = true
  · have hkept : serverCall listenOk "Cannot setup communication socket" (serverBind bindOk x) = serverBind bindOk x :=
      if_pos hok
    rw [if_pos hok, hkept]
    rcases hcases with ⟨hserver, hfree, hbound⟩ | ⟨hserver, -⟩
    · cases hstate with
      | opened server fds count => exact .bound server fds count hfree hbound
      | failed server => simp [server] at hserver
    · simp [hserver] at hok
  · rw [if_neg hok]
    have hremoved : ((serverCall listenOk "Cannot setup communication socket" (serverBind bindOk x)).1.remove
        (serverBind bindOk x).2.socketPath).file = Function.update w.file x.2.socketPath none := by
      rw [remove, hsame, hpath, hupdate]
    cases hcall with
    | opened server =>
      simp [serverCall, hok, CommService.report] at server
    | failed server fds count told => exact .removed server fds count told hremoved

theorem serverListen_untouched (bindOk listenOk : Bool) (x : CommWorld × CommService) :
    Untouched x (serverListen listenOk (serverBind bindOk x)) ∧
      (serverListen listenOk (serverBind bindOk x)).2.socketPath = x.2.socketPath := by
  obtain ⟨hbind, -, hpath⟩ := serverCall_untouched (bindOk && (x.1.file x.2.socketPath).isNone)
    "Cannot bind the communication socket." x
  have hbind : Untouched x (serverBind bindOk x) := ⟨hbind.1, hbind.2, hbind.3, hbind.4, hbind.5⟩
  obtain ⟨hlisten, -, hpath'⟩ := serverCall_untouched listenOk "Cannot setup communication socket"
    (serverBind bindOk x)
  simp only [serverListen]
  by_cases hok : ((serverBind bindOk x).2.serverSocket.isSome && listenOk) = true
  · rw [if_pos hok]
    exact ⟨hbind.trans hlisten, hpath'.trans hpath⟩
  · rw [if_neg hok]
    exact ⟨hbind.trans ⟨hlisten.1, hlisten.2, hlisten.3, hlisten.4, hlisten.5⟩, hpath'.trans hpath⟩

/-- The channel of a new watchdog. -/
theorem initCommChannel_outcome {w : CommWorld} {path : String} {answers : InitAnswers} {x : CommWorld × CommService}
    (h : initCommChannel (w, {}) path answers = some x) :
    Outcome w path x ∧ Untouched (w, {}) x ∧ x.2.socketPath = path := by
  obtain ⟨hflags, hfile, -⟩ := serverCall_untouched answers.getFlags "Cannot access socket properties"
    (serverSocket answers.socket (w, {}))
  obtain ⟨hflags', hfile', -⟩ := serverCall_untouched answers.setFlags "Cannot set socket properties"
    (serverCall answers.getFlags "Cannot access socket properties" (serverSocket answers.socket (w, {})))
  have hstate := ((serverSocket_state w {} answers.socket).call answers.getFlags
    "Cannot access socket properties").call answers.setFlags "Cannot set socket properties"
  have hsocket : Untouched (w, {}) (serverSocket answers.socket (w, {})) ∧
      (serverSocket answers.socket (w, {})).1.file = w.file := by
    unfold serverSocket
    cases answers.socket <;> exact ⟨⟨rfl, rfl, rfl, rfl, rfl⟩, rfl⟩
  simp only [initCommChannel, Option.isSome_none, Bool.false_eq_true, if_false] at h
  generalize hx : serverCall answers.setFlags "Cannot set socket properties"
    (serverCall answers.getFlags "Cannot access socket properties" (serverSocket answers.socket (w, {}))) = y at *
  have hframe := (hsocket.1.trans hflags).trans hflags'
  have hfile := (hfile'.trans hfile).trans hsocket.2
  by_cases hfits : (QString.toStdString path.toList).length + 1 > unixPathMax
  · rw [if_pos hfits] at h
    cases h
  · rw [if_neg hfits, Option.some.injEq] at h
    -- the check of the length only tells the context
    have hcheck : ∃ context, x = serverListen answers.listen (serverBind answers.bind
        (y.1, { y.2 with socketPath := path, context := context })) ∧
        (y.2.context.isError = true → context.isError = true) := by
      by_cases hlong : (QString.units path.toList).length + 1 > unixPathMax
      · rw [if_pos hlong] at h
        exact ⟨_, h.symm, fun htold => CommService.isError_report_of y.2 _ _ htold⟩
      · rw [if_neg hlong] at h
        exact ⟨_, h.symm, id⟩
    obtain ⟨context, rfl, htold⟩ := hcheck
    have hstate : ServerState w (y.1, { y.2 with socketPath := path, context := context }) := by
      cases hstate with
      | opened server fds count => exact .opened server fds count
      | failed server fds count told => exact .failed server fds count (htold told)
    obtain ⟨hkept, hpath⟩ := serverListen_untouched answers.bind answers.listen
      (y.1, { y.2 with socketPath := path, context := context })
    have hframe : Untouched (w, {}) (y.1, { y.2 with socketPath := path, context := context }) :=
      ⟨hframe.1, hframe.2, hframe.3, hframe.4, hframe.5⟩
    exact ⟨serverListen_outcome hstate hfile _ _, hframe.trans hkept, hpath⟩

/-- One turn of the loop: nobody is connected after it, or the first who waited is. -/
inductive Attempted (x y : CommWorld × CommService) : Prop where
  | nobody (fds : y.1.fds = x.1.fds) (count : x.1.opened ≤ y.1.opened) (client : y.2.clientSocket = none)
      (peer : y.2.peer = none) (pending : y.2.pending ⊆ x.2.pending)
      (told : y.2.attempts = 0 → y.2.context.isError = true)
  | accepted (process : Nat) (fds : y.1.fds = x.1.opened :: x.1.fds) (count : y.1.opened = x.1.opened + 1)
      (client : y.2.clientSocket = some x.1.opened) (peer : y.2.peer = some process)
      (pending : x.2.pending = process :: y.2.pending) (attempts : y.2.attempts = 0)

theorem clientCall_fails {x : CommWorld × CommService} {ok : Bool} (msg : String)
    (h : (x.2.clientSocket.isSome && ok) = false) :
    clientCall ok msg x =
      (x.1.close x.2.clientSocket, { x.2 with clientSocket := none, peer := none }.report "socket" msg) :=
  if_neg (by simp [h])

theorem clientCall_succeeds {x : CommWorld × CommService} {ok : Bool} (msg : String)
    (h : (x.2.clientSocket.isSome && ok) = true) : clientCall ok msg x = x := if_pos h

theorem acknowledge_told {s : CommService} (ok : Bool) (h : s.clientSocket = none) :
    (s.acknowledge ok).context.isError = true := by
  rw [CommService.acknowledge, if_neg (by simp [h])]
  exact CommService.isError_report _ _ rfl

/-- What `accept` and the flags do, before the end of the loop is seen. -/
theorem accept_cases {x : CommWorld × CommService} (answers : ConnectAnswers) (hclient : x.2.clientSocket = none)
    (hpeer : x.2.peer = none) :
    let y := accept answers x
    (y.1.fds = x.1.fds ∧ x.1.opened ≤ y.1.opened ∧ y.2.clientSocket = none ∧ y.2.peer = none ∧
        y.2.pending ⊆ x.2.pending) ∨
      ∃ process, y.1.fds = x.1.opened :: x.1.fds ∧ y.1.opened = x.1.opened + 1 ∧
        y.2.clientSocket = some x.1.opened ∧ y.2.peer = some process ∧ x.2.pending = process :: y.2.pending ∧
        y.2.attempts = 0 := by
  intro y
  have hy : y = accept answers x := rfl
  by_cases hok : (x.2.serverSocket.isSome && answers.accept) = true
  · rw [accept, if_pos hok] at hy
    cases hpending : x.2.pending with
    | nil =>
      simp only [hpending] at hy
      rw [hy]
      exact .inl ⟨rfl, Nat.le_refl _, hclient, hpeer, by rw [← hpending]; exact List.Subset.refl _⟩
    | cons process pending =>
      simp only [hpending] at hy
      have hrest : pending ⊆ process :: pending := fun q hq => List.mem_cons_of_mem _ hq
      by_cases hget : answers.getFlags = true
      · rw [clientCall_succeeds "Cannot access socket properties" (by simp [hget])] at hy
        by_cases hset : answers.setFlags = true
        · rw [clientCall_succeeds "Cannot set socket properties" (by simp [hset])] at hy
          rw [hy]
          exact .inr ⟨process, rfl, rfl, rfl, rfl, rfl, rfl⟩
        · rw [clientCall_fails "Cannot set socket properties" (by simp [hset])] at hy
          rw [hy]
          exact .inl ⟨by simp [close], by simp [close], rfl, rfl, hrest⟩
      · rw [clientCall_fails "Cannot access socket properties" (by simp [hget]),
          clientCall_fails "Cannot set socket properties" (by simp [CommService.report])] at hy
        rw [hy]
        exact .inl ⟨by simp [close, CommService.report], by simp [close], rfl, rfl, hrest⟩
  · rw [accept, if_neg hok] at hy
    rw [hy]
    exact .inl ⟨rfl, Nat.le_refl _, hclient, hpeer, List.Subset.refl _⟩

theorem attempt_cases {x : CommWorld × CommService} (answers : ConnectAnswers) (hclient : x.2.clientSocket = none)
    (hpeer : x.2.peer = none) : Attempted x (attempt answers x) := by
  unfold attempt
  rcases accept_cases answers hclient hpeer with ⟨hfds, hcount, hnone, hpeer, hpending⟩ |
    ⟨process, hfds, hcount, hsome, hpeer, hpending, hattempts⟩
  · by_cases hlast : (accept answers x).2.attempts = 0
    · simp only [hlast, if_true]
      refine .nobody hfds hcount ?_ ?_ ?_ fun _ => acknowledge_told _ hnone
      · rw [CommService.acknowledge, if_neg (by simp [hnone])]
        exact hnone
      · rw [CommService.acknowledge, if_neg (by simp [hnone])]
        exact hpeer
      · rw [CommService.acknowledge, if_neg (by simp [hnone])]
        exact hpending
    · simp only [hlast, if_false]
      exact .nobody hfds hcount hnone hpeer hpending fun h => absurd h hlast
  · simp only [hattempts, if_true]
    have hkept (ok : Bool) : ((accept answers x).2.acknowledge ok).clientSocket = (accept answers x).2.clientSocket ∧
        ((accept answers x).2.acknowledge ok).peer = (accept answers x).2.peer ∧
        ((accept answers x).2.acknowledge ok).pending = (accept answers x).2.pending ∧
        ((accept answers x).2.acknowledge ok).attempts = (accept answers x).2.attempts := by
      unfold CommService.acknowledge
      split_ifs <;> exact ⟨rfl, rfl, rfl, rfl⟩
    obtain ⟨hclient, hpeer', hpending', hattempts'⟩ := hkept answers.send
    exact .accepted process hfds hcount (hclient.trans hsome) (hpeer'.trans hpeer) (by rw [hpending', hpending])
      (hattempts'.trans hattempts)

/-- The members that a turn of the loop does not change. -/
structure Kept (x y : CommWorld × CommService) : Prop where
  file : y.1.file = x.1.file
  services : y.1.services = x.1.services
  serverSocket : y.2.serverSocket = x.2.serverSocket
  socketPath : y.2.socketPath = x.2.socketPath

theorem Kept.trans {x y z : CommWorld × CommService} (h : Kept x y) (h' : Kept y z) : Kept x z where
  file := h'.file.trans h.file
  services := h'.services.trans h.services
  serverSocket := h'.serverSocket.trans h.serverSocket
  socketPath := h'.socketPath.trans h.socketPath

theorem clientCall_kept (ok : Bool) (msg : String) (x : CommWorld × CommService) : Kept x (clientCall ok msg x) := by
  unfold clientCall
  split_ifs <;> exact ⟨rfl, rfl, rfl, rfl⟩

theorem attempt_kept (answers : ConnectAnswers) (x : CommWorld × CommService) : Kept x (attempt answers x) := by
  have haccept : Kept x (accept answers x) := by
    unfold accept
    split
    · split
      · exact ⟨rfl, rfl, rfl, rfl⟩
      · apply Kept.trans _ (clientCall_kept _ _ _)
        apply Kept.trans _ (clientCall_kept _ _ _)
        exact ⟨rfl, rfl, rfl, rfl⟩
    · exact ⟨rfl, rfl, rfl, rfl⟩
  unfold attempt CommService.acknowledge
  simp only
  split_ifs <;> exact ⟨haccept.1, haccept.2, haccept.3, haccept.4⟩

end CommWorld

end AutopinPlus
