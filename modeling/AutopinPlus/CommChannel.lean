import AutopinPlus.ProcessSignals

/-!
# Messages from the observed process

The observed program sends packets over a sequenced-packet socket. `slot_msgReceived` reads them
into one local buffer until the socket has no more, and each one travels on as an `autopin_msg`:
to the observed process, and from there along the connections of the watchdog to the strategy.
-/
namespace AutopinPlus

abbrev Packet := List UInt8

/-- `sizeof(struct autopin_msg)`: three members of eight bytes. -/
def msgSize : Nat := 24

def littleEndian (bytes : List UInt8) : UInt64 := bytes.foldr (fun byte rest => rest * 256 + byte.toUInt64) 0

/-- The message whose representation starts at the head of the bytes. -/
def decode (bytes : List UInt8) : AutopinMsg where
  eventId := littleEndian (bytes.take 8)
  arg := littleEndian ((bytes.drop 8).take 8)
  val := littleEndian ((bytes.drop 16).take 8)

/-- The local variable `msg`. -/
structure Buffer where
  bytes : List UInt8
  size : bytes.length = msgSize

namespace Buffer

/-- `recv` fills the buffer from the front, drops what does not fit and leaves what it has no byte for. -/
def fill (b : Buffer) (packet : Packet) : Buffer where
  bytes := packet.take msgSize ++ b.bytes.drop packet.length
  size := by
    rw [List.length_append, List.length_take, List.length_drop, b.size]
    omega

/-- Of the old content nothing is left under a whole message. -/
theorem fill_whole (b : Buffer) {packet : Packet} (h : packet.length = msgSize) :
    (b.fill packet).bytes = packet := by
  have hdrop : b.bytes.drop packet.length = [] := List.drop_eq_nil_of_le (by rw [b.size, h])
  calc packet.take msgSize ++ b.bytes.drop packet.length = packet.take packet.length ++ [] := by rw [hdrop, h]
    _ = packet := by rw [List.take_length, List.append_nil]

end Buffer

/-! ## The connections -/

/-- The slots of `ControlStrategy` that take part in a connection with the process, or should. -/
inductive StrategyCall where
  | taskCreated (tid : Int)
  | taskTerminated (tid : Int)
  | phaseChanged (newphase : Int)
  | userMessage (arg : Int) (val : UInt64)
  deriving DecidableEq, Repr

/-- `Watchdog::createComponentConnections`, from the signals of the process to the slots of the strategy. -/
def connections : ProcessSignal → List StrategyCall
  | .taskCreated tid => [.taskCreated tid]
  | .taskTerminated tid => [.taskTerminated tid]
  | .userMessage arg val => [.userMessage arg val]
  -- nothing is connected to `sig_PhaseChanged`; `sig_ProcTerminated` goes to the watchdog
  | .phaseChanged _ => []
  | .procTerminated => []

namespace SignallingProcess

/-- What the strategy has been told. The connections are direct, so a slot runs as its signal is emitted. -/
def calls (o : SignallingProcess) : List StrategyCall := o.signals.flatMap connections

end SignallingProcess

namespace AutopinMsg

/-- What the strategy is told of a message. -/
def delivered (msg : AutopinMsg) : List StrategyCall :=
  if msg.eventId = appUser then [.userMessage (narrow msg.arg) msg.val] else []

/-- What the strategy should be told of a message. -/
def meant (msg : AutopinMsg) : List StrategyCall :=
  if msg.eventId = appNewPhase then [.phaseChanged msg.arg.toNat]
  else if msg.eventId = appUser then [.userMessage msg.arg.toNat msg.val]
  else []

@[simp] theorem appNewPhase_ne_appUser : appNewPhase ≠ appUser := by decide

@[simp] theorem appUser_ne_appNewPhase : appUser ≠ appNewPhase := by decide

theorem slotCommChannel_calls (msg : AutopinMsg) (o : SignallingProcess) :
    (o.slotCommChannel msg).calls = o.calls ++ msg.delivered := by
  unfold SignallingProcess.slotCommChannel SignallingProcess.calls delivered
  by_cases hphase : msg.eventId = appNewPhase
  · simp [hphase, SignallingProcess.signal, connections]
  · by_cases huser : msg.eventId = appUser
    · simp [huser, SignallingProcess.signal, connections]
    · simp [hphase, huser]

theorem delivered_length_le (msg : AutopinMsg) : msg.delivered.length ≤ msg.meant.length := by
  unfold delivered meant
  by_cases huser : msg.eventId = appUser
  · simp [huser]
  · simp [huser]

/-- A message is delivered as meant if it is no change of phase and its argument is an `int`. -/
theorem delivered_eq_meant_iff (msg : AutopinMsg) :
    msg.delivered = msg.meant ↔
      msg.eventId ≠ appNewPhase ∧ (msg.eventId = appUser → msg.arg.toNat < 2 ^ 31) := by
  unfold delivered meant
  by_cases hphase : msg.eventId = appNewPhase
  · simp [hphase]
  · by_cases huser : msg.eventId = appUser
    · simp [huser, narrow_eq_iff]
    · simp [hphase, huser]

end AutopinMsg

/-! ## The receiver -/

/-- The socket with the packets nobody has read, `slot_msgReceived` with its local buffer while it
runs, and the observed process. `received` and `emitted` are the packets read and the messages
passed on so far. -/
structure CommChannel where
  queue : List Packet := []
  msg : Option Buffer := none
  received : List Packet := []
  emitted : List AutopinMsg := []
  process : SignallingProcess

inductive ChannelEvent where
  | arrive (packet : Packet)
  /-- The notifier calls `slot_msgReceived`, whose `msg` starts with what was on the stack. -/
  | activated (stack : Buffer)
  /-- One `recv` of the running `slot_msgReceived`. -/
  | recv

namespace CommChannel

/-- `emit sig_CommChannel(msg)`; the slot of the process runs at once. -/
def dispatch (c : CommChannel) (msg : AutopinMsg) : CommChannel :=
  { c with emitted := c.emitted ++ [msg], process := c.process.slotCommChannel msg }

/-- A `recv` and what the loop does with its result. On an empty socket the result is -1, otherwise
the number of bytes copied. -/
def slotMsgReceived (c : CommChannel) : CommChannel :=
  match c.msg, c.queue with
  | none, _ => c
  | some _, [] => { c with msg := none }
  | some msg, packet :: queue =>
    let c := { c with queue := queue, received := c.received ++ [packet] }
    if 0 < min packet.length msgSize then
      { c with msg := some (msg.fill packet) }.dispatch (decode (msg.fill packet).bytes)
    else { c with msg := none }

def step (c : CommChannel) : ChannelEvent → CommChannel
  | .arrive packet => { c with queue := c.queue ++ [packet] }
  -- the notifier is disabled while the slot runs
  | .activated stack => if c.msg.isNone then { c with msg := some stack } else c
  | .recv => c.slotMsgReceived

/-- The packets sent in a run. -/
def arrived (events : List ChannelEvent) : List Packet :=
  events.filterMap (fun e => match e with
    | .arrive packet => some packet
    | .activated _ => none
    | .recv => none)

/-- What one event does to the packets and the messages: one may arrive, or one may be read, which
is passed on unless it is empty. -/
theorem step_cases (c : CommChannel) (e : ChannelEvent) :
    ((c.step e).queue = c.queue ++ arrived [e] ∧ (c.step e).received = c.received ∧
      (c.step e).emitted = c.emitted ∧ (c.step e).process = c.process) ∨
    (arrived [e] = [] ∧ ∃ packet, c.queue = packet :: (c.step e).queue ∧
      (c.step e).received = c.received ++ [packet] ∧
      ((packet = [] ∧ (c.step e).emitted = c.emitted ∧ (c.step e).process = c.process) ∨
        (packet ≠ [] ∧ ∃ msg : Buffer,
          (c.step e).emitted = c.emitted ++ [decode (msg.fill packet).bytes] ∧
          (c.step e).process = c.process.slotCommChannel (decode (msg.fill packet).bytes)))) := by
  cases e with
  | arrive packet => exact .inl ⟨rfl, rfl, rfl, rfl⟩
  | activated stack =>
    refine .inl ?_
    simp only [step]
    split <;> simp [arrived]
  | recv =>
    simp only [step, slotMsgReceived]
    split
    · exact .inl ⟨by simp [arrived], rfl, rfl, rfl⟩
    · exact .inl ⟨by simp [arrived], rfl, rfl, rfl⟩
    · rename_i msg packet queue _ hqueue
      refine .inr ⟨rfl, packet, ?_⟩
      split
      · rename_i hpos
        have hne : packet ≠ [] := by
          rintro rfl
          simp at hpos
        exact ⟨hqueue, rfl, .inr ⟨hne, msg, rfl, rfl⟩⟩
      · rename_i hpos
        have hnil : packet = [] := by
          rw [← List.length_eq_zero_iff]
          unfold msgSize at hpos
          omega
        exact ⟨hqueue, rfl, .inl ⟨hnil, rfl, rfl⟩⟩

theorem arrived_cons (e : ChannelEvent) (events : List ChannelEvent) :
    arrived (e :: events) = arrived [e] ++ arrived events := by
  cases e <;> rfl

/-- Packets are read in the order in which they were sent, each once. -/
theorem received_append_queue (c : CommChannel) (events : List ChannelEvent) :
    (events.foldl step c).received ++ (events.foldl step c).queue =
      c.received ++ c.queue ++ arrived events := by
  induction events generalizing c with
  | nil => simp [arrived]
  | cons e events ih =>
    rw [List.foldl_cons, ih, arrived_cons]
    rcases step_cases c e with ⟨hqueue, hreceived, -⟩ | ⟨hnone, packet, hqueue, hreceived, -⟩
    · simp [hqueue, hreceived]
    · simp [hqueue, hreceived, hnone]

def nonempty (packets : List Packet) : List Packet := packets.filter (fun packet => packet ≠ [])

/-- The messages so far, one for each packet read that has any bytes, and what the strategy was told. -/
structure Passed (o : SignallingProcess) (c : CommChannel) : Prop where
  length : c.emitted.length = (nonempty c.received).length
  whole : (∀ packet ∈ nonempty c.received, packet.length = msgSize) →
    c.emitted = (nonempty c.received).map decode
  told : c.process.calls = o.calls ++ c.emitted.flatMap AutopinMsg.delivered

variable {o : SignallingProcess} {c : CommChannel}

theorem Passed.step (h : Passed o c) (e : ChannelEvent) : Passed o (c.step e) := by
  rcases step_cases c e with ⟨-, hreceived, hemitted, hprocess⟩ | ⟨-, packet, -, hreceived, hcase⟩
  · refine ⟨?_, ?_, ?_⟩
    · rw [hemitted, hreceived]
      exact h.length
    · rw [hemitted, hreceived]
      exact h.whole
    · rw [hemitted, hprocess]
      exact h.told
  · rcases hcase with ⟨rfl, hemitted, hprocess⟩ | ⟨hne, msg, hemitted, hprocess⟩
    · have hnonempty : nonempty (c.step e).received = nonempty c.received := by simp [hreceived, nonempty]
      refine ⟨?_, ?_, ?_⟩
      · rw [hemitted, hnonempty]
        exact h.length
      · rw [hemitted, hnonempty]
        exact h.whole
      · rw [hemitted, hprocess]
        exact h.told
    · have hnonempty : nonempty (c.step e).received = nonempty c.received ++ [packet] := by
        simp [hreceived, nonempty, hne]
      refine ⟨?_, ?_, ?_⟩
      · simp [hemitted, hnonempty, h.length]
      · intro hall
        rw [hnonempty] at hall
        have hpacket : packet.length = msgSize := hall packet (by simp)
        have hbefore := h.whole (fun p hp => hall p (by simp [hp]))
        rw [hemitted, hnonempty, hbefore, msg.fill_whole hpacket, List.map_append]
        rfl
      · rw [hemitted, hprocess, AutopinMsg.slotCommChannel_calls, h.told, List.append_assoc]
        simp

theorem Passed.run (h : Passed o c) (events : List ChannelEvent) :
    Passed o (events.foldl CommChannel.step c) := by
  induction events generalizing c with
  | nil => exact h
  | cons e events ih => exact ih (h.step e)

/-- The channel of a process that has just connected. -/
def connected (o : SignallingProcess) : CommChannel := { process := o }

theorem connected_passed (o : SignallingProcess) : Passed o (connected o) :=
  ⟨rfl, fun _ => rfl, (List.append_nil _).symm⟩

/-! ## Whole messages -/

/-- Each message passed on is one whole packet that was read, in their order. -/
def OnlyWhole (c : CommChannel) : Prop :=
  ∃ whole : List Packet, whole.Sublist c.received ∧ (∀ packet ∈ whole, packet.length = msgSize) ∧
    c.emitted = whole.map decode

theorem nonempty_eq_self {packets : List Packet} (h : ∀ packet ∈ packets, packet.length = msgSize) :
    nonempty packets = packets := by
  refine List.filter_eq_self.mpr (fun packet hmem => ?_)
  have hpos := h packet hmem
  simp only [decide_eq_true_eq]
  rintro rfl
  cases hpos

theorem Passed.onlyWhole_iff (h : Passed o c) :
    c.OnlyWhole ↔ ∀ packet ∈ c.received, packet ≠ [] → packet.length = msgSize := by
  constructor
  · rintro ⟨whole, hsub, hsize, hemitted⟩
    -- there are as many messages as packets with bytes, so none of these is left out
    have hfilter : whole.Sublist (nonempty c.received) := nonempty_eq_self hsize ▸ hsub.filter _
    have hlength : whole.length = (nonempty c.received).length := by
      rw [← h.length, hemitted, List.length_map]
    intro packet hmem hne
    rw [hfilter.eq_of_length hlength] at hsize
    exact hsize packet (by simp [nonempty, hmem, hne])
  · intro hsize
    have hall : ∀ packet ∈ nonempty c.received, packet.length = msgSize := by
      intro packet hmem
      obtain ⟨hmem, hne⟩ := List.mem_filter.mp hmem
      exact hsize packet hmem (by simpa using hne)
    exact ⟨_, List.filter_sublist, hall, h.whole hall⟩

/-- The packets read are the first of those sent. Only whole messages are passed on exactly as long
as each packet read is empty or a whole message. -/
theorem run_onlyWhole_iff (o : SignallingProcess) (events : List ChannelEvent) :
    let t := events.foldl step (connected o)
    t.received ++ t.queue = arrived events ∧
    (t.OnlyWhole ↔ ∀ packet ∈ t.received, packet ≠ [] → packet.length = msgSize) :=
  ⟨received_append_queue (connected o) events, ((connected_passed o).run events).onlyWhole_iff⟩

/-- A whole packet with small numbers in its members. -/
def packet (eventHigh arg val : UInt8) : Packet :=
  [0, eventHigh, 0, 0, 0, 0, 0, 0] ++ [arg, 0, 0, 0, 0, 0, 0, 0] ++ [val, 0, 0, 0, 0, 0, 0, 0]

def blank : Buffer := ⟨List.replicate 24 0, rfl⟩

def idle : CommChannel := connected { pid := 7 }

/-- A packet of one byte after a whole one: it is passed on with the rest of the packet before it. -/
theorem not_onlyWhole_idle :
    let t := [.arrive (packet 0x10 5 9), .arrive [0], .activated blank, .recv, .recv].foldl step idle
    t.emitted = [⟨0x1000, 5, 9⟩, ⟨0x1000, 5, 9⟩] ∧ ¬ t.OnlyWhole := by
  refine ⟨by decide, ?_⟩
  rw [idle, ((connected_passed _).run _).onlyWhole_iff]
  decide

/-! ## From the packets to the strategy -/

theorem length_flatMap_le {α β : Type} {f g : α → List β} (h : ∀ a, (f a).length ≤ (g a).length) (l : List α) :
    (l.flatMap f).length ≤ (l.flatMap g).length := by
  induction l with
  | nil => exact le_rfl
  | cons a l ih =>
    rw [List.flatMap_cons, List.flatMap_cons, List.length_append, List.length_append]
    exact Nat.add_le_add (h a) ih

/-- Where `f` never has more elements than `g`, nothing can be made up for later. -/
theorem flatMap_eq_flatMap_iff {α β : Type} {f g : α → List β} (h : ∀ a, (f a).length ≤ (g a).length)
    (l : List α) : l.flatMap f = l.flatMap g ↔ ∀ a ∈ l, f a = g a := by
  induction l with
  | nil => simp
  | cons a l ih =>
    have hrest := length_flatMap_le h l
    rw [List.flatMap_cons, List.flatMap_cons, List.forall_mem_cons, ← ih]
    constructor
    · intro he
      have hsum := congrArg List.length he
      rw [List.length_append, List.length_append] at hsum
      have ha := h a
      exact List.append_inj he (by omega)
    · rintro ⟨ha, hl⟩
      rw [ha, hl]

/-- With whole packets only, the strategy is told of each message as it should be exactly as long as
none of them changes the phase and no user message has an argument beyond the range of `int`. -/
theorem run_calls_iff (o : SignallingProcess) (events : List ChannelEvent)
    (hwhole : ∀ packet ∈ arrived events, packet.length = msgSize) :
    let t := events.foldl step (connected o)
    t.received ++ t.queue = arrived events ∧
    (t.process.calls = o.calls ++ (t.received.map decode).flatMap AutopinMsg.meant ↔
      ∀ msg ∈ t.received.map decode, msg.eventId ≠ AutopinMsg.appNewPhase ∧
        (msg.eventId = AutopinMsg.appUser → msg.arg.toNat < 2 ^ 31)) := by
  intro t
  have hpassed : Passed o t := (connected_passed o).run events
  have harrived : t.received ++ t.queue = arrived events := received_append_queue (connected o) events
  have hsize : ∀ packet ∈ t.received, packet.length = msgSize := fun packet hmem =>
    hwhole packet (harrived ▸ List.mem_append_left _ hmem)
  have hnonempty : nonempty t.received = t.received := nonempty_eq_self hsize
  have hemitted : t.emitted = t.received.map decode := by
    have := hpassed.whole (hnonempty.symm ▸ hsize)
    rwa [hnonempty] at this
  refine ⟨harrived, ?_⟩
  rw [hpassed.told, hemitted, List.append_cancel_left_eq,
    flatMap_eq_flatMap_iff AutopinMsg.delivered_length_le]
  simp only [AutopinMsg.delivered_eq_meant_iff]

theorem run_calls_idle :
    let t := [.arrive (packet 0x10 5 9), .activated blank, .arrive (packet 0x20 1 1), .recv, .recv].foldl
      step idle
    t.process.calls = [.userMessage 5 9] ∧
    t.process.calls = (t.received.map decode).flatMap AutopinMsg.meant := by
  refine ⟨by decide, ?_⟩
  refine (run_calls_iff { pid := 7 } _ ?_).2.mpr ?_
  · decide
  · decide

/-- A change of the phase is never told. -/
theorem not_run_calls_idle :
    let t := [.arrive (packet 0x01 2 0), .activated blank, .recv].foldl step idle
    t.process.signals = [.phaseChanged 2] ∧ t.process.calls = [] ∧
    t.process.calls ≠ (t.received.map decode).flatMap AutopinMsg.meant := by
  decide

end CommChannel

end AutopinPlus
