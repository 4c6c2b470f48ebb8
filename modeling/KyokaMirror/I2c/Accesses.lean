import KyokaMirror.I2c.Answers

set_option autoImplicit false

namespace KyokaMirror.I2c

def startEvents (byte : BitVec 8) : List Event :=
  [.polled true, .write ls1cI2cDataOffset byte, .write ls1cI2cCmdOffset ls1cI2cCmdStart,
    .polled true]

/-- The reads of `n` bytes from read number `r` on; the last one is not
acknowledged. -/
def receiveEvents (bus : Bus) : Nat → Nat → List Event
  | 0, _ => []
  | n + 1, r =>
      .write ls1cI2cCmdOffset (if n = 0 then ls1cI2cCmdReadNack else ls1cI2cCmdReadAck) ::
        .polled true :: .read ls1cI2cDataOffset (bus.data r) :: receiveEvents bus n (r + 1)

def sendEvents : List (BitVec 8) → List Event
  | [] => []
  | byte :: rest =>
      .write ls1cI2cDataOffset byte :: .write ls1cI2cCmdOffset ls1cI2cCmdWrite ::
        .polled true :: .acked true :: sendEvents rest

/-- The `n` bytes from `i` on. -/
def bytesFrom (data : Nat → BitVec 8) (i n : Nat) : List (BitVec 8) := (List.range' i n).map data

/-- The buffer with the bytes received from `i` on. -/
def received (bus : Bus) (r i n : Nat) (buf : Nat → BitVec 8) : Nat → BitVec 8 := fun k =>
  if i ≤ k ∧ k < i + n then bus.data (r + (k - i)) else buf k

section

variable {bus : Bus} (line : Line)

theorem i2cSendStartAndAddr_ends (addr : BitVec 8) (read : Bool)
    (ends : PollsEnd bus line.polls [ls1cI2cStatusBusy, ls1cI2cStatusTip]) :
    i2cSendStartAndAddr bus addr read line = (ls1cI2cRetOk,
      line.advance 2 0 0 (startEvents (addr <<< 1 ||| if read then 1 else 0))) := by
  obtain ⟨busy, rest⟩ := (pollsEnd_cons _ _ _).mp ends
  obtain ⟨tip, -⟩ := (pollsEnd_cons _ _ _).mp rest
  rw [i2cSendStartAndAddr, i2cPollStatus_ends line busy, if_neg (not_not.mpr rfl)]
  simp only [regWrite8_eq, i2cCmd_eq, Line.advance_advance]
  rw [i2cPollStatus_ends (line.advance 1 0 0 _) tip, if_neg (not_not.mpr rfl),
    Line.advance_advance]
  rfl

theorem received_succ (r i n : Nat) (buf : Nat → BitVec 8) :
    received bus (r + 1) (i + 1) n (Function.update buf i (bus.data r)) =
      received bus r i (n + 1) buf := by
  funext k
  rw [received, received]
  by_cases first : k = i
  · subst first
    rw [if_neg (by omega), if_pos (by omega), Function.update_self, Nat.sub_self, Nat.add_zero]
  · rw [Function.update_of_ne first]
    by_cases inside : i + 1 ≤ k ∧ k < i + 1 + n
    · rw [if_pos inside, if_pos (by omega)]
      congr 1
      omega
    · rw [if_neg inside, if_neg (by omega)]

theorem receiveLoop_ends (len n i : Nat) (left : i + n = len) (buf : Nat → BitVec 8)
    (ends : PollsEnd bus line.polls (List.replicate n ls1cI2cStatusTip)) :
    receiveLoop bus len n buf line = (ls1cI2cRetOk, received bus line.reads i n buf,
      line.advance n 0 n (receiveEvents bus n line.reads)) := by
  induction n generalizing i buf line with
  | zero =>
      have same : received bus line.reads i 0 buf = buf := by
        funext k
        rw [received, if_neg (by omega)]
      rw [receiveLoop, same, receiveEvents, Line.advance, List.append_nil]
      rfl
  | succ n ih =>
      rw [List.replicate_succ, pollsEnd_cons] at ends
      have position : len - (n + 1) = i := by omega
      have last : (if i ≠ len - 1 then ls1cI2cCmdReadAck else ls1cI2cCmdReadNack) =
          if n = 0 then ls1cI2cCmdReadNack else ls1cI2cCmdReadAck := by
        by_cases zero : n = 0
        · rw [if_neg (by omega), if_pos zero]
        · rw [if_pos (by omega), if_neg zero]
      rw [receiveLoop, position, last, i2cCmd_eq,
        i2cPollStatus_ends (line.advance 0 0 0 _) ends.1, if_neg (not_not.mpr rfl)]
      simp only [readData_eq, Line.advance_advance, Line.advance_reads, Nat.add_zero]
      rw [ih (line.advance _ 0 _ _) (i + 1) (by omega) _ ends.2]
      simp only [received_succ, Line.advance_advance, Line.advance_reads, Nat.add_comm 1]
      rfl

theorem sendLoop_ends (data : Nat → BitVec 8) (len n i : Nat) (left : i + n = len)
    (ends : PollsEnd bus line.polls (List.replicate n ls1cI2cStatusTip))
    (acked : Acknowledged bus line.acks n) :
    sendLoop bus data len n line =
      (ls1cI2cRetOk, line.advance n n 0 (sendEvents (bytesFrom data i n))) := by
  induction n generalizing i line with
  | zero =>
      rw [sendLoop, bytesFrom, List.range'_zero, List.map_nil, sendEvents, Line.advance,
        List.append_nil]
      rfl
  | succ n ih =>
      rw [List.replicate_succ, pollsEnd_cons] at ends
      rw [acknowledged_succ] at acked
      have position : len - (n + 1) = i := by omega
      rw [sendLoop, position, regWrite8_eq, i2cCmd_eq, Line.advance_advance,
        i2cPollStatus_ends (line.advance 0 0 0 _) ends.1, if_neg (not_not.mpr rfl),
        i2cReceiveAck_acked ((line.advance 0 0 0 _).advance 1 0 0 _) acked.1,
        if_neg (not_not.mpr rfl)]
      simp only [Line.advance_advance]
      rw [ih (line.advance _ _ 0 _) (i + 1) (by omega) ends.2 acked.2]
      simp only [Line.advance_advance, Nat.add_comm 1]
      rfl

end

/-- The bits that a message polls for, the checks for ACK and the reads. -/
def pollBits (msg : RtI2cMsg) : List (BitVec 8) :=
  if msg.flags = rtI2cRd ∨ msg.flags = rtI2cWr then
    [ls1cI2cStatusBusy, ls1cI2cStatusTip] ++ List.replicate msg.len.toNat ls1cI2cStatusTip
  else []

def ackCount (msg : RtI2cMsg) : Nat :=
  if msg.flags = rtI2cRd then 1 else if msg.flags = rtI2cWr then 1 + msg.len.toNat else 0

def readCount (msg : RtI2cMsg) : Nat := if msg.flags = rtI2cRd then msg.len.toNat else 0

def messageEvents (bus : Bus) (r : Nat) (msg : RtI2cMsg) : List Event :=
  if msg.flags = rtI2cRd then
    startEvents (msg.addr.setWidth 8 <<< 1 ||| 1) ++ [Event.acked true] ++
      receiveEvents bus msg.len.toNat r ++ [Event.write ls1cI2cCmdOffset ls1cI2cCmdStop]
  else if msg.flags = rtI2cWr then
    startEvents (msg.addr.setWidth 8 <<< 1 ||| 0) ++ [Event.acked true] ++
      sendEvents (bytesFrom msg.buf 0 msg.len.toNat) ++ [Event.write ls1cI2cCmdOffset ls1cI2cCmdStop]
  else []

/-- The message with what a read has put into its buffer. -/
def filled (bus : Bus) (r : Nat) (msg : RtI2cMsg) : RtI2cMsg :=
  if msg.flags = rtI2cRd then { msg with buf := received bus r 0 msg.len.toNat msg.buf } else msg

section

variable {bus : Bus} (msg : RtI2cMsg) (line : Line)

theorem pollBits_known (known : msg.flags = rtI2cRd ∨ msg.flags = rtI2cWr) :
    pollBits msg = [ls1cI2cStatusBusy, ls1cI2cStatusTip] ++
      List.replicate msg.len.toNat ls1cI2cStatusTip := if_pos known

theorem pollBits_length (known : msg.flags = rtI2cRd ∨ msg.flags = rtI2cWr) :
    (pollBits msg).length = 2 + msg.len.toNat := by
  rw [pollBits_known msg known, List.length_append, List.length_replicate]
  rfl

theorem pollBits_other (read : msg.flags ≠ rtI2cRd) (write : msg.flags ≠ rtI2cWr) :
    pollBits msg = [] := if_neg (not_or.mpr ⟨read, write⟩)

theorem xferMessage_read (read : msg.flags = rtI2cRd)
    (ends : PollsEnd bus line.polls (pollBits msg))
    (acked : Acknowledged bus line.acks (ackCount msg)) :
    xferMessage bus msg line = (filled bus line.reads msg,
      line.advance (pollBits msg).length (ackCount msg) (readCount msg)
        (messageEvents bus line.reads msg)) := by
  have checks : ackCount msg = 1 := if_pos read
  have length := pollBits_length msg (.inl read)
  rw [pollBits_known msg (.inl read), pollsEnd_append] at ends
  rw [checks, acknowledged_succ] at acked
  rw [xferMessage, if_pos read, i2cSendStartAndAddr_ends line _ _ ends.1]
  dsimp only
  rw [i2cReceiveAck_acked (line.advance 2 0 0 _) acked.1, i2cReceiveData]
  dsimp only
  rw [Line.advance_advance,
    receiveLoop_ends (line.advance (2 + 0) (0 + 1) (0 + 0) _) _ _ 0 (Nat.zero_add _) _ ends.2]
  simp only [i2cSendStop, i2cCmd_eq, Line.advance_advance, Line.advance_reads, Nat.add_zero,
    Nat.zero_add, ↓reduceIte]
  rw [filled, if_pos read, messageEvents, if_pos read, length, checks, readCount, if_pos read]

theorem xferMessage_write (write : msg.flags = rtI2cWr)
    (ends : PollsEnd bus line.polls (pollBits msg))
    (acked : Acknowledged bus line.acks (ackCount msg)) :
    xferMessage bus msg line = (filled bus line.reads msg,
      line.advance (pollBits msg).length (ackCount msg) (readCount msg)
        (messageEvents bus line.reads msg)) := by
  have other : ¬msg.flags = rtI2cRd := by rw [write]; decide
  have checks : ackCount msg = 1 + msg.len.toNat := by rw [ackCount, if_neg other, if_pos write]
  have length := pollBits_length msg (.inr write)
  rw [pollBits_known msg (.inr write), pollsEnd_append] at ends
  rw [checks, acknowledged_add, acknowledged_succ] at acked
  rw [xferMessage, if_neg other, if_pos write, i2cSendStartAndAddr_ends line _ _ ends.1]
  dsimp only
  rw [i2cReceiveAck_acked (line.advance 2 0 0 _) acked.1.1, i2cSendData]
  dsimp only
  rw [Line.advance_advance,
    sendLoop_ends (line.advance (2 + 0) (0 + 1) (0 + 0) _) _ _ _ 0 (Nat.zero_add _) ends.2 acked.2]
  simp only [i2cSendStop, i2cCmd_eq, Line.advance_advance, Nat.add_zero]
  rw [filled, if_neg other, messageEvents, if_neg other, if_pos write, length, checks, readCount,
    if_neg other]
  rfl

theorem xferMessage_other (read : msg.flags ≠ rtI2cRd) (write : msg.flags ≠ rtI2cWr) :
    xferMessage bus msg line = (filled bus line.reads msg,
      line.advance (pollBits msg).length (ackCount msg) (readCount msg)
        (messageEvents bus line.reads msg)) := by
  rw [xferMessage, if_neg read, if_neg write, filled, if_neg read, pollBits_other msg read write,
    ackCount, if_neg read, if_neg write, readCount, if_neg read, messageEvents, if_neg read,
    if_neg write, Line.advance, List.append_nil]
  rfl

/-- A message on which nothing fails. -/
theorem xferMessage_ends (ends : PollsEnd bus line.polls (pollBits msg))
    (acked : Acknowledged bus line.acks (ackCount msg)) :
    xferMessage bus msg line = (filled bus line.reads msg,
      line.advance (pollBits msg).length (ackCount msg) (readCount msg)
        (messageEvents bus line.reads msg)) := by
  by_cases read : msg.flags = rtI2cRd
  · exact xferMessage_read msg line read ends acked
  · by_cases write : msg.flags = rtI2cWr
    · exact xferMessage_write msg line write ends acked
    · exact xferMessage_other msg line read write

end

def ackTotal : List RtI2cMsg → Nat
  | [] => 0
  | msg :: rest => ackCount msg + ackTotal rest

/-- The events of the messages from read number `r` on. -/
def transferEvents (bus : Bus) : Nat → List RtI2cMsg → List (List Event)
  | _, [] => []
  | r, msg :: rest => messageEvents bus r msg :: transferEvents bus (r + readCount msg) rest

def filledAll (bus : Bus) : Nat → List RtI2cMsg → List RtI2cMsg
  | _, [] => []
  | r, msg :: rest => filled bus r msg :: filledAll bus (r + readCount msg) rest

theorem xferLoop_ends {bus : Bus} (msgs : List RtI2cMsg) (ret : Nat) (line : Line)
    (ends : PollsEnd bus line.polls (msgs.flatMap pollBits))
    (acked : Acknowledged bus line.acks (ackTotal msgs)) :
    xferLoop bus msgs ret line = (ret + msgs.length, filledAll bus line.reads msgs,
      transferEvents bus line.reads msgs) := by
  induction msgs generalizing ret line with
  | nil => rfl
  | cons msg rest ih =>
      rw [List.flatMap_cons, pollsEnd_append] at ends
      rw [ackTotal, acknowledged_add] at acked
      rw [xferLoop, xferMessage_ends msg { line with trace := [] } ends.1 acked.1]
      dsimp only
      rw [ih (ret + 1) (Line.advance { line with trace := [] } _ _ _ _) ends.2 acked.2,
        List.length_cons, Nat.add_right_comm, Nat.add_assoc]
      rfl

def Event.isAccess : Event → Bool
  | .write offset _ => offset = ls1cI2cDataOffset ∨ offset = ls1cI2cCmdOffset
  | .read offset _ => offset = ls1cI2cDataOffset ∨ offset = ls1cI2cCmdOffset
  | .polled _ => false
  | .acked _ => false

/-- The accesses that a message is meant to make, from read number `r` on. -/
def messageAccesses (bus : Bus) (r : Nat) (msg : RtI2cMsg) : List Event :=
  let len := msg.len.toNat
  if msg.flags = rtI2cRd then
    [Event.write ls1cI2cDataOffset (BitVec.ofNat 8 (msg.addr.toNat * 2 + 1)),
        .write ls1cI2cCmdOffset ls1cI2cCmdStart] ++
      (List.range len).flatMap (fun i =>
        [Event.write ls1cI2cCmdOffset
            (if i + 1 = len then ls1cI2cCmdReadNack else ls1cI2cCmdReadAck),
          .read ls1cI2cDataOffset (bus.data (r + i))]) ++
      [Event.write ls1cI2cCmdOffset ls1cI2cCmdStop]
  else
    [Event.write ls1cI2cDataOffset (BitVec.ofNat 8 (msg.addr.toNat * 2)),
        .write ls1cI2cCmdOffset ls1cI2cCmdStart] ++
      (List.range len).flatMap (fun i =>
        [Event.write ls1cI2cDataOffset (msg.buf i), .write ls1cI2cCmdOffset ls1cI2cCmdWrite]) ++
      [Event.write ls1cI2cCmdOffset ls1cI2cCmdStop]

def transferAccesses (bus : Bus) : Nat → List RtI2cMsg → List (List Event)
  | _, [] => []
  | r, msg :: rest => messageAccesses bus r msg :: transferAccesses bus (r + readCount msg) rest

theorem receiveEvents_accesses (bus : Bus) (len r n i : Nat) (left : i + n = len) :
    (receiveEvents bus n (r + i)).filter Event.isAccess = (List.range' i n).flatMap (fun k =>
      [.write ls1cI2cCmdOffset (if k + 1 = len then ls1cI2cCmdReadNack else ls1cI2cCmdReadAck),
        .read ls1cI2cDataOffset (bus.data (r + k))]) := by
  induction n generalizing i with
  | zero => rfl
  | succ n ih =>
      have last : (if i + 1 = len then ls1cI2cCmdReadNack else ls1cI2cCmdReadAck) =
          if n = 0 then ls1cI2cCmdReadNack else ls1cI2cCmdReadAck := by
        by_cases zero : n = 0
        · rw [if_pos (by omega), if_pos zero]
        · rw [if_neg (by omega), if_neg zero]
      rw [List.range'_succ, List.flatMap_cons, ← ih (i + 1) (by omega), last]
      rfl

theorem sendEvents_accesses (data : Nat → BitVec 8) (n i : Nat) :
    (sendEvents (bytesFrom data i n)).filter Event.isAccess = (List.range' i n).flatMap (fun k =>
      [.write ls1cI2cDataOffset (data k), .write ls1cI2cCmdOffset ls1cI2cCmdWrite]) := by
  induction n generalizing i with
  | zero => rfl
  | succ n ih =>
      rw [List.range'_succ, List.flatMap_cons, ← ih (i + 1), bytesFrom, List.range'_succ,
        List.map_cons, sendEvents]
      rfl

/-- The address byte of a seven-bit address. -/
theorem address_byte {addr : BitVec 16} (short : addr.toNat < 128) (direction : BitVec 8)
    (bit : direction.toNat ≤ 1) :
    addr.setWidth 8 <<< 1 ||| direction = BitVec.ofNat 8 (addr.toNat * 2 + direction.toNat) := by
  apply BitVec.eq_of_toNat_eq
  rw [BitVec.toNat_or, BitVec.toNat_shiftLeft, BitVec.toNat_setWidth, BitVec.toNat_ofNat,
    Nat.mod_eq_of_lt (show addr.toNat < 2 ^ 8 by omega), Nat.shiftLeft_eq, Nat.pow_one,
    Nat.mod_eq_of_lt (show addr.toNat * 2 < 2 ^ 8 by omega),
    Nat.mod_eq_of_lt (show addr.toNat * 2 + direction.toNat < 2 ^ 8 by omega)]
  have disjoint := Nat.two_pow_add_eq_or_of_lt (show direction.toNat < 2 ^ 1 by omega) addr.toNat
  rw [Nat.pow_one, Nat.mul_comm] at disjoint
  exact disjoint.symm

theorem messageEvents_accesses (bus : Bus) (r : Nat) {msg : RtI2cMsg}
    (flags : msg.flags = rtI2cRd ∨ msg.flags = rtI2cWr) (short : msg.addr.toNat < 128) :
    (messageEvents bus r msg).filter Event.isAccess = messageAccesses bus r msg := by
  have start : ∀ byte, (startEvents byte).filter Event.isAccess =
      [.write ls1cI2cDataOffset byte, .write ls1cI2cCmdOffset ls1cI2cCmdStart] := fun _ => rfl
  have acked : [Event.acked true].filter Event.isAccess = [] := rfl
  have stop : [Event.write ls1cI2cCmdOffset ls1cI2cCmdStop].filter Event.isAccess =
      [.write ls1cI2cCmdOffset ls1cI2cCmdStop] := rfl
  rcases flags with read | write
  · rw [messageEvents, if_pos read, messageAccesses, if_pos read, address_byte short 1 (by decide)]
    simp only [List.filter_append, start, acked, stop, List.append_nil]
    rw [← Nat.add_zero r, receiveEvents_accesses bus msg.len.toNat r _ 0 (Nat.zero_add _),
      List.range_eq_range']
    rfl
  · have other : ¬msg.flags = rtI2cRd := by rw [write]; decide
    rw [messageEvents, if_neg other, if_pos write, messageAccesses, if_neg other,
      address_byte short 0 (by decide)]
    simp only [List.filter_append, start, acked, stop, List.append_nil]
    rw [sendEvents_accesses, List.range_eq_range']
    rfl

theorem transferEvents_accesses (bus : Bus) (msgs : List RtI2cMsg) (r : Nat)
    (flags : ∀ msg ∈ msgs, msg.flags = rtI2cRd ∨ msg.flags = rtI2cWr)
    (short : ∀ msg ∈ msgs, msg.addr.toNat < 128) :
    (transferEvents bus r msgs).map (List.filter Event.isAccess) = transferAccesses bus r msgs := by
  induction msgs generalizing r with
  | nil => rfl
  | cons msg rest ih =>
      rw [transferEvents, transferAccesses, List.map_cons,
        messageEvents_accesses bus r (flags msg List.mem_cons_self) (short msg List.mem_cons_self),
        ih _ (fun other inside => flags other (List.mem_cons_of_mem _ inside))
          (fun other inside => short other (List.mem_cons_of_mem _ inside))]

/-- On a bus where nothing fails, the messages make the accesses they are meant
to make, the buffers of the reads are filled, and all messages are counted. -/
theorem transfer_accesses (bus : Bus) (msgs : List RtI2cMsg)
    (flags : ∀ msg ∈ msgs, msg.flags = rtI2cRd ∨ msg.flags = rtI2cWr)
    (short : ∀ msg ∈ msgs, msg.addr.toNat < 128)
    (ends : PollsEnd bus 0 (msgs.flatMap pollBits)) (acked : Acknowledged bus 0 (ackTotal msgs)) :
    (rtI2cMasterXfer bus msgs).traces.map (List.filter Event.isAccess) =
        transferAccesses bus 0 msgs ∧
      (rtI2cMasterXfer bus msgs).msgs = filledAll bus 0 msgs ∧
      (rtI2cMasterXfer bus msgs).ret = msgs.length := by
  have loop := xferLoop_ends msgs 0 (i2cInit bus 50000 ⟨0, 0, 0, []⟩) ends acked
  rw [rtI2cMasterXfer, loop]
  exact ⟨transferEvents_accesses bus msgs 0 flags short, rfl, Nat.zero_add _⟩

/-- A bus that is never busy and acknowledges everything; read number `k` gives
the byte `k`. -/
def obligingBus : Bus where
  control := 0
  apbRate := 100000000
  poll := fun _ _ => 0
  ack := fun _ => 0
  data := fun k => BitVec.ofNat 8 k

theorem obligingBus_ends (p : Nat) (bits : List (BitVec 8)) : PollsEnd obligingBus p bits :=
  fun _ _ _ => ⟨0, by decide, BitVec.zero_and⟩

theorem obligingBus_acked (a n : Nat) : Acknowledged obligingBus a n := fun _ _ => BitVec.and_zero

/-- A register number is written, and two bytes are read from it. -/
theorem register_read_accesses :
    (rtI2cMasterXfer obligingBus [⟨0x50, rtI2cWr, 1, fun _ => 0x12⟩,
        ⟨0x50, rtI2cRd, 2, fun _ => 0xFF⟩]).traces.map (List.filter Event.isAccess) =
      [[.write 3 0xA0, .write 4 0x90, .write 3 0x12, .write 4 0x10, .write 4 0x40],
        [.write 3 0xA1, .write 4 0x90, .write 4 0x20, .read 3 0, .write 4 0x28, .read 3 1,
          .write 4 0x40]] := by
  have transfer := transfer_accesses obligingBus [⟨0x50, rtI2cWr, 1, fun _ => 0x12⟩,
    ⟨0x50, rtI2cRd, 2, fun _ => 0xFF⟩] (by simp) (by simp) (obligingBus_ends _ _)
    (obligingBus_acked _ _)
  rw [transfer.1]
  decide +kernel

end KyokaMirror.I2c
