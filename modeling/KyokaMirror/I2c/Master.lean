import Mathlib.Tactic.Common

set_option autoImplicit false

namespace KyokaMirror.I2c

def ls1cI2cPrerLowOffset : Nat := 0
def ls1cI2cPrerHighOffset : Nat := 1
def ls1cI2cControlOffset : Nat := 2
def ls1cI2cDataOffset : Nat := 3
def ls1cI2cCmdOffset : Nat := 4

def ls1cI2cControlEn : BitVec 8 := 0x80
def ls1cI2cControlIen : BitVec 8 := 0x40

def ls1cI2cCmdStart : BitVec 8 := 0x90
def ls1cI2cCmdStop : BitVec 8 := 0x40
def ls1cI2cCmdWrite : BitVec 8 := 0x10
def ls1cI2cCmdReadAck : BitVec 8 := 0x20
def ls1cI2cCmdReadNack : BitVec 8 := 0x28
def ls1cI2cCmdIack : BitVec 8 := 0x00

def ls1cI2cStatusTip : BitVec 8 := 0x02
def ls1cI2cStatusBusy : BitVec 8 := 0x40
def ls1cI2cStatusNack : BitVec 8 := 0x80

def ls1cI2cClockMax : BitVec 32 := 400000

def ls1cI2cRetOk : Nat := 0
def ls1cI2cRetTimeout : Nat := 1

def rtI2cWr : BitVec 16 := 0x0000
def rtI2cRd : BitVec 16 := 0x0001

/-- `struct rt_i2c_msg`, with the bytes at `buf`. -/
structure RtI2cMsg where
  addr : BitVec 16
  flags : BitVec 16
  len : BitVec 16
  buf : Nat → BitVec 8

/-- What the code cannot control during a transfer: the control register and the
rate of the bus it starts from, the status bytes that poll number `k` reads one
after the other, the one that `i2c_receive_ack` reads at its call number `k`,
and the byte at read number `k` of the data register. -/
structure Bus where
  control : BitVec 8
  apbRate : BitVec 32
  poll : Nat → Nat → BitVec 8
  ack : Nat → BitVec 8
  data : Nat → BitVec 8

/-- One access of a register, or the outcome of a poll or of a check for ACK. -/
inductive Event where
  | write (offset : Nat) (value : BitVec 8)
  | read (offset : Nat) (value : BitVec 8)
  | polled (ended : Bool)
  | acked (ack : Bool)
  deriving DecidableEq, Repr

/-- How far the bus has answered, and what has happened. -/
structure Line where
  polls : Nat
  acks : Nat
  reads : Nat
  trace : List Event

def Line.add (line : Line) (events : List Event) : Line :=
  { line with trace := line.trace ++ events }

def regWrite8 (value : BitVec 8) (offset : Nat) (line : Line) : Line :=
  line.add [.write offset value]

def i2cCmd (cmd : BitVec 8) (line : Line) : Line := regWrite8 cmd ls1cI2cCmdOffset line

/-- A read of the data register. -/
def readData (bus : Bus) (line : Line) : BitVec 8 × Line :=
  let value := bus.data line.reads
  (value, { line.add [.read ls1cI2cDataOffset value] with reads := line.reads + 1 })

/-- The loop of `i2c_poll_status` at a value of `loop_cntr`, from the read number
`j` on. -/
def pollLoop (status : Nat → BitVec 8) (bit : BitVec 8) : Nat → Nat → Bool
  | 0, _ => false
  | n + 1, j => if status j &&& bit = 0 then true else pollLoop status bit n (j + 1)

def i2cPollStatus (bus : Bus) (bit : BitVec 8) (line : Line) : Bool × Line :=
  let ended := pollLoop (bus.poll line.polls) bit 20000 0
  (ended, { line.add [.polled ended] with polls := line.polls + 1 })

/-- The clock is 50000 in `rt_i2c_master_xfer`. -/
def i2cInit (bus : Bus) (clock : BitVec 32) (line : Line) : Line :=
  let ctrl := bus.control &&& ~~~(ls1cI2cControlEn ||| ls1cI2cControlIen)
  let i2cClock := if clock < ls1cI2cClockMax then clock else ls1cI2cClockMax
  let prescale := bus.apbRate / (5 * i2cClock) - 1
  let line := line.add [.read ls1cI2cControlOffset bus.control]
  let line := regWrite8 ctrl ls1cI2cControlOffset line
  let line := regWrite8 ((prescale &&& 0xff).setWidth 8) ls1cI2cPrerLowOffset line
  let line := regWrite8 ((prescale >>> 8).setWidth 8) ls1cI2cPrerHighOffset line
  let line := i2cCmd ls1cI2cCmdIack line
  regWrite8 (ctrl ||| ls1cI2cControlEn) ls1cI2cControlOffset line

/-- True for `LS1C_I2C_ACK`. -/
def i2cReceiveAck (bus : Bus) (line : Line) : Bool × Line :=
  let ack := decide (ls1cI2cStatusNack &&& bus.ack line.acks = 0)
  (ack, { line.add [.acked ack] with acks := line.acks + 1 })

/-- The loop of `i2c_receive_data` with `n` bytes left. -/
def receiveLoop (bus : Bus) (len : Nat) : Nat → (Nat → BitVec 8) → Line →
    Nat × (Nat → BitVec 8) × Line
  | 0, buf, line => (ls1cI2cRetOk, buf, line)
  | n + 1, buf, line =>
      let i := len - (n + 1)
      let line := i2cCmd (if i ≠ len - 1 then ls1cI2cCmdReadAck else ls1cI2cCmdReadNack) line
      let poll := i2cPollStatus bus ls1cI2cStatusTip line
      if ¬poll.1 then (ls1cI2cRetTimeout, buf, poll.2)
      else
        let byte := readData bus poll.2
        receiveLoop bus len n (Function.update buf i byte.1) byte.2

def i2cReceiveData (bus : Bus) (buf : Nat → BitVec 8) (len : Nat) (line : Line) :
    Nat × (Nat → BitVec 8) × Line :=
  receiveLoop bus len len buf line

/-- `slave_addr` is an `unsigned char`, and so is the byte that is sent. -/
def i2cSendStartAndAddr (bus : Bus) (slaveAddr : BitVec 8) (read : Bool) (line : Line) :
    Nat × Line :=
  let busy := i2cPollStatus bus ls1cI2cStatusBusy line
  if ¬busy.1 then (ls1cI2cRetTimeout, busy.2)
  else
    let data := slaveAddr <<< 1 ||| if read then 1 else 0
    let line := i2cCmd ls1cI2cCmdStart (regWrite8 data ls1cI2cDataOffset busy.2)
    let poll := i2cPollStatus bus ls1cI2cStatusTip line
    if ¬poll.1 then (ls1cI2cRetTimeout, poll.2) else (ls1cI2cRetOk, poll.2)

/-- The loop of `i2c_send_data` with `n` bytes left. A refused byte returns the
length. -/
def sendLoop (bus : Bus) (data : Nat → BitVec 8) (len : Nat) : Nat → Line → Nat × Line
  | 0, line => (ls1cI2cRetOk, line)
  | n + 1, line =>
      let line := regWrite8 (data (len - (n + 1))) ls1cI2cDataOffset line
      let poll := i2cPollStatus bus ls1cI2cStatusTip (i2cCmd ls1cI2cCmdWrite line)
      if ¬poll.1 then (ls1cI2cRetTimeout, poll.2)
      else
        let ack := i2cReceiveAck bus poll.2
        if ¬ack.1 then (len, ack.2) else sendLoop bus data len n ack.2

def i2cSendData (bus : Bus) (data : Nat → BitVec 8) (len : Nat) (line : Line) : Nat × Line :=
  sendLoop bus data len len line

def i2cSendStop (line : Line) : Line := i2cCmd ls1cI2cCmdStop line

/-- One turn of the loop over the messages. The results of all four calls are
dropped, and other flags than the two do nothing. -/
def xferMessage (bus : Bus) (msg : RtI2cMsg) (line : Line) : RtI2cMsg × Line :=
  if msg.flags = rtI2cRd then
    let line := (i2cSendStartAndAddr bus (msg.addr.setWidth 8) true line).2
    let line := (i2cReceiveAck bus line).2
    let received := i2cReceiveData bus msg.buf msg.len.toNat line
    ({ msg with buf := received.2.1 }, i2cSendStop received.2.2)
  else if msg.flags = rtI2cWr then
    let line := (i2cSendStartAndAddr bus (msg.addr.setWidth 8) false line).2
    let line := (i2cReceiveAck bus line).2
    (msg, i2cSendStop (i2cSendData bus msg.buf msg.len.toNat line).2)
  else (msg, line)

/-- The value returned, the messages with their buffers, and what happened in
`i2c_init` and at each message. -/
structure Transfer where
  ret : Nat
  msgs : List RtI2cMsg
  init : List Event
  traces : List (List Event)

def xferLoop (bus : Bus) : List RtI2cMsg → Nat → Line → Nat × List RtI2cMsg × List (List Event)
  | [], ret, _ => (ret, [], [])
  | msg :: rest, ret, line =>
      let turn := xferMessage bus msg { line with trace := [] }
      let others := xferLoop bus rest (ret + 1) turn.2
      (others.1, turn.1 :: others.2.1, turn.2.trace :: others.2.2)

def rtI2cMasterXfer (bus : Bus) (msgs : List RtI2cMsg) : Transfer :=
  let line := i2cInit bus 50000 ⟨0, 0, 0, []⟩
  let loop := xferLoop bus msgs 0 line
  { ret := loop.1, msgs := loop.2.1, init := line.trace, traces := loop.2.2 }

end KyokaMirror.I2c
