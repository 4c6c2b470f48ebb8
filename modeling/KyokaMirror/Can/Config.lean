import KyokaMirror.Ls1c.Pin

set_option autoImplicit false

namespace KyokaMirror.Can

open Ls1c (Registers pinSetPurpose pinSetRemap)

/-- The registers of `CAN_TypeDef` that the configuration touches. -/
structure CanTypeDef where
  mod : BitVec 8
  ier : BitVec 8
  btr0 : BitVec 8
  btr1 : BitVec 8
  rxerr : BitVec 8
  txerr : BitVec 8
  cdr : BitVec 8

def canModeRM : BitVec 8 := 0x01
def canModeLOM : BitVec 8 := 0x02
def canModeSTM : BitVec 8 := 0x04
def canModeAFM : BitVec 8 := 0x08
def canModeSM : BitVec 8 := 0x10
def canIrBEI : BitVec 8 := 0x80

def canInitStatusFailed : Nat := 0
def rtEok : Nat := 0
def rtError : Nat := 1

/-- What the code cannot control during one call: whether the chip takes the
reset bit, or gives it up, when `n` attempts are left after this one, and the
byte in a `CAN_Mode` that no case of the switch has assigned. -/
structure Chip where
  entersReset : Nat → Bool
  leavesReset : Nat → Bool
  unassigned : BitVec 8

/-- The loop of 100 attempts. `status` is always the `MOD` read last. -/
def setResetLoop (chip : Chip) : Nat → BitVec 8 → BitVec 8 × Nat
  | 0, mod => (mod, 0)
  | n + 1, mod =>
      if mod &&& canModeRM = canModeRM then (mod, 1)
      else setResetLoop chip n (if chip.entersReset n then mod ||| canModeRM else mod)

def setResetMode (chip : Chip) (can : CanTypeDef) : CanTypeDef × Nat :=
  let result := setResetLoop chip 100 can.mod
  ({ can with mod := result.1, ier := 0x00 }, result.2)

def setNormalLoop (chip : Chip) : Nat → BitVec 8 → BitVec 8 × Nat
  | 0, mod => (mod, 0)
  | n + 1, mod =>
      if mod &&& canModeRM ≠ canModeRM then (mod, 1)
      else setNormalLoop chip n (if chip.leavesReset n then mod &&& ~~~canModeRM else mod)

def setNormalMode (chip : Chip) (can : CanTypeDef) : CanTypeDef × Nat :=
  let result := setNormalLoop chip 100 can.mod
  ({ can with
      mod := result.1
      ier := if result.2 = 1 then can.ier ||| ~~~canIrBEI else can.ier }, result.2)

def setStart (chip : Chip) (can : CanTypeDef) : CanTypeDef × Nat :=
  setNormalMode chip { can with txerr := 0, rxerr := 0, cdr := 0xC0 }

/-- The prescaler and the two time segments, as the constants `CAN_BS1_*` and
`CAN_BS2_*` encode them. -/
structure Timing where
  prescaler : BitVec 8
  bs1 : BitVec 8
  bs2 : BitVec 8
  deriving DecidableEq, Repr

def canSJW1tq : BitVec 8 := 0x00

def Timing.btr0 (timing : Timing) : BitVec 8 := (timing.prescaler - 1) ||| (canSJW1tq <<< 6)

def Timing.btr1 (timing : Timing) : BitVec 8 :=
  timing.bs1 ||| (timing.bs2 <<< 4) ||| (canSJW1tq <<< 7)

/-- One of the four `if` of `CAN_Init`: the bit of `MOD` becomes that of
`CAN_Mode`. -/
def modeBit (canMode bit mod : BitVec 8) : BitVec 8 :=
  if canMode &&& bit = bit then mod ||| bit else mod &&& ~~~bit

def canInit (chip : Chip) (can : CanTypeDef) (canMode : BitVec 8) (timing : Timing) :
    CanTypeDef × Nat :=
  if can.mod = 0xFF then (can, canInitStatusFailed)
  else
    let entered := setResetMode chip can
    let mod := modeBit canMode canModeSTM (modeBit canMode canModeAFM
      (modeBit canMode canModeLOM (modeBit canMode canModeSM entered.1.mod)))
    let configured := { entered.1 with mod := mod, btr0 := timing.btr0, btr1 := timing.btr1 }
    ((setStart chip configured).1, entered.2)

/-- `Ls1c_CanBPS_t`. -/
inductive Bps where
  | can1M | can800k | can500k | can250k | can125k | can100k | can50k | can40k
  deriving DecidableEq, Repr

/-- The table in `CAN_SetBps`. -/
def setBpsTiming : Bps → Timing
  | .can1M => ⟨9, 0x03, 0x01⟩
  | .can800k => ⟨8, 0x06, 0x01⟩
  | .can500k => ⟨9, 0x0A, 0x01⟩
  | .can250k => ⟨36, 0x03, 0x01⟩
  | .can125k => ⟨36, 0x0A, 0x01⟩
  | .can100k => ⟨63, 0x06, 0x01⟩
  | .can50k => ⟨63, 0x0F, 0x02⟩
  | .can40k => ⟨63, 0x0F, 0x07⟩

/-- The table in `bxcan_init`, which has no row for 40K. -/
def bxcanInitTiming : Bps → Timing
  | .can1M => ⟨9, 0x03, 0x01⟩
  | .can800k => ⟨8, 0x06, 0x01⟩
  | .can500k => ⟨9, 0x0A, 0x01⟩
  | .can250k => ⟨36, 0x03, 0x01⟩
  | .can125k => ⟨36, 0x0A, 0x01⟩
  | .can100k => ⟨63, 0x06, 0x01⟩
  | .can50k => ⟨63, 0x0F, 0x02⟩
  | _ => ⟨36, 0x03, 0x01⟩

def can1MBaud : Nat := 1000000
def can800kBaud : Nat := 800000
def can500kBaud : Nat := 500000
def can250kBaud : Nat := 250000
def can125kBaud : Nat := 125000
def can100kBaud : Nat := 100000
def can50kBaud : Nat := 50000

/-- The switch over `baud`, which `bxcan_init` and `control` both make. -/
def bpsOfBaud (baud : Nat) : Bps :=
  if baud = can1MBaud then .can1M
  else if baud = can800kBaud then .can800k
  else if baud = can500kBaud then .can500k
  else if baud = can250kBaud then .can250k
  else if baud = can125kBaud then .can125k
  else if baud = can50kBaud then .can40k
  else .can250k

/-- The switch over `mode`, which has no default. -/
def canModeOfMode (chip : Chip) : Nat → BitVec 8
  | 0 => 0x00
  | 1 => canModeLOM
  | 2 => canModeSTM
  | 3 => canModeSTM ||| canModeLOM
  | _ => chip.unassigned

def bxcanInit (chip : Chip) (can : CanTypeDef) (baud mode : Nat) : CanTypeDef :=
  (canInit chip can (canModeOfMode chip mode) (bxcanInitTiming (bpsOfBaud baud))).1

def canSetBps (chip : Chip) (can : CanTypeDef) (bps : Bps) : CanTypeDef × Nat :=
  let entered := setResetMode chip can
  if entered.2 = canInitStatusFailed then (entered.1, canInitStatusFailed)
  else
    let timing := setBpsTiming bps
    let configured := { entered.1 with btr0 := timing.btr0, btr1 := timing.btr1 }
    ((setStart chip configured).1, canInitStatusFailed)

def canSetMode (chip : Chip) (can : CanTypeDef) (mode : Nat) : CanTypeDef × Nat :=
  let entered := setResetMode chip can
  if entered.2 = canInitStatusFailed then (entered.1, canInitStatusFailed)
  else
    let mod := match mode with
      | 0 => entered.1.mod &&& ~~~canModeSTM &&& ~~~canModeLOM
      | 1 => entered.1.mod &&& ~~~canModeSTM ||| canModeLOM
      | 2 => (entered.1.mod ||| canModeSTM) &&& ~~~canModeLOM
      | 3 => entered.1.mod ||| canModeSTM ||| canModeLOM
      | _ => entered.1.mod
    ((setStart chip { entered.1 with mod := mod }).1, canInitStatusFailed)

inductive Bxcan where
  | can0 | can1
  deriving DecidableEq, Repr

/-- `struct rt_can_device` with the registers behind its `user_data`, the two
fields of its configuration that the driver uses, and the pin registers. -/
structure CanDevice where
  port : Bxcan
  reg : CanTypeDef
  baudRate : Nat
  mode : Nat
  pins : Registers

def bxcanHwInit (rx tx : Nat) (pins : Registers) : Registers :=
  let purpose := pinSetPurpose (pinSetPurpose pins rx .other) tx .other
  pinSetRemap (pinSetRemap purpose rx .third) tx .third

def bxcan0HwInit : Registers → Registers := bxcanHwInit 54 55
def bxcan1HwInit : Registers → Registers := bxcanHwInit 56 57

/-- `configure` with `cfg = &can->config`. -/
def configure (chip : Chip) (can : CanDevice) : CanDevice × Nat :=
  let pins := match can.port with
    | .can0 => bxcan0HwInit can.pins
    | .can1 => bxcan1HwInit can.pins
  ({ can with reg := bxcanInit chip can.reg can.baudRate can.mode, pins := pins }, rtEok)

/-- `RT_CAN_CMD_SET_MODE`. The configuration keeps 8 bits of the mode. -/
def controlSetMode (chip : Chip) (argval : Nat) (can : CanDevice) : CanDevice × Nat :=
  if argval ≠ 0 ∨ argval ≠ 1 ∨ argval ≠ 2 ∨ argval ≠ 3 then (can, rtError)
  else if argval ≠ can.mode then
    let set := canSetMode chip can.reg (argval % 256)
    ({ can with mode := argval % 256, reg := set.1 }, set.2)
  else (can, rtEok)

/-- `RT_CAN_CMD_SET_BAUD`. -/
def controlSetBaud (chip : Chip) (argval : Nat) (can : CanDevice) : CanDevice × Nat :=
  if argval ≠ can1MBaud ∧ argval ≠ can800kBaud ∧ argval ≠ can500kBaud ∧ argval ≠ can250kBaud ∧
      argval ≠ can125kBaud ∧ argval ≠ can100kBaud ∧ argval ≠ can50kBaud then (can, rtError)
  else if argval ≠ can.baudRate then
    let set := canSetBps chip can.reg (bpsOfBaud argval)
    ({ can with baudRate := argval, reg := set.1 }, set.2)
  else (can, rtEok)

/-- A device as `ls1c_bxcan_init` registers it. -/
def registered (port : Bxcan) (reg : CanTypeDef) (pins : Registers) : CanDevice :=
  { port := port, reg := reg, baudRate := can250kBaud, mode := 0, pins := pins }

end KyokaMirror.Can
