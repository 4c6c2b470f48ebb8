import Mathlib.Data.BitVec

set_option autoImplicit false

namespace KyokaMirror.Ls1c

/-- The memory-mapped registers by their address. `NULL` is the address 0. -/
abbrev Registers := Nat → BitVec 32

def regSetOneBit (regs : Registers) (reg bit : Nat) : Registers :=
  fun a => if a = reg then regs reg ||| 1#32 <<< bit else regs a

def regClrOneBit (regs : Registers) (reg bit : Nat) : Registers :=
  fun a => if a = reg then regs reg &&& ~~~(1#32 <<< bit) else regs a

def gpioCfg0 : Nat := 0xbfd010c0
def gpioCfg1 : Nat := 0xbfd010c4
def gpioCfg2 : Nat := 0xbfd010c8
def gpioCfg3 : Nat := 0xbfd010cc
def gpioEn0 : Nat := 0xbfd010d0
def gpioEn1 : Nat := 0xbfd010d4
def gpioEn2 : Nat := 0xbfd010d8
def gpioEn3 : Nat := 0xbfd010dc
def gpioOut0 : Nat := 0xbfd010f0
def gpioOut1 : Nat := 0xbfd010f4
def gpioOut2 : Nat := 0xbfd010f8
def gpioOut3 : Nat := 0xbfd010fc
def cbusFirst0 : Nat := 0xbfd011c0
def cbusSecond0 : Nat := 0xbfd011d0
def cbusThird0 : Nat := 0xbfd011e0
def cbusFourth0 : Nat := 0xbfd011f0
def cbusFifth0 : Nat := 0xbfd01200
def cbusFirst1 : Nat := 0xbfd011c4
def cbusSecond1 : Nat := 0xbfd011d4
def cbusThird1 : Nat := 0xbfd011e4
def cbusFourth1 : Nat := 0xbfd011f4
def cbusFifth1 : Nat := 0xbfd01204
def cbusFirst2 : Nat := 0xbfd011c8
def cbusSecond2 : Nat := 0xbfd011d8
def cbusThird2 : Nat := 0xbfd011e8
def cbusFourth2 : Nat := 0xbfd011f8
def cbusFifth2 : Nat := 0xbfd01208
def cbusFirst3 : Nat := 0xbfd011cc
def cbusSecond3 : Nat := 0xbfd011dc
def cbusThird3 : Nat := 0xbfd011ec
def cbusFourth3 : Nat := 0xbfd011fc
def cbusFifth3 : Nat := 0xbfd0120c

def gpioGetPort (gpio : Nat) : Nat := gpio / 32
def gpioGetPin (gpio : Nat) : Nat := gpio % 32

inductive PinPurpose where
  | gpio
  | other
  deriving DecidableEq, Repr

inductive PinRemap where
  | first | second | third | fourth | fifth | default
  deriving DecidableEq, Repr

inductive GpioMode where
  | output
  | input
  deriving DecidableEq, Repr

inductive GpioLevel where
  | low
  | high
  deriving DecidableEq, Repr

def gpioGetCfgReg (gpio : Nat) : Nat :=
  match gpioGetPort gpio with
  | 0 => gpioCfg0
  | 1 => gpioCfg1
  | 2 => gpioCfg2
  | 3 => gpioCfg3
  | _ => 0

def gpioGetEnReg (gpio : Nat) : Nat :=
  match gpioGetPort gpio with
  | 0 => gpioEn0
  | 1 => gpioEn1
  | 2 => gpioEn2
  | 3 => gpioEn3
  | _ => 0

def pinSetPurpose (regs : Registers) (gpio : Nat) (purpose : PinPurpose) : Registers :=
  match purpose with
  | .gpio => regSetOneBit regs (gpioGetCfgReg gpio) (gpioGetPin gpio)
  | .other => regClrOneBit regs (gpioGetCfgReg gpio) (gpioGetPin gpio)

/-- `for (i = 0; i <= 4; i++)`, which finds the registers by arithmetic. -/
def clearRemaps (regs : Registers) (port pin : Nat) : Registers :=
  (List.range 5).foldl (fun regs i => regClrOneBit regs (cbusFirst0 + port * 0x04 + i * 0x10) pin)
    regs

/-- The nested switch; `none` where the function returns without setting a bit. -/
def remapReg (port : Nat) (remap : PinRemap) : Option Nat :=
  match port, remap with
  | _, .default => none
  | 0, .first => some cbusFirst0
  | 0, .second => some cbusSecond0
  | 0, .third => some cbusThird0
  | 0, .fourth => some cbusFourth0
  | 0, .fifth => some cbusFifth0
  | 1, .first => some cbusFirst1
  | 1, .second => some cbusSecond1
  | 1, .third => some cbusThird1
  | 1, .fourth => some cbusFourth1
  | 1, .fifth => some cbusFifth1
  | 2, .first => some cbusFirst2
  | 2, .second => some cbusSecond2
  | 2, .third => some cbusThird2
  | 2, .fourth => some cbusFourth2
  | 2, .fifth => some cbusFifth2
  | 3, .first => some cbusFirst3
  | 3, .second => some cbusSecond3
  | 3, .third => some cbusThird3
  | 3, .fourth => some cbusFourth3
  | 3, .fifth => some cbusFifth3
  | _, _ => none

def pinSetRemap (regs : Registers) (gpio : Nat) (remap : PinRemap) : Registers :=
  let cleared := clearRemaps regs (gpioGetPort gpio) (gpioGetPin gpio)
  match remapReg (gpioGetPort gpio) remap with
  | none => cleared
  | some reg => regSetOneBit cleared reg (gpioGetPin gpio)

def gpioInit (regs : Registers) (gpio : Nat) (mode : GpioMode) : Registers :=
  let regs := pinSetPurpose regs gpio .gpio
  match mode with
  | .output => regClrOneBit regs (gpioGetEnReg gpio) (gpioGetPin gpio)
  | .input => regSetOneBit regs (gpioGetEnReg gpio) (gpioGetPin gpio)

/-- The output register of a port, unless the function returns at once. -/
def gpioOutReg (port : Nat) : Option Nat :=
  match port with
  | 0 => some gpioOut0
  | 1 => some gpioOut1
  | 2 => some gpioOut2
  | 3 => some gpioOut3
  | _ => none

def gpioSet (regs : Registers) (gpio : Nat) (level : GpioLevel) : Registers :=
  match gpioOutReg (gpioGetPort gpio), level with
  | none, _ => regs
  | some reg, .low => regClrOneBit regs reg (gpioGetPin gpio)
  | some reg, .high => regSetOneBit regs reg (gpioGetPin gpio)

end KyokaMirror.Ls1c
