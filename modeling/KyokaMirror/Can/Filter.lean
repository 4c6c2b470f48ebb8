import KyokaMirror.Can.Message
import KyokaMirror.Library.Pattern

set_option autoImplicit false

namespace KyokaMirror.Can

open Library.Pattern (Matches)

/-- `CAN_FilterInitTypeDef`. -/
structure FilterInit where
  ide : BitVec 8
  rtr : BitVec 8
  mode : BitVec 8
  firstData : BitVec 32
  dataMask : BitVec 32
  id : BitVec 32
  idMask : BitVec 32
  deriving DecidableEq, Repr

/-- The locals `CAN_FilterId0` to `CAN_FilterMaskId3`. -/
structure FilterBytes where
  id0 : BitVec 8
  id1 : BitVec 8
  id2 : BitVec 8
  id3 : BitVec 8
  mask0 : BitVec 8
  mask1 : BitVec 8
  mask2 : BitVec 8
  mask3 : BitVec 8

/-- The encoding of `CAN_FilterInit`. Where no branch is taken, the locals keep
what the stack held. -/
def filterBytes (stack : FilterBytes) (s : FilterInit) : FilterBytes :=
  let thisid := s.id
  let thismask := s.idMask
  let thisid1 := (s.id &&& 0xFFFF0000) >>> 16
  let thismask1 := (s.idMask &&& 0xFFFF0000) >>> 16
  let thisid2 := s.id &&& 0x0000FFFF
  let thismask2 := s.idMask &&& 0x0000FFFF
  let rtr := s.rtr.setWidth 32
  let firstdata := s.firstData
  let datamask := s.dataMask
  if s.ide = 0 then
    if s.mode = 0 then
      { id0 := (thisid1 >>> 3).setWidth 8
        mask0 := (thismask1 >>> 3).setWidth 8
        id1 := (thisid1 <<< 5 ||| firstdata >>> 4 ||| rtr <<< 4).setWidth 8
        mask1 := (thismask1 <<< 4 ||| datamask >>> 4).setWidth 8
        id2 := (thisid2 >>> 3).setWidth 8
        mask2 := (thismask2 >>> 3).setWidth 8
        id3 := (firstdata &&& 0x0F ||| thisid2 <<< 5 ||| rtr <<< 4).setWidth 8
        mask3 := (datamask <<< 4).setWidth 8 }
    else if s.mode = 1 then
      { id0 := (thisid >>> 3).setWidth 8
        mask0 := (thismask >>> 3).setWidth 8
        id1 := (thisid <<< 5 ||| rtr <<< 4).setWidth 8
        mask1 := (thismask <<< 5).setWidth 8 ||| 0x0F
        id2 := 0x00
        mask2 := 0xFF
        id3 := 0x00
        mask3 := 0xFF }
    else stack
  else if s.ide = 1 then
    if s.mode = 0 then
      { id0 := (thisid1 >>> 8).setWidth 8
        mask0 := (thismask1 >>> 8).setWidth 8
        id1 := thisid1.setWidth 8
        mask1 := thismask1.setWidth 8
        id2 := (thisid2 >>> 8).setWidth 8
        mask2 := (thismask2 >>> 8).setWidth 8
        id3 := thisid2.setWidth 8
        mask3 := thismask2.setWidth 8 }
    else if s.mode = 1 then
      { id0 := (thisid >>> 21).setWidth 8
        mask0 := (thismask >>> 21).setWidth 8
        id1 := (thisid >>> 13).setWidth 8
        mask1 := (thismask >>> 13).setWidth 8
        id2 := (thisid >>> 5).setWidth 8
        mask2 := (thismask >>> 5).setWidth 8
        id3 := (thisid <<< 3 ||| rtr <<< 2).setWidth 8
        mask3 := (thismask <<< 3).setWidth 8 ||| 0x03 }
    else stack
  else stack

/-- The registers of the controller, in the two groups that the functions
touch. -/
structure Controller where
  reg : CanTypeDef
  frame : FrameRegs

/-- The AFM bit. The second test repeats the first, so nothing clears the
bit. -/
def filterMode (mode mod : BitVec 8) : BitVec 8 :=
  if mode = 1 then mod ||| canModeAFM
  else if mode = 1 then mod &&& ~~~canModeAFM
  else mod

/-- The eight acceptance registers lie where a frame lies outside reset mode. -/
def writeFilter (bytes : FilterBytes) (frame : FrameRegs) : FrameRegs :=
  { frame with
    ideRtrDlc := bytes.id0
    id := idRegs frame.id bytes.id1 bytes.id2 bytes.id3 bytes.mask0
    buf := fun k =>
      if k = 0 then bytes.mask1 else if k = 1 then bytes.mask2
      else if k = 2 then bytes.mask3 else frame.buf k }

def canFilterInit (chip : Chip) (stack : FilterBytes) (s : FilterInit) (can : Controller) :
    Controller :=
  let entered := (setResetMode chip can.reg).1
  let selected := { entered with mod := filterMode s.mode entered.mod }
  { reg := (setStart chip selected).1
    frame := writeFilter (filterBytes stack s) can.frame }

/-- A frame on the bus as the filters see it: the identifier, RTR, and the bits
of the header bytes that carry nothing; a standard frame also with its first
two data bytes. -/
inductive BusFrame where
  | standard (id : BitVec 11) (rtr : BitVec 1) (unused : BitVec 4) (data0 data1 : BitVec 8)
  | extended (id : BitVec 29) (rtr : BitVec 1) (unused : BitVec 2)
  deriving DecidableEq, Repr

def BusFrame.ide : BusFrame → BitVec 8
  | .standard .. => canIdStandard
  | .extended .. => canIdExtended

def CanTypeDef.afm (can : CanTypeDef) : Bool := can.mod.getLsbD 3

/-- The acceptance code and mask, `ACR0` to `AMR3`. -/
def acceptance (frame : FrameRegs) : FilterBytes where
  id0 := frame.ideRtrDlc
  id1 := frame.id 0
  id2 := frame.id 1
  id3 := frame.id 2
  mask0 := frame.id 3
  mask1 := frame.buf 0
  mask2 := frame.buf 1
  mask3 := frame.buf 2

/-- One filter over the whole header. -/
def passesSingle (f : FilterBytes) : BusFrame → Prop
  | .standard id rtr unused data0 data1 =>
      Matches (f.id0 ++ f.id1.extractLsb' 5 3) (f.mask0 ++ f.mask1.extractLsb' 5 3) id ∧
        Matches (f.id1.extractLsb' 4 1) (f.mask1.extractLsb' 4 1) rtr ∧
        Matches (f.id1.extractLsb' 0 4) (f.mask1.extractLsb' 0 4) unused ∧
        Matches f.id2 f.mask2 data0 ∧ Matches f.id3 f.mask3 data1
  | .extended id rtr unused =>
      Matches (f.id0 ++ f.id1 ++ f.id2 ++ f.id3.extractLsb' 3 5)
          (f.mask0 ++ f.mask1 ++ f.mask2 ++ f.mask3.extractLsb' 3 5) id ∧
        Matches (f.id3.extractLsb' 2 1) (f.mask3.extractLsb' 2 1) rtr ∧
        Matches (f.id3.extractLsb' 0 2) (f.mask3.extractLsb' 0 2) unused

/-- The first of two filters; its data byte is split over two code bytes. -/
def passesFirst (f : FilterBytes) : BusFrame → Prop
  | .standard id rtr _ data0 _ =>
      Matches (f.id0 ++ f.id1.extractLsb' 5 3) (f.mask0 ++ f.mask1.extractLsb' 5 3) id ∧
        Matches (f.id1.extractLsb' 4 1) (f.mask1.extractLsb' 4 1) rtr ∧
        Matches (f.id1.extractLsb' 0 4 ++ f.id3.extractLsb' 0 4)
          (f.mask1.extractLsb' 0 4 ++ f.mask3.extractLsb' 0 4) data0
  | .extended id _ _ => Matches (f.id0 ++ f.id1) (f.mask0 ++ f.mask1) (id.extractLsb' 13 16)

def passesSecond (f : FilterBytes) : BusFrame → Prop
  | .standard id rtr _ _ _ =>
      Matches (f.id2 ++ f.id3.extractLsb' 5 3) (f.mask2 ++ f.mask3.extractLsb' 5 3) id ∧
        Matches (f.id3.extractLsb' 4 1) (f.mask3.extractLsb' 4 1) rtr
  | .extended id _ _ => Matches (f.id2 ++ f.id3) (f.mask2 ++ f.mask3) (id.extractLsb' 13 16)

/-- AFM selects one filter, without it there are two. -/
def Accepts (can : Controller) (frame : BusFrame) : Prop :=
  if can.reg.afm then passesSingle (acceptance can.frame) frame
  else passesFirst (acceptance can.frame) frame ∨ passesSecond (acceptance can.frame) frame

@[simp] theorem acceptance_writeFilter (bytes : FilterBytes) (frame : FrameRegs) :
    acceptance (writeFilter bytes frame) = bytes := rfl

end KyokaMirror.Can
