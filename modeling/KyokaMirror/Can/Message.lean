import KyokaMirror.Can.Config
import KyokaMirror.Library.Copy

set_option autoImplicit false

namespace KyokaMirror.Can

open Library.Copy (copy copy_apply)

/-- The registers of `CAN_TypeDef` that carry a frame. Indices past the end of
`ID[4]` and `BUF[8]` stand for whatever follows them. -/
structure FrameRegs where
  cmr : BitVec 8
  ideRtrDlc : BitVec 8
  id : Nat → BitVec 8
  buf : Nat → BitVec 8

/-- `CanTxMsg` and `CanRxMsg`, which have the same fields. -/
structure CanMsg where
  stdId : BitVec 32
  extId : BitVec 32
  ide : BitVec 8
  rtr : BitVec 8
  dlc : BitVec 8
  data : Nat → BitVec 8

/-- `struct rt_can_msg`, each field with its width. -/
structure RtCanMsg where
  id : BitVec 29
  ide : BitVec 1
  rtr : BitVec 1
  len : BitVec 8
  hdr : BitVec 8
  data : Nat → BitVec 8

def canIdStandard : BitVec 8 := 0
def canIdExtended : BitVec 8 := 1
def canCmrTR : BitVec 8 := 0x01

def ideRtrDlcOf (tx : CanMsg) : BitVec 8 :=
  ((tx.ide &&& 0x01) <<< 7) ||| ((tx.rtr &&& 0x01) <<< 6) ||| (tx.dlc &&& 0x0F)

/-- The registers `ID[4]` with their four values. -/
def idRegs (old : Nat → BitVec 8) (b0 b1 b2 b3 : BitVec 8) : Nat → BitVec 8
  | 0 => b0
  | 1 => b1
  | 2 => b2
  | 3 => b3
  | k => old k

def canTransmit (regs : FrameRegs) (tx : CanMsg) : FrameRegs :=
  if tx.ide = canIdExtended then
    { cmr := canCmrTR
      ideRtrDlc := ideRtrDlcOf tx
      id := idRegs regs.id ((tx.extId >>> 21).setWidth 8) ((tx.extId >>> 13).setWidth 8)
        ((tx.extId >>> 5).setWidth 8) ((tx.extId <<< 3).setWidth 8)
      buf := copy regs.buf tx.data 0 0 tx.dlc.toNat }
  else if tx.ide = canIdStandard then
    { cmr := canCmrTR
      ideRtrDlc := ideRtrDlcOf tx
      id := idRegs regs.id ((tx.stdId >>> 3).setWidth 8) ((tx.stdId <<< 5).setWidth 8)
        (tx.data 0) (tx.data 1)
      buf := copy regs.buf tx.data 0 2 (tx.dlc.toNat - 2) }
  else { regs with cmr := canCmrTR }

/-- The message that `sendmsg` builds over what its stack held. -/
def txMessage (stack : CanMsg) (msg : RtCanMsg) : CanMsg :=
  { stdId := msg.id.setWidth 32
    extId := msg.id.setWidth 32
    rtr := msg.rtr.setWidth 8
    ide := msg.ide.setWidth 8
    dlc := msg.len
    data := copy stack.data msg.data 0 0 msg.len.toNat }

def sendmsg (stack : CanMsg) (regs : FrameRegs) (msg : RtCanMsg) : FrameRegs :=
  canTransmit regs (txMessage stack msg)

/-- The eight assignments to `Data`; a standard frame has its first two bytes
in `ID[2]` and `ID[3]`. -/
def canReceive (regs : FrameRegs) (rx : CanMsg) : CanMsg :=
  let ide := (regs.ideRtrDlc &&& 0x80) >>> 7
  let rtr := (regs.ideRtrDlc &&& 0x40) >>> 4
  let dlc := regs.ideRtrDlc &&& 0x0F
  if ide = canIdStandard then
    { rx with
      ide := ide
      rtr := rtr
      dlc := dlc
      stdId := ((regs.id 0).setWidth 32 <<< 3) ||| ((regs.id 1).setWidth 32 >>> 5)
      data := fun k =>
        if k < 2 then regs.id (k + 2) else if k < 8 then regs.buf (k - 2) else rx.data k }
  else if ide = canIdExtended then
    { rx with
      ide := ide
      rtr := rtr
      dlc := dlc
      extId := ((regs.id 0).setWidth 32 <<< 21) ||| ((regs.id 1).setWidth 32 <<< 13) |||
        ((regs.id 2).setWidth 32 <<< 5) ||| ((regs.id 3).setWidth 32 >>> 3)
      data := fun k => if k < 8 then regs.buf k else rx.data k }
  else { rx with ide := ide, rtr := rtr, dlc := dlc }

/-- `recvmsg`, which fills the caller's message from `RxMessage`. -/
def recvmsg (rx : CanMsg) (msg : RtCanMsg) : RtCanMsg :=
  { ide := rx.ide.setWidth 1
    id := if rx.ide = 1 then rx.extId.setWidth 29 else rx.stdId.setWidth 29
    len := rx.dlc
    rtr := rx.rtr.setWidth 1
    hdr := 0
    data := copy msg.data rx.data 0 0 rx.dlc.toNat }

/-- The flags and the length as they are read back: the RTR bit is shifted by
four places instead of six, and the field of the message keeps the lowest bit. -/
theorem header_fields : ∀ (ide rtr : BitVec 1) (len : BitVec 8),
    let header := ((ide.setWidth 8 &&& 0x01) <<< 7) ||| ((rtr.setWidth 8 &&& 0x01) <<< 6) |||
      (len &&& 0x0F)
    (header &&& 0x80) >>> 7 = ide.setWidth 8 ∧ ((header &&& 0x40) >>> 4).setWidth 1 = 0#1 ∧
      header &&& 0x0F = len &&& 0x0F := by
  decide +kernel

theorem len_masked : ∀ len : BitVec 8, len.toNat ≤ 8 → len &&& 0x0F = len := by decide

theorem ide_cases (ide : BitVec 1) : ide = 0 ∨ ide = 1 := by
  revert ide
  decide

theorem stdId_joined {id : BitVec 29} (small : id.toNat < 2 ^ 11) :
    ((((id.setWidth 32 >>> 3).setWidth 8).setWidth 32 <<< 3 |||
      ((id.setWidth 32 <<< 5).setWidth 8).setWidth 32 >>> 5 : BitVec 32)).setWidth 29 = id := by
  apply BitVec.eq_of_getLsbD_eq
  intro j inside
  simp only [BitVec.getLsbD_setWidth, BitVec.getLsbD_or, BitVec.getLsbD_shiftLeft,
    BitVec.getLsbD_ushiftRight, inside, decide_true, Bool.true_and]
  by_cases low : j < 3
  · simp [low, inside, show 5 + j < 8 by omega, show 5 + j < 32 by omega, show j < 32 by omega]
  by_cases high : j < 11
  · have back : 3 + (j - 3) = j := by omega
    simp [low, inside, back, show j - 3 < 8 by omega, show j - 3 < 32 by omega,
      show ¬ 5 + j < 8 by omega, show j < 32 by omega]
  · have zero : id.getLsbD j = false := by
      apply Nat.testBit_lt_two_pow
      exact Nat.lt_of_lt_of_le small (Nat.pow_le_pow_right (by decide) (by omega))
    simp [zero, show ¬ j - 3 < 8 by omega, show ¬ 5 + j < 8 by omega]

theorem extId_joined (id : BitVec 29) :
    ((((id.setWidth 32 >>> 21).setWidth 8).setWidth 32 <<< 21 |||
      ((id.setWidth 32 >>> 13).setWidth 8).setWidth 32 <<< 13 |||
      ((id.setWidth 32 >>> 5).setWidth 8).setWidth 32 <<< 5 |||
      ((id.setWidth 32 <<< 3).setWidth 8).setWidth 32 >>> 3 : BitVec 32)).setWidth 29 = id := by
  apply BitVec.eq_of_getLsbD_eq
  intro j inside
  simp only [BitVec.getLsbD_setWidth, BitVec.getLsbD_or, BitVec.getLsbD_shiftLeft,
    BitVec.getLsbD_ushiftRight, inside, decide_true, Bool.true_and]
  -- One case for each of the four bytes.
  by_cases third : j < 5
  · simp [third, inside, show j < 13 by omega, show j < 21 by omega, show j < 32 by omega,
      show 3 + j < 32 by omega, show 3 + j < 8 by omega]
  by_cases second : j < 13
  · have back : 5 + (j - 5) = j := by omega
    simp [third, second, inside, back, show j < 21 by omega, show j < 32 by omega,
      show j - 5 < 8 by omega, show j - 5 < 32 by omega, show ¬ 3 + j < 8 by omega]
  by_cases first : j < 21
  · have back : 13 + (j - 13) = j := by omega
    simp [second, first, inside, back, show j < 32 by omega, show j - 13 < 8 by omega,
      show j - 13 < 32 by omega, show ¬ j - 5 < 8 by omega, show ¬ 3 + j < 8 by omega]
  · have back : 21 + (j - 21) = j := by omega
    simp [first, inside, back, show j < 32 by omega, show j - 21 < 8 by omega,
      show j - 21 < 32 by omega, show ¬ j - 13 < 8 by omega, show ¬ j - 5 < 8 by omega,
      show ¬ 3 + j < 8 by omega]

/-- The message arrives: everything but `hdr`, and the first `len` bytes. -/
structure Arrives (sent got : RtCanMsg) : Prop where
  ide : got.ide = sent.ide
  id : got.id = sent.id
  rtr : got.rtr = sent.rtr
  len : got.len = sent.len
  data : ∀ k < sent.len.toNat, got.data k = sent.data k

theorem txMessage_standard {msg : RtCanMsg} (standard : msg.ide = 0) (stack : CanMsg) :
    (txMessage stack msg).ide = canIdStandard := by
  rw [txMessage, standard]
  rfl

theorem txMessage_extended {msg : RtCanMsg} (extended : msg.ide = 1) (stack : CanMsg) :
    (txMessage stack msg).ide = canIdExtended := by
  rw [txMessage, extended]
  rfl

theorem txMessage_data {msg : RtCanMsg} {k : Nat} (inside : k < msg.len.toNat) (stack : CanMsg) :
    (txMessage stack msg).data k = msg.data k := by
  simp only [txMessage, copy_apply, Nat.zero_le, Nat.zero_add, inside, and_self, ↓reduceIte,
    Nat.sub_zero]

theorem canTransmit_standard {tx : CanMsg} (standard : tx.ide = canIdStandard) (regs : FrameRegs) :
    canTransmit regs tx =
      { cmr := canCmrTR
        ideRtrDlc := ideRtrDlcOf tx
        id := idRegs regs.id ((tx.stdId >>> 3).setWidth 8) ((tx.stdId <<< 5).setWidth 8)
          (tx.data 0) (tx.data 1)
        buf := copy regs.buf tx.data 0 2 (tx.dlc.toNat - 2) } := by
  rw [canTransmit, if_neg (by rw [standard]; decide), if_pos standard]

theorem canTransmit_extended {tx : CanMsg} (extended : tx.ide = canIdExtended) (regs : FrameRegs) :
    canTransmit regs tx =
      { cmr := canCmrTR
        ideRtrDlc := ideRtrDlcOf tx
        id := idRegs regs.id ((tx.extId >>> 21).setWidth 8) ((tx.extId >>> 13).setWidth 8)
          ((tx.extId >>> 5).setWidth 8) ((tx.extId <<< 3).setWidth 8)
        buf := copy regs.buf tx.data 0 0 tx.dlc.toNat } := by
  rw [canTransmit, if_pos extended]

theorem sendmsg_header (stack : CanMsg) (regs : FrameRegs) (msg : RtCanMsg) :
    (sendmsg stack regs msg).ideRtrDlc = ideRtrDlcOf (txMessage stack msg) := by
  rcases ide_cases msg.ide with standard | extended
  · rw [sendmsg, canTransmit_standard (txMessage_standard standard stack)]
  · rw [sendmsg, canTransmit_extended (txMessage_extended extended stack)]

section

variable {msg : RtCanMsg} (stack rx : CanMsg) (regs : FrameRegs)

theorem receive_header (short : msg.len.toNat ≤ 8) :
    let received := canReceive (sendmsg stack regs msg) rx
    received.ide = msg.ide.setWidth 8 ∧ received.rtr.setWidth 1 = 0#1 ∧
      received.dlc = msg.len := by
  obtain ⟨ide, rtr, len⟩ := header_fields msg.ide msg.rtr msg.len
  have header : ((sendmsg stack regs msg).ideRtrDlc &&& 0x80) >>> 7 = msg.ide.setWidth 8 ∧
      (((sendmsg stack regs msg).ideRtrDlc &&& 0x40) >>> 4).setWidth 1 = 0#1 ∧
      (sendmsg stack regs msg).ideRtrDlc &&& 0x0F = msg.len := by
    rw [sendmsg_header]
    exact ⟨ide, rtr, len.trans (len_masked msg.len short)⟩
  unfold canReceive
  dsimp only
  split_ifs
  · exact header
  · exact header
  · exact header

theorem receive_standard (standard : msg.ide = 0) (small : msg.id.toNat < 2 ^ 11) :
    (canReceive (sendmsg stack regs msg) rx).stdId.setWidth 29 = msg.id ∧
      (msg.len.toNat ≤ 8 → ∀ k < msg.len.toNat,
        (canReceive (sendmsg stack regs msg) rx).data k = msg.data k) := by
  have here : ((sendmsg stack regs msg).ideRtrDlc &&& 0x80) >>> 7 = canIdStandard := by
    rw [sendmsg_header, ← txMessage_standard standard stack]
    exact (header_fields msg.ide msg.rtr msg.len).1
  have sent := canTransmit_standard (txMessage_standard standard stack) regs
  simp only [canReceive, if_pos here]
  rw [sendmsg, sent]
  refine ⟨stdId_joined small, ?_⟩
  intro short k inside
  have held := txMessage_data inside stack
  by_cases first : k < 2
  · rw [if_pos first, ← held]
    have either : k = 0 ∨ k = 1 := by omega
    rcases either with rfl | rfl
    · rfl
    · rfl
  · have place : 2 + (k - 2 - 0) = k := by omega
    have bound : k - 2 < 0 + (msg.len.toNat - 2) := by omega
    rw [if_neg first, if_pos (by omega)]
    dsimp only
    rw [copy_apply, if_pos ⟨Nat.zero_le _, bound⟩, place, held]

theorem receive_extended (extended : msg.ide = 1) :
    (canReceive (sendmsg stack regs msg) rx).extId.setWidth 29 = msg.id ∧
      (msg.len.toNat ≤ 8 → ∀ k < msg.len.toNat,
        (canReceive (sendmsg stack regs msg) rx).data k = msg.data k) := by
  have here : ((sendmsg stack regs msg).ideRtrDlc &&& 0x80) >>> 7 = canIdExtended := by
    rw [sendmsg_header, ← txMessage_extended extended stack]
    exact (header_fields msg.ide msg.rtr msg.len).1
  have other : ((sendmsg stack regs msg).ideRtrDlc &&& 0x80) >>> 7 ≠ canIdStandard := by
    rw [here]
    decide
  have sent := canTransmit_extended (txMessage_extended extended stack) regs
  simp only [canReceive, if_neg other, if_pos here]
  rw [sendmsg, sent]
  refine ⟨extId_joined msg.id, ?_⟩
  intro short k inside
  have held := txMessage_data inside stack
  have bound : k < 0 + msg.len.toNat := by omega
  rw [if_pos (by omega)]
  dsimp only
  rw [copy_apply, if_pos ⟨Nat.zero_le _, bound⟩, Nat.sub_zero, Nat.zero_add, held]

end

/-- A message arrives exactly when it is no remote frame. -/
theorem message_round_trip_iff (msg : RtCanMsg) (short : msg.len.toNat ≤ 8)
    (small : msg.ide = 0 → msg.id.toNat < 2 ^ 11) (stack rx : CanMsg) (regs : FrameRegs)
    (got : RtCanMsg) :
    Arrives msg (recvmsg (canReceive (sendmsg stack regs msg) rx) got) ↔ msg.rtr = 0 := by
  obtain ⟨ide, rtr, len⟩ := receive_header stack rx regs short
  constructor
  · intro arrives
    rw [← arrives.rtr]
    exact rtr
  · intro dataFrame
    have narrow : (recvmsg (canReceive (sendmsg stack regs msg) rx) got).ide = msg.ide := by
      rw [recvmsg, ide, BitVec.setWidth_setWidth_of_le _ (by decide), BitVec.setWidth_eq]
    have parts : (recvmsg (canReceive (sendmsg stack regs msg) rx) got).id = msg.id ∧
        ∀ k < msg.len.toNat, (canReceive (sendmsg stack regs msg) rx).data k = msg.data k := by
      rcases ide_cases msg.ide with standard | extended
      · obtain ⟨id, data⟩ := receive_standard stack rx regs standard (small standard)
        rw [recvmsg, if_neg (by rw [ide, standard]; decide)]
        exact ⟨id, data short⟩
      · obtain ⟨id, data⟩ := receive_extended stack rx regs extended
        rw [recvmsg, if_pos (by rw [ide, extended]; decide)]
        exact ⟨id, data short⟩
    refine ⟨narrow, parts.1, rtr.trans dataFrame.symm, len, ?_⟩
    intro k inside
    rw [recvmsg, len]
    dsimp only
    rw [copy_apply, if_pos ⟨Nat.zero_le _, by omega⟩, Nat.sub_zero, Nat.zero_add, parts.2 k inside]

def emptyRegs : FrameRegs := ⟨0, 0, fun _ => 0, fun _ => 0⟩
def emptyMsg : CanMsg := ⟨0, 0, 0, 0, 0, fun _ => 0⟩

/-- The extended data frame `0x1ABCDEF` with the bytes 1, 2, 3. -/
def dataFrame : RtCanMsg := ⟨0x1ABCDEF, 1, 0, 3, 0, fun k => BitVec.ofNat 8 (k + 1)⟩

theorem data_frame_arrives :
    Arrives dataFrame (recvmsg (canReceive (sendmsg emptyMsg emptyRegs dataFrame) emptyMsg)
      dataFrame) :=
  (message_round_trip_iff dataFrame (by decide) (by decide) emptyMsg emptyMsg emptyRegs
    dataFrame).mpr rfl

/-- A remote frame with the identifier 1. -/
def remoteFrame : RtCanMsg := ⟨1, 0, 1, 0, 0, fun _ => 0⟩

theorem remote_frame_lost :
    ¬ Arrives remoteFrame (recvmsg (canReceive (sendmsg emptyMsg emptyRegs remoteFrame) emptyMsg)
      remoteFrame) := by
  intro arrives
  exact absurd arrives.rtr (by decide)

end KyokaMirror.Can
