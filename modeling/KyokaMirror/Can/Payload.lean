import KyokaMirror.Can.Message

set_option autoImplicit false

namespace KyokaMirror.Can

/-- An access to one of the arrays of eight bytes: `Data` of a `CanTxMsg` or
`CanRxMsg`, `data` of an `rt_can_msg`, and the registers `BUF`. -/
inductive PayloadAccess where
  | data (index : Nat)
  | msgData (index : Nat)
  | buf (index : Nat)
  deriving DecidableEq, Repr

def PayloadAccess.index : PayloadAccess → Nat
  | .data index => index
  | .msgData index => index
  | .buf index => index

def PayloadAccess.inBounds (access : PayloadAccess) : Prop := access.index < 8

instance (access : PayloadAccess) : Decidable access.inBounds :=
  inferInstanceAs (Decidable (_ < _))

def canTransmitAccesses (tx : CanMsg) : List PayloadAccess :=
  if tx.ide = canIdExtended then
    (List.range tx.dlc.toNat).flatMap fun i => [.data i, .buf i]
  else if tx.ide = canIdStandard then
    [.data 0, .data 1] ++
      (List.range (tx.dlc.toNat - 2)).flatMap fun i => [.data (i + 2), .buf i]
  else []

/-- The copy loop of `sendmsg`, then `CAN_Transmit`. -/
def sendmsgAccesses (stack : CanMsg) (msg : RtCanMsg) : List PayloadAccess :=
  ((List.range msg.len.toNat).flatMap fun i => [.msgData i, .data i]) ++
    canTransmitAccesses (txMessage stack msg)

def canReceiveAccesses (regs : FrameRegs) : List PayloadAccess :=
  let ide := (regs.ideRtrDlc &&& 0x80) >>> 7
  if ide = canIdStandard then
    [.data 0, .data 1] ++ (List.range 6).flatMap fun i => [.buf i, .data (i + 2)]
  else if ide = canIdExtended then
    (List.range 8).flatMap fun i => [.buf i, .data i]
  else []

def recvmsgAccesses (rx : CanMsg) : List PayloadAccess :=
  (List.range rx.dlc.toNat).flatMap fun i => [.data i, .msgData i]

/-- A loop over the two arrays stays in them exactly when its bound does. -/
theorem loop_inBounds_iff (count shift : Nat) (first second : Nat → PayloadAccess)
    (place : ∀ i, (first i).index = i + shift) (other : ∀ i, (second i).index ≤ i + shift) :
    (∀ access ∈ (List.range count).flatMap fun i => [first i, second i], access.inBounds) ↔
      count = 0 ∨ count + shift ≤ 8 := by
  constructor
  · intro all
    by_cases empty : count = 0
    · exact .inl empty
    · right
      have last := all (first (count - 1)) (List.mem_flatMap.mpr
        ⟨count - 1, List.mem_range.mpr (by omega), List.mem_cons_self⟩)
      rw [PayloadAccess.inBounds, place] at last
      omega
  · intro bound access member
    obtain ⟨i, inside, pair⟩ := List.mem_flatMap.mp member
    have below := List.mem_range.mp inside
    rw [PayloadAccess.inBounds]
    rcases List.mem_pair.mp pair with rfl | rfl
    · rw [place]
      omega
    · have near := other i
      omega

theorem canTransmit_inBounds {tx : CanMsg} (short : tx.dlc.toNat ≤ 8) :
    ∀ access ∈ canTransmitAccesses tx, access.inBounds := by
  unfold canTransmitAccesses
  split_ifs
  · exact (loop_inBounds_iff _ 0 .data .buf (fun _ => rfl) (fun i => Nat.le_refl i)).mpr
      (.inr short)
  · rw [List.forall_mem_append]
    refine ⟨by decide, ?_⟩
    apply (loop_inBounds_iff _ 2 (fun i => .data (i + 2)) .buf (fun _ => rfl)
      (fun i => Nat.le_add_right i 2)).mpr
    omega
  · exact fun access member => absurd member List.not_mem_nil

theorem canReceive_inBounds (regs : FrameRegs) :
    ∀ access ∈ canReceiveAccesses regs, access.inBounds := by
  unfold canReceiveAccesses
  dsimp only
  split_ifs
  · decide
  · decide
  · decide

theorem canReceive_dlc (regs : FrameRegs) (rx : CanMsg) :
    (canReceive regs rx).dlc = regs.ideRtrDlc &&& 0x0F := by
  unfold canReceive
  dsimp only
  split_ifs <;> rfl

/-- Both directions stay in their arrays exactly when the length is at most
eight. -/
theorem payload_inBounds_iff (regs : FrameRegs) (rx stack : CanMsg) (msg : RtCanMsg) :
    ((∀ access ∈ canReceiveAccesses regs ++ recvmsgAccesses (canReceive regs rx),
      access.inBounds) ↔ (regs.ideRtrDlc &&& 0x0F).toNat ≤ 8) ∧
    ((∀ access ∈ sendmsgAccesses stack msg, access.inBounds) ↔ msg.len.toNat ≤ 8) := by
  constructor
  · rw [List.forall_mem_append, recvmsgAccesses, canReceive_dlc,
      loop_inBounds_iff _ 0 .data .msgData (fun _ => rfl) (fun i => Nat.le_refl i)]
    have fixed := canReceive_inBounds regs
    constructor
    · rintro ⟨-, empty | fits⟩
      · omega
      · exact fits
    · exact fun fits => ⟨fixed, .inr fits⟩
  · rw [sendmsgAccesses, List.forall_mem_append,
      loop_inBounds_iff _ 0 .msgData .data (fun _ => rfl) (fun i => Nat.le_refl i)]
    constructor
    · rintro ⟨empty | fits, -⟩
      · omega
      · exact fits
    · exact fun fits => ⟨.inr fits, canTransmit_inBounds fits⟩

/-- A frame with the length code 15 runs over the message's data. -/
theorem long_code_out_of_bounds :
    ¬ ∀ access ∈ canReceiveAccesses { emptyRegs with ideRtrDlc := 0x0F } ++
        recvmsgAccesses (canReceive { emptyRegs with ideRtrDlc := 0x0F } emptyMsg),
      access.inBounds := by
  decide

end KyokaMirror.Can
