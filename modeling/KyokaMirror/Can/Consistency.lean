import KyokaMirror.Can.Config

set_option autoImplicit false

namespace KyokaMirror.Can

def CanTypeDef.rm (can : CanTypeDef) : Bool := can.mod.getLsbD 0
def CanTypeDef.lom (can : CanTypeDef) : Bool := can.mod.getLsbD 1
def CanTypeDef.stm (can : CanTypeDef) : Bool := can.mod.getLsbD 2

/-- The row of the table in `CAN_SetBps` for a rate. -/
def baudRow (baud : Nat) : Option Bps :=
  if baud = can1MBaud then some .can1M
  else if baud = can800kBaud then some .can800k
  else if baud = can500kBaud then some .can500k
  else if baud = can250kBaud then some .can250k
  else if baud = can125kBaud then some .can125k
  else if baud = can100kBaud then some .can100k
  else if baud = can50kBaud then some .can50k
  else none

/-- The bits LOM and STM of a mode. -/
def modeBits : Nat → Option (Bool × Bool)
  | 0 => some (false, false)
  | 1 => some (true, false)
  | 2 => some (false, true)
  | 3 => some (true, true)
  | _ => none

/-- The two timing registers for a rate. -/
def baudBits (baud : Nat) : Option (BitVec 8 × BitVec 8) :=
  (baudRow baud).map fun bps => ((setBpsTiming bps).btr0, (setBpsTiming bps).btr1)

def EncodesBaud (can : CanDevice) : Prop :=
  baudBits can.baudRate = some (can.reg.btr0, can.reg.btr1)

def EncodesMode (can : CanDevice) : Prop := modeBits can.mode = some (can.reg.lom, can.reg.stm)

/-- The registers encode the configuration. -/
def Consistent (can : CanDevice) : Prop := EncodesBaud can ∧ EncodesMode can

structure Unchanged (before after : CanDevice) : Prop where
  baudRate : after.baudRate = before.baudRate
  mode : after.mode = before.mode
  btr0 : after.reg.btr0 = before.reg.btr0
  btr1 : after.reg.btr1 = before.reg.btr1
  lom : after.reg.lom = before.reg.lom
  stm : after.reg.stm = before.reg.stm

inductive CanCall where
  | configure
  | setBaud (argval : Nat)
  | setMode (argval : Nat)
  deriving DecidableEq, Repr

def CanCall.apply (chip : Chip) : CanCall → CanDevice → CanDevice × Nat
  | .configure, can => Can.configure chip can
  | .setBaud argval, can => controlSetBaud chip argval can
  | .setMode argval, can => controlSetMode chip argval can

/-- The chip is in reset mode, or takes the reset bit before the last attempt. -/
def Enters (chip : Chip) (can : CanTypeDef) : Prop :=
  can.rm = true ∨ ∃ n, 1 ≤ n ∧ n < 100 ∧ chip.entersReset n = true

/-- The call can be applied: its argument is valid, and reset mode is entered
where it is needed. -/
def Applicable (chip : Chip) : CanCall → CanDevice → Prop
  | .configure, can => can.reg.mod ≠ 0xFF ∧ Enters chip can.reg
  | .setBaud argval, can =>
      baudRow argval ≠ none ∧ (argval = can.baudRate ∨ Enters chip can.reg)
  | .setMode argval, can =>
      modeBits argval ≠ none ∧ (argval = can.mode ∨ Enters chip can.reg)

structure Sound (chip : Chip) (call : CanCall) (can : CanDevice) : Prop where
  applied : (call.apply chip can).2 = rtEok → Consistent (call.apply chip can).1
  refused : ¬ Applicable chip call can →
    (call.apply chip can).2 ≠ rtEok ∧ Unchanged can (call.apply chip can).1

def fastRates : List Nat := [can1MBaud, can800kBaud, can500kBaud, can250kBaud, can125kBaud]

/-- What a call needs of the chip and of the device before it. -/
def Fine (chip : Chip) : CanCall → CanDevice → Prop
  | .configure, can =>
      can.reg.mod ≠ 0xFF ∧ Enters chip can.reg ∧ can.baudRate ∈ fastRates ∧ can.mode ≤ 3
  | .setBaud argval, can =>
      baudRow argval = none ∨ (argval = can.baudRate ∧ Consistent can) ∨
        (argval ≠ can.baudRate ∧ argval ∈ fastRates ∧ Enters chip can.reg ∧ EncodesMode can)
  | .setMode _, _ => True

theorem masked_rm_iff : ∀ mod : BitVec 8,
    mod &&& canModeRM = canModeRM ↔ mod.getLsbD 0 = true := by decide

theorem masked_lom_iff : ∀ mod : BitVec 8,
    mod &&& canModeLOM = canModeLOM ↔ mod.getLsbD 1 = true := by decide

theorem masked_stm_iff : ∀ mod : BitVec 8,
    mod &&& canModeSTM = canModeSTM ↔ mod.getLsbD 2 = true := by decide

theorem getLsbD_or_other {mod bit : BitVec 8} {j : Nat} (other : bit.getLsbD j = false) :
    (mod ||| bit).getLsbD j = mod.getLsbD j := by
  rw [BitVec.getLsbD_or, other, Bool.or_false]

theorem getLsbD_and_not_other {mod bit : BitVec 8} {j : Nat} (inside : j < 8)
    (other : bit.getLsbD j = false) : (mod &&& ~~~bit).getLsbD j = mod.getLsbD j := by
  rw [BitVec.getLsbD_and, BitVec.getLsbD_not, other, Bool.not_false, Bool.and_true,
    decide_eq_true inside, Bool.and_true]

theorem modeBit_other {canMode bit mod : BitVec 8} {j : Nat} (inside : j < 8)
    (other : bit.getLsbD j = false) : (modeBit canMode bit mod).getLsbD j = mod.getLsbD j := by
  unfold modeBit
  split
  · exact getLsbD_or_other other
  · exact getLsbD_and_not_other inside other

theorem modeBit_own {canMode bit mod : BitVec 8} {j : Nat} (own : bit.getLsbD j = true)
    (masked : canMode &&& bit = bit ↔ canMode.getLsbD j = true) :
    (modeBit canMode bit mod).getLsbD j = canMode.getLsbD j := by
  unfold modeBit
  split
  · rename_i set
    rw [BitVec.getLsbD_or, own, Bool.or_true, masked.mp set]
  · rename_i clear
    rw [BitVec.getLsbD_and, BitVec.getLsbD_not, own, Bool.not_true, Bool.and_false, Bool.and_false]
    exact (Bool.eq_false_iff.mpr fun set => clear (masked.mpr set)).symm

/-- A loop over the reset bit leaves the other bits alone. -/
theorem setResetLoop_other (chip : Chip) {j : Nat} (other : canModeRM.getLsbD j = false) :
    ∀ n mod, (setResetLoop chip n mod).1.getLsbD j = mod.getLsbD j := by
  intro n
  induction n with
  | zero => exact fun mod => rfl
  | succ n ih =>
      intro mod
      rw [setResetLoop]
      split
      · rfl
      · rw [ih]
        split
        · exact getLsbD_or_other other
        · rfl

theorem setNormalLoop_other (chip : Chip) {j : Nat} (inside : j < 8)
    (other : canModeRM.getLsbD j = false) :
    ∀ n mod, (setNormalLoop chip n mod).1.getLsbD j = mod.getLsbD j := by
  intro n
  induction n with
  | zero => exact fun mod => rfl
  | succ n ih =>
      intro mod
      rw [setNormalLoop]
      split
      · rfl
      · rw [ih]
        split
        · exact getLsbD_and_not_other inside other
        · rfl

theorem setResetLoop_status (chip : Chip) :
    ∀ n mod, (setResetLoop chip n mod).2 ≠ canInitStatusFailed ↔
      0 < n ∧ (mod.getLsbD 0 = true ∨ ∃ m, 1 ≤ m ∧ m < n ∧ chip.entersReset m = true) := by
  intro n
  induction n with
  | zero => exact fun mod => ⟨fun fails => absurd rfl fails, fun none => absurd none.1 (by decide)⟩
  | succ n ih =>
      intro mod
      rw [setResetLoop]
      by_cases set : mod &&& canModeRM = canModeRM
      · rw [if_pos set]
        exact ⟨fun _ => ⟨Nat.succ_pos n, .inl ((masked_rm_iff mod).mp set)⟩, fun _ => Nat.one_ne_zero⟩
      · have clear : mod.getLsbD 0 ≠ true := fun rm => set ((masked_rm_iff mod).mpr rm)
        rw [if_neg set, ih]
        constructor
        · rintro ⟨positive, taken | ⟨m, lower, upper, later⟩⟩
          · refine ⟨Nat.succ_pos n, .inr ⟨n, positive, Nat.lt_succ_self n, ?_⟩⟩
            by_contra refuses
            rw [if_neg refuses] at taken
            exact clear taken
          · exact ⟨Nat.succ_pos n, .inr ⟨m, lower, by omega, later⟩⟩
        · rintro ⟨-, rm | ⟨m, lower, upper, takes⟩⟩
          · exact absurd rm clear
          · refine ⟨by omega, ?_⟩
            by_cases now : m = n
            · rw [← now, if_pos takes, BitVec.getLsbD_or]
              exact .inl (Bool.or_true _)
            · exact .inr ⟨m, lower, by omega, takes⟩

theorem setResetMode_status (chip : Chip) (can : CanTypeDef) :
    (setResetMode chip can).2 ≠ canInitStatusFailed ↔ Enters chip can := by
  rw [setResetMode, setResetLoop_status]
  exact and_iff_right (by decide)

/-- The timing and the two mode bits. -/
def CanTypeDef.settings (can : CanTypeDef) : BitVec 8 × BitVec 8 × Bool × Bool :=
  (can.btr0, can.btr1, can.lom, can.stm)

theorem setResetMode_settings (chip : Chip) (can : CanTypeDef) :
    (setResetMode chip can).1.settings = can.settings := by
  simp only [CanTypeDef.settings, setResetMode, CanTypeDef.lom, CanTypeDef.stm,
    setResetLoop_other chip (show canModeRM.getLsbD 1 = false by decide),
    setResetLoop_other chip (show canModeRM.getLsbD 2 = false by decide)]

theorem setStart_settings (chip : Chip) (can : CanTypeDef) :
    (setStart chip can).1.settings = can.settings := by
  simp only [CanTypeDef.settings, setStart, setNormalMode, CanTypeDef.lom, CanTypeDef.stm,
    setNormalLoop_other chip (by decide) (show canModeRM.getLsbD 1 = false by decide),
    setNormalLoop_other chip (by decide) (show canModeRM.getLsbD 2 = false by decide)]

theorem canSetBps_code (chip : Chip) (can : CanTypeDef) (bps : Bps) :
    (canSetBps chip can bps).2 = rtEok := by
  unfold canSetBps
  dsimp only
  split <;> rfl

theorem canSetBps_settings {chip : Chip} {can : CanTypeDef} (enters : Enters chip can)
    (bps : Bps) : (canSetBps chip can bps).1.settings =
      ((setBpsTiming bps).btr0, (setBpsTiming bps).btr1, can.lom, can.stm) := by
  have kept := setResetMode_settings chip can
  simp only [CanTypeDef.settings, Prod.mk.injEq] at kept
  unfold canSetBps
  dsimp only
  rw [if_neg ((setResetMode_status chip can).mpr enters), setStart_settings, ← kept.2.2.1,
    ← kept.2.2.2]
  rfl

theorem canInit_settings {chip : Chip} {can : CanTypeDef} (probed : can.mod ≠ 0xFF)
    (canMode : BitVec 8) (timing : Timing) : (canInit chip can canMode timing).1.settings =
      (timing.btr0, timing.btr1, canMode.getLsbD 1, canMode.getLsbD 2) := by
  rw [canInit, if_neg probed]
  dsimp only
  rw [setStart_settings]
  simp only [CanTypeDef.settings, CanTypeDef.lom, CanTypeDef.stm, Prod.mk.injEq, true_and]
  refine ⟨?_, ?_⟩
  · rw [modeBit_other (by decide) (by decide), modeBit_other (by decide) (by decide),
      modeBit_own (by decide) (masked_lom_iff canMode)]
  · exact modeBit_own (by decide) (masked_stm_iff canMode)

def validRates : List Nat := fastRates ++ [can100kBaud, can50kBaud]

theorem baudRow_none_iff (baud : Nat) : baudRow baud = none ↔ baud ∉ validRates := by
  unfold baudRow
  split_ifs <;> simp_all [validRates, fastRates]

theorem validRates_check (argval : Nat) :
    (argval ≠ can1MBaud ∧ argval ≠ can800kBaud ∧ argval ≠ can500kBaud ∧ argval ≠ can250kBaud ∧
      argval ≠ can125kBaud ∧ argval ≠ can100kBaud ∧ argval ≠ can50kBaud) ↔
      baudRow argval = none := by
  rw [baudRow_none_iff]
  simp [validRates, fastRates]

theorem baudBits_iff {table : Bps → Timing}
    (valid : ∀ baud ∈ validRates, (baudBits baud = some ((table (bpsOfBaud baud)).btr0,
      (table (bpsOfBaud baud)).btr1) ↔ baud ∈ fastRates)) (baud : Nat) :
    baudBits baud = some ((table (bpsOfBaud baud)).btr0, (table (bpsOfBaud baud)).btr1) ↔
      baud ∈ fastRates := by
  by_cases known : baud ∈ validRates
  · exact valid baud known
  · rw [baudBits, (baudRow_none_iff baud).mpr known]
    constructor
    · intro impossible
      cases impossible
    · intro fast
      exact absurd (List.mem_append_left _ fast) known

/-- Both tables serve only the five fast rates: 100k and 50k get rows of other
rates. -/
theorem baudBits_bxcanInit_iff (baud : Nat) :
    baudBits baud = some ((bxcanInitTiming (bpsOfBaud baud)).btr0,
      (bxcanInitTiming (bpsOfBaud baud)).btr1) ↔ baud ∈ fastRates :=
  baudBits_iff (by decide) baud

theorem baudBits_setBps_iff (baud : Nat) :
    baudBits baud = some ((setBpsTiming (bpsOfBaud baud)).btr0,
      (setBpsTiming (bpsOfBaud baud)).btr1) ↔ baud ∈ fastRates :=
  baudBits_iff (by decide) baud

theorem modeBits_canMode_iff (chip : Chip) (mode : Nat) :
    modeBits mode = some ((canModeOfMode chip mode).getLsbD 1,
      (canModeOfMode chip mode).getLsbD 2) ↔ mode ≤ 3 := by
  have cases : mode = 0 ∨ mode = 1 ∨ mode = 2 ∨ mode = 3 ∨ ∃ n, mode = n + 4 := by
    by_cases large : 4 ≤ mode
    · exact .inr (.inr (.inr (.inr ⟨mode - 4, by omega⟩)))
    · omega
  rcases cases with rfl | rfl | rfl | rfl | ⟨n, rfl⟩
  · show modeBits 0 = some ((0 : BitVec 8).getLsbD 1, (0 : BitVec 8).getLsbD 2) ↔ 0 ≤ 3
    decide
  · show modeBits 1 = some (canModeLOM.getLsbD 1, canModeLOM.getLsbD 2) ↔ 1 ≤ 3
    decide
  · show modeBits 2 = some (canModeSTM.getLsbD 1, canModeSTM.getLsbD 2) ↔ 2 ≤ 3
    decide
  · show modeBits 3 = some ((canModeSTM ||| canModeLOM).getLsbD 1,
      (canModeSTM ||| canModeLOM).getLsbD 2) ↔ 3 ≤ 3
    decide
  · apply iff_of_false
    · intro impossible
      cases impossible
    · omega

/-- `configure` reports success whatever happens. -/
theorem configure_sound_iff (chip : Chip) (can : CanDevice) :
    Sound chip .configure can ↔ Fine chip .configure can := by
  have code : (CanCall.configure.apply chip can).2 = rtEok := rfl
  have consistent : can.reg.mod ≠ 0xFF → (Consistent (CanCall.configure.apply chip can).1 ↔
      can.baudRate ∈ fastRates ∧ can.mode ≤ 3) := by
    intro probed
    have settings : (CanCall.configure.apply chip can).1.reg.settings = _ :=
      canInit_settings probed (canModeOfMode chip can.mode)
        (bxcanInitTiming (bpsOfBaud can.baudRate))
    simp only [CanTypeDef.settings, Prod.mk.injEq] at settings
    obtain ⟨btr0, btr1, lom, stm⟩ := settings
    rw [Consistent, EncodesBaud, EncodesMode, btr0, btr1, lom, stm]
    exact and_congr (baudBits_bxcanInit_iff can.baudRate) (modeBits_canMode_iff chip can.mode)
  constructor
  · rintro ⟨applied, refused⟩
    have applicable : Applicable chip .configure can := by
      by_contra never
      exact (refused never).1 code
    exact ⟨applicable.1, applicable.2, (consistent applicable.1).mp (applied code)⟩
  · rintro ⟨probed, enters, fast, mode⟩
    exact ⟨fun _ => (consistent probed).mpr ⟨fast, mode⟩,
      fun never => absurd ⟨probed, enters⟩ never⟩

section

variable (chip : Chip) {argval : Nat} {can : CanDevice}

theorem setBaud_unknown (unknown : baudRow argval = none) :
    (CanCall.setBaud argval).apply chip can = (can, rtError) :=
  if_pos ((validRates_check argval).mpr unknown)

theorem setBaud_same (known : baudRow argval ≠ none) (same : argval = can.baudRate) :
    (CanCall.setBaud argval).apply chip can = (can, rtEok) := by
  simp only [CanCall.apply, controlSetBaud]
  rw [if_neg fun check => known ((validRates_check argval).mp check),
    if_neg (not_not.mpr same)]

/-- A new rate is stored and reported as set whether or not reset mode is
entered. -/
theorem setBaud_other (known : baudRow argval ≠ none) (other : argval ≠ can.baudRate) :
    (CanCall.setBaud argval).apply chip can =
      ({ can with baudRate := argval, reg := (canSetBps chip can.reg (bpsOfBaud argval)).1 },
        rtEok) := by
  simp only [CanCall.apply, controlSetBaud]
  rw [if_neg fun check => known ((validRates_check argval).mp check), if_pos other,
    canSetBps_code]

/-- The check refuses every mode. -/
theorem setMode_refused : (CanCall.setMode argval).apply chip can = (can, rtError) :=
  if_pos (by omega)

variable {chip}

/-- A call that is refused at once is sound. -/
theorem sound_of_refused {call : CanCall} (refused : call.apply chip can = (can, rtError)) :
    Sound chip call can := by
  refine ⟨?_, ?_⟩
  · rw [refused]
    intro impossible
    cases impossible
  · rw [refused]
    exact fun _ => ⟨Nat.one_ne_zero, ⟨rfl, rfl, rfl, rfl, rfl, rfl⟩⟩

theorem setBaud_consistent_iff (known : baudRow argval ≠ none) (other : argval ≠ can.baudRate)
    (enters : Enters chip can.reg) :
    Consistent ((CanCall.setBaud argval).apply chip can).1 ↔
      argval ∈ fastRates ∧ EncodesMode can := by
  have settings := canSetBps_settings enters (bpsOfBaud argval)
  simp only [CanTypeDef.settings, Prod.mk.injEq] at settings
  obtain ⟨btr0, btr1, lom, stm⟩ := settings
  rw [setBaud_other chip known other, Consistent, EncodesBaud, EncodesMode]
  dsimp only
  rw [btr0, btr1, lom, stm]
  exact and_congr_left fun _ => baudBits_setBps_iff argval

end

theorem setBaud_sound_iff (chip : Chip) (argval : Nat) (can : CanDevice) :
    Sound chip (.setBaud argval) can ↔ Fine chip (.setBaud argval) can := by
  by_cases unknown : baudRow argval = none
  · exact iff_of_true (sound_of_refused (setBaud_unknown chip unknown)) (.inl unknown)
  by_cases same : argval = can.baudRate
  · have result := setBaud_same chip unknown same
    constructor
    · rintro ⟨applied, -⟩
      rw [result] at applied
      exact .inr (.inl ⟨same, applied rfl⟩)
    · rintro (never | ⟨-, consistent⟩ | ⟨other, -⟩)
      · exact absurd never unknown
      · refine ⟨?_, fun refused => absurd ⟨unknown, .inl same⟩ refused⟩
        rw [result]
        exact fun _ => consistent
      · exact absurd same other
  · have code : ((CanCall.setBaud argval).apply chip can).2 = rtEok := by
      rw [setBaud_other chip unknown same]
    constructor
    · rintro ⟨applied, refused⟩
      have applicable : Applicable chip (.setBaud argval) can := by
        by_contra never
        exact (refused never).1 code
      have enters := applicable.2.resolve_left same
      have both := (setBaud_consistent_iff unknown same enters).mp (applied code)
      exact .inr (.inr ⟨same, both.1, enters, both.2⟩)
    · rintro (never | ⟨equal, -⟩ | ⟨-, fast, enters, mode⟩)
      · exact absurd never unknown
      · exact absurd equal same
      · exact ⟨fun _ => (setBaud_consistent_iff unknown same enters).mpr ⟨fast, mode⟩,
          fun never => absurd ⟨unknown, .inr enters⟩ never⟩

theorem sound_iff_fine (chip : Chip) (call : CanCall) (can : CanDevice) :
    Sound chip call can ↔ Fine chip call can := by
  cases call with
  | configure => exact configure_sound_iff chip can
  | setBaud argval => exact setBaud_sound_iff chip argval can
  | setMode argval => exact iff_of_true (sound_of_refused (setMode_refused chip)) trivial

/-- Every call of the run is sound. -/
def SoundRun : List (Chip × CanCall) → CanDevice → Prop
  | [], _ => True
  | (chip, call) :: rest, can => Sound chip call can ∧ SoundRun rest (call.apply chip can).1

def FineRun : List (Chip × CanCall) → CanDevice → Prop
  | [], _ => True
  | (chip, call) :: rest, can => Fine chip call can ∧ FineRun rest (call.apply chip can).1

theorem soundRun_iff (calls : List (Chip × CanCall)) (can : CanDevice) :
    SoundRun calls can ↔ FineRun calls can := by
  induction calls generalizing can with
  | nil => exact Iff.rfl
  | cons first rest ih =>
      obtain ⟨chip, call⟩ := first
      exact and_congr (sound_iff_fine chip call can) (ih _)

/-- From the registration on, configuration and registers agree as claimed by
the return codes exactly when every call meets its condition. -/
theorem can_configuration_iff (port : Bxcan) (reg : CanTypeDef) (pins : Ls1c.Registers)
    (calls : List (Chip × CanCall)) :
    SoundRun calls (registered port reg pins) ↔ FineRun calls (registered port reg pins) :=
  soundRun_iff calls (registered port reg pins)

/-- A chip that obeys at once. -/
def obedient : Chip := ⟨fun _ => true, fun _ => true, 0⟩

/-- 100k is accepted and leaves the timing of 250k. -/
theorem rate_100k_unsound :
    ¬ SoundRun [(obedient, .configure), (obedient, .setBaud can100kBaud)]
      (registered .can0 ⟨0, 0, 0, 0, 0, 0, 0⟩ fun _ => 0) := by
  rintro ⟨-, second, -⟩
  have timing := (second.applied (by decide)).1
  exact absurd timing (by unfold EncodesBaud; decide)

end KyokaMirror.Can
