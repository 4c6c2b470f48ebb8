import KyokaMirror.Library.LastWriter
import KyokaMirror.Ls1c.Pin

set_option autoImplicit false

namespace KyokaMirror.Ls1c

open Library.LastWriter

/-- What a register of the multiplexer says about the pins of its port. -/
inductive Kind where
  | cfg | en | out | first | second | third | fourth | fifth
  deriving DecidableEq, Repr

def Kind.base : Kind → Nat
  | .cfg => gpioCfg0
  | .en => gpioEn0
  | .out => gpioOut0
  | .first => cbusFirst0
  | .second => cbusSecond0
  | .third => cbusThird0
  | .fourth => cbusFourth0
  | .fifth => cbusFifth0

/-- The registers of one kind follow each other by port. -/
def reg (kind : Kind) (port : Nat) : Nat := kind.base + 4 * port

def remapKinds : List Kind := [.first, .second, .third, .fourth, .fifth]

def PinRemap.kind : PinRemap → Option Kind
  | .first => some .first
  | .second => some .second
  | .third => some .third
  | .fourth => some .fourth
  | .fifth => some .fifth
  | .default => none

theorem reg_inj {kind other : Kind} {port there : Nat} (inside : port < 4) (within : there < 4)
    (same : reg kind port = reg other there) : kind = other ∧ port = there := by
  have apart : ∀ kind other : Kind, kind ≠ other →
      kind.base + 16 ≤ other.base ∨ other.base + 16 ≤ kind.base := by
    intro kind other
    cases kind <;> cases other <;> decide
  unfold reg at same
  by_cases equal : kind = other
  · rw [equal] at same
    exact ⟨equal, by omega⟩
  · have := apart kind other equal
    omega

theorem port_lt (gpio : Fin 128) : gpioGetPort gpio < 4 := by
  unfold gpioGetPort
  omega

theorem pin_lt (gpio : Nat) : gpioGetPin gpio < 32 := Nat.mod_lt _ (by decide)

theorem port_cases (gpio : Fin 128) : gpioGetPort gpio = 0 ∨ gpioGetPort gpio = 1 ∨
    gpioGetPort gpio = 2 ∨ gpioGetPort gpio = 3 := by
  have inside := port_lt gpio
  omega

theorem gpioGetCfgReg_eq (gpio : Fin 128) :
    gpioGetCfgReg gpio = reg .cfg (gpioGetPort gpio) := by
  unfold gpioGetCfgReg
  rcases port_cases gpio with port | port | port | port <;> rw [port] <;> rfl

theorem gpioGetEnReg_eq (gpio : Fin 128) : gpioGetEnReg gpio = reg .en (gpioGetPort gpio) := by
  unfold gpioGetEnReg
  rcases port_cases gpio with port | port | port | port <;> rw [port] <;> rfl

theorem gpioOutReg_eq (gpio : Fin 128) :
    gpioOutReg (gpioGetPort gpio) = some (reg .out (gpioGetPort gpio)) := by
  rcases port_cases gpio with port | port | port | port <;> rw [port] <;> rfl

theorem remapReg_eq (gpio : Fin 128) (remap : PinRemap) :
    remapReg (gpioGetPort gpio) remap =
      remap.kind.map (fun kind => reg kind (gpioGetPort gpio)) := by
  rcases port_cases gpio with port | port | port | port <;> rw [port] <;> cases remap <;> rfl

/-- The arithmetic of the clearing loop meets the named registers. -/
theorem clearRemaps_eq (regs : Registers) (port pin : Nat) :
    clearRemaps regs port pin =
      remapKinds.foldl (fun regs kind => regClrOneBit regs (reg kind port) pin) regs := by
  have addresses : ∀ i kind, cbusFirst0 + i * 0x10 = kind.base →
      cbusFirst0 + port * 0x04 + i * 0x10 = reg kind port := by
    intro i kind same
    unfold reg
    omega
  simp only [clearRemaps, List.range, List.range.loop, remapKinds, List.foldl_cons, List.foldl_nil]
  rw [addresses 0 .first rfl, addresses 1 .second rfl, addresses 2 .third rfl,
    addresses 3 .fourth rfl, addresses 4 .fifth rfl]

theorem getLsbD_regSetOneBit (regs : Registers) (a there k bit : Nat) (inside : bit < 32) :
    (regSetOneBit regs there bit a).getLsbD k =
      if a = there ∧ k = bit then true else (regs a).getLsbD k := by
  unfold regSetOneBit
  by_cases same : a = there
  · rw [if_pos same, BitVec.getLsbD_or, ← BitVec.twoPow_eq, BitVec.getLsbD_twoPow, same]
    by_cases here : k = bit
    · simp [here, inside]
    · simp [here, Ne.symm here]
  · rw [if_neg same, if_neg (fun both => same both.1)]

theorem getLsbD_regClrOneBit (regs : Registers) (a there k bit : Nat) (inside : bit < 32) :
    (regClrOneBit regs there bit a).getLsbD k =
      if a = there ∧ k = bit then false else (regs a).getLsbD k := by
  unfold regClrOneBit
  by_cases same : a = there
  · rw [if_pos same, BitVec.getLsbD_and, BitVec.getLsbD_not, ← BitVec.twoPow_eq,
      BitVec.getLsbD_twoPow, same]
    by_cases here : k = bit
    · simp [here, inside]
    · by_cases small : k < 32
      · simp [here, Ne.symm here, small]
      · have beyond : (regs there).getLsbD k = false := BitVec.getLsbD_of_ge _ k (by omega)
        simp [here, beyond]
  · rw [if_neg same, if_neg (fun both => same both.1)]

inductive Call where
  | pinSetPurpose (gpio : Fin 128) (purpose : PinPurpose)
  | pinSetRemap (gpio : Fin 128) (remap : PinRemap)
  | gpioInit (gpio : Fin 128) (mode : GpioMode)
  | gpioSet (gpio : Fin 128) (level : GpioLevel)
  deriving DecidableEq, Repr

def Call.gpio : Call → Fin 128
  | .pinSetPurpose gpio _ => gpio
  | .pinSetRemap gpio _ => gpio
  | .gpioInit gpio _ => gpio
  | .gpioSet gpio _ => gpio

def call (regs : Registers) : Call → Registers
  | .pinSetPurpose gpio purpose => pinSetPurpose regs gpio purpose
  | .pinSetRemap gpio remap => pinSetRemap regs gpio remap
  | .gpioInit gpio mode => gpioInit regs gpio mode
  | .gpioSet gpio level => gpioSet regs gpio level

/-- The value that a call is to give to the bit of its pin in the registers of
a kind; `none` for the kinds it is not about. -/
def Call.sets : Call → Kind → Option Bool
  | .pinSetPurpose _ purpose, .cfg => some (purpose = .gpio)
  | .gpioInit _ _, .cfg => some true
  | .gpioInit _ mode, .en => some (mode = .input)
  | .gpioSet _ level, .out => some (level = .high)
  | .pinSetRemap _ remap, kind => if kind ∈ remapKinds then some (remap.kind = some kind) else none
  | _, _ => none

/-- The bit of a pin in the registers of a kind. -/
def bit (kind : Kind) (gpio : Fin 128) (regs : Registers) : Bool :=
  (regs (reg kind (gpioGetPort gpio))).getLsbD (gpioGetPin gpio)

/-- One write of a call: its pin's bit in the register of one kind. -/
def writeBit (gpio : Fin 128) (regs : Registers) (write : Kind × Bool) : Registers :=
  if write.2 then regSetOneBit regs (reg write.1 (gpioGetPort gpio)) (gpioGetPin gpio)
  else regClrOneBit regs (reg write.1 (gpioGetPort gpio)) (gpioGetPin gpio)

def Call.writes : Call → List (Kind × Bool)
  | .pinSetPurpose _ purpose => [(.cfg, purpose = .gpio)]
  | .pinSetRemap _ remap =>
      remapKinds.map (fun kind => (kind, false)) ++ (remap.kind.map (fun kind => (kind, true))).toList
  | .gpioInit _ mode => [(.cfg, true), (.en, mode = .input)]
  | .gpioSet _ level => [(.out, level = .high)]

theorem pinSetPurpose_eq (regs : Registers) (gpio : Fin 128) (purpose : PinPurpose) :
    pinSetPurpose regs gpio purpose = writeBit gpio regs (.cfg, purpose = .gpio) := by
  simp only [pinSetPurpose, gpioGetCfgReg_eq]
  cases purpose <;> rfl

theorem call_eq_writes (regs : Registers) (c : Call) :
    call regs c = c.writes.foldl (writeBit c.gpio) regs := by
  cases c with
  | pinSetPurpose gpio purpose => exact pinSetPurpose_eq regs gpio purpose
  | pinSetRemap gpio remap =>
      simp only [call, pinSetRemap, remapReg_eq, clearRemaps_eq]
      cases remap <;> rfl
  | gpioInit gpio mode =>
      simp only [call, gpioInit, pinSetPurpose_eq, gpioGetEnReg_eq]
      cases mode <;> rfl
  | gpioSet gpio level =>
      simp only [call, gpioSet, gpioOutReg_eq]
      cases level <;> rfl

theorem getLsbD_writeBit (gpio : Fin 128) (regs : Registers) (write : Kind × Bool) (a k : Nat) :
    (writeBit gpio regs write a).getLsbD k =
      if a = reg write.1 (gpioGetPort gpio) ∧ k = gpioGetPin gpio then write.2
      else (regs a).getLsbD k := by
  obtain ⟨kind, value⟩ := write
  cases value with
  | true => exact getLsbD_regSetOneBit regs a _ k _ (pin_lt gpio)
  | false => exact getLsbD_regClrOneBit regs a _ k _ (pin_lt gpio)

/-- A bit that a call changes belongs to its pin, in a register that one of its
writes is about. -/
theorem writes_confined (gpio : Fin 128) (writes : List (Kind × Bool)) (regs : Registers) (a k : Nat)
    (changed : (writes.foldl (writeBit gpio) regs a).getLsbD k ≠ (regs a).getLsbD k) :
    k = gpioGetPin gpio ∧ ∃ write ∈ writes, a = reg write.1 (gpioGetPort gpio) := by
  induction writes generalizing regs with
  | nil => exact absurd rfl changed
  | cons write rest ih =>
      by_cases here : a = reg write.1 (gpioGetPort gpio) ∧ k = gpioGetPin gpio
      · exact ⟨here.2, write, List.mem_cons_self, here.1⟩
      · have first := getLsbD_writeBit gpio regs write a k
        rw [if_neg here] at first
        rw [List.foldl_cons, ← first] at changed
        obtain ⟨pin, later, member, same⟩ := ih _ changed
        exact ⟨pin, later, List.mem_cons_of_mem _ member, same⟩

theorem bit_writeBit (gpio other : Fin 128) (regs : Registers) (write : Kind × Bool) (kind : Kind) :
    bit kind other (writeBit gpio regs write) =
      (if gpio = other ∧ write.1 = kind then some write.2 else none).getD (bit kind other regs) := by
  unfold bit
  rw [getLsbD_writeBit]
  by_cases here : gpio = other ∧ write.1 = kind
  · rw [if_pos here, if_pos ⟨by rw [here.1, here.2], by rw [here.1]⟩, Option.getD_some]
  · rw [if_neg here, Option.getD_none, if_neg]
    intro same
    obtain ⟨kinds, ports⟩ := reg_inj (port_lt other) (port_lt gpio) same.1
    apply here
    refine ⟨?_, kinds.symm⟩
    have pins := same.2
    unfold gpioGetPort at ports
    unfold gpioGetPin at pins
    apply Fin.ext
    omega

/-- What a call sets for one pin. -/
def Call.setsPin (gpio : Fin 128) (kind : Kind) (c : Call) : Option Bool :=
  if c.gpio = gpio then c.sets kind else none

/-- A call gives the bits that it is about their new values and keeps all
others. -/
theorem call_governs (gpio : Fin 128) (kind : Kind) :
    Governs call (bit kind gpio) (Call.setsPin gpio kind) := by
  intro regs c
  rw [call_eq_writes, Call.setsPin]
  by_cases same : c.gpio = gpio
  · rw [if_pos same]
    cases c with
    | pinSetPurpose _ purpose =>
        simp only [Call.writes, List.foldl_cons, List.foldl_nil, bit_writeBit, same, true_and]
        cases kind <;> rfl
    | pinSetRemap _ remap =>
        simp only [Call.writes, remapKinds, List.map_cons, List.map_nil, List.foldl_append,
          List.foldl_cons, List.foldl_nil]
        cases remap <;> cases kind <;>
          simp [PinRemap.kind, Call.sets, bit_writeBit, same, remapKinds]
    | gpioInit _ mode =>
        simp only [Call.writes, List.foldl_cons, List.foldl_nil, bit_writeBit, same, true_and]
        cases kind <;> rfl
    | gpioSet _ level =>
        simp only [Call.writes, List.foldl_cons, List.foldl_nil, bit_writeBit, same, true_and]
        cases kind <;> rfl
  · rw [if_neg same, Option.getD_none]
    generalize c.writes = writes
    induction writes generalizing regs with
    | nil => rfl
    | cons write rest ih =>
        rw [List.foldl_cons, ih, bit_writeBit, if_neg (fun both => same both.1), Option.getD_none]

/-- The writes of a call are about the kinds that the call sets. -/
theorem writes_sets (c : Call) (write : Kind × Bool) (member : write ∈ c.writes) :
    (c.sets write.1).isSome := by
  cases c with
  | pinSetPurpose gpio purpose =>
      rw [List.mem_singleton.mp member]
      rfl
  | pinSetRemap gpio remap =>
      have inside : write.1 ∈ remapKinds := by
        rcases List.mem_append.mp member with cleared | set
        · obtain ⟨kind, listed, rfl⟩ := List.mem_map.mp cleared
          exact listed
        · cases remap <;> simp [PinRemap.kind] at set <;> simp [set, remapKinds]
      simp only [Call.sets, if_pos inside, Option.isSome_some]
  | gpioInit gpio mode =>
      rcases List.mem_pair.mp member with rfl | rfl <;> rfl
  | gpioSet gpio level =>
      rw [List.mem_singleton.mp member]
      rfl

/-- Only a remap of the pin sets its remap bits. -/
theorem setsPin_remap_none {gpio : Fin 128} {kind : Kind} {c : Call} (member : kind ∈ remapKinds)
    (other : ∀ remap, c ≠ .pinSetRemap gpio remap) : c.setsPin gpio kind = none := by
  unfold Call.setsPin
  split
  · rename_i same
    cases c with
    | pinSetRemap _ remap => exact absurd (congrArg (Call.pinSetRemap · remap) same) (other remap)
    | pinSetPurpose _ _ => cases kind <;> first | rfl | exact absurd member (by decide)
    | gpioInit _ _ => cases kind <;> first | rfl | exact absurd member (by decide)
    | gpioSet _ _ => cases kind <;> first | rfl | exact absurd member (by decide)
  · rfl

/-- The multiplexer after a sequence of calls. -/
def runCalls (regs : Registers) (calls : List Call) : Registers := calls.foldl call regs

/-- Every call touches only its own pin in the registers it is about; the remap
bits of a pin are those of its last remap, and its purpose, direction and level
those of the last call that set them. -/
theorem pin_isolation (regs : Registers) (calls : List Call) :
    (∀ before c after, calls = before ++ c :: after → ∀ a k,
      (runCalls regs (before ++ [c]) a).getLsbD k ≠ (runCalls regs before a).getLsbD k →
        k = gpioGetPin c.gpio ∧ ∃ kind, (c.sets kind).isSome ∧ a = reg kind (gpioGetPort c.gpio)) ∧
    (∀ before gpio remap after, calls = before ++ .pinSetRemap gpio remap :: after →
      (∀ later, .pinSetRemap gpio later ∉ after) → ∀ kind ∈ remapKinds,
        bit kind gpio (runCalls regs calls) = decide (remap.kind = some kind)) ∧
    ∀ kind ∈ [Kind.cfg, .en, .out], ∀ gpio,
      (∀ before c after value, calls = before ++ c :: after →
        c.setsPin gpio kind = some value → (∀ later ∈ after, later.setsPin gpio kind = none) →
          bit kind gpio (runCalls regs calls) = value) ∧
      ((∀ c ∈ calls, c.setsPin gpio kind = none) →
        bit kind gpio (runCalls regs calls) = bit kind gpio regs) := by
  refine ⟨?_, ?_, ?_⟩
  · intro before c after _ a k changed
    rw [runCalls, List.foldl_append, List.foldl_cons, List.foldl_nil, call_eq_writes] at changed
    obtain ⟨pin, write, member, address⟩ := writes_confined c.gpio c.writes _ a k changed
    refine ⟨pin, write.1, ?_, address⟩
    exact writes_sets c write member
  · intro before gpio remap after split none kind member
    rw [split]
    apply (call_governs gpio kind).last before after regs
    · simp only [Call.setsPin, Call.gpio, Call.sets, if_pos member, ↓reduceIte]
    · intro later inside
      exact setsPin_remap_none member fun other same => none other (same ▸ inside)
  · intro kind _ gpio
    refine ⟨?_, (call_governs gpio kind).kept calls regs⟩
    intro before c after value split sets none
    rw [split]
    exact (call_governs gpio kind).last before after regs sets none

end KyokaMirror.Ls1c
