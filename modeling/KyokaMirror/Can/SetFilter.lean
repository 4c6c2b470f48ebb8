import Mathlib.Data.List.TakeWhile
import KyokaMirror.Can.Acceptance

set_option autoImplicit false

namespace KyokaMirror.Can

/-- `struct rt_can_filter_item`, with its bit fields. -/
structure FilterItem where
  id : BitVec 29
  ide : BitVec 1
  rtr : BitVec 1
  mode : BitVec 1
  mask : BitVec 32
  hdr : Int
  deriving DecidableEq

/-- What `bxmodifyfilter` cannot control during one call: the chip, and what the
stack holds where the struct and the bytes of the encoding will lie. -/
structure CallEnv where
  chip : Chip
  struct : FilterInit
  bytes : FilterBytes

/-- The struct that is built for an item. The locals `ide`, `rtr`, `id`,
`idmask` and `mode` are all of type `unsigned char`; `First_Data` and
`Data_Mask` are not assigned. -/
def builtFilter (stack : FilterInit) (item : FilterItem) : FilterInit :=
  let ide : BitVec 8 := item.ide.setWidth 8
  let rtr : BitVec 8 := item.rtr.setWidth 8
  let id : BitVec 8 := item.id.setWidth 8
  let idmask : BitVec 8 := item.mask.setWidth 8
  let mode : BitVec 8 := item.mode.setWidth 8
  { stack with
    ide := ide
    rtr := rtr
    id := id.setWidth 32
    idMask := idmask.setWidth 32
    mode := mode }

/-- The controller, the code returned, and the structs given to
`CAN_FilterInit` with the items they were built for. -/
structure FilterRun where
  can : Controller
  code : Int
  applied : List (FilterItem × FilterInit)

/-- An `hdr` below -1 takes neither branch and is applied like one from 0 on. -/
def bxmodifyfilter (env : CallEnv) (item : FilterItem) (actived : BitVec 32) (can : Controller) :
    FilterRun :=
  if actived = 0 then ⟨can, rtEok, []⟩
  else if item.hdr = -1 then ⟨can, -1, []⟩
  else
    let struct := builtFilter env.struct item
    ⟨canFilterInit env.chip env.bytes struct can, rtEok, [(item, struct)]⟩

/-- The loop over the items of a request, each with the environment of its
call. -/
def setfilter (actived : BitVec 32) : List (CallEnv × FilterItem) → Controller → FilterRun
  | [], can => ⟨can, rtEok, []⟩
  | (env, item) :: rest, can =>
      let res := bxmodifyfilter env item actived can
      if res.code ≠ rtEok then res
      else
        let run := setfilter actived rest res.can
        { run with applied := res.applied ++ run.applied }

/-- Whether the item of the call is not refused. -/
def applies (call : CallEnv × FilterItem) : Bool := call.2.hdr ≠ -1

def applyCall (can : Controller) (call : CallEnv × FilterItem) : Controller :=
  canFilterInit call.1.chip call.1.bytes (builtFilter call.1.struct call.2) can

def entry (call : CallEnv × FilterItem) : FilterItem × FilterInit :=
  (call.2, builtFilter call.1.struct call.2)

section

variable {actived : BitVec 32} (active : actived ≠ 0)
include active

theorem bxmodifyfilter_taken {call : CallEnv × FilterItem} (taken : applies call)
    (can : Controller) :
    bxmodifyfilter call.1 call.2 actived can = ⟨applyCall can call, rtEok, [entry call]⟩ := by
  have other : call.2.hdr ≠ -1 := of_decide_eq_true taken
  rw [bxmodifyfilter, if_neg active, if_neg other]
  rfl

theorem bxmodifyfilter_refused {call : CallEnv × FilterItem} (refused : applies call = false)
    (can : Controller) : bxmodifyfilter call.1 call.2 actived can = ⟨can, -1, []⟩ := by
  have header : call.2.hdr = -1 := not_not.mp (of_decide_eq_false refused)
  rw [bxmodifyfilter, if_neg active, if_pos header]

/-- The items before the first refused one are applied, in order, and no
other. -/
theorem setfilter_eq (request : List (CallEnv × FilterItem)) (can : Controller) :
    setfilter actived request can =
      ⟨(request.takeWhile applies).foldl applyCall can, if request.all applies then rtEok else -1,
        (request.takeWhile applies).map entry⟩ := by
  induction request generalizing can with
  | nil => rfl
  | cons call rest ih =>
      rw [setfilter]
      cases taken : applies call with
      | true =>
          rw [bxmodifyfilter_taken active taken, if_neg (not_not.mpr rfl), ih,
            List.takeWhile_cons_of_pos taken, List.all_cons, taken, Bool.true_and]
          rfl
      | false =>
          have failed : (-1 : Int) ≠ rtEok := by decide
          have refused : ¬applies call = true := Bool.not_eq_true _ ▸ taken
          rw [bxmodifyfilter_refused active taken, if_pos failed,
            List.takeWhile_cons_of_neg refused, List.all_cons, taken, Bool.false_and]
          rfl

end

theorem setfilter_inactive (request : List (CallEnv × FilterItem)) (can : Controller) :
    setfilter 0 request can = ⟨can, rtEok, []⟩ := by
  induction request with
  | nil => rfl
  | cons call rest ih =>
      rw [setfilter, bxmodifyfilter, if_pos rfl, if_neg (not_not.mpr rfl), ih]
      rfl

/-- The struct has the five values of the item. -/
structure Carries (item : FilterItem) (struct : FilterInit) : Prop where
  id : struct.id.toNat = item.id.toNat
  mask : struct.idMask = item.mask
  ide : struct.ide.toNat = item.ide.toNat
  rtr : struct.rtr.toNat = item.rtr.toNat
  mode : struct.mode.toNat = item.mode.toNat

/-- A request is passed through: each struct given to the controller for an item
with `hdr` from 0 on and `mode` 1 carries it, the code is `RT_EOK` exactly if
every item was applied, and the first item that is refused gives an error and
leaves the registers to the items before it. -/
structure PassedThrough (actived : BitVec 32) (request : List (CallEnv × FilterItem))
    (can : Controller) : Prop where
  carries : ∀ entry ∈ (setfilter actived request can).applied,
    0 ≤ entry.1.hdr → entry.1.mode = 1 → Carries entry.1 entry.2
  ok_iff : (setfilter actived request can).code = rtEok ↔
    (setfilter actived request can).applied.map Prod.fst = request.map Prod.snd
  refused : ∀ before call after, request = before ++ call :: after →
    (setfilter actived before can).code = rtEok →
    (bxmodifyfilter call.1 call.2 actived (setfilter actived before can).can).code ≠ rtEok →
    (setfilter actived request can).code ≠ rtEok ∧
      (setfilter actived request can).can = (setfilter actived before can).can

/-- The item's identifier and mask fit the two bytes they pass through. -/
def FitsByte (item : FilterItem) : Prop := item.id.toNat < 256 ∧ item.mask.toNat < 256

/-- The narrow locals lose nothing of the items they are used for, and a request
that is not active asks for nothing. -/
def FineRequest (actived : BitVec 32) (request : List (CallEnv × FilterItem)) : Prop :=
  (actived = 0 → request = []) ∧
    (actived ≠ 0 → ∀ call ∈ request.takeWhile applies, 0 ≤ call.2.hdr → call.2.mode = 1 →
      FitsByte call.2)

theorem carries_iff (stack : FilterInit) (item : FilterItem) :
    Carries item (builtFilter stack item) ↔ FitsByte item := by
  have id : (builtFilter stack item).id.toNat = item.id.toNat % 256 :=
    BitVec.toNat_setWidth_of_le (by decide)
  have mask : (builtFilter stack item).idMask.toNat = item.mask.toNat % 256 :=
    BitVec.toNat_setWidth_of_le (by decide)
  constructor
  · intro carries
    have whole := congrArg BitVec.toNat carries.mask
    rw [mask] at whole
    have short := carries.id
    rw [id] at short
    exact ⟨by omega, by omega⟩
  · rintro ⟨shortId, shortMask⟩
    exact {
      id := id.trans (Nat.mod_eq_of_lt shortId)
      mask := BitVec.eq_of_toNat_eq (mask.trans (Nat.mod_eq_of_lt shortMask))
      ide := BitVec.toNat_setWidth_of_le (by decide)
      rtr := BitVec.toNat_setWidth_of_le (by decide)
      mode := BitVec.toNat_setWidth_of_le (by decide) }

section

variable {actived : BitVec 32} (active : actived ≠ 0)
include active

theorem setfilter_ok_iff (request : List (CallEnv × FilterItem)) (can : Controller) :
    (setfilter actived request can).code = rtEok ↔ request.all applies := by
  have failed : (-1 : Int) ≠ rtEok := by decide
  rw [setfilter_eq active]
  cases request.all applies with
  | true => exact ⟨fun _ => rfl, fun _ => rfl⟩
  | false => exact ⟨fun ok => absurd ok failed, fun none => absurd none Bool.false_ne_true⟩

/-- Every item was applied exactly if none is refused. -/
theorem applied_all_iff (request : List (CallEnv × FilterItem)) (can : Controller) :
    (setfilter actived request can).applied.map Prod.fst = request.map Prod.snd ↔
      request.all applies := by
  rw [setfilter_eq active]
  constructor
  · intro every
    have length : (request.takeWhile applies).length = request.length := by
      simpa using congrArg List.length every
    have whole := (List.takeWhile_prefix applies).eq_of_length length
    exact List.all_eq_true.mpr (List.takeWhile_eq_self_iff.mp whole)
  · intro every
    rw [List.takeWhile_eq_self_iff.mpr (List.all_eq_true.mp every), List.map_map]
    rfl

theorem setfilter_refused {before after : List (CallEnv × FilterItem)}
    {call : CallEnv × FilterItem} {can : Controller}
    (ok : (setfilter actived before can).code = rtEok)
    (error : (bxmodifyfilter call.1 call.2 actived (setfilter actived before can).can).code ≠
      rtEok) :
    (setfilter actived (before ++ call :: after) can).code ≠ rtEok ∧
      (setfilter actived (before ++ call :: after) can).can =
        (setfilter actived before can).can := by
  have every := List.all_eq_true.mp ((setfilter_ok_iff active before can).mp ok)
  have refused : applies call = false := by
    by_contra taken
    rw [bxmodifyfilter_taken active (by simpa using taken)] at error
    exact error rfl
  constructor
  · rw [Ne, setfilter_ok_iff active, List.all_append, List.all_cons, refused, Bool.false_and,
      Bool.and_false]
    exact Bool.false_ne_true
  · have stop : ¬applies call = true := by rw [refused]; exact Bool.false_ne_true
    rw [setfilter_eq active, setfilter_eq active, List.takeWhile_append_of_pos every,
      List.takeWhile_cons_of_neg stop, List.append_nil, List.takeWhile_eq_self_iff.mpr every]

end

/-- A request is passed through exactly if it is active, or empty, and every
item applied for which it matters fits the narrow locals. -/
theorem filters_passed_through_iff (actived : BitVec 32) (request : List (CallEnv × FilterItem))
    (can : Controller) :
    PassedThrough actived request can ↔ FineRequest actived request := by
  by_cases active : actived = 0
  · subst active
    constructor
    · intro passed
      have none := passed.ok_iff.mp (by rw [setfilter_inactive])
      rw [setfilter_inactive] at none
      exact ⟨fun _ => List.map_eq_nil_iff.mp none.symm, fun other => absurd rfl other⟩
    · rintro ⟨empty, -⟩
      rw [empty rfl]
      exact {
        carries := fun _ inside => absurd inside (List.not_mem_nil)
        ok_iff := ⟨fun _ => rfl, fun _ => rfl⟩
        refused := fun _ _ _ split => absurd split.symm (List.append_ne_nil_of_right_ne_nil _
          (List.cons_ne_nil _ _)) }
  · constructor
    · intro passed
      refine ⟨fun inactive => absurd inactive active, fun _ call inside header single => ?_⟩
      have built : entry call ∈ (setfilter actived request can).applied := by
        rw [setfilter_eq active]
        exact List.mem_map_of_mem inside
      exact (carries_iff _ _).mp (passed.carries (entry call) built header single)
    · rintro ⟨-, fits⟩
      refine ⟨?_, ?_, ?_⟩
      · intro built inside header single
        rw [setfilter_eq active] at inside
        obtain ⟨call, taken, rfl⟩ := List.mem_map.mp inside
        exact (carries_iff _ _).mpr (fits active call taken header single)
      · rw [setfilter_ok_iff active, applied_all_iff active]
      · rintro before call after rfl ok error
        exact setfilter_refused active ok error

/-- The identifier 0x123 arrives as 0x23. -/
theorem id_narrowed :
    ¬PassedThrough 1
      [(⟨obedient, ⟨0, 0, 0, 0, 0, 0, 0⟩, ⟨0, 0, 0, 0, 0, 0, 0, 0⟩⟩, ⟨0x123, 0, 0, 1, 0, 0⟩)]
      idleController := by
  intro passed
  have carries := passed.carries _ (List.mem_singleton_self _) (by decide) (by decide)
  exact absurd carries.id (by decide)

end KyokaMirror.Can
