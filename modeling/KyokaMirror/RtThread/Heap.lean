import KyokaMirror.Library.Copy
import KyokaMirror.RtThread.MessageQueue
import Mathlib.Data.Nat.ModEq

set_option autoImplicit false

namespace KyokaMirror.RtThread

open Library.Copy (copy)

/- The small memory allocator. Pointers are byte offsets from `heap_ptr`, which
is aligned, and memory maps the offset of an object to its value. -/

def heapMagic : Nat := 0x1ea0

/-- `SIZEOF_STRUCT_MEM`: two half words and two words, aligned to 8. -/
def sizeofStructMem : Nat := 16

def minSize : Nat := 12

def minSizeAligned : Nat := 16

/-- `RT_ALIGN(size, RT_ALIGN_SIZE)` in 32 bits. -/
def rtAlign (size : Nat) : Nat := (size + 7) % 2 ^ 32 / 8 * 8

/-- `RT_ALIGN_DOWN(size, RT_ALIGN_SIZE)`. -/
def rtAlignDown (size : Nat) : Nat := size / 8 * 8

/-- The difference of two `rt_size_t`. -/
def sub32 (a b : Nat) : Nat := (a + 2 ^ 32 - b) % 2 ^ 32

/-- The variables of `mem.c` with the memory that they manage. -/
structure Heap where
  mem : Words
  memSizeAligned : Nat
  lfree : Nat
  usedMem : Nat
  maxMem : Nat

namespace Heap

variable (h : Heap)

/-- The last entry, always used. -/
def heapEnd : Nat := h.memSizeAligned + sizeofStructMem

def magic (p : Nat) : Nat := h.mem p

def used (p : Nat) : Nat := h.mem (p + 2)

def next (p : Nat) : Nat := h.mem (p + 4)

def prev (p : Nat) : Nat := h.mem (p + 8)

def setMem (mem : Words) : Heap := { h with mem := mem }

end Heap

/-- `rt_system_heap_init`; `none` where it prints its error and returns. -/
def rtSystemHeapInit (mem : Words) (beginAddr endAddr : Nat) : Option Heap :=
  let beginAlign := rtAlign beginAddr
  let endAlign := rtAlignDown endAddr
  if endAlign > 2 * sizeofStructMem ∧ endAlign - 2 * sizeofStructMem ≥ beginAlign then
    let size := endAlign - beginAlign - 2 * sizeofStructMem
    let last := size + sizeofStructMem
    let mem := write mem 0 heapMagic
    let mem := write mem 4 last
    let mem := write mem 8 0
    let mem := write mem 2 0
    let mem := write mem last heapMagic
    let mem := write mem (last + 2) 1
    let mem := write mem (last + 4) last
    let mem := write mem (last + 8) last
    some ⟨mem, size, 0, 0, 0⟩
  else none

/-- The loop of `rt_malloc` over the blocks from `ptr` on. -/
def findBlock (h : Heap) (size : Nat) : Nat → Nat → Option Nat
  | 0, _ => none
  | fuel + 1, ptr =>
      if ptr < sub32 h.memSizeAligned size then
        if h.used ptr = 0 ∧ sub32 (h.next ptr) (ptr + sizeofStructMem) ≥ size then some ptr
        else findBlock h size fuel (h.next ptr)
      else none

/-- Creates `mem2` at `ptr2` and puts it behind the block at `ptr`. -/
def insertMem2 (mem : Words) (ptr ptr2 : Nat) : Words :=
  let next := mem (ptr + 4)
  let mem := write mem ptr2 heapMagic
  let mem := write mem (ptr2 + 2) 0
  let mem := write mem (ptr2 + 4) next
  let mem := write mem (ptr2 + 8) ptr
  write mem (ptr + 4) ptr2

/-- Tells the block behind `mem2` of it, unless that is `heap_end`. -/
def relink (mem : Words) (heapEnd ptr2 : Nat) : Words :=
  if mem (ptr2 + 4) ≠ heapEnd then write mem (mem (ptr2 + 4) + 8) ptr2 else mem

/-- `while (lfree->used && lfree != heap_end) lfree = lfree->next`. -/
def skipUsed (h : Heap) : Nat → Nat → Nat
  | 0, lfree => lfree
  | fuel + 1, lfree =>
      if h.used lfree ≠ 0 ∧ lfree ≠ h.heapEnd then skipUsed h fuel (h.next lfree) else lfree

/-- Counts the bytes of a new block and keeps the maximum. -/
def countUsed (h : Heap) (bytes : Nat) : Heap :=
  { h with usedMem := h.usedMem + bytes, maxMem := max h.maxMem (h.usedMem + bytes) }

/-- The block at `ptr` becomes used, and is split where another block fits
behind it. -/
def takeBlock (h : Heap) (ptr size : Nat) : Heap :=
  if sub32 (h.next ptr) (ptr + sizeofStructMem) ≥ size + sizeofStructMem + minSizeAligned then
    let ptr2 := ptr + sizeofStructMem + size
    let mem := write (insertMem2 h.mem ptr ptr2) (ptr + 2) 1
    (countUsed h (size + sizeofStructMem)).setMem (relink mem h.heapEnd ptr2)
  else (countUsed h (h.next ptr - ptr)).setMem (write h.mem (ptr + 2) 1)

/-- What `rt_malloc` does with the block it has found. -/
def finishMalloc (h : Heap) (ptr size : Nat) : Heap :=
  let h := takeBlock h ptr size
  let h := h.setMem (write h.mem ptr heapMagic)
  if ptr = h.lfree then { h with lfree := skipUsed h h.heapEnd h.lfree } else h

/-- The assertions behind a successful `rt_malloc`. -/
def mallocAsserts (before after : Heap) (ptr size : Nat) : Prop :=
  (ptr = before.lfree → after.lfree = after.heapEnd ∨ after.used after.lfree = 0) ∧
    ptr + sizeofStructMem + size ≤ after.heapEnd ∧ (ptr + sizeofStructMem) % 8 = 0 ∧ ptr % 8 = 0

instance (before after : Heap) (ptr size : Nat) : Decidable (mallocAsserts before after ptr size) :=
  inferInstanceAs (Decidable (_ ∧ _))

/-- `rt_malloc` behind its search; `none` where an assertion fails. -/
def takeFound (h : Heap) (size : Nat) : Option Nat → Option (Heap × Option Nat)
  | none => some (h, none)
  | some ptr =>
      let after := finishMalloc h ptr size
      if mallocAsserts h after ptr size then some (after, some (ptr + sizeofStructMem)) else none

/-- `rt_malloc` with the pointer it returns. -/
def rtMalloc (h : Heap) (size : Nat) : Option (Heap × Option Nat) :=
  if size = 0 then some (h, none)
  else
    let size := rtAlign size
    if size > h.memSizeAligned then some (h, none)
    else
      let size := if size < minSizeAligned then minSizeAligned else size
      takeFound h size (findBlock h size h.heapEnd h.lfree)

/-- The forward part of `plug_holes`. -/
def plugForward (h : Heap) (mem : Nat) : Heap :=
  let nmem := h.next mem
  if mem ≠ nmem ∧ h.used nmem = 0 ∧ nmem ≠ h.heapEnd then
    let h := if h.lfree = nmem then { h with lfree := mem } else h
    let h := h.setMem (write h.mem (mem + 4) (h.next nmem))
    h.setMem (write h.mem (h.next nmem + 8) mem)
  else h

/-- The backward part of `plug_holes`. -/
def plugBackward (h : Heap) (mem : Nat) : Heap :=
  let pmem := h.prev mem
  if pmem ≠ mem ∧ h.used pmem = 0 then
    let h := if h.lfree = mem then { h with lfree := pmem } else h
    let h := h.setMem (write h.mem (pmem + 4) (h.next mem))
    h.setMem (write h.mem (h.next mem + 8) pmem)
  else h

def plugHoles (h : Heap) (mem : Nat) : Option Heap :=
  if mem < h.heapEnd ∧ h.used mem = 0 then some (plugBackward (plugForward h mem) mem) else none

/-- `if (mem < lfree) lfree = mem`. -/
def lowerFree (h : Heap) (mem : Nat) : Heap :=
  { h with lfree := if mem < h.lfree then mem else h.lfree }

/-- `rt_free`; `none` where an assertion fails. -/
def rtFree (h : Heap) : Option Nat → Option Heap
  | none => some h
  | some rmem =>
      let mem := rmem - sizeofStructMem
      if rmem % 8 = 0 ∧ rmem < h.heapEnd ∧ h.used mem ≠ 0 ∧ h.magic mem = heapMagic then
        let h := h.setMem (write h.mem (mem + 2) 0)
        let h := h.setMem (write h.mem mem heapMagic)
        let h := lowerFree h mem
        let h := { h with usedMem := h.usedMem - (h.next mem - mem) }
        plugHoles h mem
      else none

/-- The branch of `rt_realloc` that splits the block and frees its end. -/
def shrinkBlock (h : Heap) (ptr size newsize : Nat) : Option Heap :=
  let h := { h with usedMem := h.usedMem - (size - newsize) }
  let ptr2 := ptr + sizeofStructMem + newsize
  let h := h.setMem (relink (insertMem2 h.mem ptr ptr2) h.heapEnd ptr2)
  let h := lowerFree h ptr2
  plugHoles h ptr2

/-- The copy of `count` bytes to the new block, and the release of the old
one. -/
def moveBlock (rmem count : Nat) : Heap × Option Nat → Option (Heap × Option Nat)
  | (h, none) => some (h, none)
  | (h, some nmem) =>
      let h := h.setMem (copy h.mem h.mem nmem rmem count)
      (rtFree h (some rmem)).map fun h => (h, some nmem)

/-- The end of `rt_realloc`. -/
def expandBlock (h : Heap) (rmem size newsize : Nat) : Option (Heap × Option Nat) :=
  (rtMalloc h newsize).bind (moveBlock rmem (if size < newsize then size else newsize))

def rtRealloc (h : Heap) (rmem : Option Nat) (newsize : Nat) : Option (Heap × Option Nat) :=
  let newsize := rtAlign newsize
  if newsize > h.memSizeAligned then some (h, none)
  else if newsize = 0 then (rtFree h rmem).map fun h => (h, none)
  else
    match rmem with
    | none => rtMalloc h newsize
    | some rmem =>
        if rmem ≥ h.heapEnd then some (h, some rmem)
        else
          let ptr := rmem - sizeofStructMem
          let size := sub32 (h.next ptr) (ptr + sizeofStructMem)
          if size = newsize then some (h, some rmem)
          else if newsize + sizeofStructMem + minSize < size then
            (shrinkBlock h ptr size newsize).map fun h => (h, some rmem)
          else expandBlock h rmem size newsize

def clearBlock (bytes : Nat) : Heap × Option Nat → Heap × Option Nat
  | (h, none) => (h, none)
  | (h, some p) => (h.setMem (copy h.mem (fun _ => 0) p 0 bytes), some p)

/-- `rt_calloc`; the product is a `rt_size_t`. -/
def rtCalloc (h : Heap) (count size : Nat) : Option (Heap × Option Nat) :=
  let bytes := count * size % 2 ^ 32
  (rtMalloc h bytes).map (clearBlock bytes)

end KyokaMirror.RtThread
