import KyokaMirror.Library.Linked
import Mathlib.Data.List.Perm.Basic

set_option autoImplicit false

namespace KyokaMirror.RtThread

open Library (Linked)

/-- Memory as words. Addresses count words, and address 0 is `RT_NULL`. -/
abbrev Words := Nat → Nat

def write (mem : Words) (address value : Nat) : Words :=
  fun a => if a = address then value else mem a

theorem write_same (mem : Words) (address value : Nat) : write mem address value address = value :=
  if_pos rfl

theorem write_other {mem : Words} {address value a : Nat} (other : a ≠ address) :
    write mem address value a = mem a := if_neg other

/-- `struct rt_messagequeue` for messages of two words, with the memory that
its pool lies in. A slot is the link word of a message and the two words behind
it. -/
structure MessageQueue where
  mem : Words
  head : Nat
  tail : Nat
  free : Nat
  entry : Nat

def slotWords : Nat := 3

/-- The loop of `rt_mq_init` over the slots of the pool. -/
def initFree (mem : Words) (msgPool : Nat) : Nat → Words × Nat
  | 0 => (mem, 0)
  | temp + 1 =>
      let before := initFree mem msgPool temp
      let head := msgPool + temp * slotWords
      (write before.1 head before.2, head)

def rtMqInit (mem : Words) (msgPool maxMsgs : Nat) : MessageQueue where
  mem := (initFree mem msgPool maxMsgs).1
  head := 0
  tail := 0
  free := (initFree mem msgPool maxMsgs).2
  entry := 0

/-- Ends the message's link and copies the two words of the message. -/
def fillSlot (mem : Words) (msg dev size : Nat) : Words :=
  write (write (write mem msg 0) (msg + 1) dev) (msg + 2) size

/-- Hooks a message behind the tail, if there is one. -/
def hook (mem : Words) (tail msg : Nat) : Words := if tail ≠ 0 then write mem tail msg else mem

/-- `rt_mq_send`, which never waits; `none` is `-RT_EFULL`. -/
def rtMqSend (q : MessageQueue) (dev size : Nat) : Option MessageQueue :=
  if q.free = 0 then none
  else some {
    mem := hook (fillSlot q.mem q.free dev size) q.tail q.free
    head := if q.head = 0 then q.free else q.head
    tail := q.free
    free := q.mem q.free
    entry := q.entry + 1 }

/-- The first part of `rt_mq_recv`, with interrupts disabled: unlinks the oldest
message. -/
def rtMqTake (q : MessageQueue) : Option (Nat × MessageQueue) :=
  if q.entry = 0 then none
  else some (q.head, { q with
    head := q.mem q.head
    tail := if q.tail = q.head then 0 else q.tail
    entry := q.entry - 1 })

/-- The last part of `rt_mq_recv`: puts the slot back. -/
def rtMqRelease (q : MessageQueue) (msg : Nat) : MessageQueue :=
  { q with mem := write q.mem msg q.free, free := msg }

/-- The two words of a message. -/
def payload (mem : Words) (msg : Nat) : Nat × Nat := (mem (msg + 1), mem (msg + 2))

/-- The addresses of the slots of a pool. -/
def slots (msgPool maxMsgs : Nat) : List Nat :=
  (List.range maxMsgs).map fun k => msgPool + k * slotWords

/-- Slots stand apart, so that a slot's words are not a slot. -/
structure Spaced (pool : List Nat) : Prop where
  nodup : pool.Nodup
  valid : ∀ a ∈ pool, a ≠ 0
  apart : ∀ a ∈ pool, ∀ b ∈ pool, a ≠ b → a + 2 < b ∨ b + 2 < a

/-- The message list, the free list and the slots in hand share out the pool.
The free list ends at `stop`. -/
structure Lists (pool : List Nat) (stop : Nat) (q : MessageQueue) (hand msgs frees : List Nat) :
    Prop where
  share : (msgs ++ frees ++ hand).Perm pool
  messages : Linked q.mem q.head msgs 0
  unused : Linked q.mem q.free frees stop
  tail : q.tail = msgs.getLast?.getD 0
  entry : q.entry = msgs.length

section

variable {pool : List Nat} {stop : Nat} {q : MessageQueue} {hand msgs frees : List Nat}

theorem Lists.nodup (lists : Lists pool stop q hand msgs frees) (spaced : Spaced pool) :
    (msgs ++ frees ++ hand).Nodup := lists.share.nodup_iff.mpr spaced.nodup

theorem Lists.mem_pool (lists : Lists pool stop q hand msgs frees) {a : Nat}
    (member : a ∈ msgs ++ frees ++ hand) : a ∈ pool := lists.share.subset member

/-- Taking a message unlinks the first one. -/
theorem Lists.take {msg : Nat} (lists : Lists pool stop q [] (msg :: msgs) frees)
    (spaced : Spaced pool) :
    ∃ left, rtMqTake q = some (msg, left) ∧ left.mem = q.mem ∧
      Lists pool stop left [msg] msgs frees := by
  have count : q.entry ≠ 0 := by
    rw [lists.entry, List.length_cons]
    exact Nat.succ_ne_zero _
  obtain ⟨head, later⟩ := lists.messages
  have nodup := lists.nodup spaced
  refine ⟨{ q with
      head := q.mem msg, tail := if q.tail = msg then 0 else q.tail, entry := q.entry - 1 },
    by rw [rtMqTake, if_neg count, head], rfl, ?_, later, lists.unused, ?_, ?_⟩
  · apply List.Perm.trans _ lists.share
    simp only [List.append_nil, List.cons_append]
    exact (List.perm_append_singleton msg _)
  · show (if q.tail = msg then 0 else q.tail) = msgs.getLast?.getD 0
    rw [lists.tail]
    cases msgs with
    | nil => simp
    | cons b more =>
        have fresh : msg ∉ b :: more := by
          intro member
          simp only [List.append_nil, List.cons_append, List.nodup_cons] at nodup
          exact nodup.1 (List.mem_append_left _ member)
        rw [List.getLast?_cons_cons]
        have last : (b :: more).getLast?.getD 0 ≠ msg := by
          rw [List.getLast?_eq_some_getLast (List.cons_ne_nil b more), Option.getD_some]
          intro same
          exact fresh (same ▸ List.getLast_mem _)
        exact if_neg last
  · show q.entry - 1 = msgs.length
    rw [lists.entry, List.length_cons, Nat.add_sub_cancel]

theorem Lists.take_none (lists : Lists pool stop q hand [] frees) : rtMqTake q = none := by
  have count : q.entry = 0 := lists.entry
  rw [rtMqTake, if_pos count]

/-- Putting a slot back makes it the first free one. -/
theorem Lists.release {msg : Nat} (lists : Lists pool stop q [msg] msgs frees)
    (spaced : Spaced pool) : Lists pool stop (rtMqRelease q msg) [] msgs (msg :: frees) := by
  have nodup := lists.nodup spaced
  rw [List.nodup_append] at nodup
  have other : ∀ a ∈ msgs ++ frees, a ≠ msg := fun a member =>
    nodup.2.2 a member msg (List.mem_singleton_self _)
  refine ⟨?_, ?_, ?_, lists.tail, lists.entry⟩
  · apply List.Perm.trans _ lists.share
    simp only [List.append_nil]
    exact (List.perm_middle.trans (List.perm_append_singleton msg _).symm)
  · apply lists.messages.congr
    intro a member
    exact write_other (other a (List.mem_append_left _ member))
  · refine ⟨rfl, ?_⟩
    show Linked (write q.mem msg q.free) (write q.mem msg q.free msg) frees stop
    rw [write_same]
    apply lists.unused.congr
    intro a member
    exact write_other (other a (List.mem_append_right _ member))

theorem Lists.payload_release {msg b : Nat} (lists : Lists pool stop q [msg] msgs frees)
    (spaced : Spaced pool) (member : b ∈ msgs) :
    payload (rtMqRelease q msg).mem b = payload q.mem b := by
  have nodup := lists.nodup spaced
  have other : b ≠ msg := (List.nodup_append.mp nodup).2.2 b (List.mem_append_left _ member) msg
    (List.mem_singleton_self _)
  have apart := spaced.apart b (lists.mem_pool (by simp [member])) msg
    (lists.mem_pool (by simp)) other
  show (write q.mem msg q.free (b + 1), write q.mem msg q.free (b + 2)) = _
  rw [write_other (by omega), write_other (by omega), payload]

theorem fillSlot_other {mem : Words} {msg dev size x : Nat} (outside : x < msg ∨ msg + 2 < x) :
    fillSlot mem msg dev size x = mem x := by
  rw [fillSlot, write_other (by omega), write_other (by omega), write_other (by omega)]

theorem fillSlot_link (mem : Words) (msg dev size : Nat) : fillSlot mem msg dev size msg = 0 := by
  rw [fillSlot, write_other (by omega), write_other (by omega), write_same]

theorem payload_fillSlot (mem : Words) (msg dev size : Nat) :
    payload (fillSlot mem msg dev size) msg = (dev, size) := by
  rw [payload, fillSlot, write_other (by omega), write_same, write_same]

theorem hook_other {mem : Words} {tail msg x : Nat} (other : tail ≠ 0 → x ≠ tail) :
    hook mem tail msg x = mem x := by
  unfold hook
  split
  · rename_i queued
    exact write_other (other queued)
  · rfl

theorem hook_tail {mem : Words} {tail msg : Nat} (queued : tail ≠ 0) :
    hook mem tail msg tail = msg := by
  rw [hook, if_pos queued, write_same]

/-- The tail is the last message, or no slot at all. -/
theorem Lists.tail_cases (lists : Lists pool stop q hand msgs frees) :
    (msgs = [] ∧ q.tail = 0) ∨ ∃ front, msgs = front ++ [q.tail] := by
  have tail := lists.tail
  rcases List.eq_nil_or_concat' msgs with empty | ⟨front, last, ends⟩
  · rw [empty] at tail
    exact .inl ⟨empty, tail⟩
  · rw [ends, List.getLast?_concat, Option.getD_some] at tail
    exact .inr ⟨front, by rw [tail, ends]⟩

theorem Lists.tail_mem (lists : Lists pool stop q hand msgs frees) (queued : q.tail ≠ 0) :
    q.tail ∈ msgs := by
  rcases lists.tail_cases with ⟨_, none⟩ | ⟨front, ends⟩
  · exact (queued none).elim
  · rw [ends]
    exact List.mem_append_right _ (List.mem_singleton_self _)

/-- The slot that a send takes is none of the others. -/
theorem Lists.apart {a : Nat} (lists : Lists pool stop q hand msgs (a :: frees))
    (spaced : Spaced pool) {b : Nat} (member : b ∈ msgs ++ frees ++ hand) :
    b ∈ pool ∧ (b + 2 < a ∨ a + 2 < b) := by
  have moved : (msgs ++ a :: frees ++ hand).Perm (a :: (msgs ++ frees ++ hand)) := by
    simpa only [List.append_assoc, List.cons_append] using List.perm_middle
  have fresh : a ∉ msgs ++ frees ++ hand :=
    (List.nodup_cons.mp (moved.nodup_iff.mp (lists.nodup spaced))).1
  have inPool : b ∈ pool := lists.mem_pool (moved.mem_iff.mpr (List.mem_cons_of_mem _ member))
  refine ⟨inPool, spaced.apart b inPool a (lists.mem_pool (by simp)) ?_⟩
  intro same
  exact fresh (same ▸ member)

theorem Lists.frees_not_tail (lists : Lists pool stop q hand msgs frees) (spaced : Spaced pool)
    {b : Nat} (member : b ∈ frees) (queued : q.tail ≠ 0) : b ≠ q.tail := by
  intro same
  have nodup := (List.nodup_append.mp (lists.nodup spaced)).1
  exact (List.nodup_append.mp nodup).2.2 q.tail (lists.tail_mem queued) b member same.symm

/-- The queue behind a send into the slot `a`. -/
def sent (q : MessageQueue) (a dev size : Nat) : MessageQueue where
  mem := hook (fillSlot q.mem a dev size) q.tail a
  head := if q.head = 0 then a else q.head
  tail := a
  free := q.mem a
  entry := q.entry + 1

theorem sent_mem_other {a dev size x : Nat} (outside : x < a ∨ a + 2 < x)
    (other : q.tail ≠ 0 → x ≠ q.tail) : (sent q a dev size).mem x = q.mem x := by
  show hook (fillSlot q.mem a dev size) q.tail a x = q.mem x
  rw [hook_other other, fillSlot_other outside]

theorem Lists.sent_messages {a : Nat} (lists : Lists pool stop q hand msgs (a :: frees))
    (spaced : Spaced pool) (dev size : Nat) :
    Linked (sent q a dev size).mem (sent q a dev size).head (msgs ++ [a]) 0 := by
  have link : q.tail ≠ a → (sent q a dev size).mem a = 0 := by
    intro away
    show hook (fillSlot q.mem a dev size) q.tail a a = 0
    rw [hook_other (fun _ => away.symm), fillSlot_link]
  have messages := lists.messages
  rcases lists.tail_cases with ⟨empty, none⟩ | ⟨front, ends⟩
  · rw [empty] at messages ⊢
    refine ⟨if_pos messages, link ?_⟩
    rw [none]
    exact (spaced.valid a (lists.mem_pool (by simp))).symm
  · have tailMem : q.tail ∈ msgs := by
      rw [ends]
      exact List.mem_append_right _ (List.mem_singleton_self _)
    obtain ⟨tailPool, tailApart⟩ := lists.apart spaced (b := q.tail) (by simp [tailMem])
    have nodup := (List.nodup_append.mp (List.nodup_append.mp (lists.nodup spaced)).1).1
    rw [ends] at nodup
    have head : q.head ≠ 0 := by
      intro null
      cases msgs with
      | nil => exact List.not_mem_nil tailMem
      | cons b more =>
          rw [null] at messages
          exact spaced.valid b (lists.mem_pool (by simp)) messages.1.symm
    show Linked _ (if q.head = 0 then a else q.head) _ _
    rw [if_neg head]
    rw [ends] at messages
    have extended : Linked (sent q a dev size).mem q.head (front ++ [q.tail] ++ [a]) 0 := by
      apply messages.snoc
      · intro b member
        have inMsgs : b ∈ msgs := by
          rw [ends]
          exact List.mem_append_left _ member
        have apart := (lists.apart spaced (b := b) (by simp [inMsgs])).2
        apply sent_mem_other (by omega)
        intro _
        exact (List.nodup_append.mp nodup).2.2 b member q.tail (List.mem_singleton_self _)
      · exact hook_tail (spaced.valid _ tailPool)
      · exact link (by omega)
    rwa [← ends] at extended

/-- Sending fills the first free slot and hooks it behind the last message. -/
theorem Lists.send {a : Nat} (lists : Lists pool stop q hand msgs (a :: frees))
    (spaced : Spaced pool) (dev size : Nat) :
    rtMqSend q dev size = some (sent q a dev size) ∧
      Lists pool stop (sent q a dev size) hand (msgs ++ [a]) frees := by
  obtain ⟨free, later⟩ := lists.unused
  have valid := spaced.valid a (lists.mem_pool (by simp))
  refine ⟨by rw [rtMqSend, free, if_neg valid]; rfl, ?_,
    lists.sent_messages spaced dev size, ?_, ?_,
    ?_⟩
  · have same : msgs ++ [a] ++ frees ++ hand = msgs ++ a :: frees ++ hand := by simp
    rw [same]
    exact lists.share
  · apply later.congr
    intro b member
    have apart := (lists.apart spaced (b := b) (by simp [member])).2
    apply sent_mem_other (by omega)
    exact lists.frees_not_tail spaced (List.mem_cons_of_mem _ member)
  · show a = (msgs ++ [a]).getLast?.getD 0
    rw [List.getLast?_concat, Option.getD_some]
  · show q.entry + 1 = (msgs ++ [a]).length
    rw [lists.entry, List.length_append, List.length_singleton]

theorem Lists.payload_sent {a : Nat} (lists : Lists pool stop q hand msgs (a :: frees))
    (spaced : Spaced pool) (dev size : Nat) :
    payload (sent q a dev size).mem a = (dev, size) := by
  have away : ∀ k ≤ 2, q.tail ≠ 0 → a + k ≠ q.tail := by
    intro k inside queued
    have apart := (lists.apart spaced (b := q.tail) (by simp [lists.tail_mem queued])).2
    omega
  show (hook _ _ _ (a + 1), hook _ _ _ (a + 2)) = _
  rw [hook_other (away 1 (by decide)), hook_other (away 2 (by decide))]
  exact payload_fillSlot _ _ _ _

theorem Lists.payload_kept {a b : Nat} (lists : Lists pool stop q hand msgs (a :: frees))
    (spaced : Spaced pool) (dev size : Nat) (member : b ∈ msgs ++ hand) :
    payload (sent q a dev size).mem b = payload q.mem b := by
  obtain ⟨inPool, apart⟩ := lists.apart spaced (b := b) (by
    rcases List.mem_append.mp member with queued | held
    · simp [queued]
    · simp [held])
  have word : ∀ k, 0 < k → k ≤ 2 → (sent q a dev size).mem (b + k) = q.mem (b + k) := by
    intro k positive inside
    apply sent_mem_other (by omega)
    intro queued same
    by_cases here : b = q.tail
    · omega
    · obtain ⟨tailPool, _⟩ := lists.apart spaced (b := q.tail) (by simp [lists.tail_mem queued])
      have := spaced.apart b inPool q.tail tailPool here
      omega
  show ((sent q a dev size).mem (b + 1), (sent q a dev size).mem (b + 2)) = _
  rw [word 1 (by decide) (by decide), word 2 (by decide) (by decide), payload]

/-- A send writes nothing outside the slots. -/
theorem Lists.outside_kept {a x : Nat} (lists : Lists pool stop q hand msgs (a :: frees))
    (spaced : Spaced pool) (dev size : Nat) (outside : ∀ b ∈ pool, x < b ∨ b + 2 < x) :
    (sent q a dev size).mem x = q.mem x := by
  apply sent_mem_other (outside a (lists.mem_pool (by simp)))
  intro queued same
  obtain ⟨tailPool, _⟩ := lists.apart spaced (b := q.tail) (by simp [lists.tail_mem queued])
  have := outside q.tail tailPool
  omega

end

end KyokaMirror.RtThread
