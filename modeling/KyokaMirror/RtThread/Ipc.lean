import Mathlib.Data.List.Sort

set_option autoImplicit false

namespace KyokaMirror.RtThread

/-- `RT_IPC_FLAG_FIFO` and `RT_IPC_FLAG_PRIO`. -/
inductive IpcFlag where
  | fifo
  | prio
  deriving DecidableEq, Repr

section

variable {α : Type} (priority : α → Nat)

/-- `rt_ipc_list_suspend`: a thread joins the list of an IPC object, behind the
others or before the first one of lower priority. -/
def rtIpcListSuspend (flag : IpcFlag) (thread : α) (list : List α) : List α :=
  match flag with
  | .fifo => list ++ [thread]
  | .prio => list.orderedInsert (fun a b => priority a < priority b) thread

variable {priority}

theorem rtIpcListSuspend_perm (flag : IpcFlag) (thread : α) (list : List α) :
    (rtIpcListSuspend priority flag thread list).Perm (thread :: list) := by
  cases flag with
  | fifo => exact List.perm_append_singleton thread list
  | prio => exact List.perm_orderedInsert _ thread list

theorem mem_rtIpcListSuspend {flag : IpcFlag} {thread other : α} {list : List α} :
    other ∈ rtIpcListSuspend priority flag thread list ↔ other = thread ∨ other ∈ list :=
  (rtIpcListSuspend_perm flag thread list).mem_iff.trans List.mem_cons

/-- With `RT_IPC_FLAG_PRIO` the list stays in the order of the priorities. -/
theorem rtIpcListSuspend_sorted {list : List α}
    (sorted : list.Pairwise fun a b => priority a ≤ priority b) (thread : α) :
    (rtIpcListSuspend priority .prio thread list).Pairwise fun a b => priority a ≤ priority b := by
  induction list with
  | nil => exact List.pairwise_singleton _ _
  | cons first rest ih =>
      obtain ⟨lowest, later⟩ := List.pairwise_cons.mp sorted
      simp only [rtIpcListSuspend] at ih ⊢
      rw [List.orderedInsert_cons]
      split
      · rename_i before
        refine List.pairwise_cons.mpr ⟨?_, sorted⟩
        refine List.forall_mem_cons.mpr ⟨by omega, ?_⟩
        intro other member
        have := lowest other member
        omega
      · rename_i behind
        refine List.pairwise_cons.mpr ⟨?_, ih later⟩
        intro other member
        rcases List.mem_cons.mp ((List.perm_orderedInsert _ thread rest).mem_iff.mp member) with
          rfl | old
        · omega
        · exact lowest other old

end

end KyokaMirror.RtThread
