import KyokaMirror.Library.Transition
import KyokaMirror.RtThread.Ipc

set_option autoImplicit false

namespace KyokaMirror.RtThread

open Library.Transition
open Function (update update_self update_of_ne)

/-- `struct rt_mutex`; `hold` is a byte. -/
structure Mutex where
  value : Nat
  owner : Option Nat
  originalPriority : Nat
  hold : Nat
  waiting : List Nat
  deriving DecidableEq, Repr

/-- Mutexes and threads. `blocked` is the mutex that a thread is suspended on,
and `depth t m` counts how often `t` has taken `m` without releasing it. -/
structure Mutexes where
  flag : Nat → IpcFlag
  mutex : Nat → Mutex
  priority : Nat → Nat
  blocked : Nat → Option Nat
  depth : Nat → Nat → Nat

def Mutexes.setDepth (s : Mutexes) (t m n : Nat) : Nat → Nat → Nat :=
  update s.depth t (update (s.depth t) m n)

/-- `rt_mutex_take` by the owner. -/
def takeAgain (s : Mutexes) (t m : Nat) : Mutexes :=
  { s with
    mutex := update s.mutex m { s.mutex m with hold := ((s.mutex m).hold + 1) % 256 }
    depth := s.setDepth t m (s.depth t m + 1) }

/-- `rt_mutex_take` of an available mutex. -/
def takeFree (s : Mutexes) (t m : Nat) : Mutexes :=
  { s with
    mutex := update s.mutex m { s.mutex m with
      value := (s.mutex m).value - 1
      owner := some t
      originalPriority := s.priority t
      hold := ((s.mutex m).hold + 1) % 256 }
    depth := s.setDepth t m (s.depth t m + 1) }

/-- `rt_mutex_take` of a mutex of the thread `o`, which inherits the priority. -/
def takeLater (s : Mutexes) (t m o : Nat) : Mutexes :=
  let priority := if s.priority t < s.priority o then update s.priority o (s.priority t) else s.priority
  { s with
    priority := priority
    mutex := update s.mutex m { s.mutex m with
      waiting := rtIpcListSuspend priority (s.flag m) t (s.mutex m).waiting }
    blocked := update s.blocked t (some m) }

/-- `rt_mutex_take`; `time` tells whether the thread may wait. `none` where the
owner of a taken mutex is `RT_NULL`. -/
def rtMutexTake (s : Mutexes) (t m : Nat) (time : Bool) : Option Mutexes :=
  if (s.mutex m).owner = some t then some (takeAgain s t m)
  else if (s.mutex m).value > 0 then some (takeFree s t m)
  else if time then (s.mutex m).owner.map (takeLater s t m)
  else some s

/-- `rt_mutex_release` that keeps the mutex. -/
def releaseOnce (s : Mutexes) (t m : Nat) : Mutexes :=
  { s with
    mutex := update s.mutex m { s.mutex m with hold := ((s.mutex m).hold + 255) % 256 }
    depth := s.setDepth t m (s.depth t m - 1) }

/-- The owner gets back its priority, and the first suspended thread the mutex. -/
def releaseTo (s : Mutexes) (t m w : Nat) (rest : List Nat) : Mutexes :=
  let priority := update s.priority t (s.mutex m).originalPriority
  let depth := s.setDepth t m (s.depth t m - 1)
  { s with
    priority := priority
    mutex := update s.mutex m { s.mutex m with
      owner := some w
      originalPriority := priority w
      hold := 1
      waiting := rest }
    blocked := update s.blocked w none
    depth := update depth w (update (depth w) m (depth w m + 1)) }

/-- The owner gets back its priority, and nobody waits. -/
def releaseFree (s : Mutexes) (t m : Nat) : Mutexes :=
  { s with
    priority := update s.priority t (s.mutex m).originalPriority
    mutex := update s.mutex m { s.mutex m with
      value := (s.mutex m).value + 1
      owner := none
      originalPriority := 0xff
      hold := 0 }
    depth := s.setDepth t m (s.depth t m - 1) }

def rtMutexRelease (s : Mutexes) (t m : Nat) : Mutexes :=
  if (s.mutex m).owner ≠ some t then s
  else if ((s.mutex m).hold + 255) % 256 = 0 then
    match (s.mutex m).waiting with
    | w :: rest => releaseTo s t m w rest
    | [] => releaseFree s t m
  else releaseOnce s t m

/-- `rt_thread_timeout` of a suspended thread. -/
def expire (s : Mutexes) (t m : Nat) : Mutexes :=
  { s with
    mutex := update s.mutex m { s.mutex m with waiting := (s.mutex m).waiting.filter (· ≠ t) }
    blocked := update s.blocked t none }

/-- A suspended thread does nothing but wait. -/
inductive MutexAction where
  | take (thread mutex : Nat) (time : Bool)
  | release (thread mutex : Nat)
  | expire (thread : Nat)

def mutexStep : MutexAction → Mutexes → Option Mutexes
  | .take t m time, s => if s.blocked t = none then rtMutexTake s t m time else none
  | .release t m, s => if s.blocked t = none then some (rtMutexRelease s t m) else none
  | .expire t, s => (s.blocked t).map (expire s t)

/-- `rt_mutex_init`. -/
def rtMutexInit : Mutex := ⟨1, none, 0xff, 0, []⟩

def initMutexes (flag : Nat → IpcFlag) (base : Nat → Nat) : Mutexes :=
  ⟨flag, fun _ => rtMutexInit, base, fun _ => none, fun _ _ => 0⟩

/-- The state of one mutex. -/
inductive Held (s : Mutexes) (m : Nat) : Prop
  | free (value : (s.mutex m).value = 1) (owner : (s.mutex m).owner = none)
      (hold : (s.mutex m).hold = 0) (waiting : (s.mutex m).waiting = [])
      (unheld : ∀ t, s.depth t m = 0)
  | taken (t : Nat) (value : (s.mutex m).value = 0) (owner : (s.mutex m).owner = some t)
      (positive : 0 < s.depth t m) (bound : s.depth t m ≤ 256)
      (hold : (s.mutex m).hold = s.depth t m % 256)
      (others : ∀ t', t' ≠ t → s.depth t' m = 0) (absent : t ∉ (s.mutex m).waiting)

structure Exclusive (s : Mutexes) : Prop where
  held : ∀ m, Held s m
  nodup : ∀ m, (s.mutex m).waiting.Nodup
  blocked : ∀ m t, t ∈ (s.mutex m).waiting ↔ s.blocked t = some m

section

variable {s s' : Mutexes} {t m o w : Nat}

theorem setDepth_self (n : Nat) : s.setDepth t m n t m = n := by
  rw [Mutexes.setDepth, update_self, update_self]

theorem setDepth_mutex {m' : Nat} (other : m' ≠ m) (n t' : Nat) :
    s.setDepth t m n t' m' = s.depth t' m' := by
  rw [Mutexes.setDepth]
  by_cases same : t' = t
  · rw [same, update_self, update_of_ne other]
  · rw [update_of_ne same]

theorem setDepth_thread {t' : Nat} (other : t' ≠ t) (n m' : Nat) :
    s.setDepth t m n t' m' = s.depth t' m' := by
  rw [Mutexes.setDepth, update_of_ne other]

/-- A mutex that is not touched. -/
theorem Held.frame {m' : Nat} (held : Held s m') (same : s'.mutex m' = s.mutex m')
    (depths : ∀ t, s'.depth t m' = s.depth t m') : Held s' m' := by
  cases held with
  | free value owner hold waiting unheld =>
      rw [← same] at value owner hold waiting
      exact .free value owner hold waiting fun t => (depths t).trans (unheld t)
  | taken t value owner positive bound hold others absent =>
      rw [← same, ← depths] at hold
      rw [← same] at value owner absent
      rw [← depths] at positive bound
      exact .taken t value owner positive bound hold
        (fun t' other => (depths t').trans (others t' other)) absent

theorem Exclusive.owner_taken (ex : Exclusive s) (owner : (s.mutex m).owner = some t) :
    (s.mutex m).value = 0 ∧ 0 < s.depth t m ∧ s.depth t m ≤ 256 ∧
      (s.mutex m).hold = s.depth t m % 256 ∧ (∀ t', t' ≠ t → s.depth t' m = 0) ∧
      t ∉ (s.mutex m).waiting := by
  cases ex.held m with
  | free _ none => rw [owner] at none; cases none
  | taken u value owner' positive bound hold others absent =>
      obtain rfl := Option.some.inj (owner.symm.trans owner')
      exact ⟨value, positive, bound, hold, others, absent⟩

/-- A step that changes one mutex. -/
theorem Exclusive.change {M : Mutex} (ex : Exclusive s) (mutex : s'.mutex = update s.mutex m M)
    (depths : ∀ m', m' ≠ m → ∀ t, s'.depth t m' = s.depth t m') (held : Held s' m)
    (nodup : M.waiting.Nodup) (here : ∀ t, t ∈ M.waiting ↔ s'.blocked t = some m)
    (elsewhere : ∀ t m', m' ≠ m → (s'.blocked t = some m' ↔ s.blocked t = some m')) :
    Exclusive s' := by
  have same : s'.mutex m = M := by rw [mutex, update_self]
  have other : ∀ m', m' ≠ m → s'.mutex m' = s.mutex m' := by
    intro m' ne
    rw [mutex, update_of_ne ne]
  refine ⟨?_, ?_, ?_⟩
  · intro m'
    by_cases equal : m' = m
    · rw [equal]
      exact held
    · exact (ex.held m').frame (other m' equal) (depths m' equal)
  · intro m'
    by_cases equal : m' = m
    · rw [equal, same]
      exact nodup
    · rw [other m' equal]
      exact ex.nodup m'
  · intro m' t
    by_cases equal : m' = m
    · rw [equal, same]
      exact here t
    · rw [other m' equal, elsewhere t m' equal]
      exact ex.blocked m' t

theorem Exclusive.takeAgain (ex : Exclusive s) (owner : (s.mutex m).owner = some t)
    (room : s.depth t m < 256) : Exclusive (takeAgain s t m) := by
  obtain ⟨value, positive, _, hold, others, absent⟩ := ex.owner_taken owner
  refine ex.change rfl (fun m' other t' => setDepth_mutex other _ t') ?_ (ex.nodup m)
    (ex.blocked m) fun _ _ _ => Iff.rfl
  refine .taken t ?_ ?_ ?_ ?_ ?_ ?_ ?_
  · simp only [RtThread.takeAgain, update_self, value]
  · simp only [RtThread.takeAgain, update_self, owner]
  · simp only [RtThread.takeAgain, setDepth_self]
    omega
  · simp only [RtThread.takeAgain, setDepth_self]
    omega
  · simp only [RtThread.takeAgain, update_self, setDepth_self, hold]
    omega
  · intro t' other
    simp only [RtThread.takeAgain, setDepth_thread other]
    exact others t' other
  · simp only [RtThread.takeAgain, update_self]
    exact absent

theorem Exclusive.takeFree (ex : Exclusive s) (available : (s.mutex m).value > 0) :
    Exclusive (takeFree s t m) := by
  cases ex.held m with
  | taken _ value => omega
  | free value owner hold waiting unheld =>
      refine ex.change rfl (fun m' other t' => setDepth_mutex other _ t') ?_ (ex.nodup m)
        (ex.blocked m) fun _ _ _ => Iff.rfl
      refine .taken t ?_ ?_ ?_ ?_ ?_ ?_ ?_
      · simp only [RtThread.takeFree, update_self, value]
      · simp only [RtThread.takeFree, update_self]
      · simp only [RtThread.takeFree, setDepth_self]
        omega
      · simp only [RtThread.takeFree, setDepth_self, unheld]
        omega
      · simp only [RtThread.takeFree, update_self, setDepth_self, hold, unheld]
      · intro t' other
        simp only [RtThread.takeFree, setDepth_thread other]
        exact unheld t'
      · simp only [RtThread.takeFree, update_self, waiting]
        exact List.not_mem_nil

theorem Exclusive.takeLater (ex : Exclusive s) (owner : (s.mutex m).owner = some o) (other : t ≠ o)
    (running : s.blocked t = none) : Exclusive (takeLater s t m o) := by
  obtain ⟨value, positive, bound, hold, others, absent⟩ := ex.owner_taken owner
  have fresh : t ∉ (s.mutex m).waiting := by
    rw [ex.blocked m t, running]
    exact Option.some_ne_none m ∘ Eq.symm
  refine ex.change rfl (fun _ _ _ => rfl) ?_ ?_ ?_ ?_
  · refine .taken o ?_ ?_ positive bound ?_ others ?_
    · simp only [RtThread.takeLater, update_self, value]
    · simp only [RtThread.takeLater, update_self, owner]
    · simp only [RtThread.takeLater, update_self, hold]
    · simp only [RtThread.takeLater, update_self, mem_rtIpcListSuspend]
      rintro (rfl | inside)
      · exact other rfl
      · exact absent inside
  · exact (rtIpcListSuspend_perm _ _ _).nodup_iff.mpr (List.nodup_cons.mpr ⟨fresh, ex.nodup m⟩)
  · intro t'
    simp only [RtThread.takeLater, mem_rtIpcListSuspend]
    by_cases same : t' = t
    · rw [same, update_self]
      simp only [true_or]
    · rw [update_of_ne same, ex.blocked m t']
      simp only [same, false_or]
  · intro t' m' ne
    simp only [RtThread.takeLater]
    by_cases same : t' = t
    · rw [same, update_self, running]
      simp only [Option.some.injEq, reduceCtorEq, iff_false]
      exact Ne.symm ne
    · rw [update_of_ne same]

/-- The last release: the owner has taken the mutex once. -/
theorem depth_of_hold (ex : Exclusive s) (owner : (s.mutex m).owner = some t) :
    ((s.mutex m).hold + 255) % 256 = 0 ↔ s.depth t m = 1 := by
  obtain ⟨_, positive, bound, hold, _, _⟩ := ex.owner_taken owner
  rw [hold]
  omega

theorem Exclusive.releaseOnce (ex : Exclusive s) (owner : (s.mutex m).owner = some t)
    (more : s.depth t m ≠ 1) : Exclusive (releaseOnce s t m) := by
  obtain ⟨value, positive, bound, hold, others, absent⟩ := ex.owner_taken owner
  refine ex.change rfl (fun m' other t' => setDepth_mutex other _ t') ?_ (ex.nodup m)
    (ex.blocked m) fun _ _ _ => Iff.rfl
  refine .taken t ?_ ?_ ?_ ?_ ?_ ?_ ?_
  · simp only [RtThread.releaseOnce, update_self, value]
  · simp only [RtThread.releaseOnce, update_self, owner]
  · simp only [RtThread.releaseOnce, setDepth_self]
    omega
  · simp only [RtThread.releaseOnce, setDepth_self]
    omega
  · simp only [RtThread.releaseOnce, update_self, setDepth_self, hold]
    omega
  · intro t' other
    simp only [RtThread.releaseOnce, setDepth_thread other]
    exact others t' other
  · simp only [RtThread.releaseOnce, update_self]
    exact absent

theorem Exclusive.releaseFree (ex : Exclusive s) (owner : (s.mutex m).owner = some t)
    (last : s.depth t m = 1) (nobody : (s.mutex m).waiting = []) : Exclusive (releaseFree s t m) := by
  obtain ⟨value, _, _, _, others, _⟩ := ex.owner_taken owner
  refine ex.change rfl (fun m' other t' => setDepth_mutex other _ t') ?_ (ex.nodup m)
    (ex.blocked m) fun _ _ _ => Iff.rfl
  refine .free ?_ ?_ ?_ ?_ ?_
  · simp only [RtThread.releaseFree, update_self, value]
  · simp only [RtThread.releaseFree, update_self]
  · simp only [RtThread.releaseFree, update_self]
  · simp only [RtThread.releaseFree, update_self, nobody]
  · intro t'
    by_cases same : t' = t
    · rw [same]
      simp only [RtThread.releaseFree, setDepth_self, last]
    · simp only [RtThread.releaseFree, setDepth_thread same]
      exact others t' same

/-- The counts behind a release that hands the mutex over. -/
theorem releaseTo_depth (rest : List Nat) (next : w ≠ t) (last : s.depth t m = 1)
    (none : s.depth w m = 0) :
    (releaseTo s t m w rest).depth w m = 1 ∧ (releaseTo s t m w rest).depth t m = 0 ∧
      (∀ t', t' ≠ w → t' ≠ t → (releaseTo s t m w rest).depth t' m = s.depth t' m) ∧
      ∀ m', m' ≠ m → ∀ t', (releaseTo s t m w rest).depth t' m' = s.depth t' m' := by
  simp only [releaseTo]
  refine ⟨?_, ?_, ?_, ?_⟩
  · rw [update_self, update_self, setDepth_thread next, none]
  · rw [update_of_ne (Ne.symm next), setDepth_self, last]
  · intro t' first second
    rw [update_of_ne first, setDepth_thread second]
  · intro m' other t'
    by_cases same : t' = w
    · rw [same, update_self, update_of_ne other, setDepth_mutex other]
    · rw [update_of_ne same, setDepth_mutex other]

theorem Exclusive.releaseTo {rest : List Nat} (ex : Exclusive s)
    (owner : (s.mutex m).owner = some t) (last : s.depth t m = 1)
    (waiting : (s.mutex m).waiting = w :: rest) : Exclusive (releaseTo s t m w rest) := by
  obtain ⟨value, _, _, _, others, absent⟩ := ex.owner_taken owner
  have nodup := ex.nodup m
  rw [waiting] at nodup absent
  obtain ⟨fresh, nodup⟩ := List.nodup_cons.mp nodup
  have next : w ≠ t := fun same => absent (same ▸ List.mem_cons_self)
  have asleep : s.blocked w = some m := (ex.blocked m w).mp (by rw [waiting]; exact List.mem_cons_self)
  obtain ⟨mine, its, theirs, elsewhere⟩ := releaseTo_depth rest next last (others w next)
  refine ex.change rfl elsewhere ?_ nodup ?_ ?_
  · refine .taken w ?_ ?_ ?_ ?_ ?_ ?_ ?_
    · simp only [RtThread.releaseTo, update_self, value]
    · simp only [RtThread.releaseTo, update_self]
    · rw [mine]
      exact Nat.one_pos
    · rw [mine]
      omega
    · rw [mine]
      simp only [RtThread.releaseTo, update_self]
    · intro t' other
      by_cases same : t' = t
      · rw [same, its]
      · rw [theirs t' other same, others t' same]
    · simp only [RtThread.releaseTo, update_self]
      exact fresh
  · intro t'
    simp only [RtThread.releaseTo]
    by_cases same : t' = w
    · rw [same, update_self]
      exact iff_of_false fresh (fun equal => by cases equal)
    · rw [update_of_ne same, ← ex.blocked m t', waiting, List.mem_cons]
      simp only [same, false_or]
  · intro t' m' other
    simp only [RtThread.releaseTo]
    by_cases same : t' = w
    · rw [same, update_self, asleep]
      simp only [reduceCtorEq, Option.some.injEq, false_iff]
      exact Ne.symm other
    · rw [update_of_ne same]

theorem Exclusive.expire (ex : Exclusive s) (asleep : s.blocked t = some m) :
    Exclusive (expire s t m) := by
  refine ex.change rfl (fun _ _ _ => rfl) ?_ ((ex.nodup m).filter _) ?_ ?_
  · cases ex.held m with
    | free value owner hold waiting unheld =>
        have waits := (ex.blocked m t).mpr asleep
        rw [waiting] at waits
        cases waits
    | taken o value owner positive bound hold others absent =>
        refine .taken o ?_ ?_ positive bound ?_ others ?_
        · simp only [RtThread.expire, update_self, value]
        · simp only [RtThread.expire, update_self, owner]
        · simp only [RtThread.expire, update_self, hold]
        · simp only [RtThread.expire, update_self]
          exact fun member => absent (List.mem_filter.mp member).1
  · intro t'
    simp only [RtThread.expire, List.mem_filter, decide_eq_true_eq, ne_eq]
    by_cases same : t' = t
    · rw [same, update_self]
      simp only [not_true_eq_false, and_false, reduceCtorEq]
    · rw [update_of_ne same, ex.blocked m t']
      simp only [same, not_false_eq_true, and_true]
  · intro t' m' other
    simp only [RtThread.expire]
    by_cases same : t' = t
    · rw [same, update_self, asleep]
      simp only [reduceCtorEq, Option.some.injEq, false_iff]
      exact Ne.symm other
    · rw [update_of_ne same]

/-- What a step can do. -/
inductive MutexChange (s : Mutexes) : MutexAction → Mutexes → Prop
  | stays (action : MutexAction) : MutexChange s action s
  | takeAgain (t m : Nat) (time : Bool) (owner : (s.mutex m).owner = some t) :
      MutexChange s (.take t m time) (takeAgain s t m)
  | takeFree (t m : Nat) (time : Bool) (available : (s.mutex m).value > 0) :
      MutexChange s (.take t m time) (takeFree s t m)
  | takeLater (t m o : Nat) (time : Bool) (owner : (s.mutex m).owner = some o) (other : t ≠ o)
      (running : s.blocked t = none) : MutexChange s (.take t m time) (takeLater s t m o)
  | releaseOnce (t m : Nat) (owner : (s.mutex m).owner = some t) (more : s.depth t m ≠ 1) :
      MutexChange s (.release t m) (releaseOnce s t m)
  | releaseTo (t m w : Nat) (rest : List Nat) (owner : (s.mutex m).owner = some t)
      (last : s.depth t m = 1) (waiting : (s.mutex m).waiting = w :: rest)
      (running : s.blocked t = none) : MutexChange s (.release t m) (releaseTo s t m w rest)
  | releaseFree (t m : Nat) (owner : (s.mutex m).owner = some t) (last : s.depth t m = 1)
      (nobody : (s.mutex m).waiting = []) : MutexChange s (.release t m) (releaseFree s t m)
  | expire (t m : Nat) (asleep : s.blocked t = some m) : MutexChange s (.expire t) (expire s t m)

theorem mutexStep_cases (ex : Exclusive s) {action : MutexAction}
    (taken : mutexStep action s = some s') : MutexChange s action s' := by
  cases action with
  | take t m time =>
      rw [mutexStep] at taken
      split at taken
      · rename_i running
        rw [rtMutexTake] at taken
        split at taken
        · rename_i owner
          obtain rfl := Option.some.inj taken
          exact .takeAgain t m time owner
        · rename_i other
          split at taken
          · rename_i available
            obtain rfl := Option.some.inj taken
            exact .takeFree t m time available
          · split at taken
            · obtain ⟨o, owner, rfl⟩ := Option.map_eq_some_iff.mp taken
              have ne : t ≠ o := fun same => other (same ▸ owner)
              exact .takeLater t m o time owner ne running
            · obtain rfl := Option.some.inj taken
              exact .stays _
      · cases taken
  | release t m =>
      rw [mutexStep] at taken
      split at taken
      · rename_i running
        obtain rfl := Option.some.inj taken
        rw [rtMutexRelease]
        split
        · exact .stays _
        · rename_i mine
          have owner : (s.mutex m).owner = some t := Classical.not_not.mp mine
          have count := depth_of_hold ex owner
          split
          · rename_i zero
            split
            · rename_i w rest waiting
              exact .releaseTo t m w rest owner (count.mp zero) waiting running
            · rename_i nobody
              exact .releaseFree t m owner (count.mp zero) nobody
          · rename_i nonzero
            exact .releaseOnce t m owner fun last => nonzero (count.mpr last)
      · cases taken
  | expire t =>
      rw [mutexStep] at taken
      obtain ⟨m, asleep, rfl⟩ := Option.map_eq_some_iff.mp taken
      exact .expire t m asleep

/-- `hold` is a byte: no thread takes a mutex for the 257th time. -/
def Shallow (action : MutexAction) (s : Mutexes) : Prop :=
  match action with
  | .take t m _ => s.depth t m < 256
  | _ => True

theorem Exclusive.step (ex : Exclusive s) {action : MutexAction} (shallow : Shallow action s)
    (change : MutexChange s action s') : Exclusive s' := by
  cases change with
  | stays => exact ex
  | takeAgain t m time owner => exact ex.takeAgain owner shallow
  | takeFree t m time available => exact ex.takeFree available
  | takeLater t m o time owner other running => exact ex.takeLater owner other running
  | releaseOnce t m owner more => exact ex.releaseOnce owner more
  | releaseTo t m w rest owner last waiting running => exact ex.releaseTo owner last waiting
  | releaseFree t m owner last nobody => exact ex.releaseFree owner last nobody
  | expire t m asleep => exact ex.expire asleep

theorem exclusive_init (flag : Nat → IpcFlag) (base : Nat → Nat) :
    Exclusive (initMutexes flag base) := by
  refine ⟨fun m => .free rfl rfl rfl rfl fun _ => rfl, fun m => List.nodup_nil, ?_⟩
  intro m t
  exact iff_of_false List.not_mem_nil (fun equal => by cases equal)

/-- Whoever takes and releases which mutex and whenever waiting times end: two
threads never hold a mutex, nobody waits for a free one, and `rt_mutex_take`
finds an owner wherever it looks for one. -/
theorem mutex_exclusion (flag : Nat → IpcFlag) (base : Nat → Nat) {actions : List MutexAction}
    {s : Mutexes} (reached : run mutexStep actions (initMutexes flag base) = some s)
    (shallow : Each mutexStep (fun a s _ => Shallow a s) actions (initMutexes flag base)) :
    (∀ m t t', 0 < s.depth t m → 0 < s.depth t' m → t = t') ∧
      (∀ m, (s.mutex m).waiting ≠ [] → ∃ t, (s.mutex m).owner = some t ∧ 0 < s.depth t m) ∧
      ∀ t m time, (rtMutexTake s t m time).isSome := by
  have ex : Exclusive s := shallow.invariant Exclusive
    (fun a u v inv side taken => inv.step side (mutexStep_cases inv taken))
    (exclusive_init flag base) reached
  refine ⟨?_, ?_, ?_⟩
  · intro m t t' first second
    cases ex.held m with
    | free _ _ _ _ unheld =>
        have := unheld t
        omega
    | taken o _ _ _ _ _ others =>
        have mine : t = o := by
          by_contra other
          have := others t other
          omega
        have its : t' = o := by
          by_contra other
          have := others t' other
          omega
        rw [mine, its]
  · intro m waits
    cases ex.held m with
    | free _ _ _ waiting _ => exact absurd waiting waits
    | taken o _ owner positive => exact ⟨o, owner, positive⟩
  · intro t m time
    rw [rtMutexTake]
    split
    · rfl
    · split
      · rfl
      · rename_i unavailable
        split
        · cases ex.held m with
          | free value => omega
          | taken o _ owner => rw [owner]; rfl
        · rfl

end

theorem mutex_exclusion_handed : ∃ s,
    run mutexStep [.take 1 0 true, .take 2 0 true, .release 1 0]
      (initMutexes (fun _ => .prio) fun t => 10 - t) = some s ∧
    (∀ m t t', 0 < s.depth t m → 0 < s.depth t' m → t = t') := by
  have shallow : Each mutexStep (fun a s _ => Shallow a s)
      [.take 1 0 true, .take 2 0 true, .release 1 0]
      (initMutexes (fun _ => .prio) fun t => 10 - t) :=
    And.intro (show 0 < 256 by decide) (And.intro (show 0 < 256 by decide) ⟨trivial, trivial⟩)
  exact ⟨_, rfl, (mutex_exclusion (fun _ => .prio) (fun t => 10 - t) rfl shallow).1⟩

end KyokaMirror.RtThread
