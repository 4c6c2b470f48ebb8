import KyokaMirror.RtThread.Mutex

set_option autoImplicit false

namespace KyokaMirror.RtThread

open Library.Transition
open Function (update update_self update_of_ne)

/-- The priorities of the threads, which start with `base`, while no thread has
two mutexes. -/
structure Inherits (base : Nat → Nat) (s : Mutexes) : Prop where
  single : ∀ t m m', 0 < s.depth t m → 0 < s.depth t m' → m = m'
  resting : ∀ t, (∀ m, s.depth t m = 0) → s.priority t = base t
  asleep : ∀ t m, s.blocked t = some m → ∀ m', s.depth t m' = 0
  original : ∀ m t, (s.mutex m).owner = some t → (s.mutex m).originalPriority = base t
  raised : ∀ m t, (s.mutex m).owner = some t → ∀ w ∈ (s.mutex m).waiting, s.priority t ≤ base w
  sorted : ∀ m, (s.mutex m).waiting.Pairwise fun a b => base a ≤ base b

section

variable {base : Nat → Nat} {s s' : Mutexes} {t m o w : Nat}

theorem Inherits.waiting_base (inherits : Inherits base s) (ex : Exclusive s)
    (member : w ∈ (s.mutex m).waiting) : s.priority w = base w :=
  inherits.resting w (inherits.asleep w m ((ex.blocked m w).mp member))

/-- An owner of another mutex is another thread. -/
theorem Inherits.owner_ne {m' : Nat} (inherits : Inherits base s) (ex : Exclusive s)
    (owner : (s.mutex m).owner = some t) (owner' : (s.mutex m').owner = some o) (other : m' ≠ m) :
    o ≠ t := by
  rintro rfl
  exact other (inherits.single o m' m (ex.owner_taken owner').2.1 (ex.owner_taken owner).2.1)

/-- The owner of a mutex is not suspended. -/
theorem Inherits.owner_awake {m' : Nat} (inherits : Inherits base s) (ex : Exclusive s)
    (owner : (s.mutex m).owner = some t) (member : w ∈ (s.mutex m').waiting) : w ≠ t := by
  rintro rfl
  have zero := inherits.asleep w m' ((ex.blocked m' w).mp member) m
  have := (ex.owner_taken owner).2.1
  omega

/-- What a step has to keep where it changes one mutex. -/
theorem Inherits.change {M : Mutex} (inherits : Inherits base s)
    (mutex : s'.mutex = update s.mutex m M)
    (single : ∀ t m m', 0 < s'.depth t m → 0 < s'.depth t m' → m = m')
    (resting : ∀ t, (∀ m, s'.depth t m = 0) → s'.priority t = base t)
    (asleep : ∀ t m, s'.blocked t = some m → ∀ m', s'.depth t m' = 0)
    (here : ∀ t, M.owner = some t → M.originalPriority = base t ∧
      ∀ w ∈ M.waiting, s'.priority t ≤ base w)
    (elsewhere : ∀ m' t, m' ≠ m → (s.mutex m').owner = some t → s'.priority t ≤ s.priority t)
    (sorted : M.waiting.Pairwise fun a b => base a ≤ base b) : Inherits base s' := by
  have same : s'.mutex m = M := by rw [mutex, update_self]
  have other : ∀ m', m' ≠ m → s'.mutex m' = s.mutex m' := by
    intro m' ne
    rw [mutex, update_of_ne ne]
  refine ⟨single, resting, asleep, ?_, ?_, ?_⟩
  · intro m' t owner
    by_cases equal : m' = m
    · rw [equal, same] at owner ⊢
      exact (here t owner).1
    · rw [other m' equal] at owner ⊢
      exact inherits.original m' t owner
  · intro m' t owner w member
    by_cases equal : m' = m
    · rw [equal, same] at owner member
      exact (here t owner).2 w member
    · rw [other m' equal] at owner member
      exact Nat.le_trans (elsewhere m' t equal owner) (inherits.raised m' t owner w member)
  · intro m'
    by_cases equal : m' = m
    · rw [equal, same]
      exact sorted
    · rw [other m' equal]
      exact inherits.sorted m'

/-- One thread's count of one mutex changes. -/
theorem single_setDepth {n : Nat} (inherits : Inherits base s)
    (alone : ∀ m', m' ≠ m → s.depth t m' = 0) (u m₁ m₂ : Nat)
    (first : 0 < s.setDepth t m n u m₁) (second : 0 < s.setDepth t m n u m₂) : m₁ = m₂ := by
  by_cases same : u = t
  · subst same
    have at_m : ∀ m', 0 < s.setDepth u m n u m' → m' = m := by
      intro m' positive
      by_contra other
      rw [setDepth_mutex other, alone m' other] at positive
      omega
    rw [at_m m₁ first, at_m m₂ second]
  · rw [setDepth_thread same] at first second
    exact inherits.single u m₁ m₂ first second

theorem asleep_setDepth {n : Nat} (inherits : Inherits base s) (awake : s.blocked t = none) :
    ∀ u m', s.blocked u = some m' → ∀ m'', s.setDepth t m n u m'' = 0 := by
  intro u m' blocked m''
  have other : u ≠ t := by
    rintro rfl
    rw [awake] at blocked
    cases blocked
  rw [setDepth_thread other]
  exact inherits.asleep u m' blocked m''

theorem resting_setDepth {n : Nat} (inherits : Inherits base s) (positive : 0 < n) :
    ∀ u, (∀ m', s.setDepth t m n u m' = 0) → s.priority u = base u := by
  intro u none
  have other : u ≠ t := by
    rintro rfl
    have := none m
    rw [setDepth_self] at this
    omega
  apply inherits.resting
  intro m'
  rw [← none m', setDepth_thread other]

theorem Inherits.alone (inherits : Inherits base s) (holds : 0 < s.depth t m) :
    ∀ m', m' ≠ m → s.depth t m' = 0 := by
  intro m' other
  by_contra positive
  exact other (inherits.single t m' m (by omega) holds)

theorem Inherits.owner_running (inherits : Inherits base s) (ex : Exclusive s)
    (owner : (s.mutex m).owner = some t) : s.blocked t = none := by
  have holds := (ex.owner_taken owner).2.1
  cases blocked : s.blocked t with
  | none => rfl
  | some m' =>
      have := inherits.asleep t m' blocked m
      omega

theorem Inherits.takeAgain (inherits : Inherits base s) (ex : Exclusive s)
    (owner : (s.mutex m).owner = some t) : Inherits base (takeAgain s t m) := by
  have holds := (ex.owner_taken owner).2.1
  refine inherits.change rfl (single_setDepth inherits (inherits.alone holds))
    (resting_setDepth inherits (Nat.succ_pos _))
    (asleep_setDepth inherits (inherits.owner_running ex owner)) ?_
    (fun _ _ _ _ => Nat.le_refl _) (inherits.sorted m)
  intro u mine
  exact ⟨inherits.original m u mine, inherits.raised m u mine⟩

theorem Inherits.takeFree (inherits : Inherits base s) (ex : Exclusive s)
    (available : (s.mutex m).value > 0) (awake : s.blocked t = none)
    (alone : ∀ m', m' ≠ m → s.depth t m' = 0) : Inherits base (takeFree s t m) := by
  cases ex.held m with
  | taken _ value => omega
  | free value owner hold waiting unheld =>
      have none : ∀ m', s.depth t m' = 0 := by
        intro m'
        by_cases same : m' = m
        · rw [same, unheld]
        · exact alone m' same
      refine inherits.change rfl (single_setDepth inherits alone)
        (resting_setDepth inherits (Nat.succ_pos _)) (asleep_setDepth inherits awake) ?_
        (fun _ _ _ _ => Nat.le_refl _) (inherits.sorted m)
      intro u mine
      obtain rfl := Option.some.inj mine
      refine ⟨inherits.resting t none, ?_⟩
      intro w member
      dsimp only at member
      rw [waiting] at member
      cases member

/-- Only the owner's priority changes, and it only rises. -/
theorem takeLater_priority (s : Mutexes) (t m o : Nat) :
    (takeLater s t m o).priority o ≤ s.priority o ∧
      (takeLater s t m o).priority o ≤ s.priority t ∧
      ∀ u, u ≠ o → (takeLater s t m o).priority u = s.priority u := by
  simp only [takeLater]
  split
  · rename_i higher
    rw [update_self]
    refine ⟨by omega, by omega, ?_⟩
    intro u ne
    rw [update_of_ne ne]
  · exact ⟨Nat.le_refl _, by omega, fun _ _ => rfl⟩

/-- Where the threads in the list have their own priorities, it stays in order. -/
theorem suspend_base_sorted {priority : Nat → Nat} {list : List Nat}
    (actual : ∀ u, u = t ∨ u ∈ list → priority u = base u)
    (sorted : list.Pairwise fun a b => base a ≤ base b) :
    (rtIpcListSuspend priority .prio t list).Pairwise fun a b => base a ≤ base b := by
  have before : list.Pairwise fun a b => priority a ≤ priority b := by
    apply sorted.imp_of_mem
    intro a b first second le
    rw [actual a (.inr first), actual b (.inr second)]
    exact le
  apply (rtIpcListSuspend_sorted before t).imp_of_mem
  intro a b first second le
  rw [actual a (mem_rtIpcListSuspend.mp first), actual b (mem_rtIpcListSuspend.mp second)] at le
  exact le

theorem Inherits.takeLater (inherits : Inherits base s) (ex : Exclusive s)
    (flag : s.flag m = .prio) (owner : (s.mutex m).owner = some o) (other : t ≠ o)
    (alone : ∀ m', m' ≠ m → s.depth t m' = 0) : Inherits base (takeLater s t m o) := by
  obtain ⟨_, positive, _, _, others, _⟩ := ex.owner_taken owner
  have none : ∀ m', s.depth t m' = 0 := by
    intro m'
    by_cases same : m' = m
    · rw [same, others t other]
    · exact alone m' same
  have mine := inherits.resting t none
  obtain ⟨falls, reaches, same⟩ := takeLater_priority s t m o
  rw [mine] at reaches
  refine inherits.change rfl inherits.single ?_ ?_ ?_ ?_ ?_
  · intro u zero
    have ne : u ≠ o := by
      rintro rfl
      have := zero m
      simp only [RtThread.takeLater] at this
      omega
    rw [same u ne]
    exact inherits.resting u zero
  · intro u m' blocked
    simp only [RtThread.takeLater] at blocked ⊢
    by_cases equal : u = t
    · rw [equal]
      exact none
    · rw [update_of_ne equal] at blocked
      exact inherits.asleep u m' blocked
  · intro u mine'
    obtain rfl := Option.some.inj (owner.symm.trans mine')
    refine ⟨inherits.original m o owner, ?_⟩
    intro w member
    rcases mem_rtIpcListSuspend.mp member with rfl | old
    · exact reaches
    · exact Nat.le_trans falls (inherits.raised m o owner w old)
  · intro m' u ne owner'
    by_cases equal : u = o
    · rw [equal]
      exact falls
    · rw [same u equal]
  · rw [flag]
    refine suspend_base_sorted ?_ (inherits.sorted m)
    rintro u (rfl | member)
    · exact (same u other).trans mine
    · exact (same u (inherits.owner_awake ex owner member)).trans (inherits.waiting_base ex member)

theorem Inherits.releaseOnce (inherits : Inherits base s) (ex : Exclusive s)
    (owner : (s.mutex m).owner = some t) (more : s.depth t m ≠ 1) :
    Inherits base (releaseOnce s t m) := by
  have holds := (ex.owner_taken owner).2.1
  refine inherits.change rfl (single_setDepth inherits (inherits.alone holds))
    (resting_setDepth inherits (by omega))
    (asleep_setDepth inherits (inherits.owner_running ex owner)) ?_
    (fun _ _ _ _ => Nat.le_refl _) (inherits.sorted m)
  intro u mine
  exact ⟨inherits.original m u mine, inherits.raised m u mine⟩

theorem Inherits.releaseFree (inherits : Inherits base s) (ex : Exclusive s)
    (owner : (s.mutex m).owner = some t) (nobody : (s.mutex m).waiting = []) :
    Inherits base (releaseFree s t m) := by
  have holds := (ex.owner_taken owner).2.1
  refine inherits.change rfl (single_setDepth inherits (inherits.alone holds)) ?_
    (asleep_setDepth inherits (inherits.owner_running ex owner)) ?_ ?_ ?_
  · intro u none
    simp only [RtThread.releaseFree] at none ⊢
    by_cases same : u = t
    · rw [same, update_self, inherits.original m t owner]
    · rw [update_of_ne same]
      apply inherits.resting
      intro m'
      rw [← none m', setDepth_thread same]
  · intro u mine
    cases mine
  · intro m' u ne owner'
    simp only [RtThread.releaseFree]
    rw [update_of_ne (inherits.owner_ne ex owner owner' ne)]
  · dsimp only
    rw [nobody]
    exact List.Pairwise.nil

/-- A thread gives back its only mutex, and another one that had none gets it. -/
theorem Inherits.handed_single {depth : Nat → Nat → Nat} (inherits : Inherits base s)
    (given : ∀ m', depth t m' = 0) (only : ∀ m', m' ≠ m → depth w m' = 0)
    (unchanged : ∀ u, u ≠ t → u ≠ w → ∀ m', depth u m' = s.depth u m') (u m₁ m₂ : Nat)
    (first : 0 < depth u m₁) (second : 0 < depth u m₂) : m₁ = m₂ := by
  by_cases released : u = t
  · rw [released, given] at first
    omega
  · by_cases taken : u = w
    · have here : ∀ m', 0 < depth w m' → m' = m := by
        intro m' positive
        by_contra ne
        rw [only m' ne] at positive
        omega
      rw [taken] at first second
      rw [here m₁ first, here m₂ second]
    · rw [unchanged u released taken] at first second
      exact inherits.single u m₁ m₂ first second

theorem Inherits.releaseTo {rest : List Nat} (inherits : Inherits base s) (ex : Exclusive s)
    (owner : (s.mutex m).owner = some t) (last : s.depth t m = 1)
    (waiting : (s.mutex m).waiting = w :: rest) : Inherits base (releaseTo s t m w rest) := by
  obtain ⟨_, holds, _, _, others, absent⟩ := ex.owner_taken owner
  have here : w ∈ (s.mutex m).waiting := by
    rw [waiting]
    exact List.mem_cons_self
  have next : w ≠ t := inherits.owner_awake ex owner here
  have idle := inherits.asleep w m ((ex.blocked m w).mp here)
  obtain ⟨mine, its, theirs, elsewhere⟩ := releaseTo_depth rest next last (idle m)
  have order := inherits.sorted m
  rw [waiting] at order
  obtain ⟨lowest, order⟩ := List.pairwise_cons.mp order
  have none : ∀ m', (RtThread.releaseTo s t m w rest).depth t m' = 0 := by
    intro m'
    by_cases same : m' = m
    · rw [same, its]
    · rw [elsewhere m' same, inherits.alone holds m' same]
  have unchanged : ∀ u, u ≠ t → u ≠ w → ∀ m',
      (RtThread.releaseTo s t m w rest).depth u m' = s.depth u m' := by
    intro u first second m'
    by_cases same : m' = m
    · rw [same, theirs u second first]
    · exact elsewhere m' same u
  have only : ∀ m', m' ≠ m → (RtThread.releaseTo s t m w rest).depth w m' = 0 := by
    intro m' ne
    rw [elsewhere m' ne, idle m']
  refine inherits.change rfl (inherits.handed_single none only unchanged) ?_ ?_ ?_ ?_ order
  · intro u zero
    have ne : u ≠ w := by
      rintro rfl
      have := zero m
      omega
    simp only [RtThread.releaseTo]
    by_cases same : u = t
    · rw [same, update_self, inherits.original m t owner]
    · rw [update_of_ne same]
      apply inherits.resting
      intro m'
      rw [← zero m', unchanged u same ne]
  · intro u m' blocked m''
    have ne : u ≠ w := by
      rintro rfl
      simp only [RtThread.releaseTo, update_self, reduceCtorEq] at blocked
    simp only [RtThread.releaseTo] at blocked
    rw [update_of_ne ne] at blocked
    have awake : u ≠ t := by
      rintro rfl
      rw [inherits.owner_running ex owner] at blocked
      cases blocked
    rw [unchanged u awake ne]
    exact inherits.asleep u m' blocked m''
  · intro u hers
    obtain rfl := Option.some.inj hers
    have own : update s.priority t (s.mutex m).originalPriority w = base w := by
      rw [update_of_ne next, inherits.waiting_base ex here]
    refine ⟨own, ?_⟩
    intro v member
    simp only [RtThread.releaseTo]
    rw [own]
    exact lowest v member
  · intro m' u ne owner'
    simp only [RtThread.releaseTo]
    rw [update_of_ne (inherits.owner_ne ex owner owner' ne)]

theorem Inherits.expire (inherits : Inherits base s) : Inherits base (expire s t m) := by
  refine inherits.change rfl inherits.single inherits.resting ?_ ?_
    (fun _ _ _ _ => Nat.le_refl _) ((inherits.sorted m).filter _)
  · intro u m' blocked
    simp only [RtThread.expire] at blocked ⊢
    by_cases same : u = t
    · rw [same, update_self] at blocked
      cases blocked
    · rw [update_of_ne same] at blocked
      exact inherits.asleep u m' blocked
  · intro u owner
    refine ⟨inherits.original m u owner, ?_⟩
    intro w member
    exact inherits.raised m u owner w (List.mem_filter.mp member).1

/-- No thread takes a mutex while it has another one, nor one too often. -/
def Unnested (action : MutexAction) (s : Mutexes) : Prop :=
  match action with
  | .take t m _ => s.depth t m < 256 ∧ ∀ m', m' ≠ m → s.depth t m' = 0
  | _ => True

theorem mutexStep_flag {action : MutexAction} (change : MutexChange s action s') :
    s'.flag = s.flag := by
  cases change with
  | _ => rfl

theorem Inherits.step (inherits : Inherits base s) (ex : Exclusive s) (prio : ∀ m, s.flag m = .prio)
    {action : MutexAction} (unnested : Unnested action s) (taken : mutexStep action s = some s') :
    Inherits base s' := by
  have change := mutexStep_cases ex taken
  cases change with
  | stays => exact inherits
  | takeAgain t m time owner => exact inherits.takeAgain ex owner
  | takeFree t m time available =>
      have awake : s.blocked t = none := by
        rw [mutexStep] at taken
        split at taken
        · assumption
        · cases taken
      exact inherits.takeFree ex available awake unnested.2
  | takeLater t m o time owner other running =>
      exact inherits.takeLater ex (prio m) owner other unnested.2
  | releaseOnce t m owner more => exact inherits.releaseOnce ex owner more
  | releaseTo t m w rest owner last waiting running => exact inherits.releaseTo ex owner last waiting
  | releaseFree t m owner last nobody => exact inherits.releaseFree ex owner nobody
  | expire t m asleep => exact inherits.expire

end

theorem inherits_init (flag : Nat → IpcFlag) (base : Nat → Nat) :
    Inherits base (initMutexes flag base) := by
  refine ⟨?_, fun _ _ => rfl, fun _ _ _ _ => rfl, ?_, ?_, fun _ => List.Pairwise.nil⟩
  · intro t m m' holds
    exact absurd holds (Nat.lt_irrefl 0)
  · intro m t owner
    cases owner
  · intro m t owner
    cases owner

/-- Where no thread has two mutexes at a time, priority inheritance works: the
owner of a mutex with `RT_IPC_FLAG_PRIO` runs at least at the priority of every
thread that waits for it, and a thread without a mutex has its own priority. -/
theorem mutex_priority {flag : Nat → IpcFlag} (prio : ∀ m, flag m = .prio) (base : Nat → Nat)
    {actions : List MutexAction} {s : Mutexes}
    (reached : run mutexStep actions (initMutexes flag base) = some s)
    (unnested : Each mutexStep (fun a s _ => Unnested a s) actions (initMutexes flag base)) :
    (∀ m w, w ∈ (s.mutex m).waiting → ∃ t, (s.mutex m).owner = some t ∧
      s.priority t ≤ s.priority w) ∧
      ∀ t, (∀ m, s.depth t m = 0) → s.priority t = base t := by
  have kept : Exclusive s ∧ Inherits base s ∧ s.flag = flag := by
    apply unnested.invariant (fun s => Exclusive s ∧ Inherits base s ∧ s.flag = flag) _
      ⟨exclusive_init flag base, inherits_init flag base, rfl⟩ reached
    rintro a u v ⟨ex, inherits, same⟩ side taken
    have change := mutexStep_cases ex taken
    have shallow : Shallow a u := by
      cases a with
      | take t m time => exact side.1
      | release t m => trivial
      | expire t => trivial
    refine ⟨ex.step shallow change, ?_, (mutexStep_flag change).trans same⟩
    exact inherits.step ex (fun m => by rw [same]; exact prio m) side taken
  obtain ⟨ex, inherits, _⟩ := kept
  refine ⟨?_, inherits.resting⟩
  intro m w member
  cases ex.held m with
  | free _ _ _ waiting _ =>
      rw [waiting] at member
      cases member
  | taken t _ owner =>
      refine ⟨t, owner, ?_⟩
      rw [inherits.waiting_base ex member]
      exact inherits.raised m t owner w member

theorem mutex_priority_waiting : ∃ s,
    run mutexStep [.take 1 0 true, .take 2 0 true] (initMutexes (fun _ => .prio) fun t => 10 - t) =
      some s ∧ (∀ m w, w ∈ (s.mutex m).waiting → ∃ t, (s.mutex m).owner = some t ∧
        s.priority t ≤ s.priority w) := by
  have unnested : Each mutexStep (fun a s _ => Unnested a s) [.take 1 0 true, .take 2 0 true]
      (initMutexes (fun _ => .prio) fun t => 10 - t) :=
    And.intro ⟨show 0 < 256 by decide, fun _ _ => rfl⟩
      (And.intro ⟨show 0 < 256 by decide, fun _ _ => rfl⟩ trivial)
  exact ⟨_, rfl, (mutex_priority (fun _ => rfl) (fun t => 10 - t) rfl unnested).1⟩

/-- A thread that takes a second mutex while it runs at an inherited priority
gets that one back, and keeps it without any mutex. -/
example : (run mutexStep [.take 1 0 true, .take 2 0 true, .take 1 1 true, .release 1 0, .release 1 1]
    (initMutexes (fun _ => .prio) fun t => 10 - t)).map (fun s => (s.depth 1 0, s.depth 1 1, s.priority 1)) =
      some (0, 0, 8) := by
  decide

end KyokaMirror.RtThread
