import Pintos.Kernel.Flow

/-!
# Where every thread is queued

The bookkeeping that every other invariant of the kernel rests on, for all runs and with timer
interrupts at every point where they are enabled:

* the threads in the ready heap are ready, and each is there once;
* a thread in the list of a semaphore's waiters is blocked inside `sema_down` on that semaphore,
  and is there once;
* a thread in the sleeping heap is blocked inside `timer_sleep`, and is there once;
* a thread under construction is blocked, has never run, and only one thread is constructing it;
* the thread on the CPU is the only running one (`OnCpu`).

The proof follows a step in its two halves. `Queues.setCtl` moves the running thread to another
program point, `Queues.frame`, `Queues.readied` and `Queues.parked` change the kernel's memory
under it, and `Queues.schedule` dispatches. Most program points touch no queue at all, which
`act_quiet` establishes once for all of them.
-/

namespace Pintos

open FirstMax Transition Function

/-! ### Threads under construction -/

def Updater.embryo : Updater → Option Tid
  | .create _ t => some t
  | _ => none

/-- The page in which the code at this point is constructing a thread. -/
def Pc.embryo : Pc → Option Tid
  | .createInit _ page => page
  | .createTid _ t | .createMlfqs _ t | .createUnblock _ t => some t
  | .updatePriority u | .updateScan u _ _ _ | .updateStore u _ | .updateMax u | .updateCpu u
  | .updateNice u | .updateClamp u => u.embryo
  | _ => none

def Frame.embryo : Frame → Option Tid
  | .createInit _ page => page
  | .createTid _ t | .createMlfqs _ t => some t
  | _ => none

/-- The page in which a thread is constructing another one, here or in an enclosing call. -/
def Control.embryo (c : Control) : Option Tid :=
  c.pc.embryo <|> c.stack.findSome? Frame.embryo

theorem Control.embryo_of_pc {pc : Pc} {st : List Frame} (h : pc.embryo = none) :
    Control.embryo ⟨pc, st⟩ = st.findSome? Frame.embryo := by
  simp [Control.embryo, h]

/-- A return keeps the page under construction. -/
theorem embryo_ret (t : Tid) (st : List Frame) :
    (ret t st).embryo = st.findSome? Frame.embryo := by
  cases st with
  | nil => rfl
  | cons f st =>
    cases f with
    | createInit p page => cases page <;> rfl
    | _ => rfl

theorem afterDown_embryo (t : Tid) (s : SemaRef) (st : List Frame) :
    (afterDown t s st).embryo = st.findSome? Frame.embryo := by
  cases s with
  | lock l => rfl
  | sema n => exact embryo_ret t st
  | waiter w => exact embryo_ret t st

theorem embryo_update {ctl : Tid → Control} {t : Tid} {c : Control}
    (h : c.embryo = (ctl t).embryo) (u : Tid) :
    (update ctl t c u).embryo = (ctl u).embryo := by
  by_cases hu : u = t
  · subst hu
    rw [update_self, h]
  · rw [update_of_ne hu]

theorem Updater.next_embryo (u : Updater) : u.next.embryo = u.embryo := by
  cases u <;> rfl

/-! ### The invariant -/

/-- Every queued thread is in the state its queue stands for. -/
structure Queues (m : Machine) : Prop where
  idle : m.ctl m.kernel.idleThread = ⟨.idle, []⟩
  /-- A page that was never handed out holds no thread. -/
  fresh : ∀ t, m.kernel.nextPage ≤ t →
    m.ctl t = ⟨.user, []⟩ ∧ (m.kernel.threads t).status = .blocked
  ready : ∀ t ∈ m.kernel.readyHeap.items, (m.kernel.threads t).status = .ready
  ready_nodup : m.kernel.readyHeap.items.Nodup
  waiting : ∀ s, ∀ t ∈ (m.kernel.semas s).waiters,
    (m.kernel.threads t).status = .blocked ∧ m.pc t = .semaRetest s
  waiting_nodup : ∀ s, (m.kernel.semas s).waiters.Nodup
  sleeping : ∀ t ∈ m.kernel.sleepHeap.items,
    (m.kernel.threads t).status = .blocked ∧ m.pc t = .sleepWake
  sleeping_nodup : m.kernel.sleepHeap.items.Nodup
  embryo : ∀ u t, (m.ctl u).embryo = some t → t < m.kernel.nextPage ∧
    m.ctl t = ⟨.user, []⟩ ∧ (m.kernel.threads t).status = .blocked
  embryo_unique : ∀ u u' t, (m.ctl u).embryo = some t → (m.ctl u').embryo = some t → u = u'

/-- The thread on the CPU is marked running, and no other is. -/
structure OnCpu (k : Kernel) : Prop where
  status : k.cur.status = .running
  only : ∀ t, (k.threads t).status = .running → t = k.running

/-- No thread is marked running: the state in which `schedule ()` is called. -/
def OffCpu (k : Kernel) : Prop := ∀ t, (k.threads t).status ≠ .running

section Moves

variable {m : Machine} {k' : Kernel} {t : Tid}

/-- The running thread is not waiting, sleeping or ready, and is not under construction. -/
theorem Queues.cur_ne_of_status (hc : OnCpu m.kernel)
    (ht : (m.kernel.threads t).status ≠ .running) : t ≠ m.kernel.running := by
  rintro rfl
  exact ht hc.status

theorem Queues.cur_notMem_ready (h : Queues m) (hc : OnCpu m.kernel) :
    m.kernel.running ∉ m.kernel.readyHeap.items := by
  intro hmem
  have hst := h.ready _ hmem
  rw [show (m.kernel.threads m.kernel.running).status = .running from hc.status] at hst
  cases hst

theorem Queues.cur_lt (h : Queues m) (hc : OnCpu m.kernel) :
    m.kernel.running < m.kernel.nextPage := by
  by_contra hge
  have hst := (h.fresh _ (not_lt.mp hge)).2
  rw [show (m.kernel.threads m.kernel.running).status = .running from hc.status] at hst
  cases hst

/-- A thread that is somewhere in the kernel's code has been created long ago. -/
theorem Queues.old_of_pc (h : Queues m) (hpc : m.pc t ≠ .user) :
    t < m.kernel.nextPage ∧ ∀ u, (m.ctl u).embryo ≠ some t := by
  constructor
  · by_contra hge
    apply hpc
    unfold Machine.pc
    rw [(h.fresh t (not_lt.mp hge)).1]
  · intro u hu
    apply hpc
    unfold Machine.pc
    rw [(h.embryo u t hu).2.1]

theorem Queues.notMem_sleep_of_waiting (h : Queues m) {s : SemaRef}
    (hmem : t ∈ (m.kernel.semas s).waiters) : t ∉ m.kernel.sleepHeap.items := by
  intro hsl
  have hpc := (h.sleeping t hsl).2
  rw [(h.waiting s t hmem).2] at hpc
  cases hpc

/-- A waiter that leaves the list of its semaphore is in no list any more. -/
theorem Queues.waiters_erase (h : Queues m) {s : SemaRef} {v : ℕ}
    (hmem : t ∈ (m.kernel.semas s).waiters) (s' : SemaRef) :
    (update m.kernel.semas s ⟨v, (m.kernel.semas s).waiters.erase t⟩ s').waiters.Sublist
        (m.kernel.semas s').waiters ∧
      t ∉ (update m.kernel.semas s
        ⟨v, (m.kernel.semas s).waiters.erase t⟩ s').waiters := by
  by_cases hs : s' = s
  · subst hs
    rw [update_self]
    exact ⟨List.erase_sublist, List.Nodup.not_mem_erase (h.waiting_nodup s')⟩
  · rw [update_of_ne hs]
    refine ⟨List.Sublist.refl _, fun hmem' => ?_⟩
    have hpc := (h.waiting s' t hmem').2
    rw [(h.waiting s t hmem).2] at hpc
    exact hs (Pc.semaRetest.inj hpc).symm

/-- **Moving the running thread** to another program point. It may forget the page it is
constructing a thread in, and may take over only a page that nobody uses. -/
theorem Queues.setCtl (h : Queues m) (hc : OnCpu m.kernel) {c : Control}
    (hidle : m.kernel.running = m.kernel.idleThread → c = ⟨.idle, []⟩)
    (hemb : ∀ v, c.embryo = some v → (m.ctl m.kernel.running).embryo = some v ∨
      (v < m.kernel.nextPage ∧ m.ctl v = ⟨.user, []⟩ ∧ (m.kernel.threads v).status = .blocked ∧
        ∀ u, (m.ctl u).embryo ≠ some v)) :
    Queues ⟨m.kernel, update m.ctl m.kernel.running c⟩ := by
  have hother : ∀ u, (m.kernel.threads u).status = .blocked →
      update m.ctl m.kernel.running c u = m.ctl u := fun u hu =>
    update_of_ne (Queues.cur_ne_of_status hc (by rw [hu]; simp)) _ _
  have hpc : ∀ u, (m.kernel.threads u).status = .blocked →
      Machine.pc ⟨m.kernel, update m.ctl m.kernel.running c⟩ u = m.pc u := by
    intro u hu
    change (update m.ctl m.kernel.running c u).pc = _
    rw [hother u hu]
    rfl
  refine ⟨?_, ?_, h.ready, h.ready_nodup, ?_, h.waiting_nodup, ?_, h.sleeping_nodup, ?_, ?_⟩
  · by_cases heq : m.kernel.idleThread = m.kernel.running
    · change update m.ctl m.kernel.running c m.kernel.idleThread = _
      rw [heq, update_self]
      exact hidle heq.symm
    · exact (update_of_ne heq _ _).trans h.idle
  · intro u hu
    obtain ⟨hctl, hst⟩ := h.fresh u hu
    exact ⟨(hother u hst).trans hctl, hst⟩
  · intro s u hu
    obtain ⟨hst, hp⟩ := h.waiting s u hu
    exact ⟨hst, (hpc u hst).trans hp⟩
  · intro u hu
    obtain ⟨hst, hp⟩ := h.sleeping u hu
    exact ⟨hst, (hpc u hst).trans hp⟩
  · intro u v huv
    change (update m.ctl m.kernel.running c u).embryo = some v at huv
    have hpage : v < m.kernel.nextPage ∧ m.ctl v = ⟨.user, []⟩ ∧
        (m.kernel.threads v).status = .blocked := by
      by_cases hu : u = m.kernel.running
      · subst hu
        rw [update_self] at huv
        rcases hemb v huv with hold | ⟨hlt, hctl, hst, -⟩
        · exact h.embryo _ v hold
        · exact ⟨hlt, hctl, hst⟩
      · rw [update_of_ne hu] at huv
        exact h.embryo u v huv
    exact ⟨hpage.1, (hother v hpage.2.2).trans hpage.2.1, hpage.2.2⟩
  · -- only the running thread's page can be new, and a new one is nobody else's
    have hone : ∀ u v, u ≠ m.kernel.running →
        (m.ctl u).embryo = some v → c.embryo = some v → False := by
      intro u v hu huv hcv
      rcases hemb v hcv with hold | ⟨-, -, -, hnone⟩
      · exact hu (h.embryo_unique u _ v huv hold)
      · exact hnone u huv
    intro u u' v hu hu'
    change (update m.ctl m.kernel.running c u).embryo = some v at hu
    change (update m.ctl m.kernel.running c u').embryo = some v at hu'
    by_cases hr : u = m.kernel.running <;> by_cases hr' : u' = m.kernel.running
    · rw [hr, hr']
    · rw [hr, update_self] at hu
      rw [update_of_ne hr'] at hu'
      exact (hone u' v hr' hu' hu).elim
    · rw [hr', update_self] at hu'
      rw [update_of_ne hr] at hu
      exact (hone u v hr hu hu').elim
    · rw [update_of_ne hr] at hu
      rw [update_of_ne hr'] at hu'
      exact h.embryo_unique u u' v hu hu'

/-- A change of the kernel's memory that moves no thread between queues. -/
structure QueueFrame (k k' : Kernel) : Prop where
  status : ∀ t, (k'.threads t).status = (k.threads t).status
  ready : k'.readyHeap.items = k.readyHeap.items
  waiters : ∀ s, (k'.semas s).waiters = (k.semas s).waiters ∨ (k'.semas s).waiters = []
  sleep : k'.sleepHeap.items = k.sleepHeap.items
  idle : k'.idleThread = k.idleThread
  nextPage : k'.nextPage = k.nextPage

theorem Queues.frame (h : Queues m) (hf : QueueFrame m.kernel k') : Queues ⟨k', m.ctl⟩ where
  idle := by rw [hf.idle]; exact h.idle
  fresh u hu := by
    rw [hf.nextPage] at hu
    rw [hf.status]
    exact h.fresh u hu
  ready u hu := by
    rw [hf.ready] at hu
    rw [hf.status]
    exact h.ready u hu
  ready_nodup := by rw [hf.ready]; exact h.ready_nodup
  waiting s u hu := by
    rcases hf.waiters s with hw | hw
    · rw [hw] at hu
      rw [hf.status]
      exact h.waiting s u hu
    · rw [hw] at hu
      exact absurd hu List.not_mem_nil
  waiting_nodup s := by
    rcases hf.waiters s with hw | hw
    · rw [hw]
      exact h.waiting_nodup s
    · rw [hw]
      exact List.nodup_nil
  sleeping u hu := by
    rw [hf.sleep] at hu
    rw [hf.status]
    exact h.sleeping u hu
  sleeping_nodup := by rw [hf.sleep]; exact h.sleeping_nodup
  embryo u v huv := by
    rw [hf.nextPage, hf.status]
    exact h.embryo u v huv
  embryo_unique := h.embryo_unique

/-- A change of the kernel's memory that readies the blocked thread `t` and takes it out of the
queues it was in. -/
structure Readied (k k' : Kernel) (t : Tid) : Prop where
  blocked : (k.threads t).status = .blocked
  status : ∀ u, u ≠ t → (k'.threads u).status = (k.threads u).status
  status_self : (k'.threads t).status = .ready
  ready : k'.readyHeap.items = t ::ₘ k.readyHeap.items
  waiters : ∀ s, (k'.semas s).waiters.Sublist (k.semas s).waiters ∧ t ∉ (k'.semas s).waiters
  sleep : k'.sleepHeap.items ≤ k.sleepHeap.items ∧ t ∉ k'.sleepHeap.items
  idle : k'.idleThread = k.idleThread
  nextPage : k'.nextPage = k.nextPage
  running : k'.running = k.running

theorem Readied.of_unblock {k k₁ : Kernel} (sl : Heap Tid) (f : SemaRef → Semaphore)
    (hub : threadUnblock { k with sleepHeap := sl } t = .ok k₁)
    (hf : ∀ s, (f s).waiters.Sublist (k.semas s).waiters ∧ t ∉ (f s).waiters)
    (hsl : sl.items ≤ k.sleepHeap.items ∧ t ∉ sl.items) :
    Readied k { k₁ with semas := f } t := by
  obtain ⟨hblocked, hpush⟩ := threadUnblock_ok hub
  obtain ⟨ord, heap, rfl, hitems, -⟩ := pushReady_ok hpush
  refine ⟨hblocked, fun u hu => ?_, ?_, hitems, hf, hsl, rfl, rfl, rfl⟩
  · dsimp only
    rw [update_of_ne hu]
  · dsimp only
    rw [update_self]

theorem OnCpu.readied {k k' : Kernel} (hc : OnCpu k) (hr : Readied k k' t) : OnCpu k' := by
  have hne : k.running ≠ t := by
    rintro rfl
    have hst := hr.blocked
    rw [show (k.threads k.running).status = .running from hc.status] at hst
    cases hst
  constructor
  · change (k'.threads k'.running).status = _
    rw [hr.running, hr.status _ hne]
    exact hc.status
  · intro u hu
    by_cases hut : u = t
    · rw [hut, hr.status_self] at hu
      cases hu
    · rw [hr.status u hut] at hu
      rw [hr.running]
      exact hc.only u hu

/-- **Readying a thread** that is not under construction any more. -/
theorem Queues.readied (h : Queues m) (hr : Readied m.kernel k' t)
    (hlt : t < m.kernel.nextPage) (hemb : ∀ u, (m.ctl u).embryo ≠ some t) :
    Queues ⟨k', m.ctl⟩ where
  idle := by rw [hr.idle]; exact h.idle
  fresh u hu := by
    rw [hr.nextPage] at hu
    have hut : u ≠ t := by
      rintro rfl
      exact absurd hlt (not_lt.mpr hu)
    rw [hr.status u hut]
    exact h.fresh u hu
  ready u hu := by
    rw [hr.ready] at hu
    by_cases hut : u = t
    · rw [hut]
      exact hr.status_self
    · rw [hr.status u hut]
      exact h.ready u ((Multiset.mem_cons.mp hu).resolve_left hut)
  ready_nodup := by
    rw [hr.ready]
    refine Multiset.nodup_cons.mpr ⟨fun hmem => ?_, h.ready_nodup⟩
    have hst := h.ready t hmem
    rw [hr.blocked] at hst
    cases hst
  waiting s u hu := by
    have hut : u ≠ t := fun heq => (hr.waiters s).2 (heq ▸ hu)
    rw [hr.status u hut]
    exact h.waiting s u ((hr.waiters s).1.subset hu)
  waiting_nodup s := (h.waiting_nodup s).sublist (hr.waiters s).1
  sleeping u hu := by
    have hut : u ≠ t := fun heq => hr.sleep.2 (heq ▸ hu)
    rw [hr.status u hut]
    exact h.sleeping u (Multiset.mem_of_le hr.sleep.1 hu)
  sleeping_nodup := Multiset.nodup_of_le hr.sleep.1 h.sleeping_nodup
  embryo u v huv := by
    have hvt : v ≠ t := fun heq => hemb u (heq ▸ huv)
    rw [hr.nextPage, hr.status v hvt]
    exact h.embryo u v huv
  embryo_unique := h.embryo_unique

/-- **Parking a thread** that was running: its status changes, and it may enter the waiters of
the semaphore it is at, the sleeping heap, or the ready heap. -/
theorem Queues.parked (h : Queues m) (ht : (m.kernel.threads t).status = .running)
    (hstatus : ∀ u, u ≠ t → (k'.threads u).status = (m.kernel.threads u).status)
    (hready : k'.readyHeap.items = m.kernel.readyHeap.items ∨
      k'.readyHeap.items = t ::ₘ m.kernel.readyHeap.items ∧ (k'.threads t).status = .ready)
    (hwait : ∀ s, (k'.semas s).waiters = (m.kernel.semas s).waiters ∨
      (k'.semas s).waiters = (m.kernel.semas s).waiters ++ [t] ∧
        (k'.threads t).status = .blocked ∧ m.pc t = .semaRetest s)
    (hsleep : k'.sleepHeap.items = m.kernel.sleepHeap.items ∨
      k'.sleepHeap.items = t ::ₘ m.kernel.sleepHeap.items ∧ (k'.threads t).status = .blocked ∧
        m.pc t = .sleepWake)
    (hidle : k'.idleThread = m.kernel.idleThread) (hnext : k'.nextPage = m.kernel.nextPage) :
    Queues ⟨k', m.ctl⟩ := by
  have hne : ∀ u, (m.kernel.threads u).status ≠ .running → u ≠ t := by
    rintro u hu rfl
    exact hu ht
  have hblocked : ∀ u, (m.kernel.threads u).status = .blocked →
      (k'.threads u).status = .blocked := fun u hu => by
    rw [hstatus u (hne u (by rw [hu]; simp))]
    exact hu
  have hnotReady : t ∉ m.kernel.readyHeap.items := fun hmem => by
    rw [h.ready t hmem] at ht
    cases ht
  have hnotSleep : t ∉ m.kernel.sleepHeap.items := fun hmem => by
    rw [(h.sleeping t hmem).1] at ht
    cases ht
  have hnotWait : ∀ s, t ∉ (m.kernel.semas s).waiters := fun s hmem => by
    rw [(h.waiting s t hmem).1] at ht
    cases ht
  have hoReady : ∀ u ∈ m.kernel.readyHeap.items, (k'.threads u).status = .ready := fun u hu => by
    rw [hstatus u (hne u (by rw [h.ready u hu]; simp))]
    exact h.ready u hu
  refine ⟨by rw [hidle]; exact h.idle, ?_, ?_, ?_, ?_, ?_, ?_, ?_, ?_, h.embryo_unique⟩
  · intro u hu
    rw [hnext] at hu
    exact ⟨(h.fresh u hu).1, hblocked u (h.fresh u hu).2⟩
  · intro u hu
    rcases hready with hr | ⟨hr, hst⟩
    · rw [hr] at hu
      exact hoReady u hu
    · rw [hr] at hu
      rcases Multiset.mem_cons.mp hu with rfl | hu
      · exact hst
      · exact hoReady u hu
  · rcases hready with hr | ⟨hr, -⟩
    · rw [hr]
      exact h.ready_nodup
    · rw [hr]
      exact Multiset.nodup_cons.mpr ⟨hnotReady, h.ready_nodup⟩
  · intro s u hu
    rcases hwait s with hw | ⟨hw, hst, hp⟩
    · rw [hw] at hu
      exact ⟨hblocked u (h.waiting s u hu).1, (h.waiting s u hu).2⟩
    · rw [hw] at hu
      rcases List.mem_append.mp hu with hu | hu
      · exact ⟨hblocked u (h.waiting s u hu).1, (h.waiting s u hu).2⟩
      · rw [List.mem_singleton.mp hu]
        exact ⟨hst, hp⟩
  · intro s
    rcases hwait s with hw | ⟨hw, -, -⟩
    · rw [hw]
      exact h.waiting_nodup s
    · rw [hw]
      refine List.Nodup.append (h.waiting_nodup s) (List.nodup_singleton t) ?_
      intro u hu hut
      rw [List.mem_singleton.mp hut] at hu
      exact hnotWait s hu
  · intro u hu
    rcases hsleep with hs | ⟨hs, hst, hp⟩
    · rw [hs] at hu
      exact ⟨hblocked u (h.sleeping u hu).1, (h.sleeping u hu).2⟩
    · rw [hs] at hu
      rcases Multiset.mem_cons.mp hu with rfl | hu
      · exact ⟨hst, hp⟩
      · exact ⟨hblocked u (h.sleeping u hu).1, (h.sleeping u hu).2⟩
  · rcases hsleep with hs | ⟨hs, -, -⟩
    · rw [hs]
      exact h.sleeping_nodup
    · rw [hs]
      exact Multiset.nodup_cons.mpr ⟨hnotSleep, h.sleeping_nodup⟩
  · intro u v huv
    obtain ⟨hlt, hctl, hst⟩ := h.embryo u v huv
    rw [hnext]
    exact ⟨hlt, hctl, hblocked v hst⟩

end Moves

/-- **Dispatching** puts one thread on the CPU. -/
theorem Queues.schedule {m : Machine} {k' : Kernel} (h : Queues m) (hoff : OffCpu m.kernel)
    (hs : Pintos.schedule m.kernel = .ok k') : Queues ⟨k', m.ctl⟩ ∧ OnCpu k' := by
  obtain ⟨next, heap, freed, rfl, hcase⟩ := schedule_ok hs
  have hcpu : OnCpu { m.kernel with
      threads := update m.kernel.threads next
        { m.kernel.threads next with status := .running }
      readyHeap := heap, running := next, threadTicks := 0, freed := freed } := by
    constructor
    · simp [Kernel.cur]
    · intro t ht
      by_contra hne
      simp only [update_of_ne hne] at ht
      exact hoff t ht
  refine ⟨?_, hcpu⟩
  -- the dispatched thread is in no queue
  have hnext : heap.items ≤ m.kernel.readyHeap.items ∧ next ∉ heap.items ∧
      (∀ s, next ∉ (m.kernel.semas s).waiters) ∧ next ∉ m.kernel.sleepHeap.items ∧
      next < m.kernel.nextPage ∧ ∀ u, (m.ctl u).embryo ≠ some next := by
    rcases hcase with ⟨hempty, rfl, rfl⟩ | hpop
    · have hpc : m.pc m.kernel.idleThread = .idle := by
        unfold Machine.pc
        rw [h.idle]
      refine ⟨le_rfl, ?_, ?_, ?_, ?_, ?_⟩
      · rw [Heap.items_eq_zero_of_size hempty]
        exact Multiset.notMem_zero _
      · intro s hmem
        exact absurd (hpc.symm.trans (h.waiting s _ hmem).2) (by simp)
      · intro hmem
        exact absurd (hpc.symm.trans (h.sleeping _ hmem).2) (by simp)
      · by_contra hge
        have hctl := (h.fresh _ (not_lt.mp hge)).1
        rw [h.idle] at hctl
        cases hctl
      · intro u hu
        have hctl := (h.embryo u _ hu).2.1
        rw [h.idle] at hctl
        cases hctl
    · obtain ⟨-, hitems, -, -⟩ := heapPop_ok hpop
      have hst : (m.kernel.threads next).status = .ready :=
        h.ready next (by rw [hitems]; exact Multiset.mem_cons_self _ _)
      have hnd := h.ready_nodup
      rw [hitems] at hnd
      refine ⟨by rw [hitems]; exact Multiset.le_cons_self _ _, (Multiset.nodup_cons.mp hnd).1,
        ?_, ?_, ?_, ?_⟩
      · intro s hmem
        exact absurd (hst.symm.trans (h.waiting s _ hmem).1) (by simp)
      · intro hmem
        exact absurd (hst.symm.trans (h.sleeping _ hmem).1) (by simp)
      · by_contra hge
        exact absurd (hst.symm.trans (h.fresh _ (not_lt.mp hge)).2) (by simp)
      · intro u hu
        exact absurd (hst.symm.trans (h.embryo u _ hu).2.2) (by simp)
  obtain ⟨hle, hnotReady, hnotWait, hnotSleep, hlt, hnotEmb⟩ := hnext
  have hstatus : ∀ u, u ≠ next → (update m.kernel.threads next
      { m.kernel.threads next with status := .running } u).status
        = (m.kernel.threads u).status := fun u hu => by
    rw [update_of_ne hu]
  refine ⟨h.idle, ?_, ?_, Multiset.nodup_of_le hle h.ready_nodup, ?_, h.waiting_nodup, ?_,
    h.sleeping_nodup, ?_, h.embryo_unique⟩
  · intro u hu
    have hne : u ≠ next := by
      rintro rfl
      exact absurd hlt (not_lt.mpr hu)
    exact ⟨(h.fresh u hu).1, (hstatus u hne).trans (h.fresh u hu).2⟩
  · intro u hu
    have hne : u ≠ next := fun heq => hnotReady (heq ▸ hu)
    exact (hstatus u hne).trans (h.ready u (Multiset.mem_of_le hle hu))
  · intro s u hu
    have hne : u ≠ next := fun heq => hnotWait s (heq ▸ hu)
    exact ⟨(hstatus u hne).trans (h.waiting s u hu).1, (h.waiting s u hu).2⟩
  · intro u hu
    have hne : u ≠ next := fun heq => hnotSleep (heq ▸ hu)
    exact ⟨(hstatus u hne).trans (h.sleeping u hu).1, (h.sleeping u hu).2⟩
  · intro u v huv
    have hne : v ≠ next := fun heq => hnotEmb u (heq ▸ huv)
    obtain ⟨hv, hctl, hst⟩ := h.embryo u v huv
    exact ⟨hv, hctl, (hstatus v hne).trans hst⟩

/-! ### The running thread's code -/

namespace QueueFrame

variable {k : Kernel}

theorem refl (k : Kernel) : QueueFrame k k :=
  ⟨fun _ => rfl, rfl, fun _ => .inl rfl, rfl, rfl, rfl⟩

theorem setThread {t : Tid} {x : Thread} (hx : x.status = (k.threads t).status) :
    QueueFrame k (k.setThread t x) := by
  exact ⟨apply_update_same Thread.status hx, rfl, fun _ => .inl rfl, rfl, rfl, rfl⟩

theorem setLock {l : LockId} {x : Lock} : QueueFrame k (k.setLock l x) :=
  ⟨fun _ => rfl, rfl, fun _ => .inl rfl, rfl, rfl, rfl⟩

theorem setCond {c : CondId} {x : List Tid} : QueueFrame k (k.setCond c x) :=
  ⟨fun _ => rfl, rfl, fun _ => .inl rfl, rfl, rfl, rfl⟩

theorem setSema {s : SemaRef} {x : Semaphore}
    (hx : x.waiters = (k.semas s).waiters ∨ x.waiters = []) : QueueFrame k (k.setSema s x) := by
  refine ⟨fun _ => rfl, rfl, fun s' => ?_, rfl, rfl, rfl⟩
  change (update k.semas s x s').waiters = _ ∨ (update k.semas s x s').waiters = _
  by_cases hs : s' = s
  · subst hs
    rw [update_self]
    exact hx
  · rw [update_of_ne hs]
    exact .inl rfl

theorem trans {k₁ k₂ : Kernel} (h₁ : QueueFrame k k₁) (h₂ : QueueFrame k₁ k₂) :
    QueueFrame k k₂ where
  status t := (h₂.status t).trans (h₁.status t)
  ready := h₂.ready.trans h₁.ready
  waiters s := by
    rcases h₂.waiters s with h | h
    · rw [h]
      exact h₁.waiters s
    · exact .inr h
  sleep := h₂.sleep.trans h₁.sleep
  idle := h₂.idle.trans h₁.idle
  nextPage := h₂.nextPage.trans h₁.nextPage

theorem onCpu {k' : Kernel} (hf : QueueFrame k k') (hr : k'.running = k.running)
    (hc : OnCpu k) : OnCpu k' := by
  constructor
  · change (k'.threads k'.running).status = _
    rw [hf.status, hr]
    exact hc.status
  · intro t ht
    rw [hf.status] at ht
    rw [hr]
    exact hc.only t ht

end QueueFrame

/-- A silent move keeps the page under construction. -/
theorem Silent.embryo {k : Kernel} {c c' : Control} (h : Silent k c c') :
    c'.embryo = c.embryo := by
  cases h with
  | createNoPage | createTid | create | broadcastNext => rfl
  | createFail => exact embryo_ret _ _
  | _ => first | rfl | (rw [embryo_ret]; rfl)

/-- The page under construction after a move: the one before, or a new one. -/
theorem Exec.embryo {k : Kernel} {c : Control} {o : Outcome} (hex : Exec k c o)
    (hshape : c.Shaped k.mlfqs k.running) {t : Tid} (ht : o.ctl.embryo = some t) :
    c.embryo = some t ∨ t = k.nextPage := by
  cases hex with
  | silent hs => exact .inl (hs.embryo ▸ ht)
  | @downBlock pc s st hpc =>
    refine .inl (Eq.trans ?_ ht)
    rcases hpc with rfl | rfl <;> rfl
  | @downTake pc s st hpc =>
    refine .inl (Eq.trans ?_ ht)
    rw [afterDown_embryo]
    rcases hpc with rfl | rfl <;> rfl
  | createPage => exact .inr (Option.some.inj ht).symm
  | createUnblock =>
    obtain rfl := stack_nil_of_isEmpty hshape.enclosed
    exact absurd ht (by simp [Control.embryo, Pc.embryo])
  | exit => exact absurd ht (by simp [Control.embryo, Pc.embryo])
  | @updateStore u p st =>
    exact .inl ((congrArg (· <|> st.findSome? Frame.embryo) u.next_embryo).symm.trans ht)
  | @updateMlfqs pc pc' p st hst =>
    cases hst with
    | @clamp u =>
      exact .inl ((congrArg (· <|> st.findSome? Frame.embryo) u.next_embryo).symm.trans ht)
    | _ => exact .inl ht
  | _ => first | exact .inl ht | exact .inl ((embryo_ret _ _).symm.trans ht)

theorem Act.embryo {m : Machine} {e : Event} {o : Outcome} (ha : Act m e o) (hflow : Flow m)
    {t : Tid} (ht : o.ctl.embryo = some t) :
    (m.ctl m.kernel.running).embryo = some t ∨ t = m.kernel.nextPage := by
  cases ha with
  | @call c hpc =>
    have hnone : c.entry.embryo = none := by cases c <;> rfl
    rw [Control.embryo_of_pc hnone, hflow.stack_of_user hpc] at ht
    cases ht
  | exec hex => exact hex.embryo (hflow _) ht
  | tick _ _ _ => exact .inl ht

/-- What the queues are after the running thread's code, before the dispatch. -/
structure Settled (m : Machine) (o : Outcome) : Prop where
  queues : Queues (m.settle o)
  onCpu : o.switch = false → OnCpu o.kernel
  offCpu : o.switch = true → OffCpu o.kernel

section Code

variable {m : Machine} {o : Outcome} {k' : Kernel} {c' : Control}

/-- A move that leaves the queues alone. -/
theorem Settled.quiet (h : Queues m) (hc : OnCpu m.kernel)
    (hidle : m.kernel.running ≠ m.kernel.idleThread)
    (hemb : c'.embryo = (m.ctl m.kernel.running).embryo) (hf : QueueFrame m.kernel k')
    (hr : k'.running = m.kernel.running) : Settled m ⟨k', c', false⟩ where
  queues := (h.setCtl hc (fun heq => absurd heq hidle)
    fun v hv => .inl (hemb ▸ hv)).frame hf
  onCpu _ := hf.onCpu hr hc
  offCpu hs := absurd hs (by simp)

/-- A move in which the running thread gives up the CPU. -/
theorem offCpu_of_park (hc : OnCpu m.kernel)
    (hstatus : ∀ u, u ≠ m.kernel.running → (k'.threads u).status = (m.kernel.threads u).status)
    (hcur : (k'.threads m.kernel.running).status ≠ .running) : OffCpu k' := by
  intro t ht
  by_cases hr : t = m.kernel.running
  · exact hcur (hr ▸ ht)
  · rw [hstatus t hr] at ht
    exact hr (hc.only t ht)

theorem status_update_of_ne {f : Tid → Thread} {t u : Tid} {x : Thread} (h : u ≠ t) :
    (update f t x u).status = (f u).status := by
  rw [update_of_ne h]

/-- `thread_yield`, up to the dispatch. -/
theorem Settled.yield (h : Queues m) (hc : OnCpu m.kernel)
    (hidle : m.kernel.running = m.kernel.idleThread → c' = ⟨.idle, []⟩)
    (hemb : c'.embryo = (m.ctl m.kernel.running).embryo) (hy : yieldPark m.kernel = .ok k') :
    Settled m ⟨k', c', true⟩ := by
  have hq := h.setCtl hc hidle fun v hv => .inl (hemb ▸ hv)
  have hrun : (m.kernel.threads m.kernel.running).status = .running := hc.status
  rcases yieldPark_ok hy with ⟨-, hpush⟩ | ⟨-, rfl⟩
  · obtain ⟨ord, heap, rfl, hitems, -⟩ := pushReady_ok hpush
    have hst : (update m.kernel.threads m.kernel.running
        { m.kernel.threads m.kernel.running with entryOrd := ord, status := .ready }
          m.kernel.running).status = .ready := by rw [update_self]
    exact ⟨hq.parked hrun (fun u hu => status_update_of_ne hu) (.inr ⟨hitems, hst⟩)
      (fun _ => .inl rfl) (.inl rfl) rfl rfl, fun hs => absurd hs (by simp),
      fun _ => offCpu_of_park hc (fun u hu => status_update_of_ne hu) (by rw [hst]; simp)⟩
  · have hst : ((m.kernel.setThread m.kernel.running
        { m.kernel.cur with status := .ready }).threads m.kernel.running).status = .ready := by
      simp only [Kernel.setThread, update_self]
    exact ⟨hq.parked hrun (fun u hu => status_update_of_ne hu) (.inl rfl)
      (fun _ => .inl rfl) (.inl rfl) rfl rfl, fun hs => absurd hs (by simp),
      fun _ => offCpu_of_park hc (fun u hu => status_update_of_ne hu) (by rw [hst]; simp)⟩

theorem Silent.ne_idle {k : Kernel} {c : Control} (h : Silent k c c') : c.pc ≠ .idle := by
  cases h <;> simp

theorem Settled.exec (hflow : Flow m) (h : Queues m) (hc : OnCpu m.kernel) {c : Control}
    (hctl : m.ctl m.kernel.running = c) (hex : Exec m.kernel c o) : Settled m o := by
  have hrun : (m.kernel.threads m.kernel.running).status = .running := hc.status
  have hshape := hctl ▸ hflow m.kernel.running
  have hidle : c.pc ≠ .idle → m.kernel.running ≠ m.kernel.idleThread := by
    intro hpc heq
    rw [heq, h.idle] at hctl
    exact hpc (hctl ▸ rfl)
  have hmove : ∀ c' : Control, c.pc ≠ .idle → c'.embryo = c.embryo →
      Queues ⟨m.kernel, update m.ctl m.kernel.running c'⟩ := fun c' hpc hemb =>
    h.setCtl hc (fun heq => absurd heq (hidle hpc)) fun v hv => .inl (by rw [hctl, ← hemb, hv])
  have hpark : ∀ u, u ≠ m.kernel.running → (update m.kernel.threads m.kernel.running
      { m.kernel.cur with status := .blocked } u).status = (m.kernel.threads u).status :=
    fun u hu => status_update_of_ne hu
  have hblock : (update m.kernel.threads m.kernel.running
      { m.kernel.cur with status := .blocked } m.kernel.running).status ≠ .running := by
    rw [update_self]
    simp
  have hquiet : ∀ {k' : Kernel} {c' : Control}, c.pc ≠ .idle → c'.embryo = c.embryo →
      QueueFrame m.kernel k' → k'.running = m.kernel.running → Settled m ⟨k', c', false⟩ :=
    fun hpc hemb hf hr => Settled.quiet h hc (hidle hpc) (hemb.trans (hctl ▸ rfl)) hf hr
  cases hex with
  | silent hs => exact hquiet hs.ne_idle hs.embryo (.refl _) rfl
  | @idle st =>
    have hq : Queues ⟨m.kernel, update m.ctl m.kernel.running ⟨.idle, st⟩⟩ := by
      rw [← hctl, update_eq_self]
      exact h
    exact ⟨hq.parked hrun hpark (.inl rfl) (fun _ => .inl rfl) (.inl rfl) rfl rfl,
      fun hs => absurd hs (by simp), fun _ => offCpu_of_park hc hpark hblock⟩
  | @downBlock pc s st hpc hv =>
    have hne : pc ≠ .idle ∧ pc.embryo = none := by rcases hpc with rfl | rfl <;> simp [Pc.embryo]
    have hq : Queues ⟨m.kernel, update m.ctl m.kernel.running ⟨.semaRetest s, st⟩⟩ :=
      hmove _ hne.1 (Control.embryo_of_pc hne.2).symm
    refine ⟨hq.parked hrun hpark (.inl rfl) (fun s' => ?_) (.inl rfl) rfl rfl,
      fun hs => absurd hs (by simp), fun _ => offCpu_of_park hc hpark hblock⟩
    by_cases hs : s' = s
    · subst hs
      refine .inr ⟨?_, by simp [blockPark, Kernel.setThread, Kernel.setSema], ?_⟩
      · simp [blockPark, Kernel.setThread, Kernel.setSema]
      · simp [Machine.pc]
    · refine .inl ?_
      simp [blockPark, Kernel.setThread, Kernel.setSema, update_of_ne hs]
  | @downTake pc s st hpc hv =>
    have hne : pc ≠ .idle ∧ pc.embryo = none := by rcases hpc with rfl | rfl <;> simp [Pc.embryo]
    refine hquiet hne.1 ?_ (.setSema (.inl rfl)) rfl
    rw [afterDown_embryo, Control.embryo_of_pc hne.2]
  | tryDown hv => exact hquiet (by simp) (embryo_ret _ _) (.setSema (.inl rfl)) rfl
  | upNone hw => exact hquiet (by simp) rfl (.setSema (.inr rfl)) rfl
  | @upWake s st t k₁ hmem _ hub =>
    obtain ⟨hlt, hemb⟩ := h.old_of_pc (t := t) (by rw [(h.waiting s t hmem).2]; simp)
    unfold Kernel.setSema
    rw [threadUnblock_semas hub]
    have hready := Readied.of_unblock m.kernel.sleepHeap _ hub
      (h.waiters_erase (v := ((m.kernel.semas s).value + 1) % 2 ^ 32) hmem)
      ⟨le_rfl, h.notMem_sleep_of_waiting hmem⟩
    refine ⟨?_, fun _ => hc.readied hready, fun hs => absurd hs (by simp)⟩
    refine (hmove ⟨.yield, st⟩ (by simp) rfl).readied hready hlt fun u hu => hemb u ?_
    rwa [embryo_update (by rw [hctl]; rfl)] at hu
  | yield hy =>
    exact Settled.yield h hc (fun heq => absurd heq (hidle (by simp)))
      (by rw [hctl]; exact embryo_ret _ _) hy
  | tryTake hv => exact hquiet (by simp) rfl (.setSema (.inl rfl)) rfl
  | setHolder => exact hquiet (by simp) rfl .setLock rfl
  | pushHolding => exact hquiet (by simp) (embryo_ret _ _) (.setThread rfl) rfl
  | setWaiting => exact hquiet (by simp) rfl (.setThread rfl) rfl
  | donateStore => exact hquiet (by simp) rfl .setLock rfl
  | donateRaise => exact hquiet (by simp) rfl (.setThread rfl) rfl
  | sortHeap =>
    exact hquiet (by simp) rfl ⟨fun _ => rfl, heapRebuild_items _ _, fun _ => .inl rfl, rfl, rfl, rfl⟩ rfl
  | acquired => exact hquiet (by simp) (embryo_ret _ _) (QueueFrame.setLock.trans (.setThread rfl)) rfl
  | releaseClear => exact hquiet (by simp) rfl (QueueFrame.setLock.trans (.setThread rfl)) rfl
  | @updateStore u p st =>
    exact hquiet (by simp) (congrArg (· <|> st.findSome? Frame.embryo) u.next_embryo)
      (.setThread rfl) rfl
  | @updateMlfqs pc pc' p st hst =>
    cases hst with
    | @clamp u =>
      exact hquiet (by simp) (congrArg (· <|> st.findSome? Frame.embryo) u.next_embryo)
        (.setThread rfl) rfl
    | _ => exact hquiet (by simp) rfl (.setThread rfl) rfl
  | waitPush => exact hquiet (by simp) rfl ((QueueFrame.setSema (.inr rfl)).trans .setCond) rfl
  | signalRemove => exact hquiet (by simp) rfl .setCond rfl
  | setOrigin => exact hquiet (by simp) rfl (.setThread rfl) rfl
  | setStore => exact hquiet (by simp) rfl (.setThread rfl) rfl
  | setNice => exact hquiet (by simp) rfl (.setThread rfl) rfl
  | @createPage p st =>
    have hpage := h.fresh m.kernel.nextPage le_rfl
    have hq : Queues ⟨{ m.kernel with nextPage := m.kernel.nextPage + 1 }, m.ctl⟩ :=
      ⟨h.idle, fun u hu => h.fresh u (Nat.le_of_succ_le hu), h.ready, h.ready_nodup, h.waiting,
        h.waiting_nodup, h.sleeping, h.sleeping_nodup,
        fun u v huv => ⟨Nat.lt_succ_of_lt (h.embryo u v huv).1, (h.embryo u v huv).2⟩,
        h.embryo_unique⟩
    refine ⟨hq.setCtl ⟨hc.status, hc.only⟩ (fun heq => absurd heq (hidle (by simp)))
      fun v hv => .inr ?_, fun _ => ⟨hc.status, hc.only⟩, fun hs => absurd hs (by simp)⟩
    obtain rfl : m.kernel.nextPage = v := Option.some.inj hv
    refine ⟨Nat.lt_succ_self _, hpage.1, hpage.2, fun u hu => ?_⟩
    exact absurd (h.embryo u _ hu).1 (lt_irrefl _)
  | @createInit p t st k₁ hi =>
    obtain ⟨-, rfl⟩ := initThread_ok hi
    refine hquiet (by simp) rfl ?_ rfl
    have hblocked := (h.embryo _ t (by rw [hctl]; rfl)).2.2
    have hf : QueueFrame m.kernel (m.kernel.setThread t (freshThread .blocked p)) :=
      .setThread hblocked.symm
    exact ⟨hf.status, rfl, fun _ => .inl rfl, rfl, rfl, rfl⟩
  | createMlfqs hm => exact hquiet (by simp) rfl (.setThread rfl) rfl
  | @createUnblock p t st k₁ hub =>
    -- the running thread stops constructing `t`, which nobody else does, and readies it
    obtain rfl : st = [] := stack_nil_of_isEmpty hshape.enclosed
    have hcons : (m.ctl m.kernel.running).embryo = some t := by rw [hctl]; rfl
    obtain ⟨hlt, hfresh, -⟩ := h.embryo _ t hcons
    have hpc : m.pc t = .user := by unfold Machine.pc; rw [hfresh]
    have hq := h.setCtl hc (c := ⟨.createTest p, []⟩) (fun heq => absurd heq (hidle (by simp)))
      fun v hv => absurd hv (by simp [Control.embryo, Pc.embryo])
    have hready := Readied.of_unblock m.kernel.sleepHeap m.kernel.semas hub
      (fun s => ⟨List.Sublist.refl _, fun hmem =>
        absurd (hpc.symm.trans (h.waiting s t hmem).2) (by simp)⟩)
      ⟨le_rfl, fun hmem => absurd (hpc.symm.trans (h.sleeping t hmem).2) (by simp)⟩
    rw [← threadUnblock_semas hub] at hready
    refine ⟨hq.readied hready hlt fun u hu => ?_, fun _ => hc.readied hready,
      fun hs => absurd hs (by simp)⟩
    change (update m.ctl m.kernel.running ⟨.createTest p, []⟩ u).embryo = some t at hu
    by_cases hur : u = m.kernel.running
    · rw [hur, update_self] at hu
      exact absurd hu (by simp [Control.embryo, Pc.embryo])
    · rw [update_of_ne hur] at hu
      exact hur (h.embryo_unique u _ t hu hcons)
  | exit =>
    have hq := h.setCtl hc (c := ⟨.exited, []⟩) (fun heq => absurd heq (hidle (by simp)))
      fun v hv => absurd hv (by simp [Control.embryo, Pc.embryo])
    refine ⟨hq.parked hrun (fun u hu => status_update_of_ne hu) (.inl rfl) (fun _ => .inl rfl)
      (.inl rfl) rfl rfl, fun hs => absurd hs (by simp),
      fun _ => offCpu_of_park hc (fun u hu => status_update_of_ne hu) ?_⟩
    simp [Kernel.setThread]
  | @sleep n st k₁ hn hs =>
    obtain ⟨heap, rfl, hitems⟩ := sleepPark_ok hs
    have hq := hmove ⟨.sleepWake, st⟩ (by simp) rfl
    refine ⟨hq.parked hrun (fun u hu => status_update_of_ne hu) (.inl rfl) (fun _ => .inl rfl)
      (.inr ⟨hitems, by simp, by simp [Machine.pc]⟩) rfl rfl, fun hs => absurd hs (by simp),
      fun _ => offCpu_of_park hc (fun u hu => status_update_of_ne hu) ?_⟩
    simp

/-- A round of `timer_wake`: the thread leaves the sleeping heap and is ready. -/
theorem Queues.wake (h : Queues m) {heap : Heap Tid} {top : Tid}
    (hpop : heapPop (cmpAwakeTime m.kernel.threads) m.kernel.sleepHeap = .ok (top, heap))
    (hub : threadUnblock { m.kernel with sleepHeap := heap } top = .ok k') :
    Queues ⟨k', m.ctl⟩ ∧ Readied m.kernel k' top := by
  obtain ⟨-, hitems, -, -⟩ := heapPop_ok hpop
  have hmem : top ∈ m.kernel.sleepHeap.items := by
    rw [hitems]
    exact Multiset.mem_cons_self _ _
  have hpc := (h.sleeping top hmem).2
  have hnd := h.sleeping_nodup
  rw [hitems] at hnd
  have hready := Readied.of_unblock heap m.kernel.semas hub
    (fun s => ⟨List.Sublist.refl _, fun hw =>
      absurd (hpc.symm.trans (h.waiting s top hw).2) (by simp)⟩)
    ⟨by rw [hitems]; exact Multiset.le_cons_self _ _, (Multiset.nodup_cons.mp hnd).1⟩
  rw [show m.kernel.semas = k'.semas from (threadUnblock_semas hub).symm] at hready
  obtain ⟨hlt, hemb⟩ := h.old_of_pc (t := top) (by rw [hpc]; simp)
  exact ⟨h.readied hready hlt hemb, hready⟩

theorem Kernel.Rescored.queueFrame {k : Kernel} (h : k.Rescored k') : QueueFrame k k' := by
  obtain ⟨threads, la, rfl, hth⟩ := h
  refine ⟨fun t => ?_, rfl, fun _ => .inl rfl, rfl, rfl, rfl⟩
  obtain ⟨p, r, hpr⟩ := hth t
  dsimp only
  rw [hpr]

/-- A timer interrupt, up to the yield it may ask for. -/
theorem Queues.tick (h : Queues m) (hc : OnCpu m.kernel) {y : Bool} {k : Kernel}
    (hint : timerInterrupt m.kernel = .ok (y, k)) : Queues ⟨k, m.ctl⟩ ∧ OnCpu k := by
  obtain ⟨y₁, k₁, -, ⟨hq, hcpu, hr⟩, htick⟩ := timerInterrupt_ok
    (I := fun _ k₁ => Queues ⟨k₁, m.ctl⟩ ∧ OnCpu k₁ ∧ k₁.running = m.kernel.running) hint
    ⟨h.frame ⟨fun _ => rfl, rfl, fun _ => .inl rfl, rfl, rfl, rfl⟩, ⟨hc.status, hc.only⟩, rfl⟩
    fun y k₁ heap top k₂ hI hpop hub => by
      obtain ⟨hq, hready⟩ := hI.1.wake hpop hub
      exact ⟨hq, hI.2.1.readied hready, hready.running.trans hI.2.2⟩
  obtain ⟨k₂, -, -, hres, hk, -⟩ := threadTick_ok htick
  have hf : QueueFrame k₁ k := by
    rw [hk]
    exact hres.queueFrame.trans ⟨fun _ => rfl, rfl, fun _ => .inl rfl, rfl, rfl, rfl⟩
  have hrk : k.running = k₁.running := (timerInterrupt_setup hint).running.trans hr.symm
  exact ⟨hq.frame hf, hf.onCpu hrk hcpu⟩

theorem Settled.tick (h : Queues m) (hc : OnCpu m.kernel) {y : Bool} {k : Kernel}
    (hint : timerInterrupt m.kernel = .ok (y, k)) (hy : yieldOnReturn y k = .ok k') :
    Settled m ⟨k', m.ctl m.kernel.running, y⟩ := by
  obtain ⟨hqk, hck⟩ := h.tick hc hint
  have hrk : k.running = m.kernel.running := (timerInterrupt_setup hint).running
  cases y with
  | true =>
    have hset : Settled ⟨k, m.ctl⟩ ⟨k', m.ctl m.kernel.running, true⟩ := Settled.yield hqk hck
      (fun heq => by rw [← hrk, heq]; exact hqk.idle) (by dsimp only; rw [hrk]) hy
    refine ⟨?_, fun hs => absurd hs (by simp), hset.offCpu⟩
    have hsettle := hset.queues
    unfold Machine.settle at hsettle ⊢
    rwa [hrk] at hsettle
  | false =>
    cases hy
    refine ⟨?_, fun _ => hck, fun hs => absurd hs (by simp)⟩
    unfold Machine.settle
    rw [update_eq_self]
    exact hqk

/-- **What the queues are before the dispatch.** -/
theorem Settled.act (hflow : Flow m) (h : Queues m) (hc : OnCpu m.kernel) {e : Event}
    (ha : Act m e o) : Settled m o := by
  cases ha with
  | @call c hpc =>
    have hidle : m.kernel.running ≠ m.kernel.idleThread := by
      intro heq
      unfold Machine.curPc Machine.pc at hpc
      rw [heq, h.idle] at hpc
      cases hpc
    have hctl : m.ctl m.kernel.running = ⟨.user, (m.ctl m.kernel.running).stack⟩ := by
      rw [← hpc]
      rfl
    refine Settled.quiet h hc hidle ?_ (.refl _) rfl
    rw [hctl]
    cases c <;> rfl
  | exec hex => exact Settled.exec hflow h hc rfl hex
  | tick _ hint hy => exact Settled.tick h hc hint hy

end Code

/-! ### The invariant of all runs -/

/-- What holds in every run: the control flow, the queues and the thread on the CPU. -/
structure Scheduled (m : Machine) : Prop where
  flow : Flow m
  queues : Queues m
  cpu : OnCpu m.kernel

theorem boot_status (mlfqs : Bool) (v : ℕ → ℕ) (t : Tid) :
    ((boot mlfqs v).kernel.threads t).status =
      if t = 0 then .running else if t = 1 then .ready else .blocked := by
  unfold boot freshThread
  dsimp only
  split
  · rfl
  · split <;> rfl

theorem Scheduled.boot (mlfqs : Bool) (v : ℕ → ℕ) : Scheduled (boot mlfqs v) := by
  have hstatus := boot_status mlfqs v
  have hctl : ∀ t, (Pintos.boot mlfqs v).ctl t = ⟨if t = 1 then .idle else .user, []⟩ := by
    intro t
    unfold Pintos.boot
    dsimp only
    split <;> rfl
  have hembryo : ∀ t, ((Pintos.boot mlfqs v).ctl t).embryo = none := by
    intro t
    rw [hctl]
    split <;> rfl
  have hwaiters : ∀ s, ((Pintos.boot mlfqs v).kernel.semas s).waiters = [] := by
    intro s
    cases s <;> rfl
  have hempty : (Pintos.boot mlfqs v).kernel.readyHeap.items = 0 :=
    Heap.items_eq_zero_of_size rfl
  refine ⟨Flow.boot mlfqs v, ⟨hctl 1, ?_, ?_, ?_, ?_, ?_, ?_, ?_, ?_, ?_⟩, hstatus 0, ?_⟩
  · intro t ht
    have h0 : t ≠ 0 := Nat.ne_of_gt (Nat.lt_of_lt_of_le Nat.two_pos ht)
    have h1 : t ≠ 1 := Nat.ne_of_gt (Nat.lt_of_lt_of_le Nat.one_lt_two ht)
    rw [hctl, hstatus, if_neg h0, if_neg h1, if_neg h1]
    exact ⟨rfl, rfl⟩
  · intro t ht
    exact absurd ht (by rw [hempty]; exact Multiset.notMem_zero t)
  · rw [hempty]
    exact Multiset.nodup_zero
  · intro s t ht
    exact absurd ht (by rw [hwaiters]; exact List.not_mem_nil)
  · intro s
    rw [hwaiters]
    exact List.nodup_nil
  · intro t ht
    exact absurd ht (Multiset.notMem_zero t)
  · exact Multiset.nodup_zero
  · intro u t hu
    exact absurd hu (by rw [hembryo]; simp)
  · intro u u' t hu
    exact absurd hu (by rw [hembryo]; simp)
  · intro t ht
    rw [hstatus] at ht
    by_cases h0 : t = 0
    · exact h0
    · rw [if_neg h0] at ht
      split at ht <;> cases ht

/-- **Every step keeps the queues.** -/
theorem Scheduled.step {m m' : Machine} {e : Event} (h : Scheduled m)
    (hs : step m e = .ok m') : Scheduled m' := by
  obtain ⟨o, ho, hm'⟩ := step_ok hs
  have hset := Settled.act h.flow h.queues h.cpu (act_ok ho)
  rcases hm' with ⟨hsw, rfl⟩ | ⟨k, hsw, hk, rfl⟩
  · exact ⟨h.flow.step hs, hset.queues, hset.onCpu hsw⟩
  · obtain ⟨hq, hc⟩ := hset.queues.schedule (hset.offCpu hsw) hk
    exact ⟨h.flow.step hs, hq, hc⟩

/-- The queues are right in every state of every run. -/
theorem Scheduled.of_run {G : Guard Machine Event} {mlfqs : Bool} {v : ℕ → ℕ}
    {h : List (Machine × Event)} {m : Machine} (hrun : Run Pintos.step G (Pintos.boot mlfqs v) h m) :
    Scheduled m :=
  hrun.invariant (.boot mlfqs v) fun _ _ _ hI _ hs => hI.step hs

end Pintos
