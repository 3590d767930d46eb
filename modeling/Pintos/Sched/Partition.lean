import Pintos.Sync.Ownership

/-!
# Every thread is somewhere

`Pintos.Sched.Queues` says that a queued thread is in the state its queue stands for. This module
says the converse: a ready thread is in the ready heap, a blocked one is in the list of a semaphore
or in the sleeping heap, the page of a dead one has been given back. No thread gets lost.

The idle thread is the exception throughout. It is dispatched when the heap is empty and never put
there. Other exceptions are left to the caller, as a predicate `X` on the threads that are blocked
somewhere else: pages that are not threads yet, and threads that wait for a device.

* `Keeps k k' t` — every thread but `t` stays where it is; every step of the machine is a few of
  these, one for each thread it moves (`Exec.moves`, `Complete.tick`, `Complete.schedule`);
* `Complete.step` — no step loses a thread.
-/

namespace Pintos

open Transition Function List

/-- The thread is in the list of a semaphore, or in the sleeping heap. -/
def Kernel.Registered (k : Kernel) (t : Tid) : Prop :=
  (∃ s, t ∈ (k.semas s).waiters) ∨ t ∈ k.sleepHeap.items

/-- The thread is where its status says. -/
def Kernel.Home (k : Kernel) (X : Tid → Prop) (t : Tid) : Prop :=
  match (k.threads t).status with
  | .running => t = k.running
  | .ready => t ≠ k.idleThread → t ∈ k.readyHeap.items
  | .blocked => t ≠ k.idleThread → X t ∨ k.Registered t
  | .dying => t ≠ k.idleThread ∧ (t = k.running ∨ t = k.initialThread ∨ t ∈ k.freed)

/-- No thread is lost, and no page is given back twice. -/
structure Complete (X : Tid → Prop) (k : Kernel) : Prop where
  home : ∀ t, k.Home X t
  idle : k.idleThread ∉ k.readyHeap.items
  freed_nodup : k.freed.Nodup
  freed : ∀ t ∈ k.freed, (k.threads t).status = .dying ∧ t ≠ k.initialThread
  cur : k.running ∉ k.freed

/-- Every thread but `t` stays where it is. -/
structure Keeps (k k' : Kernel) (t : Tid) : Prop where
  status : ∀ u, u ≠ t → (k'.threads u).status = (k.threads u).status
  ready : ∀ u, u ≠ t → (u ∈ k'.readyHeap.items ↔ u ∈ k.readyHeap.items)
  waiters : ∀ s u, u ≠ t → (u ∈ (k'.semas s).waiters ↔ u ∈ (k.semas s).waiters)
  sleep : ∀ u, u ≠ t → (u ∈ k'.sleepHeap.items ↔ u ∈ k.sleepHeap.items)
  idle : k'.idleThread = k.idleThread
  initial : k'.initialThread = k.initialThread

section Complete

variable {k k' : Kernel} {X X' : Tid → Prop} {t u : Tid}

theorem Keeps.registered (h : Keeps k k' t) (hu : u ≠ t) : k'.Registered u ↔ k.Registered u := by
  unfold Kernel.Registered
  rw [h.sleep u hu]
  simp only [h.waiters _ u hu]

/-- A change that moves one thread, which is not dead and not dispatched. -/
structure Moves (X : Tid → Prop) (k k' : Kernel) (t : Tid) : Prop extends Keeps k k' t where
  running : k'.running = k.running
  freed : k'.freed = k.freed
  alive : (k.threads t).status ≠ .dying
  home : k'.Home X t
  notIdle : t = k.idleThread → t ∉ k'.readyHeap.items

theorem Complete.move (h : Complete X k) (hm : Moves X' k k' t) (hX : ∀ u, u ≠ t → X u → X' u) :
    Complete X' k' where
  home u := by
    by_cases hu : u = t
    · rw [hu]
      exact hm.home
    · have hhome := h.home u
      unfold Kernel.Home at hhome ⊢
      rw [hm.status u hu, hm.running, hm.idle, hm.initial, hm.freed, hm.ready u hu,
        hm.toKeeps.registered hu]
      cases hst : (k.threads u).status with
      | blocked =>
        rw [hst] at hhome
        exact fun hne => (hhome hne).imp (hX u hu) id
      | _ =>
        rw [hst] at hhome
        exact hhome
  idle := by
    rw [hm.idle]
    by_cases ht : k.idleThread = t
    · rw [ht]
      exact hm.notIdle ht.symm
    · rw [hm.ready _ ht]
      exact h.idle
  freed_nodup := by rw [hm.freed]; exact h.freed_nodup
  freed u hu := by
    rw [hm.freed] at hu
    have hne : u ≠ t := by
      rintro rfl
      exact hm.alive (h.freed u hu).1
    rw [hm.status u hne, hm.initial]
    exact h.freed u hu
  cur := by rw [hm.running, hm.freed]; exact h.cur

theorem Complete.mono (h : Complete X k) (hX : ∀ u, X u → X' u) : Complete X' k := by
  refine ⟨fun u => ?_, h.idle, h.freed_nodup, h.freed, h.cur⟩
  have hhome := h.home u
  unfold Kernel.Home at hhome ⊢
  cases hst : (k.threads u).status with
  | blocked =>
    rw [hst] at hhome
    exact fun hne => (hhome hne).imp (hX u) id
  | _ =>
    rw [hst] at hhome
    exact hhome

theorem threadScheduleTail_freed {p : Tid} (hp : p ≠ k.running) :
    (threadScheduleTail k (some p)).freed =
      if (k.threads p).status = .dying ∧ p ≠ k.initialThread then p :: k.freed else k.freed := by
  simp only [threadScheduleTail, Kernel.setThread, update_of_ne hp]
  split <;> rfl

theorem threadScheduleTail_running (prev : Option Tid) :
    (threadScheduleTail k prev).running = k.running := by
  unfold threadScheduleTail
  dsimp only
  split
  · rfl
  · split <;> rfl

/-- Which page a dispatch gives back. -/
theorem schedule_freed (h : schedule k = .ok k') :
    ((k.running ≠ k'.running ∧ (k.threads k.running).status = .dying ∧
        k.running ≠ k.initialThread) ∧ k'.freed = k.running :: k.freed) ∨
      (¬ (k.running ≠ k'.running ∧ (k.threads k.running).status = .dying ∧
        k.running ≠ k.initialThread) ∧ k'.freed = k.freed) := by
  obtain ⟨⟨next, k₁⟩, hnext, h⟩ := bind_eq_ok.mp h
  cases h
  have hk₁ : k₁.threads = k.threads ∧ k₁.freed = k.freed ∧ k₁.initialThread = k.initialThread := by
    unfold nextThreadToRun at hnext
    split at hnext
    · obtain ⟨-, rfl⟩ := Prod.mk.inj (Except.ok.inj hnext)
      exact ⟨rfl, rfl, rfl⟩
    · obtain ⟨⟨t, heap⟩, -, hk⟩ := bind_eq_ok.mp hnext
      obtain ⟨-, rfl⟩ := Prod.mk.inj (Except.ok.inj hk)
      exact ⟨rfl, rfl, rfl⟩
  rw [threadScheduleTail_running]
  by_cases hne : k.running = next
  · rw [if_neg (not_not.mpr hne)]
    exact .inr ⟨fun h => h.1 hne, hk₁.2.1⟩
  · rw [if_pos hne, threadScheduleTail_freed hne, hk₁.1, hk₁.2.1, hk₁.2.2]
    split
    · next hd => exact .inl ⟨⟨hne, hd⟩, rfl⟩
    · next hd => exact .inr ⟨fun h => hd h.2, rfl⟩

/-- **Dispatching** loses nobody, and gives the page of a dead predecessor back. -/
theorem Complete.schedule {m : Machine} (h : Complete X m.kernel) (hq : Queues m)
    (hoff : OffCpu m.kernel) (hs : Pintos.schedule m.kernel = .ok k') : Complete X k' := by
  have hfreed := schedule_freed hs
  obtain ⟨next, heap, freed, rfl, hcase⟩ := schedule_ok hs
  obtain ⟨hready, hidle, halive⟩ : (∀ u, u ≠ next → (u ∈ heap.items ↔ u ∈ m.kernel.readyHeap.items)) ∧
      m.kernel.idleThread ∉ heap.items ∧ (m.kernel.threads next).status ≠ .dying := by
    rcases hcase with ⟨-, rfl, rfl⟩ | hpop
    · refine ⟨fun _ _ => Iff.rfl, h.idle, fun hst => ?_⟩
      have hhome := h.home m.kernel.idleThread
      unfold Kernel.Home at hhome
      rw [hst] at hhome
      exact hhome.1 rfl
    · obtain ⟨-, hitems, -, -⟩ := heapPop_ok hpop
      refine ⟨fun u hu => ?_, fun hmem => h.idle ?_, ?_⟩
      · rw [hitems, Multiset.mem_cons]
        exact ⟨.inr, fun hmem => hmem.resolve_left hu⟩
      · rw [hitems]
        exact Multiset.mem_cons_of_mem hmem
      · rw [hq.ready next (by rw [hitems]; exact Multiset.mem_cons_self _ _)]
        simp
  have hother : ∀ u, (m.kernel.threads u).status = .dying → u ≠ next := by
    rintro u hu rfl
    exact halive hu
  -- the pages given back now: the old ones, and the predecessor's if it is dead
  obtain ⟨hnodup, hmem, hold, hnew⟩ : freed.Nodup ∧
      (∀ u ∈ freed, (m.kernel.threads u).status = .dying ∧ u ≠ m.kernel.initialThread) ∧
      (∀ u ∈ m.kernel.freed, u ∈ freed) ∧
      ((m.kernel.threads m.kernel.running).status = .dying → m.kernel.running ≠ next →
        m.kernel.running = m.kernel.initialThread ∨ m.kernel.running ∈ freed) := by
    rcases hfreed with ⟨hdead, rfl⟩ | ⟨halive, rfl⟩
    · refine ⟨nodup_cons.mpr ⟨h.cur, h.freed_nodup⟩, fun u hu => ?_,
        fun u hu => mem_cons_of_mem _ hu, fun _ _ => .inr mem_cons_self⟩
      rcases mem_cons.mp hu with rfl | hu
      · exact hdead.2
      · exact h.freed u hu
    · refine ⟨h.freed_nodup, h.freed, fun u hu => hu, fun hst hne => .inl ?_⟩
      exact not_not.mp fun hinit => halive ⟨hne, hst, hinit⟩
  refine ⟨fun u => ?_, hidle, hnodup, fun u hu => ?_, fun hu => halive (hmem next hu).1⟩
  · by_cases hu : u = next
    · unfold Kernel.Home
      dsimp only
      rw [hu, update_self]
    · have hhome := h.home u
      unfold Kernel.Home at hhome ⊢
      dsimp only
      rw [update_of_ne hu]
      cases hst : (m.kernel.threads u).status with
      | running => exact absurd hst (hoff u)
      | ready =>
        rw [hst] at hhome
        exact fun hne => (hready u hu).mpr (hhome hne)
      | blocked =>
        rw [hst] at hhome
        exact hhome
      | dying =>
        rw [hst] at hhome
        refine ⟨hhome.1, .inr ?_⟩
        rcases hhome.2 with rfl | hinit | hfreed
        · exact hnew hst hu
        · exact .inl hinit
        · exact .inr (hold u hfreed)
  · obtain ⟨hst, hinit⟩ := hmem u hu
    dsimp only
    rw [update_of_ne (hother u hst)]
    exact ⟨hst, hinit⟩

end Complete

/-! ### The running thread's code -/

/-- Who may move, and what becomes of a page under construction and of the fresh pages when thread
`t` does. -/
structure Carries (m : Machine) (o : Outcome) (t : Tid) : Prop where
  who : t = m.kernel.running ∨ m.kernel.Registered t ∨ (m.ctl m.kernel.running).embryo = some t
  embryo : ∀ v, v ≠ t → (m.ctl m.kernel.running).embryo = some v → o.ctl.embryo = some v
  fresh : ∀ v, m.kernel.nextPage ≤ v → o.kernel.nextPage ≤ v ∨ o.ctl.embryo = some v

section Code

variable {m : Machine} {o : Outcome} {k' : Kernel} {c c' : Control} {X : Tid → Prop} {t : Tid}

/-- A change in which no thread moves. -/
theorem Moves.quiet (hq : Queues m) (hc : OnCpu m.kernel) (hf : QueueFrame m.kernel k')
    (hw : ∀ s, (k'.semas s).waiters = (m.kernel.semas s).waiters)
    (hr : k'.running = m.kernel.running) (hi : k'.initialThread = m.kernel.initialThread)
    (hfreed : k'.freed = m.kernel.freed) : Moves X m.kernel k' m.kernel.running where
  status u _ := hf.status u
  ready u _ := by rw [hf.ready]
  waiters s u _ := by rw [hw]
  sleep u _ := by rw [hf.sleep]
  idle := hf.idle
  initial := hi
  running := hr
  freed := hfreed
  alive := by
    rw [show (m.kernel.threads m.kernel.running).status = .running from hc.status]
    simp
  home := by
    unfold Kernel.Home
    rw [hf.status, show (m.kernel.threads m.kernel.running).status = .running from hc.status]
    exact hr.symm
  notIdle _ := by
    rw [hf.ready]
    exact hq.cur_notMem_ready hc

/-- A thread becomes ready. -/
theorem Moves.rise (hr : Readied m.kernel k' t) (hidle : t ≠ m.kernel.idleThread)
    (hw : ∀ s u, u ≠ t → u ∈ (m.kernel.semas s).waiters → u ∈ (k'.semas s).waiters)
    (hs : ∀ u, u ≠ t → u ∈ m.kernel.sleepHeap.items → u ∈ k'.sleepHeap.items)
    (hi : k'.initialThread = m.kernel.initialThread) (hfreed : k'.freed = m.kernel.freed) :
    Moves X m.kernel k' t where
  status := hr.status
  ready u hu := by
    rw [hr.ready, Multiset.mem_cons]
    exact ⟨fun h => h.resolve_left hu, .inr⟩
  waiters s u hu := ⟨fun h => (hr.waiters s).1.subset h, hw s u hu⟩
  sleep u hu := ⟨fun h => Multiset.mem_of_le hr.sleep.1 h, hs u hu⟩
  idle := hr.idle
  initial := hi
  running := hr.running
  freed := hfreed
  alive := by
    rw [hr.blocked]
    simp
  home := by
    unfold Kernel.Home
    rw [hr.status_self]
    intro _
    rw [hr.ready]
    exact Multiset.mem_cons_self _ _
  notIdle heq := absurd heq hidle

theorem home_blocked {k : Kernel} (h : (k.threads t).status = .blocked) :
    k.Home X t = (t ≠ k.idleThread → X t ∨ k.Registered t) := by
  unfold Kernel.Home
  rw [h]

theorem home_ready {k : Kernel} (h : (k.threads t).status = .ready) :
    k.Home X t = (t ≠ k.idleThread → t ∈ k.readyHeap.items) := by
  unfold Kernel.Home
  rw [h]

/-- A thread that is not in the loop of `idle` is not the idle thread. -/
theorem Queues.ne_idle_of_pc (hq : Queues m) (hpc : m.pc t ≠ .idle) : t ≠ m.kernel.idleThread := by
  rintro rfl
  apply hpc
  unfold Machine.pc
  rw [hq.idle]

/-- The running thread gives up the CPU. -/
theorem Moves.park (hq : Queues m) (hc : OnCpu m.kernel)
    (hk : Keeps m.kernel k' m.kernel.running) (hr : k'.running = m.kernel.running)
    (hfreed : k'.freed = m.kernel.freed) (hhome : k'.Home X m.kernel.running)
    (hidle : m.kernel.running = m.kernel.idleThread → k'.readyHeap.items = m.kernel.readyHeap.items) :
    Moves X m.kernel k' m.kernel.running where
  toKeeps := hk
  running := hr
  freed := hfreed
  alive := by
    rw [show (m.kernel.threads m.kernel.running).status = .running from hc.status]
    simp
  home := hhome
  notIdle heq := by
    rw [hidle heq]
    exact hq.cur_notMem_ready hc

/-- The running thread gives up the CPU and may enter a queue: the others stay. -/
theorem Keeps.of_park {k : Kernel} {x : Thread}
    (hth : k'.threads = update k.threads t x)
    (hready : k'.readyHeap.items = k.readyHeap.items ∨
      k'.readyHeap.items = t ::ₘ k.readyHeap.items)
    (hwait : ∀ s, (k'.semas s).waiters = (k.semas s).waiters ∨
      (k'.semas s).waiters = (k.semas s).waiters ++ [t])
    (hsleep : k'.sleepHeap.items = k.sleepHeap.items ∨
      k'.sleepHeap.items = t ::ₘ k.sleepHeap.items)
    (hidle : k'.idleThread = k.idleThread) (hinit : k'.initialThread = k.initialThread) :
    Keeps k k' t where
  status u hu := by rw [hth, update_of_ne hu]
  ready u hu := by
    rcases hready with h | h <;> rw [h]
    rw [Multiset.mem_cons]
    exact or_iff_right hu
  waiters s u hu := by
    rcases hwait s with h | h <;> rw [h]
    rw [mem_append, mem_singleton]
    exact or_iff_left hu
  sleep u hu := by
    rcases hsleep with h | h <;> rw [h]
    rw [Multiset.mem_cons]
    exact or_iff_right hu
  idle := hidle
  initial := hinit

/-- `thread_yield`, up to the dispatch. -/
theorem Moves.yield (hq : Queues m) (hc : OnCpu m.kernel) (hy : yieldPark m.kernel = .ok k') :
    Moves X m.kernel k' m.kernel.running := by
  rcases yieldPark_ok hy with ⟨hne, hpush⟩ | ⟨heq, rfl⟩
  · obtain ⟨ord, heap, rfl, hitems, -⟩ := pushReady_ok hpush
    refine .park hq hc (.of_park rfl (.inr hitems) (fun _ => .inl rfl) (.inl rfl) rfl rfl) rfl
      rfl ?_ fun heq => absurd heq hne
    rw [home_ready (by simp)]
    intro _
    rw [hitems]
    exact Multiset.mem_cons_self _ _
  · refine .park hq hc (.of_park rfl (.inl rfl) (fun _ => .inl rfl) (.inl rfl) rfl rfl) rfl
      rfl ?_ fun _ => rfl
    rw [home_ready (by simp [Kernel.setThread])]
    exact fun hne => absurd heq hne

/-- **The threads that the code moves.** It moves one: itself, when it gives up the CPU, or the
thread that it readies. -/
theorem Exec.moves (X : Tid → Prop) (hsch : Scheduled m) (hctl : m.ctl m.kernel.running = c)
    (honly : c.pc = .idle → m.kernel.running = m.kernel.idleThread) (hex : Exec m.kernel c o) :
    ∃ t, Moves X m.kernel o.kernel t ∧ Carries m o t := by
  have hq := hsch.queues
  have hshape := hctl ▸ hsch.flow m.kernel.running
  have hrun : (m.kernel.threads m.kernel.running).status = .running := hsch.cpu.status
  have hidle : c.pc ≠ .idle → m.kernel.running ≠ m.kernel.idleThread := by
    intro hpc heq
    rw [heq, hq.idle] at hctl
    exact hpc (hctl ▸ rfl)
  have hcarry : ∀ {t : Tid} {k' : Kernel} {c' : Control} {sw : Bool},
      t = m.kernel.running ∨ m.kernel.Registered t → c'.embryo = c.embryo →
      k'.nextPage = m.kernel.nextPage → Carries m ⟨k', c', sw⟩ t :=
    fun hwho hemb hnext => ⟨hwho.imp id .inl, fun v _ hv => (hemb.trans (hctl ▸ rfl)).trans hv,
      fun v hv => .inl (hnext.trans_le hv)⟩
  have hquiet : ∀ {k' : Kernel} {c' : Control}, c'.embryo = c.embryo → QueueFrame m.kernel k' →
      (∀ s, (k'.semas s).waiters = (m.kernel.semas s).waiters) →
      k'.running = m.kernel.running → k'.initialThread = m.kernel.initialThread →
      k'.freed = m.kernel.freed →
      ∃ t, Moves X m.kernel k' t ∧ Carries m ⟨k', c', false⟩ t :=
    fun hemb hf hw hr hi hfreed =>
      ⟨_, .quiet hq hsch.cpu hf hw hr hi hfreed, hcarry (.inl rfl) hemb hf.nextPage⟩
  have hvalue : ∀ {s : SemaRef} {v : ℕ} (s' : SemaRef),
      ((m.kernel.setSema s { m.kernel.semas s with value := v }).semas s').waiters
        = (m.kernel.semas s').waiters :=
    fun s' => by
      refine apply_update_same Semaphore.waiters ?_ s'
      rfl
  cases hex with
  | silent hs => exact hquiet hs.embryo (.refl _) (fun _ => rfl) rfl rfl rfl
  | @idle st =>
    refine ⟨_, .park hq hsch.cpu (.of_park rfl (.inl rfl) (fun _ => .inl rfl) (.inl rfl) rfl rfl)
      rfl rfl ?_ (fun _ => rfl), hcarry (.inl rfl) rfl rfl⟩
    rw [home_blocked (by simp [blockPark, Kernel.setThread])]
    exact fun hne => absurd (honly rfl) hne
  | @downBlock pc s st hpc hv =>
    have hne : pc.embryo = none := by rcases hpc with rfl | rfl <;> rfl
    refine ⟨_, .park hq hsch.cpu (.of_park rfl (.inl rfl) (fun s' => ?_) (.inl rfl) rfl rfl) rfl rfl ?_
      (fun _ => rfl), hcarry (.inl rfl) (Control.embryo_of_pc hne).symm rfl⟩
    · by_cases hs : s' = s
      · subst hs
        exact .inr (by simp [blockPark, Kernel.setThread, Kernel.setSema])
      · exact .inl (by simp [blockPark, Kernel.setThread, Kernel.setSema, update_of_ne hs])
    · rw [home_blocked (by simp [blockPark, Kernel.setThread, Kernel.setSema])]
      exact fun _ => .inr (.inl ⟨s, by simp [blockPark, Kernel.setThread, Kernel.setSema]⟩)
  | @downTake pc s st hpc hv =>
    have hne : pc.embryo = none := by rcases hpc with rfl | rfl <;> rfl
    refine hquiet ?_ (.setSema (.inl rfl)) hvalue rfl rfl rfl
    rw [afterDown_embryo, Control.embryo_of_pc hne]
  | tryDown => exact hquiet (embryo_ret _ _) (.setSema (.inl rfl)) hvalue rfl rfl rfl
  | @upNone s st hw =>
    refine hquiet rfl (.setSema (.inr rfl)) (fun s' => ?_) rfl rfl rfl
    exact apply_update_same Semaphore.waiters hw.symm s'
  | @upWake s st t k₁ hmem _ hub =>
    have hpc := (hq.waiting s t hmem).2
    unfold Kernel.setSema
    rw [threadUnblock_semas hub]
    have hready := Readied.of_unblock m.kernel.sleepHeap _ hub
      (hq.waiters_erase (v := ((m.kernel.semas s).value + 1) % 2 ^ 32) hmem)
      ⟨le_rfl, hq.notMem_sleep_of_waiting hmem⟩
    obtain ⟨ord, heap, rfl, -⟩ := pushReady_ok (threadUnblock_ok hub).2
    refine ⟨t, .rise hready (hq.ne_idle_of_pc (by rw [hpc]; simp)) (fun s' u hu hmem' => ?_)
      (fun _ _ h => h) rfl rfl, hcarry (.inr (.inl ⟨s, hmem⟩)) rfl rfl⟩
    by_cases hs : s' = s
    · subst hs
      dsimp only
      rw [update_self]
      exact (mem_erase_of_ne hu).mpr hmem'
    · dsimp only
      rw [update_of_ne hs]
      exact hmem'
  | yield hy =>
    exact ⟨_, .yield hq hsch.cpu hy,
      hcarry (.inl rfl) (embryo_ret _ _) (yieldPark_tables hy).nextPage⟩
  | tryTake => exact hquiet rfl (.setSema (.inl rfl)) hvalue rfl rfl rfl
  | setHolder => exact hquiet rfl .setLock (fun _ => rfl) rfl rfl rfl
  | pushHolding => exact hquiet (embryo_ret _ _) (.setThread rfl) (fun _ => rfl) rfl rfl rfl
  | setWaiting => exact hquiet rfl (.setThread rfl) (fun _ => rfl) rfl rfl rfl
  | donateStore => exact hquiet rfl .setLock (fun _ => rfl) rfl rfl rfl
  | donateRaise => exact hquiet rfl (.setThread rfl) (fun _ => rfl) rfl rfl rfl
  | sortHeap =>
    exact hquiet rfl ⟨fun _ => rfl, heapRebuild_items _ _, fun _ => .inl rfl, rfl, rfl, rfl⟩
      (fun _ => rfl) rfl rfl rfl
  | acquired =>
    exact hquiet (embryo_ret _ _) (QueueFrame.setLock.trans (.setThread rfl)) (fun _ => rfl) rfl rfl rfl
  | releaseClear =>
    exact hquiet rfl (QueueFrame.setLock.trans (.setThread rfl)) (fun _ => rfl) rfl rfl rfl
  | @updateStore u p st =>
    exact hquiet (congrArg (· <|> st.findSome? Frame.embryo) u.next_embryo) (.setThread rfl)
      (fun _ => rfl) rfl rfl rfl
  | @updateMlfqs pc pc' p st hst =>
    cases hst with
    | @clamp u =>
      exact hquiet (congrArg (· <|> st.findSome? Frame.embryo) u.next_embryo) (.setThread rfl)
        (fun _ => rfl) rfl rfl rfl
    | _ => exact hquiet rfl (.setThread rfl) (fun _ => rfl) rfl rfl rfl
  | waitPush =>
    -- nobody is in the list of the semaphore that is initialized
    refine hquiet rfl ((QueueFrame.setSema (.inr rfl)).trans .setCond) (fun s' => ?_) rfl rfl rfl
    refine apply_update_same Semaphore.waiters (Eq.symm ?_) s'
    refine eq_nil_iff_forall_not_mem.mpr fun w hw => ?_
    have hpc := (hq.waiting _ w hw).2
    obtain rfl := hsch.flow.eq_of_retest hpc
    have hst := (hq.waiting _ _ hw).1
    rw [hrun] at hst
    cases hst
  | signalRemove => exact hquiet rfl .setCond (fun _ => rfl) rfl rfl rfl
  | setOrigin => exact hquiet rfl (.setThread rfl) (fun _ => rfl) rfl rfl rfl
  | setStore => exact hquiet rfl (.setThread rfl) (fun _ => rfl) rfl rfl rfl
  | setNice => exact hquiet rfl (.setThread rfl) (fun _ => rfl) rfl rfl rfl
  | @createPage p st =>
    refine ⟨m.kernel.running, .park hq hsch.cpu ⟨fun _ _ => rfl, fun _ _ => Iff.rfl, fun _ _ _ => Iff.rfl,
      fun _ _ => Iff.rfl, rfl, rfl⟩ rfl rfl ?_ (fun _ => rfl), .inl rfl, fun v _ hv => ?_,
      fun v hv => ?_⟩
    · unfold Kernel.Home
      rw [hrun]
    · obtain rfl := stack_nil_of_isEmpty hshape.enclosed
      rw [hctl] at hv
      exact absurd hv (by simp [Control.embryo, Pc.embryo])
    · rcases Nat.eq_or_lt_of_le hv with rfl | hlt
      · exact .inr rfl
      · exact .inl hlt
  | @createInit p t st k₁ hi =>
    obtain ⟨-, rfl⟩ := initThread_ok hi
    have hblocked := (hq.embryo _ t (by rw [hctl]; rfl)).2.2
    have hf : QueueFrame m.kernel (m.kernel.setThread t (freshThread .blocked p)) :=
      .setThread hblocked.symm
    exact hquiet rfl ⟨hf.status, rfl, fun _ => .inl rfl, rfl, rfl, rfl⟩ (fun _ => rfl) rfl rfl rfl
  | createMlfqs => exact hquiet rfl (.setThread rfl) (fun _ => rfl) rfl rfl rfl
  | @createUnblock p t st k₁ hub =>
    have hcons : (m.ctl m.kernel.running).embryo = some t := by rw [hctl]; rfl
    have hpc : m.pc t = .user := by
      unfold Machine.pc
      rw [(hq.embryo _ t hcons).2.1]
    have hready := Readied.of_unblock m.kernel.sleepHeap m.kernel.semas hub
      (fun s => ⟨List.Sublist.refl _, fun hmem =>
        absurd (hpc.symm.trans (hq.waiting s t hmem).2) (by simp)⟩)
      ⟨le_rfl, fun hmem => absurd (hpc.symm.trans (hq.sleeping t hmem).2) (by simp)⟩
    obtain ⟨ord, heap, rfl, -⟩ := pushReady_ok (threadUnblock_ok hub).2
    refine ⟨t, .rise hready (hq.ne_idle_of_pc (by rw [hpc]; simp)) (fun _ _ _ h => h)
      (fun _ _ h => h) rfl rfl, .inr (.inr hcons), fun v hv hemb => ?_, fun v hv => .inl hv⟩
    exact absurd (Option.some.inj (hcons.symm.trans hemb)).symm hv
  | exit =>
    refine ⟨_, .park hq hsch.cpu (.of_park rfl (.inl rfl) (fun _ => .inl rfl) (.inl rfl) rfl rfl)
      rfl rfl ?_ (fun _ => rfl), .inl rfl, fun v _ hv => ?_, fun v hv => .inl hv⟩
    · unfold Kernel.Home
      simp only [Kernel.setThread, update_self]
      exact ⟨hidle (by simp), .inl trivial⟩
    · obtain rfl := stack_nil_of_isEmpty hshape.enclosed
      rw [hctl] at hv
      exact absurd hv (by simp [Control.embryo, Pc.embryo])
  | @sleep n st k₁ hn hs =>
    obtain ⟨heap, rfl, hitems⟩ := sleepPark_ok hs
    refine ⟨_, .park hq hsch.cpu (.of_park rfl (.inl rfl) (fun _ => .inl rfl) (.inr hitems) rfl rfl)
      rfl rfl ?_ (fun _ => rfl), hcarry (.inl rfl) rfl rfl⟩
    rw [home_blocked (by simp)]
    refine fun _ => .inr (.inr ?_)
    rw [hitems]
    exact Multiset.mem_cons_self _ _

/-! ### The idle thread -/

theorem ret_inside (t : Tid) (st : List Frame) :
    (ret t st).pc ≠ .idle ∧ (ret t st).pc ≠ .exited := by
  cases st with
  | nil => simp [ret]
  | cons f st => cases f <;> simp [ret]

/-- Nothing leads into the loop of `idle`, and only `thread_exit` leads out of the code. -/
theorem Exec.pc_cases {k : Kernel} (hex : Exec k c o) :
    (c.pc = .idle ∧ o.ctl.pc = .idle) ∨
      (o.ctl.pc = .exited ∧ o.kernel.allList = k.allList.erase k.running) ∨
      (o.ctl.pc ≠ .idle ∧ o.ctl.pc ≠ .exited) := by
  cases hex with
  | idle => exact .inl ⟨rfl, rfl⟩
  | exit => exact .inr (.inl ⟨rfl, rfl⟩)
  | silent hs =>
    refine .inr (.inr ?_)
    cases hs <;> first | exact ret_inside _ _ | simp
  | @downTake pc s st =>
    refine .inr (.inr ?_)
    cases s with
    | lock l => simp [afterDown]
    | sema n | waiter n => exact ret_inside _ _
  | @updateStore u =>
    refine .inr (.inr ?_)
    cases u <;> simp [Updater.next]
  | updateMlfqs hst =>
    refine .inr (.inr ?_)
    cases hst with
    | @clamp u => cases u <;> simp [Updater.next]
    | _ => simp
  | _ =>
    refine .inr (.inr ?_)
    first | exact ret_inside _ _ | simp

/-- Only the idle thread is in the loop of `idle`. -/
def OnlyIdle (m : Machine) : Prop := ∀ t, m.pc t = .idle → t = m.kernel.idleThread

theorem OnlyIdle.settle {e : Event} (h : OnlyIdle m) (ha : Act m e o) : OnlyIdle (m.settle o) := by
  intro t ht
  rw [settle_pc] at ht
  change t = o.kernel.idleThread
  rw [ha.setup.idleThread]
  split at ht
  · next heq =>
    subst heq
    cases ha with
    | @call c _ => cases c <;> exact absurd ht (by simp [Call.entry])
    | exec hex =>
      rcases hex.pc_cases with ⟨hpc, -⟩ | ⟨hexit, -⟩ | ⟨hne, -⟩
      · exact h _ hpc
      · exact absurd (hexit.symm.trans ht) (by simp)
      · exact absurd ht hne
    | tick => exact h _ ht
  · exact h t ht

theorem schedule_idleThread {k : Kernel} (h : schedule k = .ok k') :
    k'.idleThread = k.idleThread := by
  obtain ⟨next, heap, freed, rfl, -⟩ := schedule_ok h
  rfl

theorem step_idleThread {e : Event} {m' : Machine} (hs : step m e = .ok m') :
    m'.kernel.idleThread = m.kernel.idleThread := by
  obtain ⟨o, ha, hm'⟩ := step_cases hs
  have hidle := ha.setup.idleThread
  rcases hm' with ⟨-, rfl⟩ | ⟨k, -, hk, rfl⟩
  · exact hidle
  · exact (schedule_idleThread hk).trans hidle

theorem OnlyIdle.step {e : Event} {m' : Machine} (h : OnlyIdle m) (hs : Pintos.step m e = .ok m') :
    OnlyIdle m' := by
  intro t ht
  have hidle := step_idleThread hs
  obtain ⟨o, ha, hctl, -⟩ := step_act hs
  unfold Machine.pc at ht
  rw [hctl] at ht
  rw [hidle, ← ha.setup.idleThread]
  exact h.settle ha t ht

/-! ### Steps -/

/-- A timer interrupt, up to the yield it may ask for. -/
theorem Complete.tick (h : Complete X m.kernel) (hq : Queues m) (hc : OnCpu m.kernel) {y : Bool}
    (hint : timerInterrupt m.kernel = .ok (y, k')) : Complete X k' := by
  obtain ⟨y₁, k₁, -, ⟨hq₁, hc₁, h₁⟩, htick⟩ := timerInterrupt_ok
    (I := fun _ k₁ => Queues ⟨k₁, m.ctl⟩ ∧ OnCpu k₁ ∧ Complete X k₁) hint
    ⟨hq.frame ⟨fun _ => rfl, rfl, fun _ => .inl rfl, rfl, rfl, rfl⟩, ⟨hc.status, hc.only⟩,
      h.home, h.idle, h.freed_nodup, h.freed, h.cur⟩
    fun y k₁ heap top k₂ hI hpop hub => by
      obtain ⟨hq₁, hc₁, h₁⟩ := hI
      obtain ⟨hq₂, hready⟩ := hq₁.wake hpop hub
      obtain ⟨-, hitems, -, -⟩ := heapPop_ok hpop
      have hpc := (hq₁.sleeping top (by rw [hitems]; exact Multiset.mem_cons_self _ _)).2
      refine ⟨hq₂, hc₁.readied hready, h₁.move (.rise hready ?_ ?_ ?_ ?_ ?_) fun _ _ hX => hX⟩
      · exact hq₁.ne_idle_of_pc (by rw [hpc]; simp)
      · rw [threadUnblock_semas hub]
        exact fun _ _ _ hw => hw
      · obtain ⟨ord, heap', rfl, -⟩ := pushReady_ok (threadUnblock_ok hub).2
        intro u hu hmem
        rw [hitems] at hmem
        exact (Multiset.mem_cons.mp hmem).resolve_left hu
      · obtain ⟨ord, heap', rfl, -⟩ := pushReady_ok (threadUnblock_ok hub).2
        rfl
      · obtain ⟨ord, heap', rfl, -⟩ := pushReady_ok (threadUnblock_ok hub).2
        rfl
  obtain ⟨k₂, -, -, hres, rfl, -⟩ := threadTick_ok htick
  have hf := hres.queueFrame
  obtain ⟨threads, la, rfl, -⟩ := hres
  exact h₁.move (.quiet hq₁ hc₁ ⟨hf.status, rfl, fun _ => .inl rfl, rfl, rfl, rfl⟩ (fun _ => rfl)
    rfl rfl rfl) fun _ _ hX => hX

/-- A page that is no thread yet stays one, unless it is readied. -/
theorem Unborn.carry
    (hemb : ∀ v, v ≠ t → (m.ctl m.kernel.running).embryo = some v → o.ctl.embryo = some v)
    (hfresh : ∀ v, m.kernel.nextPage ≤ v → o.kernel.nextPage ≤ v ∨ o.ctl.embryo = some v)
    {u : Tid} (hu : u ≠ t) (hun : m.Unborn u) : (m.settle o).Unborn u := by
  rcases hun with hge | ⟨v, hv⟩
  · refine (hfresh u hge).imp id fun hemb => ⟨m.kernel.running, ?_⟩
    exact (congrArg Control.embryo (update_self ..)).trans hemb
  · refine .inr ⟨v, ?_⟩
    change (update m.ctl m.kernel.running o.ctl v).embryo = some u
    by_cases hr : v = m.kernel.running
    · subst hr
      rw [update_self]
      exact hemb u hu hv
    · rwa [update_of_ne hr]

variable {W : Tid → Prop} {e : Event} {m' : Machine}

theorem Complete.act (h : Complete (fun t => m.Unborn t ∨ W t) m.kernel) (hsch : Scheduled m)
    (honly : OnlyIdle m) (ha : Act m e o) :
    Complete (fun t => (m.settle o).Unborn t ∨ W t) o.kernel := by
  cases ha with
  | @call c hpc =>
    refine h.mono fun u hu => hu.imp (fun hun => ?_) id
    refine Unborn.carry (t := u + 1) (fun v _ hv => ?_) (fun v hv => .inl hv)
      (Nat.ne_of_lt (Nat.lt_succ_self u)) hun
    have hnone : (m.ctl m.kernel.running).embryo = none := by
      unfold Control.embryo
      rw [hsch.flow.stack_of_user hpc, show (m.ctl m.kernel.running).pc = .user from hpc]
      rfl
    exact absurd (hnone.symm.trans hv) (by simp)
  | exec hex =>
    obtain ⟨t, hmoves, hcarry⟩ := hex.moves _ hsch rfl (honly _)
    exact h.move hmoves fun u hu hX => hX.imp (Unborn.carry hcarry.embryo hcarry.fresh hu) id
  | @tick y k k' hon hint hy =>
    obtain ⟨hqk, hck⟩ := hsch.queues.tick hsch.cpu hint
    have hcomplete := h.tick hsch.queues hsch.cpu hint
    have hcarry : ∀ u, m.Unborn u → (m.settle ⟨k', m.ctl m.kernel.running, y⟩).Unborn u := by
      refine fun u hun => Unborn.carry (t := u + 1) (fun v _ hv => hv) (fun v hv => .inl ?_)
        (Nat.ne_of_lt (Nat.lt_succ_self u)) hun
      exact (tick_tables hint hy).nextPage.trans_le hv
    cases y with
    | true =>
      exact hcomplete.move (.yield (m := ⟨k, m.ctl⟩) hqk hck hy) fun u _ hX => hX.imp (hcarry u) id
    | false =>
      cases hy
      exact hcomplete.mono fun u hX => hX.imp (hcarry u) id

theorem Complete.step (h : Complete (fun t => m.Unborn t ∨ W t) m.kernel) (hsch : Scheduled m)
    (honly : OnlyIdle m) (hs : Pintos.step m e = .ok m') :
    Complete (fun t => m'.Unborn t ∨ W t) m'.kernel := by
  obtain ⟨o, ha, hm'⟩ := step_cases hs
  have hset := Settled.act hsch.flow hsch.queues hsch.cpu ha
  have hact := h.act hsch honly ha
  rcases hm' with ⟨-, rfl⟩ | ⟨k, hsw, hk, rfl⟩
  · exact hact
  · have hsched := hact.schedule (m := m.settle o) hset.queues (hset.offCpu hsw) hk
    refine hsched.mono fun u hu => hu.imp (fun hun => ?_) id
    unfold Machine.Unborn at hun ⊢
    dsimp only
    rw [(dispatched_of_schedule hk).nextPage]
    exact hun

/-! ### Threads that wait elsewhere -/

/-- A timer interrupt wakes nobody but sleepers. -/
theorem timerInterrupt_blocked {k : Kernel} {y : Bool} (h : timerInterrupt k = .ok (y, k'))
    (hst : (k.threads t).status = .blocked) (hsl : t ∉ k.sleepHeap.items) :
    (k'.threads t).status = .blocked := by
  obtain ⟨y₁, k₁, -, ⟨hst₁, -⟩, htick⟩ := timerInterrupt_ok
    (I := fun _ k₁ => (k₁.threads t).status = .blocked ∧ t ∉ k₁.sleepHeap.items) h ⟨hst, hsl⟩
    fun y k₁ heap top k₂ hI hpop hub => by
      obtain ⟨-, hitems, -, -⟩ := heapPop_ok hpop
      obtain ⟨ord, heap', rfl, -⟩ := pushReady_ok (threadUnblock_ok hub).2
      have hne : t ≠ top := by
        rintro rfl
        exact hI.2 (by rw [hitems]; exact Multiset.mem_cons_self _ _)
      refine ⟨(congrArg Thread.status (update_of_ne hne ..)).trans hI.1, fun hmem => hI.2 ?_⟩
      rw [hitems]
      exact Multiset.mem_cons_of_mem hmem
  obtain ⟨k₂, -, -, hres, rfl, -⟩ := threadTick_ok htick
  exact (hres.queueFrame.status t).trans hst₁

/-- A dispatch puts a ready thread on the CPU, or the idle thread. -/
theorem Queues.schedule_blocked (hq : Queues m) (hs : Pintos.schedule m.kernel = .ok k')
    (hst : (m.kernel.threads t).status = .blocked) (hidle : t ≠ m.kernel.idleThread) :
    (k'.threads t).status = .blocked := by
  obtain ⟨next, heap, freed, rfl, hcase⟩ := schedule_ok hs
  refine (congrArg Thread.status (update_of_ne ?_ ..)).trans hst
  rintro rfl
  rcases hcase with ⟨-, hnext, -⟩ | hpop
  · exact hidle hnext
  · obtain ⟨-, hitems, -, -⟩ := heapPop_ok hpop
    have hready := hq.ready t (by rw [hitems]; exact Multiset.mem_cons_self _ _)
    exact absurd (hst.symm.trans hready) (by simp)

/-- **Nothing wakes a thread that is in no queue**: it stays blocked over every step of the
machine. -/
theorem Scheduled.blocked_step (hsch : Scheduled m) (honly : OnlyIdle m)
    (hs : Pintos.step m e = .ok m') (hst : (m.kernel.threads t).status = .blocked)
    (hidle : t ≠ m.kernel.idleThread) (hreg : ¬ m.kernel.Registered t) (hun : ¬ m.Unborn t) :
    (m'.kernel.threads t).status = .blocked := by
  have hrun : t ≠ m.kernel.running := by
    rintro rfl
    exact absurd (hst.symm.trans hsch.cpu.status) (by simp)
  obtain ⟨o, ha, hm'⟩ := step_cases hs
  have hset := Settled.act hsch.flow hsch.queues hsch.cpu ha
  have hsto : (o.kernel.threads t).status = .blocked := by
    cases ha with
    | call => exact hst
    | exec hex =>
      obtain ⟨u, hmoves, hcarry⟩ := hex.moves (fun _ => True) hsch rfl (honly _)
      refine (hmoves.status t ?_).trans hst
      rintro rfl
      rcases hcarry.who with h | h | h
      · exact hrun h
      · exact hreg h
      · exact hun (.inr ⟨_, h⟩)
    | @tick y k k' hon hint hy =>
      have hk := timerInterrupt_blocked hint hst fun hmem => hreg (.inr hmem)
      obtain ⟨hqk, hck⟩ := hsch.queues.tick hsch.cpu hint
      cases y with
      | true =>
        have hmoves := Moves.yield (X := fun _ => True) (m := ⟨k, m.ctl⟩) hqk hck hy
        refine (hmoves.status t ?_).trans hk
        rw [(timerInterrupt_setup hint).running]
        exact hrun
      | false =>
        cases hy
        exact hk
  rcases hm' with ⟨-, rfl⟩ | ⟨k, -, hk, rfl⟩
  · exact hsto
  · refine hset.queues.schedule_blocked hk hsto ?_
    change t ≠ o.kernel.idleThread
    rw [ha.setup.idleThread]
    exact hidle

end Code

/-! ### The initial state -/

theorem OnlyIdle.boot (mlfqs : Bool) (v : ℕ → ℕ) : OnlyIdle (boot mlfqs v) := by
  intro t ht
  unfold Machine.pc Pintos.boot at ht
  dsimp only at ht
  split at ht
  · next h => exact h
  · cases ht

theorem Complete.boot (mlfqs : Bool) (v : ℕ → ℕ) (W : Tid → Prop) :
    Complete (fun t => (boot mlfqs v).Unborn t ∨ W t) (boot mlfqs v).kernel := by
  refine ⟨fun t => ?_, Multiset.notMem_zero _, nodup_nil, fun t ht => absurd ht not_mem_nil,
    not_mem_nil⟩
  unfold Kernel.Home
  rw [boot_status]
  by_cases h0 : t = 0
  · rw [if_pos h0]
    exact h0
  · rw [if_neg h0]
    by_cases h1 : t = 1
    · rw [if_pos h1]
      exact fun hne => absurd h1 hne
    · rw [if_neg h1]
      exact fun _ => .inl (.inl (.inl ((Nat.two_le_iff t).mpr ⟨h0, h1⟩)))

end Pintos
