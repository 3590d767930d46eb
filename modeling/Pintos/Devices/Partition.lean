import Pintos.Devices.Waiters
import Pintos.Sched.AllList

/-!
# Where every thread is

The threads that wait for a device are the ones that `Pintos.Sched.Partition` leaves open: they are
blocked, and in none of the kernel's own queues. With them the account is complete. The running
thread is in no queue, a ready one has one slot of the ready heap, a blocked one is registered in
exactly one place, and the page of a dead one has been given back once, when nothing referred to it.

* `Place`, `System.occurrences` — the places where a thread can be registered, and how often it is;
* `Placed` — nobody is lost (`Placed.step`);
* `Driven.place_unique` — nobody is in two places: the status of a thread and its program point tell
  its place.
-/

namespace Pintos

open Transition Function

/-- The places where a thread can be registered. -/
inductive Place where
  | readyHeap
  | waiters (x : SemaRef)
  | sleepHeap
  | member (q : QueueId) (w : Waiter)
  deriving DecidableEq

/-- How often a thread is registered in a place. -/
def System.occurrences (s : System) (t : Tid) : Place → ℕ
  | .readyHeap => s.board.kernel.readyHeap.items.count t
  | .waiters x => (s.board.kernel.semas x).waiters.count t
  | .sleepHeap => s.board.kernel.sleepHeap.items.count t
  | .member q w => if (s.board.queues q).waiter w = some t then 1 else 0

/-- The thread is registered nowhere. -/
def System.Nowhere (s : System) (t : Tid) : Prop := ∀ p, s.occurrences t p = 0

/-- The thread is registered once, in this place. -/
def System.OnlyAt (s : System) (t : Tid) (p : Place) : Prop :=
  s.occurrences t p = 1 ∧ ∀ p', p' ≠ p → s.occurrences t p' = 0

/-- What holds in every run: nobody is lost. -/
structure Placed (s : System) : Prop where
  driven : Driven s
  complete : Complete (fun t => s.machine.Unborn t ∨ s.board.Stored t) s.board.kernel
  listed : Listed s.machine

/-- `thread_block` makes no thread a dead one. -/
theorem Listed.block {m : Machine} {k : Kernel} (h : Listed m)
    (hk : schedule (blockPark m.kernel) = .ok k) : Listed ⟨k, m.ctl⟩ := by
  have hf := ScoreFrame.schedule hk
  refine h.frame (hf.allList.trans rfl) (hf.nextPage.trans rfl) fun t ht => ?_
  have hex : Exec m.kernel ⟨.idle, []⟩ ⟨blockPark m.kernel, ⟨.idle, []⟩, true⟩ := .idle
  exact (hex.dying (schedule_dying hk ht)).resolve_right fun hr => absurd hr.2 (by simp)

namespace Placed

variable {s : System} {b : Board}

theorem boot (mlfqs : Bool) (v : ℕ → ℕ) (polled : Bool) : Placed (systemBoot mlfqs v polled) :=
  ⟨.boot mlfqs v polled, .boot mlfqs v _, .boot mlfqs v⟩

/-- A change of the board that moves no thread. -/
theorem board (h : Placed s) (hk : b.kernel = s.board.kernel)
    (hw : ∀ q w, (b.queues q).waiter w = (s.board.queues q).waiter w)
    (hmode : s.board.mode = .queue → b.mode = .queue) : Placed { s with board := b } := by
  have hdriven := h.driven.board hk (fun q w t ht => (hw q w).symm.trans ht) hmode
  obtain ⟨k, queues, mode, log⟩ := b
  obtain rfl : k = s.board.kernel := hk
  refine ⟨hdriven, h.complete.mono fun t ht => ht.imp id ?_, h.listed⟩
  rintro ⟨q, w, ht⟩
  exact ⟨q, w, (hw q w).trans ht⟩

/-- **An access loses nobody**: the thread that it wakes leaves its member for the ready heap. -/
theorem signals (h : Placed s) {q : QueueId} {w : Waiter} (hsig : Signals s.board b q w) :
    Placed { s with board := b } := by
  cases hw : (s.board.queues q).waiter w with
  | none =>
    have hk := hsig.wakes
    rw [hw] at hk
    refine h.board hk (fun q' w' => ?_) fun hm => hsig.mode.trans hm
    by_cases hqw : q' = q ∧ w' = w
    · rw [hqw.1, hqw.2, hw]
      exact hsig.self
    · exact hsig.others q' w' hqw
  | some t =>
    have hub : threadUnblock s.board.kernel t = .ok b.kernel := by
      have hwakes := hsig.wakes
      rwa [hw] at hwakes
    have hready := h.driven.readied hw hub
    have hsemas := threadUnblock_semas hub
    obtain ⟨-, op, hio, -, -⟩ := h.driven.stored q w t hw
    obtain ⟨ord, heap, hb, -⟩ := pushReady_ok (threadUnblock_ok hub).2
    have hmoves : Moves (fun u => Machine.Unborn ⟨b.kernel, s.ctl⟩ u ∨ b.Stored u)
        s.machine.kernel b.kernel t := by
      refine .rise hready (h.driven.known t _ hio).2 (fun x u _ hu => ?_) (fun u _ hu => ?_) ?_ ?_
      · rw [hsemas]
        exact hu
      · rw [hb]
        exact hu
      · rw [hb]
        rfl
      · rw [hb]
        rfl
    refine ⟨h.driven.signals hsig, h.complete.move hmoves fun u hu hX => ?_, ?_⟩
    · refine hX.imp (fun hun => ?_) ?_
      · exact hun.imp (fun hge => hready.nextPage.symm ▸ hge) id
      · rintro ⟨q', w', hu'⟩
        refine ⟨q', w', (hsig.others q' w' ?_).trans hu'⟩
        rintro ⟨rfl, rfl⟩
        exact hu (Option.some.inj (hu'.symm.trans hw))
    · exact h.listed.frame (by rw [hb]; rfl) hready.nextPage fun u hu =>
        pushReady_dying (threadUnblock_ok hub).2 hu

theorem drives (h : Placed s) (hd : Drives s.board b) : Placed { s with board := b } := by
  refine hd.keeps (I := fun b => Placed { s with board := b }) h fun b₁ b₂ h₁ hdoes => ?_
  cases hdoes with
  | getc hget => exact h₁.signals (.getc hget)
  | send hget => exact (h₁.signals (.getc hget)).board rfl (fun _ _ => rfl) id
  | putc _ hput => exact h₁.signals (.putc hput)
  | ier => exact h₁.board rfl (fun _ _ => rfl) id

theorem perform (h : Placed s) {op : IoOp} (hb : op.perform s.board = .ok b) :
    Placed { s with board := b } := by
  obtain ⟨b₁, ⟨-, c, hget⟩ | ⟨-, c, hput⟩, hd⟩ := IoOp.perform_ok hb
  · exact (h.signals (.getc hget)).drives hd
  · exact (h.signals (.putc hput)).drives hd

/-- **`wait` loses nobody**: the thread that blocks is in the member, and the member was empty. -/
theorem wait_complete (h : Placed s) {op : IoOp} {k : Kernel} (hpc : s.machine.curPc = .user)
    (hio : s.io s.cur = some (.access op .wait))
    (hk : schedule (blockPark s.board.kernel) = .ok k) :
    Complete (fun t => Machine.Unborn ⟨k, s.ctl⟩ t ∨ ∃ q w, (update s.board.queues op.queue
      ((s.board.queues op.queue).setWaiter op.waits (some s.cur)) q).waiter w = some t) k := by
  have hwaiter : ∀ q w, (update s.board.queues op.queue
      ((s.board.queues op.queue).setWaiter op.waits (some s.cur)) q).waiter w =
        if q = op.queue ∧ w = op.waits then some s.cur else (s.board.queues q).waiter w := by
    intro q w
    by_cases hq : q = op.queue
    · subst hq
      rw [update_self, Intq.setWaiter_waiter]
      simp
    · rw [update_of_ne hq, if_neg fun hqw => hq hqw.1]
  obtain ⟨hq, hoff⟩ := h.driven.sched.parked
  have hmoves : Moves (fun t => s.machine.Unborn t ∨ ∃ q w, (update s.board.queues op.queue
      ((s.board.queues op.queue).setWaiter op.waits (some s.cur)) q).waiter w = some t)
        s.machine.kernel (blockPark s.machine.kernel) s.machine.kernel.running := by
    refine .park h.driven.sched.queues h.driven.sched.cpu (.of_park rfl (.inl rfl)
      (fun _ => .inl rfl) (.inl rfl) rfl rfl) rfl rfl ?_ fun _ => rfl
    rw [home_blocked (blockPark_status _)]
    refine fun _ => .inl (.inr ⟨op.queue, op.waits, ?_⟩)
    rw [hwaiter, if_pos ⟨rfl, rfl⟩]
    rfl
  have hparked := h.complete.move hmoves fun u _ hX => hX.imp id ?_
  · refine (Complete.schedule (m := ⟨blockPark s.board.kernel, s.ctl⟩) hparked hq hoff hk).mono
      fun u hu => hu.imp (fun hun => ?_) id
    exact hun.imp (fun hge => (dispatched_of_schedule hk).nextPage.symm ▸ hge) id
  · rintro ⟨q, w, hu⟩
    refine ⟨q, w, (hwaiter q w).trans ?_⟩
    rw [if_neg]
    · exact hu
    · rintro ⟨rfl, rfl⟩
      rw [h.driven.no_waiter hpc hio] at hu
      cases hu

/-- **No step loses a thread.** -/
theorem step (h : Placed s) {e : SystemEvent} {s' : System} (hs : systemStep s e = .ok s') :
    Placed s' := by
  have hbase : ∀ {e : Event} {m : Machine}, Pintos.step s.machine e = .ok m →
      Complete (fun t => m.Unborn t ∨ s.board.Stored t) m.kernel ∧ Listed m :=
    fun hm => ⟨h.complete.step h.driven.sched h.driven.onlyIdle hm, h.listed.step h.driven.sched hm⟩
  have hdriven := h.driven.step hs
  cases advance_of_step hs with
  | kernel _ hm | lock _ _ _ hm | release _ _ hm => exact ⟨hdriven, (hbase hm).1, (hbase hm).2⟩
  | level => exact ⟨hdriven, h.complete, h.listed⟩
  | enter _ _ hd =>
    have hb := h.drives hd
    exact ⟨hdriven, hb.complete, hb.listed⟩
  | poll _ _ hmode =>
    exact h.board (Driven.polled_kernel _) h.driven.polled_waiter fun hm => absurd hm hmode
  | flush _ _ hb => exact h.drives (.transmit hb)
  | init =>
    have hb : Placed { s with board := { s.board.polled with mode := .queue } } :=
      h.board (Driven.polled_kernel _) h.driven.polled_waiter fun _ => rfl
    exact ⟨hdriven, hb.complete, hb.listed⟩
  | perform _ _ _ hb =>
    have hb := h.perform hb
    exact ⟨hdriven, hb.complete, hb.listed⟩
  | wait hpc hio _ hk =>
    exact ⟨hdriven, h.wait_complete hpc hio hk, h.listed.block hk⟩
  | notify => exact ⟨hdriven, h.complete, h.listed⟩
  | interrupt _ hb => exact h.drives (.handle hb)

theorem of_run {G : Guard System SystemEvent} {mlfqs : Bool} {v : ℕ → ℕ} {polled : Bool}
    {h : List (System × SystemEvent)} (hrun : Run systemStep G (systemBoot mlfqs v polled) h s) :
    Placed s :=
  hrun.invariant (boot mlfqs v polled) fun _ _ _ hI _ hs => hI.step hs

end Placed

/-! ### One place for each thread -/

section Places

variable {s : System} {t : Tid} {p p' : Place}

/-- The thread is in the place. -/
def System.In (s : System) (t : Tid) : Place → Prop
  | .readyHeap => t ∈ s.board.kernel.readyHeap.items
  | .waiters x => t ∈ (s.board.kernel.semas x).waiters
  | .sleepHeap => t ∈ s.board.kernel.sleepHeap.items
  | .member q w => (s.board.queues q).waiter w = some t

theorem occurrences_eq_zero (h : ¬ s.In t p) : s.occurrences t p = 0 := by
  cases p with
  | readyHeap => exact Multiset.count_eq_zero_of_notMem h
  | waiters x => exact List.count_eq_zero_of_not_mem h
  | sleepHeap => exact Multiset.count_eq_zero_of_notMem h
  | member q w => exact if_neg h

/-- No place holds a thread twice. -/
theorem Driven.occurrences_eq_one (hd : Driven s) (h : s.In t p) : s.occurrences t p = 1 := by
  have hq := hd.sched.queues
  cases p with
  | readyHeap => exact Multiset.count_eq_one_of_mem hq.ready_nodup h
  | waiters x => exact List.count_eq_one_of_mem (hq.waiting_nodup x) h
  | sleepHeap => exact Multiset.count_eq_one_of_mem hq.sleeping_nodup h
  | member q w => exact if_pos h

/-- The place of a thread, told from its status, its program point and its driver. -/
def System.placeOf (s : System) (t : Tid) : Option Place :=
  match (s.board.kernel.threads t).status, s.machine.pc t, s.io t with
  | .ready, _, _ => some .readyHeap
  | .blocked, .semaRetest x, _ => some (.waiters x)
  | .blocked, .sleepWake, _ => some .sleepHeap
  | .blocked, .user, some (.access op .release) => some (.member op.queue op.waits)
  | _, _, _ => none

theorem Driven.placeOf_eq (hd : Driven s) (h : s.In t p) : s.placeOf t = some p := by
  unfold System.placeOf
  cases p with
  | readyHeap => rw [show (s.board.kernel.threads t).status = .ready from hd.sched.queues.ready t h]
  | waiters x =>
    obtain ⟨hst, hpc⟩ := hd.sched.queues.waiting x t h
    rw [show (s.board.kernel.threads t).status = .blocked from hst, hpc]
  | sleepHeap =>
    obtain ⟨hst, hpc⟩ := hd.sched.queues.sleeping t h
    rw [show (s.board.kernel.threads t).status = .blocked from hst, hpc]
  | member q w =>
    obtain ⟨hst, op, hio, rfl, rfl⟩ := hd.stored q w t h
    rw [hst, (hd.stage t op _ hio).1, hio]

/-- **Nobody is in two places.** -/
theorem Driven.place_unique (hd : Driven s) (h : s.In t p) (h' : s.In t p') : p = p' :=
  Option.some.inj ((hd.placeOf_eq h).symm.trans (hd.placeOf_eq h'))

/-- A thread that is in a place is ready or blocked. -/
theorem Driven.status_of_in (hd : Driven s) (h : s.In t p) :
    (s.board.kernel.threads t).status = .ready ∨ (s.board.kernel.threads t).status = .blocked := by
  cases p with
  | readyHeap => exact .inl (hd.sched.queues.ready t h)
  | waiters x => exact .inr (hd.sched.queues.waiting x t h).1
  | sleepHeap => exact .inr (hd.sched.queues.sleeping t h).1
  | member q w => exact .inr (hd.stored q w t h).1

theorem Driven.onlyAt (hd : Driven s) (h : s.In t p) : s.OnlyAt t p :=
  ⟨hd.occurrences_eq_one h, fun _ hne => occurrences_eq_zero fun h' => hne (hd.place_unique h' h)⟩

theorem Driven.nowhere (hd : Driven s) (hready : (s.board.kernel.threads t).status ≠ .ready)
    (hblocked : (s.board.kernel.threads t).status ≠ .blocked) : s.Nowhere t := by
  refine fun p => occurrences_eq_zero fun h => ?_
  rcases hd.status_of_in h with hst | hst
  · exact hready hst
  · exact hblocked hst

/-- A blocked thread is in a place, and not in the ready heap. -/
theorem Placed.exists_place (h : Placed s) (hst : (s.board.kernel.threads t).status = .blocked)
    (hidle : t ≠ s.board.kernel.idleThread) (hborn : ¬ s.machine.Unborn t) :
    ∃ p, p ≠ .readyHeap ∧ s.In t p := by
  have hhome := h.complete.home t
  rw [home_blocked hst] at hhome
  rcases hhome hidle with (hun | ⟨q, w, hw⟩) | (⟨x, hx⟩ | hx)
  · exact absurd hun hborn
  · exact ⟨.member q w, by simp, hw⟩
  · exact ⟨.waiters x, by simp, hx⟩
  · exact ⟨.sleepHeap, by simp, hx⟩

end Places

/-- **Where every thread is.** In every state of every run: one thread is marked running, it is the
one on the CPU, and it is registered nowhere; a ready thread other than the idle thread has one slot
of the ready heap and is registered nowhere else, and the idle thread has none; a blocked thread
other than the idle thread, if it is a thread at all, is registered exactly once, and not in the
ready heap; the page of a thread that has exited, other than the initial thread, has been given back
exactly once; and no page that has been given back is on the CPU, in any of the places, or in
`all_list`. -/
theorem thread_state_partition {mlfqs : Bool} {v : ℕ → ℕ} {polled : Bool}
    {h : List (System × SystemEvent)} {s : System}
    (hrun : Run systemStep (fun _ _ => True) (systemBoot mlfqs v polled) h s) :
    ((s.board.kernel.threads s.cur).status = .running ∧
      (∀ t, (s.board.kernel.threads t).status = .running → t = s.cur) ∧ s.Nowhere s.cur) ∧
    (∀ t, (s.board.kernel.threads t).status = .ready → t ≠ s.board.kernel.idleThread →
      s.OnlyAt t .readyHeap) ∧
    s.occurrences s.board.kernel.idleThread .readyHeap = 0 ∧
    (∀ t, (s.board.kernel.threads t).status = .blocked → t ≠ s.board.kernel.idleThread →
      ¬ s.machine.Unborn t → ∃ p, p ≠ .readyHeap ∧ s.OnlyAt t p) ∧
    (∀ t, (s.board.kernel.threads t).status = .dying → t ≠ s.board.kernel.initialThread →
      s.board.kernel.freed.count t = 1) ∧
    ∀ t ∈ s.board.kernel.freed, (s.board.kernel.threads t).status = .dying ∧
      t ≠ s.board.kernel.initialThread ∧ t ≠ s.cur ∧ s.Nowhere t ∧ t ∉ s.board.kernel.allList := by
  have hplaced := Placed.of_run hrun
  have hd := hplaced.driven
  have hrunning : (s.board.kernel.threads s.cur).status = .running := hd.sched.cpu.status
  refine ⟨⟨hrunning, hd.sched.cpu.only, hd.nowhere ?_ ?_⟩, fun t ht hidle => hd.onlyAt ?_,
    occurrences_eq_zero hplaced.complete.idle, fun t ht hidle hborn => ?_, fun t ht hinit => ?_,
    fun t ht => ?_⟩
  · rw [hrunning]
    simp
  · rw [hrunning]
    simp
  · have hhome := hplaced.complete.home t
    rw [home_ready ht] at hhome
    exact hhome hidle
  · obtain ⟨p, hp, hin⟩ := hplaced.exists_place ht hidle hborn
    exact ⟨p, hp, hd.onlyAt hin⟩
  · have hhome := hplaced.complete.home t
    unfold Kernel.Home at hhome
    rw [ht] at hhome
    refine List.count_eq_one_of_mem hplaced.complete.freed_nodup ?_
    -- a thread that is on the CPU is not dead
    have hne : t ≠ s.cur := by
      rintro rfl
      exact absurd (ht.symm.trans hrunning) (by simp)
    exact (hhome.2.resolve_left hne).resolve_left hinit
  · obtain ⟨hst, hinit⟩ := hplaced.complete.freed t ht
    refine ⟨hst, hinit, ?_, hd.nowhere ?_ ?_, fun hmem => ?_⟩
    · rintro rfl
      exact hplaced.complete.cur ht
    · rw [hst]
      simp
    · rw [hst]
      simp
    · exact (hplaced.listed.hasThread t hmem).alive (hplaced.listed.exited t hst)

/-- Thread 2 waits for a key, thread 3 has exited, thread 4 is ready, and the main thread runs. -/
theorem thread_state_partition_run : ∃ h s,
    Run systemStep (fun _ _ => True) (systemBoot false (fun _ => 0) true) h s ∧ s.Nowhere 0 ∧
      (∃ p, p ≠ .readyHeap ∧ s.OnlyAt 2 p) ∧ s.board.kernel.freed.count 3 = 1 ∧
      s.OnlyAt 4 .readyHeap := by
  obtain ⟨h, s, hrun, hp⟩ := exists_systemRun (fun _ _ => True) (fun _ _ => true)
    (fun _ _ _ => trivial) (systemBoot false (fun _ => 0) true)
    (Call.events (.threadCreate 40 true) 30 ++ IoOp.inputGetc.sleepEvents ++
      Call.events (.threadCreate 40 true) 30 ++ Call.events .threadExit 1 ++
      Call.events (.threadCreate 20 true) 29)
    (fun s => decide (s.cur = 0 ∧ s.board.kernel.idleThread = 1 ∧ s.board.kernel.initialThread = 0 ∧
      (s.board.kernel.threads 2).status = .blocked ∧ (s.io 2).isSome ∧
      (s.board.kernel.threads 3).status = .dying ∧ (s.board.kernel.threads 4).status = .ready))
    (by decide +kernel)
  obtain ⟨hcur, hidle, hinit, h2, hio, h3, h4⟩ := of_decide_eq_true hp
  obtain ⟨⟨-, -, hnowhere⟩, hready, -, hblocked, hdying, -⟩ := thread_state_partition hrun
  obtain ⟨c, hc⟩ := Option.isSome_iff_exists.mp hio
  rw [hcur] at hnowhere
  refine ⟨h, s, hrun, hnowhere, hblocked 2 h2 ?_ ((Driven.of_run hrun).known 2 c hc).1,
    hdying 3 h3 ?_, hready 4 h4 ?_⟩
  · rw [hidle]
    decide
  · rw [hinit]
    decide
  · rw [hidle]
    decide

end Pintos
