import Pintos.Donation.Bookkeeping

/-!
# Donations are recalled

`Donated` bounds a priority from below by the donations. With uninterrupted calls there is also
a bound from the other side: a thread has at least the priority it was given, and when it holds
no lock exactly that one, so that nothing is left of the donations it got. This is given up
inside `lock_release`, from the point where the lock is off the list to the store of the
recomputed priority, and inside `thread_set_priority` (`Pc.Recalling`).
-/

namespace Pintos

open Transition LockTable Function

/-- Thread `t` has at least the priority it was given, and exactly that if it holds no lock. -/
def Kernel.Recalled (k : Kernel) (t : Tid) : Prop :=
  (k.threads t).priorityOrigin ≤ (k.threads t).priority ∧
    ((∀ l, (k.locks l).holder ≠ some t) → (k.threads t).priority = (k.threads t).priorityOrigin)

/-- What holds of the running thread at a program point. -/
def Pc.Recalling (k : Kernel) : Pc → Prop
  | .updatePriority _ => True
  | .updateScan _ p _ _ => p = k.cur.priorityOrigin ∧ k.cur.locksHolding ≠ []
  | .updateStore _ p => k.cur.priorityOrigin ≤ p ∧
      (k.cur.locksHolding = [] → p = k.cur.priorityOrigin)
  | .setTest p _ | .setStore p _ => k.cur.priorityOrigin = p
  | _ => k.Recalled k.running

/-- Every thread's donations are recalled, up to what the running thread is at. -/
structure Recalled (m : Machine) : Prop where
  cur : m.curPc.Recalling m.kernel
  others : ∀ t, t ≠ m.kernel.running → m.kernel.Recalled t

theorem recalling_of_resumable {k : Kernel} {pc : Pc} (h : pc.resumable = true) :
    pc.Recalling k ↔ k.Recalled k.running := by
  cases pc with
  | updatePriority | updateScan | updateStore | setTest | setStore =>
    exact absurd h (by simp [Pc.resumable])
  | _ => exact Iff.rfl

theorem ret_recalling {k : Kernel} (t : Tid) (st : List Frame) (h : k.Recalled k.running) :
    (ret t st).pc.Recalling k := by
  cases st with
  | nil => exact h
  | cons f st => cases f <;> exact h

theorem Kernel.Recalled.mono {k k' : Kernel} {t : Tid} (h : k.Recalled t)
    (hp : (k'.threads t).priority = (k.threads t).priority)
    (ho : (k'.threads t).priorityOrigin = (k.threads t).priorityOrigin)
    (hheld : ∀ l, (k.locks l).holder = some t → ∃ l', (k'.locks l').holder = some t) :
    k'.Recalled t := by
  unfold Kernel.Recalled
  rw [hp, ho]
  refine ⟨h.1, fun hfree => h.2 fun l hl => ?_⟩
  obtain ⟨l', hl'⟩ := hheld l hl
  exact hfree l' hl'

theorem Kernel.Recalled.frame {k k' : Kernel} {t : Tid} (h : k.Recalled t)
    (hf : StakeFrame k k') : k'.Recalled t :=
  h.mono (hf.priority t) (hf.origin t) fun l hl => ⟨l, by rw [hf.locks]; exact hl⟩

section Code

variable {m m' : Machine} {e : Event} {c c' : Control} {o : Outcome}

/-- A thread with a lock on its list is the holder of one. -/
theorem Locked.not_free_of_held (hlock : Locked m) {t : Tid}
    (h : (m.kernel.threads t).locksHolding ≠ []) : ∃ l, (m.kernel.locks l).holder = some t := by
  obtain ⟨l, hl⟩ := List.exists_mem_of_ne_nil _ h
  exact ⟨l, (hlock.exclusive.holder t l).mpr (.inl hl)⟩

theorem Silent.recalling (hlock : Locked m) (hm : m.kernel.mlfqs = false)
    (hs : Silent m.kernel c c') (h : c.pc.Recalling m.kernel) : c'.pc.Recalling m.kernel := by
  cases hs with
  | updateMlfqs hmlfqs => exact absurd (hm.symm.trans hmlfqs) (by simp)
  | updateNone => exact ⟨le_rfl, fun _ => rfl⟩
  | updateStart _ hcons =>
    refine ⟨rfl, ?_⟩
    rw [hcons]
    simp
  | updateScan => exact h
  | updateLast => exact ⟨h.1 ▸ le_max_left _ _, fun hnil => absurd hnil h.2⟩
  | setChange => exact h
  | setKeep hle hne =>
    obtain ⟨l, hl⟩ := hlock.not_free_of_held hne
    exact ⟨h.trans_le hle, fun hfree => absurd hl (hfree l)⟩
  | _ => first | exact h | exact ret_recalling _ _ h

/-- A donation only raises, and the thread that gets it holds a lock. -/
theorem Kernel.Recalled.raise {k : Kernel} {x : Tid} {lw : LockId} {p : ℤ} (h : k.Recalled x)
    (hx : (k.locks lw).holder = some x) (hlt : (k.threads x).priority < p) :
    (k.setThread x { k.threads x with priority := p }).Recalled x := by
  have hset : (k.setThread x { k.threads x with priority := p }).threads x =
      { k.threads x with priority := p } := update_self ..
  unfold Kernel.Recalled
  rw [hset]
  exact ⟨h.1.trans (le_of_lt hlt), fun hfree => absurd hx (hfree lw)⟩

/-- The threads other than the running one, after its code. -/
theorem Exec.recalled_others (hlock : Locked m) (hctl : m.ctl m.kernel.running = c)
    (hprep : c.pc.Prepared m.kernel) (hex : Exec m.kernel c o) {t : Tid}
    (ht : t ≠ m.kernel.running) (h : m.kernel.Recalled t) : o.kernel.Recalled t := by
  have hpc : m.curPc = c.pc := congrArg Control.pc hctl
  have hphase : m.lockTable.phase m.kernel.running = c.pc.phase := congrArg Pc.phase hpc
  -- a write into another thread, and into locks that are not this thread's
  have hwrite : ∀ {k' : Kernel} {u : Tid} {x : Thread}, t ≠ u →
      k'.threads = update m.kernel.threads u x →
      (∀ l, (m.kernel.locks l).holder = some t → (k'.locks l).holder = some t) →
      k'.Recalled t := by
    intro k' u x htu hthreads hheld
    have hth : k'.threads t = m.kernel.threads t := by
      rw [hthreads, update_of_ne htu]
    exact h.mono (by rw [hth]) (by rw [hth]) fun l hl => ⟨l, hheld l hl⟩
  have hlockWrite : ∀ (l : LockId) (x : Lock), (m.kernel.locks l).holder ≠ some t →
      ∀ l', (m.kernel.locks l').holder = some t →
        (update m.kernel.locks l x l').holder = some t := by
    intro l x hne l' hl'
    have hll : l' ≠ l := by
      rintro rfl
      exact hne hl'
    rw [update_of_ne hll]
    exact hl'
  have hnone : ∀ l, c.pc.phase.owned = some l → c.pc.phase ≠ .marks l →
      (m.kernel.locks l).holder ≠ some t := by
    intro l ho hmarks
    rw [show (m.kernel.locks l).holder = none from
      hlock.exclusive.holder_eq_none (t := m.kernel.running) (by rw [hphase]; exact ho)
        (by rw [hphase]; exact hmarks)]
    simp
  cases hex with
  | @setHolder l st =>
    exact h.mono rfl rfl fun l' hl' =>
      ⟨l', hlockWrite l _ (hnone l rfl (by simp [Pc.phase])) l' hl'⟩
  | @acquired l st => exact hwrite ht rfl (hlockWrite l _ (hnone l rfl (by simp [Pc.phase])))
  | @releaseClear l st =>
    refine hwrite ht rfl (hlockWrite l _ fun hl => ht ?_)
    have hmem : l ∈ m.lockTable.held m.kernel.running := hlock.exclusive.clears _ l hphase
    have hr : (m.kernel.locks l).holder = some m.kernel.running :=
      (hlock.exclusive.holder _ l).mpr (.inl hmem)
    exact Option.some.inj (hl.symm.trans hr)
  | pushHolding | setWaiting | updateStore | updateMlfqs | setOrigin | setStore =>
    exact hwrite ht rfl fun l hl => hl
  | @donateStore l t' dep lw st hw =>
    refine h.mono rfl rfl fun l' hl' => ⟨l', ?_⟩
    refine (apply_update_same Lock.holder ?_ l').trans hl'
    rfl
  | @donateRaise l t' dep lw x st hw hx =>
    by_cases htx : t = x
    · subst htx
      exact h.raise hx (hprep lw t hw hx)
    · exact hwrite htx rfl fun l hl => hl
  | @createInit p t' st k' hi =>
    obtain ⟨-, rfl⟩ := initThread_ok hi
    by_cases htt : t = t'
    · subst htt
      have hset : (m.kernel.setThread t (freshThread .blocked p)).threads t =
          freshThread .blocked p := update_self ..
      unfold Kernel.Recalled
      rw [hset]
      exact ⟨le_rfl, fun _ => rfl⟩
    · exact hwrite (x := freshThread .blocked p) htt rfl fun l hl => hl
  | upWake hmem hmax hub => exact h.frame ((Exec.upWake hmem hmax hub).stakeFrame rfl)
  | createUnblock hub => exact h.frame (.pushReady (threadUnblock_ok hub).2)
  | yield hy => exact h.frame (.yieldPark hy)
  | sleep _ hs => exact h.frame (.sleepPark hs)
  | createMlfqs | idle | exit | setNice | downBlock => exact h.frame (.of_update rfl rfl rfl)
  | _ => exact h.frame ⟨rfl, fun _ => rfl⟩

/-- The running thread, after its code. -/
theorem Exec.recalling (hsch : Scheduled m) (hlock : Locked m) (hm : m.kernel.mlfqs = false)
    (hctl : m.ctl m.kernel.running = c) (hprep : c.pc.Prepared m.kernel)
    (hex : Exec m.kernel c o) (h : c.pc.Recalling m.kernel) : o.ctl.pc.Recalling o.kernel := by
  have hmode : c.pc.inMode false = true := by
    have hshape := (hsch.flow m.kernel.running).mode
    rwa [hctl, hm] at hshape
  have hkeep : StakeFrame m.kernel o.kernel → m.kernel.Recalled m.kernel.running →
      o.kernel.Recalled o.kernel.running := by
    intro hf hr
    rw [hex.setup.running]
    exact hr.frame hf
  -- a write to the running thread that leaves its two priorities alone
  have hself : ∀ {k' : Kernel} {x : Thread},
      k'.threads = update m.kernel.threads m.kernel.running x →
      x.priority = m.kernel.cur.priority → x.priorityOrigin = m.kernel.cur.priorityOrigin →
      m.kernel.Recalled m.kernel.running →
      (∀ l, (m.kernel.locks l).holder = some m.kernel.running →
        ∃ l', (k'.locks l').holder = some m.kernel.running) →
      k'.Recalled m.kernel.running := by
    intro k' x hthreads hp ho hr hheld
    refine hr.mono ?_ ?_ hheld <;> rw [hthreads, update_self]
    · exact hp
    · exact ho
  cases hex with
  | silent hs => exact hs.recalling hlock hm h
  | idle => exact hkeep (.of_update rfl rfl rfl) h
  | @downBlock pc s st hpcs =>
    refine hkeep (.of_update rfl rfl rfl) ?_
    rcases hpcs with rfl | rfl <;> exact h
  | @downTake pc s st hpcs =>
    have hr := hkeep ⟨rfl, fun _ => rfl⟩ (by rcases hpcs with rfl | rfl <;> exact h)
    cases s with
    | lock l => exact hr
    | sema | waiter => exact ret_recalling _ _ hr
  | tryDown => exact ret_recalling _ _ (hkeep ⟨rfl, fun _ => rfl⟩ h)
  | upWake hmem hmax hub => exact hkeep ((Exec.upWake hmem hmax hub).stakeFrame rfl) h
  | yield hy => exact ret_recalling _ _ (hkeep (.yieldPark hy) h)
  | @setHolder l st =>
    exact h.mono rfl rfl fun _ _ => ⟨l, by simp [Kernel.setLock]⟩
  | pushHolding => exact ret_recalling _ _ (hself rfl rfl rfl h fun l hl => ⟨l, hl⟩)
  | setWaiting => exact hself rfl rfl rfl h fun l hl => ⟨l, hl⟩
  | donateStore =>
    refine h.mono rfl rfl fun l hl => ⟨l, (apply_update_same Lock.holder ?_ l).trans hl⟩
    rfl
  | @donateRaise l t dep lw x st hw hx =>
    by_cases hxr : m.kernel.running = x
    · subst hxr
      exact h.raise hx (hprep lw _ hw hx)
    · refine h.mono ?_ ?_ fun l hl => ⟨l, hl⟩
      · exact congrArg Thread.priority (update_of_ne hxr ..)
      · exact congrArg Thread.priorityOrigin (update_of_ne hxr ..)
  | @acquired l st =>
    exact ret_recalling _ _ (hself rfl rfl rfl h fun _ _ =>
      ⟨l, by simp [Kernel.setLock, Kernel.setThread]⟩)
  | releaseClear | setNice => trivial
  | @updateStore u p st =>
    have hr : (m.kernel.setCurPriority p).Recalled m.kernel.running := by
      have hset : (m.kernel.setCurPriority p).threads m.kernel.running =
          { m.kernel.cur with priority := p } := update_self ..
      unfold Kernel.Recalled
      rw [hset]
      refine ⟨h.1, fun hfree => h.2 ?_⟩
      by_contra hne
      obtain ⟨l, hl⟩ := hlock.not_free_of_held hne
      exact hfree l hl
    cases u <;> exact hr
  | updateMlfqs hst => cases hst <;> exact absurd hmode (by simp [Pc.inMode])
  | @setOrigin p old st =>
    change (update m.kernel.threads m.kernel.running _ m.kernel.running).priorityOrigin = p
    rw [update_self]
  | @setStore p old st =>
    have hset : (m.kernel.setCurPriority p).threads m.kernel.running =
        { m.kernel.cur with priority := p } := update_self ..
    have horigin : m.kernel.cur.priorityOrigin = p := h
    change (m.kernel.setCurPriority p).Recalled m.kernel.running
    unfold Kernel.Recalled
    rw [hset]
    exact ⟨horigin.le, fun _ => horigin.symm⟩
  | @createInit p t st k' hi =>
    have hblocked := (hsch.queues.embryo _ t (by rw [hctl]; rfl)).2.2
    have hne : m.kernel.running ≠ t :=
      (Queues.cur_ne_of_status hsch.cpu (by rw [hblocked]; simp)).symm
    obtain ⟨-, rfl⟩ := initThread_ok hi
    have hsame : (m.kernel.setThread t (freshThread .blocked p)).threads m.kernel.running =
        m.kernel.threads m.kernel.running := update_of_ne hne ..
    exact h.mono (congrArg Thread.priority hsame) (congrArg Thread.priorityOrigin hsame)
      fun l hl => ⟨l, hl⟩
  | createMlfqs hmlfqs => exact absurd (hm.symm.trans hmlfqs) (by simp)
  | createUnblock hub => exact hkeep (.pushReady (threadUnblock_ok hub).2) h
  | exit => exact hkeep (.of_update rfl rfl rfl) h
  | sleep _ hs => exact hkeep (.sleepPark hs) h
  | _ => exact hkeep ⟨rfl, fun _ => rfl⟩ h

theorem Act.recalled (hsch : Scheduled m) (hlock : Locked m) (hm : m.kernel.mlfqs = false)
    (hu : uninterrupted m e) (hprep : m.curPc.Prepared m.kernel) (h : Recalled m)
    (ha : Act m e o) : o.ctl.pc.Recalling o.kernel ∧
      ∀ t, t ≠ m.kernel.running → o.kernel.Recalled t := by
  cases ha with
  | @call c hpc =>
    have hcur := h.cur
    rw [hpc] at hcur
    exact ⟨by cases c <;> exact hcur, h.others⟩
  | exec hex =>
    exact ⟨hex.recalling hsch hlock hm rfl hprep h.cur,
      fun t ht => hex.recalled_others hlock rfl hprep ht (h.others t ht)⟩
  | @tick y k k' hon hint hy =>
    have ha : Act m .tick ⟨k', m.ctl m.kernel.running, y⟩ := .tick hon hint hy
    have hf : StakeFrame m.kernel k' := ha.stakeFrame hm (by simp)
    refine ⟨?_, fun t ht => (h.others t ht).frame hf⟩
    have hres : m.curPc.resumable = true := by rcases hu rfl with hpc | hpc <;> rw [hpc] <;> rfl
    have hcur := (recalling_of_resumable hres).mp h.cur
    refine (recalling_of_resumable (k := k') hres).mpr ?_
    rw [show k'.running = m.kernel.running from ha.setup.running]
    exact hcur.frame hf

end Code

/-! ### Whole runs -/

/-- What every uninterrupted run keeps in which no priority is set below `PRI_MIN`. -/
structure Booked (m : Machine) : Prop extends Serial m where
  donated : Donated m
  recalled : Recalled m

theorem Booked.boot (v : ℕ → ℕ) : Booked (boot false v) := by
  have hall : ∀ t, (Pintos.boot false v).kernel.Recalled t := by
    intro t
    unfold Kernel.Recalled Pintos.boot
    dsimp only
    split
    · exact ⟨le_rfl, fun _ => rfl⟩
    · split <;> exact ⟨le_rfl, fun _ => rfl⟩
  exact ⟨.boot v, .boot v, hall 0, fun t _ => hall t⟩

theorem Booked.step {m m' : Machine} {e : Event} (h : Booked m) (hu : uninterrupted m e)
    (hr : setsInRange m e) (hs : step m e = .ok m') : Booked m' := by
  refine ⟨h.toSerial.step hu hs,
    h.donated.step h.scheduled h.locked h.mode hu.updatesWhole hr hs, ?_⟩
  obtain ⟨o, ha, hcase⟩ := step_cases hs
  obtain ⟨hcur, hothers⟩ := ha.recalled h.scheduled h.locked h.mode hu h.donated.prepared h.recalled
  have hrun := ha.setup.running
  rcases hcase with ⟨-, rfl⟩ | ⟨k, hsw, hk, rfl⟩
  · refine ⟨by rw [ha.settle_curPc]; exact hcur, fun t ht => hothers t ?_⟩
    exact fun heq => ht (heq.trans hrun.symm)
  · have hf := StakeFrame.dispatched (dispatched_of_schedule hk)
    have hself : o.kernel.Recalled m.kernel.running := by
      have hleft := (recalling_of_resumable (ha.resumable h.scheduled.flow hu hsw)).mp hcur
      rwa [hrun] at hleft
    have hall : ∀ t, k.Recalled t := by
      intro t
      by_cases ht : t = m.kernel.running
      · rw [ht]
        exact hself.frame hf
      · exact (hothers t ht).frame hf
    refine ⟨(recalling_of_resumable ?_).mpr (hall _), fun t _ => hall t⟩
    exact h.resumable.settle h.scheduled.flow hu ha hsw _

/-- **The bookkeeping of donations.** In priority mode, with uninterrupted calls, no thread
exiting with a lock and no priority set below `PRI_MIN`, whenever the running thread is outside
the kernel or where it has blocked or yielded: a thread is the holder of a lock exactly if the
lock is once on its list, it has at least the priority it was given and every priority donated
to a lock it holds, and without a lock exactly the priority it was given. -/
theorem donation_bookkeeping {v : ℕ → ℕ} {h : List (Machine × Event)} {m : Machine}
    (hrun : Run step (fun m e => uninterrupted m e ∧ exitsFree m e ∧ setsInRange m e)
      (boot false v) h m) (hstable : m.curPc.resumable = true) :
    (∀ l x, (m.kernel.locks l).holder = some x ↔
        (m.kernel.threads x).locksHolding.count l = 1) ∧
      (∀ x, (m.kernel.threads x).priorityOrigin ≤ (m.kernel.threads x).priority) ∧
      (∀ x, ∀ l ∈ (m.kernel.threads x).locksHolding,
        (m.kernel.locks l).priorityDonate ≤ (m.kernel.threads x).priority) ∧
      ∀ x, (m.kernel.threads x).locksHolding = [] →
        (m.kernel.threads x).priority = (m.kernel.threads x).priorityOrigin := by
  have hbook : Booked m := hrun.invariant (.boot v) fun _ _ _ hI hg hs => hI.step hg.1 hg.2.2 hs
  have hres : ∀ t, (m.pc t).resumable = true := by
    intro t
    by_cases ht : t = m.kernel.running
    · rw [ht]
      exact hstable
    · exact hbook.resumable t ht
  have hholder : ∀ l x, (m.kernel.locks l).holder = some x ↔
      l ∈ (m.kernel.threads x).locksHolding := by
    intro l x
    refine (hbook.locked.exclusive.holder x l).trans ⟨fun hm => ?_, .inl⟩
    exact hm.resolve_right ((Pc.resumable_quiet (hres x)).1 l)
  have hrecalled : ∀ x, m.kernel.Recalled x := by
    intro x
    by_cases hx : x = m.kernel.running
    · rw [hx]
      exact (recalling_of_resumable hstable).mp hbook.recalled.cur
    · exact hbook.recalled.others x hx
  refine ⟨fun l x => ?_, fun x => (hrecalled x).1, fun x l hl => ?_, fun x hx => ?_⟩
  · have hnd : (m.kernel.threads x).locksHolding.Nodup := hbook.locked.exclusive.nodup x
    rw [hholder l x]
    exact ⟨List.count_eq_one_of_mem hnd, fun hc => List.count_pos_iff.mp (by rw [hc]; exact one_pos)⟩
  · rcases hbook.donated.covered l with ⟨hheld, -⟩ | ⟨t, ⟨q, hq⟩, -, -⟩
    · exact hheld x ((hholder l x).mpr hl)
    · exact absurd ((Pc.resumable_quiet (hres q)).2.symm.trans hq) (by simp)
  · refine (hrecalled x).2 fun l hl => ?_
    have hmem := (hholder l x).mp hl
    rw [hx] at hmem
    exact absurd hmem List.not_mem_nil

/-- Thread 2, of priority 50, waits for the lock of the main thread. -/
theorem donation_bookkeeping_run : ∃ h m,
    Run step (fun m e => uninterrupted m e ∧ exitsFree m e ∧ setsInRange m e)
      (boot false fun _ => 0) h m ∧ m.curPc.resumable = true ∧
      (m.kernel.locks 5).holder = some 0 ∧ (m.kernel.locks 5).priorityDonate = 50 ∧
      (m.kernel.threads 0).locksHolding.count 5 = 1 ∧ 50 ≤ (m.kernel.threads 0).priority ∧
      (m.kernel.threads 2).priority = (m.kernel.threads 2).priorityOrigin := by
  obtain ⟨h, m, hrun, hp⟩ := exists_run
    (fun m e => uninterrupted m e ∧ exitsFree m e ∧ setsInRange m e)
    (fun m e => decide (uninterrupted m e ∧ exitsFree m e ∧ setsInRange m e))
    (fun _ _ => of_decide_eq_true) false (fun _ => 0)
    (Call.run (.lockAcquire 5) 5 ++ Call.run (.threadCreate 50 true) 32 ++
      Call.run (.lockAcquire 5) 14)
    (fun _ m => decide (m.curPc.resumable = true ∧ (m.kernel.locks 5).holder = some 0 ∧
      (m.kernel.locks 5).priorityDonate = 50 ∧ (m.kernel.threads 2).locksHolding = []))
    (by decide +kernel)
  obtain ⟨hstable, hh, hd, hfree⟩ := of_decide_eq_true hp
  obtain ⟨hholder, -, hdonated, hrecalled⟩ := donation_bookkeeping hrun hstable
  have hcount := (hholder 5 0).mp hh
  refine ⟨h, m, hrun, hstable, hh, hd, hcount, ?_, hrecalled 2 hfree⟩
  rw [← hd]
  exact hdonated 0 5 (List.count_pos_iff.mp (by rw [hcount]; exact one_pos))

/-- **A priority below `PRI_MIN`.** The main thread sets its priority to -1 and acquires a lock,
whose `priority_donate` is `PRI_MIN`. -/
theorem holder_below_donation : ∃ h m,
    Run step (fun m e => uninterrupted m e ∧ exitsFree m e) (boot false fun _ => 0) h m ∧
      m.curPc.resumable = true ∧ 2 ∈ (m.kernel.threads 0).locksHolding ∧
      (m.kernel.threads 0).priority < (m.kernel.locks 2).priorityDonate := by
  obtain ⟨h, m, hrun, hp⟩ := exists_run (fun m e => uninterrupted m e ∧ exitsFree m e)
    (fun m e => decide (uninterrupted m e ∧ exitsFree m e)) (fun _ _ => of_decide_eq_true) false
    (fun _ => 0) (Call.run (.threadSetPriority (-1)) 6 ++ Call.run (.lockAcquire 2) 5)
    (fun _ m => decide (m.curPc.resumable = true ∧ 2 ∈ (m.kernel.threads 0).locksHolding ∧
      (m.kernel.threads 0).priority < (m.kernel.locks 2).priorityDonate)) (by decide +kernel)
  obtain ⟨hstable, hmem, hlt⟩ := of_decide_eq_true hp
  exact ⟨h, m, hrun, hstable, hmem, hlt⟩

end Pintos
