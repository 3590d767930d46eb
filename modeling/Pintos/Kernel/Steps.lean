import Pintos.Kernel.Machine

/-!
# The steps as a relation

`exec` as a relation with one rule for every branch of the code, so that an invariant is proved
by a case analysis on what the running thread does and never unfolds `exec`:

* `Silent k c c'` — the running thread moves from `c` to `c'` and writes nothing;
* `Exec k c o` — a silent move, or one of the moves that write the kernel's memory;
* `exec_ok` / `act_ok` — every step of the machine is one of these moves, a call, or a tick;
* `step_act` — the same with the dispatch, for all it does not touch.
-/

namespace Pintos

open FirstMax Function

/-- The moves of the running thread that change no memory, one rule for every branch. -/
inductive Silent (k : Kernel) : Control → Control → Prop where
  | tryDownNone {s st} : (k.semas s).value = 0 →
      Silent k ⟨.semaTryDown s, st⟩ (ret k.running st)
  | acquireAssert {l st} : (k.locks l).holder ≠ some k.running →
      Silent k ⟨.acquireAssert l, st⟩ ⟨.tryAssert l true, st⟩
  | tryAssert {l wait st} : (k.locks l).holder ≠ some k.running →
      Silent k ⟨.tryAssert l wait, st⟩ ⟨.tryDown l wait, st⟩
  | tryFail {l st} : (k.semas (.lock l)).value = 0 →
      Silent k ⟨.tryDown l true, st⟩ ⟨.setWaiting l, st⟩
  | tryGiveUp {l st} : (k.semas (.lock l)).value = 0 →
      Silent k ⟨.tryDown l false, st⟩ (ret k.running st)
  | donateStop {l t dep st} :
      k.mlfqs = true ∨ donateMaxDepth < dep ∨ (k.threads t).lockWaiting = none →
      Silent k ⟨.donate l t dep, st⟩ ⟨.sortHeap l, st⟩
  | donateGo {l t dep lw st} : k.mlfqs = false → dep ≤ donateMaxDepth →
      (k.threads t).lockWaiting = some lw →
      Silent k ⟨.donate l t dep, st⟩ ⟨.donateTest l t dep, st⟩
  | donateEnough {l t dep lw st} : (k.threads t).lockWaiting = some lw →
      (k.threads t).priority ≤ (k.locks lw).priorityDonate →
      Silent k ⟨.donateTest l t dep, st⟩ ⟨.sortHeap l, st⟩
  | donateMore {l t dep lw st} : (k.threads t).lockWaiting = some lw →
      (k.locks lw).priorityDonate < (k.threads t).priority →
      Silent k ⟨.donateTest l t dep, st⟩ ⟨.donateAssert l t dep, st⟩
  | donateAssert {l t dep lw h st} : (k.threads t).lockWaiting = some lw →
      (k.locks lw).holder = some h →
      Silent k ⟨.donateAssert l t dep, st⟩ ⟨.donateStore l t dep, st⟩
  | donateBelow {l t dep lw h st} : (k.threads t).lockWaiting = some lw →
      (k.locks lw).holder = some h → (k.threads h).priority < (k.threads t).priority →
      Silent k ⟨.donateCompare l t dep, st⟩ ⟨.donateRaise l t dep, st⟩
  | donateAbove {l t dep lw h st} : (k.threads t).lockWaiting = some lw →
      (k.locks lw).holder = some h → (k.threads t).priority ≤ (k.threads h).priority →
      Silent k ⟨.donateCompare l t dep, st⟩ ⟨.donateNext l t dep, st⟩
  | donateNext {l t dep lw h st} : (k.threads t).lockWaiting = some lw →
      (k.locks lw).holder = some h →
      Silent k ⟨.donateNext l t dep, st⟩ ⟨.donate l h (dep + 1), st⟩
  | releaseAssert {l st} : (k.locks l).holder = some k.running →
      Silent k ⟨.releaseAssert l, st⟩ ⟨.releaseClear l, st⟩
  | updateMlfqs {u st} : k.mlfqs = true →
      Silent k ⟨.updatePriority u, st⟩ ⟨.updateMax u, st⟩
  | updateNone {u st} : k.mlfqs = false → k.cur.locksHolding = [] →
      Silent k ⟨.updatePriority u, st⟩ ⟨.updateStore u k.cur.priorityOrigin, st⟩
  | updateStart {u m ls st} : k.mlfqs = false → k.cur.locksHolding = m :: ls →
      Silent k ⟨.updatePriority u, st⟩ ⟨.updateScan u k.cur.priorityOrigin m ls, st⟩
  | updateLast {u p m st} :
      Silent k ⟨.updateScan u p m [], st⟩ ⟨.updateStore u (max p (k.locks m).priorityDonate), st⟩
  | updateScan {u p m l ls st} : Silent k ⟨.updateScan u p m (l :: ls), st⟩
      ⟨.updateScan u p (if cmpLockPriority k.locks m l then l else m) ls, st⟩
  | waitAssert {c l st} : (k.locks l).holder = some k.running →
      Silent k ⟨.waitAssert c l, st⟩ ⟨.waitPush c l, st⟩
  | signalAssert {c l st} : (k.locks l).holder = some k.running →
      Silent k ⟨.signalAssert c l, st⟩ ⟨.signalTest c, st⟩
  | signalNone {c st} : k.conds c = [] → Silent k ⟨.signalTest c, st⟩ (ret k.running st)
  | signalStart {c w ws st} : k.conds c = w :: ws →
      Silent k ⟨.signalTest c, st⟩ ⟨.signalScan c w ws, st⟩
  | signalLast {c w st} : Silent k ⟨.signalScan c w [], st⟩ ⟨.signalRemove c w, st⟩
  | signalScan {c m w ws st} : Silent k ⟨.signalScan c m (w :: ws), st⟩
      ⟨.signalScan c (if cmpSemaPriority k m w then w else m) ws, st⟩
  | broadcastNone {c l st} : k.conds c = [] → Silent k ⟨.broadcast c l, st⟩ (ret k.running st)
  | broadcastNext {c l st} : k.conds c ≠ [] →
      Silent k ⟨.broadcast c l, st⟩ ⟨.signalAssert c l, .broadcast c l :: st⟩
  | setPriorityMlfqs {p st} : k.mlfqs = true → Silent k ⟨.setPriority p, st⟩ (ret k.running st)
  | setPriority {p st} : k.mlfqs = false →
      Silent k ⟨.setPriority p, st⟩ ⟨.setOrigin p k.cur.priority, st⟩
  | setChange {p old st} : k.cur.priority < p ∨ k.cur.locksHolding = [] →
      Silent k ⟨.setTest p old, st⟩ ⟨.setStore p old, st⟩
  | setKeep {p old st} : p ≤ k.cur.priority → k.cur.locksHolding ≠ [] →
      Silent k ⟨.setTest p old, st⟩ ⟨.setYield old, st⟩
  | setLower {old st} : k.cur.priority < old → Silent k ⟨.setYield old, st⟩ ⟨.yield, st⟩
  | setDone {old st} : old ≤ k.cur.priority → Silent k ⟨.setYield old, st⟩ (ret k.running st)
  | create {p avail st} :
      Silent k ⟨.create p avail, st⟩ ⟨.acquireAssert poolLock, .createScan p avail :: st⟩
  | createNoPage {p st} :
      Silent k ⟨.createScan p false, st⟩ ⟨.releaseAssert poolLock, .createInit p none :: st⟩
  | createFail {p st} : Silent k ⟨.createInit p none, st⟩ (ret k.running st)
  | createTid {p t st} :
      Silent k ⟨.createTid p t, st⟩ ⟨.releaseAssert tidLock, .createMlfqs p t :: st⟩
  | createPlain {p t st} : k.mlfqs = false →
      Silent k ⟨.createMlfqs p t, st⟩ ⟨.createUnblock p t, st⟩
  | createYield {p st} : k.cur.priority < p → Silent k ⟨.createTest p, st⟩ ⟨.yield, st⟩
  | createDone {p st} : p ≤ k.cur.priority → Silent k ⟨.createTest p, st⟩ (ret k.running st)
  | sleepNone {n st} : n < 0 → Silent k ⟨.sleep n, st⟩ (ret k.running st)
  | sleepWake {st} : Silent k ⟨.sleepWake, st⟩ (ret k.running st)

/-- The four stores of `thread_update_priority` in mlfqs mode: the value written and the point
that follows. -/
inductive MlfqsStore (k : Kernel) : Pc → ℤ → Pc → Prop where
  | max {u} : MlfqsStore k (.updateMax u) priMax (.updateCpu u)
  | cpu {u} : MlfqsStore k (.updateCpu u)
      (toInt32 (k.cur.priority - fptoiRound (fpIntDiv k.cur.recentCpu 4))) (.updateNice u)
  | nice {u} : MlfqsStore k (.updateNice u)
      (toInt32 (k.cur.priority - toInt32 (2 * k.cur.nice))) (.updateClamp u)
  | clamp {u} : MlfqsStore k (.updateClamp u)
      (if k.cur.priority > priMax then priMax
        else if k.cur.priority < priMin then priMin else k.cur.priority) u.next

/-- What the running thread does at its program point, one rule for every way of writing the
kernel's memory. -/
inductive Exec (k : Kernel) : Control → Outcome → Prop where
  | silent {c c'} : Silent k c c' → Exec k c ⟨k, c', false⟩
  | idle {st} : Exec k ⟨.idle, st⟩ ⟨blockPark k, ⟨.idle, st⟩, true⟩
  | downBlock {pc s st} : pc = .semaDown s ∨ pc = .semaRetest s → (k.semas s).value = 0 →
      Exec k ⟨pc, st⟩ ⟨blockPark (k.setSema s
        { k.semas s with waiters := (k.semas s).waiters ++ [k.running] }), ⟨.semaRetest s, st⟩, true⟩
  | downTake {pc s st} : pc = .semaDown s ∨ pc = .semaRetest s → 0 < (k.semas s).value →
      Exec k ⟨pc, st⟩ ⟨k.setSema s { k.semas s with value := (k.semas s).value - 1 },
        afterDown k.running s st, false⟩
  | tryDown {s st} : 0 < (k.semas s).value →
      Exec k ⟨.semaTryDown s, st⟩ ⟨k.setSema s { k.semas s with value := (k.semas s).value - 1 },
        ret k.running st, false⟩
  | upNone {s st} : (k.semas s).waiters = [] → Exec k ⟨.semaUp s, st⟩
      ⟨k.setSema s { value := ((k.semas s).value + 1) % 2 ^ 32, waiters := [] },
        ⟨.yield, st⟩, false⟩
  | upWake {s st t k₁} : t ∈ (k.semas s).waiters →
      (∀ w ∈ (k.semas s).waiters, (k.threads w).priority ≤ (k.threads t).priority) →
      threadUnblock k t = .ok k₁ → Exec k ⟨.semaUp s, st⟩
        ⟨k₁.setSema s ⟨((k.semas s).value + 1) % 2 ^ 32, (k.semas s).waiters.erase t⟩,
          ⟨.yield, st⟩, false⟩
  | yield {st k'} : yieldPark k = .ok k' → Exec k ⟨.yield, st⟩ ⟨k', ret k.running st, true⟩
  | tryTake {l wait st} : 0 < (k.semas (.lock l)).value →
      Exec k ⟨.tryDown l wait, st⟩ ⟨k.setSema (.lock l)
        { k.semas (.lock l) with value := (k.semas (.lock l)).value - 1 }, ⟨.setHolder l, st⟩, false⟩
  | setHolder {l st} : Exec k ⟨.setHolder l, st⟩
      ⟨k.setLock l { k.locks l with holder := some k.running }, ⟨.pushHolding l, st⟩, false⟩
  | pushHolding {l st} : Exec k ⟨.pushHolding l, st⟩
      ⟨k.setThread k.running { k.cur with locksHolding := k.cur.locksHolding ++ [l] },
        ret k.running st, false⟩
  | setWaiting {l st} : Exec k ⟨.setWaiting l, st⟩
      ⟨k.setThread k.running { k.cur with lockWaiting := some l },
        ⟨.donate l k.running 0, st⟩, false⟩
  | donateStore {l t dep lw st} : (k.threads t).lockWaiting = some lw →
      Exec k ⟨.donateStore l t dep, st⟩
        ⟨k.setLock lw { k.locks lw with priorityDonate := (k.threads t).priority },
          ⟨.donateCompare l t dep, st⟩, false⟩
  | donateRaise {l t dep lw h st} : (k.threads t).lockWaiting = some lw →
      (k.locks lw).holder = some h →
      Exec k ⟨.donateRaise l t dep, st⟩
        ⟨k.setThread h { k.threads h with priority := (k.threads t).priority },
          ⟨.donateNext l t dep, st⟩, false⟩
  | sortHeap {l st} : Exec k ⟨.sortHeap l, st⟩
      ⟨{ k with readyHeap := heapRebuild (cmpThreadPriorityHeap k.threads) k.readyHeap },
        ⟨.semaDown (.lock l), st⟩, false⟩
  | acquired {l st} : Exec k ⟨.acquired l, st⟩
      ⟨(k.setLock l { k.locks l with holder := some k.running }).setThread k.running
        { k.cur with lockWaiting := none, locksHolding := k.cur.locksHolding ++ [l] },
        ret k.running st, false⟩
  | releaseClear {l st} : Exec k ⟨.releaseClear l, st⟩
      ⟨(k.setLock l { holder := none, priorityDonate := priMin }).setThread k.running
        { k.cur with locksHolding := k.cur.locksHolding.erase l },
        ⟨.updatePriority (.release l), st⟩, false⟩
  | updateStore {u p st} : Exec k ⟨.updateStore u p, st⟩ ⟨k.setCurPriority p, ⟨u.next, st⟩, false⟩
  | updateMlfqs {pc pc' p st} : MlfqsStore k pc p pc' →
      Exec k ⟨pc, st⟩ ⟨k.setCurPriority p, ⟨pc', st⟩, false⟩
  | waitPush {c l st} : Exec k ⟨.waitPush c l, st⟩
      ⟨(k.setSema (.waiter k.running) { value := 0, waiters := [] }).setCond c
        (k.conds c ++ [k.running]), ⟨.releaseAssert l, .waitDown l :: st⟩, false⟩
  | signalRemove {c w st} : Exec k ⟨.signalRemove c w, st⟩
      ⟨k.setCond c ((k.conds c).erase w), ⟨.semaUp (.waiter w), st⟩, false⟩
  | setOrigin {p old st} : Exec k ⟨.setOrigin p old, st⟩
      ⟨k.setThread k.running { k.cur with priorityOrigin := p }, ⟨.setTest p old, st⟩, false⟩
  | setStore {p old st} : Exec k ⟨.setStore p old, st⟩
      ⟨k.setCurPriority p, ⟨.setYield old, st⟩, false⟩
  | setNice {n st} : Exec k ⟨.setNice n, st⟩
      ⟨k.setThread k.running { k.cur with nice := n }, ⟨.updatePriority .nice, st⟩, false⟩
  | createPage {p st} : Exec k ⟨.createScan p true, st⟩
      ⟨{ k with nextPage := k.nextPage + 1 },
        ⟨.releaseAssert poolLock, .createInit p (some k.nextPage) :: st⟩, false⟩
  | createInit {p t st k'} : initThread k t p = .ok k' →
      Exec k ⟨.createInit p (some t), st⟩
        ⟨k', ⟨.acquireAssert tidLock, .createTid p t :: st⟩, false⟩
  | createMlfqs {p t nice cpu st} : k.mlfqs = true →
      Exec k ⟨.createMlfqs p t, st⟩
        ⟨k.setThread t { k.threads t with nice := nice, recentCpu := cpu },
          ⟨.updatePriority (.create p t), st⟩, false⟩
  | createUnblock {p t st k'} : threadUnblock k t = .ok k' →
      Exec k ⟨.createUnblock p t, st⟩ ⟨k', ⟨.createTest p, st⟩, false⟩
  | exit {st} : Exec k ⟨.exit, st⟩
      ⟨({ k with allList := k.allList.erase k.running } : Kernel).setThread k.running
        { k.cur with status := .dying }, ⟨.exited, []⟩, true⟩
  | sleep {n st k'} : 0 ≤ n → sleepPark k n = .ok k' →
      Exec k ⟨.sleep n, st⟩ ⟨k', ⟨.sleepWake, st⟩, true⟩

/-- A thread outside the kernel, or one that has exited, executes no code of the kernel. -/
theorem Exec.pc_inside {k : Kernel} {c : Control} {o : Outcome} (hex : Exec k c o) :
    c.pc ≠ .user ∧ c.pc ≠ .exited := by
  cases hex with
  | silent hs => cases hs <;> simp
  | downBlock hpc | downTake hpc => rcases hpc with rfl | rfl <;> simp
  | updateMlfqs hst => cases hst <;> simp
  | _ => simp

/-! ### Every step is one of these moves -/

theorem waitedLock_ok {k : Kernel} {t : Tid} {l : LockId} (h : waitedLock k t = .ok l) :
    (k.threads t).lockWaiting = some l := by
  unfold waitedLock at h
  split at h
  · cases h
  · next hw => rw [hw, Except.ok.inj h]

theorem waitedHolder_ok {k : Kernel} {t h : Tid} (hh : waitedHolder k t = .ok h) :
    ∃ lw, (k.threads t).lockWaiting = some lw ∧ (k.locks lw).holder = some h := by
  obtain ⟨lw, hlw, hh⟩ := bind_eq_ok.mp hh
  refine ⟨lw, waitedLock_ok hlw, ?_⟩
  split at hh
  · cases hh
  · next hsome => rw [hsome, Except.ok.inj hh]

theorem lockHeldByCurrentThread_iff {k : Kernel} {l : LockId} :
    lockHeldByCurrentThread k l = true ↔ (k.locks l).holder = some k.running := by
  exact beq_iff_eq

section Code

variable {k : Kernel} {st : List Frame} {pc : Pc} {o : Outcome}

theorem semaDown_ok {s : SemaRef} (hpc : pc = .semaDown s ∨ pc = .semaRetest s)
    (h : semaDown k s st = .ok o) : Exec k ⟨pc, st⟩ o := by
  unfold semaDown at h
  dsimp only at h
  split at h
  · next hv =>
    cases h
    exact .downBlock hpc hv
  · next hv =>
    cases h
    exact .downTake hpc (Nat.pos_of_ne_zero hv)

theorem semaUp_ok {s : SemaRef} {k' : Kernel} (h : semaUp k s = .ok k') :
    Exec k ⟨.semaUp s, st⟩ ⟨k', ⟨.yield, st⟩, false⟩ := by
  unfold semaUp semaWake at h
  obtain ⟨k₂, hwake, h⟩ := bind_eq_ok.mp h
  cases h
  split at hwake
  · next hnil =>
    cases hwake
    rw [hnil]
    exact .upNone hnil
  · next w ws hcons =>
    obtain ⟨k₁, hub, hwake⟩ := bind_eq_ok.mp hwake
    cases hwake
    have hsemas := threadUnblock_semas hub
    have hup : Exec k ⟨.semaUp s, st⟩ _ := .upWake
      (by rw [hcons]; exact firstMax_mem ws w)
      (by rw [hcons]; exact firstMax_key (fun t => (k.threads t).priority) ws w) hub
    simpa only [Kernel.setSema, update_self, update_idem, hsemas] using hup

theorem execAcquire_ok (h : execAcquire k st pc = .ok o) : Exec k ⟨pc, st⟩ o := by
  unfold execAcquire goto done at h
  split at h
  · split at h
    · cases h
    · next hh =>
      cases h
      exact .silent (.acquireAssert fun heq => hh (lockHeldByCurrentThread_iff.mpr heq))
  · split at h
    · cases h
    · next hh =>
      cases h
      exact .silent (.tryAssert fun heq => hh (lockHeldByCurrentThread_iff.mpr heq))
  · next l wait =>
    unfold semaTryDown at h
    dsimp only at h
    split at h
    · next hk =>
      split at hk
      · next hv =>
        obtain ⟨rfl, -⟩ := Prod.mk.inj hk
        cases h
        exact .tryTake hv
      · exact absurd (Prod.mk.inj hk).2 (by simp)
    · next hk =>
      split at hk
      · exact absurd (Prod.mk.inj hk).2 (by simp)
      · next hv =>
        obtain ⟨rfl, -⟩ := Prod.mk.inj hk
        have hzero : (k.semas (.lock l)).value = 0 := by omega
        cases wait with
        | true =>
          cases h
          exact .silent (.tryFail hzero)
        | false =>
          cases h
          exact .silent (.tryGiveUp hzero)
  · cases h
    exact .setHolder
  · cases h
    exact .pushHolding
  · cases h
    exact .setWaiting
  · next l t dep =>
    split at h
    · next hm =>
      cases h
      exact .silent (.donateStop (.inl hm))
    · next hm =>
      split at h
      · next hstop =>
        cases h
        exact .silent (.donateStop (.inr hstop))
      · next hgo =>
        cases h
        obtain ⟨hdep, hw⟩ := not_or.mp hgo
        obtain ⟨lw, hlw⟩ := Option.ne_none_iff_exists'.mp hw
        exact .silent (.donateGo (Bool.not_eq_true _ ▸ hm) (not_lt.mp hdep) hlw)
  · obtain ⟨lw, hlw, h⟩ := bind_eq_ok.mp h
    split at h
    · next hlt =>
      cases h
      exact .silent (.donateMore (waitedLock_ok hlw) hlt)
    · next hge =>
      cases h
      exact .silent (.donateEnough (waitedLock_ok hlw) (not_lt.mp hge))
  · obtain ⟨lw, hlw, h⟩ := bind_eq_ok.mp h
    split at h
    · cases h
    · next hh =>
      cases h
      exact .silent (.donateAssert (waitedLock_ok hlw) hh)
  · obtain ⟨lw, hlw, h⟩ := bind_eq_ok.mp h
    cases h
    exact .donateStore (waitedLock_ok hlw)
  · obtain ⟨hold, hh, h⟩ := bind_eq_ok.mp h
    obtain ⟨lw, hlw, hh⟩ := waitedHolder_ok hh
    split at h
    · next hgt =>
      cases h
      exact .silent (.donateBelow hlw hh hgt)
    · next hle =>
      cases h
      exact .silent (.donateAbove hlw hh (not_lt.mp hle))
  · obtain ⟨hold, hh, h⟩ := bind_eq_ok.mp h
    obtain ⟨lw, hlw, hh⟩ := waitedHolder_ok hh
    cases h
    exact .donateRaise hlw hh
  · obtain ⟨lw, hlw, h⟩ := bind_eq_ok.mp h
    split at h
    · cases h
    · next hh =>
      cases h
      exact .silent (.donateNext (waitedLock_ok hlw) hh)
  · cases h
    exact .sortHeap
  · cases h
    exact .acquired
  · cases h

theorem execRelease_ok (h : execRelease k st pc = .ok o) : Exec k ⟨pc, st⟩ o := by
  unfold execRelease goto at h
  split at h
  · split at h
    · next hh =>
      cases h
      exact .silent (.releaseAssert (lockHeldByCurrentThread_iff.mp hh))
    · cases h
  · cases h
    exact .releaseClear
  · split at h
    · next hm =>
      cases h
      exact .silent (.updateMlfqs hm)
    · next hm =>
      have hm : k.mlfqs = false := Bool.not_eq_true _ ▸ hm
      split at h
      · next hl =>
        cases h
        exact .silent (.updateNone hm hl)
      · next hl =>
        cases h
        exact .silent (.updateStart hm hl)
  · next u p m =>
    cases h
    have hmax : (if (k.locks m).priorityDonate > p then (k.locks m).priorityDonate else p)
        = max p (k.locks m).priorityDonate := by
      rw [max_def]
      split <;> split <;> omega
    rw [hmax]
    exact .silent .updateLast
  · cases h
    exact .silent .updateScan
  · cases h
    exact .updateStore
  · cases h
    exact .updateMlfqs .max
  · cases h
    exact .updateMlfqs .cpu
  · cases h
    exact .updateMlfqs .nice
  · cases h
    exact .updateMlfqs .clamp
  · cases h

theorem execCond_ok (h : execCond k st pc = .ok o) : Exec k ⟨pc, st⟩ o := by
  unfold execCond goto done at h
  split at h
  · split at h
    · next hh =>
      cases h
      exact .silent (.waitAssert (lockHeldByCurrentThread_iff.mp hh))
    · cases h
  · cases h
    exact .waitPush
  · split at h
    · next hh =>
      cases h
      exact .silent (.signalAssert (lockHeldByCurrentThread_iff.mp hh))
    · cases h
  · split at h
    · next hc =>
      cases h
      exact .silent (.signalNone hc)
    · next hc =>
      cases h
      exact .silent (.signalStart hc)
  · cases h
    exact .silent .signalLast
  · cases h
    exact .silent .signalScan
  · cases h
    exact .signalRemove
  · split at h
    · next hc =>
      cases h
      exact .silent (.broadcastNone hc)
    · next hc =>
      cases h
      exact .silent (.broadcastNext fun heq => hc heq)
  · cases h

theorem execPriority_ok (h : execPriority k st pc = .ok o) : Exec k ⟨pc, st⟩ o := by
  unfold execPriority goto done at h
  split at h
  · split at h
    · next hm =>
      cases h
      exact .silent (.setPriorityMlfqs hm)
    · next hm =>
      cases h
      exact .silent (.setPriority (Bool.not_eq_true _ ▸ hm))
  · cases h
    exact .setOrigin
  · split at h
    · next hc =>
      cases h
      exact .silent (.setChange hc)
    · next hc =>
      cases h
      obtain ⟨hp, hl⟩ := not_or.mp hc
      exact .silent (.setKeep (not_lt.mp hp) hl)
  · cases h
    exact .setStore
  · split at h
    · next hlt =>
      cases h
      exact .silent (.setLower hlt)
    · next hge =>
      cases h
      exact .silent (.setDone (not_lt.mp hge))
  · cases h
    exact .setNice
  · cases h

theorem execCreate_ok (h : execCreate k st pc = .ok o) : Exec k ⟨pc, st⟩ o := by
  unfold execCreate goto done at h
  split at h
  · cases h
    exact .silent .create
  · next p avail =>
    cases avail with
    | true =>
      cases h
      exact .createPage
    | false =>
      cases h
      exact .silent .createNoPage
  · cases h
    exact .silent .createFail
  · obtain ⟨k₁, hk₁, h⟩ := bind_eq_ok.mp h
    cases h
    exact .createInit hk₁
  · cases h
    exact .silent .createTid
  · split at h
    · next hm =>
      split at h <;>
      · cases h
        exact .createMlfqs hm
    · next hm =>
      cases h
      exact .silent (.createPlain (Bool.not_eq_true _ ▸ hm))
  · obtain ⟨k₁, hk₁, h⟩ := bind_eq_ok.mp h
    cases h
    exact .createUnblock hk₁
  · split at h
    · next hgt =>
      cases h
      exact .silent (.createYield hgt)
    · next hle =>
      cases h
      exact .silent (.createDone (not_lt.mp hle))
  · cases h

end Code

/-- **Inversion of `exec`.** -/
theorem exec_ok {k : Kernel} {c : Control} {o : Outcome} (h : exec k c = .ok o) :
    Exec k c o := by
  obtain ⟨pc, st⟩ := c
  cases pc with
  | user | exited => exact absurd h (by simp [exec])
  | idle =>
    cases h
    exact .idle
  | semaDown s => exact semaDown_ok (.inl rfl) h
  | semaRetest s => exact semaDown_ok (.inr rfl) h
  | semaTryDown s =>
    change done (semaTryDown k s).1 st = .ok o at h
    unfold semaTryDown done at h
    dsimp only at h
    split at h
    · next hv =>
      cases h
      exact .tryDown hv
    · next hv =>
      cases h
      exact .silent (.tryDownNone (by omega))
  | semaUp s =>
    obtain ⟨k₁, hk₁, h⟩ := bind_eq_ok.mp h
    cases h
    exact semaUp_ok hk₁
  | yield =>
    obtain ⟨k₁, hk₁, h⟩ := bind_eq_ok.mp h
    cases h
    exact .yield hk₁
  | exit =>
    cases h
    exact .exit
  | sleep n =>
    change (if n < 0 then done k st else _) = .ok o at h
    split at h
    · next hn =>
      cases h
      exact .silent (.sleepNone hn)
    · next hn =>
      obtain ⟨k₁, hk₁, h⟩ := bind_eq_ok.mp h
      cases h
      exact .sleep (not_lt.mp hn) hk₁
  | sleepWake =>
    cases h
    exact .silent .sleepWake
  | _ =>
    first
    | exact execAcquire_ok h
    | exact execRelease_ok h
    | exact execCond_ok h
    | exact execPriority_ok h
    | exact execCreate_ok h

/-- What happens on an event, up to the dispatch of the next thread, as a relation. -/
inductive Act (m : Machine) : Event → Outcome → Prop where
  | call {c : Call} : m.curPc = .user →
      Act m (.call c) ⟨m.kernel, ⟨c.entry, (m.ctl m.kernel.running).stack⟩, false⟩
  | exec {o} : Exec m.kernel (m.ctl m.kernel.running) o → Act m .exec o
  | tick {y k k'} : m.interruptsOn = true → timerInterrupt m.kernel = .ok (y, k) →
      yieldOnReturn y k = .ok k' → Act m .tick ⟨k', m.ctl m.kernel.running, y⟩

theorem yieldOnReturn_ok {k k' : Kernel} {y : Bool} (h : yieldOnReturn y k = .ok k') :
    yieldPark k = .ok k' ∨ k' = k := by
  unfold yieldOnReturn at h
  split at h
  · exact .inl h
  · exact .inr (Except.ok.inj h).symm

/-- A timer interrupt, with the yield at its end. -/
theorem tick_tables {k k₁ k' : Kernel} {y : Bool} (hint : timerInterrupt k = .ok (y, k₁))
    (hy : yieldOnReturn y k₁ = .ok k') : k.SameTables k' := by
  have hk := timerInterrupt_tables hint
  rcases yieldOnReturn_ok hy with hy | rfl
  · exact hk.trans (yieldPark_tables hy)
  · exact hk

/-- **Inversion of `act`.** -/
theorem act_ok {m : Machine} {e : Event} {o : Outcome} (h : act m e = .ok o) : Act m e o := by
  cases e with
  | call c =>
    change (if m.curPc = .user then _ else _) = _ at h
    split at h
    · next hpc =>
      cases h
      exact .call hpc
    · cases h
  | exec => exact .exec (exec_ok h)
  | tick =>
    change (if m.interruptsOn = true then _ else _) = _ at h
    split at h
    · next hon =>
      obtain ⟨⟨y, k⟩, hint, h⟩ := bind_eq_ok.mp h
      obtain ⟨k', hy, h⟩ := bind_eq_ok.mp h
      cases h
      exact .tick hon hint hy
    · cases h

/-- **Inversion of `step`.** -/
theorem step_cases {m m' : Machine} {e : Event} (h : step m e = .ok m') :
    ∃ o, Act m e o ∧ ((o.switch = false ∧ m' = m.settle o) ∨
      ∃ k, o.switch = true ∧ schedule o.kernel = .ok k ∧ m' = ⟨k, (m.settle o).ctl⟩) := by
  obtain ⟨o, ho, hcase⟩ := step_ok h
  exact ⟨o, act_ok ho, hcase⟩

/-- What the dispatch changes at most: the CPU, the ready heap and the status of a thread. -/
structure Dispatched (k k' : Kernel) : Prop where
  mlfqs : k'.mlfqs = k.mlfqs
  semas : k'.semas = k.semas
  locks : k'.locks = k.locks
  conds : k'.conds = k.conds
  nextPage : k'.nextPage = k.nextPage
  threads : ∀ t, ∃ st, k'.threads t = { k.threads t with status := st }

theorem dispatched_of_schedule {k k' : Kernel} (h : schedule k = .ok k') : Dispatched k k' := by
  obtain ⟨next, heap, freed, rfl, -⟩ := schedule_ok h
  refine ⟨rfl, rfl, rfl, rfl, rfl, fun t => ?_⟩
  by_cases ht : t = next
  · subst ht
    exact ⟨.running, update_self ..⟩
  · exact ⟨(k.threads t).status, update_of_ne ht ..⟩

/-- **Inversion of `step`**, for what the dispatch does not touch: the running thread moves, and
the memory is what its code left. -/
theorem step_act {m m' : Machine} {e : Event} (h : step m e = .ok m') :
    ∃ o, Act m e o ∧ m'.ctl = update m.ctl m.kernel.running o.ctl ∧
      Dispatched o.kernel m'.kernel := by
  obtain ⟨o, ha, ⟨-, rfl⟩ | ⟨k, -, hk, rfl⟩⟩ := step_cases h
  · exact ⟨o, ha, rfl, rfl, rfl, rfl, rfl, rfl, fun t => ⟨_, rfl⟩⟩
  · exact ⟨o, ha, rfl, dispatched_of_schedule hk⟩

end Pintos
