import Pintos.Sync.Ownership

/-!
# The console lock

`acquire_console` and `release_console` of `lib/kernel/console.c` make a recursive lock out of
`console_lock` and one global counter. Neither turns interrupts off, so a thread has, besides its
place in the kernel's code, a `ConsolePlace` in theirs, and a timer interrupt may come at each of
them; the counter is read and written in two steps. `Console` is the machine with the counter and
these places, and `consoleStep` is its step. What a thread does between the calls is left open,
except that `console_lock` is `static` and no other code uses it.

An interrupt handler that prints finds `intr_context ()` true in both functions, which then do
nothing (`ConsoleEvent.handler`).

The nesting depth of a thread, `Console.nest`, is not a variable of the program. It goes up when
`acquire_console` returns, and down when `release_console` has written the counter or calls
`lock_release`.

* `Control.Avoids` — a thread outside the two functions stays away from the lock (`Exec.avoids`);
* `Exec.entering`, `Exec.leaving` — the way through `lock_acquire` and `lock_release`;
* `Recursive` — the invariant: who owns the lock, and whose depth the counter is;
  `Recursive.of_local` says what a step of one thread has to respect;
* `console_lock_recursive` — what holds in every run.
-/

namespace Pintos

open Transition LockTable Function

/-! ### The code -/

/-- Where a thread is in `acquire_console` or `release_console`. -/
inductive ConsolePlace where
  | outside
  /-- `!intr_context () && use_console_lock` -/
  | acquireTest
  /-- `lock_held_by_current_thread (&console_lock)` -/
  | heldTest
  /-- `console_lock_depth++`, before the counter is read. -/
  | incLoad
  /-- The same, before `v` is written. -/
  | incStore (v : ℤ)
  /-- In `lock_acquire`. -/
  | acquiring
  /-- `!intr_context () && use_console_lock` -/
  | releaseTest
  /-- `console_lock_depth > 0` -/
  | depthTest
  | decLoad
  | decStore (v : ℤ)
  /-- In `lock_release`. -/
  | releasing
  deriving DecidableEq, Repr

/-- The machine with the console. -/
structure Console where
  machine : Machine
  /-- `console_lock_depth` -/
  depth : ℤ
  /-- `use_console_lock` -/
  useLock : Bool
  place : Tid → ConsolePlace
  /-- How many times a thread is inside the console lock. -/
  nest : Tid → ℕ

inductive ConsoleEvent where
  /-- An event of the machine. -/
  | kernel (e : Event)
  /-- The running thread calls `acquire_console`. -/
  | acquire
  /-- The running thread calls `release_console`. -/
  | release
  /-- The running thread goes on in one of the two. -/
  | go
  /-- An interrupt handler prints. -/
  | handler
  deriving DecidableEq, Repr

namespace Console

/-- The thread on the CPU. -/
def cur (s : Console) : Tid := s.machine.kernel.running

/-- The running thread moves on to `p`. -/
def goto (s : Console) (p : ConsolePlace) : Console := { s with place := update s.place s.cur p }

/-- The running thread's nesting depth changes. -/
def setNest (s : Console) (n : ℕ) : Console := { s with nest := update s.nest s.cur n }

/-- `acquire_console` returns. -/
def entered (s : Console) : Console := (s.setNest (s.nest s.cur + 1)).goto .outside

/-- A step of the machine. -/
def kernelStep (s : Console) (e : Event) : Except Fault Console := do
  let m ← step s.machine e
  .ok { s with machine := m }

/-- The code of the two functions, for the console lock `l`. -/
def goOn (l : LockId) (s : Console) : Except Fault Console :=
  match s.place s.cur with
  | .outside => .error .disabled
  | .acquireTest => .ok (if s.useLock then s.goto .heldTest else s.entered)
  | .heldTest =>
    if lockHeldByCurrentThread s.machine.kernel l then .ok (s.goto .incLoad)
    else (s.goto .acquiring).kernelStep (.call (.lockAcquire l))
  | .incLoad => .ok (s.goto (.incStore (s.depth + 1)))
  | .incStore v => .ok { s with depth := v }.entered
  | .acquiring => .ok s.entered
  | .releaseTest =>
    .ok (if s.useLock then s.goto .depthTest
      else (s.setNest (s.nest s.cur - 1)).goto .outside)
  | .depthTest =>
    if s.depth > 0 then .ok (s.goto .decLoad)
    else ((s.setNest (s.nest s.cur - 1)).goto .releasing).kernelStep (.call (.lockRelease l))
  | .decLoad => .ok (s.goto (.decStore (s.depth - 1)))
  | .decStore v => .ok (({ s with depth := v }.setNest (s.nest s.cur - 1)).goto .outside)
  | .releasing => .ok (s.goto .outside)

/-- The running thread is in neither the kernel's code nor the console's. -/
def free (s : Console) : Bool := s.machine.curPc = .user && s.place s.cur = .outside

end Console

/-- One step, for the console lock `l`. -/
def consoleStep (l : LockId) (s : Console) : ConsoleEvent → Except Fault Console
  | .kernel (.call c) => if s.free then s.kernelStep (.call c) else .error .disabled
  | .kernel e => s.kernelStep e
  | .acquire => if s.free then .ok (s.goto .acquireTest) else .error .disabled
  | .release => if s.free then .ok (s.goto .releaseTest) else .error .disabled
  | .go => if s.machine.curPc = .user then s.goOn l else .error .disabled
  | .handler => if s.machine.interruptsOn then .ok s else .error .disabled

/-- After `console_init`. -/
def Console.boot (mlfqs : Bool) (v : ℕ → ℕ) : Console :=
  ⟨Pintos.boot mlfqs v, 0, true, fun _ => .outside, fun _ => 0⟩

/-! ### Code that stays away from the lock -/

/-- The lock that the code at a program point works on, now or after `cond_wait`. -/
def Pc.lockUse : Pc → Option LockId
  | .waitAssert _ l | .waitPush _ l | .semaTryDown (.lock l) => some l
  | pc => pc.lockCode

/-- The lock that an enclosing call will take again. -/
def Frame.lockUse : Frame → Option LockId
  | .waitDown l | .waitAcquire l => some l
  | _ => none

/-- The thread is not about to touch `l`. -/
structure Control.Avoids (c : Control) (l : LockId) : Prop where
  pc : c.pc.lockUse ≠ some l
  stack : ∀ f ∈ c.stack, f.lockUse ≠ some l

/-- A call with another lock, or with none. -/
def Call.Avoids (c : Call) (l : LockId) : Prop := c.entry.lockUse ≠ some l

/-- The calls of acquire and release are properly nested in every thread, and nobody else uses the
lock. -/
def Nested (l : LockId) (s : Console) : ConsoleEvent → Prop
  | .kernel (.call c) => c.Avoids l ∧ (c = .threadExit → s.nest s.cur = 0)
  | .release => 0 < s.nest s.cur
  | _ => True

section Control

variable {l : LockId} {k : Kernel} {c c' : Control} {o : Outcome} {pc : Pc} {t : Tid}
  {st : List Frame}

theorem lockCode_ne_of_lockUse (h : pc.lockUse ≠ some l) : pc.lockCode ≠ some l := by
  cases pc with
  | waitAssert | waitPush | semaTryDown => simp [Pc.lockCode]
  | _ => exact h

theorem avoids_ret (h : ∀ f ∈ st, f.lockUse ≠ some l) : (ret t st).Avoids l := by
  cases st with
  | nil => exact ⟨by simp [ret, Pc.lockUse, Pc.lockCode], h⟩
  | cons f st =>
    have hf := h f List.mem_cons_self
    have hst : ∀ f ∈ st, f.lockUse ≠ some l := fun f hf => h f (List.mem_cons_of_mem _ hf)
    cases f with
    | waitDown l' =>
      refine ⟨by simp [ret, Pc.lockUse, Pc.lockCode], fun g hg => ?_⟩
      obtain rfl | hg := List.mem_cons.mp hg
      · exact hf
      · exact hst g hg
    | waitAcquire l' => exact ⟨hf, hst⟩
    | _ => exact ⟨by simp [ret, Pc.lockUse, Pc.lockCode], hst⟩

/-- Going on at a point that works on no lock, or on the same one. -/
theorem Control.Avoids.goto (h : Control.Avoids ⟨pc, st⟩ l) {pc' : Pc}
    (hpc : pc'.lockUse = none ∨ pc'.lockUse = pc.lockUse) : Control.Avoids ⟨pc', st⟩ l := by
  refine ⟨?_, h.stack⟩
  obtain hnone | hsame := hpc
  · exact hnone ▸ nofun
  · exact hsame ▸ h.pc

/-- Going on at a point that works on another lock, in a call of its own. -/
theorem Control.Avoids.enter (h : Control.Avoids ⟨pc, st⟩ l) {pc' : Pc} {f : Frame}
    (hpc : pc'.lockUse ≠ some l) (hf : f.lockUse ≠ some l) : Control.Avoids ⟨pc', f :: st⟩ l := by
  refine ⟨hpc, fun g hg => ?_⟩
  obtain rfl | hg := List.mem_cons.mp hg
  · exact hf
  · exact h.stack g hg

variable (hpool : l ≠ poolLock) (htid : l ≠ tidLock)

include hpool htid in
theorem Silent.avoids (hs : Silent k c c') (h : c.Avoids l) : c'.Avoids l := by
  cases hs with
  | tryDownNone | tryGiveUp | signalNone | broadcastNone | setPriorityMlfqs | setDone | createFail
  | createDone | sleepNone | sleepWake => exact avoids_ret h.stack
  | broadcastNext => exact h.enter (by simp [Pc.lockUse, Pc.lockCode]) (by simp [Frame.lockUse])
  | create | createNoPage => exact h.enter (mt Option.some.inj hpool.symm) (by simp [Frame.lockUse])
  | createTid => exact h.enter (mt Option.some.inj htid.symm) (by simp [Frame.lockUse])
  | @updateMlfqs u | @updateNone u | @updateStart u | @updateLast u | @updateScan u =>
    cases u <;> exact h.goto (.inr rfl)
  | _ => exact h.goto (.inr rfl)

theorem Updater.next_lockUse (u : Updater) (p : ℤ) :
    u.next.lockUse = none ∨ u.next.lockUse = (Pc.updateStore u p).lockUse := by
  cases u with
  | release l => exact .inr rfl
  | nice => exact .inl rfl
  | create p t => exact .inl rfl

include hpool htid in
/-- **Code that avoids a lock goes on avoiding it.** -/
theorem Exec.avoids (hex : Exec k c o) (h : c.Avoids l) : o.ctl.Avoids l := by
  cases hex with
  | silent hs => exact hs.avoids hpool htid h
  | @downBlock pc s st hpc =>
    obtain rfl | rfl := hpc
    · cases s <;> exact h.goto (.inr rfl)
    · exact h
  | @downTake pc s st hpc =>
    -- After the semaphore of a lock comes the rest of `lock_acquire`.
    cases s with
    | lock l' => obtain rfl | rfl := hpc <;> exact h.goto (.inr rfl)
    | sema n => exact avoids_ret h.stack
    | waiter t => exact avoids_ret h.stack
  | tryDown | yield | pushHolding | acquired => exact avoids_ret h.stack
  | @updateStore u p st => exact h.goto (u.next_lockUse p)
  | updateMlfqs hst =>
    cases hst with
    | @max u | @cpu u | @nice u => cases u <;> exact h.goto (.inr rfl)
    | @clamp u =>
      obtain hnone | hsame := u.next_lockUse 0
      · exact h.goto (.inl hnone)
      · refine h.goto (.inr (hsame.trans ?_))
        cases u <;> rfl
  | waitPush => exact h.enter h.pc h.pc
  | createPage => exact h.enter (mt Option.some.inj hpool.symm) (by simp [Frame.lockUse])
  | createInit => exact h.enter (mt Option.some.inj htid.symm) (by simp [Frame.lockUse])
  | exit => exact ⟨by simp [Pc.lockUse, Pc.lockCode], fun f hf => absurd hf List.not_mem_nil⟩
  | _ => first | exact h.goto (.inr rfl) | exact h.goto (.inl rfl)

/-! ### The way through `lock_acquire` and `lock_release` -/

/-- `lock_acquire` up to the point where it gets the unit of the lock. -/
def Pc.entering (l : LockId) : Pc → Prop
  | .acquireAssert l' | .tryAssert l' true | .tryDown l' true | .setWaiting l' | .donate l' _ _
  | .donateTest l' _ _ | .donateAssert l' _ _ | .donateStore l' _ _ | .donateCompare l' _ _
  | .donateRaise l' _ _ | .donateNext l' _ _ | .sortHeap l' | .semaDown (.lock l')
  | .semaRetest (.lock l') => l' = l
  | _ => False

/-- `lock_acquire` from there on, up to its return. -/
def Pc.entered (l : LockId) : Pc → Prop
  | .setHolder l' | .pushHolding l' | .acquired l' => l' = l
  | .user => True
  | _ => False

/-- `lock_release` up to its `sema_up`. -/
def Pc.leaving (l : LockId) : Pc → Prop
  | .releaseAssert l' | .releaseClear l' | .updatePriority (.release l')
  | .updateScan (.release l') _ _ _ | .updateStore (.release l') _ | .updateMax (.release l')
  | .updateCpu (.release l') | .updateNice (.release l') | .updateClamp (.release l')
  | .semaUp (.lock l') => l' = l
  | _ => False

/-- The end of `sema_up`, up to the return of `lock_release`. -/
def Pc.left : Pc → Prop
  | .yield | .user => True
  | _ => False

theorem Pc.not_entered_of_entering (h : pc.entering l) : ¬ pc.entered l := by
  cases pc with
  | setHolder | pushHolding | acquired | user => exact h.elim
  | _ => exact id

theorem Pc.not_leaving_of_left (h : pc.left) : ¬ pc.leaving l := by
  cases pc with
  | yield | user => exact id
  | _ => exact h.elim

/-- A step inside `lock_acquire` before the unit: it gets the unit, or not yet. -/
theorem Exec.entering (hex : Exec k ⟨pc, []⟩ o) (hpc : pc.entering l) :
    o.ctl.stack = [] ∧
      ((pc.takesFrom = some (.lock l) ∧ 0 < (k.semas (.lock l)).value ∧ o.ctl.pc.entered l) ∨
        (¬ (pc.takesFrom = some (.lock l) ∧ 0 < (k.semas (.lock l)).value) ∧
          o.ctl.pc.entering l)) := by
  -- Most points take no unit, and the next one is in the same half.
  have hnext : ∀ {pc' : Pc}, pc.takesFrom = none → pc'.entering l →
      (pc.takesFrom = some (.lock l) ∧ 0 < (k.semas (.lock l)).value ∧ pc'.entered l) ∨
        (¬ (pc.takesFrom = some (.lock l) ∧ 0 < (k.semas (.lock l)).value) ∧ pc'.entering l) :=
    fun hnone hpc' => .inr ⟨fun h => absurd (hnone.symm.trans h.1) nofun, hpc'⟩
  cases hex with
  | silent hs =>
    cases hs with
    | @tryAssert l' wait =>
      cases wait with
      | true => exact ⟨rfl, hnext rfl hpc⟩
      | false => exact hpc.elim
    | tryFail hv =>
      obtain rfl : _ = l := hpc
      exact ⟨rfl, .inr ⟨fun h => absurd hv (Nat.ne_of_gt h.2), rfl⟩⟩
    | _ => first | exact hpc.elim | exact ⟨rfl, hnext rfl hpc⟩
  | @downBlock _ sema _ hsema hv =>
    cases sema with
    | lock l' =>
      obtain rfl : l' = l := by obtain rfl | rfl := hsema <;> exact hpc
      exact ⟨rfl, .inr ⟨fun h => absurd hv (Nat.ne_of_gt h.2), rfl⟩⟩
    | _ => obtain rfl | rfl := hsema <;> exact hpc.elim
  | @downTake _ sema _ hsema hv =>
    cases sema with
    | lock l' =>
      obtain rfl : l' = l := by obtain rfl | rfl := hsema <;> exact hpc
      exact ⟨rfl, .inl ⟨by obtain rfl | rfl := hsema <;> rfl, hv, rfl⟩⟩
    | _ => obtain rfl | rfl := hsema <;> exact hpc.elim
  | @tryTake l' wait _ hv =>
    cases wait with
    | true =>
      obtain rfl : l' = l := hpc
      exact ⟨rfl, .inl ⟨rfl, hv, rfl⟩⟩
    | false => exact hpc.elim
  | updateMlfqs hst => cases hst <;> exact hpc.elim
  | _ => first | exact hpc.elim | exact ⟨rfl, hnext rfl hpc⟩

/-- A step inside `lock_acquire` after the unit. -/
theorem Exec.entered (hex : Exec k ⟨pc, []⟩ o) (hpc : pc.entered l) :
    o.ctl.stack = [] ∧ pc.takesFrom = none ∧ pc.givesTo = none ∧ o.ctl.pc.entered l := by
  cases hex with
  | silent hs => cases hs <;> exact hpc.elim
  | downBlock hsema | downTake hsema => obtain rfl | rfl := hsema <;> exact hpc.elim
  | updateMlfqs hst => cases hst <;> exact hpc.elim
  | setHolder => exact ⟨rfl, rfl, rfl, hpc⟩
  | pushHolding | acquired => exact ⟨rfl, rfl, rfl, trivial⟩
  | _ => exact hpc.elim

/-- A step inside `lock_release` before its `sema_up` is done: it is that `sema_up`, or not yet. -/
theorem Exec.leaving (hex : Exec k ⟨pc, []⟩ o) (hpc : pc.leaving l) :
    o.ctl.stack = [] ∧ pc.takesFrom = none ∧
      ((pc.givesTo = some (.lock l) ∧ o.ctl.pc.left) ∨ (pc.givesTo = none ∧ o.ctl.pc.leaving l)) := by
  cases hex with
  | silent hs =>
    cases hs with
    | @updateMlfqs u | @updateNone u | @updateStart u | @updateLast u | @updateScan u =>
      cases u with
      | release l' => exact ⟨rfl, rfl, .inr ⟨rfl, hpc⟩⟩
      | _ => exact hpc.elim
    | releaseAssert => exact ⟨rfl, rfl, .inr ⟨rfl, hpc⟩⟩
    | _ => exact hpc.elim
  | downBlock hsema | downTake hsema => obtain rfl | rfl := hsema <;> exact hpc.elim
  | @upNone sema | @upWake sema =>
    cases sema with
    | lock l' =>
      obtain rfl : l' = l := hpc
      exact ⟨rfl, rfl, .inl ⟨rfl, trivial⟩⟩
    | _ => exact hpc.elim
  | releaseClear => exact ⟨rfl, rfl, .inr ⟨rfl, hpc⟩⟩
  | @updateStore u =>
    cases u with
    | release l' => exact ⟨rfl, rfl, .inr ⟨rfl, hpc⟩⟩
    | _ => exact hpc.elim
  | updateMlfqs hst =>
    cases hst with
    | @max u | @cpu u | @nice u | @clamp u =>
      cases u with
      | release l' => exact ⟨rfl, rfl, .inr ⟨rfl, hpc⟩⟩
      | _ => exact hpc.elim
  | _ => exact hpc.elim

/-- A step at the end of `lock_release`. -/
theorem Exec.left (hex : Exec k ⟨pc, []⟩ o) (hpc : pc.left) :
    o.ctl.stack = [] ∧ pc.takesFrom = none ∧ pc.givesTo = none ∧ o.ctl.pc.left := by
  cases hex with
  | silent hs => cases hs <;> exact hpc.elim
  | downBlock hsema | downTake hsema => obtain rfl | rfl := hsema <;> exact hpc.elim
  | updateMlfqs hst => cases hst <;> exact hpc.elim
  | yield => exact ⟨rfl, rfl, rfl, trivial⟩
  | _ => exact hpc.elim

end Control

/-! ### The invariant -/

/-- What the place of a thread says about its control, its nesting depth and the counter. -/
def ConsolePlace.Fits (l : LockId) (c : Control) (n : ℕ) (d : ℤ) : ConsolePlace → Prop
  | .outside => c.Avoids l
  | .acquireTest | .heldTest => c = ⟨.user, []⟩
  | .incLoad | .releaseTest | .depthTest => c = ⟨.user, []⟩ ∧ 0 < n
  | .incStore v => c = ⟨.user, []⟩ ∧ 0 < n ∧ v = d + 1
  | .decLoad => c = ⟨.user, []⟩ ∧ 0 < n ∧ 0 < d
  | .decStore v => c = ⟨.user, []⟩ ∧ 0 < n ∧ 0 < d ∧ v = d - 1
  | .acquiring => n = 0 ∧ c.stack = [] ∧ (c.pc.entering l ∨ c.pc.entered l)
  | .releasing => n = 0 ∧ c.stack = [] ∧ (c.pc.leaving l ∨ c.pc.left)

/-- Whether a thread has the unit of the lock. -/
def ConsolePlace.Owns (l : LockId) (c : Control) (n : ℕ) : ConsolePlace → Prop
  | .acquiring => c.pc.entered l
  | .releasing => c.pc.leaving l
  | _ => 0 < n

/-- **The invariant.** A thread owns the lock exactly while it is nested in it or on the way in or
out, and then the counter is its depth. -/
structure Recursive (l : LockId) (s : Console) : Prop where
  scheduled : Scheduled s.machine
  locked : Locked s.machine
  use : s.useLock = true
  fits : ∀ t, (s.place t).Fits l (s.machine.ctl t) (s.nest t) s.depth
  owns : ∀ t, s.machine.lockTable.Owns t l ↔ (s.place t).Owns l (s.machine.ctl t) (s.nest t)
  depth : ∀ t, 0 < s.nest t → s.depth = s.nest t - 1
  idle : (∀ t, s.nest t = 0) → s.depth = 0

section Invariant

variable {l : LockId} {s s' : Console} {r t : Tid} {p : ConsolePlace} {c : Control} {n : ℕ} {d d' : ℤ}

/-- The counter matters only to a thread that is nested. -/
theorem ConsolePlace.Fits.congr (h : p.Fits l c n d) (hd : 0 < n → d' = d) : p.Fits l c n d' := by
  cases p with
  | incStore v => exact ⟨h.1, h.2.1, hd h.2.1 ▸ h.2.2⟩
  | decLoad => exact ⟨h.1, h.2.1, hd h.2.1 ▸ h.2.2⟩
  | decStore v => exact ⟨h.1, h.2.1, hd h.2.1 ▸ h.2.2⟩
  | _ => exact h

theorem ConsolePlace.Fits.owns_of_nested (h : p.Fits l c n d) (hn : 0 < n) : p.Owns l c n := by
  cases p with
  | acquiring => exact absurd h.1 (Nat.ne_of_gt hn)
  | releasing => exact absurd h.1 (Nat.ne_of_gt hn)
  | _ => exact hn

namespace Recursive

theorem owns_of_nested (h : Recursive l s) (hn : 0 < s.nest t) : s.machine.lockTable.Owns t l :=
  (h.owns t).mpr ((h.fits t).owns_of_nested hn)

/-- Only the owner can be nested. -/
theorem nest_eq_zero (h : Recursive l s) (hr : s.machine.lockTable.Owns r l) (ht : t ≠ r) :
    s.nest t = 0 := by
  by_contra hne
  exact ht (h.locked.exclusive.unique t r l (h.owns_of_nested (Nat.pos_of_ne_zero hne)) hr)

/-- **What a step of thread `r` has to respect**: the other threads stay where they are and own what
they own, and `r` writes the counter only while it is nested. -/
theorem of_local (h : Recursive l s) (hsch : Scheduled s'.machine) (hlock : Locked s'.machine)
    (huse : s'.useLock = true)
    (hothers : ∀ t, t ≠ r → s'.machine.ctl t = s.machine.ctl t ∧ s'.place t = s.place t ∧
      s'.nest t = s.nest t ∧ (s'.machine.lockTable.Owns t l ↔ s.machine.lockTable.Owns t l))
    (hfits : (s'.place r).Fits l (s'.machine.ctl r) (s'.nest r) s'.depth)
    (howns : s'.machine.lockTable.Owns r l ↔ (s'.place r).Owns l (s'.machine.ctl r) (s'.nest r))
    (hkeep : s'.depth = s.depth ∨ 0 < s.nest r)
    (hdepth : 0 < s'.nest r → s'.depth = s'.nest r - 1)
    (hzero : s'.nest r = 0 → s.nest r = 0 ∨ s'.depth = 0) : Recursive l s' := by
  -- While another thread is nested, `r` is not, and the counter stays.
  have hsame : ∀ t, t ≠ r → 0 < s.nest t → s'.depth = s.depth := by
    intro t ht hn
    refine hkeep.resolve_right fun hr => ?_
    exact absurd (h.nest_eq_zero (h.owns_of_nested hr) ht) (Nat.ne_of_gt hn)
  refine ⟨hsch, hlock, huse, fun t => ?_, fun t => ?_, fun t hn => ?_, fun hall => ?_⟩
  · by_cases ht : t = r
    · exact ht ▸ hfits
    · obtain ⟨hctl, hplace, hnest, -⟩ := hothers t ht
      rw [hctl, hplace, hnest]
      exact (h.fits t).congr (hsame t ht)
  · by_cases ht : t = r
    · exact ht ▸ howns
    · obtain ⟨hctl, hplace, hnest, hown⟩ := hothers t ht
      rw [hctl, hplace, hnest, hown]
      exact h.owns t
  · by_cases ht : t = r
    · subst ht
      exact hdepth hn
    · obtain ⟨-, -, hnest, -⟩ := hothers t ht
      rw [hnest] at hn ⊢
      exact (hsame t ht hn).trans (h.depth t hn)
  · obtain hr | hd := hzero (hall r)
    · refine (hkeep.resolve_right (Nat.not_lt_of_le (Nat.le_of_eq hr))).trans (h.idle fun t => ?_)
      by_cases ht : t = r
      · exact ht ▸ hr
      · exact (hothers t ht).2.2.1 ▸ hall t
    · exact hd

end Recursive

/-! ### Steps of the machine -/

variable {m m' : Machine} {e : Event}

/-- **Who owns a lock after a step.** -/
theorem owns_step (hsch : Scheduled m) (hlock : Locked m) (hs : step m e = .ok m') :
    m'.lockTable.Owns t l ↔
      (m.lockTable.Owns t l ∧ ¬ (t = m.kernel.running ∧ performsUp (.lock l) (m, e) = true)) ∨
        (t = m.kernel.running ∧ completesDown (.lock l) (m, e) = true) := by
  obtain ⟨a, hmove, hdown, hup⟩ := step_lockMove hsch hlock hs
  rw [← hdown l, ← hup l]
  cases a with
  | silent => simp [Move.owns_silent hlock.exclusive hmove]
  | down l₀ => simp [(Move.owns_down hmove).2, eq_comm]
  | up l₀ => simp [(Move.owns_up hlock.exclusive hmove).2, eq_comm]

/-- A point that avoids a lock does not take or give its unit. -/
theorem semas_of_lockUse {pc : Pc} (h : pc.lockUse ≠ some l) :
    pc.takesFrom ≠ some (.lock l) ∧ pc.givesTo ≠ some (.lock l) := by
  cases pc with
  | semaDown x | semaRetest x | semaUp x | semaTryDown x =>
    cases x with
    | lock l' => simpa [Pc.lockUse, Pc.lockCode, Pc.takesFrom, Pc.givesTo] using h
    | _ => simp [Pc.takesFrom, Pc.givesTo]
  | tryDown l' wait => simpa [Pc.lockUse, Pc.lockCode, Pc.takesFrom, Pc.givesTo] using h
  | _ => simp [Pc.takesFrom, Pc.givesTo]

namespace Recursive

variable (hpool : l ≠ poolLock) (htid : l ≠ tidLock)

/-- A step of the machine keeps the invariant if it does so for the thread that makes it. -/
theorem of_machine (h : Recursive l s) (hs : step s.machine e = .ok m')
    (hfits : (s.place s.cur).Fits l (m'.ctl s.cur) (s.nest s.cur) s.depth)
    (howns : m'.lockTable.Owns s.cur l ↔ (s.place s.cur).Owns l (m'.ctl s.cur) (s.nest s.cur)) :
    Recursive l { s with machine := m' } := by
  obtain ⟨o, -, hctl, -⟩ := step_act hs
  refine h.of_local (r := s.cur) (h.scheduled.step hs) (h.locked.step h.scheduled hs) h.use
    (fun t ht => ⟨?_, rfl, rfl, ?_⟩) hfits howns (.inl rfl) (h.depth s.cur) .inl
  · rw [hctl]
    exact update_of_ne ht ..
  · refine (owns_step h.scheduled h.locked hs).trans ?_
    have hne : ¬ t = s.machine.kernel.running := ht
    simp [hne]

/-- An event other than `exec` neither takes nor gives the unit. -/
theorem of_quiet (h : Recursive l s) (hs : step s.machine e = .ok m') (he : e ≠ .exec)
    (hfits : (s.place s.cur).Fits l (m'.ctl s.cur) (s.nest s.cur) s.depth)
    (howns : (s.place s.cur).Owns l (s.machine.ctl s.cur) (s.nest s.cur) ↔
      (s.place s.cur).Owns l (m'.ctl s.cur) (s.nest s.cur)) :
    Recursive l { s with machine := m' } := by
  refine h.of_machine hs hfits ?_
  rw [owns_step h.scheduled h.locked hs, h.owns s.cur, howns]
  simp [completesDown, performsUp, he]

include hpool htid in
/-- **Steps of the machine.** -/
theorem kernel (h : Recursive l s) (hs : step s.machine e = .ok m')
    (hcall : ∀ c, e = .call c → c.Avoids l ∧ s.place s.cur = .outside) :
    Recursive l { s with machine := m' } := by
  obtain ⟨o, ha, hctl, -⟩ := step_act hs
  have hcur : m'.ctl s.cur = o.ctl := by
    rw [hctl]
    exact update_self ..
  have hfits := h.fits s.cur
  cases ha with
  | @call c hpc =>
    obtain ⟨havoid, hplace⟩ := hcall c rfl
    refine h.of_quiet hs nofun ?_ ?_
    · rw [hplace] at hfits ⊢
      rw [hcur]
      exact ⟨havoid, hfits.stack⟩
    · rw [hplace]
      rfl
  | tick =>
    refine h.of_quiet hs nofun ?_ ?_
    · rw [hcur]
      exact hfits
    · rw [hcur]
      rfl
  | exec hex =>
    obtain ⟨c, hc⟩ : ∃ c, s.machine.ctl s.cur = c := ⟨_, rfl⟩
    have hdown : completesDown (.lock l) (s.machine, .exec) = true ↔
        c.pc.takesFrom = some (.lock l) ∧ 0 < (s.machine.kernel.semas (.lock l)).value := by
      rw [completesDown_exec hc, decide_eq_true_eq]
    have hup : performsUp (.lock l) (s.machine, .exec) = true ↔ c.pc.givesTo = some (.lock l) := by
      rw [performsUp_exec hc, decide_eq_true_eq]
    have hex : Exec s.machine.kernel c o := hc ▸ hex
    have howns : m'.lockTable.Owns s.cur l ↔
        ((s.place s.cur).Owns l c (s.nest s.cur) ∧ c.pc.givesTo ≠ some (.lock l)) ∨
          (c.pc.takesFrom = some (.lock l) ∧ 0 < (s.machine.kernel.semas (.lock l)).value) := by
      have hcurrent : s.cur = s.machine.kernel.running := rfl
      rw [owns_step h.scheduled h.locked hs, h.owns s.cur, hdown, hup, hc]
      simp [hcurrent]
    -- What is left to show is about the thread alone.
    have hlocal : (s.place s.cur).Fits l o.ctl (s.nest s.cur) s.depth →
        (m'.lockTable.Owns s.cur l ↔ (s.place s.cur).Owns l o.ctl (s.nest s.cur)) →
        Recursive l { s with machine := m' } := by
      rw [← hcur]
      exact h.of_machine hs
    obtain ⟨pc, st⟩ := c
    rw [hc] at hfits
    generalize s.place s.cur = p at hfits howns hlocal
    cases p with
    | outside =>
      obtain ⟨htakes, hgives⟩ := semas_of_lockUse hfits.pc
      refine hlocal (hex.avoids hpool htid hfits) (howns.trans ?_)
      exact ⟨fun hor => hor.elim And.left fun hd => absurd hd.1 htakes, fun hn => .inl ⟨hn, hgives⟩⟩
    | acquiring =>
      obtain ⟨hnest, rfl, hpc | hpc⟩ := hfits
      · have hnot : ¬ pc.entered l := Pc.not_entered_of_entering hpc
        obtain ⟨hstack, ⟨htakes, hpos, hnext⟩ | ⟨hnone, hnext⟩⟩ := hex.entering hpc
        · exact hlocal ⟨hnest, hstack, .inr hnext⟩
            (iff_of_true (howns.mpr (.inr ⟨htakes, hpos⟩)) hnext)
        · refine hlocal ⟨hnest, hstack, .inl hnext⟩ (iff_of_false (fun hown => ?_)
            (Pc.not_entered_of_entering hnext))
          exact (howns.mp hown).elim (fun hin => hnot hin.1) hnone
      · obtain ⟨hstack, -, hgives, hnext⟩ := hex.entered hpc
        refine hlocal ⟨hnest, hstack, .inr hnext⟩ (iff_of_true (howns.mpr (.inl ⟨hpc, ?_⟩)) hnext)
        exact fun hg => nomatch hgives.symm.trans hg
    | releasing =>
      obtain ⟨hnest, rfl, hpc | hpc⟩ := hfits
      · obtain ⟨hstack, htakes, ⟨hgives, hnext⟩ | ⟨hgives, hnext⟩⟩ := hex.leaving hpc
        · refine hlocal ⟨hnest, hstack, .inr hnext⟩ (iff_of_false (fun hown => ?_)
            (Pc.not_leaving_of_left hnext))
          exact (howns.mp hown).elim (fun hin => hin.2 hgives) fun hd => nomatch htakes.symm.trans hd.1
        · refine hlocal ⟨hnest, hstack, .inl hnext⟩ (iff_of_true (howns.mpr (.inl ⟨hpc, ?_⟩)) hnext)
          exact fun hg => nomatch hgives.symm.trans hg
      · have hnot : ¬ pc.leaving l := Pc.not_leaving_of_left hpc
        obtain ⟨hstack, htakes, -, hnext⟩ := hex.left hpc
        refine hlocal ⟨hnest, hstack, .inr hnext⟩ (iff_of_false (fun hown => ?_)
          (Pc.not_leaving_of_left hnext))
        exact (howns.mp hown).elim (fun hin => hnot hin.1) fun hd => nomatch htakes.symm.trans hd.1
    | acquireTest | heldTest =>
      cases hfits
      exact absurd rfl hex.pc_inside.1
    | _ =>
      cases hfits.1
      exact absurd rfl hex.pc_inside.1

/-! ### Steps of the console -/

/-- A step in the console's own code. -/
theorem of_console (h : Recursive l s)
    (hfits : p.Fits l (s.machine.ctl s.cur) n d)
    (howns : (s.place s.cur).Owns l (s.machine.ctl s.cur) (s.nest s.cur) ↔
      p.Owns l (s.machine.ctl s.cur) n)
    (hkeep : d = s.depth ∨ 0 < s.nest s.cur) (hdepth : 0 < n → d = n - 1)
    (hzero : n = 0 → s.nest s.cur = 0 ∨ d = 0) :
    Recursive l (({ s with depth := d }.setNest n).goto p) := by
  have hplace : (({ s with depth := d }.setNest n).goto p).place s.cur = p := update_self ..
  have hnest : (({ s with depth := d }.setNest n).goto p).nest s.cur = n := update_self ..
  refine h.of_local (r := s.cur) h.scheduled h.locked h.use (fun t ht => ⟨rfl, ?_, ?_, Iff.rfl⟩)
    ?_ ?_ hkeep ?_ ?_
  · exact update_of_ne ht ..
  · exact update_of_ne ht ..
  · rw [hplace, hnest]
    exact hfits
  · rw [hplace, hnest]
    exact (h.owns s.cur).trans howns
  · rw [hnest]
    exact hdepth
  · rw [hnest]
    exact hzero

/-- A step that only moves on. -/
theorem of_goto (h : Recursive l s) (hfits : p.Fits l (s.machine.ctl s.cur) (s.nest s.cur) s.depth)
    (howns : (s.place s.cur).Owns l (s.machine.ctl s.cur) (s.nest s.cur) ↔
      p.Owns l (s.machine.ctl s.cur) (s.nest s.cur)) : Recursive l (s.goto p) := by
  have hsame : ({ s with depth := s.depth } : Console).setNest (s.nest s.cur) = s := by
    simp [Console.setNest, Console.cur]
  have hgoto := h.of_console hfits howns (.inl rfl) (h.depth s.cur) .inl
  rwa [hsame] at hgoto

/-- The console calls the kernel. -/
theorem of_call (h : Recursive l s) {c : Call} (hpc : s.machine.ctl s.cur = ⟨.user, []⟩)
    (hs : step s.machine (.call c) = .ok m') (hfits : p.Fits l ⟨c.entry, []⟩ n s.depth)
    (howns : (s.place s.cur).Owns l (s.machine.ctl s.cur) (s.nest s.cur) ↔ p.Owns l ⟨c.entry, []⟩ n)
    (hdepth : 0 < n → s.depth = n - 1) (hzero : n = 0 → s.nest s.cur = 0 ∨ s.depth = 0) :
    Recursive l { (s.setNest n).goto p with machine := m' } := by
  obtain ⟨o, ha, hctl, -⟩ := step_act hs
  have hcur : m'.ctl s.cur = ⟨c.entry, []⟩ := by
    cases ha with
    | call =>
      rw [hctl]
      refine (update_self ..).trans ?_
      rw [show s.machine.ctl s.machine.kernel.running = ⟨.user, []⟩ from hpc]
  have hplace : { (s.setNest n).goto p with machine := m' }.place s.cur = p := update_self ..
  have hnest : { (s.setNest n).goto p with machine := m' }.nest s.cur = n := update_self ..
  have hown : ∀ t, m'.lockTable.Owns t l ↔ s.machine.lockTable.Owns t l := by
    intro t
    rw [owns_step h.scheduled h.locked hs]
    simp [completesDown, performsUp]
  refine h.of_local (r := s.cur) (h.scheduled.step hs) (h.locked.step h.scheduled hs) h.use
    (fun t ht => ⟨?_, ?_, ?_, hown t⟩) ?_ ?_ (.inl rfl) ?_ ?_
  · rw [hctl]
    exact update_of_ne ht ..
  · exact update_of_ne ht ..
  · exact update_of_ne ht ..
  · rw [hplace, hnest, hcur]
    exact hfits
  · rw [hplace, hnest, hcur]
    exact (hown s.cur).trans ((h.owns s.cur).trans howns)
  · rw [hnest]
    exact hdepth
  · rw [hnest]
    exact hzero

/-- Outside the kernel's code, the lock is held exactly by a thread that is nested in it. -/
theorem holder_iff (h : Recursive l s) (hpc : (s.machine.pc t).lockCode ≠ some l)
    (hplace : s.place t ≠ .acquiring) (hplace' : s.place t ≠ .releasing) :
    (s.machine.kernel.locks l).holder = some t ↔ 0 < s.nest t := by
  rw [holder_iff_owns h.locked hpc, h.owns t]
  cases hp : s.place t with
  | acquiring => exact absurd hp hplace
  | releasing => exact absurd hp hplace'
  | _ => rfl

theorem avoids_user : Control.Avoids ⟨.user, []⟩ l :=
  ⟨by simp [Pc.lockUse, Pc.lockCode], fun _ hf => absurd hf List.not_mem_nil⟩

theorem ctl_of_user (h : Recursive l s) (hpc : s.machine.curPc = .user) :
    s.machine.ctl s.cur = ⟨.user, []⟩ := by
  have hstack := h.scheduled.flow.stack_of_user hpc
  have hpc' : (s.machine.ctl s.cur).pc = .user := hpc
  have hstack' : (s.machine.ctl s.cur).stack = [] := hstack
  rw [← hpc', ← hstack']

theorem kernelStep_ok {e : Event} (hs : s.kernelStep e = .ok s') :
    ∃ m', Pintos.step s.machine e = .ok m' ∧ s' = { s with machine := m' } := by
  obtain ⟨m', hm', hs⟩ := bind_eq_ok.mp hs
  exact ⟨m', hm', (Except.ok.inj hs).symm⟩

/-- **The code of `acquire_console` and `release_console`** keeps the invariant, point by point. -/
theorem goOn (h : Recursive l s) (hpc : s.machine.curPc = .user) (hs : s.goOn l = .ok s') :
    Recursive l s' := by
  have huser := h.ctl_of_user hpc
  have hcode : (s.machine.pc s.cur).lockCode ≠ some l := by
    rw [Machine.pc, huser]
    simp [Pc.lockCode]
  have hfits := h.fits s.cur
  unfold Console.goOn at hs
  generalize hplace : s.place s.cur = p at hs hfits
  cases p with
  | outside =>
    cases hs
  | acquireTest =>
    simp only [h.use, if_true] at hs
    cases hs
    exact h.of_goto huser (by rw [hplace]; rfl)
  | heldTest =>
    have hheld := h.holder_iff hcode (hplace ▸ ConsolePlace.noConfusion)
      (hplace ▸ ConsolePlace.noConfusion)
    dsimp only at hs
    split at hs
    next hin =>
      cases hs
      refine h.of_goto ⟨huser, hheld.mp (lockHeldByCurrentThread_iff.mp hin)⟩ (by rw [hplace]; rfl)
    next hout =>
      have hnest : s.nest s.cur = 0 := by
        by_contra hne
        exact hout (lockHeldByCurrentThread_iff.mpr (hheld.mpr (Nat.pos_of_ne_zero hne)))
      obtain ⟨m', hm', rfl⟩ := kernelStep_ok hs
      have hentering : (Pc.acquireAssert l).entering l := rfl
      have hcall := h.of_call (p := .acquiring) (n := s.nest s.cur) huser hm'
        ⟨hnest, rfl, .inl hentering⟩ ?_ (h.depth s.cur) .inl
      · have hsame : s.setNest (s.nest s.cur) = s := by simp [Console.setNest]
        rwa [hsame] at hcall
      · rw [hplace]
        refine iff_of_false (Nat.not_lt_of_le (Nat.le_of_eq hnest)) ?_
        exact Pc.not_entered_of_entering hentering
  | incLoad =>
    cases hs
    exact h.of_goto ⟨huser, hfits.2, rfl⟩ (by rw [hplace]; rfl)
  | incStore v =>
    cases hs
    obtain ⟨-, hnest, rfl⟩ := hfits
    have hdepth := h.depth s.cur hnest
    refine h.of_console (p := .outside) (n := s.nest s.cur + 1) (d := s.depth + 1) ?_ ?_
      (.inr hnest) (fun _ => ?_) fun h0 => absurd h0 (Nat.succ_ne_zero _)
    · exact huser ▸ avoids_user
    · rw [hplace]
      exact iff_of_true hnest (Nat.succ_pos _)
    · rw [hdepth]
      push_cast
      omega
  | acquiring =>
    cases hs
    have hentered : (s.machine.ctl s.cur).pc.entered l := by
      rw [huser]
      trivial
    have hown : s.machine.lockTable.Owns s.cur l := by
      rw [h.owns s.cur, hplace]
      exact hentered
    -- The thread owns the lock and is not nested, so nobody is.
    have hdepth : s.depth = 0 := by
      refine h.idle fun t => ?_
      by_cases ht : t = s.cur
      · exact ht ▸ hfits.1
      · exact h.nest_eq_zero hown ht
    refine h.of_console (p := .outside) (n := s.nest s.cur + 1) (d := s.depth) ?_ ?_
      (.inl rfl) (fun _ => ?_) fun h0 => absurd h0 (Nat.succ_ne_zero _)
    · exact huser ▸ avoids_user
    · rw [hplace]
      exact iff_of_true hentered (Nat.succ_pos _)
    · rw [hdepth, hfits.1]
      rfl
  | releaseTest =>
    simp only [h.use, if_true] at hs
    cases hs
    exact h.of_goto ⟨huser, hfits.2⟩ (by rw [hplace]; rfl)
  | depthTest =>
    dsimp only at hs
    have hdepth := h.depth s.cur hfits.2
    split at hs
    next hpos =>
      cases hs
      exact h.of_goto ⟨huser, hfits.2, hpos⟩ (by rw [hplace]; rfl)
    next hzero =>
      -- The counter is the depth of this thread, so this is its outermost release.
      have hnest : 0 < s.nest s.cur := hfits.2
      have hone : s.nest s.cur = 1 := by omega
      obtain ⟨m', hm', rfl⟩ := kernelStep_ok hs
      have hleaving : (Pc.releaseAssert l).leaving l := rfl
      have hn : s.nest s.cur - 1 = 0 := by omega
      refine h.of_call (p := .releasing) (n := s.nest s.cur - 1) huser hm'
        ⟨hn, rfl, .inl hleaving⟩ ?_ (fun hpos => absurd hpos (by omega)) (fun _ => .inr (by omega))
      rw [hplace]
      exact iff_of_true hfits.2 hleaving
  | decLoad =>
    cases hs
    exact h.of_goto ⟨huser, hfits.2.1, hfits.2.2, rfl⟩ (by rw [hplace]; rfl)
  | decStore v =>
    cases hs
    obtain ⟨-, hnest, hpos, rfl⟩ := hfits
    have hdepth := h.depth s.cur hnest
    refine h.of_console (p := .outside) (n := s.nest s.cur - 1) (d := s.depth - 1) ?_ ?_
      (.inr hnest) (fun _ => by omega) (fun hn => .inr (by omega))
    · exact huser ▸ avoids_user
    · rw [hplace]
      exact iff_of_true hnest (show 0 < s.nest s.cur - 1 by omega)
  | releasing =>
    cases hs
    refine h.of_goto (huser ▸ avoids_user) ?_
    rw [hplace, huser]
    exact iff_of_false id (Nat.not_lt_of_le (Nat.le_of_eq hfits.1))

theorem of_free (hfree : s.free = true) : s.machine.curPc = .user ∧ s.place s.cur = .outside := by
  simpa [Console.free] using hfree

include hpool htid in
/-- **Step lemma.** -/
theorem step {e : ConsoleEvent} (h : Recursive l s) (he : Nested l s e)
    (hs : consoleStep l s e = .ok s') : Recursive l s' := by
  have hkernel : ∀ {e : Event}, (∀ c, e = .call c → c.Avoids l ∧ s.place s.cur = .outside) →
      s.kernelStep e = .ok s' → Recursive l s' := by
    intro e hcall hs
    obtain ⟨m', hm', rfl⟩ := kernelStep_ok hs
    exact h.kernel hpool htid hm' hcall
  unfold consoleStep at hs
  split at hs
  next c =>
    split at hs
    next hfree =>
      refine hkernel (fun c' hc' => ?_) hs
      cases hc'
      exact ⟨he.1, (of_free hfree).2⟩
    next => cases hs
  next e hne => exact hkernel (fun c hc => absurd hc (hne c)) hs
  next =>
    split at hs
    next hfree =>
      cases hs
      obtain ⟨hpc, hplace⟩ := of_free hfree
      exact h.of_goto (h.ctl_of_user hpc) (by rw [hplace]; rfl)
    next => cases hs
  next =>
    split at hs
    next hfree =>
      cases hs
      obtain ⟨hpc, hplace⟩ := of_free hfree
      exact h.of_goto ⟨h.ctl_of_user hpc, he⟩ (by rw [hplace]; rfl)
    next => cases hs
  next =>
    split at hs
    next hpc => exact h.goOn hpc hs
    next => cases hs
  next =>
    split at hs
    next =>
      cases hs
      exact h
    next => cases hs

/-- After `console_init`, nobody is near the lock. -/
theorem boot (l : LockId) (mlfqs : Bool) (v : ℕ → ℕ) : Recursive l (Console.boot mlfqs v) := by
  have hctl : ∀ t, ((Pintos.boot mlfqs v).ctl t).Avoids l := by
    intro t
    unfold Pintos.boot
    dsimp only
    split <;> exact ⟨by simp [Pc.lockUse, Pc.lockCode], fun _ hf => absurd hf List.not_mem_nil⟩
  refine ⟨.boot mlfqs v, .boot mlfqs v, rfl, hctl, fun t => ?_, fun t hn => absurd hn (Nat.lt_irrefl 0),
    fun _ => rfl⟩
  refine iff_of_false ?_ (Nat.lt_irrefl 0)
  exact (Locked.boot mlfqs v).exclusive.free l rfl t

/-- Only the console's own calls work on the lock. -/
theorem place_of_lockUse (h : Recursive l s) (huse : (s.machine.pc t).lockUse = some l) :
    s.place t = .acquiring ∨ s.place t = .releasing := by
  have hfits := h.fits t
  have huser : s.machine.ctl t ≠ ⟨.user, []⟩ := by
    intro huser
    rw [Machine.pc, huser] at huse
    exact absurd huse (by simp [Pc.lockUse, Pc.lockCode])
  generalize s.place t = p at hfits ⊢
  cases p with
  | acquiring => exact .inl rfl
  | releasing => exact .inr rfl
  | outside => exact absurd huse hfits.pc
  | acquireTest | heldTest => exact absurd hfits huser
  | _ => exact absurd hfits.1 huser

/-- A thread on the way in or out is not nested. -/
theorem nest_eq_zero_of_place (h : Recursive l s)
    (hplace : s.place t = .acquiring ∨ s.place t = .releasing) : s.nest t = 0 := by
  have hfits := h.fits t
  obtain hplace | hplace := hplace
  all_goals
    rw [hplace] at hfits
    exact hfits.1

/-- A nested thread is the holder of the lock. -/
theorem holder_of_nested (h : Recursive l s) (hn : 0 < s.nest t) :
    (s.machine.kernel.locks l).holder = some t := by
  refine (holder_iff_owns h.locked (lockCode_ne_of_lockUse fun huse => ?_)).mpr (h.owns_of_nested hn)
  exact absurd (h.nest_eq_zero_of_place (h.place_of_lockUse huse)) (Nat.ne_of_gt hn)

/-- The holder is nested, or on its way in or out. -/
theorem nested_of_holder (h : Recursive l s) (hh : (s.machine.kernel.locks l).holder = some t) :
    0 < s.nest t ∨ s.place t = .acquiring ∨ s.place t = .releasing := by
  have hown := (h.owns t).mp (h.locked.exclusive.owns_of_holder hh)
  generalize s.place t = p at hown ⊢
  cases p with
  | acquiring => exact .inr (.inl rfl)
  | releasing => exact .inr (.inr rfl)
  | _ => exact .inl hown

/-- A free lock means that nobody is nested. -/
theorem depth_of_holder_none (h : Recursive l s)
    (hh : (s.machine.kernel.locks l).holder = none) : s.depth = 0 := by
  refine h.idle fun t => ?_
  by_contra hne
  have hsome := h.holder_of_nested (Nat.pos_of_ne_zero hne)
  rw [hh] at hsome
  cases hsome

/-- A release that decrements the counter is not the outermost one of its thread. -/
theorem nested_of_dec (h : Recursive l s)
    (hplace : s.place t = .decLoad ∨ ∃ v, s.place t = .decStore v) : 1 < s.nest t := by
  have hfits := h.fits t
  obtain ⟨hnest, hpos⟩ : 0 < s.nest t ∧ 0 < s.depth := by
    obtain hplace | ⟨v, hplace⟩ := hplace
    · rw [hplace] at hfits
      exact hfits.2
    · rw [hplace] at hfits
      exact ⟨hfits.2.1, hfits.2.2.1⟩
  have := h.depth t hnest
  omega

/-- **The assertion of `lock_release`.** -/
theorem held_at_release (h : Recursive l s) (hpc : s.machine.pc t = .releaseAssert l) :
    (s.machine.kernel.locks l).holder = some t := by
  have hown : s.machine.lockTable.Owns t l := by
    rw [h.owns t]
    have hfits := h.fits t
    have hpc' : (s.machine.ctl t).pc = .releaseAssert l := hpc
    obtain hplace | hplace := h.place_of_lockUse (t := t) (by rw [hpc]; rfl)
    · rw [hplace] at hfits
      obtain ⟨-, -, hin | hin⟩ := hfits <;> (rw [hpc'] at hin; exact hin.elim)
    · rw [hplace]
      change (s.machine.ctl t).pc.leaving l
      rw [hpc']
      exact rfl
  -- At this point the lock is on the thread's list.
  refine (h.locked.exclusive.holder t l).mpr (.inl (hown.resolve_right fun hphase => ?_))
  have hfree : s.machine.lockTable.phase t = .free := by
    change (s.machine.pc t).phase = .free
    rw [hpc]
    rfl
  rw [hfree] at hphase
  cases hphase

/-- **The assertions of `lock_acquire`.** -/
theorem not_held_at_acquire (h : Recursive l s)
    (hpc : s.machine.pc t = .acquireAssert l ∨ s.machine.pc t = .tryAssert l true) :
    (s.machine.kernel.locks l).holder ≠ some t := by
  intro hh
  have hown := (h.owns t).mp (h.locked.exclusive.owns_of_holder hh)
  have hfits := h.fits t
  have huse : (s.machine.pc t).lockUse = some l := by
    obtain hpc | hpc := hpc <;> (rw [hpc]; rfl)
  obtain hplace | hplace := h.place_of_lockUse huse
  · rw [hplace] at hown
    change (s.machine.pc t).entered l at hown
    obtain hpc | hpc := hpc <;> (rw [hpc] at hown; exact hown.elim)
  · rw [hplace] at hown
    change (s.machine.pc t).leaving l at hown
    obtain hpc | hpc := hpc <;> (rw [hpc] at hown; exact hown.elim)

end Recursive

end Invariant

/-! ### Whole runs -/

/-- **The console lock is a recursive lock.** In every run in which the threads call
`acquire_console` and `release_console` in properly nested pairs, with a timer interrupt or a printing
interrupt handler at every point:

* a thread that is nested in the lock holds it, and the counter is its nesting depth minus one;
* the holder is nested, or inside the `lock_acquire` of its outermost acquire or the `lock_release`
  of its outermost release;
* the counter is 0 when the lock is free;
* a thread that decrements the counter is nested at least twice;
* the assertions of `lock_acquire` and `lock_release` on the lock hold. -/
theorem console_lock_recursive {l : LockId} (hpool : l ≠ poolLock) (htid : l ≠ tidLock) {mlfqs : Bool}
    {v : ℕ → ℕ} {h : List (Console × ConsoleEvent)} {s : Console}
    (hrun : Run (consoleStep l) (Nested l) (Console.boot mlfqs v) h s) :
    (∀ t, 0 < s.nest t → (s.machine.kernel.locks l).holder = some t ∧ s.depth = s.nest t - 1) ∧
      (∀ t, (s.machine.kernel.locks l).holder = some t →
        0 < s.nest t ∨ s.place t = .acquiring ∨ s.place t = .releasing) ∧
      ((s.machine.kernel.locks l).holder = none → s.depth = 0) ∧
      (s.place s.cur = .decLoad ∨ (∃ v, s.place s.cur = .decStore v) → 1 < s.nest s.cur) ∧
      (s.machine.curPc = .releaseAssert l → lockHeldByCurrentThread s.machine.kernel l = true) ∧
      (s.machine.curPc = .acquireAssert l ∨ s.machine.curPc = .tryAssert l true →
        lockHeldByCurrentThread s.machine.kernel l = false) := by
  have hinv : Recursive l s :=
    hrun.invariant (Recursive.boot l mlfqs v) fun _ _ _ hs he hstep => hs.step hpool htid he hstep
  refine ⟨fun t hn => ⟨hinv.holder_of_nested hn, hinv.depth t hn⟩, fun t => hinv.nested_of_holder,
    hinv.depth_of_holder_none, hinv.nested_of_dec, fun hpc => ?_, fun hpc => ?_⟩
  · exact lockHeldByCurrentThread_iff.mpr (hinv.held_at_release hpc)
  · rw [Bool.eq_false_iff, ne_eq, lockHeldByCurrentThread_iff]
    exact hinv.not_held_at_acquire hpc

/-- The main thread prints, and prints again while it does, across timer interrupts and a handler
that prints. -/
theorem console_lock_recursive_twice : ∃ h s,
    Run (consoleStep 9) (Nested 9) (Console.boot false fun _ => 0) h s ∧ s.nest 0 = 2 ∧
      (s.machine.kernel.locks 9).holder = some 0 ∧ s.depth = 1 := by
  have hguard : ∀ (s : Console) (e : ConsoleEvent), decide (e ∈ [ConsoleEvent.acquire, .go, .handler,
      .kernel .exec, .kernel .tick]) = true → Nested 9 s e := by
    intro s e he
    simp only [decide_eq_true_eq, List.mem_cons, List.not_mem_nil, or_false] at he
    obtain rfl | rfl | rfl | rfl | rfl := he <;> trivial
  obtain ⟨h, s, hrun, hp⟩ := @exists_run_of_play _ _ _ (consoleStep 9) (Nested 9)
    (Console.boot false fun _ => 0) _ hguard
    ([.acquire, .go, .go] ++ List.replicate 5 (.kernel .exec) ++
      [.go, .handler, .acquire, .go, .kernel .tick, .go, .go, .kernel .tick, .go])
    (fun _ s => decide (s.nest 0 = 2)) (by decide +kernel)
  have hnest : s.nest 0 = 2 := of_decide_eq_true hp
  obtain ⟨hholder, hdepth⟩ := (console_lock_recursive (by decide) (by decide) hrun).1 0 (by omega)
  rw [hnest] at hdepth
  exact ⟨h, s, hrun, hnest, hholder, hdepth⟩

end Pintos
