import Pintos.Sched.LoadAvg

/-!
# The CPU usage of a thread

Every tick charges the running thread for it, and every hundredth tick `thread_update_recent_cpu`
lets everybody's usage decay and adds the niceness. The coefficient is near one if the load is
high, so a thread that gets all the CPU under a load of `L` collects up to `240 * L + 120`, and the
two getters multiply by a hundred in 32 bits. With at most four threads ready or running at every
update the product fits, which is `Used`; `Pintos.Sched.Overflow` has the run with five in which it
does not.

* `exec_scores` — what the code of the running thread does to usage and niceness;
* `usageStep_bounds` — one update of a usage that is in its range;
* `Used` — everybody's usage is in its range, which grows by one tick at a time between updates.
-/

namespace Pintos

open Transition Function

/-! ### The getters and the update, checked -/

/-- `thread_get_load_avg`. -/
def threadGetLoadAvg (k : Kernel) : ℤ := fptoiRound (fpIntMul k.loadAvg 100)

/-- `thread_get_recent_cpu`. -/
def threadGetRecentCpu (k : Kernel) : ℤ := fptoiRound (fpIntMul k.cur.recentCpu 100)

def threadGetLoadAvg? (k : Kernel) : Option ℤ := do fptoiRound? (← fpIntMul? k.loadAvg 100)

def threadGetRecentCpu? (k : Kernel) : Option ℤ := do fptoiRound? (← fpIntMul? k.cur.recentCpu 100)

/-- The usage `thread_update_recent_cpu` stores, with every intermediate value checked. -/
def threadUpdateRecentCpu? (k : Kernel) (t : Tid) : Option ℤ :=
  if t = k.idleThread then some (k.threads t).recentCpu
  else do
    let coef ← decayCoef? k.loadAvg
    fpIntAdd? (← fpMul? coef (k.threads t).recentCpu) (k.threads t).nice

/-- `r` is a hundred times the fixed-point value `x`, rounded to the nearest integer. -/
def HundredTimes (x r : ℤ) : Prop :=
  -fBits ≤ 2 * (r * fBits - 100 * x) ∧ 2 * (r * fBits - 100 * x) ≤ fBits

/-- A hundredfold that fits is computed without overflow and rounded to the nearest. -/
theorem hundredfold {x : ℤ} (hlo : -2 ^ 31 + 8192 ≤ 100 * x) (hhi : 100 * x < 2 ^ 31 - 8192) :
    (do fptoiRound? (← fpIntMul? x 100)) = some (fptoiRound (fpIntMul x 100)) ∧
      HundredTimes x (fptoiRound (fpIntMul x 100)) := by
  have hmul : fpIntMul? x 100 = some (100 * x) := by
    unfold fpIntMul?
    rw [int32?_of_fits (by omega) (by omega), mul_comm]
  obtain ⟨r, hr, hnear⟩ : ∃ r, fptoiRound? (100 * x) = some r ∧ HundredTimes x r := by
    unfold fptoiRound? HundredTimes fBits
    split
    · next hpos =>
      rw [int32?_of_fits (by omega) (by omega)]
      refine ⟨_, rfl, ?_⟩
      dsimp only
      rw [Int.tdiv_eq_ediv_of_nonneg (by omega)]
      omega
    · next hneg =>
      rw [int32?_of_fits (by omega) (by omega)]
      refine ⟨_, rfl, ?_⟩
      dsimp only
      -- truncation toward zero rounds a negative number up
      rw [show 100 * x - 16384 / 2 = -(16384 / 2 - 100 * x) by omega, Int.neg_tdiv,
        Int.tdiv_eq_ediv_of_nonneg (by omega)]
      omega
  rw [hmul, fpIntMul_of_checked hmul]
  change fptoiRound? (100 * x) = _ ∧ _
  rw [hr, fptoiRound_of_checked hr]
  exact ⟨rfl, hnear⟩

/-! ### One update -/

/-- What a usage can be `n` ticks after an update: between `-180` and `980 + n`. -/
def UsageFits (n r : ℤ) : Prop := -(180 * 16384) ≤ r ∧ r ≤ (980 + n) * 16384

/-- The coefficient with at most four threads. -/
theorem decayQuot_le {la : ℤ} (hlo : 0 ≤ la) (hhi : la ≤ 16384 * 4) :
    la * 2 * 16384 / (2 * la + 16384) ≤ 14563 := by
  refine Int.le_of_lt_add_one (Int.ediv_lt_of_lt_mul (by omega) ?_)
  omega

/-- **One update of a usage**: no overflow, and the result is in the range of an update. -/
theorem usageStep_bounds {k : Kernel} {t : Tid} (hidle : t ≠ k.idleThread) (hlo : 0 ≤ k.loadAvg)
    (hhi : k.loadAvg ≤ 16384 * 4) (hr : UsageFits 100 (k.threads t).recentCpu)
    (hn : -20 ≤ (k.threads t).nice ∧ (k.threads t).nice ≤ 20) :
    ∃ r, threadUpdateRecentCpu? k t = some r ∧ UsageFits 0 r := by
  obtain ⟨hge, -⟩ := decayQuot_bounds hlo
  have hle := decayQuot_le hlo hhi
  unfold threadUpdateRecentCpu?
  rw [if_neg hidle, decayCoef?_eq hlo (by omega)]
  generalize k.loadAvg * 2 * 16384 / (2 * k.loadAvg + 16384) = c at hge hle
  generalize (k.threads t).recentCpu = r at hr
  generalize (k.threads t).nice = nice at hn
  obtain ⟨hrlo, hrhi⟩ := hr
  -- the product is extreme where the coefficient is greatest
  have hprodhi : c * r ≤ 14563 * (1080 * 16384) := by
    calc c * r ≤ c * (1080 * 16384) := Int.mul_le_mul_of_nonneg_left (by omega) hge
      _ ≤ 14563 * (1080 * 16384) := Int.mul_le_mul_of_nonneg_right hle (by omega)
  have hprodlo : -(14563 * (180 * 16384)) ≤ c * r := by
    calc -(14563 * (180 * 16384)) = 14563 * -(180 * 16384) := by omega
      _ ≤ c * -(180 * 16384) := by omega
      _ ≤ c * r := Int.mul_le_mul_of_nonneg_left hrlo hge
  obtain ⟨q, hq, hqlo, hqhi⟩ : ∃ q, fpMul? c r = some q ∧ -(14563 * 180) ≤ q ∧ q ≤ 14563 * 1080 := by
    unfold fpMul? fBits
    rw [int64?_of_fits (by omega) (by omega)]
    generalize c * r = p at hprodhi hprodlo
    have htrunc : -(14563 * 180) ≤ p.tdiv 16384 ∧ p.tdiv 16384 ≤ 14563 * 1080 := by
      rcases le_or_gt 0 p with hpos | hneg
      · rw [Int.tdiv_eq_ediv_of_nonneg hpos]
        omega
      · rw [show p = -(-p) by omega, Int.neg_tdiv, Int.tdiv_eq_ediv_of_nonneg (by omega)]
        omega
    exact ⟨_, int32?_of_fits (by omega) (by omega), htrunc⟩
  have hadd : fpIntAdd? q nice = some (q + nice * 16384) := by
    unfold fpIntAdd? fBits
    rw [int32?_of_fits (x := nice * 16384) (by omega) (by omega)]
    exact int32?_of_fits (by omega) (by omega)
  refine ⟨q + nice * 16384, ?_, ?_⟩
  · change (do fpIntAdd? (← fpMul? c r) nice) = _
    rw [hq]
    exact hadd
  · unfold UsageFits
    omega

/-- The checked update is the one of the kernel. -/
theorem threadUpdateRecentCpu_of_checked {k : Kernel} {t : Tid} {r : ℤ}
    (h : threadUpdateRecentCpu? k t = some r) : (threadUpdateRecentCpu k t).recentCpu = r := by
  unfold threadUpdateRecentCpu? at h
  unfold threadUpdateRecentCpu
  split at h
  · next hidle =>
    rw [if_pos hidle]
    exact Option.some.inj h
  · next hidle =>
    rw [if_neg hidle]
    obtain ⟨c, hc, h⟩ := Option.bind_eq_some_iff.mp h
    obtain ⟨p, hp, h⟩ := Option.bind_eq_some_iff.mp h
    change fpIntAdd (fpMul (decayCoef k.loadAvg) (k.threads t).recentCpu) (k.threads t).nice = r
    rw [decayCoef_of_checked hc, fpMul_of_checked hp, fpIntAdd_of_checked h]

theorem threadUpdateRecentCpu_nice (k : Kernel) (t : Tid) :
    (threadUpdateRecentCpu k t).nice = (k.threads t).nice := by
  unfold threadUpdateRecentCpu
  split <;> rfl

/-! ### What the code of the running thread does to the scores -/

section Code

variable {k : Kernel} {c : Control} {o : Outcome} {t : Tid}

/-- What `thread_create` gives the new thread: its creator's niceness and usage, or none. -/
theorem exec_createMlfqs {p : ℤ} {u : Tid} {st : List Frame}
    (h : exec k ⟨.createMlfqs p u, st⟩ = .ok o) :
    o.kernel = k ∨ ∃ nice cpu, o.kernel = k.setThread u
        { k.threads u with nice := nice, recentCpu := cpu } ∧
      ((nice = k.cur.nice ∧ cpu = k.cur.recentCpu) ∨ (nice = 0 ∧ cpu = 0)) := by
  change execCreate k st (.createMlfqs p u) = .ok o at h
  unfold execCreate goto at h
  dsimp only at h
  split at h
  · split at h
    · cases h
      exact .inr ⟨_, _, rfl, .inl ⟨rfl, rfl⟩⟩
    · cases h
      exact .inr ⟨_, _, rfl, .inr ⟨rfl, rfl⟩⟩
  · cases h
    exact .inl rfl

/-- Where the niceness and the usage of a thread come from: they are as before, or the thread is
new and has its creator's or none, or it has just set its niceness. -/
structure Scores (k : Kernel) (c : Control) (k' : Kernel) (t : Tid) : Prop where
  usage : (k'.threads t).recentCpu = (k.threads t).recentCpu ∨ (k'.threads t).recentCpu = 0 ∨
    (c.pc.embryo = some t ∧ (k'.threads t).recentCpu = k.cur.recentCpu ∧ ∃ p, c.pc = .createMlfqs p t)
  nice : (k'.threads t).nice = (k.threads t).nice ∨ (k'.threads t).nice = 0 ∨
    (k'.threads t).nice = k.cur.nice ∨ c.pc = .setNice (k'.threads t).nice
  listed : t ∈ k'.allList → t ∈ k.allList ∨ (k'.threads t).recentCpu = 0

/-- A change of the memory that leaves usage, niceness and the list alone. -/
theorem Scores.of_same {k' : Kernel} (hcpu : (k'.threads t).recentCpu = (k.threads t).recentCpu)
    (hnice : (k'.threads t).nice = (k.threads t).nice) (hall : t ∈ k'.allList → t ∈ k.allList) :
    Scores k c k' t :=
  ⟨.inl hcpu, .inl hnice, fun ht => .inl (hall ht)⟩

theorem Scores.of_frame {k' : Kernel} (hf : ScoreFrame k k') : Scores k c k' t :=
  .of_same (hf.recentCpu t) (hf.nice t) fun ht => hf.allList ▸ ht

/-- A store into one thread that keeps both fields. -/
theorem Scores.of_update {k' : Kernel} {u : Tid} {x : Thread}
    (hthreads : k'.threads = update k.threads u x)
    (hcpu : x.recentCpu = (k.threads u).recentCpu) (hnice : x.nice = (k.threads u).nice)
    (hall : t ∈ k'.allList → t ∈ k.allList) : Scores k c k' t := by
  refine .of_same ?_ ?_ hall
  · rw [hthreads]
    exact apply_update_same Thread.recentCpu hcpu t
  · rw [hthreads]
    exact apply_update_same Thread.nice hnice t

/-- **The scores after the code of the running thread.** -/
theorem exec_scores (h : exec k c = .ok o) (t : Tid) : Scores k c o.kernel t := by
  cases exec_ok h with
  | @createMlfqs p u nice cpu st hm =>
    rcases exec_createMlfqs h with hsame | ⟨nice', cpu', hk, hval⟩
    · rw [hsame]
      exact .of_same rfl rfl id
    · rw [hk]
      by_cases htu : t = u
      · subst htu
        have hself : (k.setThread t { k.threads t with nice := nice', recentCpu := cpu' }).threads t
            = { k.threads t with nice := nice', recentCpu := cpu' } := update_self ..
        refine ⟨?_, ?_, .inl⟩
        · rw [hself]
          rcases hval with ⟨-, rfl⟩ | ⟨-, rfl⟩
          · exact .inr (.inr ⟨rfl, rfl, p, rfl⟩)
          · exact .inr (.inl rfl)
        · rw [hself]
          rcases hval with ⟨rfl, -⟩ | ⟨rfl, -⟩
          · exact .inr (.inr (.inl rfl))
          · exact .inr (.inl rfl)
      · have hother : (k.setThread u { k.threads u with nice := nice', recentCpu := cpu' }).threads t
            = k.threads t := update_of_ne htu ..
        exact .of_same (by rw [hother]) (by rw [hother]) id
  | @setNice n st =>
    refine ⟨.inl (apply_update_same Thread.recentCpu ?_ t), ?_, .inl⟩
    · rfl
    by_cases htr : t = k.running
    · subst htr
      refine .inr (.inr (.inr ?_))
      simp [Kernel.setThread]
    · exact .inl (congrArg Thread.nice (update_of_ne htr ..))
  | upWake _ _ hub | createUnblock hub =>
    have hf := ScoreFrame.pushReady (threadUnblock_ok hub).2
    exact .of_same (hf.recentCpu t) (hf.nice t) fun ht => hf.allList ▸ ht
  | yield hy => exact .of_frame (ScoreFrame.yieldOnReturn (y := true) hy)
  | @createInit p u st k' hi =>
    obtain ⟨-, rfl⟩ := initThread_ok hi
    by_cases htu : t = u
    · subst htu
      have hself : (k.setThread t (freshThread .blocked p)).threads t = freshThread .blocked p :=
        update_self ..
      have hcpu : ((k.setThread t (freshThread .blocked p)).threads t).recentCpu = 0 := by rw [hself]; rfl
      exact ⟨.inr (.inl hcpu), .inr (.inl (by
        rw [hself]; rfl)), fun _ => .inr hcpu⟩
    · have hother : (k.setThread u (freshThread .blocked p)).threads t = k.threads t :=
        update_of_ne htu ..
      refine .of_same (congrArg Thread.recentCpu hother) (congrArg Thread.nice hother) fun ht => ?_
      rcases List.mem_append.mp ht with ht | ht
      · exact ht
      · exact absurd (List.mem_singleton.mp ht) htu
  | sleep _ hs =>
    obtain ⟨heap, rfl, -⟩ := sleepPark_ok hs
    exact .of_update rfl rfl rfl id
  | exit =>
    exact .of_update rfl rfl rfl List.mem_of_mem_erase
  | _ => first | exact .of_same rfl rfl id | exact .of_update rfl rfl rfl id

end Code

/-! ### A pass over the list of threads -/

theorem UsageFits.mono {n n' r : ℤ} (h : UsageFits n r) (hle : n ≤ n') : UsageFits n' r :=
  ⟨h.1, h.2.trans (by omega)⟩

/-- What the pass over the threads in `A` needs: everybody's usage is in its range, and the idle
thread has none. -/
structure Decayable (A : Tid → Prop) (k : Kernel) : Prop where
  load : 0 ≤ k.loadAvg ∧ k.loadAvg ≤ 16384 * 4
  nice : ∀ t, -20 ≤ (k.threads t).nice ∧ (k.threads t).nice ≤ 20
  usage : ∀ t, A t → UsageFits 100 (k.threads t).recentCpu
  idle : (k.threads k.idleThread).recentCpu = 0

namespace Decayable

variable {A B : Tid → Prop} {k : Kernel} {t : Tid}

/-- The update of one thread does not overflow and leaves its usage in the range of an update. -/
theorem checked (h : Decayable A k) (ht : A t) :
    threadUpdateRecentCpu? k t = some (threadUpdateRecentCpu k t).recentCpu ∧
      UsageFits 0 (threadUpdateRecentCpu k t).recentCpu := by
  obtain ⟨r, hr, hfits⟩ : ∃ r, threadUpdateRecentCpu? k t = some r ∧ UsageFits 0 r := by
    by_cases hidle : t = k.idleThread
    · refine ⟨0, ?_, by unfold UsageFits; omega⟩
      unfold threadUpdateRecentCpu?
      rw [if_pos hidle, hidle, h.idle]
    · exact usageStep_bounds hidle h.load.1 h.load.2 (h.usage t ht) (h.nice t)
  rw [threadUpdateRecentCpu_of_checked hr]
  exact ⟨hr, hfits⟩

theorem update (h : Decayable A k) (ht : A t) :
    Decayable A (k.setThread t (threadUpdateRecentCpu k t)) := by
  have hfits := (h.checked ht).2
  refine ⟨h.load, fun u => ?_, fun u hu => ?_, ?_⟩
  · rw [show ((k.setThread t (threadUpdateRecentCpu k t)).threads u).nice = (k.threads u).nice from
      apply_update_same Thread.nice (threadUpdateRecentCpu_nice k t) u]
    exact h.nice u
  · by_cases hut : u = t
    · subst hut
      rw [show (k.setThread u (threadUpdateRecentCpu k u)).threads u = threadUpdateRecentCpu k u from
        update_self ..]
      exact hfits.mono (by omega)
    · rw [show (k.setThread t (threadUpdateRecentCpu k t)).threads u = k.threads u from
        update_of_ne hut ..]
      exact h.usage u hu
  · -- the idle thread is passed over
    refine Eq.trans ?_ h.idle
    refine (congrArg Thread.recentCpu ?_)
    change Function.update k.threads t (threadUpdateRecentCpu k t) k.idleThread = _
    by_cases hidle : k.idleThread = t
    · subst hidle
      rw [update_self]
      exact if_pos rfl
    · rw [update_of_ne hidle]

/-- A pass over threads in `A` leaves their usage, and that of the threads in `B` before them, in
the range of an update. -/
theorem foreach (ts : List Tid) : ∀ (k : Kernel) (B : Tid → Prop), Decayable A k →
    (∀ t ∈ ts, A t) → (∀ t, B t → UsageFits 0 (k.threads t).recentCpu) →
    Decayable A (threadForeach threadUpdateRecentCpu ts k) ∧
      ∀ t, B t ∨ t ∈ ts →
        UsageFits 0 ((threadForeach threadUpdateRecentCpu ts k).threads t).recentCpu := by
  induction ts with
  | nil =>
    intro k B h _ hB
    exact ⟨h, fun t ht => hB t (ht.resolve_right (by simp))⟩
  | cons u ts ih =>
    intro k B h hA hB
    have hu : A u := hA u List.mem_cons_self
    obtain ⟨hdec, hall⟩ := ih (k.setThread u (threadUpdateRecentCpu k u)) (fun t => B t ∨ t = u)
      (h.update hu) (fun t ht => hA t (List.mem_cons_of_mem _ ht)) (fun t ht => by
        by_cases htu : t = u
        · subst htu
          rw [show (k.setThread t (threadUpdateRecentCpu k t)).threads t
            = threadUpdateRecentCpu k t from update_self ..]
          exact (h.checked hu).2
        · rw [show (k.setThread u (threadUpdateRecentCpu k u)).threads t = k.threads t from
            update_of_ne htu ..]
          exact hB t (ht.resolve_right htu))
    refine ⟨hdec, fun t ht => hall t ?_⟩
    rcases ht with ht | ht
    · exact .inl (.inl ht)
    · rcases List.mem_cons.mp ht with rfl | ht
      · exact .inl (.inr rfl)
      · exact .inr ht

end Decayable

/-! ### Runs -/

/-- `thread_set_nice` stores only values between -20 and 20. -/
def niceInRange : Guard Machine Event := fun m e =>
  e = .exec → ∀ n, m.curPc = .setNice n → -20 ≤ n ∧ n ≤ 20

/-- Everybody's usage is in its range, which grows by one tick at a time between two updates. -/
structure Used (k : Kernel) : Prop where
  clock : -2 ^ 63 ≤ k.ticks ∧ k.ticks < 2 ^ 63
  usage : ∀ t ∈ k.allList, UsageFits (k.ticks % 100) (k.threads t).recentCpu
  idle : (k.threads k.idleThread).recentCpu = 0
  nice : ∀ t, -20 ≤ (k.threads t).nice ∧ (k.threads t).nice ≤ 20

/-- The clock, modulo a hundred: it goes up, or is at an update. Where it overflows it jumps
ahead. -/
theorem clock_mod {x : ℤ} (hlo : -2 ^ 63 ≤ x) (hhi : x < 2 ^ 63) :
    (-2 ^ 63 ≤ toInt64 (x + 1) ∧ toInt64 (x + 1) < 2 ^ 63) ∧
      (toInt64 (x + 1) % 100 = 0 ∨ x % 100 + 1 ≤ toInt64 (x + 1) % 100) := by
  by_cases hwrap : x + 1 < 2 ^ 63
  · rw [toInt64_of_fits (by omega) hwrap]
    omega
  · obtain rfl : x = 2 ^ 63 - 1 := by omega
    rw [show toInt64 (2 ^ 63 - 1 + 1) = -2 ^ 63 from rfl]
    omega

section Step

variable {m m' : Machine} {e : Event} {o : Outcome} {k k' : Kernel}

/-- The charge for a tick. -/
theorem chargeTick_fits {n : ℤ} (hn : 0 ≤ n ∧ n < 100) {t : Tid}
    (h : UsageFits n (k.threads t).recentCpu) :
    UsageFits (n + 1) ((chargeTick k).threads t).recentCpu := by
  unfold chargeTick
  split
  · by_cases htr : t = k.running
    · subst htr
      rw [show (k.setThread k.running { k.cur with recentCpu := fpIntAdd k.cur.recentCpu 1 }).threads
        k.running = { k.cur with recentCpu := fpIntAdd k.cur.recentCpu 1 } from
          update_self ..]
      obtain ⟨hlo, hhi⟩ := h
      have hadd : fpIntAdd k.cur.recentCpu 1 = k.cur.recentCpu + 16384 := by
        unfold fpIntAdd fBits Kernel.cur
        rw [toInt32_of_fits (x := 1 * 16384) (by omega) (by omega),
          toInt32_of_fits (by omega) (by omega)]
        omega
      change UsageFits (n + 1) (fpIntAdd k.cur.recentCpu 1)
      rw [hadd]
      unfold UsageFits Kernel.cur
      omega
    · rw [show (k.setThread k.running { k.cur with recentCpu := fpIntAdd k.cur.recentCpu 1 }).threads t
        = k.threads t from update_of_ne htr ..]
      exact h.mono (by omega)
  · exact h.mono (by omega)

/-- The idle thread is not charged. -/
theorem chargeTick_idle : ((chargeTick k).threads k.idleThread).recentCpu
    = (k.threads k.idleThread).recentCpu := by
  unfold chargeTick
  split
  · next hne => exact congrArg Thread.recentCpu (update_of_ne (Ne.symm hne) ..)
  · rfl

theorem Used.frame (h : Used k) (hf : ScoreFrame k k') : Used k' := by
  refine ⟨?_, fun t ht => ?_, ?_, fun t => ?_⟩
  · rw [hf.ticks]
    exact h.clock
  · rw [hf.ticks, hf.recentCpu]
    exact h.usage t (hf.allList ▸ ht)
  · rw [hf.idleThread, hf.recentCpu]
    exact h.idle
  · rw [hf.nice]
    exact h.nice t

/-- The scores after `timer_wake`, the charge and the pass over the priorities. -/
theorem Used.charged (h : Used k) {cur : ℤ} {y : Bool} {k₁ : Kernel}
    (hwake : timerWake { k with ticks := cur } cur = .ok (y, k₁)) :
    let k₂ := priorityPass (chargeTick k₁)
    k₂.allList = k.allList ∧ k₂.ticks = cur ∧ (k₂.threads k₂.idleThread).recentCpu = 0 ∧
      (∀ t, -20 ≤ (k₂.threads t).nice ∧ (k₂.threads t).nice ≤ 20) ∧
      ∀ t ∈ k₂.allList, UsageFits (k.ticks % 100 + 1) (k₂.threads t).recentCpu := by
  obtain ⟨-, hidle, -, hticks, hall, hrun, hth⟩ := timerWake_scoreFrame hwake
  obtain ⟨hticks₁, hall₁, -, -, hidle₁, -, -, hnice₁⟩ := (chargeTick_rescored k₁).keeps
  obtain ⟨hticks₂, hall₂, -, -, hidle₂, -, -, hnice₂⟩ := (priorityPass_rescored (chargeTick k₁)).keeps
  refine ⟨hall₂.trans (hall₁.trans hall), hticks₂.trans (hticks₁.trans hticks), ?_, fun t => ?_,
    fun t ht => ?_⟩
  · rw [(priorityPass_usage _ _).1, hidle₂, hidle₁, chargeTick_idle, (hth _).1, hidle]
    exact h.idle
  · have hnice : ((priorityPass (chargeTick k₁)).threads t).nice = (k.threads t).nice := by
      rw [hnice₂, hnice₁]
      exact (hth t).2
    rw [hnice]
    exact h.nice t
  · rw [(priorityPass_usage _ t).1]
    have hold := h.usage t (hall ▸ hall₁ ▸ hall₂ ▸ ht)
    rw [← show (k₁.threads t).recentCpu = (k.threads t).recentCpu from (hth t).1] at hold
    exact chargeTick_fits (by omega) hold

/-- The memory of an update: everybody's usage can be let decay. -/
theorem Used.decayable (h : Used k) {k₁ : Kernel} (hat : atLoadUpdate k = some k₁)
    (hload : 0 ≤ (updateLoadAvg k₁).loadAvg ∧ (updateLoadAvg k₁).loadAvg ≤ 16384 * 4) :
    Decayable (· ∈ k₁.allList) (updateLoadAvg k₁) := by
  unfold atLoadUpdate at hat
  split at hat
  · cases hat
  next y k₂ hwake =>
  split at hat
  · cases hat
    obtain ⟨-, -, hidle, hnice, husage⟩ := h.charged hwake
    exact ⟨hload, hnice, fun t ht => (husage t ht).mono (by omega), hidle⟩
  · cases hat

/-- **A tick keeps everybody's usage in its range.** -/
theorem Used.tick (h : Used k) (hm : k.mlfqs = true) {y : Bool}
    (hint : timerInterrupt k = .ok (y, k'))
    (hload : ∀ k₁, atLoadUpdate k = some k₁ →
      0 ≤ (updateLoadAvg k₁).loadAvg ∧ (updateLoadAvg k₁).loadAvg ≤ 16384 * 4) : Used k' := by
  obtain ⟨y₁, k₁, hwake, -, htick⟩ := timerInterrupt_ok (I := fun _ _ => True) hint trivial
    fun _ _ _ _ _ _ _ _ => trivial
  obtain ⟨k₂, -, hmlfqs, -, rfl, -⟩ := threadTick_ok htick
  have hm₁ : k₁.mlfqs = true := (timerWake_scoreFrame hwake).1.trans hm
  obtain rfl := hmlfqs hm₁
  obtain ⟨hall, hticks, hidle, hnice, husage⟩ := h.charged hwake
  obtain ⟨hrange, hmod⟩ := clock_mod h.clock.1 h.clock.2
  suffices hpass : Used (usagePass (priorityPass (chargeTick k₁))) from
    ⟨hpass.clock, hpass.usage, hpass.idle, hpass.nice⟩
  by_cases h100 : toInt64 (k.ticks + 1) % 100 = 0
  · -- an update: the pass brings every listed thread back
    have hat : atLoadUpdate k = some (priorityPass (chargeTick k₁)) := by
      unfold atLoadUpdate
      rw [hwake]
      refine if_pos ⟨hm₁, ?_⟩
      rw [show k₁.ticks = toInt64 (k.ticks + 1) from (timerWake_scoreFrame hwake).2.2.2.1]
      exact h100
    obtain ⟨hdec, hfits⟩ := Decayable.foreach (A := (· ∈ (priorityPass (chargeTick k₁)).allList))
      (priorityPass (chargeTick k₁)).allList _ (fun _ => False) (h.decayable hat (hload _ hat))
      (fun _ ht => ht) (fun _ hf => hf.elim)
    have hkeep := (threadForeach_rescored threadUpdateRecentCpu_rescored
      (priorityPass (chargeTick k₁)).allList (updateLoadAvg (priorityPass (chargeTick k₁)))).keeps
    unfold usagePass timerFreq
    rw [hticks, if_pos h100]
    change Used (threadForeach threadUpdateRecentCpu (priorityPass (chargeTick k₁)).allList _)
    refine ⟨?_, fun t ht => ?_, hdec.idle, hdec.nice⟩
    · rw [hkeep.1]
      exact hticks.symm ▸ hrange
    · rw [hkeep.1]
      change UsageFits ((priorityPass (chargeTick k₁)).ticks % 100) _
      rw [hticks, h100]
      exact hfits t (.inr (hkeep.2.1 ▸ ht))
  · rw [usagePass_of_not (by rw [hticks]; exact h100)]
    refine ⟨hticks.symm ▸ hrange, fun t ht => ?_, hidle, hnice⟩
    rw [hticks]
    exact (husage t ht).mono (hmod.resolve_left h100)

/-- The code of the running thread keeps everybody's usage in its range. -/
theorem Used.exec (h : Used m.kernel) (hsch : Scheduled m) (hall : AllListed m)
    (hnice : niceInRange m .exec) (hex : Pintos.exec m.kernel (m.ctl m.kernel.running) = .ok o) :
    Used o.kernel := by
  obtain ⟨-, hticks, -⟩ := (exec_ok hex).keepsScores
  have hidle := (exec_ok hex).setup.idleThread
  have hcur : (∃ p t, m.curPc = .createMlfqs p t) → m.kernel.running ∈ m.kernel.allList :=
    fun ⟨p, t, hpc⟩ => hall _ (hsch.hasThread_running (by rw [hpc]; simp))
  refine ⟨hticks ▸ h.clock, fun t ht => ?_, ?_, fun t => ?_⟩
  · obtain ⟨husage, -, hlisted⟩ := exec_scores hex t
    have hzero : UsageFits (o.kernel.ticks % 100) 0 := by unfold UsageFits; omega
    rcases husage with hsame | h0 | ⟨-, hcopy, p, hpc⟩
    · rcases hlisted ht with hold | h0
      · rw [hsame, hticks]
        exact h.usage t hold
      · rw [h0]
        exact hzero
    · rw [h0]
      exact hzero
    · rw [hcopy, hticks]
      exact h.usage _ (hcur ⟨p, t, hpc⟩)
  · rw [hidle]
    obtain ⟨husage, -, -⟩ := exec_scores hex m.kernel.idleThread
    rcases husage with hsame | h0 | ⟨hemb, -, p, hpc⟩
    · rw [hsame]
      exact h.idle
    · exact h0
    · -- the idle thread is not under construction
      have hctl := (hsch.queues.embryo m.kernel.running m.kernel.idleThread (by
        unfold Control.embryo
        rw [hemb]
        rfl)).2.1
      rw [hsch.queues.idle] at hctl
      exact absurd (congrArg Control.pc hctl) (by simp)
  · obtain ⟨-, hn, -⟩ := exec_scores hex t
    rcases hn with hsame | h0 | hcopy | hset
    · rw [hsame]
      exact h.nice t
    · rw [h0]
      omega
    · rw [hcopy]
      exact h.nice m.kernel.running
    · exact hnice rfl _ hset

/-- **Every step keeps everybody's usage in its range.** -/
theorem Used.step {hist : List (Machine × Event)} (h : Used m.kernel) (hsch : Scheduled m)
    (hall : AllListed m) (havg : Averaged 4 hist m) (hnice : niceInRange m e)
    (hload : loadAtMost 4 m e) (hs : Pintos.step m e = .ok m') : Used m'.kernel := by
  cases e with
  | tick =>
    obtain ⟨y, k, hint, hf⟩ := step_tick hs
    refine Used.frame (h.tick havg.mode hint fun k₁ hat => ?_) hf
    rw [updateLoadAvg_of_checked (havg.checked (by decide) hint hat (hload rfl k₁ hat))]
    exact loadStep_bounds havg.nonneg havg.le (readyThreadsCnt_nonneg k₁) (hload rfl k₁ hat)
  | call c =>
    obtain ⟨o, ha, hcase⟩ := step_cases hs
    cases ha with
    | call hpc =>
      rcases hcase with ⟨-, rfl⟩ | ⟨k, hsw, -, -⟩
      · exact h
      · cases hsw
  | exec =>
    obtain ⟨o, ho, hcase⟩ := step_ok hs
    have hout := h.exec hsch hall hnice ho
    rcases hcase with ⟨-, rfl⟩ | ⟨k, -, hk, rfl⟩
    · exact hout
    · exact hout.frame (ScoreFrame.schedule hk)

end Step

theorem Used.boot (v : ℕ → ℕ) : Used (Pintos.boot true v).kernel := by
  have hzero : ∀ t, ((Pintos.boot true v).kernel.threads t).recentCpu = 0 ∧
      ((Pintos.boot true v).kernel.threads t).nice = 0 := by
    intro t
    unfold Pintos.boot
    dsimp only
    split
    · exact ⟨rfl, rfl⟩
    · split <;> exact ⟨rfl, rfl⟩
  refine ⟨show (-2 ^ 63 : ℤ) ≤ 0 ∧ (0 : ℤ) < 2 ^ 63 by decide, fun t _ => ?_, (hzero 1).1,
    fun t => ?_⟩
  · rw [(hzero t).1]
    show -(180 * 16384) ≤ (0 : ℤ) ∧ (0 : ℤ) ≤ (980 + 0 % 100) * 16384
    decide
  · rw [(hzero t).2]
    omega

end Pintos
