import Pintos.Sched.HighestRuns

/-!
# The priority argument of `thread_create` in mlfqs mode

In mlfqs mode the scheduler computes the priorities itself. `thread_create` gives the new thread
the nice value and the CPU usage of its creator, and then recomputes a priority, but that of
`thread_current ()`: the new thread keeps the argument as its priority until the next fourth tick.

Two calls that differ in the argument are compared by running both from one state, with the same
behaviour of the other threads (`threadCreate`). They leave the scheduler in the same state
exactly if the arguments are equal or there is no page for the thread (`create_same_iff`).

* `Twin` — up to `init_thread` the two runs differ in the argument on the creator's stack alone;
  `Twin.step` runs them in lockstep, by `exec_inside`;
* `Created` — from `init_thread` to the return of the call the new thread keeps its priority.
-/

namespace Pintos

open Transition Function

/-! ### A call, from its beginning to its return -/

/-- The next event when no timer interrupt arrives: the running thread goes on, or makes the next
of the calls `cs` if it is outside the kernel. -/
def turn (m : Machine) (cs : List Call) : Option (Event × List Call) :=
  if m.curPc = .user then
    match cs with
    | [] => none
    | c :: cs => some (.call c, cs)
  else some (.exec, cs)

/-- The machine when thread `u` is back outside the kernel, within `n` steps. -/
def serve (u : Tid) : ℕ → List Call → Machine → Option Machine
  | 0, _, _ => none
  | n + 1, cs, m =>
    if m.pc u = .user then some m
    else do
      let (e, cs) ← turn m cs
      let m ← (step m e).toOption
      serve u n cs m

/-- The machine when `thread_create (…, p, …)`, called by the running thread, has returned; the
threads that run during the call make the calls `cs`. -/
def threadCreate (n : ℕ) (cs : List Call) (avail : Bool) (m : Machine) (p : ℤ) : Option Machine := do
  let m' ← (step m (.call (.threadCreate p avail))).toOption
  serve m.kernel.running n cs m'

/-- What the scheduler sees is the same: the priorities, the ready heap, and who runs. -/
structure Kernel.SameSched (k k' : Kernel) : Prop where
  priority : ∀ t, (k'.threads t).priority = (k.threads t).priority
  size : k'.readyHeap.size = k.readyHeap.size
  order : ∀ i, 1 ≤ i → i ≤ k.readyHeap.size → k'.readyHeap.elems i = k.readyHeap.elems i
  running : k'.running = k.running

theorem Kernel.SameSched.refl (k : Kernel) : k.SameSched k :=
  ⟨fun _ => rfl, rfl, fun _ _ _ => rfl, rfl⟩

theorem turn_ne_tick {m : Machine} {cs cs' : List Call} {e : Event}
    (h : turn m cs = some (e, cs')) : e ≠ .tick := by
  unfold turn at h
  split at h
  · split at h
    · cases h
    · obtain ⟨rfl, -⟩ := Prod.mk.inj (Option.some.inj h)
      simp
  · obtain ⟨rfl, -⟩ := Prod.mk.inj (Option.some.inj h)
    simp

/-- A thread inside the kernel goes on. -/
theorem turn_exec {m : Machine} {cs cs' : List Call} {e : Event} (hpc : m.curPc ≠ .user)
    (h : turn m cs = some (e, cs')) : e = .exec := by
  unfold turn at h
  rw [if_neg hpc] at h
  exact (Prod.mk.inj (Option.some.inj h)).1.symm

theorem toOption_eq_some {α : Type} {x : Except Fault α} {a : α} :
    x.toOption = some a ↔ x = .ok a := by
  cases x <;> simp [Except.toOption]

/-- One step of a call that has not returned. -/
theorem serve_succ {u : Tid} {n : ℕ} {cs : List Call} {m m' : Machine} (hpc : m.pc u ≠ .user)
    (h : serve u (n + 1) cs m = some m') : ∃ e cs' m₁, turn m cs = some (e, cs') ∧
      step m e = .ok m₁ ∧ serve u n cs' m₁ = some m' := by
  rw [serve, if_neg hpc] at h
  obtain ⟨⟨e, cs'⟩, hturn, h⟩ := Option.bind_eq_some_iff.mp h
  obtain ⟨m₁, hs, h⟩ := Option.bind_eq_some_iff.mp h
  exact ⟨e, cs', m₁, hturn, toOption_eq_some.mp hs, h⟩

/-! ### Up to `init_thread` -/

/-- Where the creator is in the two runs. -/
inductive TwinCtl (p₁ p₂ : ℤ) (avail : Bool) : Control → Control → Prop where
  | create : TwinCtl p₁ p₂ avail ⟨.create p₁ avail, []⟩ ⟨.create p₂ avail, []⟩
  /-- In the `lock_acquire` of `palloc_get_page`. -/
  | acquire (pc : Pc) :
      TwinCtl p₁ p₂ avail ⟨pc, [.createScan p₁ avail]⟩ ⟨pc, [.createScan p₂ avail]⟩
  | scan : TwinCtl p₁ p₂ avail ⟨.createScan p₁ avail, []⟩ ⟨.createScan p₂ avail, []⟩
  /-- In the `lock_release` of `palloc_get_page`. -/
  | release (pc : Pc) (page : Option Tid) : page.isSome = avail →
      TwinCtl p₁ p₂ avail ⟨pc, [.createInit p₁ page]⟩ ⟨pc, [.createInit p₂ page]⟩
  | init (page : Option Tid) : page.isSome = avail →
      TwinCtl p₁ p₂ avail ⟨.createInit p₁ page, []⟩ ⟨.createInit p₂ page, []⟩
  | back : avail = false → TwinCtl p₁ p₂ avail ⟨.user, []⟩ ⟨.user, []⟩

/-- The two runs before `init_thread`: the same memory, and the same place in the code. -/
structure Twin (u : Tid) (p₁ p₂ : ℤ) (avail : Bool) (m₁ m₂ : Machine) : Prop where
  kernel : m₂.kernel = m₁.kernel
  others : ∀ t, t ≠ u → m₂.ctl t = m₁.ctl t
  own : TwinCtl p₁ p₂ avail (m₁.ctl u) (m₂.ctl u)

section Lockstep

variable {k : Kernel} {p₁ p₂ : ℤ} {avail : Bool} {c₁ c₂ : Control} {o₁ o₂ : Outcome}

/-- Inside a call with one enclosing call, the next point is in it too, or it is the return. -/
theorem exec_within {pc : Pc} {f : Frame} (hshape : Control.Shaped k.mlfqs k.running ⟨pc, [f]⟩)
    (ho : exec k ⟨pc, [f]⟩ = .ok o₁) : ∃ o, exec k ⟨pc, []⟩ = .ok o ∧ o₁.kernel = o.kernel ∧
      o₁.switch = o.switch ∧
      o₁.ctl = if o.ctl.pc = .user then ret k.running [f] else ⟨o.ctl.pc, [f]⟩ := by
  have hpc : pc ≠ .exit := by
    rintro rfl
    exact absurd hshape.enclosed (by simp [Pc.enclosed])
  have hshape₁ := hshape.exec (exec_ok ho)
  rw [exec_inside k [f] hpc] at ho
  cases hex : exec k ⟨pc, []⟩ with
  | error e =>
    rw [hex] at ho
    exact absurd ho (by simp [Except.map])
  | ok o =>
    rw [hex] at ho
    cases ho
    refine ⟨o, rfl, rfl, rfl, ?_⟩
    unfold Outcome.inside at hshape₁ ⊢
    dsimp only at hshape₁ ⊢
    split
    · rfl
    · next hne =>
      -- calls do not nest deeper
      rw [if_neg hne] at hshape₁
      have hlen := hshape₁.length_le
      rw [List.length_append] at hlen
      have hnil : o.ctl.stack = [] :=
        List.length_eq_zero_iff.mp (Nat.le_zero.mp (Nat.le_of_succ_le_succ hlen))
      rw [hnil]
      rfl

/-- The two runs do the same until the argument is read. -/
theorem TwinCtl.exec (h : TwinCtl p₁ p₂ avail c₁ c₂) (hshape₁ : c₁.Shaped k.mlfqs k.running)
    (hshape₂ : c₂.Shaped k.mlfqs k.running) (hinit : ∀ p t, c₁.pc ≠ .createInit p (some t))
    (huser : c₁.pc ≠ .user) (ho₁ : Pintos.exec k c₁ = .ok o₁) (ho₂ : Pintos.exec k c₂ = .ok o₂) :
    o₂.kernel = o₁.kernel ∧ o₂.switch = o₁.switch ∧ TwinCtl p₁ p₂ avail o₁.ctl o₂.ctl := by
  cases h with
  | create =>
    cases ho₁
    cases ho₂
    exact ⟨rfl, rfl, .acquire _⟩
  | acquire pc =>
    obtain ⟨o, ho, hk, hsw, hc⟩ := exec_within hshape₁ ho₁
    obtain ⟨o', ho', hk', hsw', hc'⟩ := exec_within hshape₂ ho₂
    obtain rfl := Except.ok.inj (ho.symm.trans ho')
    refine ⟨hk'.trans hk.symm, hsw'.trans hsw.symm, ?_⟩
    rw [hc, hc']
    split
    · exact .scan
    · exact .acquire _
  | scan =>
    cases avail with
    | true =>
      cases ho₁
      cases ho₂
      exact ⟨rfl, rfl, .release _ _ rfl⟩
    | false =>
      cases ho₁
      cases ho₂
      exact ⟨rfl, rfl, .release _ _ rfl⟩
  | release pc page hpage =>
    obtain ⟨o, ho, hk, hsw, hc⟩ := exec_within hshape₁ ho₁
    obtain ⟨o', ho', hk', hsw', hc'⟩ := exec_within hshape₂ ho₂
    obtain rfl := Except.ok.inj (ho.symm.trans ho')
    refine ⟨hk'.trans hk.symm, hsw'.trans hsw.symm, ?_⟩
    rw [hc, hc']
    split
    · exact .init _ hpage
    · exact .release _ _ hpage
  | init page hpage =>
    cases page with
    | some t => exact absurd rfl (hinit p₁ t)
    | none =>
      cases ho₁
      cases ho₂
      exact ⟨rfl, rfl, .back hpage.symm⟩
  | back => exact absurd rfl huser

variable {u : Tid} {m₁ m₂ m₁' m₂' : Machine} {e : Event}

/-- The step of the two runs, if it is the creator's: see `TwinCtl.exec`. The other threads are
in the same place and do the same. -/
theorem Twin.act (h : Twin u p₁ p₂ avail m₁ m₂) (hflow₁ : Flow m₁) (hflow₂ : Flow m₂)
    (huser : m₁.pc u ≠ .user) (hinit : m₁.kernel.running = u →
      ∀ p t, m₁.pc u ≠ .createInit p (some t)) (he : e ≠ .tick)
    (ho₁ : Pintos.act m₁ e = .ok o₁) (ho₂ : Pintos.act m₂ e = .ok o₂) :
    o₂.kernel = o₁.kernel ∧ o₂.switch = o₁.switch ∧
      (m₁.kernel.running ≠ u → o₂.ctl = o₁.ctl) ∧
      (m₁.kernel.running = u → TwinCtl p₁ p₂ avail o₁.ctl o₂.ctl) := by
  have hk := h.kernel
  cases e with
  | tick => exact absurd rfl he
  | call c =>
    cases act_ok ho₁ with
    | call hpc₁ =>
      cases act_ok ho₂ with
      | call hpc₂ =>
        have hne : m₁.kernel.running ≠ u := fun heq => huser (heq ▸ hpc₁)
        refine ⟨hk, rfl, fun _ => ?_, fun heq => absurd heq hne⟩
        rw [hk, h.others _ hne]
  | exec =>
    change Pintos.exec m₁.kernel (m₁.ctl m₁.kernel.running) = _ at ho₁
    change Pintos.exec m₂.kernel (m₂.ctl m₂.kernel.running) = _ at ho₂
    rw [hk] at ho₂
    by_cases hu : m₁.kernel.running = u
    · rw [hu] at ho₁ ho₂
      have hshape₁ := hflow₁ u
      have hshape₂ := hflow₂ u
      rw [hk] at hshape₂
      obtain ⟨hkernel, hswitch, hctl⟩ := h.own.exec (hu ▸ hshape₁) (hu ▸ hshape₂) (hinit hu)
        huser ho₁ ho₂
      exact ⟨hkernel, hswitch, fun hne => absurd hu hne, fun _ => hctl⟩
    · rw [h.others _ hu] at ho₂
      obtain rfl := Except.ok.inj (ho₁.symm.trans ho₂)
      exact ⟨rfl, rfl, fun _ => rfl, fun heq => absurd heq hu⟩

/-- **The two runs take one step in lockstep.** -/
theorem Twin.step (h : Twin u p₁ p₂ avail m₁ m₂) (hflow₁ : Flow m₁) (hflow₂ : Flow m₂)
    (huser : m₁.pc u ≠ .user) (hinit : m₁.kernel.running = u →
      ∀ p t, m₁.pc u ≠ .createInit p (some t)) (he : e ≠ .tick)
    (hs₁ : Pintos.step m₁ e = .ok m₁') (hs₂ : Pintos.step m₂ e = .ok m₂') :
    Twin u p₁ p₂ avail m₁' m₂' := by
  obtain ⟨o₁, ho₁, hs₁⟩ := bind_eq_ok.mp hs₁
  obtain ⟨o₂, ho₂, hs₂⟩ := bind_eq_ok.mp hs₂
  obtain ⟨k₁, hd₁, hs₁⟩ := bind_eq_ok.mp hs₁
  obtain ⟨k₂, hd₂, hs₂⟩ := bind_eq_ok.mp hs₂
  cases hs₁
  cases hs₂
  obtain ⟨hkernel, hswitch, hother, hown⟩ := h.act hflow₁ hflow₂ huser hinit he ho₁ ho₂
  have hk : k₂ = k₁ := by
    unfold dispatch at hd₁ hd₂
    rw [hkernel, hswitch] at hd₂
    exact Except.ok.inj (hd₂.symm.trans hd₁)
  refine ⟨hk, fun t ht => ?_, ?_⟩
  · dsimp only
    rw [h.kernel]
    by_cases htr : t = m₁.kernel.running
    · rw [htr, update_self, update_self]
      exact hother (htr ▸ ht)
    · rw [update_of_ne htr, update_of_ne htr]
      exact h.others t ht
  · dsimp only
    rw [h.kernel]
    by_cases hu : u = m₁.kernel.running
    · rw [hu, update_self, update_self]
      exact hown hu.symm
    · rw [update_of_ne hu, update_of_ne hu]
      exact h.own

/-- The next event is the same in both runs. -/
theorem Twin.turn (h : Twin u p₁ p₂ avail m₁ m₂) (huser : m₁.pc u ≠ .user)
    (huser₂ : m₂.pc u ≠ .user) (cs : List Call) : Pintos.turn m₂ cs = Pintos.turn m₁ cs := by
  have hiff : m₂.curPc = .user ↔ m₁.curPc = .user := by
    unfold Machine.curPc
    rw [h.kernel]
    by_cases hu : m₁.kernel.running = u
    · rw [hu]
      exact iff_of_false huser₂ huser
    · unfold Machine.pc
      rw [h.others _ hu]
  unfold Pintos.turn
  simp only [hiff]

/-- The creator is outside the kernel in both runs or in neither. -/
theorem TwinCtl.user_iff (h : TwinCtl p₁ p₂ avail c₁ c₂) : c₂.pc = .user ↔ c₁.pc = .user := by
  cases h <;> simp

theorem TwinCtl.of_user {mlfqs : Bool} (h : TwinCtl p₁ p₂ avail c₁ c₂) (hshape : c₁.Shaped mlfqs u)
    (hpc : c₁.pc = .user) : avail = false := by
  have henc := hshape.enclosed
  cases h with
  | back h => exact h
  | acquire pc | release pc =>
    rw [hpc] at henc
    exact absurd henc (by simp [Pc.enclosed])
  | _ => cases hpc

theorem TwinCtl.of_init {mlfqs : Bool} {p : ℤ} {t : Tid} (h : TwinCtl p₁ p₂ avail c₁ c₂)
    (hshape : c₁.Shaped mlfqs u) (hpc : c₁.pc = .createInit p (some t)) : avail = true ∧
      c₁ = ⟨.createInit p₁ (some t), []⟩ ∧ c₂ = ⟨.createInit p₂ (some t), []⟩ := by
  have henc := hshape.enclosed
  cases h with
  | init page hpage =>
    obtain ⟨-, rfl⟩ := Pc.createInit.inj hpc
    exact ⟨hpage.symm, rfl, rfl⟩
  | acquire pc | release pc =>
    rw [hpc] at henc
    exact absurd henc (by simp [Pc.enclosed])
  | _ => cases hpc

end Lockstep

/-- A state that a run can reach. -/
structure Sound (m : Machine) : Prop where
  scheduled : Scheduled m
  locked : Locked m

theorem Sound.step {m m' : Machine} {e : Event} (h : Sound m) (hs : Pintos.step m e = .ok m') :
    Sound m' :=
  ⟨h.scheduled.step hs, h.locked.step h.scheduled hs⟩

/-- The two runs stand before `init_thread` on the page `t`, and end in `m₁'` and `m₂'`. -/
structure Forked (u : Tid) (p₁ p₂ : ℤ) (t : Tid) (m₁' m₂' : Machine) (n : ℕ) (cs : List Call)
    (m₁ m₂ : Machine) : Prop where
  sound₁ : Sound m₁
  sound₂ : Sound m₂
  running₁ : m₁.kernel.running = u
  running₂ : m₂.kernel.running = u
  ctl₁ : m₁.ctl u = ⟨.createInit p₁ (some t), []⟩
  ctl₂ : m₂.ctl u = ⟨.createInit p₂ (some t), []⟩
  serve₁ : serve u n cs m₁ = some m₁'
  serve₂ : serve u n cs m₂ = some m₂'

/-- **Where the two runs lead.** Without a page they end with the same memory; with a page they
come to `init_thread`, on the same page. -/
theorem Twin.serve {u : Tid} {p₁ p₂ : ℤ} {avail : Bool} {m₁' m₂' : Machine} :
    ∀ (n : ℕ) (cs : List Call) (m₁ m₂ : Machine), Twin u p₁ p₂ avail m₁ m₂ → Sound m₁ → Sound m₂ →
      Pintos.serve u n cs m₁ = some m₁' → Pintos.serve u n cs m₂ = some m₂' →
      (avail = false ∧ m₂'.kernel = m₁'.kernel) ∨
        (avail = true ∧ ∃ t n cs m₁ m₂, Forked u p₁ p₂ t m₁' m₂' n cs m₁ m₂) := by
  intro n
  induction n with
  | zero => exact fun cs m₁ m₂ _ _ _ h₁ => absurd h₁ (by simp [Pintos.serve])
  | succ n ih =>
    intro cs m₁ m₂ htwin hs₁ hs₂ h₁ h₂
    have hiff : m₂.pc u = .user ↔ m₁.pc u = .user := htwin.own.user_iff
    by_cases huser : m₁.pc u = .user
    · -- the call has returned
      rw [Pintos.serve, if_pos huser] at h₁
      rw [Pintos.serve, if_pos (hiff.mpr huser)] at h₂
      cases h₁
      cases h₂
      exact .inl ⟨htwin.own.of_user (hs₁.scheduled.flow u) huser, htwin.kernel⟩
    · by_cases hfork : m₁.kernel.running = u ∧ ∃ p t, m₁.pc u = .createInit p (some t)
      · obtain ⟨hu, p, t, hpc⟩ := hfork
        obtain ⟨havail, hctl₁, hctl₂⟩ := htwin.own.of_init (hs₁.scheduled.flow u) hpc
        exact .inr ⟨havail, t, n + 1, cs, m₁, m₂, hs₁, hs₂, hu, htwin.kernel ▸ hu, hctl₁, hctl₂,
          h₁, h₂⟩
      · obtain ⟨e, cs', n₁, hturn₁, hstep₁, h₁⟩ := serve_succ huser h₁
        obtain ⟨e', cs'', n₂, hturn₂, hstep₂, h₂⟩ := serve_succ (fun h => huser (hiff.mp h)) h₂
        rw [htwin.turn huser (fun h => huser (hiff.mp h)), hturn₁] at hturn₂
        cases hturn₂
        have htwin' := htwin.step hs₁.scheduled.flow hs₂.scheduled.flow huser
          (fun hu p t hpc => hfork ⟨hu, p, t, hpc⟩) (turn_ne_tick hturn₁) hstep₁ hstep₂
        exact ih cs' n₁ n₂ htwin' (hs₁.step hstep₁) (hs₂.step hstep₂) h₁ h₂

/-! ### From `init_thread` to the return -/

/-- Where the creator `u` is between `init_thread` and the return of `thread_create`. -/
inductive Creating (u : Tid) (p : ℤ) (t : Tid) (m : Machine) : Prop where
  /-- The new thread is not in the ready heap yet. -/
  | newborn : (m.ctl u).newborn = some (p, t) → Creating u p t m
  | test (q : ℤ) : m.kernel.running = u → m.ctl u = ⟨.createTest q, []⟩ → Creating u p t m
  | yield : m.kernel.running = u → m.ctl u = ⟨.yield, []⟩ → Creating u p t m
  | back : m.pc u = .user → Creating u p t m

/-- The new thread has the priority of the argument. -/
structure Created (u : Tid) (p : ℤ) (t : Tid) (m : Machine) : Prop where
  creating : Creating u p t m
  priority : (m.kernel.threads t).priority = p

section After

variable {u t : Tid} {p : ℤ} {m m' : Machine} {e : Event}

/-- A step of the running thread `u`, from where it is. -/
theorem exec_of_step {c : Control} (hrun : m.kernel.running = u) (hctl : m.ctl u = c)
    (hs : step m .exec = .ok m') : ∃ o, exec m.kernel c = .ok o ∧
      ((o.switch = false ∧ m' = m.settle o) ∨ ∃ k, o.switch = true ∧
        schedule o.kernel = .ok k ∧ m' = ⟨k, (m.settle o).ctl⟩) := by
  obtain ⟨o, ho, hout⟩ := step_ok hs
  change exec m.kernel (m.ctl m.kernel.running) = _ at ho
  rw [hrun, hctl] at ho
  exact ⟨o, ho, hout⟩

/-- A thread inside the kernel makes no calls. -/
theorem eq_exec_of_step (hpc : m.curPc ≠ .user) (he : e ≠ .tick) (hs : step m e = .ok m') :
    e = .exec := by
  cases e with
  | exec => rfl
  | tick => exact absurd rfl he
  | call c =>
    obtain ⟨o, ha, -⟩ := step_act hs
    cases ha with
    | call huser => exact absurd huser hpc

theorem settle_ctl_running {o : Outcome} (hrun : m.kernel.running = u) : (m.settle o).ctl u = o.ctl := by
  unfold Machine.settle
  dsimp only
  rw [hrun, update_self]

theorem Created.init (hrun : m.kernel.running = u) (hctl : m.ctl u = ⟨.createInit p (some t), []⟩)
    (hs : step m .exec = .ok m') : Created u p t m' := by
  obtain ⟨o, ho, hout⟩ := exec_of_step hrun hctl hs
  obtain ⟨k, hk, ho⟩ := bind_eq_ok.mp ho
  cases ho
  obtain ⟨-, rfl⟩ := initThread_ok hk
  rcases hout with ⟨-, rfl⟩ | ⟨k, hsw, -⟩
  · refine ⟨.newborn ?_, ?_⟩
    · rw [settle_ctl_running hrun]
      rfl
    · change (update m.kernel.threads t (freshThread .blocked p) t).priority = p
      rw [update_self]
      rfl
  · exact absurd hsw Bool.false_ne_true

/-- The step from a new thread that is not ready yet. -/
theorem Created.of_newborn (hprio : (m.kernel.threads t).priority = p)
    (hn : (m.ctl u).newborn = some (p, t)) (hsound : Sound m) (hpc : m.pc u ≠ .user)
    (he : e ≠ .tick) (hs : Pintos.step m e = .ok m') : Created u p t m' := by
  obtain ⟨o, ha, hctl, hd⟩ := step_act hs
  have hkeep : ((m.settle o).ctl u).newborn = some (p, t) → Created u p t m' := by
    intro hn'
    refine ⟨.newborn (by rw [hctl]; exact hn'), ?_⟩
    obtain ⟨st, hst⟩ := hd.threads t
    rw [hst]
    exact ha.newborn_priority hsound.scheduled hsound.locked (fun h => absurd h he) (fun _ => hprio) hn'
  by_cases hu : m.kernel.running = u
  · have hpc' : m.curPc ≠ .user := by
      unfold Machine.curPc
      rw [hu]
      exact hpc
    obtain rfl := eq_exec_of_step hpc' he hs
    cases ha with
    | exec hex =>
      rcases hex.newborn_eq (hsound.scheduled.flow _) with heq | ⟨q, w, hc, -⟩ | ⟨q, w, hc, -⟩
      · refine hkeep ?_
        rw [settle_ctl_running hu, heq, hu]
        exact hn
      · rw [hu] at hc
        rw [hc] at hn
        exact absurd hn (by simp [Control.newborn, Pc.newborn])
      · -- `thread_unblock` on the new thread
        rw [hu] at hc
        rw [hc] at hn
        obtain ⟨rfl, rfl⟩ := Prod.mk.inj (Option.some.inj hn)
        obtain ⟨o, ho, hout⟩ := exec_of_step hu hc hs
        obtain ⟨k, hk, ho⟩ := bind_eq_ok.mp ho
        obtain rfl := Except.ok.inj ho
        have hpush := (threadUnblock_ok hk).2
        rcases hout with ⟨-, rfl⟩ | ⟨k, hsw, -⟩
        · refine ⟨.test q ((pushReady_setup hpush).running.trans hu) (settle_ctl_running hu), ?_⟩
          exact ((StakeFrame.pushReady hpush).priority w).trans hprio
        · exact absurd hsw Bool.false_ne_true
  · refine hkeep ?_
    change (update m.ctl m.kernel.running o.ctl u).newborn = _
    rw [update_of_ne (Ne.symm hu)]
    exact hn

/-- **One step during the call.** -/
theorem Created.step (h : Created u p t m) (hsound : Sound m) (hpc : m.pc u ≠ .user)
    (he : e ≠ .tick) (hs : Pintos.step m e = .ok m') : Created u p t m' := by
  obtain ⟨hc, hprio⟩ := h
  have hexec : m.kernel.running = u → e = .exec := fun hu =>
    eq_exec_of_step (by unfold Machine.curPc; rw [hu]; exact hpc) he hs
  cases hc with
  | back hback => exact absurd hback hpc
  | newborn hn => exact .of_newborn hprio hn hsound hpc he hs
  | test q hu hctl =>
    obtain rfl := hexec hu
    obtain ⟨o, ho, hout⟩ := exec_of_step hu hctl hs
    change (if q > m.kernel.cur.priority then _ else _) = _ at ho
    split at ho
    · cases ho
      rcases hout with ⟨-, rfl⟩ | ⟨k, hsw, -⟩
      · exact ⟨.yield hu (settle_ctl_running hu), hprio⟩
      · exact absurd hsw Bool.false_ne_true
    · cases ho
      rcases hout with ⟨-, rfl⟩ | ⟨k, hsw, -⟩
      · exact ⟨.back (congrArg Control.pc (settle_ctl_running hu)), hprio⟩
      · exact absurd hsw Bool.false_ne_true
  | yield hu hctl =>
    obtain rfl := hexec hu
    obtain ⟨o, ho, hout⟩ := exec_of_step hu hctl hs
    obtain ⟨k, hk, ho⟩ := bind_eq_ok.mp ho
    cases ho
    rcases hout with ⟨hsw, -⟩ | ⟨k', -, hk', rfl⟩
    · cases hsw
    · refine ⟨.back (congrArg Control.pc (settle_ctl_running hu)), ?_⟩
      obtain ⟨st, hst⟩ := (dispatched_of_schedule hk').threads t
      rw [hst]
      exact ((StakeFrame.yieldPark hk).priority t).trans hprio

/-- **The new thread has the priority of the argument when the call returns.** -/
theorem Created.serve : ∀ (n : ℕ) (cs : List Call) (m : Machine), Created u p t m → Sound m →
    Pintos.serve u n cs m = some m' → (m'.kernel.threads t).priority = p := by
  intro n
  induction n with
  | zero => exact fun cs m _ _ h => absurd h (by simp [Pintos.serve])
  | succ n ih =>
    intro cs m hc hsound h
    by_cases huser : m.pc u = .user
    · rw [Pintos.serve, if_pos huser] at h
      cases h
      exact hc.priority
    · obtain ⟨e, cs', m₁, hturn, hstep, h⟩ := serve_succ huser h
      exact ih cs' m₁ (hc.step hsound huser (turn_ne_tick hturn) hstep) (hsound.step hstep) h

end After

/-- From `init_thread` on. -/
theorem serve_of_init {u t : Tid} {p : ℤ} {m m' : Machine} {n : ℕ} {cs : List Call}
    (hsound : Sound m) (hrun : m.kernel.running = u)
    (hctl : m.ctl u = ⟨.createInit p (some t), []⟩) (h : serve u n cs m = some m') :
    (m'.kernel.threads t).priority = p := by
  have hpc : m.pc u ≠ .user := by
    unfold Machine.pc
    rw [hctl]
    simp
  cases n with
  | zero => exact absurd h (by simp [serve])
  | succ n =>
    obtain ⟨e, cs', m₁, hturn, hstep, h⟩ := serve_succ hpc h
    obtain rfl := turn_exec (by unfold Machine.curPc; rw [hrun]; exact hpc) hturn
    exact (Created.init hrun hctl hstep).serve n cs' m₁ (hsound.step hstep) h

/-- The two calls begin in lockstep. -/
theorem twin_of_call {m m₁ m₂ : Machine} {p₁ p₂ : ℤ} {avail : Bool} (hflow : Flow m)
    (h₁ : step m (.call (.threadCreate p₁ avail)) = .ok m₁)
    (h₂ : step m (.call (.threadCreate p₂ avail)) = .ok m₂) :
    Twin m.kernel.running p₁ p₂ avail m₁ m₂ := by
  have hcall : ∀ {p : ℤ} {m' : Machine}, step m (.call (.threadCreate p avail)) = .ok m' →
      m' = ⟨m.kernel, update m.ctl m.kernel.running ⟨.create p avail, []⟩⟩ := by
    intro p m' hs
    obtain ⟨o, ha, hout⟩ := step_cases hs
    cases ha with
    | call hpc =>
      rcases hout with ⟨-, rfl⟩ | ⟨k, hsw, -⟩
      · rw [hflow.stack_of_user hpc]
        rfl
      · exact absurd hsw Bool.false_ne_true
  obtain rfl := hcall h₁
  obtain rfl := hcall h₂
  refine ⟨rfl, fun t ht => ?_, ?_⟩
  · dsimp only
    rw [update_of_ne ht, update_of_ne ht]
  · dsimp only
    rw [update_self, update_self]
    exact .create

/-- **The argument matters.** In mlfqs mode, let two calls of `thread_create` that differ in the
priority at most be made in one reachable state, with the other threads doing the same during the
call and no timer interrupt. They leave the scheduler in the same state if and only if the
priorities are equal or there is no page for the new thread. -/
theorem create_same_iff {v : ℕ → ℕ} {h : List (Machine × Event)} {m m₁ m₂ : Machine}
    (hrun : Run step preemptive (boot true v) h m) {p₁ p₂ : ℤ} {avail : Bool} {n : ℕ}
    {cs : List Call} (h₁ : threadCreate n cs avail m p₁ = some m₁)
    (h₂ : threadCreate n cs avail m p₂ = some m₂) :
    m₁.kernel.SameSched m₂.kernel ↔ p₁ = p₂ ∨ avail = false := by
  obtain ⟨hsch, hlock⟩ := Locked.of_run hrun
  have hsound : Sound m := ⟨hsch, hlock⟩
  obtain ⟨n₁, hs₁, hr₁⟩ := Option.bind_eq_some_iff.mp h₁
  obtain ⟨n₂, hs₂, hr₂⟩ := Option.bind_eq_some_iff.mp h₂
  rw [toOption_eq_some] at hs₁ hs₂
  have hend := (twin_of_call hsch.flow hs₁ hs₂).serve n cs n₁ n₂ (hsound.step hs₁)
    (hsound.step hs₂) hr₁ hr₂
  constructor
  · intro hsame
    rcases hend with ⟨havail, -⟩ | ⟨-, t, n', cs', a₁, a₂, hf⟩
    · exact .inr havail
    · left
      calc p₁ = (m₁.kernel.threads t).priority :=
            (serve_of_init hf.sound₁ hf.running₁ hf.ctl₁ hf.serve₁).symm
        _ = (m₂.kernel.threads t).priority := (hsame.priority t).symm
        _ = p₂ := serve_of_init hf.sound₂ hf.running₂ hf.ctl₂ hf.serve₂
  · rintro (rfl | rfl)
    · obtain rfl := Option.some.inj (h₁.symm.trans h₂)
      exact .refl _
    · rcases hend with ⟨-, hk⟩ | ⟨habs, -⟩
      · rw [hk]
        exact .refl _
      · cases habs

theorem create_same_iff_noPage : ∃ m₁ m₂,
    threadCreate 40 [] false (boot true fun _ => 0) 63 = some m₁ ∧
    threadCreate 40 [] false (boot true fun _ => 0) 0 = some m₂ ∧
    m₁.kernel.SameSched m₂.kernel := by
  obtain ⟨m₁, h₁, -⟩ := (Option.any_eq_true (fun _ => true) _).mp
    (show (threadCreate 40 [] false (boot true fun _ => 0) 63).any (fun _ => true) = true by
      decide +kernel)
  obtain ⟨m₂, h₂, -⟩ := (Option.any_eq_true (fun _ => true) _).mp
    (show (threadCreate 40 [] false (boot true fun _ => 0) 0).any (fun _ => true) = true by
      decide +kernel)
  exact ⟨m₁, m₂, h₁, h₂, (create_same_iff .refl h₁ h₂).mpr (.inr rfl)⟩

/-- **Two arguments, two priorities.** The main thread creates a thread right after boot. With
the argument 63 the new thread gets the priority 63, with the argument 0 the priority 0. -/
theorem create_argument_kept : ∃ m₁ m₂,
    threadCreate 60 [] true (boot true fun _ => 0) 63 = some m₁ ∧
    threadCreate 60 [] true (boot true fun _ => 0) 0 = some m₂ ∧
    (m₁.kernel.threads 2).priority = 63 ∧ (m₂.kernel.threads 2).priority = 0 ∧
    ¬ m₁.kernel.SameSched m₂.kernel := by
  obtain ⟨m₁, h₁, hp₁⟩ := (Option.any_eq_true (fun m : Machine =>
    decide ((m.kernel.threads 2).priority = 63)) _).mp
    (show (threadCreate 60 [] true (boot true fun _ => 0) 63).any
      (fun m => decide ((m.kernel.threads 2).priority = 63)) = true by decide +kernel)
  obtain ⟨m₂, h₂, hp₂⟩ := (Option.any_eq_true (fun m : Machine =>
    decide ((m.kernel.threads 2).priority = 0)) _).mp
    (show (threadCreate 60 [] true (boot true fun _ => 0) 0).any
      (fun m => decide ((m.kernel.threads 2).priority = 0)) = true by decide +kernel)
  have hp₁ := of_decide_eq_true hp₁
  have hp₂ := of_decide_eq_true hp₂
  refine ⟨m₁, m₂, h₁, h₂, hp₁, hp₂, fun hsame => ?_⟩
  have heq := hsame.priority 2
  rw [hp₁, hp₂] at heq
  exact absurd heq (by decide)

end Pintos
