import Pintos.Sync.Semaphore

/-!
# Woken threads are ready

A thread that has queued up on a semaphore leaves the queue by being unblocked, and is then in
the ready heap until it is dispatched (`WokenReady`). So every thread in the loop of `sema_down`
is on the CPU, ready, or still queued.
-/

namespace Pintos

open Transition

/-- A thread in the loop of `sema_down` that is not on the CPU is queued or ready. -/
def WokenReady (m : Machine) : Prop :=
  ∀ s t, m.pc t = .semaRetest s → t ≠ m.kernel.running →
    t ∈ (m.kernel.semas s).waiters ∨ t ∈ m.kernel.readyHeap.items

section Ready

variable {k k' : Kernel} {t : Tid}

theorem pushReady_subset (h : pushReady k t = .ok k') :
    k.readyHeap.items ⊆ k'.readyHeap.items := by
  obtain ⟨ord, heap, rfl, hitems, -⟩ := pushReady_ok h
  rw [hitems]
  exact Multiset.subset_cons _ _

theorem yieldPark_subset (h : yieldPark k = .ok k') :
    k.readyHeap.items ⊆ k'.readyHeap.items := by
  rcases yieldPark_ok h with ⟨-, hpush⟩ | ⟨-, rfl⟩
  · exact pushReady_subset hpush
  · exact Multiset.Subset.refl _

theorem timerInterrupt_subset {y : Bool} (h : timerInterrupt k = .ok (y, k')) :
    k.readyHeap.items ⊆ k'.readyHeap.items := by
  obtain ⟨y₁, k₁, -, hrounds, htick⟩ := timerInterrupt_ok
    (I := fun _ k₁ => k.readyHeap.items ⊆ k₁.readyHeap.items) h (Multiset.Subset.refl _)
    fun y k₁ heap top k₂ hI _ hub => by
      have hround : k₁.readyHeap.items ⊆ k₂.readyHeap.items :=
        pushReady_subset (k := { k₁ with sleepHeap := heap }) (threadUnblock_ok hub).2
      exact Multiset.Subset.trans hI hround
  obtain ⟨k₂, -, -, hscored, rfl, -⟩ := threadTick_ok htick
  rw [hscored.readyHeap]
  exact hrounds

/-- Before the dispatch no thread leaves the ready heap. -/
theorem Exec.ready_subset {c : Control} {o : Outcome} (hex : Exec k c o) :
    k.readyHeap.items ⊆ o.kernel.readyHeap.items := by
  cases hex with
  | upWake _ _ hub | createUnblock hub =>
    have hpush := pushReady_subset (threadUnblock_ok hub).2
    exact hpush
  | yield hy => exact yieldPark_subset hy
  | sortHeap =>
    rw [heapRebuild_items]
    exact Multiset.Subset.refl _
  | createInit hi =>
    obtain ⟨-, rfl⟩ := initThread_ok hi
    exact Multiset.Subset.refl _
  | sleep _ hs =>
    obtain ⟨heap, rfl, -⟩ := sleepPark_ok hs
    exact Multiset.Subset.refl _
  | _ => exact Multiset.Subset.refl _

theorem Act.ready_subset {m : Machine} {e : Event} {o : Outcome} (ha : Act m e o) :
    m.kernel.readyHeap.items ⊆ o.kernel.readyHeap.items := by
  cases ha with
  | call => exact Multiset.Subset.refl _
  | exec hex => exact hex.ready_subset
  | tick _ hint hy =>
    refine Multiset.Subset.trans (timerInterrupt_subset hint) ?_
    rcases yieldOnReturn_ok hy with hy | rfl
    · exact yieldPark_subset hy
    · exact Multiset.Subset.refl _

/-- The dispatch takes one thread out of the ready heap, the one that runs then. -/
theorem schedule_ready (h : schedule k = .ok k') (ht : t ∈ k.readyHeap.items)
    (hne : t ≠ k'.running) : t ∈ k'.readyHeap.items := by
  obtain ⟨next, heap, freed, rfl, hcase⟩ := schedule_ok h
  rcases hcase with ⟨-, -, rfl⟩ | hpop
  · exact ht
  · rw [(heapPop_ok hpop).2.1] at ht
    exact (Multiset.mem_cons.mp ht).resolve_left hne

end Ready

section Step

variable {m m' : Machine} {e : Event} {o : Outcome}

/-- The threads off the CPU, after the running thread's code. -/
theorem WokenReady.act (h : WokenReady m) (hsch : Scheduled m) (ha : Act m e o) {s : SemaRef}
    {t : Tid} (hpc : m.pc t = .semaRetest s) (ht : t ≠ m.kernel.running) :
    t ∈ (o.kernel.semas s).waiters ∨ t ∈ o.kernel.readyHeap.items := by
  rcases h s t hpc ht with hwait | hready
  · cases ha.sema s with
    | quiet _ _ _ hsame =>
      rw [hsame]
      exact .inl hwait
    | block _ _ _ _ hsame =>
      rw [hsame]
      exact .inl (List.mem_append_left _ hwait)
    | take _ _ _ hsame =>
      rw [hsame]
      exact .inl hwait
    | up _ _ hnil _ =>
      rw [hnil] at hwait
      exact absurd hwait List.not_mem_nil
    | wake u _ _ _ _ hready hsame =>
      by_cases htu : t = u
      · rw [htu]
        exact .inr hready
      · rw [hsame]
        exact .inl ((List.mem_erase_of_ne htu).mpr hwait)
    | init hs =>
      -- nobody but the running thread is in `sema_down` on the semaphore of its waiter
      subst hs
      exact absurd (hsch.flow.eq_of_retest hpc) ht
  · exact .inr (ha.ready_subset hready)

/-- A thread that gives up the CPU in the loop of `sema_down` has queued up. -/
theorem Act.queued (ha : Act m e o) (hsw : o.switch = true) {s : SemaRef}
    (hpc : o.ctl.pc = .semaRetest s) : m.kernel.running ∈ (o.kernel.semas s).waiters := by
  cases ha with
  | call => cases hsw
  | exec hex =>
    generalize m.ctl m.kernel.running = c at hex
    cases hex with
    | @downBlock pc s' st =>
      obtain rfl := Pc.semaRetest.inj hpc
      change _ ∈ (Function.update m.kernel.semas s' _ s').waiters
      rw [Function.update_self]
      exact List.mem_append_right _ (List.mem_singleton.mpr rfl)
    | @yield st k' hy =>
      cases st with
      | nil => exact absurd hpc (by simp [ret])
      | cons f st => cases f <;> exact absurd hpc (by simp [ret])
    | idle | exit | sleep => cases hpc
    | _ => cases hsw
  | tick hon =>
    change (m.ctl m.kernel.running).pc = _ at hpc
    simp [Machine.interruptsOn, hpc] at hon

/-- **Every step keeps woken threads ready.** -/
theorem WokenReady.step (h : WokenReady m) (hsch : Scheduled m) (hs : Pintos.step m e = .ok m') :
    WokenReady m' := by
  obtain ⟨o, ha, hcase⟩ := step_cases hs
  intro s t hpc ht
  rcases hcase with ⟨-, rfl⟩ | ⟨k, hsw, hk, rfl⟩
  · have hne : t ≠ m.kernel.running := fun heq => ht (heq.trans ha.setup.running.symm)
    rw [settle_pc, if_neg hne] at hpc
    exact h.act hsch ha hpc hne
  · have hold : t ∈ (o.kernel.semas s).waiters ∨ t ∈ o.kernel.readyHeap.items := by
      change (m.settle o).pc t = _ at hpc
      rw [settle_pc] at hpc
      split at hpc
      · next heq =>
        rw [heq]
        exact .inl (ha.queued hsw hpc)
      · next hne => exact h.act hsch ha hpc hne
    refine hold.imp (fun hwait => ?_) fun hready => schedule_ready hk hready ht
    rw [(dispatched_of_schedule hk).semas]
    exact hwait

end Step

theorem WokenReady.boot (mlfqs : Bool) (v : ℕ → ℕ) : WokenReady (boot mlfqs v) := by
  intro s t hpc
  unfold Machine.pc Pintos.boot at hpc
  dsimp only at hpc
  split at hpc <;> cases hpc

end Pintos
