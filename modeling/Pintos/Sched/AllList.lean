import Pintos.Sched.Mlfqs
import Pintos.Sched.Partition

/-!
# The list of all threads

`thread_foreach` walks over `all_list`. `Pintos.Sched.Mlfqs` says that it misses no thread; here it
is that it visits none twice, and no page that holds none. The page of a thread that has exited may
be given back, so a walk that came to it would read freed memory.

* `Exec.dying` — `thread_exit` is the only code that makes a thread a dead one;
* `Listed.step` — every step keeps the list free of duplicates and of dead threads.
-/

namespace Pintos

open Transition Function

/-- `all_list` holds no thread twice, and no page that holds none. -/
structure Listed (m : Machine) : Prop where
  nodup : m.kernel.allList.Nodup
  hasThread : ∀ t ∈ m.kernel.allList, m.HasThread t
  exited : ∀ t, (m.kernel.threads t).status = .dying → m.pc t = .exited

section Listed

variable {m m' : Machine} {o : Outcome} {e : Event} {k k' : Kernel} {c : Control} {t : Tid}

/-- Only `thread_exit` makes a thread a dead one. -/
theorem Exec.dying (hex : Exec k c o) (ht : (o.kernel.threads t).status = .dying) :
    (k.threads t).status = .dying ∨ (t = k.running ∧ o.ctl.pc = .exited) := by
  -- a thread whose status is set to something else is not the one
  have hset : ∀ {u : Tid} {x : Thread}, x.status ≠ .dying →
      (update k.threads u x t).status = .dying → (k.threads t).status = .dying := by
    intro u x hx ht
    by_cases hu : t = u
    · subst hu
      rw [update_self] at ht
      exact absurd ht hx
    · rwa [update_of_ne hu] at ht
  have hkeep : ∀ {u : Tid} {x : Thread}, (update k.threads u x t).status = .dying →
      x.status = (k.threads u).status → (k.threads t).status = .dying :=
    fun ht hx => (apply_update_same Thread.status hx t).symm.trans ht
  cases hex with
  | exit =>
    by_cases hr : t = k.running
    · exact .inr ⟨hr, rfl⟩
    · exact .inl ((congrArg Thread.status (update_of_ne hr ..)).symm.trans ht)
  | idle | downBlock => exact .inl (hset (by simp) ht)
  | upWake _ _ hub | createUnblock hub =>
    obtain ⟨ord, heap, rfl, -⟩ := pushReady_ok (threadUnblock_ok hub).2
    exact .inl (hset (by simp) ht)
  | yield hy =>
    refine .inl ?_
    rcases yieldPark_ok hy with ⟨-, hpush⟩ | ⟨-, rfl⟩
    · obtain ⟨ord, heap, rfl, -⟩ := pushReady_ok hpush
      exact hset (by simp) ht
    · exact hset (by simp) ht
  | createInit hi =>
    obtain ⟨-, rfl⟩ := initThread_ok hi
    exact .inl (hset (by simp [freshThread]) ht)
  | sleep _ hs =>
    obtain ⟨heap, rfl, -⟩ := sleepPark_ok hs
    exact .inl (hset (by simp) ht)
  | _ =>
    refine .inl ?_
    first | exact ht | exact hkeep ht rfl

/-- A thread that is readied was not dead, and is not. -/
theorem pushReady_dying (h : pushReady k t = .ok k') {u : Tid}
    (hu : (k'.threads u).status = .dying) : (k.threads u).status = .dying := by
  obtain ⟨ord, heap, rfl, -⟩ := pushReady_ok h
  by_cases heq : u = t
  · subst heq
    simp at hu
  · exact (congrArg Thread.status (update_of_ne heq ..)).symm.trans hu

theorem timerInterrupt_dying {y : Bool} (h : timerInterrupt k = .ok (y, k'))
    (ht : (k'.threads t).status = .dying) : (k.threads t).status = .dying := by
  obtain ⟨y₁, k₁, -, hrounds, htick⟩ := timerInterrupt_ok
    (I := fun _ k₁ => (k₁.threads t).status = .dying → (k.threads t).status = .dying) h id
    fun y k₁ heap top k₂ hI _ hub hdead => hI (pushReady_dying (threadUnblock_ok hub).2 hdead)
  obtain ⟨k₂, -, -, hres, rfl, -⟩ := threadTick_ok htick
  exact hrounds ((hres.queueFrame.status t).symm.trans ht)

theorem yieldOnReturn_dying {y : Bool} (h : yieldOnReturn y k = .ok k')
    (ht : (k'.threads t).status = .dying) : (k.threads t).status = .dying := by
  rcases yieldOnReturn_ok h with h | rfl
  · have hex : Exec k ⟨.yield, []⟩ ⟨k', ret k.running [], true⟩ := .yield h
    exact (hex.dying ht).resolve_right fun hexit => (ret_inside _ _).2 hexit.2
  · exact ht

theorem schedule_dying (h : schedule k = .ok k') (ht : (k'.threads t).status = .dying) :
    (k.threads t).status = .dying := by
  obtain ⟨next, heap, freed, rfl, -⟩ := schedule_ok h
  by_cases heq : t = next
  · subst heq
    simp at ht
  · exact (congrArg Thread.status (update_of_ne heq ..)).symm.trans ht

/-- A change that adds no dead thread and leaves the list alone. -/
theorem Listed.frame (h : Listed m) (hall : k'.allList = m.kernel.allList)
    (hnext : k'.nextPage = m.kernel.nextPage)
    (hdead : ∀ t, (k'.threads t).status = .dying → (m.kernel.threads t).status = .dying) :
    Listed ⟨k', m.ctl⟩ where
  nodup := by rw [hall]; exact h.nodup
  hasThread t ht := by
    rw [hall] at ht
    obtain ⟨hpage, hinit, halive⟩ := h.hasThread t ht
    exact ⟨hnext.symm ▸ hpage, hinit, halive⟩
  exited t ht := h.exited t (hdead t ht)

theorem Listed.exec (h : Listed m) (hsch : Scheduled m)
    (hex : Exec m.kernel (m.ctl m.kernel.running) o) : Listed (m.settle o) := by
  have hshape := hsch.flow m.kernel.running
  have hself : (m.settle o).ctl m.kernel.running = o.ctl := update_self ..
  have hother : ∀ u, u ≠ m.kernel.running → (m.settle o).ctl u = m.ctl u :=
    fun u hu => update_of_ne hu ..
  -- a page that holds a thread goes on to do so, unless the thread exits
  have hkeep : ∀ t, m.HasThread t → (t = m.kernel.running → o.ctl.pc ≠ .exited) →
      (m.settle o).HasThread t := by
    intro t ht hexit
    refine ⟨ht.page.trans_le hex.setup.nextPage, fun u hu => ?_, ?_⟩
    · by_cases hur : u = m.kernel.running
      · rw [hur, hself] at hu
        rcases hex.rawPage_cases hshape with hsame | ⟨-, hnew⟩ | ⟨hnone, -⟩
        · exact ht.inited _ (hsame.symm.trans hu)
        · exact absurd ht.page (Option.some.inj (hnew.symm.trans hu) ▸ lt_irrefl _)
        · exact absurd (hnone.symm.trans hu) (by simp)
      · rw [hother u hur] at hu
        exact ht.inited u hu
    · rw [settle_pc]
      split
      · next heq => exact hexit heq
      · exact ht.alive
  have hdead : ∀ t, (o.kernel.threads t).status = .dying → (m.settle o).pc t = .exited := by
    intro t ht
    rw [settle_pc]
    split
    · next heq =>
      refine ((hex.dying ht).resolve_left fun hold => ?_).2
      rw [heq] at hold
      exact absurd (hold.symm.trans hsch.cpu.status) (by simp)
    · next hne => exact h.exited t ((hex.dying ht).resolve_right fun hr => hne hr.1)
  by_cases hexit : o.ctl.pc = .exited
  · -- the thread that exits leaves the list
    have herase : o.kernel.allList = m.kernel.allList.erase m.kernel.running := by
      rcases hex.pc_cases with ⟨-, hidle⟩ | ⟨-, herase⟩ | ⟨-, hne⟩
      · exact absurd (hidle.symm.trans hexit) (by simp)
      · exact herase
      · exact absurd hexit hne
    refine ⟨?_, fun t ht => ?_, hdead⟩
    · change o.kernel.allList.Nodup
      rw [herase]
      exact h.nodup.erase _
    · change t ∈ o.kernel.allList at ht
      rw [herase, h.nodup.mem_erase_iff] at ht
      exact hkeep t (h.hasThread t ht.2) fun heq => absurd heq ht.1
  · rcases hex.allList_cases hshape with hsame | ⟨hexit', -⟩ | ⟨t', hraw, hnone, happ⟩
    · refine ⟨?_, fun t ht => ?_, hdead⟩
      · change o.kernel.allList.Nodup
        rw [hsame]
        exact h.nodup
      · change t ∈ o.kernel.allList at ht
        rw [hsame] at ht
        exact hkeep t (h.hasThread t ht) fun _ => hexit
    · exact absurd hexit' hexit
    · -- a new thread was not in the list, since its page was raw
      have hnew : t' ∉ m.kernel.allList := fun hmem => (h.hasThread t' hmem).inited _ hraw
      have hemb := Control.embryo_of_rawPage hshape hraw
      obtain ⟨hpage, hctl, hst⟩ := hsch.queues.embryo _ t' hemb
      have hne : t' ≠ m.kernel.running := by
        rintro rfl
        exact absurd (hst.symm.trans hsch.cpu.status) (by simp)
      refine ⟨?_, fun t ht => ?_, hdead⟩
      · change o.kernel.allList.Nodup
        rw [happ]
        exact List.Nodup.append h.nodup (List.nodup_singleton t') (by simpa using hnew)
      · change t ∈ o.kernel.allList at ht
        rw [happ] at ht
        rcases List.mem_append.mp ht with ht | ht
        · exact hkeep t (h.hasThread t ht) fun _ => hexit
        · obtain rfl := List.mem_singleton.mp ht
          refine ⟨hpage.trans_le hex.setup.nextPage, fun u hu => ?_, ?_⟩
          · by_cases hur : u = m.kernel.running
            · rw [hur, hself] at hu
              exact absurd (hnone.symm.trans hu) (by simp)
            · rw [hother u hur] at hu
              exact hur (hsch.queues.embryo_unique _ _ t
                (Control.embryo_of_rawPage (hsch.flow u) hu) hemb)
          · rw [settle_pc, if_neg hne]
            unfold Machine.pc
            rw [hctl]
            simp

theorem Listed.act (h : Listed m) (hsch : Scheduled m) (ha : Act m e o) : Listed (m.settle o) := by
  cases ha with
  | @call c hpc =>
    have hnil : (m.ctl m.kernel.running).stack = [] := hsch.flow.stack_of_user hpc
    have hentry : c.entry.rawPage = none ∧ c.entry ≠ .exited := by
      cases c <;> exact ⟨rfl, by simp [Call.entry]⟩
    refine ⟨h.nodup, fun t ht => ?_, fun t ht => ?_⟩
    · obtain ⟨hpage, hinit, halive⟩ := h.hasThread t ht
      refine ⟨hpage, fun u hu => ?_, ?_⟩
      · change (update m.ctl m.kernel.running _ u).rawPage = some t at hu
        by_cases hur : u = m.kernel.running
        · rw [hur, update_self, hnil] at hu
          exact absurd hu (by simp [Control.rawPage, hentry.1])
        · rw [update_of_ne hur] at hu
          exact hinit u hu
      · rw [settle_pc]
        split
        · exact hentry.2
        · exact halive
    · rw [settle_pc, if_neg]
      · exact h.exited t ht
      · rintro rfl
        exact absurd (ht.symm.trans hsch.cpu.status) (by simp)
  | exec hex => exact h.exec hsch hex
  | @tick y k k' _ hint hy =>
    have hsettle : m.settle ⟨k', m.ctl m.kernel.running, y⟩ = ⟨k', m.ctl⟩ :=
      congrArg (Machine.mk k') (update_eq_self _ _)
    rw [hsettle]
    exact h.frame (tick_tables hint hy).allList (tick_tables hint hy).nextPage
      fun t ht => timerInterrupt_dying hint (yieldOnReturn_dying hy ht)

/-- **Every step keeps the list free of duplicates and of dead threads.** -/
theorem Listed.step (h : Listed m) (hsch : Scheduled m) (hs : Pintos.step m e = .ok m') :
    Listed m' := by
  obtain ⟨o, ha, hcase⟩ := step_cases hs
  have hset := h.act hsch ha
  rcases hcase with ⟨-, rfl⟩ | ⟨k, -, hk, rfl⟩
  · exact hset
  · have hf := ScoreFrame.schedule hk
    exact hset.frame hf.allList hf.nextPage fun t ht => schedule_dying hk ht

theorem Listed.boot (mlfqs : Bool) (v : ℕ → ℕ) : Listed (boot mlfqs v) := by
  have hctl : ∀ t, (Pintos.boot mlfqs v).ctl t = ⟨if t = 1 then .idle else .user, []⟩ := by
    intro t
    unfold Pintos.boot
    dsimp only
    split <;> rfl
  refine ⟨by simp [Pintos.boot], fun t ht => ⟨?_, fun u hu => ?_, ?_⟩, fun t ht => ?_⟩
  · change t ∈ [0, 1] at ht
    rcases List.mem_cons.mp ht with rfl | ht
    · exact Nat.two_pos
    · obtain rfl := List.mem_singleton.mp ht
      exact Nat.one_lt_two
  · rw [hctl] at hu
    split at hu <;> exact absurd hu (by simp [Control.rawPage, Pc.rawPage])
  · unfold Machine.pc
    rw [hctl]
    split <;> simp
  · rw [boot_status] at ht
    split at ht
    · cases ht
    · split at ht <;> cases ht

end Listed

end Pintos
