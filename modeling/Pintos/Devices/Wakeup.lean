import Pintos.Devices.System

/-!
# Wake-ups by interrupt handlers

A handler that stores a byte, or takes one, wakes the thread that waits for it. `thread_unblock`
leaves the preemption to its caller, and `signal` does not ask for one, so the interrupt returns to
the thread it came to, whatever the priority of the woken thread.

* `Interrupt.wakes` — the threads that a handler will wake, read off the queues before it runs. The
  loops of `serial_interrupt` wake at most one thread each: the first byte empties the member, and
  the later ones find nobody;
* `handle_woke` — the handler puts these threads into the ready heap and changes nothing else that
  the scheduler looks at.
-/

namespace Pintos

open Transition

/-- Whom the handler of an interrupt wakes. -/
def Interrupt.wakes (b : Board) : Interrupt → List Tid
  | .keyboard _ => if (b.queues inputQueue).full then [] else (b.queues inputQueue).notEmpty.toList
  | .serial rx thre =>
    (if rx = [] ∨ (b.queues inputQueue).full then [] else
      (b.queues inputQueue).notEmpty.toList) ++
    if thre = 0 ∨ (b.queues txQueue).empty then [] else (b.queues txQueue).notFull.toList
  | .putc n _ => (b.queues (otherQueue n)).notEmpty.toList
  | .getc n => (b.queues (otherQueue n)).notFull.toList

/-- The threads of `l` enter the ready heap; the priorities and the CPU stay as they are. -/
structure Woke (k : Kernel) (l : List Tid) (k' : Kernel) : Prop where
  priority : ∀ t, (k'.threads t).priority = (k.threads t).priority
  running : k'.running = k.running
  ready : k'.readyHeap.items = (l : Multiset Tid) + k.readyHeap.items

section Woke

variable {k k' k₁ : Kernel} {b b' : Board} {l l' : List Tid} {q : QueueId} {c : UInt8}

theorem Woke.refl (k : Kernel) : Woke k [] k := ⟨fun _ => rfl, rfl, (zero_add _).symm⟩

theorem Woke.trans (h₁ : Woke k l k₁) (h₂ : Woke k₁ l' k') : Woke k (l ++ l') k' where
  priority t := (h₂.priority t).trans (h₁.priority t)
  running := h₂.running.trans h₁.running
  ready := by
    rw [h₂.ready, h₁.ready, ← Multiset.coe_add, ← add_assoc, add_comm (l' : Multiset Tid)]

theorem Wakes.woke {o : Option Tid} (h : Wakes k o k') : Woke k o.toList k' := by
  cases o with
  | none =>
    obtain rfl : k' = k := h
    exact .refl _
  | some t =>
    obtain ⟨ord, heap, rfl, hitems, -⟩ := pushReady_ok (threadUnblock_ok h).2
    exact ⟨apply_update_same Thread.priority rfl, rfl, hitems⟩

theorem putc_woke (h : intqPutc b q c = .ok b') :
    Woke b.kernel (b.queues q).notEmpty.toList b'.kernel := by
  obtain ⟨-, k', hwakes, rfl⟩ := intqPutc_ok h
  exact hwakes.woke

theorem getc_woke (h : intqGetc b q = .ok (c, b')) :
    Woke b.kernel (b.queues q).notFull.toList b'.kernel := by
  obtain ⟨-, -, k', hwakes, rfl⟩ := intqGetc_ok h
  exact hwakes.woke

/-- `input_putc` wakes the reader, leaves nobody in the member, and does not touch `txq`. -/
theorem inputPutc_woke (h : inputPutc b c = .ok b') :
    Woke b.kernel (b.queues inputQueue).notEmpty.toList b'.kernel ∧
      (b'.queues inputQueue).notEmpty = none ∧ b'.queues txQueue = b.queues txQueue := by
  unfold inputPutc at h
  split at h
  · cases h
  · obtain ⟨b₁, hput, h⟩ := bind_eq_ok.mp h
    cases h
    rw [serialNotify_kernel, serialNotify_queues]
    exact ⟨putc_woke hput, intqPutc_notEmpty hput, intqPutc_of_ne hput (by decide)⟩

/-- The receiving loop with no reader waiting. -/
theorem receive_woke_nil : ∀ {rx : List UInt8} {b : Board},
    (b.queues inputQueue).notEmpty = none → receive rx b = .ok b' →
    Woke b.kernel [] b'.kernel ∧ b'.queues txQueue = b.queues txQueue := by
  intro rx
  induction rx with
  | nil =>
    intro b _ h
    cases h
    exact ⟨.refl _, rfl⟩
  | cons c rx ih =>
    intro b hnone h
    unfold receive at h
    split at h
    · cases h
      exact ⟨.refl _, rfl⟩
    · obtain ⟨b₁, hput, h⟩ := bind_eq_ok.mp h
      obtain ⟨hwoke, hnone₁, htx₁⟩ := inputPutc_woke hput
      obtain ⟨hrest, htx⟩ := ih hnone₁ h
      rw [hnone] at hwoke
      exact ⟨hwoke.trans hrest, htx.trans htx₁⟩

theorem receive_woke {rx : List UInt8} (h : receive rx b = .ok b') :
    Woke b.kernel (if rx = [] ∨ (b.queues inputQueue).full then [] else
      (b.queues inputQueue).notEmpty.toList) b'.kernel ∧
      b'.queues txQueue = b.queues txQueue := by
  cases rx with
  | nil =>
    cases h
    rw [if_pos (.inl rfl)]
    exact ⟨.refl _, rfl⟩
  | cons c rx =>
    unfold receive at h
    split at h
    · next hfull =>
      cases h
      rw [if_pos (.inr hfull)]
      exact ⟨.refl _, rfl⟩
    · next hfull =>
      obtain ⟨b₁, hput, h⟩ := bind_eq_ok.mp h
      obtain ⟨hwoke, hnone, htx₁⟩ := inputPutc_woke hput
      obtain ⟨hrest, htx⟩ := receive_woke_nil hnone h
      rw [if_neg (by simpa using hfull)]
      have hall := hwoke.trans hrest
      rw [List.append_nil] at hall
      exact ⟨hall, htx.trans htx₁⟩

/-- The sending loop with nobody waiting for room. -/
theorem transmit_woke_nil : ∀ {n : ℕ} {b : Board}, (b.queues txQueue).notFull = none →
    transmit n b = .ok b' → Woke b.kernel [] b'.kernel := by
  intro n
  induction n with
  | zero =>
    intro b _ h
    cases h
    exact .refl _
  | succ n ih =>
    intro b hnone h
    unfold transmit at h
    split at h
    · cases h
      exact .refl _
    · obtain ⟨⟨c, b₁⟩, hget, h⟩ := bind_eq_ok.mp h
      have hwoke := getc_woke hget
      rw [hnone] at hwoke
      have hnone₁ : (b₁.queues txQueue).notFull = none := intqGetc_notFull hget
      exact hwoke.trans (ih (b := b₁.record (.thr c)) hnone₁ h)

theorem transmit_woke {n : ℕ} (h : transmit n b = .ok b') :
    Woke b.kernel (if n = 0 ∨ (b.queues txQueue).empty then [] else
      (b.queues txQueue).notFull.toList) b'.kernel := by
  cases n with
  | zero =>
    cases h
    rw [if_pos (.inl rfl)]
    exact .refl _
  | succ n =>
    unfold transmit at h
    split at h
    · next hempty =>
      cases h
      rw [if_pos (.inr hempty)]
      exact .refl _
    · next hempty =>
      obtain ⟨⟨c, b₁⟩, hget, h⟩ := bind_eq_ok.mp h
      rw [if_neg (by simpa using hempty)]
      have hnone : (b₁.queues txQueue).notFull = none := intqGetc_notFull hget
      have hrest := transmit_woke_nil (b := b₁.record (.thr c)) hnone h
      have hall := (getc_woke hget).trans hrest
      rwa [List.append_nil] at hall

/-- **What a handler does to the scheduler.** -/
theorem handle_woke {i : Interrupt} (h : i.handle b = .ok b') :
    Woke b.kernel (i.wakes b) b'.kernel := by
  cases i with
  | keyboard c =>
    simp only [Interrupt.handle, keyboardInterrupt] at h
    unfold Interrupt.wakes
    dsimp only
    split at h
    · next hfull =>
      cases h
      rw [if_pos hfull]
      exact .refl _
    · next hfull =>
      rw [if_neg hfull]
      exact (inputPutc_woke h).1
  | serial rx thre =>
    obtain ⟨b₁, hrx, h⟩ := bind_eq_ok.mp h
    obtain ⟨b₂, htx, h⟩ := bind_eq_ok.mp h
    cases h
    obtain ⟨hwoke, hqueue⟩ := receive_woke hrx
    have hsend := transmit_woke htx
    rw [hqueue] at hsend
    exact hwoke.trans hsend
  | putc n c => exact putc_woke h
  | getc n =>
    obtain ⟨⟨c, b₁⟩, hget, h⟩ := bind_eq_ok.mp h
    cases h
    exact getc_woke hget

end Woke

/-- **When a wake-up needs no preemption.** After an external interrupt has been handled, the
running thread's priority is at least that of every ready thread if and only if this was so before,
and no thread that the handler wakes has a higher priority. -/
theorem interrupt_keeps_highest_iff {s s' : System} {i : Interrupt}
    (hs : systemStep s (.interrupt i) = .ok s') :
    (∀ t ∈ s'.board.kernel.readyHeap.items,
        (s'.board.kernel.threads t).priority ≤ s'.board.kernel.cur.priority) ↔
      (∀ t ∈ s.board.kernel.readyHeap.items,
        (s.board.kernel.threads t).priority ≤ s.board.kernel.cur.priority) ∧
      ∀ t ∈ i.wakes s.board,
        (s.board.kernel.threads t).priority ≤ s.board.kernel.cur.priority := by
  cases advance_of_step hs with
  | @interrupt _ b _ hb =>
    obtain ⟨hprio, hrun, hready⟩ := handle_woke hb
    have hcur : b.kernel.cur.priority = s.board.kernel.cur.priority := by
      unfold Kernel.cur
      rw [hrun, hprio]
    rw [hready, hcur]
    simp only [hprio, Multiset.mem_add, Multiset.mem_coe]
    constructor
    · exact fun h => ⟨fun t ht => h t (.inr ht), fun t ht => h t (.inl ht)⟩
    · exact fun h t ht => ht.elim (h.2 t) (h.1 t)

/-- Thread 2, of priority 20, waits for a key while the main thread runs with priority 31. -/
theorem interrupt_keeps_highest_iff_run : ∃ h s s',
    Run systemStep (fun _ _ => True) (systemBoot false (fun _ => 0) true) h s ∧
      systemStep s (.interrupt (.keyboard 65)) = .ok s' ∧ Interrupt.wakes s.board (.keyboard 65) = [2] ∧
      ∀ t ∈ s'.board.kernel.readyHeap.items,
        (s'.board.kernel.threads t).priority ≤ s'.board.kernel.cur.priority := by
  obtain ⟨h, s, s', hrun, hs, hp⟩ := exists_systemRun_step (fun _ _ => True) (fun _ _ => true)
    (fun _ _ _ => trivial) (systemBoot false (fun _ => 0) true)
    (Call.events (.threadCreate 20 true) 29 ++ Call.events (.threadSetPriority 10) 6 ++
      IoOp.inputGetc.sleepEvents ++ Call.events (.threadSetPriority 31) 5) (.interrupt (.keyboard 65))
    (fun s _ => decide (Interrupt.wakes s.board (.keyboard 65) = [2] ∧
      (∀ t ∈ s.board.kernel.readyHeap.items,
        (s.board.kernel.threads t).priority ≤ s.board.kernel.cur.priority) ∧
      (s.board.kernel.threads 2).priority ≤ s.board.kernel.cur.priority)) (by decide +kernel)
  obtain ⟨hwakes, hready, hprio⟩ := of_decide_eq_true hp
  refine ⟨h, s, s', hrun, hs, hwakes, (interrupt_keeps_highest_iff hs).mpr ⟨hready, ?_⟩⟩
  rw [hwakes]
  exact fun t ht => List.mem_singleton.mp ht ▸ hprio

/-- **A key wakes a higher thread, and a lower one goes on.** Thread 2, of priority 40, waits for a
key; the main thread, of priority 31, runs, and no thread is ready. When the keyboard's interrupt
has been handled, thread 2 is ready and the main thread still runs. -/
theorem key_wakes_without_preemption : ∃ h s s',
    Run systemStep (fun _ _ => True) (systemBoot false (fun _ => 0) true) h s ∧
      systemStep s (.interrupt (.keyboard 65)) = .ok s' ∧ s'.cur = s.cur ∧
      ∃ t ∈ s'.board.kernel.readyHeap.items,
        s'.board.kernel.cur.priority < (s'.board.kernel.threads t).priority := by
  obtain ⟨h, s, s', hrun, hs, hp⟩ := exists_systemRun_step (fun _ _ => True) (fun _ _ => true)
    (fun _ _ _ => trivial) (systemBoot false (fun _ => 0) true)
    (Call.events (.threadCreate 40 true) 30 ++ IoOp.inputGetc.sleepEvents) (.interrupt (.keyboard 65))
    (fun s s' => decide (s'.cur = s.cur ∧ 2 ∈ s'.board.kernel.readyHeap.items ∧
      s'.board.kernel.cur.priority < (s'.board.kernel.threads 2).priority)) (by decide +kernel)
  obtain ⟨hcur, hmem, hlt⟩ := of_decide_eq_true hp
  exact ⟨h, s, s', hrun, hs, hcur, 2, hmem, hlt⟩

end Pintos
