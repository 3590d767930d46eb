import Pintos.Devices.System

/-!
# No byte is lost, and the interrupts that move them stay enabled

Two results about the bytes in the queues, for every run of threads and interrupt handlers.

A queue is a bounded FIFO: what `intq_getc` has returned, followed by what the ring holds, is what
`intq_putc` has stored (`Kept`), by `RingBuffer.contents_put` and `RingBuffer.contents_get`.

The interrupt enable register of the serial port is right (`IerRight`) once `serial_init_queue` has
returned: the transmit interrupt is enabled when `txq` holds a byte, the receive interrupt when the
input buffer has room. Two accesses can make it wrong, a byte put into `txq` and a byte read from
the input buffer, and both are followed by `write_ier` before interrupts are on again.
`serial_flush` does not write the register, and need not: it leaves `txq` empty.
-/

namespace Pintos

open Transition Function List

/-! ### Reading the log -/

/-- The bytes that `intq_putc` has stored in a queue, the latest last. -/
def storedBytes (q : QueueId) (log : List Access) : List UInt8 :=
  log.filterMap fun
    | .stored q' c => if q' = q then some c else none
    | _ => none

/-- The bytes that `intq_getc` has returned from a queue, the latest last. -/
def returnedBytes (q : QueueId) (log : List Access) : List UInt8 :=
  log.filterMap fun
    | .returned q' c => if q' = q then some c else none
    | _ => none

/-- The bytes that have been written to the transmitter holding register, the latest last. -/
def sentBytes (log : List Access) : List UInt8 :=
  log.filterMap fun
    | .thr c => some c
    | _ => none

/-- The value written last to the interrupt enable register. -/
def lastIer (log : List Access) : Option UInt8 :=
  (log.filterMap fun
    | .ier v => some v
    | _ => none).getLast?

/-- The bytes between `tail` and `head`, in ring order. -/
def Intq.contents (x : Intq) : List UInt8 := RingBuffer.contents intqBufsize x.buf x.tail x.head

section Log

variable {q : QueueId} {c : UInt8} {v : UInt8} {log new : List Access}

theorem storedBytes_append : storedBytes q (log ++ new) = storedBytes q log ++ storedBytes q new :=
  filterMap_append

theorem returnedBytes_append :
    returnedBytes q (log ++ new) = returnedBytes q log ++ returnedBytes q new :=
  filterMap_append

theorem sentBytes_append : sentBytes (log ++ new) = sentBytes log ++ sentBytes new :=
  filterMap_append

theorem lastIer_ier : lastIer (log ++ [.ier v]) = some v := by
  unfold lastIer
  rw [filterMap_append]
  exact List.getLast?_concat

theorem lastIer_of_ne {a : Access} (h : ∀ v, a ≠ .ier v) : lastIer (log ++ [a]) = lastIer log := by
  unfold lastIer
  rw [filterMap_append]
  cases a with
  | ier v => exact absurd rfl (h v)
  | _ => exact congrArg List.getLast? (append_nil _)

end Log

/-! ### A queue is a bounded FIFO -/

/-- The positions of a queue are in range, and no byte of it is lost or invented. -/
structure Kept (b : Board) (q : QueueId) : Prop where
  head : (b.queues q).head < intqBufsize
  tail : (b.queues q).tail < intqBufsize
  bytes : returnedBytes q b.log ++ (b.queues q).contents = storedBytes q b.log

section Kept

variable {b b' : Board} {q q' : QueueId} {c : UInt8}

theorem Intq.contents_eq_nil_iff {x : Intq} (hh : x.head < intqBufsize) (ht : x.tail < intqBufsize) :
    x.contents = [] ↔ x.empty = true := by
  unfold Intq.contents Intq.empty
  rw [RingBuffer.contents_eq_nil_iff ht hh, beq_iff_eq]

theorem Intq.contents_of_zero {x : Intq} (hh : x.head = 0) (ht : x.tail = 0) :
    x.contents = [] := by
  refine (Intq.contents_eq_nil_iff (by rw [hh]; decide) (by rw [ht]; decide)).mpr ?_
  unfold Intq.empty
  rw [hh, ht]
  rfl

/-- The byte that is read is the first of the queue. -/
theorem intqGetc_contents (hh : (b.queues q).head < intqBufsize)
    (ht : (b.queues q).tail < intqBufsize) (hget : intqGetc b q = .ok (c, b')) :
    (b.queues q).contents = c :: (b'.queues q).contents := by
  obtain ⟨hempty, rfl, k', -, rfl⟩ := intqGetc_ok hget
  dsimp only
  rw [update_self]
  exact RingBuffer.contents_get ht hh (beq_eq_false_iff_ne.mp hempty)

/-- A queue keeps its bytes when neither it nor its part of the log changes. -/
theorem Kept.frame (h : Kept b q) (hq : b'.queues q = b.queues q)
    (hret : returnedBytes q b'.log = returnedBytes q b.log)
    (hsto : storedBytes q b'.log = storedBytes q b.log) : Kept b' q where
  head := by rw [hq]; exact h.head
  tail := by rw [hq]; exact h.tail
  bytes := by rw [hq, hret, hsto]; exact h.bytes

theorem Kept.getc (h : ∀ q, Kept b q) (hget : intqGetc b q = .ok (c, b')) (q' : QueueId) :
    Kept b' q' := by
  obtain ⟨hempty, rfl, k', -, rfl⟩ := intqGetc_ok hget
  by_cases hq : q' = q
  · subst hq
    obtain ⟨hh, ht, hbytes⟩ := h q'
    have hfirst := intqGetc_contents hh ht hget
    refine ⟨?_, ?_, ?_⟩
    · dsimp only
      rw [update_self]
      exact hh
    · dsimp only
      rw [update_self]
      exact RingBuffer.next_lt (by decide) _
    · rw [hfirst] at hbytes
      rw [returnedBytes_append, storedBytes_append, ← hbytes, append_assoc, append_assoc]
      simp [returnedBytes, storedBytes]
  · refine (h q').frame (update_of_ne hq _ _) ?_ ?_
    · rw [returnedBytes_append]
      simp [returnedBytes, Ne.symm hq]
    · rw [storedBytes_append]
      exact append_nil _

theorem Kept.putc (h : ∀ q, Kept b q) (hput : intqPutc b q c = .ok b') (q' : QueueId) :
    Kept b' q' := by
  obtain ⟨hfull, k', -, rfl⟩ := intqPutc_ok hput
  by_cases hq : q' = q
  · subst hq
    obtain ⟨hh, ht, hbytes⟩ := h q'
    have hne : RingBuffer.next intqBufsize (b.queues q').head ≠ (b.queues q').tail :=
      beq_eq_false_iff_ne.mp hfull
    refine ⟨?_, ?_, ?_⟩ <;> dsimp only <;> rw [update_self]
    · exact RingBuffer.next_lt (by decide) _
    · exact ht
    · rw [returnedBytes_append, storedBytes_append, ← hbytes]
      change (_ ++ []) ++ RingBuffer.contents _ (update _ _ _) _
        (RingBuffer.next intqBufsize _) = (_ ++ RingBuffer.contents _ _ _ _) ++
          (if q' = q' then some c else none).toList
      rw [if_pos rfl, RingBuffer.contents_put ht hh hne, append_nil, append_assoc]
      rfl
  · refine (h q').frame (update_of_ne hq _ _) ?_ ?_
    · rw [returnedBytes_append]
      exact append_nil _
    · rw [storedBytes_append]
      simp [storedBytes, Ne.symm hq]

theorem Kept.out (h : Kept b q) {a : Access} (ha : (∃ c, a = .thr c) ∨ ∃ v, a = .ier v) :
    Kept (b.record a) q := by
  refine h.frame rfl ?_ ?_
  · unfold Board.record
    rw [returnedBytes_append]
    rcases ha with ⟨c, rfl⟩ | ⟨v, rfl⟩ <;> exact append_nil _
  · unfold Board.record
    rw [storedBytes_append]
    rcases ha with ⟨c, rfl⟩ | ⟨v, rfl⟩ <;> exact append_nil _

theorem Kept.ier (h : Kept b q) : Kept (writeIer b) q := h.out (.inr ⟨_, rfl⟩)

theorem Kept.does (h : ∀ q, Kept b q) (hd : Does b b') (q : QueueId) : Kept b' q := by
  cases hd with
  | getc hget => exact Kept.getc h hget q
  | send hget => exact (Kept.getc h hget q).out (.inl ⟨_, rfl⟩)
  | putc _ hput => exact Kept.putc h hput q
  | ier => exact (h q).ier

/-- The loop of `serial_flush` comes to its end: `txq` holds less than the buffer's size. -/
theorem transmit_txEmpty : ∀ {n : ℕ} {b : Board}, (∀ q, Kept b q) →
    (b.queues txQueue).contents.length ≤ n → transmit n b = .ok b' →
    (b'.queues txQueue).empty = true := by
  intro n
  induction n with
  | zero =>
    intro b hk hn h
    cases h
    refine (Intq.contents_eq_nil_iff (hk _).head (hk _).tail).mp ?_
    exact eq_nil_of_length_eq_zero (Nat.le_zero.mp hn)
  | succ n ih =>
    intro b hk hn h
    unfold transmit at h
    split at h
    · next hempty =>
      cases h
      exact hempty
    · obtain ⟨⟨c, b₁⟩, hget, h⟩ := bind_eq_ok.mp h
      refine ih (fun q => (Kept.getc hk hget q).out (.inl ⟨c, rfl⟩)) ?_ h
      rw [intqGetc_contents (hk _).head (hk _).tail hget] at hn
      exact Nat.le_of_succ_le_succ hn

theorem serialFlush_txEmpty (h : ∀ q, Kept b q) (hf : serialFlush b = .ok b') :
    (b'.queues txQueue).empty = true := by
  refine transmit_txEmpty h ?_ hf
  unfold Intq.contents
  rw [RingBuffer.length_contents]
  exact (RingBuffer.span_lt (by decide)).le

end Kept

/-! ### The mode of the serial port -/

section Mode

variable {b b' : Board} {q q' : QueueId} {c : UInt8}

/-- The handlers put nothing into `txq`. -/
theorem Does.txEmpty (h : Does b b') (hempty : (b.queues txQueue).empty = true) :
    (b'.queues txQueue).empty = true := by
  cases h with
  | getc hget => rwa [intqGetc_of_ne hget (otherQueue_ne_tx _).symm]
  | send hget =>
    rw [(intqGetc_ok hget).1] at hempty
    cases hempty
  | putc hq hput => rwa [intqPutc_of_ne hput hq.symm]
  | ier => exact hempty

theorem Drives.txEmpty (h : Drives b b') (hempty : (b.queues txQueue).empty = true) :
    (b'.queues txQueue).empty = true :=
  h.keeps (I := fun b => (b.queues txQueue).empty = true) hempty fun _ _ hI hd => hd.txEmpty hI

theorem perform_mode {op : IoOp} (h : op.perform b = .ok b') : b'.mode = b.mode := by
  obtain ⟨b₁, ⟨-, c, hget⟩ | ⟨-, c, hput⟩, hd⟩ := IoOp.perform_ok h
  · exact hd.mode.trans (intqGetc_mode hget)
  · exact hd.mode.trans (intqPutc_mode hput)

theorem perform_txEmpty {op : IoOp} (h : op.perform b = .ok b') (hop : ∀ c, op ≠ .serialPutc c)
    (hempty : (b.queues txQueue).empty = true) : (b'.queues txQueue).empty = true := by
  have hq : txQueue ≠ op.queue := fun heq =>
    (IoOp.queue_eq_tx heq.symm).elim hop
  obtain ⟨b₁, ⟨-, c, hget⟩ | ⟨-, c, hput⟩, hd⟩ := IoOp.perform_ok h
  · exact hd.txEmpty (by rwa [intqGetc_of_ne hget hq])
  · exact hd.txEmpty (by rwa [intqPutc_of_ne hput hq])

theorem Kept.drives (h : ∀ q, Kept b q) (hd : Drives b b') : ∀ q, Kept b' q :=
  hd.keeps (I := fun b => ∀ q, Kept b q) h fun _ _ hI hd => Kept.does hI hd

theorem Kept.perform {op : IoOp} (h : ∀ q, Kept b q) (hp : op.perform b = .ok b') :
    ∀ q, Kept b' q := by
  obtain ⟨b₁, ⟨-, c, hget⟩ | ⟨-, c, hput⟩, hd⟩ := IoOp.perform_ok hp
  · exact Kept.drives (Kept.getc h hget) hd
  · exact Kept.drives (Kept.putc h hput) hd

/-- Setting the port up for polling empties `txq`, which is empty then. -/
theorem polled_txEmpty (h : (b.queues txQueue).empty = true) :
    (b.polled.queues txQueue).empty = true := by
  unfold Board.polled
  split
  · simp [initPoll, Intq.init, Intq.empty]
  · exact h

theorem Kept.polled (h : Kept b q) (hempty : (b.queues txQueue).empty = true) :
    Kept b.polled q := by
  unfold Board.polled
  split
  · have hlog : Kept (b.record (.ier 0)) q := h.out (.inr ⟨0, rfl⟩)
    by_cases hq : q = txQueue
    · subst hq
      have hnil := (Intq.contents_eq_nil_iff h.head h.tail).mpr hempty
      have hbytes := hlog.bytes
      refine ⟨?_, ?_, ?_⟩ <;> unfold initPoll <;> dsimp only <;> rw [update_self]
      · exact (by decide : 0 < intqBufsize)
      · exact (by decide : 0 < intqBufsize)
      · rw [show (b.record (.ier 0)).queues txQueue = b.queues txQueue from rfl, hnil] at hbytes
        rw [Intq.contents_of_zero (x := (b.queues txQueue).init) rfl rfl]
        exact hbytes
    · exact hlog.frame (update_of_ne hq _ _) rfl rfl
  · exact h

end Mode

/-! ### All runs -/

/-- What holds of the bytes in every run. -/
structure Bytes (s : System) : Prop where
  kept : ∀ q, Kept s.board q
  /-- `serial_putc` comes to `txq` in queue mode only. -/
  queued : ∀ t c st, s.io t = some (.access (.serialPutc c) st) → s.board.mode = .queue
  drained : s.board.mode ≠ .queue → (s.board.queues txQueue).empty = true

section Runs

variable {s s' : System} {e : SystemEvent}

theorem Bytes.boot (mlfqs : Bool) (v : ℕ → ℕ) (polled : Bool) :
    Bytes (systemBoot mlfqs v polled) where
  kept _ := ⟨(by decide : 0 < intqBufsize), (by decide : 0 < intqBufsize),
    Intq.contents_of_zero rfl rfl⟩
  queued _ _ _ h := nomatch h
  drained _ := rfl

/-- A thread that does not come from elsewhere to `serial_putc`. -/
theorem Bytes.setIo (h : Bytes s) (t : Tid) (c : Option IoCtl)
    (hc : ∀ x st, c = some (.access (.serialPutc x) st) → s.board.mode = .queue) :
    Bytes (s.setIo t c) where
  kept := h.kept
  queued u x st hu := by
    change update s.io t c u = _ at hu
    by_cases hut : u = t
    · rw [hut, update_self] at hu
      exact hc x st hu
    · rw [update_of_ne hut] at hu
      exact h.queued u x st hu
  drained := h.drained

/-- The board changes, and the mode does not. -/
theorem Bytes.setBoard (h : Bytes s) {b : Board} (hkept : ∀ q, Kept b q)
    (hmode : b.mode = s.board.mode)
    (hempty : s.board.mode ≠ .queue → (b.queues txQueue).empty = true) :
    Bytes { s with board := b } where
  kept := hkept
  queued t c st ht := hmode.trans (h.queued t c st ht)
  drained hm := hempty fun heq => hm (hmode.trans heq)

theorem Bytes.drives (h : Bytes s) {b : Board} (hd : Drives s.board b) :
    Bytes { s with board := b } :=
  h.setBoard (Kept.drives h.kept hd)
    hd.mode fun hm => hd.txEmpty (h.drained hm)

theorem Bytes.setMachine (h : Bytes s) (m : Machine) : Bytes (s.setMachine m) where
  kept q := (h.kept q).frame rfl rfl rfl
  queued := h.queued
  drained := h.drained

theorem Bytes.advance (h : Bytes s) (ha : Advance s e s') : Bytes s' := by
  cases ha with
  | kernel _ _ => exact h.setMachine _
  | level => exact ⟨h.kept, h.queued, h.drained⟩
  | enter _ _ hd hmode =>
    refine (h.drives hd).setIo _ _ fun x st heq => hd.mode.trans ?_
    exact hmode x (IoCtl.access.inj (Option.some.inj heq)).1
  | @poll c _ _ hmode =>
    have hempty := h.drained hmode
    refine ⟨fun q => ((h.kept q).polled hempty).out (.inl ⟨c, rfl⟩), fun t x st ht => ?_,
      fun _ => polled_txEmpty hempty⟩
    exact absurd (h.queued t x st ht) hmode
  | flush _ _ hb => exact h.drives (.transmit hb)
  | init _ _ hmode =>
    refine Bytes.setIo ⟨fun q => ?_, fun _ _ _ _ => rfl, fun hm => absurd rfl hm⟩ _ _
      fun _ _ heq => nomatch heq
    exact ((h.kept q).polled (h.drained hmode)).frame rfl rfl rfl
  | @perform op b _ hio _ hp =>
    refine (h.setBoard (Kept.perform h.kept hp) (perform_mode hp) fun hm => ?_).setIo _ _
      fun _ _ heq => nomatch heq
    refine perform_txEmpty hp (fun c hop => hm ?_) (h.drained hm)
    exact h.queued s.cur c .test (hop ▸ hio)
  | lock _ hio =>
    refine (h.setIo _ _ fun x st heq => ?_).setMachine _
    exact h.queued s.cur x .test ((IoCtl.access.inj (Option.some.inj heq)).1 ▸ hio)
  | @wait op k _ hio =>
    refine (h.setBoard (b := { s.board with
      kernel := k
      queues := update s.board.queues op.queue
        ((s.board.queues op.queue).setWaiter op.waits (some s.cur)) })
      (fun q => ?_) rfl fun hm => ?_).setIo _ _ fun x st heq => ?_
    · by_cases hq : q = op.queue
      · subst hq
        refine ⟨?_, ?_, ?_⟩ <;> dsimp only <;> rw [update_self]
        · rw [Intq.setWaiter_head]
          exact (h.kept _).head
        · rw [Intq.setWaiter_tail]
          exact (h.kept _).tail
        · unfold Intq.contents
          rw [Intq.setWaiter_buf, Intq.setWaiter_head, Intq.setWaiter_tail]
          exact (h.kept _).bytes
      · exact (h.kept q).frame (update_of_ne hq _ _) rfl rfl
    · dsimp only
      by_cases hq : txQueue = op.queue
      · rw [hq, update_self, Intq.setWaiter_empty, ← hq]
        exact h.drained hm
      · rw [update_of_ne hq]
        exact h.drained hm
    · exact h.queued s.cur x .wait ((IoCtl.access.inj (Option.some.inj heq)).1 ▸ hio)
  | release _ hio =>
    refine (h.setIo _ _ fun x st heq => ?_).setMachine _
    exact h.queued s.cur x .release ((IoCtl.access.inj (Option.some.inj heq)).1 ▸ hio)
  | notify => exact (h.drives (.single .ier)).setIo _ _ fun _ _ heq => nomatch heq
  | interrupt _ hb => exact h.drives (.handle hb)

theorem Bytes.step (h : Bytes s) (hs : systemStep s e = .ok s') : Bytes s' :=
  h.advance (advance_of_step hs)

end Runs

/-- **An interrupt queue is a bounded FIFO.** In every run of threads and interrupt handlers, the
positions of a queue stay in the buffer, the queue holds at most 63 bytes, and the bytes that have
been returned, followed by those between `tail` and `head`, are the bytes that have been stored. -/
theorem intq_bounded_fifo {G : Guard System SystemEvent} {mlfqs polled : Bool} {v : ℕ → ℕ}
    {h : List (System × SystemEvent)} {s : System}
    (hrun : Run systemStep G (systemBoot mlfqs v polled) h s) (q : QueueId) :
    (s.board.queues q).head < intqBufsize ∧ (s.board.queues q).tail < intqBufsize ∧
      (s.board.queues q).contents.length ≤ intqBufsize - 1 ∧
      returnedBytes q s.board.log ++ (s.board.queues q).contents = storedBytes q s.board.log := by
  have hbytes : Bytes s := hrun.invariant (.boot mlfqs v polled) fun _ _ _ hI _ hs => hI.step hs
  obtain ⟨hh, ht, hkept⟩ := hbytes.kept q
  refine ⟨hh, ht, Nat.le_sub_one_of_lt ?_, hkept⟩
  unfold Intq.contents
  rw [RingBuffer.length_contents]
  exact RingBuffer.span_lt (by decide)

/-- Two keys are pressed, and the main thread reads the first. -/
theorem intq_bounded_fifo_run : ∃ h s,
    Run systemStep (fun _ _ => True) (systemBoot false (fun _ => 0) true) h s ∧
      storedBytes inputQueue s.board.log = [65, 66] ∧
      (s.board.queues inputQueue).contents = [66] := by
  obtain ⟨h, s, hrun, hp⟩ := exists_systemRun (fun _ _ => True) (fun _ _ => true)
    (fun _ _ _ => trivial) (systemBoot false (fun _ => 0) true)
    [.interrupt (.keyboard 65), .interrupt (.keyboard 66), .call (.access .inputGetc), .io]
    (fun s => decide (storedBytes inputQueue s.board.log = [65, 66] ∧
      returnedBytes inputQueue s.board.log = [65])) (by decide +kernel)
  obtain ⟨hsto, hret⟩ := of_decide_eq_true hp
  have hkept := (intq_bounded_fifo hrun inputQueue).2.2.2
  rw [hsto, hret] at hkept
  exact ⟨h, s, hrun, hsto, append_cancel_left hkept⟩

/-! ### The interrupt enable register -/

/-- The register enables the interrupts that the queues need. -/
def IerRight (b : Board) : Prop :=
  ∃ v, lastIer b.log = some v ∧ ((b.queues txQueue).empty = false → v &&& ierXmit ≠ 0) ∧
    ((b.queues inputQueue).full = false → v &&& ierRecv ≠ 0)

section Ier

variable {b b' : Board} {c : UInt8}

/-- `write_ier` makes the register right. -/
theorem writeIer_right (b : Board) : IerRight (writeIer b) := by
  refine ⟨_, lastIer_ier, ?_⟩
  change ((b.queues txQueue).empty = false → _) ∧ ((b.queues inputQueue).full = false → _)
  cases (b.queues txQueue).empty <;> cases (b.queues inputQueue).full <;> decide

/-- The register stays right when `txq` gets no byte and the input buffer gets no room. -/
theorem IerRight.mono (h : IerRight b) (hlog : lastIer b'.log = lastIer b.log)
    (htx : (b'.queues txQueue).empty = false → (b.queues txQueue).empty = false)
    (hin : (b'.queues inputQueue).full = false → (b.queues inputQueue).full = false) :
    IerRight b' := by
  obtain ⟨v, hv, hx, hr⟩ := h
  exact ⟨v, hlog.trans hv, fun h => hx (htx h), fun h => hr (hin h)⟩

theorem IerRight.does (h : IerRight b) (hd : Does b b') : IerRight b' := by
  cases hd with
  | @getc n c _ hget =>
    refine h.mono ?_ ?_ ?_
    · obtain ⟨-, -, k', -, rfl⟩ := intqGetc_ok hget
      exact lastIer_of_ne (by simp)
    · rw [intqGetc_of_ne hget (otherQueue_ne_tx n).symm]
      exact id
    · rw [intqGetc_of_ne hget (otherQueue_ne_input n).symm]
      exact id
  | @send c b₁ hget =>
    refine h.mono ?_ (fun _ => (intqGetc_ok hget).1) ?_
    · obtain ⟨-, -, k', -, rfl⟩ := intqGetc_ok hget
      exact (lastIer_of_ne (by simp)).trans (lastIer_of_ne (by simp))
    · change (b₁.queues inputQueue).full = false → _
      rw [intqGetc_of_ne hget (by decide)]
      exact id
  | @putc q c _ hq hput =>
    refine h.mono ?_ ?_ fun hfull => ?_
    · obtain ⟨-, k', -, rfl⟩ := intqPutc_ok hput
      exact lastIer_of_ne (by simp)
    · rw [intqPutc_of_ne hput hq.symm]
      exact id
    · by_cases hin : inputQueue = q
      · rw [hin]
        exact (intqPutc_ok hput).1
      · rwa [intqPutc_of_ne hput hin] at hfull
  | ier => exact writeIer_right b

theorem IerRight.drives (h : IerRight b) (hd : Drives b b') : IerRight b' :=
  hd.keeps h fun _ _ hI hd => hI.does hd

/-- A call that has come through its loop leaves the register right, if it was. -/
theorem IerRight.perform {op : IoOp} (h : IerRight b) (hmode : b.mode = .queue)
    (hp : op.perform b = .ok b') : IerRight b' := by
  cases op with
  | intqGetc n =>
    obtain ⟨⟨c, b₁⟩, hget, hp⟩ := bind_eq_ok.mp hp
    cases hp
    exact h.does (.getc hget)
  | intqPutc n c => exact h.does (.putc (otherQueue_ne_tx n) hp)
  | inputGetc =>
    obtain ⟨⟨c, b₁⟩, hget, hp⟩ := bind_eq_ok.mp hp
    cases hp
    unfold serialNotify
    rw [if_pos ((intqGetc_mode hget).trans hmode)]
    exact writeIer_right b₁
  | serialPutc c =>
    obtain ⟨b₁, -, hp⟩ := bind_eq_ok.mp hp
    cases hp
    exact writeIer_right b₁

end Ier

/-! ### What goes out through the port -/

/-- Since the log was `L`, exactly the bytes taken out of `txq` have been sent. -/
def Echo (L log : List Access) : Prop :=
  ∃ new, log = L ++ new ∧ sentBytes new = returnedBytes txQueue new

section Echo

variable {b b' : Board} {c : UInt8} {q : QueueId} {L log : List Access}

theorem Echo.append (h : Echo L log) {a : List Access}
    (ha : sentBytes a = returnedBytes txQueue a) : Echo L (log ++ a) := by
  obtain ⟨new, rfl, hnew⟩ := h
  refine ⟨new ++ a, append_assoc .., ?_⟩
  rw [sentBytes_append, returnedBytes_append, hnew, ha]

theorem Echo.ier (h : Echo L b.log) : Echo L (writeIer b).log := h.append rfl

theorem Echo.getc (h : Echo L b.log) (hget : intqGetc b q = .ok (c, b')) (hq : q ≠ txQueue) :
    Echo L b'.log := by
  obtain ⟨-, -, k', -, rfl⟩ := intqGetc_ok hget
  refine h.append ?_
  simp [sentBytes, returnedBytes, hq]

theorem Echo.putc (h : Echo L b.log) (hput : intqPutc b q c = .ok b') : Echo L b'.log := by
  obtain ⟨-, k', -, rfl⟩ := intqPutc_ok hput
  exact h.append rfl

theorem Echo.does (h : Echo L b.log) (hd : Does b b') : Echo L b'.log := by
  cases hd with
  | getc hget => exact h.getc hget (otherQueue_ne_tx _)
  | send hget =>
    obtain ⟨-, -, k', -, rfl⟩ := intqGetc_ok hget
    change Echo L ((b.log ++ [_]) ++ [_])
    rw [append_assoc]
    exact h.append rfl
  | putc _ hput => exact h.putc hput
  | ier => exact h.ier

theorem Echo.drives (h : Echo L b.log) (hd : Drives b b') : Echo L b'.log :=
  hd.keeps (I := fun b => Echo L b.log) h fun _ _ hI hd => hI.does hd

theorem Echo.perform {op : IoOp} (h : Echo L b.log) (hp : op.perform b = .ok b') :
    Echo L b'.log := by
  obtain ⟨b₁, ⟨hw, c, hget⟩ | ⟨-, c, hput⟩, hd⟩ := IoOp.perform_ok hp
  · refine (h.getc hget fun hq => ?_).drives hd
    obtain ⟨x, rfl⟩ := IoOp.queue_eq_tx hq
    exact absurd hw (by simp [IoOp.waits])
  · exact (h.putc hput).drives hd

end Echo

/-! ### Runs in queue mode -/

/-- What holds from the moment on when thread `u` sets the mode in `serial_init_queue`, with the
log `L` then. -/
structure Ported (u : Tid) (L : List Access) (s : System) : Prop where
  mode : s.board.mode = .queue
  ier : IerRight s.board ∨ s.io u = some .initQueue
  echo : Echo L s.board.log

section Ported

variable {u : Tid} {L : List Access} {s s' : System} {e : SystemEvent}

/-- A thread that is not in `serial_init_queue` goes on in its driver. -/
theorem Ported.setIo (h : Ported u L s) {t : Tid} (ht : s.io t ≠ some .initQueue)
    (c : Option IoCtl) : Ported u L (s.setIo t c) where
  mode := h.mode
  ier := h.ier.imp id fun hu => by
    have hne : u ≠ t := by
      rintro rfl
      exact ht hu
    exact (update_of_ne hne _ _).trans hu
  echo := h.echo

theorem Ported.setBoard (h : Ported u L s) {b : Board} (hmode : b.mode = s.board.mode)
    (hier : IerRight s.board → IerRight b) (hecho : Echo L b.log) :
    Ported u L { s with board := b } where
  mode := hmode.trans h.mode
  ier := h.ier.imp hier id
  echo := hecho

theorem Ported.drives (h : Ported u L s) {b : Board} (hd : Drives s.board b) :
    Ported u L { s with board := b } :=
  h.setBoard hd.mode (fun hi => hi.drives hd) (h.echo.drives hd)

theorem Ported.setMachine (h : Ported u L s) (m : Machine) : Ported u L (s.setMachine m) :=
  ⟨h.mode, h.ier, h.echo⟩

theorem Ported.advance (h : Ported u L s) (ha : Advance s e s') : Ported u L s' := by
  have hcur : ∀ c, s.io s.cur = c → c ≠ some .initQueue → s.io s.cur ≠ some .initQueue :=
    fun c hc hne => hc ▸ hne
  cases ha with
  | kernel _ _ => exact h.setMachine _
  | level => exact ⟨h.mode, h.ier, h.echo⟩
  | enter _ hio hd _ => exact (h.drives hd).setIo (hcur _ hio (by simp)) _
  | poll _ _ hmode | init _ _ hmode => exact absurd h.mode hmode
  | flush _ _ hb => exact h.drives (.transmit hb)
  | perform _ hio _ hp =>
    exact (h.setBoard (perform_mode hp) (fun hi => hi.perform h.mode hp)
      (h.echo.perform hp)).setIo (hcur _ hio (by simp)) _
  | lock _ hio => exact (h.setIo (hcur _ hio (by simp)) _).setMachine _
  | @wait op k _ hio =>
    -- a stored waiter changes neither the bytes of its queue nor the log
    have hstored : ∀ q, (update s.board.queues op.queue
        ((s.board.queues op.queue).setWaiter op.waits (some s.cur)) q).empty
          = (s.board.queues q).empty ∧ (update s.board.queues op.queue
        ((s.board.queues op.queue).setWaiter op.waits (some s.cur)) q).full
          = (s.board.queues q).full := by
      intro q
      by_cases hq : q = op.queue
      · rw [hq, update_self, Intq.setWaiter_empty, Intq.setWaiter_full]
        exact ⟨rfl, rfl⟩
      · rw [update_of_ne hq]
        exact ⟨rfl, rfl⟩
    refine Ported.setIo (s := { s with board := { s.board with
      kernel := k
      queues := update s.board.queues op.queue
        ((s.board.queues op.queue).setWaiter op.waits (some s.cur)) } }) ?_
      (hcur _ hio (by simp)) _
    refine h.setBoard rfl (fun hi => hi.mono rfl ?_ ?_) h.echo
    · rw [(hstored txQueue).1]
      exact id
    · rw [(hstored inputQueue).2]
      exact id
  | release _ hio => exact (h.setIo (hcur _ hio (by simp)) _).setMachine _
  | notify => exact ⟨h.mode, .inl (writeIer_right _), h.echo.ier⟩
  | interrupt _ hb => exact h.drives (.handle hb)

/-- In queue mode nobody comes to `serial_init_queue` any more. -/
theorem Advance.initQueue (ha : Advance s e s') (hmode : s.board.mode = .queue)
    (hu : s'.io u = some .initQueue) : s.io u = some .initQueue := by
  have hset : ∀ c, c ≠ some IoCtl.initQueue →
      update s.io s.cur c u = some .initQueue → s.io u = some .initQueue := by
    intro c hc hu
    by_cases hcur : u = s.cur
    · rw [hcur, update_self] at hu
      exact absurd hu hc
    · rwa [update_of_ne hcur] at hu
  cases ha with
  | kernel | level | flush | interrupt => exact hu
  | enter | perform | lock | wait | release | notify => exact hset _ (by simp) hu
  | poll _ _ hne | init _ _ hne => exact absurd hmode hne

/-- From the call of `serial_init_queue` on. -/
theorem Ported.of_init (hs : systemStep s (.call .serialInitQueue) = .ok s') :
    s.board.mode ≠ .queue ∧ s'.board.queues = s.board.polled.queues ∧
      Ported s.cur s'.board.log s' := by
  cases advance_of_step hs with
  | level _ _ hc => exact absurd hc (by simp)
  | init _ _ hmode =>
    exact ⟨hmode, rfl, rfl, .inr (update_self ..), [], (append_nil _).symm, rfl⟩

end Ported

/-- **The register follows the queues, and no byte stays behind.** Let a thread call
`serial_init_queue` in a run, reaching `s₁` when it sets the mode, and let it have returned by the
time of `s₂`. From then on, in every state `s`, the transmit interrupt is enabled if `txq` is not
empty, and the receive interrupt if the input buffer is not full. The bytes sent since `s₁` are
followed in `txq` by the rest of the bytes enqueued since `s₁`; and the bytes sent since `s₂` are
followed in `txq` by the rest of what was in `txq` then and has been enqueued since. -/
theorem serial_follows_queues {G : Guard System SystemEvent} {mlfqs polled : Bool} {v : ℕ → ℕ}
    {h₀ h₁ h₂ : List (System × SystemEvent)} {s₀ s₁ s₂ s : System}
    (hrun₀ : Run systemStep G (systemBoot mlfqs v polled) h₀ s₀)
    (hinit : systemStep s₀ (.call .serialInitQueue) = .ok s₁)
    (hrun₁ : Run systemStep G s₁ h₁ s₂) (hret : s₂.io s₀.cur ≠ some .initQueue)
    (hrun₂ : Run systemStep G s₂ h₂ s) :
    (∃ x, lastIer s.board.log = some x ∧
      ((s.board.queues txQueue).empty = false → x &&& ierXmit ≠ 0) ∧
      ((s.board.queues inputQueue).full = false → x &&& ierRecv ≠ 0)) ∧
    ∃ mid new, s₂.board.log = s₁.board.log ++ mid ∧ s.board.log = s₂.board.log ++ new ∧
      sentBytes (mid ++ new) ++ (s.board.queues txQueue).contents
        = storedBytes txQueue (mid ++ new) ∧
      sentBytes new ++ (s.board.queues txQueue).contents
        = (s₂.board.queues txQueue).contents ++ storedBytes txQueue new := by
  have hstep : ∀ (L : List Access) (s : System) (e : SystemEvent) (s' : System),
      (Bytes s ∧ Ported s₀.cur L s) → systemStep s e = .ok s' →
        Bytes s' ∧ Ported s₀.cur L s' := fun L s e s' hI hs =>
    ⟨hI.1.step hs, hI.2.advance (advance_of_step hs)⟩
  have hbytes₀ : Bytes s₀ := hrun₀.invariant (.boot mlfqs v polled) fun _ _ _ hI _ hs => hI.step hs
  obtain ⟨hmode, hqueues, hport₁⟩ := Ported.of_init hinit
  have hbytes₁ := hbytes₀.step hinit
  obtain ⟨hbytes₂, hport₂⟩ := hrun₁.invariant
    (I := fun s => Bytes s ∧ Ported s₀.cur s₁.board.log s) ⟨hbytes₁, hport₁⟩
    fun _ _ _ hI _ hs => hstep _ _ _ _ hI hs
  obtain ⟨mid, hmid, hecho⟩ := hport₂.echo
  obtain ⟨⟨hbytes, hport⟩, hdone⟩ := hrun₂.invariant
    (I := fun s => (Bytes s ∧ Ported s₀.cur s₂.board.log s) ∧ s.io s₀.cur ≠ some .initQueue)
    ⟨⟨hbytes₂, hport₂.mode, hport₂.ier, [], (append_nil _).symm, rfl⟩, hret⟩
    fun _ _ _ hI _ hs => ⟨hstep _ _ _ _ hI.1 hs, fun hu =>
      hI.2 ((advance_of_step hs).initQueue hI.1.2.mode hu)⟩
  refine ⟨hport.ier.resolve_right hdone, ?_⟩
  obtain ⟨new, hnew, hecho'⟩ := hport.echo
  -- the three states of the queue, each as the difference of the two logs
  have hkept₁ := (hbytes₁.kept txQueue).bytes
  have hkept₂ := (hbytes₂.kept txQueue).bytes
  have hkept := (hbytes.kept txQueue).bytes
  have hempty : (s₁.board.queues txQueue).contents = [] := by
    refine (Intq.contents_eq_nil_iff (hbytes₁.kept _).head (hbytes₁.kept _).tail).mpr ?_
    rw [hqueues]
    exact polled_txEmpty (hbytes₀.drained hmode)
  rw [hempty, append_nil] at hkept₁
  refine ⟨mid, new, hmid, hnew, ?_, ?_⟩
  · rw [hnew, hmid, append_assoc, returnedBytes_append, storedBytes_append, hkept₁,
      append_assoc] at hkept
    have hsent : sentBytes (mid ++ new) = returnedBytes txQueue (mid ++ new) := by
      rw [sentBytes_append, returnedBytes_append, hecho, hecho']
    rw [hsent]
    exact append_cancel_left hkept
  · rw [hnew, returnedBytes_append, storedBytes_append, ← hkept₂, append_assoc,
      append_assoc] at hkept
    rw [hecho']
    exact append_cancel_left hkept

/-- The main thread sets the queue mode and sends two bytes, and the port takes the first. -/
theorem serial_follows_queues_run : ∃ s₁ h₁ s₂ h₂ s,
    systemStep (systemBoot false (fun _ => 0) true) (.call .serialInitQueue) = .ok s₁ ∧
      Run systemStep (fun _ _ => True) s₁ h₁ s₂ ∧ s₂.io 0 ≠ some .initQueue ∧
      Run systemStep (fun _ _ => True) s₂ h₂ s ∧ (s.board.queues txQueue).empty = false ∧
      ∃ x, lastIer s.board.log = some x ∧ x &&& ierXmit ≠ 0 := by
  obtain ⟨s₁, hinit, hplay⟩ : ∃ s₁,
      systemStep (systemBoot false (fun _ => 0) true) (.call .serialInitQueue) = .ok s₁ ∧
        (play systemStep (fun _ _ => true) s₁ [.io]).any (fun r => decide (r.2.io 0 = none) &&
          (play systemStep (fun _ _ => true) r.2
            [.call (.access (.serialPutc 72)), .io, .call (.access (.serialPutc 73)), .io,
              .interrupt (.serial [] 1)]).any
            fun r => decide ((r.2.board.queues txQueue).empty = false)) = true :=
    ⟨_, rfl, by decide +kernel⟩
  obtain ⟨h₁, s₂, hrun₁, hp⟩ := exists_systemRun (fun _ _ => True) (fun _ _ => true)
    (fun _ _ _ => trivial) s₁ [.io]
    (fun s => decide (s.io 0 = none) &&
      (play systemStep (fun _ _ => true) s
        [.call (.access (.serialPutc 72)), .io, .call (.access (.serialPutc 73)), .io,
          .interrupt (.serial [] 1)]).any
        fun r => decide ((r.2.board.queues txQueue).empty = false)) hplay
  obtain ⟨hio, hplay⟩ := Bool.and_eq_true_iff.mp hp
  have hret : s₂.io 0 ≠ some .initQueue := by
    rw [of_decide_eq_true hio]
    simp
  obtain ⟨h₂, s, hrun₂, hp⟩ := exists_systemRun (fun _ _ => True) (fun _ _ => true)
    (fun _ _ _ => trivial) s₂ _ (fun s => decide ((s.board.queues txQueue).empty = false)) hplay
  have hempty := of_decide_eq_true hp
  obtain ⟨⟨x, hx, hxmit, -⟩, -⟩ := serial_follows_queues .refl hinit hrun₁ hret hrun₂
  exact ⟨s₁, h₁, s₂, h₂, s, hinit, hrun₁, hret, hrun₂, hempty, x, hx, hxmit hempty⟩

end Pintos
