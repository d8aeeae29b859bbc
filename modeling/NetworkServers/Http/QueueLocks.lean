import NetworkServers.Http.QueueRing

/-!
# The Mutex of the Queue

`safe_queue_dequeue` calls `safe_queue_resize` while it holds the mutex, and
`safe_queue_resize` locks the same mutex again. With the mutex that
`pthread_mutex_init` makes by default the caller then waits for itself. The
sequences along which this never happens are exactly those that never shrink.
-/

namespace NetworkServers.Queue

open NetworkServers.Machine

variable {α : Type}

/-- Along every prefix of the calls no thread waits for a mutex that it holds, and a
prefix that returns leaves the mutex free. -/
structure LockDiscipline (calls : List (ThreadId × Call α)) : Prop where
  never_relocks : ∀ pre, pre <+: calls →
    runAll (call .normal) pre safeQueueCreate ≠ .error .relock
  always_unlocks : ∀ pre, pre <+: calls → ∀ q outs,
    runAll (call .normal) pre safeQueueCreate = .ok (q, outs) → q.mutex = Mutex.free

/-- No dequeue of the sequence leaves a positive quarter of the capacity behind. -/
def NeverShrinks (calls : List (ThreadId × Call α)) : Prop :=
  ∀ pre self, pre ++ [(self, .dequeue)] <+: calls →
    ∀ q outs, runAll (call .normal) pre safeQueueCreate = .ok (q, outs) →
      ¬ ShrinkDue (q.size - 1) q.capacity

/-- Along a sequence that never shrinks every prefix returns. -/
theorem NeverShrinks.returns {calls pre : List (ThreadId × Call α)} {items outs : List α}
    (h : NeverShrinks calls) (hpre : pre <+: calls)
    (hfifo : runAll fifoCall pre [] = some (items, outs)) :
    ∃ q outs', runAll (call .normal) pre safeQueueCreate = .ok (q, outs') ∧ WellFormed q ∧
      q.mutex = Mutex.free ∧ q.size = items.length := by
  obtain hok | ⟨-, -, p, self, q, outs', hp, hrun, hshrink⟩ :=
    runAll_cases .normal pre items outs hfifo
  · exact hok
  · exact absurd hshrink (h p self (hp.trans hpre) q outs' hrun)

/-- **Lock discipline**: no call waits for a mutex that its thread holds, and every
returning call leaves the mutex free, exactly along the sequences in which no
dequeue asks for a shrink. -/
theorem lockDiscipline_iff (calls : List (ThreadId × Call α)) (hcalls : DequeuesOnlyQueued calls) :
    LockDiscipline calls ↔ NeverShrinks calls := by
  have hfifo : ∀ pre, pre <+: calls → ∃ items outs, runAll fifoCall pre [] = some (items, outs) := by
    intro pre hpre
    obtain ⟨⟨items, outs⟩, h⟩ :=
      Option.isSome_iff_exists.mp (runAll_isSome_left hpre hcalls)
    exact ⟨items, outs, h⟩
  constructor
  · intro h pre self hpre q outs hrun hshrink
    have hpre' : pre <+: calls := (List.prefix_append pre _).trans hpre
    obtain ⟨items, outs₁, hbefore⟩ := hfifo pre hpre'
    obtain ⟨q₁, outs₂, hrun₁, hq, hmutex, hsize⟩ | ⟨-, hstop, -⟩ :=
      runAll_cases .normal pre items outs₁ hbefore
    · rw [hrun, Except.ok.injEq, Prod.mk.injEq] at hrun₁
      obtain ⟨rfl, rfl⟩ := hrun₁
      have hpos : q.size ≠ 0 := by
        have := hshrink.1
        omega
      -- the dequeue behind `pre` would resize, and so lock what it holds
      apply h.never_relocks _ hpre
      simp [runAll_snoc, hrun, call, safeQueueDequeue_shrinkDue self hq hmutex hpos hshrink]
    · rw [hrun] at hstop
      cases hstop
  · intro h
    refine ⟨fun pre hpre hrelock => ?_, fun pre hpre q outs hrun => ?_⟩
    · obtain ⟨items, outs, hbefore⟩ := hfifo pre hpre
      obtain ⟨q, outs', hrun, -⟩ := h.returns hpre hbefore
      rw [hrun] at hrelock
      cases hrelock
    · obtain ⟨items, outs₁, hbefore⟩ := hfifo pre hpre
      obtain ⟨q₁, outs', hrun₁, -, hmutex, -⟩ := h.returns hpre hbefore
      rw [hrun, Except.ok.injEq, Prod.mk.injEq] at hrun₁
      rw [hrun₁.1, hmutex]

/-- A quarter of the ring is filled and emptied again: no dequeue leaves a quarter. -/
def quarterEmptied : List (ThreadId × Call ℕ) :=
  (List.range (initialCapacity / 4)).map (fun i => (0, .enqueue i)) ++
    List.replicate (initialCapacity / 4) (1, .dequeue)

theorem neverShrinks_quarterEmptied : NeverShrinks quarterEmptied := by
  have hkept : ∀ pre ∈ quarterEmptied.inits,
      ∀ s ∈ (runAll (call .normal) pre safeQueueCreate).toOption,
        ¬ShrinkDue (s.1.size - 1) s.1.capacity := by
    decide +kernel
  intro pre self hpre q outs hrun
  exact of_mem_inits (P := fun q => ¬ShrinkDue (q.size - 1) q.capacity) hkept
    ((List.prefix_append pre _).trans hpre) hrun

theorem lockDiscipline_iff_quarterEmptied :
    DequeuesOnlyQueued quarterEmptied ∧ LockDiscipline quarterEmptied :=
  have hcalls : DequeuesOnlyQueued quarterEmptied := by decide +kernel
  ⟨hcalls, (lockDiscipline_iff quarterEmptied hcalls).mpr neverShrinks_quarterEmptied⟩

/-- One item more than a quarter of the initial capacity, then a dequeue. -/
def quarterfill : List (ThreadId × Call ℕ) :=
  (List.range (initialCapacity / 4 + 1)).map (fun i => (0, .enqueue i)) ++ [(1, .dequeue)]

/-- The dequeue never returns: it waits for the mutex that its own thread holds. -/
theorem not_lockDiscipline_quarterfill : ¬ LockDiscipline quarterfill := by
  intro h
  exact h.never_relocks quarterfill (List.prefix_refl _) (by decide +kernel)

end NetworkServers.Queue
