import NetworkServers.Http.PoolDrain

/-!
# Pushing during Shutdown

The pool of `src/src/pool.c` with any number of threads that call `thread_pool_push`, while
another thread calls `thread_pool_destroy`. `thread_pool_push` reads `running` without a
lock and enqueues in a later step, when `thread_pool_destroy` may have enqueued its
sentinels, joined the workers, or released the queue.

`pool.owner` is the thread that calls `thread_pool_destroy`, and pushes nothing itself.
-/

namespace NetworkServers.Pool

open NetworkServers.Runs

variable {ι τ : Type} {n : ℕ}

/-- The pool and the threads that push. `pushed` are the tasks that have been enqueued, and
`late` those that were enqueued after `safe_queue_destroy`. -/
structure SharedPool (ι : Type) (n : ℕ) (τ : Type) where
  pool : ThreadPool n τ
  /-- The task of a push that has read `running` as true and has not enqueued yet. -/
  pushers : ι → Option τ
  pushed : List τ
  released : Bool
  late : List τ

/-- The atomic steps of the threads. -/
inductive PoolStep (ι : Type) (n : ℕ) (τ : Type) where
  /-- `thread_pool_push` is called and reads `running`. -/
  | test (i : ι) (task : τ)
  /-- `thread_pool_push` enqueues its task. -/
  | enqueue (i : ι)
  /-- A step of `thread_pool_destroy` before its end. -/
  | destroy
  /-- `thread_pool_destroy` releases the queue and returns. -/
  | release
  /-- A step of a worker. -/
  | worker (j : Fin n)

/-- `thread_pool_create`; nobody pushes yet. -/
def SharedPool.initial : SharedPool ι n τ where
  pool := threadPoolCreate n []
  pushers _ := none
  pushed := []
  released := false
  late := []

/-- The task at the end of the queue. -/
def ThreadPool.enqueue (s : ThreadPool n τ) (task : τ) : ThreadPool n τ :=
  { s with queue := s.queue ++ [some task] }

section Steps

variable [DecidableEq ι]

/-- One step of one thread. After `thread_pool_destroy` a push still reads `running` as it was
written last. -/
def SharedPool.step (s : SharedPool ι n τ) : PoolStep ι n τ → Option (SharedPool ι n τ)
  | .test i task =>
    match s.pushers i with
    | none =>
      if s.pool.running then some { s with pushers := Function.update s.pushers i (some task) }
      else some s
    | some _ => none
  | .enqueue i =>
    match s.pushers i with
    | some task => some { s with
        pool := s.pool.enqueue task
        pushers := Function.update s.pushers i none
        pushed := s.pushed ++ [task]
        late := if s.released then s.late ++ [task] else s.late }
    | none => none
  | .destroy => (ownerStep s.pool).map fun pool => { s with pool }
  | .release =>
    match s.pool.owner, s.released with
    | .joined, false => some { s with released := true }
    | _, _ => none
  | .worker j => (workerStep s.pool j).map fun pool => { s with pool }

/-- The steps as a relation. -/
def PoolSteps (s : SharedPool ι n τ) (l : PoolStep ι n τ) (t : SharedPool ι n τ) : Prop :=
  s.step l = some t

end Steps

/-- No task stands behind a sentinel; when `thread_pool_destroy` has returned, the tasks that
were enqueued have been run; and nothing was enqueued after the release. -/
structure SharedPool.Orderly (s : SharedPool ι n τ) : Prop where
  last : SentinelsLast s.pool.queue
  run : s.released = true → s.pool.finished.Perm (s.pushed.map some)
  late : s.late = []

/-- A push enqueues while no sentinel is queued, and some worker has not met its own yet. -/
def StillServed (s : SharedPool ι n τ) : PoolStep ι n τ → Prop
  | .enqueue _ => none ∉ s.pool.queue ∧ ∃ j, sentinelsTaken (s.pool.workers j) = 0
  | _ => True

/-! ## What one step does -/

section StepCases

variable [DecidableEq ι] {s t : SharedPool ι n τ}

theorem test_cases {i : ι} {task : τ} (h : PoolSteps s (.test i task) t) :
    ∃ pushers, t = { s with pushers } := by
  simp only [PoolSteps, SharedPool.step] at h
  split at h
  · split at h
    · exact ⟨_, (Option.some.inj h).symm⟩
    · exact ⟨s.pushers, (Option.some.inj h).symm⟩
  · cases h

theorem enqueue_cases {i : ι} (h : PoolSteps s (.enqueue i) t) :
    ∃ task, s.pushers i = some task ∧ t = { s with
      pool := s.pool.enqueue task
      pushers := Function.update s.pushers i none
      pushed := s.pushed ++ [task]
      late := if s.released then s.late ++ [task] else s.late } := by
  simp only [PoolSteps, SharedPool.step] at h
  split at h
  · exact ⟨_, ‹_›, (Option.some.inj h).symm⟩
  · cases h

theorem destroy_cases (h : PoolSteps s .destroy t) :
    ∃ pool, ownerStep s.pool = some pool ∧ t = { s with pool } := by
  obtain ⟨pool, hpool, rfl⟩ := Option.map_eq_some_iff.mp h
  exact ⟨pool, hpool, rfl⟩

theorem release_cases (h : PoolSteps s .release t) :
    s.pool.owner = .joined ∧ t = { s with released := true } := by
  simp only [PoolSteps, SharedPool.step] at h
  split at h
  · exact ⟨‹_›, (Option.some.inj h).symm⟩
  · cases h

theorem worker_cases {j : Fin n} (h : PoolSteps s (.worker j) t) :
    ∃ pool, workerStep s.pool j = some pool ∧ t = { s with pool } := by
  obtain ⟨pool, hpool, rfl⟩ := Option.map_eq_some_iff.mp h
  exact ⟨pool, hpool, rfl⟩

end StepCases

/-! ## The counts, whatever the pushes do -/

/-- Nothing is lost: every task that was enqueued is in the queue, held by a worker, or
finished. -/
structure SharedPool.Accounted (s : SharedPool ι n τ) : Prop where
  counts : Counts s.pushed s.pool
  owner : toPush s.pool.owner = []
  released : s.released = true → s.pool.owner = .joined

theorem Counts.enqueue {tasks : List τ} {s : ThreadPool n τ} (h : Counts tasks s)
    (howner : toPush s.owner = []) (task : τ) : Counts (tasks ++ [task]) (s.enqueue task) where
  running_eq := h.running_eq
  tasks_eq := by
    have htasks := h.tasks_eq
    have hfilter : (s.queue ++ [some task]).filter Option.isSome =
        s.queue.filter Option.isSome ++ [some task] := by simp
    simp only [howner] at htasks
    simp only [ThreadPool.enqueue, howner, List.map_append, List.map_singleton, hfilter,
      ← Multiset.coe_add, Multiset.coe_singleton, htasks]
    abel
  sentinels_eq := by simpa [ThreadPool.enqueue] using h.sentinels_eq
  never_null := h.never_null
  stopping_le := h.stopping_le
  joined_exited := h.joined_exited
  all_exited := h.all_exited

/-- An owner that has nothing to push enqueues sentinels only. -/
theorem ownerStep_destroying {s t : ThreadPool n τ} (howner : toPush s.owner = [])
    (hstep : ownerStep s = some t) :
    toPush t.owner = [] ∧ s.owner ≠ .joined ∧ t.workers = s.workers ∧
      (t.queue = s.queue ∨ t.queue = s.queue ++ [none]) := by
  obtain ⟨task, rest, heq, -, rfl⟩ | ⟨task, rest, heq, -, rfl⟩ | ⟨task, rest, heq, rfl⟩ |
    ⟨heq, rfl⟩ | ⟨i, heq, -, rfl⟩ | ⟨i, heq, -, rfl⟩ | ⟨i, -, heq, -, rfl⟩ | ⟨i, heq, -, rfl⟩ :=
    ownerStep_cases hstep
  · simp [heq, toPush] at howner
  · simp [heq, toPush] at howner
  · simp [heq, toPush] at howner
  · exact ⟨rfl, by simp [heq], rfl, .inl rfl⟩
  · exact ⟨rfl, by simp [heq], rfl, .inr rfl⟩
  · exact ⟨rfl, by simp [heq], rfl, .inl rfl⟩
  · exact ⟨rfl, by simp [heq], rfl, .inl rfl⟩
  · exact ⟨rfl, by simp [heq], rfl, .inl rfl⟩

section Accounted

variable {s t : SharedPool ι n τ}

theorem accounted_initial : (SharedPool.initial : SharedPool ι n τ).Accounted where
  counts := counts_create []
  owner := rfl
  released := fun h => nomatch h

/-- After the release every worker has met its sentinel. -/
theorem SharedPool.Accounted.all_taken (h : s.Accounted) (hreleased : s.released = true)
    (j : Fin n) : sentinelsTaken (s.pool.workers j) = 1 := by
  rw [h.counts.all_exited (h.released hreleased) j]
  rfl

variable [DecidableEq ι]

theorem SharedPool.Accounted.step (h : s.Accounted) {l : PoolStep ι n τ}
    (hstep : PoolSteps s l t) : t.Accounted := by
  cases l with
  | test i task =>
    obtain ⟨pushers, rfl⟩ := test_cases hstep
    exact ⟨h.counts, h.owner, h.released⟩
  | enqueue i =>
    obtain ⟨task, -, rfl⟩ := enqueue_cases hstep
    exact ⟨h.counts.enqueue h.owner task, h.owner, h.released⟩
  | destroy =>
    obtain ⟨pool, hpool, rfl⟩ := destroy_cases hstep
    obtain ⟨howner, hgoes, -⟩ := ownerStep_destroying h.owner hpool
    exact ⟨ownerStep_counts h.counts hpool, howner, fun hreleased =>
      absurd (h.released hreleased) hgoes⟩
  | release =>
    obtain ⟨hjoined, rfl⟩ := release_cases hstep
    exact ⟨h.counts, h.owner, fun _ => hjoined⟩
  | worker j =>
    obtain ⟨pool, hpool, rfl⟩ := worker_cases hstep
    obtain ⟨howner, -⟩ := workerStep_queue h.counts hpool
    refine ⟨workerStep_counts h.counts hpool, ?_, fun hreleased => ?_⟩
    · show toPush pool.owner = []
      rw [howner, h.owner]
    · exact howner.trans (h.released hreleased)

theorem run_accounted {ls : List (PoolStep ι n τ)} (hrun : Run PoolSteps SharedPool.initial ls t) :
    t.Accounted :=
  hrun.invariant accounted_initial fun _ _ _ h hstep => h.step hstep

end Accounted

/-! ## Pushes that are still served -/

/-- The sentinels stand behind the tasks, and once every worker has met one no task is left. -/
structure SharedPool.Served (s : SharedPool ι n τ) : Prop where
  last : SentinelsLast s.pool.queue
  all_taken : (∀ j, sentinelsTaken (s.pool.workers j) = 1) → ∀ item ∈ s.pool.queue, item = none
  late : s.late = []

theorem served_initial : (SharedPool.initial : SharedPool ι n τ).Served where
  last := List.Pairwise.nil
  all_taken := fun _ _ hitem => nomatch hitem
  late := rfl

section Served

variable {s t : SharedPool ι n τ}

theorem SharedPool.Served.orderly (h : s.Served) (ha : s.Accounted) : s.Orderly where
  last := h.last
  run := fun hreleased =>
    (ha.counts.drained (ha.released hreleased) (h.all_taken (ha.all_taken hreleased))).1
  late := h.late

variable [DecidableEq ι]

/-- **Step lemma.** -/
theorem SharedPool.Served.step (h : s.Served) (ha : s.Accounted) {l : PoolStep ι n τ}
    (hserved : StillServed s l) (hstep : PoolSteps s l t) : t.Served := by
  cases l with
  | test i task =>
    obtain ⟨pushers, rfl⟩ := test_cases hstep
    exact ⟨h.last, h.all_taken, h.late⟩
  | enqueue i =>
    obtain ⟨task, -, rfl⟩ := enqueue_cases hstep
    obtain ⟨hnone, j, hj⟩ := hserved
    -- a worker is left, so the queue has not been released
    have hnotReleased : s.released = false := by
      by_contra hreleased
      have := ha.all_taken (by simpa using hreleased) j
      omega
    refine ⟨h.last.snoc fun _ => hnone, fun htaken => ?_, ?_⟩
    · have := htaken j
      simp only [ThreadPool.enqueue] at this
      omega
    · simp [hnotReleased, h.late]
  | destroy =>
    obtain ⟨pool, hpool, rfl⟩ := destroy_cases hstep
    obtain ⟨-, -, hworkers, hqueue⟩ := ownerStep_destroying ha.owner hpool
    refine ⟨ownerStep_last ha.counts h.last hpool, fun htaken item hitem => ?_, h.late⟩
    dsimp only at htaken hitem
    rw [hworkers] at htaken
    rcases hqueue with hqueue | hqueue
    · exact h.all_taken htaken item (hqueue ▸ hitem)
    · rw [hqueue] at hitem
      rcases List.mem_append.mp hitem with hold | hnew
      · exact h.all_taken htaken item hold
      · exact List.mem_singleton.mp hnew
  | release =>
    obtain ⟨-, rfl⟩ := release_cases hstep
    exact ⟨h.last, h.all_taken, h.late⟩
  | worker j =>
    obtain ⟨pool, hpool, rfl⟩ := worker_cases hstep
    refine ⟨workerStep_last ha.counts h.last hpool, fun htaken item hitem => ?_, h.late⟩
    dsimp only at htaken hitem
    obtain ⟨-, ⟨first, hqueue, -, hworkers⟩ | ⟨hqueue, hsame⟩⟩ := workerStep_queue ha.counts hpool
    · cases first with
      | none =>
        have hlast := h.last
        rw [hqueue] at hlast
        exact (List.pairwise_cons.mp hlast).1 item hitem rfl
      | some task =>
        -- this worker has just taken a task
        have := htaken j
        rw [hworkers, Function.update_self] at this
        cases this
    · simp only [hsame] at htaken
      exact h.all_taken htaken item (hqueue ▸ hitem)

/-- **Run lemma.** -/
theorem run_served {ls : List (PoolStep ι n τ)}
    (hrun : Run (Guarded StillServed PoolSteps) SharedPool.initial ls t) : t.Served := by
  have hboth : t.Accounted ∧ t.Served := by
    induction hrun with
    | nil => exact ⟨accounted_initial, served_initial⟩
    | snoc _ hlast ih => exact ⟨ih.1.step hlast.2, ih.2.step ih.1 hlast.1 hlast.2⟩
  exact hboth.2

end Served

/-! ## A task that nobody takes -/

/-- Every worker has met its sentinel, and a task is still queued. -/
def Abandons (s : SharedPool ι n τ) : Prop :=
  (∀ j, sentinelsTaken (s.pool.workers j) = 1) ∧ ∃ task, some task ∈ s.pool.queue

section Abandons

variable {s t : SharedPool ι n τ}

/-- The task has not been run when `thread_pool_destroy` returns. -/
theorem Abandons.not_orderly (h : Abandons s) (ha : s.Accounted) (hreleased : s.released = true) :
    ¬ s.Orderly := by
  intro horderly
  obtain ⟨-, task, htask⟩ := h
  have htasks := ha.counts.tasks_eq
  have hrun := Multiset.coe_eq_coe.mpr (horderly.run hreleased)
  -- everything that was pushed has been run, so nothing is left to be queued
  rw [ha.owner, ← hrun] at htasks
  have hcard := congrArg Multiset.card htasks
  simp only [Multiset.card_add, Multiset.coe_card, List.length_nil] at hcard
  have hpos : 0 < (s.pool.queue.filter Option.isSome).length :=
    List.length_pos_of_mem (List.mem_filter.mpr ⟨htask, rfl⟩)
  omega

variable [DecidableEq ι]

/-- Nobody takes it any more. -/
theorem Abandons.step (h : Abandons s) (ha : s.Accounted) {l : PoolStep ι n τ}
    (hstep : PoolSteps s l t) : Abandons t := by
  obtain ⟨htaken, task, htask⟩ := h
  cases l with
  | test i task =>
    obtain ⟨pushers, rfl⟩ := test_cases hstep
    exact ⟨htaken, _, htask⟩
  | enqueue i =>
    obtain ⟨other, -, rfl⟩ := enqueue_cases hstep
    exact ⟨htaken, task, List.mem_append_left _ htask⟩
  | destroy =>
    obtain ⟨pool, hpool, rfl⟩ := destroy_cases hstep
    -- the owner enqueues or joins; it takes nothing out
    obtain ⟨-, -, hworkers, hqueue⟩ := ownerStep_destroying ha.owner hpool
    refine ⟨fun j => ?_, task, ?_⟩
    · dsimp only
      rw [hworkers]
      exact htaken j
    · rcases hqueue with hqueue | hqueue
      · exact hqueue ▸ htask
      · exact hqueue ▸ List.mem_append_left _ htask
  | release =>
    obtain ⟨-, rfl⟩ := release_cases hstep
    exact ⟨htaken, task, htask⟩
  | worker j =>
    obtain ⟨pool, hpool, rfl⟩ := worker_cases hstep
    obtain ⟨-, ⟨first, -, hw, -⟩ | ⟨hqueue, hsame⟩⟩ := workerStep_queue ha.counts hpool
    · -- only a worker that still works can dequeue
      have := htaken j
      rw [hw] at this
      cases this
    · refine ⟨fun k => (hsame k).trans (htaken k), task, ?_⟩
      exact hqueue ▸ htask

/-- A push that is not served any more breaks the order at once, or leaves its task behind. -/
theorem stillServed_or_abandons {l : PoolStep ι n τ} (hstep : PoolSteps s l t) (ht : t.Orderly) :
    StillServed s l ∨ Abandons t := by
  cases l with
  | enqueue i =>
    obtain ⟨task, -, rfl⟩ := enqueue_cases hstep
    by_cases hleft : ∃ j, sentinelsTaken (s.pool.workers j) = 0
    · refine .inl ⟨fun hnone => ?_, hleft⟩
      -- the task stands behind a sentinel
      have hlast := (List.pairwise_append.mp ht.last).2.2
      exact nomatch hlast none hnone (some task) List.mem_cons_self rfl
    · refine .inr ⟨fun j => ?_, task, List.mem_append_right _ List.mem_cons_self⟩
      have hle := sentinelsTaken_le_one (s.pool.workers j)
      have hne : sentinelsTaken (s.pool.workers j) ≠ 0 := fun hzero => hleft ⟨j, hzero⟩
      show sentinelsTaken (s.pool.workers j) = 1
      omega
  | test i task => exact .inl trivial
  | destroy => exact .inl trivial
  | release => exact .inl trivial
  | worker j => exact .inl trivial

/-- In runs whose pushes are all still served everything is in order. In runs in which
`thread_pool_destroy` returns it is in no others. -/
theorem orderly_iff_stillServed {ls : List (PoolStep ι n τ)}
    (hrun : Run PoolSteps SharedPool.initial ls t) :
    (Run (Guarded StillServed PoolSteps) SharedPool.initial ls t →
        ∀ ms u, ms <+: ls → Run PoolSteps SharedPool.initial ms u → u.Orderly) ∧
      (t.released = true →
        (∀ ms u, ms <+: ls → Run PoolSteps SharedPool.initial ms u → u.Orderly) →
        Run (Guarded StillServed PoolSteps) SharedPool.initial ls t) := by
  constructor
  · intro hguarded ms u hms hreached
    obtain ⟨v, hv⟩ := hguarded.before hms
    obtain rfl := Run.unique hreached hv.unguarded
    exact (run_served hv).orderly (run_accounted hreached)
  · intro hreleased horderly
    -- the first push that is not served leaves a task to nobody, and it stays there
    have hcases : Run (Guarded StillServed PoolSteps) SharedPool.initial ls t ∨ Abandons t := by
      clear hreleased
      induction hrun with
      | nil => exact .inl .nil
      | @snoc ls t u l hrun hlast ih =>
        have hbefore := ih fun ms v hms => horderly ms v (hms.trans (List.prefix_append ls [l]))
        rcases hbefore with hguarded | habandons
        · have hafter := horderly _ u (List.prefix_refl _) (hrun.snoc hlast)
          exact (stillServed_or_abandons hlast hafter).imp_left fun hserved =>
            hguarded.snoc ⟨hserved, hlast⟩
        · exact .inr (habandons.step (run_accounted hrun) hlast)
    refine hcases.resolve_right fun habandons => ?_
    exact habandons.not_orderly (run_accounted hrun) hreleased
      (horderly ls t (List.prefix_refl ls) hrun)

end Abandons

/-- One push, one worker, and the shutdown. -/
def pushThenDestroy : List (PoolStep Unit 1 ℕ) :=
  let worker := .worker (Fin.last 0)
  [.test () 7, .enqueue (), .destroy, worker, .destroy, worker, worker, .destroy, worker,
    worker, .destroy, .destroy, .release]

theorem orderly_iff_stillServed_push : ∃ t, Run PoolSteps SharedPool.initial pushThenDestroy t ∧
    t.released = true ∧
    (Run (Guarded StillServed PoolSteps) SharedPool.initial pushThenDestroy t →
        ∀ ms u, ms <+: pushThenDestroy → Run PoolSteps SharedPool.initial ms u → u.Orderly) ∧
      (t.released = true →
        (∀ ms u, ms <+: pushThenDestroy → Run PoolSteps SharedPool.initial ms u → u.Orderly) →
        Run (Guarded StillServed PoolSteps) SharedPool.initial pushThenDestroy t) := by
  have hrun : Run PoolSteps SharedPool.initial pushThenDestroy _ := Run.of_foldlM rfl
  exact ⟨_, hrun, rfl, orderly_iff_stillServed hrun⟩

/-- A push has read `running`, and enqueues after the only sentinel. -/
def pushDuringDestroy : List (PoolStep Unit 1 ℕ) :=
  [.test () 7, .destroy, .destroy, .enqueue ()]

theorem not_orderly_pushDuringDestroy : ¬ ∀ (ls : List (PoolStep Unit 1 ℕ)) t,
    Run PoolSteps SharedPool.initial ls t → t.Orderly := by
  intro h
  have hrun : Run PoolSteps SharedPool.initial pushDuringDestroy _ := Run.of_foldlM rfl
  have hlast := (h _ _ hrun).last
  exact nomatch (List.pairwise_pair.mp hlast) rfl

end NetworkServers.Pool
