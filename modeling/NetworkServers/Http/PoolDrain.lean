import NetworkServers.Http.Pool

/-!
# Shutdown Drains the Thread Pool

Over every interleaving of the owner and the workers: no worker runs the `NULL`
sentinel, `thread_pool_destroy` finishes its joins only after every pushed task
has been run exactly once, and until then some thread can move.

The invariant counts. Every sentinel that was enqueued is still queued, held by a
worker that tests it, or spent by a worker that has exited; every pushed task is
still to be pushed, queued, held by a worker, or finished. Sentinels stand behind
all tasks, so a worker that has met one has seen the last task.
-/

namespace NetworkServers.Pool

open NetworkServers.Runs

variable {n : ℕ} {τ : Type}

/-! ## The counted quantities -/

/-- The tasks that the owner has still to enqueue. -/
def toPush : OwnerState τ → List (Option τ)
  | .pushing rest => rest.map some
  | .enqueuing task rest => some task :: rest.map some
  | _ => []

/-- The owner has not yet cleared `running`. -/
def acceptsTasks : OwnerState τ → Bool
  | .pushing _ => true
  | .enqueuing _ _ => true
  | _ => false

/-- The sentinels that the owner has enqueued. -/
def sentinelsSent (n : ℕ) : OwnerState τ → ℕ
  | .stopping i => i
  | .joining _ => n
  | .joined => n
  | _ => 0

/-- The sentinels that a worker has taken: one while it tests it and after its exit. -/
def sentinelsTaken : WorkerState τ → ℕ
  | .testing none => 1
  | .exited => 1
  | _ => 0

/-- The tasks that a worker holds. -/
def tasksHeld : WorkerState τ → Multiset (Option τ)
  | .testing (some task) => {some task}
  | .working item => {item}
  | _ => 0

theorem sentinelsTaken_le_one (w : WorkerState τ) : sentinelsTaken w ≤ 1 := by
  unfold sentinelsTaken
  split <;> omega

/-! ## The invariant -/

/-- What holds in every reachable state of a pool that is to run `tasks`, whatever the order of
its queue. -/
structure Counts (tasks : List τ) (s : ThreadPool n τ) : Prop where
  running_eq : s.running = acceptsTasks s.owner
  tasks_eq : ((tasks.map some : List (Option τ)) : Multiset (Option τ)) =
    toPush s.owner + (s.queue.filter Option.isSome : List (Option τ)) +
      (∑ i, tasksHeld (s.workers i)) + (s.finished : List (Option τ))
  sentinels_eq : sentinelsSent n s.owner =
    s.queue.countP Option.isNone + ∑ i, sentinelsTaken (s.workers i)
  never_null : ∀ i, s.workers i ≠ .working none
  stopping_le : ∀ i, s.owner = .stopping i → i ≤ n
  joined_exited : ∀ i j, s.owner = .joining i → j.val < i → s.workers j = .exited
  all_exited : s.owner = .joined → ∀ j, s.workers j = .exited

/-- No task stands behind a sentinel. -/
def SentinelsLast (queue : List (Option τ)) : Prop :=
  queue.Pairwise fun a b => a = none → b = none

/-- What holds in every reachable state of a pool that is to run `tasks`. -/
structure Inv (tasks : List τ) (s : ThreadPool n τ) : Prop extends Counts tasks s where
  sentinels_last : SentinelsLast s.queue
  taken_last : 0 < ∑ i, sentinelsTaken (s.workers i) → ∀ item ∈ s.queue, item = none

section Parts

variable {tasks : List τ} {s : ThreadPool n τ}

theorem counts_create (tasks : List τ) : Counts tasks (threadPoolCreate n tasks) where
  running_eq := rfl
  tasks_eq := by simp [threadPoolCreate, toPush, tasksHeld]
  sentinels_eq := by simp [threadPoolCreate, sentinelsSent, sentinelsTaken]
  never_null := by simp [threadPoolCreate]
  stopping_le := by simp [threadPoolCreate]
  joined_exited := by simp [threadPoolCreate]
  all_exited := by simp [threadPoolCreate]

theorem inv_create (tasks : List τ) : Inv tasks (threadPoolCreate n tasks) :=
  ⟨counts_create tasks, List.Pairwise.nil, by simp [threadPoolCreate]⟩

/-- While tasks are accepted no sentinel is around. -/
theorem Counts.no_sentinel (h : Counts tasks s) (hsent : sentinelsSent n s.owner = 0) :
    (∀ item ∈ s.queue, item ≠ none) ∧ ∑ i, sentinelsTaken (s.workers i) = 0 := by
  have heq := h.sentinels_eq
  rw [hsent] at heq
  have hcount : s.queue.countP Option.isNone = 0 := by omega
  refine ⟨fun item hitem hnone => ?_, by omega⟩
  have := List.countP_eq_zero.mp hcount item hitem
  simp [hnone] at this

/-- A task may stand behind tasks only, a sentinel behind everything. -/
theorem SentinelsLast.snoc {queue : List (Option τ)} (h : SentinelsLast queue) {item : Option τ}
    (hitem : item ≠ none → none ∉ queue) : SentinelsLast (queue ++ [item]) := by
  refine List.pairwise_append.mpr ⟨h, List.pairwise_singleton .., ?_⟩
  intro a ha b hb hnone
  obtain rfl := List.mem_singleton.mp hb
  by_contra hb
  exact hitem hb (hnone ▸ ha)

end Parts

/-! ## The owner's steps keep the invariant -/

section OwnerSteps

variable {tasks : List τ} {s t : ThreadPool n τ}

/-- A step that moves the owner and leaves queue and workers alone. -/
theorem Counts.ownerMoves (h : Counts tasks s) {owner : OwnerState τ} {running : Bool}
    (hrunning : running = acceptsTasks owner) (htoPush : toPush owner = toPush s.owner)
    (hsent : sentinelsSent n owner = sentinelsSent n s.owner)
    (hstopping : ∀ i, owner = .stopping i → i ≤ n)
    (hjoining : ∀ i j, owner = .joining i → j.val < i → s.workers j = .exited)
    (hjoined : owner = .joined → ∀ j, s.workers j = .exited) :
    Counts tasks { s with owner := owner, running := running } where
  running_eq := hrunning
  tasks_eq := by
    rw [htoPush]
    exact h.tasks_eq
  sentinels_eq := hsent.trans h.sentinels_eq
  never_null := h.never_null
  stopping_le := hstopping
  joined_exited := hjoining
  all_exited := hjoined

theorem ownerStep_counts (h : Counts tasks s) (hstep : ownerStep s = some t) : Counts tasks t := by
  obtain ⟨task, rest, howner, -, rfl⟩ | ⟨task, rest, howner, hrun, rfl⟩ |
    ⟨task, rest, howner, rfl⟩ | ⟨howner, rfl⟩ | ⟨i, howner, hi, rfl⟩ | ⟨i, howner, hi, rfl⟩ |
    ⟨i, hi, howner, hexit, rfl⟩ | ⟨i, howner, hi, rfl⟩ := ownerStep_cases hstep
  · -- push has read running
    apply h.ownerMoves
    · simpa [howner, acceptsTasks] using h.running_eq
    · simp [howner, toPush]
    · simp [howner, sentinelsSent]
    all_goals simp
  · -- running is only cleared after the last push
    have hacc := h.running_eq
    simp [howner, hrun, acceptsTasks] at hacc
  · -- push enqueues a task
    exact {
      running_eq := by simpa [howner, acceptsTasks] using h.running_eq
      tasks_eq := by
        have htasks := h.tasks_eq
        simp only [howner, toPush, ← Multiset.cons_coe, ← Multiset.singleton_add] at htasks
        have hfilter : (s.queue ++ [some task]).filter Option.isSome =
            s.queue.filter Option.isSome ++ [some task] := by simp
        simp only [toPush]
        rw [htasks, hfilter, ← Multiset.coe_add, Multiset.coe_singleton]
        abel
      sentinels_eq := by simpa [howner, sentinelsSent] using h.sentinels_eq
      never_null := h.never_null
      stopping_le := by simp
      joined_exited := by simp
      all_exited := by simp }
  · -- destroy clears running
    apply h.ownerMoves
    · simp [acceptsTasks]
    · simp [howner, toPush]
    · simp [howner, sentinelsSent]
    all_goals simp
  · -- destroy enqueues a sentinel
    exact {
      running_eq := by simpa [howner, acceptsTasks] using h.running_eq
      tasks_eq := by simpa [howner, toPush] using h.tasks_eq
      sentinels_eq := by
        have heq := h.sentinels_eq
        simp only [howner, sentinelsSent] at heq
        simp [sentinelsSent, List.countP_append]
        omega
      never_null := h.never_null
      stopping_le := by
        intro j hj
        simp only [OwnerState.stopping.injEq] at hj
        omega
      joined_exited := by simp
      all_exited := by simp }
  · -- every sentinel is enqueued
    have hin : i = n := le_antisymm (h.stopping_le i howner) hi
    apply h.ownerMoves
    · simpa [howner, acceptsTasks] using h.running_eq
    · simp [howner, toPush]
    · simp [howner, hin, sentinelsSent]
    · simp
    · -- no worker is joined yet
      intro j k hj hk
      simp only [OwnerState.joining.injEq] at hj
      omega
    · simp
  · -- a join returns
    apply h.ownerMoves
    · simpa [howner, acceptsTasks] using h.running_eq
    · simp [howner, toPush]
    · simp [howner, sentinelsSent]
    · simp
    · intro j k hj hk
      simp only [OwnerState.joining.injEq] at hj
      rcases Nat.lt_or_ge k.val i with hlt | hge
      · exact h.joined_exited i k howner hlt
      · obtain rfl : k = ⟨i, hi⟩ := Fin.ext (by simp only; omega)
        exact hexit
    · simp
  · -- every worker is joined
    apply h.ownerMoves
    · simpa [howner, acceptsTasks] using h.running_eq
    · simp [howner, toPush]
    · simp [howner, sentinelsSent]
    · simp
    · simp
    · intro _ j
      exact h.joined_exited i j howner (by omega)

/-- What the owner does to the queue, if anything: it enqueues one item, a task only while no
sentinel has been sent. -/
theorem ownerStep_queue (hstep : ownerStep s = some t) :
    t.workers = s.workers ∧ t.finished = s.finished ∧ (t.queue = s.queue ∨
      ∃ item, t.queue = s.queue ++ [item] ∧ (item ≠ none → sentinelsSent n s.owner = 0)) := by
  obtain ⟨task, rest, howner, -, rfl⟩ | ⟨task, rest, howner, hrun, rfl⟩ |
    ⟨task, rest, howner, rfl⟩ | ⟨howner, rfl⟩ | ⟨i, howner, hi, rfl⟩ | ⟨i, howner, hi, rfl⟩ |
    ⟨i, hi, howner, hexit, rfl⟩ | ⟨i, howner, hi, rfl⟩ := ownerStep_cases hstep
  · exact ⟨rfl, rfl, .inl rfl⟩
  · exact ⟨rfl, rfl, .inl rfl⟩
  · exact ⟨rfl, rfl, .inr ⟨some task, rfl, fun _ => by rw [howner]; rfl⟩⟩
  · exact ⟨rfl, rfl, .inl rfl⟩
  · exact ⟨rfl, rfl, .inr ⟨none, rfl, fun h => absurd rfl h⟩⟩
  · exact ⟨rfl, rfl, .inl rfl⟩
  · exact ⟨rfl, rfl, .inl rfl⟩
  · exact ⟨rfl, rfl, .inl rfl⟩

/-- The owner keeps the sentinels behind the tasks. -/
theorem ownerStep_last (h : Counts tasks s) (hlast : SentinelsLast s.queue)
    (hstep : ownerStep s = some t) : SentinelsLast t.queue := by
  obtain ⟨-, -, hqueue | ⟨item, hqueue, hitem⟩⟩ := ownerStep_queue hstep
  · rwa [hqueue]
  · rw [hqueue]
    exact hlast.snoc fun htask hnone => (h.no_sentinel (hitem htask)).1 none hnone rfl

theorem ownerStep_inv (h : Inv tasks s) (hstep : ownerStep s = some t) : Inv tasks t := by
  refine ⟨ownerStep_counts h.toCounts hstep, ownerStep_last h.toCounts h.sentinels_last hstep, ?_⟩
  obtain ⟨hworkers, -, hqueue | ⟨item, hqueue, hitem⟩⟩ := ownerStep_queue hstep
  · rw [hworkers, hqueue]
    exact h.taken_last
  · rw [hworkers, hqueue]
    intro hpos other hother
    rcases List.mem_append.mp hother with hold | hnew
    · exact h.taken_last hpos other hold
    · -- a task is not enqueued any more once a sentinel has been taken
      obtain rfl := List.mem_singleton.mp hnew
      by_contra htask
      have := (h.toCounts.no_sentinel (hitem htask)).2
      omega

end OwnerSteps

/-! ## The workers' steps keep the invariant -/

section WorkerSteps

variable {tasks : List τ} {s t : ThreadPool n τ} {i : Fin n}

/-- A worker's step that moves tasks and sentinels between the queue, the worker and
the finished calls, without losing any, keeps the counts. -/
theorem Counts.workerMoves (h : Counts tasks s) {w : WorkerState τ}
    {queue finished : List (Option τ)} (hexit : s.workers i ≠ .exited) (hnull : w ≠ .working none)
    (htasks : (s.queue.filter Option.isSome : Multiset (Option τ)) + tasksHeld (s.workers i) +
        (s.finished : Multiset (Option τ)) =
      (queue.filter Option.isSome : Multiset (Option τ)) + tasksHeld w + finished)
    (hsent : s.queue.countP Option.isNone + sentinelsTaken (s.workers i) =
      queue.countP Option.isNone + sentinelsTaken w) :
    Counts tasks { s with
      queue := queue
      workers := Function.update s.workers i w
      finished := finished } where
  running_eq := h.running_eq
  tasks_eq := by
    have hheld := sum_update_add s.workers tasksHeld i w
    -- what the worker held before is added to both sides, since multisets have no subtraction
    refine add_right_cancel (b := tasksHeld (s.workers i)) ?_
    calc (tasks.map some : Multiset (Option τ)) + tasksHeld (s.workers i)
        = toPush s.owner + (∑ j, tasksHeld (s.workers j)) +
            (s.queue.filter Option.isSome + tasksHeld (s.workers i) + s.finished) := by
          rw [h.tasks_eq]
          abel
      _ = toPush s.owner + queue.filter Option.isSome +
            ((∑ j, tasksHeld (s.workers j)) + tasksHeld w) + finished := by
          rw [htasks]
          abel
      _ = toPush s.owner + queue.filter Option.isSome +
            (∑ j, tasksHeld (Function.update s.workers i w j)) + finished +
            tasksHeld (s.workers i) := by
          rw [← hheld]
          abel
  sentinels_eq := by
    have htaken := sum_update_add s.workers sentinelsTaken i w
    have hold := h.sentinels_eq
    simp only
    omega
  never_null := by
    intro j
    by_cases hj : j = i
    · subst hj
      simpa using hnull
    · simpa [hj] using h.never_null j
  stopping_le := h.stopping_le
  joined_exited := by
    -- a joined worker has exited, and this one moves
    intro k j hk hj
    have hdone := h.joined_exited k j hk hj
    have hji : j ≠ i := by
      rintro rfl
      exact hexit hdone
    simpa [hji] using hdone
  all_exited := fun hjoined => absurd (h.all_exited hjoined i) hexit

/-- A worker that tests a sentinel finds `running` cleared. -/
theorem Counts.testing_none (h : Counts tasks s) (hw : s.workers i = .testing none) :
    s.running = false := by
  by_contra hrun
  have hacc := h.running_eq
  have hzero : sentinelsSent n s.owner = 0 := by
    cases howner : s.owner <;> simp [howner, acceptsTasks, hrun] at hacc <;> rfl
  obtain ⟨-, htaken⟩ := h.no_sentinel hzero
  have hmine := (Finset.sum_eq_zero_iff.mp htaken) i (Finset.mem_univ i)
  simp [hw, sentinelsTaken] at hmine

theorem workerStep_counts (h : Counts tasks s) (hstep : workerStep s i = some t) :
    Counts tasks t := by
  obtain ⟨item, queue, hw, hqueue, rfl⟩ | ⟨hw, hrun, rfl⟩ | ⟨item, hw, hrun, rfl⟩ |
    ⟨item, hw, rfl⟩ := workerStep_cases hstep
  · -- the dequeued item moves from the queue to the worker
    refine h.workerMoves (by simp [hw]) (by simp) ?_ ?_
    · cases item with
      | none => simp [hw, hqueue, tasksHeld]
      | some task =>
        simp only [hw, hqueue, tasksHeld, List.filter_cons, Option.isSome_some, if_true,
          ← Multiset.cons_coe, ← Multiset.singleton_add]
        abel
    · cases item <;> simp [hw, hqueue, sentinelsTaken]
  · -- the worker exits with the sentinel it has tested
    exact h.workerMoves (by simp [hw]) (by simp) (by simp [hw, tasksHeld])
      (by simp [hw, sentinelsTaken])
  · -- a sentinel under test means that running is cleared, so the item is a task
    cases item with
    | none => exact absurd (hrun rfl) (by simp [h.testing_none hw])
    | some task =>
      exact h.workerMoves (by simp [hw]) (by simp) (by simp [hw, tasksHeld])
        (by simp [hw, sentinelsTaken])
  · -- the call returns
    refine h.workerMoves (by simp [hw]) (by simp) ?_ (by simp [hw, sentinelsTaken])
    simp only [hw, tasksHeld, ← Multiset.coe_add, Multiset.coe_singleton]
    abel

/-- A worker that has not met a sentinel, or has met one, goes on so. -/
theorem sentinelsTaken_update {w : WorkerState τ}
    (hw : sentinelsTaken w = sentinelsTaken (s.workers i)) (j : Fin n) :
    sentinelsTaken (Function.update s.workers i w j) = sentinelsTaken (s.workers j) := by
  by_cases hj : j = i
  · subst hj
    rwa [Function.update_self]
  · rw [Function.update_of_ne hj]

/-- A worker takes the first item of the queue, or leaves the queue and the sentinels as they
are. -/
theorem workerStep_queue (h : Counts tasks s) (hstep : workerStep s i = some t) :
    t.owner = s.owner ∧ ((∃ item, s.queue = item :: t.queue ∧ s.workers i = .dequeuing ∧
        t.workers = Function.update s.workers i (.testing item)) ∨
      t.queue = s.queue ∧ ∀ j, sentinelsTaken (t.workers j) = sentinelsTaken (s.workers j)) := by
  obtain ⟨item, queue, hw, hqueue, rfl⟩ | ⟨hw, hrun, rfl⟩ | ⟨item, hw, hrun, rfl⟩ |
    ⟨item, hw, rfl⟩ := workerStep_cases hstep
  · exact ⟨rfl, .inl ⟨item, hqueue, hw, rfl⟩⟩
  · exact ⟨rfl, .inr ⟨rfl, sentinelsTaken_update (by rw [hw]; rfl)⟩⟩
  · refine ⟨rfl, .inr ⟨rfl, sentinelsTaken_update ?_⟩⟩
    cases item with
    | none => exact absurd (hrun rfl) (by simp [h.testing_none hw])
    | some task => rw [hw]; rfl
  · exact ⟨rfl, .inr ⟨rfl, sentinelsTaken_update (by rw [hw]; rfl)⟩⟩

/-- The workers keep the sentinels behind the tasks. -/
theorem workerStep_last (h : Counts tasks s) (hlast : SentinelsLast s.queue)
    (hstep : workerStep s i = some t) : SentinelsLast t.queue := by
  obtain ⟨-, ⟨item, hqueue, -⟩ | ⟨hqueue, -⟩⟩ := workerStep_queue h hstep
  · rw [hqueue] at hlast
    exact (List.pairwise_cons.mp hlast).2
  · rwa [hqueue]

theorem workerStep_inv (h : Inv tasks s) (hstep : workerStep s i = some t) : Inv tasks t := by
  refine ⟨workerStep_counts h.toCounts hstep, workerStep_last h.toCounts h.sentinels_last hstep, ?_⟩
  obtain ⟨-, ⟨item, hqueue, hw, hworkers⟩ | ⟨hqueue, htaken⟩⟩ := workerStep_queue h.toCounts hstep
  · have hlast := h.sentinels_last
    rw [hqueue] at hlast
    cases item with
    | none => exact fun _ item hitem => (List.pairwise_cons.mp hlast).1 item hitem rfl
    | some task =>
      -- the worker has not taken a sentinel, before and after
      intro hpos item hitem
      have hsame := sentinelsTaken_update (s := s) (i := i) (w := .testing (some task))
        (by rw [hw]; rfl)
      simp only [hworkers, hsame] at hpos
      exact h.taken_last hpos item (hqueue ▸ List.mem_cons_of_mem _ hitem)
  · simp only [htaken, hqueue]
    exact h.taken_last

end WorkerSteps

/-- The invariant holds in every reachable state. -/
theorem run_inv {tasks : List τ} {threads : List (Thread n)} {s : ThreadPool n τ}
    (h : Run Step (threadPoolCreate n tasks) threads s) : Inv tasks s := by
  refine h.invariant (inv_create tasks) fun t thread u ht hstep => ?_
  cases thread with
  | owner => exact ownerStep_inv ht hstep
  | worker i => exact workerStep_inv ht hstep

/-! ## After the joins -/

/-- Once the joins are over and no task is left in the queue, every task has been run exactly
once. -/
theorem Counts.drained {tasks : List τ} {s : ThreadPool n τ} (h : Counts tasks s)
    (hjoined : s.owner = .joined) (hleft : ∀ item ∈ s.queue, item = none) :
    s.finished.Perm (tasks.map some) ∧ s.queue = [] := by
  have hexit := h.all_exited hjoined
  have hsent := h.sentinels_eq
  have htaken : ∑ i, sentinelsTaken (s.workers i) = n := by
    simp [hexit, sentinelsTaken]
  simp only [hjoined, sentinelsSent, htaken] at hsent
  have hqueue : s.queue = [] := by
    -- only sentinels could be left, and all of them are taken
    refine List.eq_nil_iff_forall_not_mem.mpr fun item hitem => ?_
    have hzero := List.countP_eq_zero.mp (by omega : s.queue.countP Option.isNone = 0) item hitem
    simp [hleft item hitem] at hzero
  refine ⟨?_, hqueue⟩
  have htasks := h.tasks_eq
  simp [hjoined, hqueue, hexit, toPush, tasksHeld] at htasks
  exact htasks.symm

/-- Once the joins are over every task has been run exactly once and nothing is left. -/
theorem Inv.drained {tasks : List τ} {s : ThreadPool n τ} (h : Inv tasks s) (hn : 1 ≤ n)
    (hjoined : s.owner = .joined) :
    s.finished.Perm (tasks.map some) ∧ (∀ i, s.workers i = .exited) ∧ s.queue = [] := by
  have hexit := h.all_exited hjoined
  have htaken : ∑ i, sentinelsTaken (s.workers i) = n := by
    simp [hexit, sentinelsTaken]
  obtain ⟨hfinished, hqueue⟩ := h.toCounts.drained hjoined (h.taken_last (by omega))
  exact ⟨hfinished, hexit, hqueue⟩

/-! ## Before the joins -/

/-- A worker that cannot move has exited or waits on an empty queue. -/
theorem workerStep_eq_none {s : ThreadPool n τ} {i : Fin n} (h : workerStep s i = none) :
    s.workers i = .exited ∨ s.workers i = .dequeuing ∧ s.queue = [] := by
  unfold workerStep at h
  cases hw : s.workers i with
  | dequeuing =>
    cases hq : s.queue with
    | nil => exact .inr ⟨rfl, rfl⟩
    | cons item queue => simp [hw, hq] at h
  | testing item =>
    simp only [hw] at h
    split at h <;> simp at h
  | working item => simp [hw] at h
  | exited => exact .inl rfl

/-- While the owner has not finished its joins some thread can move. -/
theorem Inv.progress {tasks : List τ} {s : ThreadPool n τ} (h : Inv tasks s)
    (hjoined : s.owner ≠ .joined) : ∃ thread t, Step s thread t := by
  by_contra hstuck
  push Not at hstuck
  have howner : ownerStep s = none := by
    cases hs : ownerStep s with
    | none => rfl
    | some t => exact absurd hs (hstuck .owner t)
  have hworker : ∀ i, workerStep s i = none := by
    intro i
    cases hs : workerStep s i with
    | none => rfl
    | some t => exact absurd hs (hstuck (.worker i) t)
  -- the owner can only be waiting in pthread_join for a worker that has not exited
  obtain ⟨i, hi, hjoin, hwait⟩ :
      ∃ i, ∃ hi : i < n, s.owner = .joining i ∧ s.workers ⟨i, hi⟩ ≠ .exited := by
    unfold ownerStep at howner
    split at howner <;> grind
  have hdequeuing : s.workers ⟨i, hi⟩ = .dequeuing ∧ s.queue = [] :=
    (workerStep_eq_none (hworker ⟨i, hi⟩)).resolve_left hwait
  have hsent := h.sentinels_eq
  simp only [hjoin, sentinelsSent, hdequeuing.2, List.countP_nil, zero_add] at hsent
  have hlt : ∑ j, sentinelsTaken (s.workers j) < Fintype.card (Fin n) :=
    sum_lt_card (fun j => sentinelsTaken_le_one _) (i := ⟨i, hi⟩)
      (by rw [hdequeuing.1]; rfl)
  rw [Fintype.card_fin] at hlt
  omega

/-- **Drain on shutdown**: over every interleaving, no worker runs the sentinel; when
the joins of `thread_pool_destroy` are over, every task has been run exactly once,
every worker has exited and the queue is empty; and until then some thread can move. -/
theorem threadPool_drains {tasks : List τ} (hn : 1 ≤ n) {threads : List (Thread n)}
    {s : ThreadPool n τ} (h : Run Step (threadPoolCreate n tasks) threads s) :
    (∀ i, s.workers i ≠ .working none) ∧
    (s.owner = .joined → s.finished.Perm (tasks.map some) ∧
      (∀ i, s.workers i = .exited) ∧ s.queue = []) ∧
    (s.owner ≠ .joined → ∃ thread t, Step s thread t) :=
  have hinv := run_inv h
  ⟨hinv.never_null, hinv.drained hn, hinv.progress⟩

/-- One worker, one task, and the worker's exit before the join. -/
def drainOne : List (Thread 1) :=
  [.owner, .owner, .worker 0, .worker 0, .worker 0, .owner, .owner, .owner, .worker 0, .worker 0,
    .owner, .owner]

theorem threadPool_drains_one :
    ∃ s : ThreadPool 1 ℕ, Run Step (threadPoolCreate 1 [7]) drainOne s ∧ s.owner = .joined ∧
      s.finished.Perm [some 7] ∧ (∀ i, s.workers i = .exited) ∧ s.queue = [] := by
  have hrun : Run Step (threadPoolCreate 1 [7]) drainOne _ := Run.of_foldlM rfl
  exact ⟨_, hrun, rfl, (threadPool_drains le_rfl hrun).2.1 rfl⟩

end NetworkServers.Pool
