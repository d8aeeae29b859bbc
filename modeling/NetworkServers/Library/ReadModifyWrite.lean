import NetworkServers.Library.Runs
import Mathlib.Logic.Function.Basic

/-!
# Read-Modify-Write by Several Workers

Workers share a store. An update is two steps of its worker: it retrieves a part of the
store, and later it writes back what it makes of that part as it was. In runs in which
every write finds the part as it was retrieved, updates are as good as atomic: an
invariant of the store and the completed updates needs to be shown for whole updates
only.
-/

namespace NetworkServers.ReadModifyWrite

open Runs

/-- Updates of a store: what an update retrieves, and the store after it has written back
what it makes of the contents. -/
structure Updates (σ ο : Type*) where
  Contents : ο → Type*
  retrieve : (o : ο) → σ → Contents o
  persist : (o : ο) → Contents o → σ → σ

/-- Both steps of an update at once. -/
def Updates.whole {σ ο : Type*} (u : Updates σ ο) (o : ο) (s : σ) : σ :=
  u.persist o (u.retrieve o s) s

/-- Workers with a shared store. `busy` holds the update that a worker is in the middle
of, with the contents it has retrieved; `done` are the completed updates in order. -/
structure Workers {σ ο : Type*} (ω : Type*) (u : Updates σ ο) where
  store : σ
  busy : ω → Option ((o : ο) × u.Contents o)
  done : List ο

/-- The two steps of an update, by a worker. -/
inductive UpdateStep (ω ο : Type*) where
  | retrieve (w : ω) (o : ο)
  | persist (w : ω)

variable {σ ο ω : Type*} {u : Updates σ ο}

/-- All workers are idle. -/
def Workers.initial (s : σ) : Workers ω u := { store := s, busy := fun _ => none, done := [] }

section Steps

variable [DecidableEq ω]

/-- One step of a worker. -/
def Workers.step (s : Workers ω u) : UpdateStep ω ο → Option (Workers ω u)
  | .retrieve w o =>
    match s.busy w with
    | none => some { s with busy := Function.update s.busy w (some ⟨o, u.retrieve o s.store⟩) }
    | some _ => none
  | .persist w =>
    match s.busy w with
    | some ⟨o, contents⟩ =>
      some { store := u.persist o contents s.store
             busy := Function.update s.busy w none
             done := s.done ++ [o] }
    | none => none

/-- The steps as a relation. -/
def WorkerSteps (s : Workers ω u) (l : UpdateStep ω ο) (t : Workers ω u) : Prop := s.step l = some t

/-- A write finds the contents as its update has retrieved them. -/
def Undisturbed (s : Workers ω u) : UpdateStep ω ο → Prop
  | .retrieve _ _ => True
  | .persist w => ∀ o contents, s.busy w = some ⟨o, contents⟩ → u.retrieve o s.store = contents

/-- A write finds a store that its update is ready for. -/
def Ready (ready : ο → σ → Prop) (s : Workers ω u) : UpdateStep ω ο → Prop
  | .retrieve _ _ => True
  | .persist w => ∀ o contents, s.busy w = some ⟨o, contents⟩ → ready o s.store

/-- The two kinds of steps. -/
theorem workerSteps_cases {s t : Workers ω u} {l : UpdateStep ω ο} (h : WorkerSteps s l t) :
    (∃ w o, l = .retrieve w o ∧ s.busy w = none ∧
      t = { s with busy := Function.update s.busy w (some ⟨o, u.retrieve o s.store⟩) }) ∨
    ∃ w o contents, l = .persist w ∧ s.busy w = some ⟨o, contents⟩ ∧
      t = { store := u.persist o contents s.store
            busy := Function.update s.busy w none
            done := s.done ++ [o] } := by
  unfold WorkerSteps at h
  cases l with
  | retrieve w o =>
    simp only [Workers.step] at h
    split at h
    · rename_i hidle
      exact .inl ⟨w, o, rfl, hidle, (Option.some.inj h).symm⟩
    · cases h
  | persist w =>
    simp only [Workers.step] at h
    split at h
    · rename_i o contents hbusy
      exact .inr ⟨w, o, contents, rfl, hbusy, (Option.some.inj h).symm⟩
    · cases h

/-- **Rule for undisturbed runs**: an invariant of the store and the completed updates
holds after the run if whole updates keep it. -/
theorem run_undisturbed {ready : ο → σ → Prop} {inv : σ → List ο → Prop} {s : σ}
    {ls : List (UpdateStep ω ο)} {t : Workers ω u} (h0 : inv s [])
    (hwhole : ∀ s done o, inv s done → ready o s → inv (u.whole o s) (done ++ [o]))
    (hrun : Run (Guarded (fun s l => Undisturbed s l ∧ Ready ready s l) WorkerSteps)
      (Workers.initial s) ls t) : inv t.store t.done := by
  induction hrun with
  | nil => exact h0
  | snoc _ hlast ih =>
    obtain ⟨⟨hundisturbed, hready⟩, hstep⟩ := hlast
    rcases workerSteps_cases hstep with ⟨w, o, rfl, -, rfl⟩ | ⟨w, o, contents, rfl, hbusy, rfl⟩
    · exact ih
    · rw [← hundisturbed o contents hbusy]
      exact hwhole _ _ o ih (hready o contents hbusy)

/-- A single worker is never disturbed. -/
theorem run_single_worker [Subsingleton ω] {guard : Workers ω u → UpdateStep ω ο → Prop} {s : σ}
    {ls : List (UpdateStep ω ο)} {t : Workers ω u}
    (hrun : Run (Guarded guard WorkerSteps) (Workers.initial s) ls t) :
    Run (Guarded (fun s l => Undisturbed s l ∧ guard s l) WorkerSteps) (Workers.initial s) ls t ∧
      ∀ w o contents, t.busy w = some ⟨o, contents⟩ → u.retrieve o t.store = contents := by
  induction hrun with
  | nil => exact ⟨.nil, fun _ _ _ h => nomatch h⟩
  | @snoc _ t v l _ hlast ih =>
    obtain ⟨hguard, hstep⟩ := hlast
    obtain ⟨hrun, hfresh⟩ := ih
    rcases workerSteps_cases hstep with ⟨w, o, rfl, -, rfl⟩ | ⟨w, o, contents, rfl, hbusy, rfl⟩
    · refine ⟨hrun.snoc ⟨⟨trivial, hguard⟩, hstep⟩, fun w' o' contents' h => ?_⟩
      obtain rfl := Subsingleton.elim w w'
      dsimp only at h
      rw [Function.update_self] at h
      obtain ⟨rfl, hcontents⟩ := Sigma.mk.inj (Option.some.inj h)
      exact eq_of_heq hcontents
    · refine ⟨hrun.snoc ⟨⟨hfresh w, hguard⟩, hstep⟩, fun w' o' contents' h => ?_⟩
      obtain rfl := Subsingleton.elim w w'
      dsimp only at h
      rw [Function.update_self] at h
      cases h

end Steps

end NetworkServers.ReadModifyWrite
