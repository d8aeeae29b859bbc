import Mathlib.Data.List.Basic
import Mathlib.Data.List.Infix

/-!
# Machines Run on a List of Inputs

A deterministic machine that consumes one input at a time, may fail, and emits
outputs; and its run on a list of inputs. Two machines run on the same inputs
are compared step by step.
-/

namespace NetworkServers.Machine

/-! ## Computations that may fail -/

@[simp] theorem ok_bind {ε α β : Type} (a : α) (f : α → Except ε β) :
    (Except.ok a >>= f) = f a := rfl

@[simp] theorem error_bind {ε α β : Type} (e : ε) (f : α → Except ε β) :
    (Except.error e >>= f) = Except.error e := rfl

/-- A sequence ends well if both parts do. -/
theorem bind_eq_ok {ε α β : Type} {x : Except ε α} {f : α → Except ε β} {b : β} :
    (x >>= f) = .ok b ↔ ∃ a, x = .ok a ∧ f a = .ok b := by
  cases x with
  | error e =>
    refine iff_of_false (fun h => nomatch h) ?_
    rintro ⟨a, h, -⟩
    cases h
  | ok a => simp

/-- A part whose result is handed on changed. -/
theorem map_eq_ok {ε α β : Type} {x : Except ε α} {f : α → β} {b : β} :
    f <$> x = .ok b ↔ ∃ a, x = .ok a ∧ f a = b := by
  cases x with
  | error e =>
    refine iff_of_false (fun h => nomatch h) ?_
    rintro ⟨a, h, -⟩
    cases h
  | ok a => simp

/-- A part without a result. -/
theorem unit_bind_eq_ok {ε β : Type} {x : Except ε Unit} {f : Unit → Except ε β} {b : β} :
    (x >>= f) = .ok b ↔ x = .ok () ∧ f () = .ok b := by
  rw [bind_eq_ok]
  exact ⟨fun ⟨_, hx, hf⟩ => ⟨hx, hf⟩, fun ⟨hx, hf⟩ => ⟨_, hx, hf⟩⟩

/-- A part that is there for a value only. -/
theorem elim_eq_ok {ε β : Type} {o : Option β} {f : β → Except ε Unit} :
    o.elim (pure ()) f = .ok () ↔ ∀ b, o = some b → f b = .ok () := by
  cases o with
  | none => exact iff_of_true rfl (fun b h => nomatch h)
  | some b => simp

/-- A loop ends well if every iteration does. -/
theorem forM_eq_ok {ε α : Type} {l : List α} {f : α → Except ε Unit} :
    l.forM f = .ok () ↔ ∀ a ∈ l, f a = .ok () := by
  induction l with
  | nil => exact iff_of_true rfl (List.forall_mem_nil _)
  | cons a l ih =>
    change (f a >>= fun _ => l.forM f) = .ok () ↔ _
    rw [List.forall_mem_cons, ← ih, unit_bind_eq_ok]

/-! ## Runs -/

variable {σ ι ο : Type} {m : Type → Type} [Monad m]

/-- Run `step` on every input in order. The outputs of the steps are joined. -/
def runAll (step : σ → ι → m (σ × List ο)) : List ι → σ → m (σ × List ο)
  | [], s => pure (s, [])
  | i :: is, s => do
    let (s, out) ← step s i
    let (s, outs) ← runAll step is s
    pure (s, out ++ outs)

@[simp] theorem runAll_nil (step : σ → ι → m (σ × List ο)) (s : σ) :
    runAll step [] s = pure (s, []) := rfl

/-- The last input of a run is consumed from the state that the others lead to. -/
theorem runAll_snoc [LawfulMonad m] (step : σ → ι → m (σ × List ο)) (is : List ι) (i : ι)
    (s : σ) :
    runAll step (is ++ [i]) s = (do
      let (s, outs) ← runAll step is s
      let (s, out) ← step s i
      pure (s, outs ++ out)) := by
  induction is generalizing s with
  | nil => simp [runAll]
  | cons j js ih => simp [runAll, ih]

/-- A run of a failing machine succeeds on every prefix of its inputs. -/
theorem runAll_isSome_left {step : σ → ι → Option (σ × List ο)} {is js : List ι} {s : σ}
    (hpre : is <+: js) (hjs : (runAll step js s).isSome) : (runAll step is s).isSome := by
  obtain ⟨ks, rfl⟩ := hpre
  induction ks using List.reverseRecOn with
  | nil => simpa using hjs
  | append_singleton ks k ih =>
    apply ih
    rw [← List.append_assoc, runAll_snoc] at hjs
    cases hrun : runAll step (is ++ ks) s with
    | none => simp [hrun] at hjs
    | some _ => rfl

/-- What holds of the states behind all prefixes of the inputs, where these are listed. -/
theorem of_mem_inits {ε : Type} {step : σ → ι → Except ε (σ × List ο)} {is js : List ι} {s t : σ}
    {outs : List ο} {P : σ → Prop}
    (hall : ∀ js ∈ is.inits, ∀ r ∈ (runAll step js s).toOption, P r.1) (hpre : js <+: is)
    (hrun : runAll step js s = .ok (t, outs)) : P t := by
  apply hall js ((List.mem_inits _ _).mpr hpre) (t, outs)
  rw [hrun]
  rfl

end NetworkServers.Machine
