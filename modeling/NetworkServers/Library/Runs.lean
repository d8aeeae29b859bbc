import Mathlib.Algebra.BigOperators.Group.Finset.Piecewise
import Mathlib.Algebra.Order.BigOperators.Group.Finset
import Mathlib.Tactic.Abel
import Mathlib.Data.Fintype.Basic
import Mathlib.Data.List.Sort

/-!
# Labelled Runs

Runs of a system whose steps carry labels: which thread moved, which request
arrived. The rules of this file turn what one step preserves into what a whole
run preserves, also for runs all of whose steps meet a side condition, and
compute sums over a family of threads of which one has moved.
-/

namespace NetworkServers.Runs

variable {σ ℓ : Type*}

/-! ## Runs -/

/-- `Run step s ls t`: the steps labelled `ls` lead from `s` to `t`. -/
inductive Run (step : σ → ℓ → σ → Prop) (s : σ) : List ℓ → σ → Prop where
  | nil : Run step s [] s
  | snoc {ls : List ℓ} {t u : σ} {l : ℓ} :
      Run step s ls t → step t l u → Run step s (ls ++ [l]) u

/-- The steps of a system that a side condition on the state before the step and on
the label lets through. -/
def Guarded (guard : σ → ℓ → Prop) (step : σ → ℓ → σ → Prop) (s : σ) (l : ℓ) (t : σ) : Prop :=
  guard s l ∧ step s l t

variable {step step' : σ → ℓ → σ → Prop} {guard : σ → ℓ → Prop} {s t u : σ} {ls ms : List ℓ}

theorem Run.single {l : ℓ} (h : step s l t) : Run step s [l] t :=
  Run.snoc Run.nil h

/-- Runs compose. -/
theorem Run.append (h₁ : Run step s ls t) (h₂ : Run step t ms u) : Run step s (ls ++ ms) u := by
  induction h₂ with
  | nil => simpa using h₁
  | snoc _ hstep ih =>
    rw [← List.append_assoc]
    exact ih.snoc hstep

/-- The last step of a run. -/
theorem Run.last {l : ℓ} (h : Run step s (ls ++ [l]) u) : ∃ t, Run step s ls t ∧ step t l u := by
  generalize hls : ls ++ [l] = ms at h
  cases h with
  | nil => simp at hls
  | snoc hrun hstep =>
    obtain ⟨rfl, hl⟩ := List.append_inj' hls rfl
    obtain rfl := List.singleton_inj.mp hl
    exact ⟨_, hrun, hstep⟩

/-- A run passes through a state after each of its prefixes. -/
theorem Run.before (h : Run step s ms u) (hpre : ls <+: ms) : ∃ t, Run step s ls t := by
  obtain ⟨ks, rfl⟩ := hpre
  induction ks using List.reverseRecOn generalizing u with
  | nil => exact ⟨u, by simpa using h⟩
  | append_singleton ks k ih =>
    rw [← List.append_assoc] at h
    obtain ⟨t, ht, -⟩ := h.last
    exact ih ht

/-- The steps of a function lead to one state. -/
theorem Run.unique {f : σ → ℓ → Option σ} (h₁ : Run (fun s l t => f s l = some t) s ls t)
    (h₂ : Run (fun s l t => f s l = some t) s ls u) : t = u := by
  induction h₁ generalizing u with
  | nil =>
    generalize hls : ([] : List ℓ) = ls at h₂
    cases h₂ with
    | nil => rfl
    | snoc => simp at hls
  | snoc _ hstep ih =>
    obtain ⟨v, hv, hlast⟩ := h₂.last
    obtain rfl := ih hv
    exact Option.some.inj (hstep.symm.trans hlast)

/-- The run of an executable system on a list of labels. -/
theorem Run.of_foldlM {f : σ → ℓ → Option σ} {ls : List ℓ} {s t : σ}
    (h : ls.foldlM f s = some t) : Run (fun s l t => f s l = some t) s ls t := by
  induction ls using List.reverseRecOn generalizing t with
  | nil =>
    obtain rfl : s = t := by simpa using h
    exact Run.nil
  | append_singleton ls l ih =>
    rw [List.foldlM_append] at h
    obtain ⟨u, hu, hlast⟩ := Option.bind_eq_some_iff.mp h
    exact (ih hu).snoc (by simpa using hlast)

/-- A guarded run of an executable system goes on with a label that gives a step. -/
theorem Run.snoc_get {f : σ → ℓ → Option σ} {l : ℓ}
    (h : Run (Guarded guard fun s l t => f s l = some t) s ls t) (hguard : guard t l)
    (hsome : (f t l).isSome) :
    Run (Guarded guard fun s l t => f s l = some t) s (ls ++ [l]) ((f t l).get hsome) :=
  h.snoc ⟨hguard, (Option.some_get hsome).symm⟩

/-- A run whose steps are also steps of another system is a run of that system. -/
theorem Run.mono (hsub : ∀ s l t, step s l t → step' s l t) (h : Run step s ls t) :
    Run step' s ls t := by
  induction h with
  | nil => exact Run.nil
  | snoc _ hstep ih => exact ih.snoc (hsub _ _ _ hstep)

/-- A guarded run of an executable system on a list of labels. -/
theorem Run.of_guarded_foldlM {f : σ → ℓ → Option σ} [∀ s l, Decidable (guard s l)]
    (h : ls.foldlM (fun s l => if guard s l then f s l else none) s = some t) :
    Run (Guarded guard fun s l t => f s l = some t) s ls t :=
  (Run.of_foldlM h).mono fun _ _ _ hstep => Option.ite_none_right_eq_some.mp hstep

/-- Forgetting the side condition of a guarded run. -/
theorem Run.unguarded (h : Run (Guarded guard step) s ls t) : Run step s ls t :=
  h.mono fun _ _ _ hstep => hstep.2

/-- The steps of a run of an executable system have met a side condition that can be checked
along its labels. -/
theorem Run.guarded_of_foldlM {f : σ → ℓ → Option σ} [∀ s l, Decidable (guard s l)]
    (h : Run (fun s l t => f s l = some t) s ls t)
    (hsome : (ls.foldlM (fun s l => if guard s l then f s l else none) s).isSome) :
    Run (Guarded guard fun s l t => f s l = some t) s ls t := by
  obtain ⟨u, hu⟩ := Option.isSome_iff_exists.mp hsome
  have hguarded := Run.of_guarded_foldlM hu
  rw [h.unique hguarded.unguarded]
  exact hguarded

/-- A side condition on the labels can be checked on the list. -/
theorem Run.guarded_of_labels {guard : ℓ → Prop} (h : Run step s ls t) (hguard : ∀ l ∈ ls, guard l) :
    Run (Guarded (fun _ l => guard l) step) s ls t := by
  induction h with
  | nil => exact Run.nil
  | snoc _ hstep ih =>
    rw [List.forall_mem_append] at hguard
    exact (ih hguard.1).snoc ⟨List.forall_mem_singleton.mp hguard.2, hstep⟩

/-- The labels of a run all of whose steps have met a side condition on them. -/
theorem Run.labels_of_guarded {guard : ℓ → Prop}
    (h : Run (Guarded (fun _ l => guard l) step) s ls t) : ∀ l ∈ ls, guard l := by
  induction h with
  | nil => exact fun l hl => absurd hl List.not_mem_nil
  | snoc _ hstep ih =>
    rw [List.forall_mem_append]
    exact ⟨ih, List.forall_mem_singleton.mpr hstep.1⟩

/-- Where a property of the last state goes back to the states before, and tells that each step
has met a side condition, the whole run has met it. -/
theorem Run.guarded_of_final (P : σ → Prop)
    (hback : ∀ ls t l u, Run step s ls t → step t l u → P u → P t ∧ guard t l)
    (h : Run step s ls t) (hP : P t) : Run (Guarded guard step) s ls t := by
  induction h with
  | nil => exact Run.nil
  | snoc hrun hlast ih =>
    obtain ⟨hbefore, hguard⟩ := hback _ _ _ _ hrun hlast hP
    exact (ih hbefore).snoc ⟨hguard, hlast⟩

/-- **Invariant rule**: what holds at the start and is preserved by every step holds
after every run. -/
theorem Run.invariant {inv : σ → Prop} (h0 : inv s)
    (hstep : ∀ t l u, inv t → step t l u → inv u) (h : Run step s ls t) : inv t := by
  induction h with
  | nil => exact h0
  | snoc _ hlast ih => exact hstep _ _ _ ih hlast

/-- A relation to the starting state that every step preserves, from states that
satisfy an invariant. -/
theorem Run.preserves {inv : σ → Prop} {rel : σ → σ → Prop} (hrefl : ∀ s, rel s s)
    (htrans : ∀ s t u, rel s t → rel t u → rel s u) (hinv : inv s)
    (hstep : ∀ t l u, inv t → step t l u → inv u ∧ rel t u) (h : Run step s ls t) :
    inv t ∧ rel s t := by
  induction h with
  | nil => exact ⟨hinv, hrefl s⟩
  | snoc _ hlast ih =>
    obtain ⟨hu, hrel⟩ := hstep _ _ _ ih.1 hlast
    exact ⟨hu, htrans _ _ _ ih.2 hrel⟩

/-- **Simulation rule**: where a relation to the states of another system holds at the start, and
that system can follow every step by steps of its own, it can follow every run. -/
theorem Run.simulates {σ' ℓ' : Type*} {step' : σ' → ℓ' → σ' → Prop} {R : σ → σ' → Prop} {s' : σ'}
    (h0 : R s s')
    (hstep : ∀ t l u t', R t t' → step t l u → ∃ ls' u', Run step' t' ls' u' ∧ R u u')
    (h : Run step s ls t) : ∃ ls' t', Run step' s' ls' t' ∧ R t t' := by
  induction h with
  | nil => exact ⟨[], s', Run.nil, h0⟩
  | snoc _ hlast ih =>
    obtain ⟨ls', t', hrun, hrel⟩ := ih
    obtain ⟨ms', u', hmore, hrel'⟩ := hstep _ _ _ _ hrel hlast
    exact ⟨ls' ++ ms', u', hrun.append hmore, hrel'⟩

/-! ## Families of threads -/

/-- When one member of a family moves, a sum over the family changes by what that
member contributes. -/
theorem sum_update_add {ι ω M : Type*} [Fintype ι] [DecidableEq ι] [AddCommMonoid M]
    (f : ι → ω) (g : ω → M) (i : ι) (w : ω) :
    (∑ j, g (Function.update f i w j)) + g (f i) = (∑ j, g (f j)) + g w := by
  have hcomp : (fun j => g (Function.update f i w j)) =
      Function.update (fun j => g (f j)) i (g w) := by
    funext j
    by_cases hj : j = i
    · subst hj
      simp
    · simp [hj]
  rw [hcomp, Finset.sum_update_of_mem (Finset.mem_univ i),
    ← Finset.add_sum_erase Finset.univ (fun j => g (f j)) (Finset.mem_univ i),
    Finset.sdiff_singleton_eq_erase]
  abel

/-- A sum of zeros and ones over a family with a zero is less than the family's size. -/
theorem sum_lt_card {ι : Type*} [Fintype ι] {g : ι → ℕ} (hle : ∀ j, g j ≤ 1) {i : ι}
    (hi : g i = 0) : ∑ j, g j < Fintype.card ι := by
  calc ∑ j, g j < ∑ _j : ι, 1 :=
        Finset.sum_lt_sum (fun j _ => hle j) ⟨i, Finset.mem_univ i, by omega⟩
    _ = Fintype.card ι := by simp

/-- The number of members of a family that have a property. -/
def numberOf {ι ω : Type*} [Fintype ι] (p : ω → Bool) (f : ι → ω) : ℕ := ∑ i, (p (f i)).toNat

/-- When one member moves, the number changes by that member. -/
theorem numberOf_update {ι ω : Type*} [Fintype ι] [DecidableEq ι] (p : ω → Bool) (f : ι → ω)
    (i : ι) (w : ω) :
    numberOf p (Function.update f i w) + (p (f i)).toNat = numberOf p f + (p w).toNat :=
  sum_update_add f (fun w => (p w).toNat) i w

/-- A weaker property is had by at least as many. -/
theorem numberOf_mono {ι ω : Type*} [Fintype ι] {p q : ω → Bool} (h : ∀ w, p w → q w)
    (f : ι → ω) : numberOf p f ≤ numberOf q f := by
  apply Finset.sum_le_sum
  intro i _
  exact Bool.toNat_le_toNat (h (f i))

theorem numberOf_eq_zero {ι ω : Type*} [Fintype ι] {p : ω → Bool} {f : ι → ω} :
    numberOf p f = 0 ↔ ∀ i, p (f i) = false := by
  simp [numberOf, Finset.sum_eq_zero_iff]

/-! ## Logs -/

/-- An element of a log that has grown by one is the new one, or was in the log before. -/
theorem snoc_eq_append_cons {α : Type*} {l before after : List α} {a b : α}
    (h : l ++ [b] = before ++ a :: after) :
    (after = [] ∧ a = b) ∨ ∃ after', after = after' ++ [b] ∧ l = before ++ a :: after' := by
  rcases List.eq_nil_or_concat' after with rfl | ⟨after', last, rfl⟩
  · obtain ⟨-, hlast⟩ := List.append_inj' h rfl
    exact .inl ⟨rfl, (List.cons.inj hlast).1.symm⟩
  · rw [← List.cons_append, ← List.append_assoc] at h
    obtain ⟨hl, hlast⟩ := List.append_inj' h rfl
    exact .inr ⟨after', by rw [(List.cons.inj hlast).1], hl⟩

/-- An element of a list without repetitions is contributed at one place only. -/
theorem place_eq_of_nodup {α β : Type} {f : α → List β} {l₁ l₂ m₁ m₂ : List α} {a b : α} {x : β}
    (heq : l₁ ++ a :: l₂ = m₁ ++ b :: m₂) (hnodup : ((l₁ ++ a :: l₂).flatMap f).Nodup)
    (ha : x ∈ f a) (hb : x ∈ f b) : l₁ = m₁ ∧ a = b ∧ l₂ = m₂ := by
  rcases List.append_eq_append_iff.mp heq with ⟨mid, rfl, htail⟩ | ⟨mid, rfl, htail⟩
  · cases mid with
    | nil =>
      simp only [List.nil_append, List.cons.injEq] at htail
      exact ⟨by simp, htail⟩
    | cons c mid =>
      -- `b` stands behind `a`
      simp only [List.cons_append, List.cons.injEq] at htail
      obtain ⟨rfl, rfl⟩ := htail
      simp only [List.flatMap_append, List.flatMap_cons] at hnodup
      have hdisjoint := (List.nodup_append.mp (List.nodup_append.mp hnodup).2.1).2.2
      exact absurd rfl (hdisjoint x ha x (by simp [hb]))
  · cases mid with
    | nil =>
      simp only [List.nil_append, List.cons.injEq] at htail
      exact ⟨by simp, htail.1.symm, htail.2.symm⟩
    | cons c mid =>
      simp only [List.cons_append, List.cons.injEq] at htail
      obtain ⟨rfl, rfl⟩ := htail
      simp only [List.append_assoc, List.cons_append, List.flatMap_append,
        List.flatMap_cons] at hnodup
      have hdisjoint := (List.nodup_append.mp (List.nodup_append.mp hnodup).2.1).2.2
      exact absurd rfl (hdisjoint x hb x (by simp [ha]))

/-- In a list of increasing numbers, any two of its elements stand in their order. -/
theorem pair_sublist_iff {l : List ℕ} (hsorted : l.Pairwise (· < ·)) {m n : ℕ} :
    [m, n].Sublist l ↔ m ∈ l ∧ n ∈ l ∧ m < n := by
  constructor
  · intro h
    have hpair := List.pairwise_pair.mp (hsorted.sublist h)
    exact ⟨h.subset List.mem_cons_self, h.subset (List.mem_cons_of_mem _ List.mem_cons_self), hpair⟩
  · rintro ⟨hm, hn, hlt⟩
    have hpair : [m, n].Pairwise (· < ·) := List.pairwise_pair.mpr hlt
    apply List.sublist_of_subperm_of_pairwise _ hpair hsorted
    apply List.subperm_of_subset (hpair.imp Nat.ne_of_lt)
    exact List.cons_subset.mpr ⟨hm, List.cons_subset.mpr ⟨hn, List.nil_subset _⟩⟩

/-- A sorted list falls into the elements below its bound and those at the bound. -/
theorem filter_lt_append_filter_eq {α : Type*} {f : α → ℕ} {n : ℕ} {l : List α}
    (hsorted : l.Pairwise fun a b => f a ≤ f b) (hle : ∀ a ∈ l, f a < n + 1) :
    l.filter (f · < n) ++ l.filter (f · = n) = l := by
  induction l with
  | nil => rfl
  | cons a l ih =>
    obtain ⟨ha, hl⟩ := List.pairwise_cons.mp hsorted
    have hrest := ih hl fun b hb => hle b (List.mem_cons_of_mem _ hb)
    rcases Nat.lt_succ_iff_lt_or_eq.mp (hle a List.mem_cons_self) with hlt | heq
    · rw [List.filter_cons_of_pos (by simpa using hlt),
        List.filter_cons_of_neg (by simpa using hlt.ne), List.cons_append, hrest]
    · -- nothing below the bound can follow
      have hnone : (a :: l).filter (f · < n) = [] := by
        simp only [List.filter_eq_nil_iff, decide_eq_true_iff, not_lt, List.forall_mem_cons]
        exact ⟨heq.ge, fun b hb => heq.ge.trans (ha b hb)⟩
      have hall : (a :: l).filter (f · = n) = a :: l := by
        simp only [List.filter_eq_self, decide_eq_true_iff, List.forall_mem_cons]
        refine ⟨heq, fun b hb => le_antisymm ?_ (heq.ge.trans (ha b hb))⟩
        exact Nat.le_of_lt_succ (hle b (List.mem_cons_of_mem _ hb))
      rw [hnone, hall, List.nil_append]

/-- **A sorted log** is what each number has contributed, one number after the other. -/
theorem eq_flatMap_filter {α : Type*} {f : α → ℕ} {n : ℕ} {l : List α}
    (hsorted : l.Pairwise fun a b => f a ≤ f b) (hlt : ∀ a ∈ l, f a < n) :
    l = (List.range n).flatMap fun k => l.filter (f · = k) := by
  induction n generalizing l with
  | zero => exact List.eq_nil_iff_forall_not_mem.mpr fun a ha => absurd (hlt a ha) (Nat.not_lt_zero _)
  | succ n ih =>
    have hlow := ih (hsorted.filter fun a => f a < n) fun a ha => by
      simpa using (List.mem_filter.mp ha).2
    -- below the bound, the contributions are those of the part below the bound
    have hparts : (List.range n).flatMap (fun k => (l.filter (f · < n)).filter (f · = k)) =
        (List.range n).flatMap fun k => l.filter (f · = k) := by
      apply List.flatMap_congr
      intro k hk
      rw [List.filter_filter]
      apply List.filter_congr
      intro a _
      have hk : k < n := List.mem_range.mp hk
      by_cases hak : f a = k
      · simp [hak, hk]
      · simp [hak]
    rw [List.range_succ, List.flatMap_append, List.flatMap_singleton, ← hparts, ← hlow]
    exact (filter_lt_append_filter_eq hsorted hlt).symm

end NetworkServers.Runs
