import Mathlib.Data.List.Perm.Basic

/-!
# Removal by Swapping with the Last Element

An unordered array removes an element by putting the last one into its place. The elements
that stay are the others, and where a given element stands, counted from the end, can be
followed through a sequence of removals from the positions alone.
-/

namespace NetworkServers.SwapRemove

variable {α : Type*} {l : List α} {a b : α} {i gap : ℕ}

/-- Put the last element at position `i` and drop it at the end. -/
def swapRemove (l : List α) (i : ℕ) : List α :=
  match l.getLast? with
  | none => []
  | some last => (l.set i last).dropLast

theorem swapRemove_concat (l : List α) (last : α) (i : ℕ) :
    swapRemove (l ++ [last]) i = l.set i last := by
  rw [swapRemove, List.getLast?_concat]
  dsimp only
  rcases Nat.lt_or_ge i l.length with hlt | hge
  · rw [List.set_append_left _ _ hlt]
    exact List.dropLast_concat
  · rw [List.set_append_right _ _ hge, List.set_eq_of_length_le hge]
    cases i - l.length <;> exact List.dropLast_concat

theorem length_swapRemove (l : List α) (i : ℕ) : (swapRemove l i).length = l.length - 1 := by
  rcases List.eq_nil_or_concat l with rfl | ⟨l, last, rfl⟩
  · rfl
  · rw [List.concat_eq_append, swapRemove_concat, List.length_set, List.length_append]
    rfl

/-- What stays are the other elements. -/
theorem swapRemove_perm (h : l[i]? = some a) : l.Perm (a :: swapRemove l i) := by
  rcases List.eq_nil_or_concat l with rfl | ⟨l, last, rfl⟩
  · cases h
  rw [List.concat_eq_append] at h ⊢
  rw [swapRemove_concat]
  rcases Nat.lt_or_ge i l.length with hlt | hge
  · rw [List.getElem?_append_left hlt] at h
    obtain ⟨_, rfl⟩ := List.getElem?_eq_some_iff.mp h
    calc (l ++ [last]).Perm (last :: l) := List.perm_append_singleton last l
      _ |>.Perm (last :: l[i] :: l.eraseIdx i) := (List.getElem_cons_eraseIdx_perm hlt).symm.cons last
      _ |>.Perm (l[i] :: last :: l.eraseIdx i) := List.Perm.swap ..
      _ |>.Perm (l[i] :: l.set i last) := (List.set_perm_cons_eraseIdx hlt last).symm.cons _
  · rw [List.getElem?_append_right hge] at h
    obtain rfl : last = a := by
      obtain ⟨hlt, hget⟩ := List.getElem?_eq_some_iff.mp h
      simpa using hget
    rw [List.set_eq_of_length_le hge]
    exact List.perm_append_singleton last l

theorem nodup_swapRemove (hnodup : l.Nodup) (h : l[i]? = some a) : (swapRemove l i).Nodup :=
  (List.nodup_cons.mp ((swapRemove_perm h).nodup hnodup)).2

theorem mem_swapRemove_iff (hnodup : l.Nodup) (h : l[i]? = some a) :
    b ∈ swapRemove l i ↔ b ∈ l ∧ b ≠ a := by
  have hperm := swapRemove_perm h
  have hfresh := (List.nodup_cons.mp (hperm.nodup hnodup)).1
  rw [hperm.mem_iff, List.mem_cons]
  constructor
  · intro hb
    exact ⟨.inr hb, fun heq => hfresh (heq ▸ hb)⟩
  · rintro ⟨hb, hne⟩
    exact hb.resolve_left hne

/-! ## Following an element -/

/-- The element stands `gap` places in front of the last one. -/
def Stands (l : List α) (a : α) (gap : ℕ) : Prop := gap < l.length ∧ l[l.length - 1 - gap]? = some a

/-- The new distance from the end after a removal at position `i`, `none` if the element
itself has been removed: the last element goes to that position, and the others come one
place closer to the end. -/
def gapStep (count gap i : ℕ) : Option ℕ :=
  if i + gap + 1 = count then none else if gap = 0 then some (count - 2 - i) else some (gap - 1)

theorem stands_zero_iff : Stands l a 0 ↔ l.getLast? = some a := by
  rw [Stands, List.getLast?_eq_getElem?]
  constructor
  · exact fun h => h.2
  · intro h
    obtain ⟨hlt, -⟩ := List.getElem?_eq_some_iff.mp h
    exact ⟨Nat.lt_of_le_of_lt (Nat.zero_le _) hlt, h⟩

/-- An element is in one place only. -/
theorem Stands.unique (hnodup : l.Nodup) (h : Stands l a gap) {gap' : ℕ} (h' : Stands l a gap') :
    gap = gap' := by
  obtain ⟨hlt, hget⟩ := h
  obtain ⟨hlt', hget'⟩ := h'
  have hindex : l.length - 1 - gap = l.length - 1 - gap' :=
    (List.getElem?_inj (Nat.lt_of_le_of_lt (Nat.sub_le _ _) (by omega)) hnodup).mp
      (hget.trans hget'.symm)
  omega

/-- The distance after a removal of another element. -/
theorem Stands.after (h : Stands l a gap) (hi : i < l.length) {gap' : ℕ}
    (hgap : gapStep l.length gap i = some gap') : Stands (swapRemove l i) a gap' := by
  obtain ⟨hlt, hget⟩ := h
  rcases List.eq_nil_or_concat l with rfl | ⟨l, last, rfl⟩
  · cases hget
  rw [List.concat_eq_append] at *
  rw [List.length_append, List.length_singleton] at hlt hi hget hgap
  rw [Nat.add_sub_cancel] at hget
  unfold gapStep at hgap
  rw [Stands, swapRemove_concat, List.length_set]
  split at hgap
  · cases hgap
  rename_i hother
  split at hgap
  · -- the last element goes to the place that is free
    rename_i hzero
    obtain rfl := Option.some.inj hgap
    have hi' : i < l.length := by omega
    have hplace : l.length - 1 - (l.length + 1 - 2 - i) = i := by omega
    rw [hzero, Nat.sub_zero, List.getElem?_concat_length] at hget
    rw [hplace, List.getElem?_set_self hi']
    exact ⟨by omega, hget⟩
  · -- the others stay where they are
    rename_i hpos
    obtain rfl := Option.some.inj hgap
    have hplace : l.length - 1 - (gap - 1) = l.length - gap := by omega
    rw [hplace, List.getElem?_set_ne (by omega)]
    rw [List.getElem?_append_left (by omega)] at hget
    exact ⟨by omega, hget⟩

/-- The element itself has been removed. -/
theorem Stands.removed (h : Stands l a gap) (hnodup : l.Nodup)
    (hgap : gapStep l.length gap i = none) : a ∉ swapRemove l i := by
  obtain ⟨hlt, hget⟩ := h
  unfold gapStep at hgap
  split at hgap
  · rename_i hplace
    have hindex : l.length - 1 - gap = i := by omega
    rw [hindex] at hget
    exact fun hmem => ((mem_swapRemove_iff hnodup hget).mp hmem).2 rfl
  · split at hgap <;> cases hgap

/-- The length and the distance after removals at positions, the first one first. -/
def track (count : ℕ) (positions : List ℕ) : ℕ × Option ℕ :=
  positions.foldl (fun state i => (state.1 - 1, state.2.bind fun gap => gapStep state.1 gap i))
    (count, some 0)

theorem track_concat (count : ℕ) (positions : List ℕ) (i : ℕ) :
    track count (positions ++ [i]) =
      ((track count positions).1 - 1,
        (track count positions).2.bind fun gap => gapStep (track count positions).1 gap i) :=
  List.foldl_append ..

/-- What is known of an element that was the last one before the removals. -/
structure Tracked (l : List α) (a : α) (tracked : ℕ × Option ℕ) : Prop where
  nodup : l.Nodup
  length : l.length = tracked.1
  stands : ∀ gap, tracked.2 = some gap → Stands l a gap
  gone : tracked.2 = none → a ∉ l

theorem tracked_concat (hnodup : (l ++ [a]).Nodup) : Tracked (l ++ [a]) a (track (l.length + 1) []) where
  nodup := hnodup
  length := by simp [track]
  stands := by
    rintro gap hgap
    obtain rfl := Option.some.inj hgap
    exact stands_zero_iff.mpr List.getLast?_concat
  gone := fun h => nomatch h

/-- One more removal. -/
theorem Tracked.remove {count : ℕ} {positions : List ℕ} (h : Tracked l a (track count positions))
    (hi : l[i]? = some b) : Tracked (swapRemove l i) a (track count (positions ++ [i])) := by
  obtain ⟨hlt, -⟩ := List.getElem?_eq_some_iff.mp hi
  rw [track_concat, ← h.length]
  refine ⟨nodup_swapRemove h.nodup hi, length_swapRemove l i, fun gap' hgap => ?_, fun hgap => ?_⟩
  · obtain ⟨gap, htrack, hstep⟩ := Option.bind_eq_some_iff.mp hgap
    exact (h.stands gap htrack).after hlt hstep
  · dsimp only at hgap
    cases htrack : (track count positions).2 with
    | none => exact fun hmem => h.gone htrack ((mem_swapRemove_iff h.nodup hi).mp hmem).1
    | some gap =>
      rw [htrack, Option.bind_some] at hgap
      exact (h.stands gap htrack).removed h.nodup hgap

/-- **Following the last element**: after removals it is the last one again exactly if the
distance is zero. -/
theorem Tracked.getLast?_eq_iff {tracked : ℕ × Option ℕ} (h : Tracked l a tracked) :
    l.getLast? = some a ↔ tracked.2 = some 0 := by
  constructor
  · intro hlast
    have hzero := stands_zero_iff.mpr hlast
    cases htrack : tracked.2 with
    | none => exact absurd (List.mem_of_getLast? hlast) (h.gone htrack)
    | some gap => rw [(h.stands gap htrack).unique h.nodup hzero]
  · exact fun htrack => stands_zero_iff.mp (h.stands 0 htrack)

end NetworkServers.SwapRemove
