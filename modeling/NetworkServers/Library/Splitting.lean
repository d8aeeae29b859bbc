import Mathlib.Data.List.Infix
import NetworkServers.Library.JsString

/-!
# Splitting at a Separator

How the parts of a split text lie in it: they join up to the text again, a part ends at
the first separator, and a text that is put together from parts without separators falls
into these parts.
-/

namespace NetworkServers.Js

section Split

variable {α : Type} [DecidableEq α] {sep line s : List α} {a c : α}

theorem splitFrom_eq_drop (sep s : List α) (skip : ℕ) :
    splitFrom sep s skip = splitFrom sep (s.drop skip) 0 := by
  induction s generalizing skip with
  | nil => simp [splitFrom]
  | cons c s ih =>
    cases skip with
    | zero => rfl
    | succ skip => exact ih skip

/-- Where the text does not begin with a separator, its first element goes to the first
part. -/
theorem split_cons (h : ¬sep <+: c :: s) : split sep (c :: s) = (split sep s).modifyHead (c :: ·) := by
  have hstart : sep.isPrefixOf (c :: s) = false := by
    rw [Bool.eq_false_iff]
    exact fun hp => h (List.isPrefixOf_iff_prefix.mp hp)
  rw [split, splitFrom, hstart]
  rfl

theorem headD_split_cons (h : ¬sep <+: c :: s) :
    (split sep (c :: s)).headD [] = c :: (split sep s).headD [] := by
  obtain ⟨part, parts, hparts⟩ := List.exists_cons_of_ne_nil (split_ne_nil sep s)
  rw [split_cons h, hparts]
  rfl

/-- A separator at the start ends an empty part. -/
theorem split_sep (a : α) (sep s : List α) :
    split (a :: sep) ((a :: sep) ++ s) = [] :: split (a :: sep) s := by
  have hstart : (a :: sep).isPrefixOf (a :: (sep ++ s)) := by
    rw [List.isPrefixOf_iff_prefix]
    exact ⟨s, rfl⟩
  show splitFrom (a :: sep) (a :: (sep ++ s)) 0 = _
  rw [splitFrom, if_pos hstart, splitFrom_eq_drop]
  simp [split]

/-- A text without some element of the separator is one part. -/
theorem split_of_not_mem (ha : a ∈ sep) (h : a ∉ s) : split sep s = [s] := by
  induction s with
  | nil => rfl
  | cons c s ih =>
    have hstart : ¬sep <+: c :: s := fun hp => h (hp.subset ha)
    rw [split_cons hstart, ih fun hmem => h (List.mem_cons_of_mem c hmem)]
    rfl

/-- The first part goes up to the first separator. -/
theorem split_append (h : a ∉ line) (s : List α) :
    split (a :: sep) (line ++ (a :: sep ++ s)) = line :: split (a :: sep) s := by
  induction line with
  | nil => exact split_sep a sep s
  | cons c line ih =>
    obtain ⟨hc, hline⟩ := not_or.mp (mt List.mem_cons.mpr h)
    have hstart : ¬(a :: sep) <+: c :: (line ++ (a :: sep ++ s)) :=
      fun hp => hc (List.cons_prefix_cons.mp hp).1
    rw [List.cons_append, split_cons hstart, ih hline]
    rfl

/-- A text without the separator's first element goes to the part that it stands in front
of. -/
theorem split_prepend (h : a ∉ line) (s : List α) :
    split (a :: sep) (line ++ s) = (split (a :: sep) s).modifyHead (line ++ ·) := by
  obtain ⟨part, parts, hparts⟩ := List.exists_cons_of_ne_nil (split_ne_nil (a :: sep) s)
  induction line with
  | nil => simp [hparts]
  | cons c line ih =>
    obtain ⟨hc, hline⟩ := not_or.mp (mt List.mem_cons.mpr h)
    have hstart : ¬(a :: sep) <+: c :: (line ++ s) := fun hp => hc (List.cons_prefix_cons.mp hp).1
    rw [List.cons_append, split_cons hstart, ih hline, hparts]
    rfl

/-- A text that is put together from parts, each with a separator behind it. -/
theorem split_flatMap {parts : List (List α)} (h : ∀ part ∈ parts, a ∉ part) (s : List α) :
    split (a :: sep) (parts.flatMap (· ++ a :: sep) ++ s) = parts ++ split (a :: sep) s := by
  induction parts with
  | nil => rfl
  | cons part parts ih =>
    obtain ⟨hpart, hparts⟩ := List.forall_mem_cons.mp h
    rw [List.flatMap_cons, List.append_assoc, List.append_assoc, split_append hpart, ih hparts]
    rfl

/-- The first part is all of a text that does not hold the separator. -/
theorem headD_split_eq_iff : (split (a :: sep) s).headD [] = s ↔ ¬(a :: sep) <:+: s := by
  induction s with
  | nil => exact iff_of_true rfl fun h => List.cons_ne_nil _ _ (List.infix_nil.mp h)
  | cons c s ih =>
    rw [List.infix_cons_iff, not_or]
    by_cases hstart : (a :: sep) <+: c :: s
    · -- a separator at the start ends an empty part
      obtain ⟨t, ht⟩ := hstart
      refine iff_of_false ?_ fun h => h.1 ⟨t, ht⟩
      rw [← ht, split_sep]
      exact fun h => List.cons_ne_nil _ _ h.symm
    · rw [headD_split_cons hstart, List.cons_inj_right, ih]
      exact (and_iff_right hstart).symm

/-- The parts join up to the text. -/
theorem intercalate_split (a : α) (sep s : List α) :
    (a :: sep).intercalate (split (a :: sep) s) = s := by
  induction hn : s.length using Nat.strongRecOn generalizing s with
  | ind n ih =>
    cases s with
    | nil => rfl
    | cons c s =>
      by_cases hstart : (a :: sep) <+: c :: s
      · -- the text begins with a separator, which ends an empty part
        obtain ⟨t, ht⟩ := hstart
        have hlt : t.length < n := by
          rw [← hn, ← ht]
          simp only [List.length_append, List.length_cons]
          omega
        rw [← ht, split_sep, List.intercalate_cons_of_ne_nil (split_ne_nil _ _),
          ih t.length hlt t rfl]
        rfl
      · -- the first character belongs to the first part
        have hrest := ih s.length (by simp [← hn]) s rfl
        obtain ⟨part, parts, hparts⟩ := List.exists_cons_of_ne_nil (split_ne_nil (a :: sep) s)
        rw [split_cons hstart, hparts, List.modifyHead_cons]
        rw [hparts] at hrest
        cases parts with
        | nil =>
          rw [List.intercalate_singleton] at hrest ⊢
          rw [hrest]
        | cons part' parts =>
          rw [List.intercalate_cons_cons] at hrest ⊢
          rw [← hrest]
          rfl

omit [DecidableEq α] in
/-- What stands in a joined text stands in a part or in the separator. -/
theorem mem_intercalate {parts : List (List α)} (h : c ∈ sep.intercalate parts) :
    c ∈ sep ∨ ∃ part ∈ parts, c ∈ part := by
  induction parts with
  | nil => exact absurd h List.not_mem_nil
  | cons first parts ih =>
    cases parts with
    | nil =>
      rw [List.intercalate_singleton] at h
      exact .inr ⟨first, List.mem_cons_self, h⟩
    | cons second parts =>
      rw [List.intercalate_cons_cons, List.append_assoc, List.mem_append, List.mem_append] at h
      rcases h with hfirst | hsep | hrest
      · exact .inr ⟨first, List.mem_cons_self, hfirst⟩
      · exact .inl hsep
      · refine (ih hrest).imp_right ?_
        rintro ⟨part, hpart, hc⟩
        exact ⟨part, List.mem_cons_of_mem _ hpart, hc⟩

/-- Whether a text includes another one. -/
theorem includes_iff (part s : List α) : includes part s ↔ part <:+: s := by
  rw [includes, List.any_eq_true, List.infix_iff_prefix_suffix]
  refine exists_congr fun t => ?_
  rw [List.mem_tails, List.isPrefixOf_iff_prefix, and_comm]

omit [DecidableEq α] in
/-- A part that begins with another element does not begin in front. -/
theorem infix_append_iff {part front : List α} (h : a ∉ front) :
    a :: part <:+: front ++ s ↔ a :: part <:+: s := by
  induction front with
  | nil => rfl
  | cons c front ih =>
    obtain ⟨hc, hfront⟩ := not_or.mp (mt List.mem_cons.mpr h)
    have hstart : ¬a :: part <+: c :: (front ++ s) := fun hp => hc (List.cons_prefix_cons.mp hp).1
    rw [List.cons_append, List.infix_cons_iff, or_iff_right hstart, ih hfront]

/-- A part stands in the text. -/
theorem infix_of_mem_split {part : List α} (h : part ∈ split (a :: sep) s) : part <:+: s := by
  have hmem : ∀ parts : List (List α), part ∈ parts → part <:+: (a :: sep).intercalate parts := by
    intro parts hpart
    induction parts with
    | nil => exact absurd hpart List.not_mem_nil
    | cons first parts ih =>
      cases parts with
      | nil =>
        rw [List.intercalate_singleton, List.mem_singleton.mp hpart]
      | cons second parts =>
        rw [List.intercalate_cons_cons]
        rcases List.mem_cons.mp hpart with rfl | hrest
        · exact ⟨[], _, by rw [List.nil_append, List.append_assoc]⟩
        · exact (ih hrest).trans (List.suffix_append _ _).isInfix
  rw [← intercalate_split a sep s]
  exact hmem _ h

/-- A separator that cannot overlap itself cuts a text wherever it stands. -/
theorem split_append_sep (ha : a ∉ sep) (xs ys : List α) :
    split (a :: sep) (xs ++ (a :: sep ++ ys)) = split (a :: sep) xs ++ split (a :: sep) ys := by
  induction hn : xs.length using Nat.strongRecOn generalizing xs with
  | ind n ih =>
    cases xs with
    | nil => exact split_sep a sep ys
    | cons c xs =>
      by_cases hstart : (a :: sep) <+: c :: xs
      · obtain ⟨t, ht⟩ := hstart
        have hlt : t.length < n := by
          rw [← hn, ← ht]
          simp only [List.length_append, List.length_cons]
          omega
        rw [← ht, List.append_assoc, split_sep, split_sep, ih t.length hlt t rfl]
        rfl
      · -- no separator begins here, not even one that goes on in the next one
        have hstart' : ¬(a :: sep) <+: c :: (xs ++ (a :: sep ++ ys)) := by
          rintro ⟨t, ht⟩
          rw [← List.cons_append] at ht
          rcases List.append_eq_append_iff.mp ht with ⟨w, hw, -⟩ | ⟨w, hw, hover⟩
          · exact hstart ⟨w, hw.symm⟩
          · cases w with
            | nil => exact hstart (hw ▸ by simp)
            | cons d w =>
              obtain rfl : a = d := (List.cons.inj hover).1
              rw [List.cons_append] at hw
              rw [(List.cons.inj hw).2] at ha
              exact ha (List.mem_append_right _ List.mem_cons_self)
        have hrest := ih xs.length (by simp [← hn]) xs rfl
        obtain ⟨part, parts, hparts⟩ := List.exists_cons_of_ne_nil (split_ne_nil (a :: sep) xs)
        rw [List.cons_append, split_cons hstart', split_cons hstart, hrest, hparts]
        rfl

/-- A separator of one element does. -/
theorem split_append_cons (a : α) (xs ys : List α) :
    split [a] (xs ++ a :: ys) = split [a] xs ++ split [a] ys :=
  split_append_sep List.not_mem_nil xs ys

/-- The parts do not hold the separator. -/
theorem not_mem_of_mem_split {part : List α} (h : part ∈ split [a] s) : a ∉ part := by
  induction s generalizing part with
  | nil =>
    obtain rfl := List.mem_singleton.mp h
    exact List.not_mem_nil
  | cons c s ih =>
    by_cases hc : c = a
    · have hsep : split [a] (c :: s) = [] :: split [a] s := hc ▸ split_sep a [] s
      rw [hsep] at h
      rcases List.mem_cons.mp h with rfl | hrest
      · exact List.not_mem_nil
      · exact ih hrest
    · have hstart : ¬[a] <+: c :: s := fun hp => hc (List.cons_prefix_cons.mp hp).1.symm
      obtain ⟨first, parts, hparts⟩ := List.exists_cons_of_ne_nil (split_ne_nil [a] s)
      rw [split_cons hstart, hparts] at h
      rw [hparts] at ih
      rcases List.mem_cons.mp h with rfl | hrest
      · refine fun hmem => ih List.mem_cons_self ((List.mem_cons.mp hmem).resolve_left ?_)
        exact fun heq => hc heq.symm
      · exact ih (List.mem_cons_of_mem first hrest)

end Split

end NetworkServers.Js
