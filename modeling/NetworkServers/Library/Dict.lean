import Mathlib.Data.List.Basic
import Mathlib.Data.List.Nodup

/-!
# Insertion-Ordered Dictionaries

A dictionary that remembers the order in which its keys were added, as a list of
entries that carries the proof that no key occurs twice. Two dictionaries agree on a
key after an update in the ways that `get?_set_self` and `get?_set_ne` say, and these
are all that users of a dictionary need.
-/

namespace NetworkServers

/-- A dictionary with keys in order of insertion. -/
structure Dict (κ V : Type) where
  entries : List (κ × V)
  nodup : (entries.map Prod.fst).Nodup

namespace Dict

variable {κ V : Type}

instance [DecidableEq κ] [DecidableEq V] : DecidableEq (Dict κ V) := fun d d' =>
  decidable_of_iff (d.entries = d'.entries) ⟨fun h => by cases d; cases d'; cases h; rfl,
    fun h => h ▸ rfl⟩

/-- The dictionary without entries. -/
def empty : Dict κ V := { entries := [], nodup := List.nodup_nil }

/-- The keys in order of insertion. -/
def keys (d : Dict κ V) : List κ := d.entries.map Prod.fst

variable [DecidableEq κ]

/-- The value of the entry for a key. -/
def get? (d : Dict κ V) (k : κ) : Option V :=
  (d.entries.find? fun entry => entry.1 = k).map Prod.snd

/-- Replace the value of an entry in a list of entries, or append the entry. -/
def setEntry (k : κ) (v : V) : List (κ × V) → List (κ × V)
  | [] => [(k, v)]
  | (k', v') :: entries => if k' = k then (k, v) :: entries else (k', v') :: setEntry k v entries

theorem keys_setEntry (k : κ) (v : V) (entries : List (κ × V)) :
    (setEntry k v entries).map Prod.fst =
      if k ∈ entries.map Prod.fst then entries.map Prod.fst else entries.map Prod.fst ++ [k] := by
  induction entries with
  | nil => rfl
  | cons entry entries ih =>
    obtain ⟨k', v'⟩ := entry
    by_cases hk : k' = k
    · simp [setEntry, hk]
    · have hk' : ¬k = k' := fun h => hk h.symm
      simp only [setEntry, if_neg hk, List.map_cons, ih, List.mem_cons, hk', false_or]
      split <;> rfl

/-- Set the value for a key. -/
def set (d : Dict κ V) (k : κ) (v : V) : Dict κ V where
  entries := setEntry k v d.entries
  nodup := by
    rw [keys_setEntry]
    split
    · exact d.nodup
    · rename_i hk
      refine List.Nodup.append d.nodup (List.nodup_singleton k) ?_
      exact List.disjoint_singleton.mpr hk

@[simp] theorem get?_empty (k : κ) : (empty : Dict κ V).get? k = none := rfl

theorem find?_setEntry (k k' : κ) (v : V) (entries : List (κ × V)) :
    ((setEntry k v entries).find? fun entry => entry.1 = k').map Prod.snd =
      if k' = k then some v else (entries.find? fun entry => entry.1 = k').map Prod.snd := by
  induction entries with
  | nil =>
    by_cases hk : k = k'
    · simp [setEntry, hk]
    · have hk' : ¬k' = k := fun h => hk h.symm
      simp [setEntry, hk, hk']
  | cons entry entries ih =>
    obtain ⟨k₀, v₀⟩ := entry
    by_cases hk₀ : k₀ = k
    · subst hk₀
      by_cases hk : k₀ = k'
      · simp [setEntry, hk]
      · have hk' : ¬k' = k₀ := fun h => hk h.symm
        simp [setEntry, hk, hk']
    · simp only [setEntry, if_neg hk₀, List.find?_cons]
      by_cases hk : k₀ = k'
      · subst hk
        simp [hk₀]
      · simp only [hk, decide_false]
        exact ih

theorem get?_set (d : Dict κ V) (k k' : κ) (v : V) :
    (d.set k v).get? k' = if k' = k then some v else d.get? k' :=
  find?_setEntry k k' v d.entries

@[simp] theorem get?_set_self (d : Dict κ V) (k : κ) (v : V) : (d.set k v).get? k = some v := by
  rw [get?_set, if_pos rfl]

theorem get?_set_ne (d : Dict κ V) {k k' : κ} (v : V) (h : k' ≠ k) :
    (d.set k v).get? k' = d.get? k' := by
  rw [get?_set, if_neg h]

end Dict

end NetworkServers
