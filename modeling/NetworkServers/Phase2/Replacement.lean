import NetworkServers.Library.Runs
import NetworkServers.Phase2.DataFiles

/-!
# Replacing a Data File

`persist` writes a data file in place: `fs.writeFileSync` truncates the file and writes the
new bytes in one or more steps, while other workers run `retrieve`, and the process that
writes may stop after any step. A `retrieve` gets the complete old or the complete new value
if it does not look between the truncation and the last byte, and otherwise it throws.
-/

namespace NetworkServers.Phase2

open NetworkServers.Js NetworkServers.Runs

/-! ## The two files -/

/-- A data file. -/
inductive DataFile where
  | users
  | chats
deriving DecidableEq

/-- `retrieve` of the module for the file. -/
def DataFile.retrieve : DataFile → FileBytes → Option Json
  | .users => retrieveUsers
  | .chats => retrieveChats

/-- A value that the module for the file persists: an object or an array. -/
def DataFile.Holds : DataFile → Json → Prop
  | .users, data => data.Valid ∧ ∃ properties, data = .object properties
  | .chats, data => data.Valid ∧ ∃ elements, data = .array elements

/-! ## Steps -/

/-- One file, its writer and its readers. -/
structure Replacement where
  file : FileBytes
  /-- The bytes that `writeFileSync` has still to write, once it has truncated the file. -/
  remaining : Option (List UInt8)
  /-- The writing process has stopped. -/
  stopped : Bool
  /-- How many `retrieve`s have seen that the file exists and not read it yet. -/
  readers : ℕ
  /-- What the finished `retrieve`s have given, `none` for those that have thrown. -/
  results : List (Option Json)

/-- What happens next. -/
inductive ReplacementLabel where
  /-- `writeFileSync` opens the file. -/
  | truncate
  /-- It writes the next bytes. -/
  | write (count : ℕ)
  /-- The writing process stops. -/
  | stop
  /-- `fs.existsSync` of a `retrieve`. -/
  | check
  /-- `fs.readFileSync` of a `retrieve` that has found the file, and `JSON.parse`. -/
  | read

namespace Replacement

/-- Before `persist(data)`. -/
def initial (file : FileBytes) : Replacement :=
  { file := file, remaining := none, stopped := false, readers := 0, results := [] }

/-- One step. -/
def step (kind : DataFile) (data : Json) (s : Replacement) : ReplacementLabel → Option Replacement
  | .truncate =>
    if s.stopped = false ∧ s.remaining = none then
      some { s with file := some [], remaining := some (persist data) }
    else none
  | .write count =>
    match s.file, s.remaining with
    | some written, some rest =>
      if s.stopped = false ∧ 0 < count ∧ count ≤ rest.length then
        some { s with file := some (written ++ rest.take count)
                      remaining := some (rest.drop count) }
      else none
    | _, _ => none
  | .stop => some { s with stopped := true }
  | .check =>
    if s.file = none then some { s with results := s.results ++ [kind.retrieve none] }
    else some { s with readers := s.readers + 1 }
  | .read =>
    if 0 < s.readers then
      some { s with readers := s.readers - 1, results := s.results ++ [kind.retrieve s.file] }
    else none

/-- The steps as a relation. -/
def Steps (kind : DataFile) (data : Json) (s : Replacement) (l : ReplacementLabel)
    (t : Replacement) : Prop := s.step kind data l = some t

/-- Every `retrieve` so far has given the complete old or the complete new value. -/
def Atomic (old new : Json) (s : Replacement) : Prop :=
  ∀ result ∈ s.results, result = some old ∨ result = some new

/-- What a step adds to the results. -/
def added (kind : DataFile) (s : Replacement) : ReplacementLabel → List (Option Json)
  | .check => if s.file = none then [kind.retrieve none] else []
  | .read => [kind.retrieve s.file]
  | _ => []

/-- A `retrieve` reads the file before the truncation or after the last byte. -/
def ReadsWhole (s : Replacement) : ReplacementLabel → Prop
  | .read => s.remaining = none ∨ s.remaining = some []
  | _ => True

end Replacement

/-! ## Results -/

section Values

variable {kind : DataFile} {data : Json}

theorem DataFile.Holds.valid (h : kind.Holds data) : data.Valid := by
  cases kind with
  | users => exact h.1
  | chats => exact h.1

theorem DataFile.Holds.isCompound (h : kind.Holds data) : data.IsCompound := by
  cases kind with
  | users =>
    obtain ⟨-, properties, rfl⟩ := h
    trivial
  | chats =>
    obtain ⟨-, elements, rfl⟩ := h
    trivial

/-- The whole file gives its value. -/
theorem DataFile.retrieve_persist (h : kind.Holds data) :
    kind.retrieve (some (persist data)) = some data := by
  cases kind with
  | users => exact retrieveOr_persist h.valid (.object [])
  | chats => exact retrieveOr_persist h.valid (.array [])

/-- A part of the file gives nothing. -/
theorem DataFile.retrieve_part (h : kind.Holds data) {written rest : List UInt8}
    (hbytes : persist data = written ++ rest) (hrest : rest ≠ []) :
    kind.retrieve (some written) = none := by
  have hpart := Json.parse_part h.valid h.isCompound hbytes hrest
  cases kind with
  | users => exact hpart
  | chats => exact hpart

end Values

namespace Replacement

/-- What the file holds: the old bytes up to the truncation, and then what has been written. -/
structure Inv (kind : DataFile) (old new : Json) (file : FileBytes) (s : Replacement) : Prop where
  before : s.remaining = none → s.file = file
  during : ∀ rest, s.remaining = some rest →
    ∃ written, s.file = some written ∧ persist new = written ++ rest

section Runs

variable {kind : DataFile} {old new : Json} {file : FileBytes}

theorem inv_initial : Inv kind old new file (initial file) where
  before := fun _ => rfl
  during := fun _ h => nomatch h

/-- **What a step does** to the file and to the results. -/
theorem Steps.effect {s t : Replacement} {l : ReplacementLabel} (hstep : Steps kind new s l t) :
    t.results = s.results ++ s.added kind l ∧
    ((t.file = s.file ∧ t.remaining = s.remaining) ∨
      (t.file = some [] ∧ t.remaining = some (persist new)) ∨
      ∃ written rest count, s.file = some written ∧ s.remaining = some rest ∧
        t.file = some (written ++ rest.take count) ∧ t.remaining = some (rest.drop count)) := by
  unfold Steps Replacement.step at hstep
  cases l with
  | truncate =>
    dsimp only at hstep
    split at hstep
    · obtain rfl := Option.some.inj hstep
      exact ⟨(List.append_nil _).symm, .inr (.inl ⟨rfl, rfl⟩)⟩
    · cases hstep
  | write count =>
    dsimp only at hstep
    split at hstep
    · rename_i written rest hfile hremaining
      split at hstep
      · obtain rfl := Option.some.inj hstep
        exact ⟨(List.append_nil _).symm,
          .inr (.inr ⟨written, rest, count, hfile, hremaining, rfl, rfl⟩)⟩
      · cases hstep
    · cases hstep
  | stop =>
    obtain rfl := Option.some.inj hstep
    exact ⟨(List.append_nil _).symm, .inl ⟨rfl, rfl⟩⟩
  | check =>
    -- without a file the result is there at once
    dsimp only at hstep
    split at hstep
    · rename_i hfile
      obtain rfl := Option.some.inj hstep
      exact ⟨by rw [added, if_pos hfile], .inl ⟨rfl, rfl⟩⟩
    · rename_i hfile
      obtain rfl := Option.some.inj hstep
      exact ⟨by rw [added, if_neg hfile, List.append_nil], .inl ⟨rfl, rfl⟩⟩
  | read =>
    dsimp only at hstep
    split at hstep
    · obtain rfl := Option.some.inj hstep
      exact ⟨rfl, .inl ⟨rfl, rfl⟩⟩
    · cases hstep

theorem Inv.step {s t : Replacement} {l : ReplacementLabel} (h : Inv kind old new file s)
    (hstep : Steps kind new s l t) : Inv kind old new file t := by
  rcases hstep.effect.2 with ⟨hfile, hremaining⟩ | ⟨hfile, hremaining⟩ |
    ⟨written, rest, count, hwritten, hrest, hfile, hremaining⟩
  · -- nothing is written
    exact ⟨fun hnone => hfile.trans (h.before (hremaining ▸ hnone)),
      fun rest hrest => hfile ▸ h.during rest (hremaining ▸ hrest)⟩
  · -- the file has been truncated, and everything is left to write
    refine ⟨fun hnone => ?_, fun rest hrest => ⟨[], hfile, ?_⟩⟩
    · cases hremaining.symm.trans hnone
    · exact Option.some.inj (hremaining.symm.trans hrest)
  · refine ⟨fun hnone => ?_, fun rest' hrest' => ⟨_, hfile, ?_⟩⟩
    · cases hremaining.symm.trans hnone
    · -- what is taken from the rest goes to the end of the file
      obtain ⟨written', hwritten', hbytes⟩ := h.during rest hrest
      obtain rfl := Option.some.inj (hwritten.symm.trans hwritten')
      obtain rfl := Option.some.inj (hremaining.symm.trans hrest')
      rw [List.append_assoc, List.take_append_drop, hbytes]

/-- The results after a step are the right ones if those before it are and the added ones. -/
theorem atomic_step {s t : Replacement} {l : ReplacementLabel} (hstep : Steps kind new s l t) :
    t.Atomic old new ↔ s.Atomic old new ∧
      ∀ result ∈ s.added kind l, result = some old ∨ result = some new := by
  rw [Atomic, hstep.effect.1, List.forall_mem_append]
  rfl

/-- A `read` gives the complete value exactly if the file is whole. -/
theorem Inv.read_iff {s : Replacement} (h : Inv kind old new file s) (hnew : kind.Holds new)
    (hfile : kind.retrieve file = some old) :
    (kind.retrieve s.file = some old ∨ kind.retrieve s.file = some new) ↔ s.ReadsWhole .read := by
  unfold ReadsWhole
  cases hremaining : s.remaining with
  | none =>
    rw [h.before hremaining]
    exact iff_of_true (.inl hfile) (.inl rfl)
  | some rest =>
    obtain ⟨written, hwritten, hbytes⟩ := h.during rest hremaining
    rw [hwritten]
    by_cases hrest : rest = []
    · subst hrest
      rw [List.append_nil] at hbytes
      exact iff_of_true (.inr (hbytes ▸ DataFile.retrieve_persist hnew)) (.inr rfl)
    · -- a proper part of the file does not parse, and it is neither value
      rw [DataFile.retrieve_part hnew hbytes hrest]
      simp [hrest]

/-- **Atomic replacement**: while `persist` replaces the old value of a file, or a missing
file, every `retrieve` gives the complete old or the complete new value exactly if none reads
the file in between. -/
theorem atomic_iff (hnew : kind.Holds new) (hfile : kind.retrieve file = some old)
    {ls : List ReplacementLabel} {s : Replacement} (hrun : Run (Steps kind new) (initial file) ls s) :
    s.Atomic old new ↔ Run (Guarded ReadsWhole (Steps kind new)) (initial file) ls s := by
  constructor
  · intro hs
    apply hrun.guarded_of_final (Atomic old new) _ hs
    -- from the end of the run backwards, each step has added what is allowed only
    intro ls t l u ht hstep hu
    obtain ⟨hbefore, hadded⟩ := (atomic_step hstep).mp hu
    refine ⟨hbefore, ?_⟩
    have hinv : Inv kind old new file t := ht.invariant inv_initial fun _ _ _ h => h.step
    cases l with
    | truncate | write | stop | check => trivial
    | read => exact (hinv.read_iff hnew hfile).mp (hadded _ List.mem_cons_self)
  · intro hguarded
    let inv : Replacement → Prop := fun t => Inv kind old new file t ∧ t.Atomic old new
    have hinitial : inv (initial file) := ⟨inv_initial, fun _ h => absurd h List.not_mem_nil⟩
    refine (show inv s from hguarded.invariant hinitial ?_).2
    rintro t l u ⟨hinv, ht⟩ ⟨hguard, hstep⟩
    refine ⟨hinv.step hstep, (atomic_step hstep).mpr ⟨ht, ?_⟩⟩
    intro result hresult
    cases l with
    | truncate | write | stop => exact absurd hresult List.not_mem_nil
    | check =>
      -- a file that is missing has not been truncated
      rw [added] at hresult
      split at hresult
      · rename_i hmissing
        obtain rfl := List.mem_singleton.mp hresult
        cases hremaining : t.remaining with
        | none =>
          rw [← hmissing, hinv.before hremaining]
          exact .inl hfile
        | some rest =>
          obtain ⟨written, hwritten, -⟩ := hinv.during rest hremaining
          cases hmissing.symm.trans hwritten
      · exact absurd hresult List.not_mem_nil
    | read =>
      obtain rfl := List.mem_singleton.mp hresult
      exact (hinv.read_iff hnew hfile).mpr hguard

/-- A history of one record, which the first `add_chat` persists. -/
def helloChats : Json :=
  chatsJson [{ user := some (js "alice"), message := js "hello", timestamp := 7 }]

theorem holds_helloChats : DataFile.chats.Holds helloChats := ⟨chatsJson_valid _, _, rfl⟩

/-- The chat history is written for the first time in two pieces, and read before it and
behind the last byte. -/
def firstChats : List ReplacementLabel :=
  [.check, .truncate, .write 20, .check, .write 30, .read]

def firstWritten : Replacement :=
  (firstChats.foldlM (step .chats helloChats) (initial none)).get (by decide +kernel)

theorem atomic_iff_firstWritten :
    firstWritten.Atomic (.array []) helloChats ↔
      Run (Guarded ReadsWhole (Steps .chats helloChats)) (initial none) firstChats firstWritten :=
  atomic_iff holds_helloChats rfl (Run.of_foldlM (Option.some_get _).symm)

/-- A `retrieve` behind the truncation throws. -/
theorem not_atomic_truncated :
    ¬∀ (kind : DataFile) (old new : Json) (file : FileBytes) (ls : List ReplacementLabel)
      (s : Replacement), kind.Holds new → kind.retrieve file = some old →
      Run (Steps kind new) (initial file) ls s → s.Atomic old new := by
  intro hall
  have hrun : Run (Steps .chats helloChats) (initial none) [.truncate, .check, .read]
      { file := some [], remaining := some (persist helloChats), stopped := false, readers := 0
        results := [none] } := Run.of_foldlM rfl
  have hatomic := hall .chats (.array []) helloChats none _ _ holds_helloChats rfl hrun
  rcases hatomic none List.mem_cons_self with h | h
  · cases h
  · cases h

end Runs

end Replacement

end NetworkServers.Phase2
