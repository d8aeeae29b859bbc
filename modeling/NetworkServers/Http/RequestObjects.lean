import Mathlib.Tactic.Abel
import NetworkServers.Http.RequestMemory

/-!
# The Objects of a Request

Which objects belong to a table of headers and to a request, and what the functions on them do
with these objects: on the heap they implement the functions on values, and every object that they
make is accounted for.
-/

namespace NetworkServers.Http.RequestMemory

open NetworkServers.CString (bytes CState Memory readByte strtok)
open NetworkServers.HeapMemory NetworkServers.Http.BodyOwnership NetworkServers.Machine
open NetworkServers.Http.HeaderTable (Field)

/-- Objects with their addresses. -/
abbrev Cells := Multiset (ℕ × Object)

/-! ## Tables of headers -/

/-- The strings of a field. -/
def fieldCells (entry : Field × Header) : Cells :=
  {(entry.1.name, .text entry.2.name)} + {(entry.1.value, .text entry.2.value)}

def entryCells (entries : List (Field × Header)) : Cells := (entries.map fieldCells).sum

/-- The array, once it has been allocated. -/
def arrayCells (fields : List Field) : Option ℕ → Cells
  | none => 0
  | some array => {(array, .fields fields)}

/-- A table of headers, and everything that it points to. -/
def OwnsTable (headers : ℕ) (table : Headers) (own : Cells) : Prop :=
  ∃ array entries, (array = none → entries = []) ∧ table.fields = entries.map Prod.snd ∧
    own = {(headers, .headers array entries.length)} +
      (arrayCells (entries.map Prod.fst) array + entryCells entries)

section Sums

variable {M : Type} [AddCommMonoid M]

/-- The third and the fourth part of a sum to the front. -/
theorem add_pull₂ (a b c d : M) : a + (b + (c + d)) = c + (a + (b + d)) := by abel

theorem add_pull₃ (a b c d e : M) : a + (b + (c + (d + e))) = d + (a + (b + (c + e))) := by abel

theorem add_last₂ (a b c : M) : a + (b + c) = c + (a + b) := by abel

theorem add_last₃ (a b c d : M) : a + (b + (c + d)) = d + (a + (b + c)) := by abel

end Sums

section Tables

variable {own rest : Cells} {headers : ℕ} {table : Headers} {array : Option ℕ}
  {entries : List (Field × Header)}

theorem implements_strdup (own : Cells) (text : List UInt8) :
    Implements own (strdup text) (.ok ()) fun p _ own' => own' = {(p, .text text)} + own :=
  .alloc own _

theorem implements_nonNull (own : Cells) (p : ℕ) :
    Implements own (nonNull (some p)) (.ok ()) fun q _ own' => q = p ∧ own' = own :=
  .ret ⟨rfl, rfl⟩

theorem implements_readText {p : ℕ} {text : List UInt8} (hmem : (p, .text text) ∈ own) :
    Implements own (readText p) (.ok ()) fun text' _ own' => text' = text ∧ own' = own :=
  .load hmem rfl

theorem implements_headersCreate (own : Cells) :
    Implements own headersCreate (.ok ())
      fun p _ own' => ∃ cells, OwnsTable p Http.headersCreate cells ∧ own' = cells + own := by
  refine (Implements.alloc own _).mono ?_
  rintro p _ _ rfl
  refine ⟨_, ⟨none, [], fun _ => rfl, rfl, rfl⟩, ?_⟩
  simp [arrayCells, entryCells]

theorem implements_growFields {fields : List Field} (hown : own = arrayCells fields array + rest)
    (hnone : array = none → fields = []) :
    Implements own (growFields array) (.ok ())
      fun p _ own' => own' = {(p, .fields fields)} + rest := by
  cases array with
  | none =>
    rw [hnone rfl]
    exact (Implements.alloc _ _).of_eq (hown.trans (zero_add rest))
  | some p => exact .realloc hown

/-- `headers_set` stores the strings of one more field. -/
theorem implements_headersSet (h : OwnsTable headers table own) (name value : Option (List UInt8)) :
    Implements own (headersSet headers name value) (.ok (Http.headersSet table name value))
      fun _ table' own' => OwnsTable headers table' own' := by
  obtain ⟨array, entries, hnone, hfields, rfl⟩ := h
  unfold headersSet
  refine Implements.step (.load (Implements.mem_of_eq rfl) rfl) ?_
  rintro _ _ ⟨rfl, rfl⟩
  refine (Implements.store rfl _).step ?_
  rintro _ _ rfl
  -- the array makes room for one field, and gets its two copies
  refine (implements_growFields (add_left_comm _ _ _) fun harray => by rw [hnone harray]; rfl).step ?_
  rintro array' _ rfl
  refine (Implements.store (add_left_comm _ _ _) _).step ?_
  rintro _ _ rfl
  refine (implements_strdup _ _).step ?_
  rintro nameCopy _ rfl
  refine (implements_strdup _ _).step ?_
  rintro valueCopy _ rfl
  refine Implements.step (.load (Implements.mem_of_eq (add_pull₃ _ _ _ _ _)) rfl) ?_
  rintro _ _ ⟨rfl, rfl⟩
  refine (Implements.store (add_pull₃ _ _ _ _ _) _).last ?_
  rintro _ _ rfl
  refine ⟨some array',
    entries ++ [(⟨nameCopy, valueCopy⟩, ⟨(name.getD []).map tolower, value.getD []⟩)], nofun, ?_, ?_⟩
  · rw [Http.headersSet, hfields, List.map_append]
    rfl
  · simp only [entryCells, arrayCells, fieldCells, List.map_append, List.length_append,
      List.sum_append, List.map_cons, List.map_nil, List.sum_cons, List.sum_nil, List.length_cons,
      List.length_nil]
    abel

/-- The strings of the fields are among the objects. -/
def StoredIn (own : Cells) (entries : List (Field × Header)) : Prop :=
  ∀ entry ∈ entries, (entry.1.name, .text entry.2.name) ∈ own ∧
    (entry.1.value, .text entry.2.value) ∈ own

theorem implements_renderFields (h : StoredIn own entries) :
    Implements own (renderFields (entries.map Prod.fst)) (.ok ())
      fun text _ own' => text = (entries.map Prod.snd).flatMap headerLine ∧ own' = own := by
  induction entries with
  | nil => exact .ret ⟨rfl, rfl⟩
  | cons entry entries ih =>
    obtain ⟨⟨hname, hvalue⟩, hrest⟩ := List.forall_mem_cons.mp h
    rw [List.map_cons, renderFields]
    refine (implements_readText hname).step ?_
    rintro _ _ ⟨rfl, rfl⟩
    refine (implements_readText hvalue).step ?_
    rintro _ _ ⟨rfl, rfl⟩
    refine (ih hrest).step ?_
    rintro _ _ ⟨rfl, rfl⟩
    exact .ret ⟨rfl, rfl⟩

theorem implements_freeFields (hown : own = entryCells entries + rest) :
    Implements own (freeFields (entries.map Prod.fst)) (.ok ()) fun _ _ own' => own' = rest := by
  induction entries generalizing own with
  | nil => exact .ret (hown.trans (zero_add rest))
  | cons entry entries ih =>
    -- the strings of the first field, in front of everything else
    have hname : own = {(entry.1.name, .text entry.2.name)} +
        ({(entry.1.value, .text entry.2.value)} + (entryCells entries + rest)) := by
      rw [hown, entryCells, List.map_cons, List.sum_cons, fieldCells, entryCells]
      abel
    rw [List.map_cons, freeFields]
    refine (Implements.free hname).step ?_
    rintro _ _ rfl
    refine (Implements.free rfl).step ?_
    rintro _ _ rfl
    exact ih rfl

theorem implements_readFields (hnone : array = none → entries = [])
    (hown : own = arrayCells (entries.map Prod.fst) array + rest) :
    Implements own (readFields array entries.length) (.ok ())
      fun fields _ own' => fields = entries.map Prod.fst ∧ own' = own := by
  unfold readFields
  by_cases hempty : entries.length = 0
  · rw [if_pos hempty, List.eq_nil_of_length_eq_zero hempty]
    exact .ret ⟨rfl, rfl⟩
  -- a table with fields has an array
  cases array with
  | none => exact absurd (congrArg List.length (hnone rfl)) hempty
  | some p =>
    rw [if_neg hempty]
    refine (implements_nonNull own p).step ?_
    rintro _ _ ⟨rfl, rfl⟩
    refine Implements.step (.load (Implements.mem_of_eq hown) rfl) ?_
    rintro _ _ ⟨rfl, rfl⟩
    have hlength : entries.length = (entries.map Prod.fst).length := (List.length_map _).symm
    rw [if_pos hlength.le, hlength, List.take_length]
    exact .ret ⟨rfl, rfl⟩

theorem mem_entryCells {entry : Field × Header} {cell : ℕ × Object} (hentry : entry ∈ entries)
    (hcell : cell ∈ fieldCells entry) : cell ∈ entryCells entries := by
  induction entries with
  | nil => cases hentry
  | cons other entries ih =>
    rw [entryCells, List.map_cons, List.sum_cons, Multiset.mem_add]
    rcases List.mem_cons.mp hentry with rfl | hentry
    · exact .inl hcell
    · exact .inr (ih hentry)

theorem storedIn_entryCells (hown : own = entryCells entries + rest) : StoredIn own entries := by
  intro entry hentry
  have hcells : ∀ cell ∈ fieldCells entry, cell ∈ own := fun cell hcell =>
    hown ▸ Multiset.mem_add.mpr (.inl (mem_entryCells hentry hcell))
  exact ⟨hcells _ (by simp [fieldCells]), hcells _ (by simp [fieldCells])⟩

/-- `headers_to_string` makes one string. -/
theorem implements_headersToString (h : OwnsTable headers table own) :
    Implements own (headersToString headers) (onText (Http.headersToString table))
      fun p text own' => own' = {(p, .text text)} + own := by
  obtain ⟨array, entries, hnone, hfields, rfl⟩ := h
  unfold headersToString
  refine (implements_strdup _ _).step ?_
  rintro buffer _ rfl
  refine Implements.step (.load (Implements.mem_of_eq (add_left_comm _ _ _)) rfl) ?_
  rintro _ _ ⟨rfl, rfl⟩
  -- the lines are made from the strings that the fields point to
  refine (implements_readFields hnone (add_pull₂ _ _ _ _)).step ?_
  rintro _ _ ⟨rfl, rfl⟩
  refine (implements_renderFields (storedIn_entryCells (add_last₃ _ _ _ _))).step ?_
  rintro _ _ ⟨rfl, rfl⟩
  unfold Http.headersToString
  rw [hfields]
  dsimp only
  split
  · refine (Implements.store rfl _).step ?_
    rintro _ _ rfl
    refine (Implements.realloc rfl).last ?_
    rintro p _ rfl
    rfl
  · exact .raise _

theorem implements_freeArray {fields : List Field} (hown : own = arrayCells fields array + rest) :
    Implements own (freePointer array) (.ok ()) fun _ _ own' => own' = rest := by
  cases array with
  | none => exact .ret (hown.trans (zero_add rest))
  | some p => exact .free hown

/-- `headers_destroy` frees everything. -/
theorem implements_headersDestroy (h : OwnsTable headers table own) :
    Implements own (headersDestroy headers) (.ok ()) fun _ _ own' => own' = 0 := by
  obtain ⟨array, entries, hnone, hfields, rfl⟩ := h
  unfold headersDestroy
  refine Implements.step (.load (Implements.mem_of_eq rfl) rfl) ?_
  rintro _ _ ⟨rfl, rfl⟩
  refine (implements_readFields hnone (add_left_comm _ _ _)).step ?_
  rintro _ _ ⟨rfl, rfl⟩
  -- first the strings, then the array, and the struct at the end
  refine (implements_freeFields (add_last₂ _ _ _)).step ?_
  rintro _ _ rfl
  refine (implements_freeArray (add_comm _ _)).step ?_
  rintro _ _ rfl
  exact .free (add_zero _).symm

end Tables

/-! ## Requests -/

@[simp] theorem onText_ok {α : Type} (a : α) : onText (.ok a) = .ok a := rfl

theorem onText_eq_ok {α : Type} {x : Except CString.Fault α} {a : α} :
    onText x = .ok a ↔ x = .ok a := by
  cases x with
  | error fault => exact iff_of_false nofun nofun
  | ok b => rw [onText_ok, Except.ok.injEq, Except.ok.injEq]

theorem onText_bind {α β : Type} (x : Except CString.Fault α) (f : α → Except CString.Fault β) :
    onText (x >>= f) = onText x >>= fun a => onText (f a) := by
  cases x <;> rfl

/-- A request, and everything that it points to. -/
def OwnsRequest (p : ℕ) (request : Request) (own : Cells) : Prop :=
  ∃ method path headers body cells, OwnsTable headers request.headers cells ∧
    own = {(p, .request ⟨some method, some path, headers, some body⟩)} +
      ({(method, .text request.method)} + ({(path, .text request.path)} +
        ({(body, .text request.body)} + cells)))

section Requests

variable {own rest : Cells} {headers p : ℕ} {table : Headers} {request : Request}

/-- The end of `parseHeader`. -/
theorem implements_storeHeader (h : OwnsTable headers table own) (name : Option (List UInt8))
    (value : List UInt8) (offset : ℕ) (st : CState) :
    Implements own
      (do
        headersSet headers name (some value)
        let blank ← Program.attempt (onText (startsWithCrlf st.mem offset))
        return (!blank, if blank then offset + 2 else offset, st))
      (onText (do
        let blank ← startsWithCrlf st.mem offset
        return (!blank, if blank then offset + 2 else offset,
          Http.headersSet table name (some value), st)))
      fun b c own' => b = (c.1, c.2.1, c.2.2.2) ∧ OwnsTable headers c.2.2.1 own' := by
  refine (implements_headersSet h name (some value)).step ?_
  rintro _ own' hset
  rw [onText_bind]
  refine (Implements.attempt _ _).bind ?_
  rintro blank _ _ ⟨rfl, rfl⟩
  exact .ret ⟨rfl, hset⟩

theorem implements_parseHeader (h : OwnsTable headers table own) (line offset : ℕ) (st : CState) :
    Implements own (parseHeader headers line offset st)
      (onText (Http.parseHeader line offset table st))
      fun b c own' => b = (c.1, c.2.1, c.2.2.2) ∧ OwnsTable headers c.2.2.1 own' := by
  unfold parseHeader Http.parseHeader
  rw [onText_bind]
  refine (Implements.attempt _ _).bind ?_
  rintro ⟨name, st⟩ _ _ ⟨rfl, rfl⟩
  dsimp only
  rw [onText_bind]
  refine (Implements.attempt _ _).bind ?_
  rintro ⟨value, st⟩ _ _ ⟨rfl, rfl⟩
  dsimp only
  rw [onText_bind]
  refine (Implements.attempt _ _).bind ?_
  rintro first _ _ ⟨rfl, rfl⟩
  rw [onText_bind]
  refine (Implements.attempt _ _).bind ?_
  rintro value _ _ ⟨rfl, rfl⟩
  -- a line without a name is stored under the empty one
  cases name with
  | none =>
    refine (Implements.attempt _ (.ok none)).step ?_
    rintro name _ ⟨rfl, rfl⟩
    exact implements_storeHeader h _ _ _ _
  | some p =>
    dsimp only
    rw [onText_bind]
    refine (Implements.attempt _ _).bind ?_
    rintro name _ _ ⟨rfl, rfl⟩
    exact implements_storeHeader h _ _ _ _

theorem implements_parseHeaders (h : OwnsTable headers table own) (fuel offset : ℕ) (st : CState) :
    Implements own (parseHeaders headers fuel offset st)
      (onText (Http.parseHeaders fuel offset table st))
      fun b c own' => b = (c.1, c.2.2) ∧ OwnsTable headers c.2.1 own' := by
  induction fuel generalizing own table offset st with
  | zero => exact .raise _
  | succ fuel ih =>
    rw [parseHeaders, Http.parseHeaders, onText_bind]
    refine (Implements.attempt _ _).bind ?_
    rintro ⟨line, st⟩ _ _ ⟨rfl, rfl⟩
    -- the loop ends with the tokens, or at an empty one
    cases line with
    | none => exact .ret ⟨rfl, h⟩
    | some line =>
      dsimp only
      rw [onText_bind]
      refine (Implements.attempt _ _).bind ?_
      rintro text _ _ ⟨rfl, rfl⟩
      split
      · exact .ret ⟨rfl, h⟩
      · rw [onText_bind]
        refine (implements_parseHeader h _ _ _).bind ?_
        rintro _ ⟨goOn, offset, table, st⟩ own' ⟨rfl, hset⟩
        dsimp only
        split
        · exact ih hset _ _
        · exact .ret ⟨rfl, hset⟩

/-- The end of `request_parse`. -/
theorem implements_keepBody (request : Request) {buffer method path : ℕ} {mem mem' : Memory}
    {object : Object} {cells : Cells} (h : OwnsTable headers request.headers cells)
    (hown : own = {(p, object)} + ({(buffer, .text mem)} + ({(method, .text request.method)} +
      ({(path, .text request.path)} + cells)))) :
    Implements own
      (do
        let body ← strdup request.body
        Program.store buffer (.text mem')
        Program.store p (.request ⟨some method, some path, headers, some body⟩)
        return p)
      (.ok request)
      fun p request own' => ∃ cells mem, OwnsRequest p request cells ∧
        own' = {(buffer, .text mem)} + cells := by
  subst hown
  refine (implements_strdup _ _).step ?_
  rintro body _ rfl
  refine (Implements.store (add_pull₂ _ _ _ _) _).step ?_
  rintro _ _ rfl
  refine (Implements.store (add_pull₂ _ _ _ _) _).step ?_
  rintro _ _ rfl
  refine .ret ⟨_, mem', ⟨method, path, headers, body, cells, h, rfl⟩, ?_⟩
  abel

/-- `request_parse` makes a request, and changes the buffer. -/
theorem implements_requestParse {buffer : ℕ} (mem : Memory) :
    Implements {(buffer, .text mem)} (requestParse buffer) (onText (Http.requestParse mem))
      fun p request own' => ∃ cells mem, OwnsRequest p request cells ∧
        own' = {(buffer, .text mem)} + cells := by
  unfold requestParse Http.requestParse
  refine (Implements.alloc _ _).step ?_
  rintro p _ rfl
  refine (implements_headersCreate _).step ?_
  rintro headers _ ⟨cells, hcells, rfl⟩
  refine (Implements.store (add_left_comm _ _ _) _).step ?_
  rintro _ _ rfl
  refine (implements_readText (Implements.mem_of_eq (add_last₂ _ _ _))).step ?_
  rintro mem _ ⟨rfl, rfl⟩
  rw [onText_bind]
  refine (Implements.attempt _ _).bind ?_
  rintro ⟨method, path, offset, st⟩ _ _ ⟨rfl, rfl⟩
  refine (implements_strdup _ _).step ?_
  rintro methodCopy _ rfl
  refine (implements_strdup _ _).step ?_
  rintro pathCopy _ rfl
  refine (Implements.store (add_pull₂ _ _ _ _) _).step ?_
  rintro _ _ rfl
  -- the loop changes the table only
  rw [onText_bind]
  refine ((implements_parseHeaders hcells _ _ _).frame (add_pull₃ _ _ _ _ _)).bind ?_
  rintro _ ⟨offset, table, st⟩ _ ⟨cells', ⟨rfl, htable⟩, rfl⟩
  rw [onText_bind]
  refine (Implements.attempt _ _).bind ?_
  rintro ⟨body, st⟩ _ _ ⟨rfl, rfl⟩
  have hown : cells' + ({(p, .request ⟨some methodCopy, some pathCopy, headers, none⟩)} +
      ({(pathCopy, .text path)} + ({(methodCopy, .text method)} + {(buffer, .text mem)}))) =
      {(p, .request ⟨some methodCopy, some pathCopy, headers, none⟩)} + ({(buffer, .text mem)} +
        ({(methodCopy, .text method)} + ({(pathCopy, .text path)} + cells'))) := by
    abel
  -- the body is the rest of the buffer, or empty
  cases body with
  | none =>
    refine (Implements.attempt _ (.ok [])).step ?_
    rintro body _ ⟨rfl, rfl⟩
    exact implements_keepBody ⟨method, path, table, []⟩ htable hown
  | some line =>
    dsimp only
    rw [onText_bind]
    refine (Implements.attempt _ _).bind ?_
    rintro body _ _ ⟨rfl, rfl⟩
    exact implements_keepBody ⟨method, path, table, body⟩ htable hown

/-- `request_destroy` frees everything. -/
theorem implements_requestDestroy (h : OwnsRequest p request own) :
    Implements own (requestDestroy p) (.ok ()) fun _ _ own' => own' = 0 := by
  obtain ⟨method, path, headers, body, cells, htable, rfl⟩ := h
  unfold requestDestroy
  refine Implements.step (.load (Implements.mem_of_eq rfl) rfl) ?_
  rintro _ _ ⟨rfl, rfl⟩
  -- in the order of the source: the two strings, the table, the body, the struct
  refine (implements_nonNull _ method).step ?_
  rintro _ _ ⟨rfl, rfl⟩
  refine (Implements.free (add_left_comm _ _ _)).step ?_
  rintro _ _ rfl
  refine (implements_nonNull _ path).step ?_
  rintro _ _ ⟨rfl, rfl⟩
  refine (Implements.free (add_left_comm _ _ _)).step ?_
  rintro _ _ rfl
  refine ((implements_headersDestroy htable).frame (add_last₂ _ _ _)).step ?_
  rintro _ _ ⟨_, rfl, rfl⟩
  rw [zero_add]
  refine (Implements.free (add_comm _ _)).step ?_
  rintro _ _ rfl
  exact .free (add_zero _).symm

end Requests

end NetworkServers.Http.RequestMemory
