import NetworkServers.Http.Headers
import NetworkServers.Library.HeapMemory

/-!
# The Header Table on the Heap

Translation of all of `src/src/headers.c`, with the strings of the table as objects on
the heap and its fields as pairs of pointers to them. `Headers` is the table without the
heap: an ordered multimap with names in lower case. The two agree as long as no field is
deleted. `headers_delete` frees the strings of a field but leaves `size` as it is, so a
table from which a field has been deleted points to freed strings from then on; and it
compares names without lower-casing its argument.
-/

namespace NetworkServers.Http.HeaderTable

open NetworkServers.CString (bytes)
open NetworkServers.HeapMemory NetworkServers.Machine

/-! ## The table -/

/-- `struct Header`: the addresses of two strings. -/
structure Field where
  name : ℕ
  value : ℕ
deriving DecidableEq, Repr

/-- `struct Headers` and the heap. `fields` has been allocated for `size` fields, so its
length is `size`. -/
structure Table where
  heap : Heap (List UInt8)
  fields : List Field
deriving DecidableEq, Repr

/-- `headers_create`. -/
def headersCreate : Table := { heap := [], fields := [] }

/-- `headers_set`. -/
def headersSet (table : Table) (name value : Option (List UInt8)) : Table :=
  let (heap, nameCopy) := alloc table.heap ((name.getD []).map tolower)
  let (heap, valueCopy) := alloc heap (value.getD [])
  { heap := heap, fields := table.fields ++ [{ name := nameCopy, value := valueCopy }] }

/-- The loop of `headers_get`, for a name in lower case. -/
def findField (heap : Heap (List UInt8)) (name : List UInt8) :
    List Field → Except Fault (Option (List UInt8))
  | [] => .ok none
  | field :: fields => do
    if (← read heap field.name) = name then return some (← read heap field.value)
    else findField heap name fields

/-- `headers_get`, with the string that the returned pointer points to. -/
def headersGet (table : Table) (name : List UInt8) : Except Fault (Option (List UInt8)) :=
  findField table.heap (name.map tolower) table.fields

/-- The loop of `headers_delete` for the last `n` fields, from the one with index `i` on. -/
def deleteLoop (name : List UInt8) : ℕ → ℕ → ℕ → Table → Except Fault (ℕ × Table)
  | 0, _, deletedCount, table => .ok (deletedCount, table)
  | n + 1, i, deletedCount, table =>
    match table.fields[i]? with
    | none => .error .outOfBounds
    | some field => do
      if (← read table.heap field.name) = name then
        let heap ← freeAll [field.name, field.value] table.heap
        deleteLoop name n (i + 1) (deletedCount + 1) { table with heap := heap }
      else
        deleteLoop name n (i + 1) deletedCount
          { table with fields := table.fields.set (i - deletedCount) field }

/-- `headers_delete`. -/
def headersDelete (table : Table) (name : List UInt8) : Except Fault (ℕ × Table) :=
  deleteLoop name table.fields.length 0 0 table

/-- The lines that `headers_to_string` writes. -/
def renderFields (heap : Heap (List UInt8)) : List Field → Except Fault (List UInt8)
  | [] => .ok []
  | field :: fields => do
    let name ← read heap field.name
    let value ← read heap field.value
    return headerLine { name := name, value := value } ++ (← renderFields heap fields)

/-- `headers_to_string`. -/
def headersToString (table : Table) : Except Fault (List UInt8) := do
  let text ← renderFields table.heap table.fields
  if text.length < textBufferSize then return text else .error .outOfBounds

/-- The strings of the fields, in the order in which `headers_destroy` frees them. -/
def pointers (fields : List Field) : List ℕ := fields.flatMap fun field => [field.name, field.value]

/-- `headers_destroy`: what is left on the heap. -/
def headersDestroy (table : Table) : Except Fault (Heap (List UInt8)) :=
  freeAll (pointers table.fields) table.heap

/-! ## Sequences of operations -/

/-- The calls that change a table. -/
inductive Op where
  | set (name value : Option (List UInt8))
  | delete (name : List UInt8)

/-- One call, with the counts that it returns. -/
def step (table : Table) : Op → Except Fault (Table × List ℕ)
  | .set name value => .ok (headersSet table name value, [])
  | .delete name => do
    let (count, table) ← headersDelete table name
    return (table, [count])

/-- What the call should do: `set` appends a pair, and `delete` removes all pairs with the
name, ignoring case, and returns their number. -/
def multimapStep (headers : Headers) : Op → Id (Headers × List ℕ)
  | .set name value => (Http.headersSet headers name value, [])
  | .delete name =>
    ({ fields := headers.fields.filter fun field => field.name ≠ name.map tolower },
      [headers.fields.countP fun field => field.name = name.map tolower])

/-- After these calls the table is the multimap: the calls have returned the right counts,
the table is read and rendered like the multimap, and it can be destroyed. -/
def Represents (ops : List Op) : Prop :=
  ∃ table counts heap, runAll step ops headersCreate = .ok (table, counts) ∧
    counts = (runAll multimapStep ops Http.headersCreate).2 ∧
    (∀ name, headersGet table name =
      .ok (Http.headersGet (runAll multimapStep ops Http.headersCreate).1 name)) ∧
    headersToString table =
      .ok ((runAll multimapStep ops Http.headersCreate).1.fields.flatMap headerLine) ∧
    headersDestroy table = .ok heap

/-- The field that a call appends. -/
def Op.field? : Op → Option Header
  | .set name value => some { name := (name.getD []).map tolower, value := value.getD [] }
  | .delete _ => none

/-- The fields that the calls append. -/
def setFields (ops : List Op) : List Header := ops.filterMap Op.field?

/-- No call deletes a header that has been set before it. -/
def DeletesNothing (ops : List Op) : Prop :=
  ∀ before name after, ops = before ++ .delete name :: after →
    ∀ field ∈ setFields before, field.name ≠ name.map tolower

/-! ## A table from which nothing has been deleted -/

/-- The strings of a field. -/
def Stores (heap : Heap (List UInt8)) (field : Field) (header : Header) : Prop :=
  Holds heap field.name header.name ∧ Holds heap field.value header.value

/-- The fields point to different live strings, those of the multimap, and there are no
others. -/
structure Mirrors (table : Table) (headers : Headers) : Prop where
  stored : List.Forall₂ (Stores table.heap) table.fields headers.fields
  distinct : (pointers table.fields).Nodup
  count : liveCount table.heap = 2 * table.fields.length

theorem mirrors_create : Mirrors headersCreate Http.headersCreate where
  stored := .nil
  distinct := List.nodup_nil
  count := rfl

section Mirrors

variable {table table' : Table} {headers : Headers} {name : List UInt8}

theorem Stores.append {heap : Heap (List UInt8)} {field : Field} {header : Header}
    (h : Stores heap field header) (cells : List (Cell (List UInt8))) :
    Stores (heap ++ cells) field header :=
  ⟨h.1.append cells, h.2.append cells⟩

/-- Every field of a table that is stored has its strings. -/
theorem exists_stores {heap : Heap (List UInt8)} {fields : List Field} {headers : List Header}
    (h : List.Forall₂ (Stores heap) fields headers) :
    ∀ field ∈ fields, ∃ header ∈ headers, Stores heap field header := by
  induction h with
  | nil => simp
  | @cons field header fields headers hstores _ ih =>
    intro other hother
    rcases List.mem_cons.mp hother with rfl | hother
    · exact ⟨header, List.mem_cons_self, hstores⟩
    · obtain ⟨found, hmem, hfound⟩ := ih other hother
      exact ⟨found, List.mem_cons_of_mem _ hmem, hfound⟩

/-- Every pointer of the table points to a live string. -/
theorem Mirrors.holds (h : Mirrors table headers) :
    ∀ p ∈ pointers table.fields, ∃ text, Holds table.heap p text := by
  intro p hp
  obtain ⟨field, hfield, hp⟩ := List.mem_flatMap.mp hp
  obtain ⟨header, -, hname, hvalue⟩ := exists_stores h.stored field hfield
  rcases List.mem_pair.mp hp with rfl | rfl
  · exact ⟨_, hname⟩
  · exact ⟨_, hvalue⟩

/-- `headers_set` does what it does to the multimap. -/
theorem Mirrors.set (h : Mirrors table headers) (name value : Option (List UInt8)) :
    Mirrors (headersSet table name value) (Http.headersSet headers name value) where
  stored := by
    have hnew : Stores (headersSet table name value).heap
        ⟨table.heap.length, table.heap.length + 1⟩ ⟨(name.getD []).map tolower, value.getD []⟩ := by
      simp [Stores, Holds, headersSet, alloc]
    have hold := h.stored.imp fun field header hstores =>
      (hstores.append [⟨(name.getD []).map tolower, true⟩]).append [⟨value.getD [], true⟩]
    have happend := List.rel_append hold (List.Forall₂.cons hnew List.Forall₂.nil)
    simpa [headersSet, Http.headersSet, alloc] using happend
  distinct := by
    -- the two new addresses are behind the ones in use
    have hlt : ∀ p ∈ pointers table.fields, p < table.heap.length := fun p hp =>
      (h.holds p hp).choose_spec.lt
    have hpointers : pointers (headersSet table name value).fields =
        pointers table.fields ++ [table.heap.length, table.heap.length + 1] := by
      simp [headersSet, pointers, alloc]
    rw [hpointers]
    apply List.Nodup.append h.distinct (by simp)
    intro p hp hnew
    have := hlt p hp
    simp only [List.mem_cons, List.not_mem_nil, or_false] at hnew
    omega
  count := by
    have hcount := h.count
    simp only [headersSet, liveCount_alloc, List.length_append, List.length_singleton]
    omega

/-- `headers_get` finds what is in the multimap. -/
theorem findField_stored {heap : Heap (List UInt8)} {fields : List Field} {headers : List Header}
    (h : List.Forall₂ (Stores heap) fields headers) (name : List UInt8) :
    findField heap name fields =
      .ok ((headers.find? fun header => header.name = name).map Header.value) := by
  induction h with
  | nil => rfl
  | @cons field header fields headers hstores _ ih =>
    rw [findField, hstores.1.read, ok_bind, List.find?_cons]
    by_cases hname : header.name = name
    · simp [hname, hstores.2.read, pure, Except.pure]
    · simpa [hname] using ih

theorem Mirrors.get (h : Mirrors table headers) (name : List UInt8) :
    headersGet table name = .ok (Http.headersGet headers name) :=
  findField_stored h.stored _

theorem renderFields_stored {heap : Heap (List UInt8)} {fields : List Field}
    {headers : List Header} (h : List.Forall₂ (Stores heap) fields headers) :
    renderFields heap fields = .ok (headers.flatMap headerLine) := by
  induction h with
  | nil => rfl
  | @cons field header fields headers hstores _ ih =>
    rw [renderFields, hstores.1.read, ok_bind, hstores.2.read, ok_bind, ih, ok_bind,
      List.flatMap_cons]
    rfl

theorem Mirrors.toString_eq (h : Mirrors table headers) {text : List UInt8} :
    headersToString table = .ok text ↔
      text = headers.fields.flatMap headerLine ∧ text.length < textBufferSize := by
  rw [headersToString, renderFields_stored h.stored, ok_bind]
  split
  · rename_i hfits
    constructor
    · intro heq
      cases heq
      exact ⟨rfl, hfits⟩
    · rintro ⟨rfl, -⟩
      rfl
  · rename_i hlarge
    refine iff_of_false (fun heq => nomatch heq) ?_
    rintro ⟨rfl, hfits⟩
    exact hlarge hfits

theorem Mirrors.destroy (h : Mirrors table headers) : ∃ heap, headersDestroy table = .ok heap :=
  exists_freeAll h.holds h.distinct

/-- A deletion that finds nothing changes nothing. -/
theorem deleteLoop_none (hmiss : ∀ field ∈ table.fields, ∃ text,
      read table.heap field.name = .ok text ∧ text ≠ name) {n i : ℕ}
    (hi : i + n = table.fields.length) : deleteLoop name n i 0 table = .ok (0, table) := by
  induction n generalizing i with
  | zero => rfl
  | succ n ih =>
    have hlt : i < table.fields.length := by omega
    obtain ⟨text, hread, hne⟩ := hmiss _ (List.getElem_mem hlt)
    have hsame : table.fields.set (i - 0) table.fields[i] = table.fields := by
      rw [Nat.sub_zero, List.set_getElem_self]
    rw [deleteLoop, List.getElem?_eq_getElem hlt]
    simp only [hread, ok_bind, if_neg hne, hsame]
    exact ih (by omega)

/-- What a deletion takes from the live strings, it counts; the size stays. -/
theorem liveCount_deleteLoop {n i deletedCount count : ℕ}
    (h : deleteLoop name n i deletedCount table = .ok (count, table')) :
    deletedCount ≤ count ∧
      liveCount table'.heap + 2 * (count - deletedCount) = liveCount table.heap ∧
      table'.fields.length = table.fields.length := by
  induction n generalizing i deletedCount table with
  | zero =>
    obtain ⟨rfl, rfl⟩ := Prod.mk.inj (Except.ok.inj h)
    simp
  | succ n ih =>
    unfold deleteLoop at h
    split at h
    · cases h
    rename_i field _
    obtain ⟨text, -, h⟩ := bind_eq_ok.mp h
    split at h
    · -- both strings of the field are freed
      obtain ⟨heap, hfree, h⟩ := bind_eq_ok.mp h
      obtain ⟨hle, hcount, hlength⟩ := ih h
      have hfreed := liveCount_freeAll hfree
      simp only [List.length_cons, List.length_nil] at hfreed hlength
      dsimp only at hcount
      exact ⟨by omega, by omega, hlength⟩
    · obtain ⟨hle, hcount, hlength⟩ := ih h
      rw [List.length_set] at hlength
      exact ⟨hle, hcount, hlength⟩

/-- `headers_delete` of a name that the table does not have. -/
theorem Mirrors.delete_none (h : Mirrors table headers)
    (hmiss : ∀ header ∈ headers.fields, header.name ≠ name.map tolower)
    (hlower : ∀ header ∈ headers.fields, header.name.map tolower = header.name) :
    headersDelete table name = .ok (0, table) := by
  apply deleteLoop_none _ (Nat.zero_add _)
  intro field hfield
  obtain ⟨header, hheader, hname, -⟩ := exists_stores h.stored field hfield
  refine ⟨header.name, hname.read, fun heq => hmiss header hheader ?_⟩
  rw [← heq, hlower header hheader]

end Mirrors

/-! ## A table from which something has been deleted -/

/-- Some field points to a freed string: there are fewer live strings than pointers. -/
def Dangles (table : Table) : Prop := liveCount table.heap < 2 * table.fields.length

theorem length_pointers (fields : List Field) : (pointers fields).length = 2 * fields.length := by
  induction fields with
  | nil => rfl
  | cons field fields ih =>
    rw [pointers, List.flatMap_cons, List.length_append]
    simp only [pointers] at ih
    rw [ih]
    simp
    omega

/-- `headers_destroy` frees one string twice. -/
theorem Dangles.destroy {table : Table} (h : Dangles table) (heap : Heap (List UInt8)) :
    headersDestroy table ≠ .ok heap := by
  intro hfree
  have hledger := liveCount_freeAll hfree
  rw [length_pointers] at hledger
  unfold Dangles at h
  omega

/-- No call repairs such a table. -/
theorem Dangles.step {table table' : Table} {op : Op} {counts : List ℕ} (h : Dangles table)
    (hstep : HeaderTable.step table op = .ok (table', counts)) : Dangles table' := by
  unfold Dangles at h ⊢
  cases op with
  | set name value =>
    obtain ⟨rfl, -⟩ := Prod.mk.inj (Except.ok.inj hstep)
    simp only [headersSet, liveCount_alloc, List.length_append, List.length_singleton]
    omega
  | delete name =>
    obtain ⟨⟨count, deleted⟩, hdelete, hreturn⟩ := bind_eq_ok.mp hstep
    obtain ⟨rfl, -⟩ := Prod.mk.inj (Except.ok.inj hreturn)
    obtain ⟨-, hledger, hlength⟩ := liveCount_deleteLoop hdelete
    omega

/-- A deletion that counts something leaves such a table. -/
theorem Mirrors.dangles {table table' : Table} {headers : Headers} {name : List UInt8} {count : ℕ}
    (h : Mirrors table headers) (hdelete : headersDelete table name = .ok (count, table'))
    (hcount : 0 < count) : Dangles table' := by
  obtain ⟨-, hledger, hlength⟩ := liveCount_deleteLoop hdelete
  have hlive := h.count
  unfold Dangles
  omega

/-! ## Runs -/

theorem setFields_append (ops ops' : List Op) :
    setFields (ops ++ ops') = setFields ops ++ setFields ops' := List.filterMap_append

/-- The names of fields are in lower case. -/
theorem lower_setFields {ops : List Op} {field : Header} (h : field ∈ setFields ops) :
    field.name.map tolower = field.name := by
  obtain ⟨op, -, hop⟩ := List.mem_filterMap.mp h
  cases op with
  | set name value =>
    obtain rfl := Option.some.inj hop
    simp [tolower_tolower]
  | delete name => cases hop

theorem deletesNothing_nil : DeletesNothing [] := by
  intro before name after h
  simp at h

theorem deletesNothing_snoc {ops : List Op} {op : Op} :
    DeletesNothing (ops ++ [op]) ↔ DeletesNothing ops ∧
      ∀ name, op = .delete name → ∀ field ∈ setFields ops, field.name ≠ name.map tolower := by
  constructor
  · intro h
    constructor
    · intro before name after heq
      exact h before name (after ++ [op]) (by simp [heq])
    · rintro name rfl
      exact h ops name [] rfl
  · rintro ⟨hops, hlast⟩ before name after heq
    rcases List.eq_nil_or_concat after with rfl | ⟨after, last, rfl⟩
    · -- the last call is the deletion
      obtain ⟨rfl, hop⟩ := List.append_inj' heq rfl
      exact hlast name (List.singleton_inj.mp hop)
    · apply hops before name after
      have heq : ops ++ [op] = (before ++ .delete name :: after) ++ [last] := by
        simpa using heq
      exact (List.append_inj' heq rfl).1

theorem multimap_snoc (ops : List Op) (op : Op) (headers : Headers) :
    runAll multimapStep (ops ++ [op]) headers =
      ((multimapStep (runAll multimapStep ops headers).1 op).1,
        (runAll multimapStep ops headers).2 ++
          (multimapStep (runAll multimapStep ops headers).1 op).2) := by
  rw [runAll_snoc]
  rfl

/-- The multimap stays as it is if a name is deleted that it does not have. -/
theorem multimapStep_delete_none {headers : Headers} {name : List UInt8}
    (h : ∀ field ∈ headers.fields, field.name ≠ name.map tolower) :
    multimapStep headers (.delete name) = (headers, [0]) := by
  have hkeep : (headers.fields.filter fun field => field.name ≠ name.map tolower) =
      headers.fields := by
    simpa using h
  have hnone : (headers.fields.countP fun field => field.name = name.map tolower) = 0 := by
    simpa [List.countP_eq_zero] using h
  rw [multimapStep, hkeep, hnone]

/-- The multimap holds what has been set, if nothing has been deleted. -/
theorem multimap_fields {ops : List Op} (h : DeletesNothing ops) :
    (runAll multimapStep ops Http.headersCreate).1.fields = setFields ops := by
  induction ops using List.reverseRecOn with
  | nil => rfl
  | append_singleton ops op ih =>
    obtain ⟨hops, hlast⟩ := deletesNothing_snoc.mp h
    have hfields := ih hops
    rw [multimap_snoc, setFields_append, ← hfields]
    cases op with
    | set name value => rfl
    | delete name =>
      have hmiss := hlast name rfl
      rw [← hfields] at hmiss
      rw [multimapStep_delete_none hmiss]
      exact (List.append_nil _).symm

/-- As long as nothing is deleted, the table follows the multimap. -/
theorem run_mirrors {ops : List Op} (h : DeletesNothing ops) :
    ∃ table, runAll step ops headersCreate =
        .ok (table, (runAll multimapStep ops Http.headersCreate).2) ∧
      Mirrors table (runAll multimapStep ops Http.headersCreate).1 := by
  induction ops using List.reverseRecOn with
  | nil => exact ⟨headersCreate, rfl, mirrors_create⟩
  | append_singleton ops op ih =>
    obtain ⟨hops, hlast⟩ := deletesNothing_snoc.mp h
    obtain ⟨table, hrun, hmirrors⟩ := ih hops
    have hfields := multimap_fields hops
    rw [runAll_snoc, multimap_snoc, hrun, ok_bind]
    cases op with
    | set name value => exact ⟨_, rfl, hmirrors.set name value⟩
    | delete name =>
      -- the deletion finds nothing, in the table and in the multimap
      have hmiss := hlast name rfl
      rw [← hfields] at hmiss
      have hdelete := hmirrors.delete_none hmiss fun header hheader =>
        lower_setFields (hfields ▸ hheader)
      refine ⟨table, ?_, ?_⟩
      · rw [multimapStep_delete_none hmiss]
        simp only [step, hdelete, ok_bind]
        rfl
      · rw [multimapStep_delete_none hmiss]
        exact hmirrors

/-- Both return as many counts for a call. -/
theorem length_counts {table table' : Table} {headers : Headers} {op : Op} {counts : List ℕ}
    (h : step table op = .ok (table', counts)) :
    counts.length = (multimapStep headers op).2.length := by
  cases op with
  | set name value =>
    obtain ⟨-, rfl⟩ := Prod.mk.inj (Except.ok.inj h)
    rfl
  | delete name =>
    obtain ⟨⟨count, deleted⟩, -, hreturn⟩ := bind_eq_ok.mp h
    obtain ⟨-, rfl⟩ := Prod.mk.inj (Except.ok.inj hreturn)
    rfl

/-- Once something should have been deleted, the counts are wrong or the table dangles. -/
theorem run_dangles {ops : List Op} {table : Table}
    (hrun : runAll step ops headersCreate =
      .ok (table, (runAll multimapStep ops Http.headersCreate).2))
    (h : ¬DeletesNothing ops) : Dangles table := by
  -- from the end: either something was to be deleted before the last call, or by it
  induction ops using List.reverseRecOn generalizing table with
  | nil => exact absurd deletesNothing_nil h
  | append_singleton ops op ih =>
    rw [runAll_snoc, multimap_snoc] at hrun
    obtain ⟨⟨before, counts⟩, hbefore, hrun⟩ := bind_eq_ok.mp hrun
    obtain ⟨⟨after, last⟩, hlast, hreturn⟩ := bind_eq_ok.mp hrun
    obtain ⟨rfl, hcounts⟩ := Prod.mk.inj (Except.ok.inj hreturn)
    obtain ⟨rfl, rfl⟩ := List.append_inj' hcounts (length_counts hlast)
    by_cases hops : DeletesNothing ops
    · -- the last call is the first deletion of something, and its count is right
      obtain ⟨mirrored, hmirror, hmirrors⟩ := run_mirrors hops
      obtain ⟨rfl, -⟩ := Prod.mk.inj (Except.ok.inj (hbefore.symm.trans hmirror))
      rw [deletesNothing_snoc, not_and] at h
      have hfound := h hops
      push Not at hfound
      obtain ⟨name, rfl, field, hfield, hname⟩ := hfound
      rw [← multimap_fields hops] at hfield
      obtain ⟨⟨count, deleted⟩, hdelete, hreturn⟩ := bind_eq_ok.mp hlast
      obtain ⟨rfl, hcount⟩ := Prod.mk.inj (Except.ok.inj hreturn)
      apply hmirrors.dangles hdelete
      rw [List.singleton_inj.mp hcount, List.countP_pos_iff]
      exact ⟨field, hfield, decide_eq_true hname⟩
    · exact (ih hbefore hops).step hlast

/-- The table is the multimap exactly if no call deletes a header, and the lines fit into
the buffer of `headers_to_string`. -/
theorem represents_iff (ops : List Op) :
    Represents ops ↔
      DeletesNothing ops ∧ ((setFields ops).flatMap headerLine).length < textBufferSize := by
  constructor
  · rintro ⟨table, counts, heap, hrun, rfl, -, htext, hdestroy⟩
    by_cases hdeletes : DeletesNothing ops
    · obtain ⟨mirrored, hmirror, hmirrors⟩ := run_mirrors hdeletes
      obtain ⟨rfl, -⟩ := Prod.mk.inj (Except.ok.inj (hrun.symm.trans hmirror))
      have hfits := (hmirrors.toString_eq.mp htext).2
      rw [multimap_fields hdeletes] at hfits
      exact ⟨hdeletes, hfits⟩
    · exact absurd hdestroy ((run_dangles hrun hdeletes).destroy heap)
  · rintro ⟨hdeletes, hfits⟩
    obtain ⟨table, hrun, hmirrors⟩ := run_mirrors hdeletes
    obtain ⟨heap, hdestroy⟩ := hmirrors.destroy
    refine ⟨table, _, heap, hrun, rfl, hmirrors.get, hmirrors.toString_eq.mpr ⟨rfl, ?_⟩, hdestroy⟩
    rw [multimap_fields hdeletes]
    exact hfits

/-- A cookie is set and deleted again: the table still has a field for it, and
`headers_destroy` frees its strings a second time. -/
theorem not_represents_cookie :
    ¬Represents [.set (some (bytes "Cookie")) (some (bytes "id=1")), .delete (bytes "cookie")] := by
  rintro ⟨table, counts, heap, hrun, -, -, -, hdestroy⟩
  have hdangles : (runAll step [.set (some (bytes "Cookie")) (some (bytes "id=1")),
      .delete (bytes "cookie")] headersCreate).bind (fun result => headersDestroy result.1) =
      .error .freedTwice := by
    decide
  rw [hrun] at hdangles
  exact nomatch hdestroy.symm.trans hdangles

end NetworkServers.Http.HeaderTable
