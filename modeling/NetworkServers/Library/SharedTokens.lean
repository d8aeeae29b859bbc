import Mathlib.Logic.Relation
import NetworkServers.Library.CString
import NetworkServers.Library.Runs

/-!
# Programs that Share `strtok`

`strtok` keeps one position for the whole process. A program is a tree of calls of the string
functions, so that threads can be interleaved call by call: each has a buffer of its own, the
position is the one that the last call of any thread has left.

A program that hands only pointers into one buffer to `strtok` is private to it. While no other
thread calls `strtok`, it cuts this buffer only, and does what it does with `strtok` to itself.
-/

namespace NetworkServers.SharedTokens

open NetworkServers.CString NetworkServers.Machine

variable {ι α β : Type}

/-! ## Buffers with one position -/

/-- A pointer into one of several buffers. -/
abbrev Pointer (ι : Type) := ι × ℕ

/-- The buffers of a process, and the position that `strtok` keeps. -/
structure Shared (ι : Type) where
  buffers : ι → Memory
  saved : Option (Pointer ι)

/-- The C string at a pointer. -/
def Shared.readString (m : Shared ι) : Option (Pointer ι) → Except Fault (List UInt8)
  | none => .error .nullPointer
  | some (b, p) => CString.readString (m.buffers b) (some p)

/-- The byte at a pointer. -/
def Shared.readByte (m : Shared ι) : Option (Pointer ι) → Except Fault UInt8
  | none => .error .nullPointer
  | some (b, p) => CString.readByte (m.buffers b) (some p)

/-! ## Programs -/

/-- What a thread does: it ends, well or with a fault, or calls a string function and goes on with
the result. -/
inductive Program (ι α : Type) where
  | done (a : α)
  | fail (fault : Fault)
  | strtok (s : Option (Pointer ι)) (delim : List UInt8) (k : Option (Pointer ι) → Program ι α)
  | readString (p : Option (Pointer ι)) (k : List UInt8 → Program ι α)
  | readByte (p : Option (Pointer ι)) (k : UInt8 → Program ι α)

namespace Program

/-- One program after the other. -/
def bind : Program ι α → (α → Program ι β) → Program ι β
  | done a, f => f a
  | fail fault, _ => fail fault
  | strtok s delim k, f => .strtok s delim fun token => (k token).bind f
  | readString p k, f => .readString p fun text => (k text).bind f
  | readByte p k, f => .readByte p fun c => (k c).bind f

instance : Monad (Program ι) where
  pure := done
  bind := bind

/-- A single call of `strtok`. -/
def token (s : Option (Pointer ι)) (delim : List UInt8) : Program ι (Option (Pointer ι)) :=
  .strtok s delim .done

/-- A single read of a string. -/
def text (p : Option (Pointer ι)) : Program ι (List UInt8) := .readString p .done

/-- A single read of a byte. -/
def byte (p : Option (Pointer ι)) : Program ι UInt8 := .readByte p .done

end Program

/-! ## Private programs -/

section Private

variable {b : ι} {s : Option (Pointer ι)} {delim : List UInt8}

/-- Only pointers into the buffer `b` are handed to `strtok`. -/
def Program.Private (b : ι) : Program ι α → Prop
  | .done _ => True
  | .fail _ => True
  | .strtok s _ k => (∀ p ∈ s, p.1 = b) ∧ ∀ token, (∀ p ∈ token, p.1 = b) → (k token).Private b
  | .readString _ k => ∀ text, (k text).Private b
  | .readByte _ k => ∀ c, (k c).Private b

theorem Program.Private.bind {x : Program ι α} {f : α → Program ι β} (hx : x.Private b)
    (hf : ∀ a, (f a).Private b) : (x >>= f).Private b := by
  change (x.bind f).Private b
  induction x with
  | done a => exact hf a
  | fail fault => trivial
  | strtok s delim k ih => exact ⟨hx.1, fun token htoken => ih token (hx.2 token htoken)⟩
  | readString p k ih | readByte p k ih => exact fun r => ih r (hx r)

/-- A token of a private program is a pointer into its buffer. -/
theorem Program.Private.token {f : Option (Pointer ι) → Program ι β} (hs : ∀ p ∈ s, p.1 = b)
    (hf : ∀ token, (∀ p ∈ token, p.1 = b) → (f token).Private b) :
    (Program.token s delim >>= f).Private b :=
  ⟨hs, hf⟩

theorem Program.Private.text {p : Option (Pointer ι)} {f : List UInt8 → Program ι β}
    (hf : ∀ text, (f text).Private b) : (Program.text p >>= f).Private b := hf

theorem Program.Private.byte {p : Option (Pointer ι)} {f : UInt8 → Program ι β}
    (hf : ∀ c, (f c).Private b) : (Program.byte p >>= f).Private b := hf

end Private

/-! ## Steps and runs -/

section Runs

variable [DecidableEq ι]

/-- `strtok(s, delim)` in the process. -/
def Shared.strtok (s : Option (Pointer ι)) (delim : List UInt8) (m : Shared ι) :
    Except Fault (Option (Pointer ι) × Shared ι) :=
  match s.or m.saved with
  | none => .error .nullPointer
  | some (b, p) => do
    let (token, st) ← CString.strtok (some p) delim { mem := m.buffers b, saved := none }
    return (token.map (b, ·), { buffers := Function.update m.buffers b st.mem
                                saved := st.saved.map (b, ·) })

namespace Program

/-- The program to its end, with no other thread. -/
def run : Program ι α → Shared ι → Except Fault (α × Shared ι)
  | done a, m => .ok (a, m)
  | fail fault, _ => .error fault
  | strtok s delim k, m => m.strtok s delim >>= fun r => (k r.1).run r.2
  | readString p k, m => m.readString p >>= fun text => (k text).run m
  | readByte p k, m => m.readByte p >>= fun c => (k c).run m

/-- The next call of a program that has not ended. -/
def step : Program ι α → Shared ι → Option (Except Fault (Program ι α × Shared ι))
  | done _, _ => none
  | fail fault, _ => some (.error fault)
  | strtok s delim k, m => some (m.strtok s delim >>= fun r => .ok (k r.1, r.2))
  | readString p k, m => some (m.readString p >>= fun text => .ok (k text, m))
  | readByte p k, m => some (m.readByte p >>= fun c => .ok (k c, m))

@[simp] theorem run_pure (a : α) (m : Shared ι) : (pure a : Program ι α).run m = .ok (a, m) := rfl

/-- A run of one program after the other. -/
@[simp] theorem run_bind (x : Program ι α) (f : α → Program ι β) (m : Shared ι) :
    (x >>= f).run m = x.run m >>= fun r => (f r.1).run r.2 := by
  change (x.bind f).run m = _
  induction x generalizing m with
  | done a | fail fault => rfl
  | strtok s delim k ih | readString p k ih | readByte p k ih =>
    simp only [bind, run, ih, bind_assoc]

/-- A step leaves the rest of the run. -/
theorem run_step {x y : Program ι α} {m m' : Shared ι} (h : x.step m = some (.ok (y, m'))) :
    x.run m = y.run m' := by
  cases x with
  | done a | fail fault => cases h
  | strtok s delim k | readString p k | readByte p k =>
    obtain ⟨r, hr, h⟩ := bind_eq_ok.mp (Option.some.inj h)
    cases h
    simp only [run, hr, ok_bind]

theorem run_step_error {x : Program ι α} {m : Shared ι} {fault : Fault}
    (h : x.step m = some (.error fault)) : x.run m = .error fault := by
  cases x with
  | done a => cases h
  | fail e => simpa [step, run] using h
  | strtok s delim k =>
    cases hr : m.strtok s delim with
    | error e => simpa [step, run, hr] using h
    | ok r => simp [step, hr] at h
  | readString p k =>
    cases hr : m.readString p with
    | error e => simpa [step, run, hr] using h
    | ok r => simp [step, hr] at h
  | readByte p k =>
    cases hr : m.readByte p with
    | error e => simpa [step, run, hr] using h
    | ok r => simp [step, hr] at h

/-- Any number of calls of one thread, with no other thread in between. -/
def Steps (x : Program ι α) (m : Shared ι) (y : Program ι α) (m' : Shared ι) : Prop :=
  Relation.ReflTransGen (fun p q => p.1.step p.2 = some (.ok q)) (x, m) (y, m')

theorem Steps.refl (x : Program ι α) (m : Shared ι) : x.Steps m x m := Relation.ReflTransGen.refl

theorem Steps.head {x y z : Program ι α} {m m' m'' : Shared ι}
    (h : x.step m = some (.ok (y, m'))) (hrest : y.Steps m' z m'') : x.Steps m z m'' :=
  Relation.ReflTransGen.head h hrest

/-- A call of `strtok` at the front of a program. -/
theorem Steps.token {s : Option (Pointer ι)} {delim : List UInt8} {m m' m'' : Shared ι}
    {found : Option (Pointer ι)} {k : Option (Pointer ι) → Program ι α} {z : Program ι α}
    (h : m.strtok s delim = .ok (found, m')) (hrest : (k found).Steps m' z m'') :
    (token s delim >>= k).Steps m z m'' := by
  have hstep : (Program.token s delim >>= k).step m = some (.ok (k found, m')) := by
    change some (m.strtok s delim >>= fun r => .ok (k r.1, r.2)) = _
    rw [h]
    rfl
  exact Steps.head hstep hrest

/-- A read of a string at the front of a program. -/
theorem Steps.text {p : Option (Pointer ι)} {m m' : Shared ι} {found : List UInt8}
    {k : List UInt8 → Program ι α} {z : Program ι α} (h : m.readString p = .ok found)
    (hrest : (k found).Steps m z m') : (text p >>= k).Steps m z m' := by
  have hstep : (Program.text p >>= k).step m = some (.ok (k found, m)) := by
    change some (m.readString p >>= fun text => .ok (k text, m)) = _
    rw [h]
    rfl
  exact Steps.head hstep hrest

/-- A run is made of its steps. -/
theorem steps_of_run {x : Program ι α} {m m' : Shared ι} {a : α} (h : x.run m = .ok (a, m')) :
    x.Steps m (.done a) m' := by
  induction x generalizing m with
  | done b =>
    cases h
    exact Steps.refl _ _
  | fail fault => cases h
  | strtok s delim k ih =>
    obtain ⟨⟨token, m₁⟩, hcall, h⟩ := bind_eq_ok.mp h
    exact Steps.head (y := k token) (by simp only [step, hcall, ok_bind]) (ih token h)
  | readString p k ih =>
    obtain ⟨text, hread, h⟩ := bind_eq_ok.mp h
    exact Steps.head (y := k text) (by simp only [step, hread, ok_bind]) (ih text h)
  | readByte p k ih =>
    obtain ⟨c, hread, h⟩ := bind_eq_ok.mp h
    exact Steps.head (y := k c) (by simp only [step, hread, ok_bind]) (ih c h)

@[simp] theorem run_token (s : Option (Pointer ι)) (delim : List UInt8) (m : Shared ι) :
    (token s delim).run m = m.strtok s delim := by
  unfold token run
  cases m.strtok s delim <;> rfl

@[simp] theorem run_text (p : Option (Pointer ι)) (m : Shared ι) :
    (text p).run m = m.readString p >>= fun text => .ok (text, m) := rfl

@[simp] theorem run_byte (p : Option (Pointer ι)) (m : Shared ι) :
    (byte p).run m = m.readByte p >>= fun c => .ok (c, m) := rfl

end Program

variable {b : ι} {m m' : Shared ι} {s : Option (Pointer ι)} {delim : List UInt8}

/-- A call of `strtok` that works on the buffer `b` stays in it. -/
theorem Shared.strtok_own {token : Option (Pointer ι)} (hs : ∀ p ∈ s.or m.saved, p.1 = b)
    (h : m.strtok s delim = .ok (token, m')) :
    (∀ p ∈ token, p.1 = b) ∧ (∀ p ∈ m'.saved, p.1 = b) ∧
      ∀ c ≠ b, m'.buffers c = m.buffers c := by
  unfold Shared.strtok at h
  split at h
  · cases h
  · rename_i c p hfrom
    obtain rfl : c = b := hs _ hfrom
    obtain ⟨⟨found, st⟩, -, h⟩ := bind_eq_ok.mp h
    cases h
    refine ⟨?_, ?_, fun d hd => Function.update_of_ne hd _ _⟩
    · rintro q hq
      obtain ⟨o, -, rfl⟩ := Option.map_eq_some_iff.mp hq
      rfl
    · rintro q hq
      obtain ⟨o, -, rfl⟩ := Option.map_eq_some_iff.mp hq
      rfl

/-- A step of a private program, at a position in its own buffer, leaves the other buffers as
they are, and the position in its own. -/
theorem Program.Private.step {x y : Program ι α} (hx : x.Private b) (hsaved : ∀ p ∈ m.saved, p.1 = b)
    (h : x.step m = some (.ok (y, m'))) :
    y.Private b ∧ (∀ p ∈ m'.saved, p.1 = b) ∧ ∀ c ≠ b, m'.buffers c = m.buffers c := by
  cases x with
  | done a | fail fault => cases h
  | strtok s delim k =>
    obtain ⟨⟨token, m₁⟩, hr, h⟩ := bind_eq_ok.mp (Option.some.inj h)
    cases h
    have hfrom : ∀ p ∈ s.or m.saved, p.1 = b := by
      intro p hp
      cases s with
      | none => exact hsaved p hp
      | some q => exact hx.1 p hp
    obtain ⟨htoken, hsaved', hrest⟩ := Shared.strtok_own hfrom hr
    exact ⟨hx.2 token htoken, hsaved', hrest⟩
  | readString p k | readByte p k =>
    obtain ⟨r, -, h⟩ := bind_eq_ok.mp (Option.some.inj h)
    cases h
    exact ⟨hx r, hsaved, fun _ _ => rfl⟩

end Runs

/-! ## One thread by itself -/

/-- Two computations end in the same fault, or with related results. -/
def Matches (R : α → β → Prop) (x : Except Fault α) (y : Except Fault β) : Prop :=
  (∃ fault, x = .error fault ∧ y = .error fault) ∨ ∃ a c, x = .ok a ∧ y = .ok c ∧ R a c

theorem Matches.ok {R : α → β → Prop} {a : α} {c : β} (h : R a c) : Matches R (.ok a) (.ok c) :=
  .inr ⟨a, c, rfl, rfl, h⟩

theorem Matches.of_eq {x y : Except Fault α} (h : x = y) : Matches Eq x y := by
  subst h
  cases x with
  | error fault => exact .inl ⟨fault, rfl, rfl⟩
  | ok a => exact .ok rfl

/-- Two computations that end alike, up to what the second has besides. -/
theorem Matches.map_fst {γ : Type} {x : Except Fault α} {y : Except Fault (α × γ)}
    (h : Matches (fun a r => r.1 = a) x y) : y.map Prod.fst = x := by
  obtain ⟨fault, rfl, rfl⟩ | ⟨a, r, rfl, rfl, rfl⟩ := h <;> rfl

/-- Where the first ends well, so does the second. -/
theorem Matches.of_ok {R : α → β → Prop} {a : α} {y : Except Fault β} (h : Matches R (.ok a) y) :
    ∃ c, y = .ok c ∧ R a c := by
  obtain ⟨fault, hx, -⟩ | ⟨a', c, hx, hy, hR⟩ := h
  · cases hx
  · obtain rfl := Except.ok.inj hx
    exact ⟨c, hy, hR⟩

theorem Matches.bind {γ δ : Type} {R : α → β → Prop} {S : γ → δ → Prop} {x : Except Fault α}
    {y : Except Fault β} {f : α → Except Fault γ} {g : β → Except Fault δ} (h : Matches R x y)
    (hnext : ∀ a c, R a c → Matches S (f a) (g c)) : Matches S (x >>= f) (y >>= g) := by
  obtain ⟨fault, rfl, rfl⟩ | ⟨a, c, rfl, rfl, hR⟩ := h
  · exact .inl ⟨fault, rfl, rfl⟩
  · exact hnext a c hR

/-- The buffer `b` and the position are what a thread by itself would see. -/
structure View (b : ι) (st : CState) (m : Shared ι) : Prop where
  mem : m.buffers b = st.mem
  saved : m.saved = st.saved.map (b, ·)

section View

variable {b : ι} {st : CState} {m : Shared ι}

theorem View.readString (h : View b st m) (p : Option ℕ) :
    Matches Eq (CString.readString st.mem p) (m.readString (p.map (b, ·))) := by
  cases p with
  | none => exact .of_eq rfl
  | some p => exact .of_eq (by rw [← h.mem]; rfl)

theorem View.readByte (h : View b st m) (p : Option ℕ) :
    Matches Eq (CString.readByte st.mem p) (m.readByte (p.map (b, ·))) := by
  cases p with
  | none => exact .of_eq rfl
  | some p => exact .of_eq (by rw [← h.mem]; rfl)

variable [DecidableEq ι]

/-- A call of `strtok` by itself and in the process. -/
def SameToken (b : ι) (r : Option ℕ × CState) (r' : Option (Pointer ι) × Shared ι) : Prop :=
  r'.1 = r.1.map (b, ·) ∧ View b r.2 r'.2

/-- The first call with a pointer does not see the position. -/
theorem strtok_start (p : ℕ) (delim : List UInt8) (m : Shared ι) :
    Matches (SameToken b) (CString.strtok (some p) delim { mem := m.buffers b, saved := none })
      (m.strtok (some (b, p)) delim) := by
  have hshared : m.strtok (some (b, p)) delim =
      CString.strtok (some p) delim { mem := m.buffers b, saved := none } >>= fun r =>
        .ok (r.1.map (b, ·), { buffers := Function.update m.buffers b r.2.mem
                               saved := r.2.saved.map (b, ·) }) := rfl
  rw [hshared]
  cases CString.strtok (some p) delim { mem := m.buffers b, saved := none } with
  | error fault => exact .inl ⟨fault, rfl, rfl⟩
  | ok r => exact .ok ⟨rfl, Function.update_self .., rfl⟩

theorem View.strtok (h : View b st m) (s : Option ℕ) (delim : List UInt8) :
    Matches (SameToken b) (CString.strtok s delim st) (m.strtok (s.map (b, ·)) delim) := by
  have hfrom : (s.map (b, ·)).or m.saved = (s.or st.saved).map (b, ·) := by
    rw [h.saved]
    cases s <;> rfl
  cases hp : s.or st.saved with
  | none =>
    rw [hp] at hfrom
    refine .inl ⟨.nullPointer, ?_, ?_⟩
    · simp [CString.strtok, hp]
    · simp [Shared.strtok, hfrom]
  | some p =>
    rw [hp] at hfrom
    have hcall : CString.strtok s delim st =
        CString.strtok (some p) delim { mem := m.buffers b, saved := none } := by
      simp [CString.strtok, hp, h.mem]
    have hshared : m.strtok (s.map (b, ·)) delim = m.strtok (some (b, p)) delim := by
      simp [Shared.strtok, hfrom]
    rw [hcall, hshared]
    exact strtok_start p delim m

/-! The same calls, in front of what follows them. -/

variable {γ δ : Type} {S : γ → δ × Shared ι → Prop}

theorem View.token_bind (h : View b st m) {s : Option ℕ} {s' : Option (Pointer ι)}
    {delim : List UInt8} {f : Option ℕ × CState → Except Fault γ}
    {g : Option (Pointer ι) → Program ι δ} (hs : s' = s.map (b, ·))
    (hnext : ∀ token st m, View b st m → Matches S (f (token, st)) ((g (token.map (b, ·))).run m)) :
    Matches S (CString.strtok s delim st >>= f) ((Program.token s' delim >>= g).run m) := by
  subst hs
  rw [Program.run_bind, Program.run_token]
  refine (h.strtok s delim).bind ?_
  rintro ⟨token, st'⟩ ⟨token', m'⟩ ⟨htoken, hview⟩
  obtain rfl : token' = token.map (b, ·) := htoken
  exact hnext token st' m' hview

theorem View.text_bind (h : View b st m) {p : Option ℕ} {p' : Option (Pointer ι)}
    {f : List UInt8 → Except Fault γ} {g : List UInt8 → Program ι δ} (hp : p' = p.map (b, ·))
    (hnext : ∀ text, Matches S (f text) ((g text).run m)) :
    Matches S (CString.readString st.mem p >>= f) ((Program.text p' >>= g).run m) := by
  subst hp
  rw [Program.run_bind, Program.run_text, bind_assoc]
  refine (h.readString p).bind ?_
  rintro text _ rfl
  exact hnext text

theorem View.byte_bind (h : View b st m) {p : Option ℕ} {p' : Option (Pointer ι)}
    {f : UInt8 → Except Fault γ} {g : UInt8 → Program ι δ} (hp : p' = p.map (b, ·))
    (hnext : ∀ c, Matches S (f c) ((g c).run m)) :
    Matches S (CString.readByte st.mem p >>= f) ((Program.byte p' >>= g).run m) := by
  subst hp
  rw [Program.run_bind, Program.run_byte, bind_assoc]
  refine (h.readByte p).bind ?_
  rintro c _ rfl
  exact hnext c

end View

end NetworkServers.SharedTokens
