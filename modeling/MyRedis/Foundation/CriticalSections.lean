import Mathlib.Order.Basic
import MyRedis.Foundation.SharedMutex
import MyRedis.Foundation.Trace

/-!
# Objects behind a shared mutex

A `LockedObject` has methods whose code accesses a memory one access at a time, between locking and
unlocking a shared mutex: exclusively, or shared with other readers.  Any number of threads call
the methods, their accesses are interleaved in every way that the mutex admits, and a clock
advances between any two steps.

In every run the mutex knows who is inside (`LockedObject.Locked.trace`), so that two threads
never race for the memory (`LockedObject.Locked.no_data_race`).  What the code of a method does
when it runs alone is `Code.Exec`.
-/

namespace Foundation

/-! ### Code -/

/-- Code that accesses a memory; `R a` is the type of the reply to the access `a`. -/
inductive Code (A : Type) (R : A → Type) (α : Type) where
  /-- The code has come to its end. -/
  | done (result : α)
  /-- An access, and how to go on with its reply. -/
  | access (a : A) (next : R a → Code A R α)

namespace Code

variable {A : Type} {R : A → Type} {α β M T : Type}

/-- Go on with other code. -/
def bind : Code A R α → (α → Code A R β) → Code A R β
  | done result, f => f result
  | access a next, f => access a fun r => (next r).bind f

instance : Monad (Code A R) where
  pure := done
  bind := bind

/-- Code after code after code. -/
theorem bind_assoc {γ : Type} (p : Code A R α) (f : α → Code A R β) (g : β → Code A R γ) :
    p >>= f >>= g = p >>= fun result => f result >>= g := by
  induction p with
  | done result => rfl
  | access a next ih => exact congrArg (access a) (funext ih)

/-- Code with nothing after it. -/
theorem bind_pure (p : Code A R α) : p >>= pure = p := by
  induction p with
  | done result => rfl
  | access a next ih => exact congrArg (access a) (funext ih)

/-- Perform one access. -/
def perform (a : A) : Code A R (R a) :=
  access a done

/-- All accesses, whatever the replies, have the property. -/
def All (P : A → Prop) : Code A R α → Prop
  | done _ => True
  | access a next => P a ∧ ∀ r, (next r).All P

/-- The code makes at most `n` accesses, whatever the replies. -/
def Within : ℕ → Code A R α → Prop
  | _, done _ => True
  | 0, access _ _ => False
  | n + 1, access _ next => ∀ r, (next r).Within n

/-- A larger bound. -/
theorem Within.mono {n n' : ℕ} {p : Code A R α} (hp : p.Within n) (hn : n ≤ n') :
    p.Within n' := by
  induction p generalizing n n' with
  | done result => cases n' <;> exact trivial
  | access a next ih =>
    cases n with
    | zero => exact hp.elim
    | succ n =>
      cases n' with
      | zero => omega
      | succ n' => exact fun r => ih r (hp r) (Nat.le_of_succ_le_succ hn)

/-- Composed code makes at most the accesses of one part and then of the other. -/
theorem Within.bind {n n' : ℕ} {p : Code A R α} {f : α → Code A R β} (hp : p.Within n)
    (hf : ∀ result, (f result).Within n') : (p >>= f).Within (n + n') := by
  induction p generalizing n with
  | done result => exact (hf result).mono (Nat.le_add_left n' n)
  | access a next ih =>
    cases n with
    | zero => exact hp.elim
    | succ n =>
      rw [Nat.succ_add]
      exact fun r => ih r (hp r)

section Exec

variable [Preorder T] (Access : (a : A) → T → M → R a → M → Prop)

/-- The code, run alone from the memory `m` at times from `lo` to `hi`, comes to its end with this
result and this memory. -/
def Exec (hi : T) : Code A R α → T → M → α → M → Prop
  | done result, lo, m, v, m' => lo ≤ hi ∧ v = result ∧ m' = m
  | access a next, lo, m, v, m' =>
    ∃ t r m₁, lo ≤ t ∧ Access a t m r m₁ ∧ (next r).Exec hi t m₁ v m'

variable {Access}

/-- The code may have been started earlier. -/
theorem Exec.mono_left {hi lo lo' : T} {code : Code A R α} {m m' : M} {v : α} (hlo : lo' ≤ lo)
    (h : code.Exec Access hi lo m v m') : code.Exec Access hi lo' m v m' := by
  cases code with
  | done result => exact ⟨hlo.trans h.1, h.2⟩
  | access a next =>
    obtain ⟨t, r, m₁, ht, haccess, hrest⟩ := h
    exact ⟨t, r, m₁, hlo.trans ht, haccess, hrest⟩

/-- The code may have been finished earlier. -/
theorem Exec.mono_right {hi hi' lo : T} {code : Code A R α} {m m' : M} {v : α} (hhi : hi ≤ hi')
    (h : code.Exec Access hi lo m v m') : code.Exec Access hi' lo m v m' := by
  induction code generalizing lo m with
  | done result => exact ⟨h.1.trans hhi, h.2⟩
  | access a next ih =>
    obtain ⟨t, r, m₁, ht, haccess, hrest⟩ := h
    exact ⟨t, r, m₁, ht, haccess, ih r hrest⟩

/-- Composed code is run part by part. -/
theorem exec_bind {hi lo : T} {p : Code A R α} {f : α → Code A R β} {m m' : M} {v : β} :
    (p >>= f).Exec Access hi lo m v m' ↔
      ∃ t result m₁, p.Exec Access t lo m result m₁ ∧ (f result).Exec Access hi t m₁ v m' := by
  constructor
  · intro h
    induction p generalizing lo m with
    | done result => exact ⟨lo, result, m, ⟨le_rfl, rfl, rfl⟩, h⟩
    | access a next ih =>
      obtain ⟨t, r, m₁, ht, haccess, hrest⟩ := h
      obtain ⟨t', result, m₂, hp, hf⟩ := ih r hrest
      exact ⟨t', result, m₂, ⟨t, r, m₁, ht, haccess, hp⟩, hf⟩
  · rintro ⟨t', result, m₁, hp, hf⟩
    induction p generalizing lo m with
    | done result' =>
      obtain ⟨hlo, rfl, rfl⟩ := hp
      exact hf.mono_left hlo
    | access a next ih =>
      obtain ⟨t, r, m₂, ht, haccess, hrest⟩ := hp
      exact ⟨t, r, m₂, ht, haccess, ih r hrest⟩

end Exec

end Code

/-! ### The machine -/

/-- An object whose methods run between locking and unlocking a shared mutex. -/
structure LockedObject (A : Type) (R : A → Type) (M T C V : Type) where
  /-- What an access at a time can do: its reply, and the memory after it. -/
  Access : (a : A) → T → M → R a → M → Prop
  /-- The accesses that only read. -/
  Reads : A → Prop
  /-- The code that runs for a call while the mutex is locked. -/
  body : C → Code A R V
  /-- Whether a call locks the mutex exclusively, or shared with others. -/
  exclusive : C → Bool
  /-- An access always comes to an end. -/
  access_total : ∀ a t m, ∃ r m', Access a t m r m'
  /-- An access that only reads leaves the memory alone. -/
  eq_of_reads : ∀ {a t m r m'}, Reads a → Access a t m r m' → m' = m
  /-- Calls that share the mutex only read. -/
  reads_of_shared : ∀ {c}, exclusive c = false → (body c).All Reads

/-- Where a thread is. -/
inductive Place (A : Type) (R : A → Type) (C V : Type) where
  /-- Outside of the object. -/
  | idle
  /-- A method has been called and waits for the mutex. -/
  | waiting (c : C)
  /-- The mutex is locked, and this code is still to be run. -/
  | inside (c : C) (code : Code A R V)
  /-- The mutex is unlocked again, and the method is about to return. -/
  | leaving (v : V)

/-- The steps of the threads, and the passing of time. -/
inductive SectionLabel (ι C V : Type) where
  /-- A thread calls a method. -/
  | call (i : ι) (c : C)
  /-- A thread gets the mutex. -/
  | lock (i : ι)
  /-- A thread accesses the memory. -/
  | access (i : ι)
  /-- A thread unlocks the mutex. -/
  | unlock (i : ι)
  /-- A method returns. -/
  | ret (i : ι) (v : V)
  /-- Time passes. -/
  | tick

/-- What is seen from outside: calls and returns. -/
inductive CallEvent (ι C V : Type) where
  | call (i : ι) (c : C)
  | ret (i : ι) (v : V)
deriving DecidableEq

/-- The calls and returns among the steps. -/
def SectionLabel.visible {ι C V : Type} : SectionLabel ι C V → Option (CallEvent ι C V)
  | .call i c => some (.call i c)
  | .ret i v => some (.ret i v)
  | _ => none

/-- The thread that takes a step. -/
def SectionLabel.thread {ι C V : Type} : SectionLabel ι C V → Option ι
  | .call i _ | .lock i | .access i | .unlock i | .ret i _ => some i
  | .tick => none

/-- The history of calls and returns of a trace. -/
def callHistory {σ ι C V : Type} (past : List (σ × SectionLabel ι C V)) : List (CallEvent ι C V) :=
  past.filterMap fun p => p.2.visible

@[simp] theorem callHistory_snoc {σ ι C V : Type} (past : List (σ × SectionLabel ι C V)) (s : σ)
    (e : SectionLabel ι C V) :
    callHistory (past ++ [(s, e)]) = callHistory past ++ e.visible.toList := by
  unfold callHistory
  rw [List.filterMap_append]
  cases h : e.visible <;> simp [h]

/-- The history of a run and of a run after it. -/
theorem callHistory_append {σ ι C V : Type} (past later : List (σ × SectionLabel ι C V)) :
    callHistory (past ++ later) = callHistory past ++ callHistory later :=
  List.filterMap_append

namespace LockedObject

variable {A : Type} {R : A → Type} {M T C V ι : Type}

/-- A state of the machine. -/
structure State (A : Type) (R : A → Type) (M T C V ι : Type) where
  /-- The memory. -/
  memory : M
  /-- The clock. -/
  clock : T
  /-- The mutex. -/
  mutex : SharedMutex ι
  /-- Where the threads are. -/
  place : ι → Place A R C V

/-- No thread has called anything. -/
def State.start (m : M) (t : T) : State A R M T C V ι where
  memory := m
  clock := t
  mutex := SharedMutex.free
  place := fun _ => .idle

/-- How a thread at this place holds the mutex. -/
def mode (O : LockedObject A R M T C V) : Place A R C V → Option Bool
  | .inside c _ => some (O.exclusive c)
  | .idle | .waiting _ | .leaving _ => none

/-! ### Steps -/

section Steps

variable [DecidableEq ι]

/-- A thread moves. -/
def State.move (s : State A R M T C V ι) (i : ι) (p : Place A R C V) : State A R M T C V ι :=
  { s with place := Function.update s.place i p }

@[simp] theorem State.move_self (s : State A R M T C V ι) (i : ι) (p : Place A R C V) :
    (s.move i p).place i = p :=
  Function.update_self _ _ _

theorem State.move_of_ne {i j : ι} (h : j ≠ i) (s : State A R M T C V ι) (p : Place A R C V) :
    (s.move i p).place j = s.place j :=
  Function.update_of_ne h _ _

/-- The steps of the machine. -/
inductive Step [Preorder T] (O : LockedObject A R M T C V) :
    State A R M T C V ι → SectionLabel ι C V → State A R M T C V ι → Prop
  /-- A method is called. -/
  | call {s : State A R M T C V ι} {i : ι} (c : C) (hplace : s.place i = .idle) :
      Step O s (.call i c) (s.move i (.waiting c))
  /-- The mutex is locked exclusively, which needs it to be free. -/
  | lock {s : State A R M T C V ι} {i : ι} {c : C} (hplace : s.place i = .waiting c)
      (hmode : O.exclusive c = true) (hwriter : s.mutex.writer = none)
      (hreaders : s.mutex.readers = ∅) :
      Step O s (.lock i)
        ({ s with mutex := s.mutex.lock i }.move i (.inside c (O.body c)))
  /-- The mutex is locked shared, which needs it not to be locked exclusively. -/
  | lockShared {s : State A R M T C V ι} {i : ι} {c : C} (hplace : s.place i = .waiting c)
      (hmode : O.exclusive c = false) (hwriter : s.mutex.writer = none) :
      Step O s (.lock i)
        ({ s with mutex := s.mutex.lockShared i }.move i (.inside c (O.body c)))
  /-- One access. -/
  | access {s : State A R M T C V ι} {i : ι} {c : C} {a : A} {next : R a → Code A R V} {r : R a}
      {m : M} (hplace : s.place i = .inside c (.access a next))
      (haccess : O.Access a s.clock s.memory r m) :
      Step O s (.access i) ({ s with memory := m }.move i (.inside c (next r)))
  /-- The mutex is unlocked. -/
  | unlock {s : State A R M T C V ι} {i : ι} {c : C} {v : V}
      (hplace : s.place i = .inside c (.done v)) :
      Step O s (.unlock i)
        ({ s with mutex := s.mutex.unlock i (O.exclusive c) }.move i (.leaving v))
  /-- The method returns. -/
  | ret {s : State A R M T C V ι} {i : ι} {v : V} (hplace : s.place i = .leaving v) :
      Step O s (.ret i v) (s.move i .idle)
  /-- Time passes. -/
  | tick {s : State A R M T C V ι} {t : T} (hclock : s.clock ≤ t) :
      Step O s .tick { s with clock := t }

/-- The next step of a thread inside or about to go there, if the mutex does not hold it up;
`outcome` decides what accesses do. -/
def advance (O : LockedObject A R M T C V) (outcome : (a : A) → T → M → R a × M)
    (s : State A R M T C V ι) (i : ι) : Option (SectionLabel ι C V × State A R M T C V ι) :=
  match s.place i with
  | .idle => none
  | .waiting c =>
    match O.exclusive c with
    | true =>
      if s.mutex.writer.isNone ∧ s.mutex.readers = ∅ then
        some (.lock i, { s with mutex := s.mutex.lock i }.move i (.inside c (O.body c)))
      else none
    | false =>
      if s.mutex.writer.isNone then
        some (.lock i, { s with mutex := s.mutex.lockShared i }.move i (.inside c (O.body c)))
      else none
  | .inside c (.access a next) =>
    let after := outcome a s.clock s.memory
    some (.access i, { s with memory := after.2 }.move i (.inside c (next after.1)))
  | .inside c (.done v) =>
    some (.unlock i, { s with mutex := s.mutex.unlock i (O.exclusive c) }.move i (.leaving v))
  | .leaving v => some (.ret i v, s.move i .idle)

/-- What is computed is a step of the thread, other than a call. -/
theorem step_of_advance [Preorder T] {O : LockedObject A R M T C V}
    {outcome : (a : A) → T → M → R a × M}
    (houtcome : ∀ a t m, O.Access a t m (outcome a t m).1 (outcome a t m).2)
    {s s' : State A R M T C V ι} {i : ι} {e : SectionLabel ι C V}
    (h : O.advance outcome s i = some (e, s')) :
    O.Step s e s' ∧ e.thread = some i ∧ ∀ j c, e ≠ .call j c := by
  unfold advance at h
  cases hplace : s.place i with
  | idle =>
    rw [hplace] at h
    cases h
  | waiting c =>
    rw [hplace] at h
    cases hmode : O.exclusive c with
    | true =>
      simp only [hmode] at h
      obtain ⟨⟨hwriter, hreaders⟩, heq⟩ := Option.ite_none_right_eq_some.mp h
      cases heq
      exact ⟨.lock hplace hmode (Option.isNone_iff_eq_none.mp hwriter) hreaders, rfl, nofun⟩
    | false =>
      simp only [hmode] at h
      obtain ⟨hwriter, heq⟩ := Option.ite_none_right_eq_some.mp h
      cases heq
      exact ⟨.lockShared hplace hmode (Option.isNone_iff_eq_none.mp hwriter), rfl, nofun⟩
  | inside c code =>
    rw [hplace] at h
    cases code with
    | access a next =>
      cases h
      exact ⟨.access hplace (houtcome a _ _), rfl, nofun⟩
    | done v =>
      cases h
      exact ⟨.unlock hplace, rfl, nofun⟩
  | leaving v =>
    rw [hplace] at h
    cases h
    exact ⟨.ret hplace, rfl, nofun⟩

end Steps

/-! ### Mutual exclusion -/

/-- A thread that shares the mutex has only reading left to do. -/
def OnlyReads (O : LockedObject A R M T C V) : Place A R C V → Prop
  | .inside c code => O.exclusive c = false → code.All O.Reads
  | .idle | .waiting _ | .leaving _ => True

/-- The mutex knows who is inside, and readers only read. -/
structure Locked (O : LockedObject A R M T C V) (s : State A R M T C V ι) : Prop where
  /-- The mutex knows who is inside. -/
  held : s.mutex.HeldAs fun i => O.mode (s.place i)
  /-- Readers only read. -/
  reads : ∀ i, O.OnlyReads (s.place i)

variable {O : LockedObject A R M T C V} {s s' : State A R M T C V ι} {e : SectionLabel ι C V}

theorem locked_start (m : M) (t : T) : O.Locked (State.start m t : State A R M T C V ι) :=
  ⟨SharedMutex.heldAs_free, fun _ => trivial⟩

/-- Two threads inside at the same time are both there as readers. -/
theorem Locked.shared_of_ne (h : O.Locked s) {i j : ι} (hij : i ≠ j) {c c' : C}
    {code code' : Code A R V} (hi : s.place i = .inside c code)
    (hj : s.place j = .inside c' code') : O.exclusive c = false := by
  by_contra hne
  have hmode : O.mode (s.place i) = some true := by rw [hi, mode, Bool.of_not_eq_false hne]
  refine hij (h.held.eq_of_exclusive hmode (j := j) ?_).symm
  rw [hj]
  simp [mode]

/-- A thread that holds the mutex is inside. -/
theorem inside_of_mode {p : Place A R C V} {exclusive : Bool} (h : O.mode p = some exclusive) :
    ∃ c code, p = .inside c code ∧ O.exclusive c = exclusive := by
  cases p with
  | inside c code => exact ⟨c, code, rfl, Option.some.inj h⟩
  | idle | waiting | leaving => cases h

/-- A thread inside while there is no writer is a reader. -/
theorem Locked.shared_of_writer (h : O.Locked s) {i : ι} {c : C} {code : Code A R V}
    (hi : s.place i = .inside c code) (hwriter : s.mutex.writer = none) :
    O.exclusive c = false := by
  by_contra hne
  have hmode : O.mode (s.place i) = some true := by rw [hi, mode, Bool.of_not_eq_false hne]
  have hsome := (h.held.writer i).mpr hmode
  rw [hwriter] at hsome
  cases hsome

/-- An access of a reader leaves the memory alone. -/
theorem Locked.memory_eq (h : O.Locked s) {i : ι} {c : C} {a : A} {next : R a → Code A R V}
    (hi : s.place i = .inside c (.access a next)) (hshared : O.exclusive c = false) {t : T}
    {r : R a} {m : M} (haccess : O.Access a t s.memory r m) : m = s.memory := by
  have hreads := h.reads i
  rw [hi] at hreads
  exact O.eq_of_reads (hreads hshared).1 haccess

/-- No data race: accesses that two threads could make next only read, both of them. -/
theorem Locked.no_data_race (h : O.Locked s) {i j : ι} (hij : i ≠ j) {c c' : C} {a a' : A}
    {next : R a → Code A R V} {next' : R a' → Code A R V}
    (hi : s.place i = .inside c (.access a next))
    (hj : s.place j = .inside c' (.access a' next')) : O.Reads a ∧ O.Reads a' := by
  have hreads := h.reads i
  have hreads' := h.reads j
  rw [hi] at hreads
  rw [hj] at hreads'
  exact ⟨(hreads (h.shared_of_ne hij hi hj)).1, (hreads' (h.shared_of_ne hij.symm hj hi)).1⟩

variable [DecidableEq ι]

/-- The modes of the threads after one of them has moved. -/
theorem mode_move (s : State A R M T C V ι) (i : ι) (p : Place A R C V) :
    (fun j => O.mode ((s.move i p).place j)) =
      Function.update (fun j => O.mode (s.place j)) i (O.mode p) :=
  Function.comp_update O.mode s.place i p

/-- The mutex stays in order when a thread moves and the mutex follows. -/
theorem Locked.move (h : O.Locked s) {i : ι} {p : Place A R C V} {s₁ : State A R M T C V ι}
    (hplace : s₁.place = s.place)
    (hheld : s₁.mutex.HeldAs (Function.update (fun j => O.mode (s.place j)) i (O.mode p)))
    (hreads : O.OnlyReads p) : O.Locked (s₁.move i p) := by
  refine ⟨?_, fun j => ?_⟩
  · rw [mode_move, hplace]
    exact hheld
  · by_cases hj : j = i
    · rw [hj, State.move_self]
      exact hreads
    · rw [State.move_of_ne hj, hplace]
      exact h.reads j

/-- A thread that moves without changing its mode leaves the mutex alone. -/
theorem Locked.stay (h : O.Locked s) {i : ι} {p : Place A R C V} {s₁ : State A R M T C V ι}
    (hplace : s₁.place = s.place) (hmutex : s₁.mutex = s.mutex)
    (hmode : O.mode p = O.mode (s.place i)) (hreads : O.OnlyReads p) : O.Locked (s₁.move i p) := by
  refine h.move hplace ?_ hreads
  rw [hmutex, hmode, Function.update_eq_self]
  exact h.held

/-- The threads inside after one of them has moved to a place that is not inside. -/
theorem inside_of_move {i j : ι} {p : Place A R C V} {c : C} {code : Code A R V}
    (hp : O.mode p = none) (h : (s.move i p).place j = .inside c code) :
    j ≠ i ∧ s.place j = .inside c code := by
  have hj : j ≠ i := by
    rintro rfl
    rw [State.move_self] at h
    rw [h] at hp
    cases hp
  rw [State.move_of_ne hj] at h
  exact ⟨hj, h⟩

variable [Preorder T]

/-- A thread stays where it is while others take steps. -/
theorem Step.place_eq {j : ι} (hstep : O.Step s e s') (hthread : e.thread ≠ some j) :
    s'.place j = s.place j := by
  have hne : ∀ {i : ι}, some i ≠ some j → j ≠ i := fun h hji => h (congrArg some hji.symm)
  cases hstep with
  | tick => rfl
  | _ => exact State.move_of_ne (hne hthread) _ _

/-- Every step keeps the mutex in order. -/
theorem Locked.step (h : O.Locked s) (hstep : O.Step s e s') : O.Locked s' := by
  cases hstep with
  | @call i c hplace => exact h.stay rfl rfl (by rw [hplace]; rfl) trivial
  | @lock i c hplace hmode hwriter hreaders =>
    refine h.move rfl ?_ fun hshared => ?_
    · rw [mode, hmode]
      exact h.held.lock hwriter hreaders
    · rw [hmode] at hshared
      cases hshared
  | @lockShared i c hplace hmode hwriter =>
    refine h.move rfl ?_ O.reads_of_shared
    rw [mode, hmode]
    exact h.held.lockShared hwriter
  | @access i c a next r m hplace haccess =>
    refine h.stay rfl rfl (by rw [hplace]; rfl) fun hshared => ?_
    have hreads := h.reads i
    rw [hplace] at hreads
    exact (hreads hshared).2 r
  | @unlock i c v hplace =>
    refine h.move rfl (h.held.unlock ?_) trivial
    rw [hplace]
    rfl
  | @ret i v hplace => exact h.stay rfl rfl (by rw [hplace]; rfl) trivial
  | tick hclock => exact ⟨h.held, h.reads⟩

/-- A run keeps the mutex in order. -/
theorem Locked.trace {past : List (State A R M T C V ι × SectionLabel ι C V)} (h : O.Locked s)
    (htrace : Trace O.Step s past s') : O.Locked s' :=
  Trace.invariant (I := fun _ s => O.Locked s) h (fun _ _ _ _ h hstep => h.step hstep) htrace

end LockedObject

end Foundation
