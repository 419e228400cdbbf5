import Mathlib.Data.Finset.Card
import MyRedis.Foundation.CriticalSections

/-!
# Linearizability of objects behind a shared mutex

In an atomic object a call takes effect in one step, at some point between its start and its
return.  `LockedObject.linearizable` shows that the threads of a `LockedObject`, whose accesses are
interleaved, see the histories of an atomic object: the same calls and returns in the same order,
and the same memory whenever no writer is inside.  The effect of a call is what its code does when
it runs alone, so that all further facts about the object can be proved sequentially.

`LockedObject.exists_leaving` is the other half: no call is stuck, whatever the others are doing.
-/

namespace Foundation

/-- Where a thread is, seen from outside. -/
inductive Pending (C V : Type) where
  /-- Outside of the object. -/
  | idle
  /-- A method has been called and has not yet taken effect. -/
  | called (c : C)
  /-- The call has taken effect and is about to return. -/
  | leaving (v : V)

/-- A call that is inside has not yet taken effect. -/
def Place.pending {A : Type} {R : A → Type} {C V : Type} : Place A R C V → Pending C V
  | .idle => .idle
  | .waiting c => .called c
  | .inside c _ => .called c
  | .leaving v => .leaving v

namespace LockedObject

variable {A : Type} {R : A → Type} {M T C V ι : Type}

/-! ### The atomic object -/

/-- A state of the atomic object.  The clock readings of an effect lie between `floor`, the time of
the last exclusive effect, and `clock`. -/
structure AtomicState (M T C V ι : Type) where
  /-- The memory. -/
  memory : M
  /-- The time of the last exclusive effect. -/
  floor : T
  /-- The clock. -/
  clock : T
  /-- Where the threads are. -/
  place : ι → Pending C V

/-- No thread has called anything. -/
def AtomicState.start (m : M) (t : T) : AtomicState M T C V ι where
  memory := m
  floor := t
  clock := t
  place := fun _ => .idle

variable [Preorder T]

/-! ### The simulation -/

variable {O : LockedObject A R M T C V} {s s' : State A R M T C V ι} {e : SectionLabel ι C V}
  {a : AtomicState M T C V ι}

/-- The atomic object is in the state that the finished sections have left. -/
structure Simulates (O : LockedObject A R M T C V) (s : State A R M T C V ι)
    (a : AtomicState M T C V ι) : Prop where
  /-- The mutex is in order. -/
  locked : O.Locked s
  /-- The clocks agree. -/
  clock : a.clock = s.clock
  /-- The last exclusive effect is past. -/
  floor : a.floor ≤ s.clock
  /-- The threads are at corresponding places. -/
  place : ∀ i, a.place i = (s.place i).pending
  /-- Whatever a thread inside can still do is what its whole section can do, run alone from the
  state of the atomic object. -/
  whole : ∀ {i c code}, s.place i = .inside c code → ∀ {hi v m},
    code.Exec O.Access hi s.clock s.memory v m →
      (O.body c).Exec O.Access hi a.floor a.memory v m
  /-- The memories agree as long as no writer is inside. -/
  memory : s.mutex.writer = none → a.memory = s.memory

theorem simulates_start (m : M) (t : T) :
    O.Simulates (State.start m t : State A R M T C V ι) (AtomicState.start m t) where
  locked := locked_start m t
  clock := rfl
  floor := le_rfl
  place _ := rfl
  whole h := by cases h
  memory _ := rfl

variable [DecidableEq ι]

/-- The steps of the atomic object.  `Effect lo hi c m v m'` says what a call can do in one step:
from the memory `m` to the memory `m'`, returning `v`, with clock readings from `lo` to `hi`. -/
inductive AtomicStep (exclusive : C → Bool) (Effect : T → T → C → M → V → M → Prop) :
    AtomicState M T C V ι → SectionLabel ι C V → AtomicState M T C V ι → Prop
  /-- A method is called. -/
  | call {a : AtomicState M T C V ι} {i : ι} (c : C) (hplace : a.place i = .idle) :
      AtomicStep exclusive Effect a (.call i c)
        { a with place := Function.update a.place i (.called c) }
  /-- The call takes effect. -/
  | effect {a : AtomicState M T C V ι} {i : ι} {c : C} {v : V} {m : M}
      (hplace : a.place i = .called c) (heffect : Effect a.floor a.clock c a.memory v m) :
      AtomicStep exclusive Effect a (.unlock i) { a with
        memory := m
        floor := if exclusive c then a.clock else a.floor
        place := Function.update a.place i (.leaving v) }
  /-- The method returns. -/
  | ret {a : AtomicState M T C V ι} {i : ι} {v : V} (hplace : a.place i = .leaving v) :
      AtomicStep exclusive Effect a (.ret i v)
        { a with place := Function.update a.place i .idle }
  /-- Time passes. -/
  | tick {a : AtomicState M T C V ι} {t : T} (hclock : a.clock ≤ t) :
      AtomicStep exclusive Effect a .tick { a with clock := t }

/-- The places correspond after both threads have moved. -/
theorem Simulates.place_update (h : O.Simulates s a) {i : ι} {p : Place A R C V}
    {q : Pending C V} (hpq : q = p.pending) (j : ι) :
    Function.update a.place i q j = (Function.update s.place i p j).pending := by
  by_cases hj : j = i
  · rw [hj, Function.update_self, Function.update_self, hpq]
  · rw [Function.update_of_ne hj, Function.update_of_ne hj, h.place j]

/-- A step inside changes nothing for those outside. -/
theorem Simulates.place_stay (h : O.Simulates s a) {i : ι} {p : Place A R C V}
    (hp : p.pending = (s.place i).pending) (j : ι) :
    a.place j = (Function.update s.place i p j).pending := by
  have hsame := h.place_update (i := i) (p := p) ((h.place i).trans hp.symm) j
  rwa [Function.update_eq_self] at hsame

/-- A thread outside moves. -/
theorem Simulates.move_outside (h : O.Simulates s a) {i : ι} {p : Place A R C V} {q : Pending C V}
    (hs : O.mode (s.place i) = none) (hp : O.mode p = none) (hreads : O.OnlyReads p)
    (hpq : q = p.pending) :
    O.Simulates (s.move i p) { a with place := Function.update a.place i q } where
  locked := h.locked.stay rfl rfl (hp.trans hs.symm) hreads
  clock := h.clock
  floor := h.floor
  place := h.place_update hpq
  whole hinside := h.whole (inside_of_move hp hinside).2
  memory := h.memory

/-- A thread enters, to start its section. -/
theorem Simulates.enter (h : O.Simulates s a) {i : ι} {c : C} {mutex : SharedMutex ι}
    (hplace : s.place i = .waiting c) (hwriter : s.mutex.writer = none)
    (hlocked : O.Locked ({ s with mutex := mutex }.move i (.inside c (O.body c)))) :
    O.Simulates ({ s with mutex := mutex }.move i (.inside c (O.body c))) a where
  locked := hlocked
  clock := h.clock
  floor := h.floor
  place := h.place_stay (by rw [hplace]; rfl)
  whole := by
    intro j c' code hinside hi v m hexec
    by_cases hj : j = i
    · subst hj
      rw [State.move_self] at hinside
      cases hinside
      rw [h.memory hwriter]
      exact hexec.mono_left h.floor
    · rw [State.move_of_ne hj] at hinside
      exact h.whole hinside hexec
  memory _ := h.memory hwriter

/-- Every step of the threads is a step of the atomic object, or none that is seen from
outside. -/
theorem Simulates.step {Effect : T → T → C → M → V → M → Prop}
    (heffect : ∀ {lo hi c m v m'}, (O.body c).Exec O.Access hi lo m v m' → Effect lo hi c m v m')
    (h : O.Simulates s a) (hstep : O.Step s e s') :
    ∃ a', (a' = a ∧ e.visible = none ∨ AtomicStep O.exclusive Effect a e a') ∧
      O.Simulates s' a' := by
  have hlocked := h.locked.step hstep
  cases hstep with
  | @call i c hplace =>
    refine ⟨_, Or.inr (.call c ?_), h.move_outside (by rw [hplace]; rfl) rfl trivial rfl⟩
    rw [h.place i, hplace]
    rfl
  | lock hplace hmode hwriter hreaders =>
    exact ⟨a, Or.inl ⟨rfl, rfl⟩, h.enter hplace hwriter hlocked⟩
  | lockShared hplace hmode hwriter =>
    exact ⟨a, Or.inl ⟨rfl, rfl⟩, h.enter hplace hwriter hlocked⟩
  | @access i c x next r m hplace haccess =>
    refine ⟨a, Or.inl ⟨rfl, rfl⟩, hlocked, h.clock, h.floor, ?_, ?_, ?_⟩
    · exact h.place_stay (by rw [hplace]; rfl)
    · intro j c' code hinside hi v m' hexec
      by_cases hj : j = i
      · subst hj
        rw [State.move_self] at hinside
        cases hinside
        exact h.whole hplace ⟨_, r, m, le_rfl, haccess, hexec⟩
      · -- another thread is inside, so this access only reads
        rw [State.move_of_ne hj] at hinside
        have hshared := h.locked.shared_of_ne (Ne.symm hj) hplace hinside
        obtain rfl := h.locked.memory_eq hplace hshared haccess
        exact h.whole hinside hexec
    · intro hwriter
      obtain rfl := h.locked.memory_eq hplace (h.locked.shared_of_writer hplace hwriter) haccess
      exact h.memory hwriter
  | @unlock i c v hplace =>
    have hwhole := h.whole hplace ⟨le_rfl, rfl, rfl⟩
    rw [← h.clock] at hwhole
    refine ⟨_, Or.inr (.effect ?_ (heffect hwhole)), hlocked, h.clock, ?_, ?_, ?_, fun _ => rfl⟩
    · rw [h.place i, hplace]
      rfl
    · change (if _ then _ else _) ≤ s.clock
      split
      · exact h.clock.le
      · exact h.floor
    · exact h.place_update rfl
    · intro j c' code hinside hi v' m' hexec
      obtain ⟨hj, hother⟩ := inside_of_move (O := O) rfl hinside
      have hshared := h.locked.shared_of_ne (Ne.symm hj) hplace hother
      have hwriter : s.mutex.writer = none := by
        refine h.locked.held.writer_eq_none (i := i) ?_
        rw [hplace, mode, hshared]
      change (O.body c').Exec O.Access hi (if _ then _ else _) s.memory v' m'
      rw [if_neg (by simp [hshared]), ← h.memory hwriter]
      exact h.whole hother hexec
  | @ret i v hplace =>
    refine ⟨_, Or.inr (.ret ?_), h.move_outside (by rw [hplace]; rfl) rfl trivial rfl⟩
    rw [h.place i, hplace]
    rfl
  | @tick t hclock =>
    refine ⟨{ a with clock := t }, Or.inr (.tick (h.clock.le.trans hclock)), hlocked, rfl, ?_, ?_,
      ?_, h.memory⟩
    · exact h.floor.trans hclock
    · exact h.place
    · intro j c code hinside hi v m hexec
      exact h.whole hinside (hexec.mono_left hclock)

/-- The calls and returns of every run are those of the atomic object in which a call does in one
step what its code does alone. -/
theorem linearizable {Effect : T → T → C → M → V → M → Prop}
    (heffect : ∀ {lo hi c m v m'}, (O.body c).Exec O.Access hi lo m v m' → Effect lo hi c m v m')
    {m : M} {t : T} {past : List (State A R M T C V ι × SectionLabel ι C V)}
    (h : Trace O.Step (State.start m t) past s) :
    ∃ past' a, Trace (AtomicStep O.exclusive Effect) (AtomicState.start m t) past' a ∧
      callHistory past' = callHistory past ∧ O.Simulates s a := by
  induction h with
  | nil => exact ⟨[], _, .nil, rfl, simulates_start m t⟩
  | @snoc past s s' e _ hstep ih =>
    obtain ⟨past', a, htrace, hhistory, hsim⟩ := ih
    obtain ⟨a', hatomic, hsim'⟩ := hsim.step heffect hstep
    rcases hatomic with ⟨rfl, hinvisible⟩ | hatomic
    · refine ⟨past', a', htrace, ?_, hsim'⟩
      rw [callHistory_snoc, hinvisible, hhistory]
      exact (List.append_nil _).symm
    · refine ⟨_, a', htrace.snoc hatomic, ?_, hsim'⟩
      rw [callHistory_snoc, callHistory_snoc, hhistory]

/-! ### No call is stuck -/

/-- A thread inside can run its section to the end, alone. -/
theorem exists_unlock (s : State A R M T C V ι) {i : ι} {c : C} {code : Code A R V}
    (hplace : s.place i = .inside c code) :
    ∃ past s' v, Trace O.Step s past s' ∧ callHistory past = [] ∧ s'.place i = .leaving v ∧
      (∀ j, j ≠ i → s'.place j = s.place j) ∧
      s'.mutex = s.mutex.unlock i (O.exclusive c) := by
  induction code generalizing s with
  | done v =>
    refine ⟨_, _, v, Trace.nil.snoc (.unlock hplace), rfl, State.move_self _ _ _, ?_, rfl⟩
    intro j hj
    exact State.move_of_ne hj _ _
  | access a next ih =>
    obtain ⟨r, m, haccess⟩ := O.access_total a s.clock s.memory
    obtain ⟨past, s', v, htrace, hhistory, hleaving, hothers, hmutex⟩ :=
      ih r ({ s with memory := m }.move i (.inside c (next r))) (State.move_self _ _ _)
    refine ⟨_, s', v, htrace.cons (.access hplace haccess), hhistory, hleaving, ?_, hmutex⟩
    intro j hj
    rw [hothers j hj]
    exact State.move_of_ne hj _ _

/-- The readers can all leave. -/
theorem exists_free_of_writer_eq_none {n : ℕ} (h : O.Locked s) (hwriter : s.mutex.writer = none)
    (hn : s.mutex.readers.card = n) :
    ∃ past s', Trace O.Step s past s' ∧ callHistory past = [] ∧ s'.mutex = SharedMutex.free ∧
      ∀ j, O.mode (s.place j) = none → s'.place j = s.place j := by
  induction n generalizing s with
  | zero =>
    refine ⟨[], s, .nil, rfl, ?_, fun _ _ => rfl⟩
    rw [Finset.card_eq_zero] at hn
    exact SharedMutex.ext hwriter hn
  | succ n ih =>
    obtain ⟨i, hi⟩ : s.mutex.readers.Nonempty := Finset.card_pos.mp (by omega)
    obtain ⟨c, code, hplace, hshared⟩ := inside_of_mode ((h.held.readers i).mp hi)
    obtain ⟨past, s₁, v, htrace, hhistory, -, hothers, hmutex⟩ := exists_unlock (O := O) s hplace
    rw [hshared] at hmutex
    have hwriter₁ : s₁.mutex.writer = none := by
      rw [hmutex]
      exact hwriter
    have hcard : s₁.mutex.readers.card = n := by
      rw [hmutex]
      change (s.mutex.readers.erase i).card = n
      rw [Finset.card_erase_of_mem hi, hn, Nat.add_sub_cancel]
    obtain ⟨later, s', htrace', hhistory', hfree, hkept⟩ := ih (h.trace htrace) hwriter₁ hcard
    refine ⟨_, s', htrace.append htrace', ?_, hfree, fun j hj => ?_⟩
    · rw [callHistory_append, hhistory, hhistory', List.append_nil]
    · have hne : j ≠ i := by
        rintro rfl
        rw [hplace] at hj
        cases hj
      rw [← hothers j hne] at hj ⊢
      exact hkept j hj

/-- The threads inside can all leave: the writer, or one reader after the other. -/
theorem exists_free (h : O.Locked s) :
    ∃ past s', Trace O.Step s past s' ∧ callHistory past = [] ∧ s'.mutex = SharedMutex.free ∧
      ∀ j, O.mode (s.place j) = none → s'.place j = s.place j := by
  cases hwriter : s.mutex.writer with
  | none => exact exists_free_of_writer_eq_none h hwriter rfl
  | some i =>
    obtain ⟨c, code, hplace, hmode⟩ := inside_of_mode ((h.held.writer i).mp hwriter)
    obtain ⟨past, s', v, htrace, hhistory, -, hothers, hmutex⟩ := exists_unlock (O := O) s hplace
    rw [hmode] at hmutex
    refine ⟨past, s', htrace, hhistory, ?_, fun j hj => hothers j ?_⟩
    · rw [hmutex]
      exact SharedMutex.ext rfl (h.held.alone (by simp [hwriter]))
    · rintro rfl
      rw [hplace] at hj
      cases hj

/-- A call that has not yet taken effect can do so, with the threads inside leaving first if it
still waits for the mutex. -/
theorem exists_leaving (h : O.Locked s) {i : ι} {c : C}
    (hplace : (s.place i).pending = .called c) :
    ∃ past s' v, Trace O.Step s past s' ∧ callHistory past = [] ∧ s'.place i = .leaving v := by
  cases hi : s.place i with
  | idle | leaving =>
    rw [hi] at hplace
    cases hplace
  | inside c code =>
    obtain ⟨past, s', v, htrace, hhistory, hleaving, -⟩ := exists_unlock (O := O) s hi
    exact ⟨past, s', v, htrace, hhistory, hleaving⟩
  | waiting c =>
    obtain ⟨past, s₁, htrace, hhistory, hfree, hkept⟩ := exists_free h
    have hwaiting : s₁.place i = .waiting c := (hkept i (by rw [hi]; rfl)).trans hi
    obtain ⟨s₂, hlock, hinside⟩ : ∃ s₂, O.Step s₁ (.lock i) s₂ ∧
        s₂.place i = .inside c (O.body c) := by
      cases hmode : O.exclusive c with
      | true =>
        refine ⟨_, .lock hwaiting hmode ?_ ?_, State.move_self _ _ _⟩ <;> rw [hfree] <;> rfl
      | false =>
        refine ⟨_, .lockShared hwaiting hmode ?_, State.move_self _ _ _⟩
        rw [hfree]
        rfl
    obtain ⟨later, s', v, htrace', hhistory', hleaving, -⟩ := exists_unlock (O := O) s₂ hinside
    refine ⟨_, s', v, (htrace.snoc hlock).append htrace', ?_, hleaving⟩
    rw [callHistory_append, callHistory_snoc, hhistory, hhistory']
    rfl

end LockedObject

end Foundation
