import MyRedis.Commands.Isolation

/-!
# Watched keys

What `WATCH` remembers of a key, and what the check of `EXEC` compares with it.  Strings are
compared byte by byte; a list is tracked by its length as an `int`, and an absent key counts as a
list of length zero.  So two values of a key are told apart if and only if they differ in `classOf`
(`keyModified_iff`), which is `kept` as long as lists have less than `2 ^ 31` elements.  In every
run with such lists an `EXEC` runs the queue if and only if every key watched since the last `EXEC`
has a value with the same string or the same length as when it was watched, and otherwise it runs
nothing (`System.exec_runs_iff`).

A command that looks at several keys does so at several instants.  The value that a key has "at"
`WATCH` or `EXEC` is the value at the instant of the last look that the command takes at this key.
-/

namespace MyRedis

open Foundation

/-! ### Values that are not told apart -/

/-- What a snapshot keeps of a value. -/
inductive WatchClass where
  /-- A string. -/
  | str (s : Bytes)
  /-- An absent key, or a list, with its length. -/
  | size (n : Int32)
  /-- A list whose length is negative as an `int`. -/
  | overlong
deriving DecidableEq

/-- The class of a list by its length as an `int`. -/
def sizeClass (n : Int32) : WatchClass :=
  if 0 ≤ n then .size n else .overlong

/-- The class of an observable value. -/
def classOf : Option Value → WatchClass
  | some (.str s) => .str s
  | some (.list l _) => sizeClass (Int32.ofNat l.length)
  | none => .size 0

/-- What `WATCH` stores for a key with a value of this class. -/
def snapshotOf (key : Bytes) : WatchClass → WatchedKeySnapshot
  | .str s => ⟨key, true, some s, -1⟩
  | .size n => ⟨key, true, none, n⟩
  | .overlong => ⟨key, false, none, -1⟩

/-- The number of times that a command looks at a key with this value: once at a string. -/
def looks : Option Value → ℕ
  | some (.str _) => 1
  | _ => 2

/-- What is kept of a value whose list is not too long: its string or its number of elements, which
is zero for an absent key. -/
def kept : Option Value → Bytes ⊕ ℕ
  | some (.str s) => .inl s
  | some (.list l _) => .inr l.length
  | none => .inr 0

/-- The value is not a list of `2 ^ 31` or more elements. -/
def Short (v : Option Value) : Prop := ∀ l hl, v = some (.list l hl) → l.length < 2 ^ 31

/-- All lists have less than `2 ^ 31` elements. -/
def Database.ShortLists (db : Database) : Prop :=
  ∀ e ∈ db.listStore.entries, e.2.length < 2 ^ 31

instance (db : Database) : Decidable db.ShortLists :=
  inferInstanceAs (Decidable (∀ e ∈ db.listStore.entries, e.2.length < 2 ^ 31))

/-- The observable values are short. -/
theorem Database.ShortLists.valueAt {db : Database} (h : db.ShortLists) (t : TimePoint)
    (key : Bytes) : Short (db.valueAt t key) := by
  intro l hl hvalue
  obtain ⟨⟨v, d⟩, hlive, rfl⟩ := Option.map_eq_some_iff.mp hvalue
  exact h ⟨key, l⟩ (List.of_mem_dlookup (Cell.list_of_live hlive))

/-- Without a string, the class is that of the length. -/
theorem classOf_of_strOf_eq_none {e : Option Entry} (h : strOf e = none) :
    classOf (e.map Prod.fst) = sizeClass (Int32.ofNat ((listOf e).getD []).length) := by
  rcases e with _ | ⟨_ | ⟨l, hl⟩, d⟩
  · rfl
  · simp [strOf] at h
  · rfl

/-- The class of a length does not say that there is a string. -/
theorem sizeClass_ne_str (n : Int32) (s : Bytes) : sizeClass n ≠ .str s := by
  unfold sizeClass
  split
  · intro hclass
    cases hclass
  · intro hclass
    cases hclass

/-- A class given by a length has a length that is not negative. -/
theorem nonneg_of_classOf_eq_size {v : Option Value} {n : Int32} (h : classOf v = .size n) :
    0 ≤ n := by
  rcases v with _ | _ | ⟨l, hl⟩
  · cases h
    decide
  · cases h
  · simp only [classOf, sizeClass] at h
    split at h
    · cases h
      assumption
    · cases h

/-- Anything else is looked at twice. -/
theorem looks_of_classOf_ne_str {v : Option Value} (h : ∀ s, classOf v ≠ .str s) :
    looks v = 2 := by
  rcases v with _ | s | ⟨l, hl⟩
  · rfl
  · exact absurd rfl (h s)
  · rfl

/-- Time does not turn other values into strings. -/
theorem strOf_eq_none_of_le {db : Database} {t t' : TimePoint} (ht : t ≤ t') {key : Bytes}
    (h : strOf (db.live t key) = none) : strOf (db.live t' key) = none := by
  have hlater := congrFun (Database.live_mono ht db) key
  rcases hl : db.live t key with _ | ⟨_ | ⟨l, hne⟩, d⟩
  · rw [hlater, hl]
    rfl
  · simp [hl, strOf] at h
  · rw [hlater, hl, Option.filter_some]
    split <;> rfl

section OneKey

variable {w w' : World} {n : ℕ} (hw : w.Valid) (hread : ReadSteps w n w') (key : Bytes)
include hw hread

/-- `GET` after reading sees the string of the live entry. -/
theorem get_after :
    (w'.call (.get key)).1.optional = strOf (w.db.live (w.clock n 0) key) := by
  have hlive := congrFun (hread.live_eq hw le_rfl) key
  rw [← hread.now_eq, ← hlive]
  exact Database.get_live (hread.valid hw).db w'.now key

/-- `LLEN` after reading sees the list of the live entry. -/
theorem llen_after :
    (w'.call (.llen key)).1.toInt =
      if (strOf (w.db.live (w.clock n 0) key)).isSome then -1
      else Int32.ofNat ((listOf (w.db.live (w.clock n 0) key)).getD []).length := by
  have hlive := congrFun (hread.live_eq hw le_rfl) key
  rw [← hread.now_eq, ← hlive]
  exact Database.llen_live (hread.valid hw).db w'.now key

end OneKey

/-- The value that `WATCH` sees when it looks at a key after `n` reads: a string at the first look,
or anything else at the second. -/
def observeAt (w : World) (n : ℕ) (key : Bytes) : Option Value :=
  match strOf (w.db.live (w.clock n 0) key) with
  | some s => some (.str s)
  | none => w.db.valueAt (w.clock (n + 1) 0) key

/-- `WATCH` stores the class of the value that it sees. -/
theorem snapshotKey_after {w w' : World} {n : ℕ} (hw : w.Valid) (hread : ReadSteps w n w')
    (key : Bytes) :
    (CommandHandler.snapshotKey key w').1 = snapshotOf key (classOf (observeAt w n key)) ∧
      ReadSteps w (n + looks (observeAt w n key)) (CommandHandler.snapshotKey key w').2 := by
  have hsteps := hread.trans (CommandHandler.readSteps_snapshotKey key w')
  have hget := get_after hw hread key
  have hllen := llen_after hw (hread.call (.get key) trivial) key
  unfold CommandHandler.snapshotKey at hsteps ⊢
  unfold observeAt
  cases hstr : strOf (w.db.live (w.clock n 0) key) with
  | some s =>
    rw [hstr] at hget
    simp only [hget] at hsteps ⊢
    exact ⟨rfl, hsteps⟩
  | none =>
    rw [hstr] at hget
    have hlater := strOf_eq_none_of_le (hw.clock.across n 0) hstr
    rw [hlater] at hllen
    have hclass := classOf_of_strOf_eq_none hlater
    have hlooks : looks (w.db.valueAt (w.clock (n + 1) 0) key) = 2 :=
      looks_of_classOf_ne_str fun s hs => sizeClass_ne_str _ s (hclass.symm.trans hs)
    simp only [hget] at hsteps ⊢
    rw [hlooks, Database.valueAt, hclass, hllen]
    rw [hllen] at hsteps
    simp only [Option.isSome_none, Bool.false_eq_true, if_false, sizeClass] at hsteps ⊢
    split
    · rename_i hnonneg
      rw [if_pos hnonneg] at hsteps
      exact ⟨rfl, hsteps⟩
    · rename_i hneg
      rw [if_neg hneg] at hsteps
      exact ⟨rfl, hsteps⟩

namespace CommandHandler

/-- Looking at a key that had a string. -/
theorem keyModified_str (key s : Bytes) (w : World) :
    keyModified (snapshotOf key (.str s)) w =
      (decide ((w.call (.get key)).1.optional ≠ some s), (w.call (.get key)).2) := rfl

/-- Looking at a key that had a list or nothing. -/
theorem keyModified_size {m : Int32} (hm : 0 ≤ m) (key : Bytes) (w : World) :
    keyModified (snapshotOf key (.size m)) w =
      (decide (((w.call (.get key)).2.call (.llen key)).1.toInt ≠ m),
        ((w.call (.get key)).2.call (.llen key)).2) := by
  change (if 0 ≤ m then _ else _) = _
  rw [if_pos hm]
  rfl

/-- Looking at a key that had an overlong list. -/
theorem keyModified_overlong (key : Bytes) (w : World) :
    keyModified (snapshotOf key .overlong) w =
      if (w.call (.get key)).1.optional.isSome then (true, (w.call (.get key)).2)
      else (decide (0 ≤ ((w.call (.get key)).2.call (.llen key)).1.toInt),
        ((w.call (.get key)).2.call (.llen key)).2) := rfl

end CommandHandler

section Check

variable {w w' : World} {n : ℕ} (hw : w.Valid) (hread : ReadSteps w n w') (key : Bytes)
include hw hread

end Check

/-! ### Looking at several keys -/

/-- The keys that a `WATCH` looks at, with the values that it sees, after `n` reads. -/
def observe (w : World) : ℕ → List Bytes → List (Bytes × Option Value)
  | _, [] => []
  | n, key :: keys =>
    (key, observeAt w n key) :: observe w (n + looks (observeAt w n key)) keys

/-- What `WATCH` stores for the keys it has looked at. -/
def snapshotsOf (seen : List (Bytes × Option Value)) : List WatchedKeySnapshot :=
  seen.map fun p => snapshotOf p.1 (classOf p.2)

/-- `WATCH` stores the classes of the values that it sees. -/
theorem snapshotKeys_after {w w' : World} {n : ℕ} (hw : w.Valid) (hread : ReadSteps w n w')
    (keys : List Bytes) :
    (CommandHandler.snapshotKeys keys w').1 = snapshotsOf (observe w n keys) := by
  induction keys generalizing n w' with
  | nil => rfl
  | cons key keys ih =>
    obtain ⟨hsnap, hsteps⟩ := snapshotKey_after hw hread key
    simp only [CommandHandler.snapshotKeys, observe, snapshotsOf, List.map_cons]
    rw [hsnap, ih hsteps]
    rfl

namespace System

variable {ι : Type} [DecidableEq ι]

/-- An `EXEC` of the client is reached inside of a transaction. -/
def ReachesExec (s : System ι) (i : ι) (cmd : Command) : Prop :=
  cmd.name = ascii "EXEC" ∧ (s.handlers i).inMulti = true ∧
    (s.handlers i).inSubscriptionMode s.world = false

instance (s : System ι) (i : ι) (cmd : Command) : Decidable (s.ReachesExec i cmd) :=
  inferInstanceAs (Decidable (_ ∧ _ ∧ _))

/-- What an observer of client `i` remembers of watched keys: those of every `WATCH` that was
answered `OK`, with their values at that time, until the next `EXEC` inside of a transaction. -/
def noteWatched (i : ι) (noted : List (Bytes × Option Value)) (s : System ι) :
    Event ι → List (Bytes × Option Value)
  | .command j cmd =>
    if j ≠ i then noted
    else if cmd.name = ascii "WATCH" ∧ (s.exec j cmd).1 = ascii "OK" then
      noted ++ observe s.world 0 cmd.args
    else if s.ReachesExec j cmd then []
    else noted
  | _ => noted

/-- The keys that client `i` has watched since its last `EXEC`, with their values when they were
watched. -/
def watched (i : ι) (past : List (System ι × Event ι)) : List (Bytes × Option Value) :=
  remember (noteWatched i) [] past

/-- What a handler has stored of watched keys. -/
structure TracksWatched (noted : List (Bytes × Option Value)) (h : CommandHandler) : Prop where
  /-- The snapshots. -/
  snapshots : h.watchSnapshots = snapshotsOf noted
  /-- The keys. -/
  keys : h.watchedKeys = noted.map Prod.fst

/-- The keys of an observation. -/
theorem map_fst_observe (w : World) (n : ℕ) (keys : List Bytes) :
    (observe w n keys).map Prod.fst = keys := by
  induction keys generalizing n with
  | nil => rfl
  | cons key keys ih => rw [observe, List.map_cons, ih]

/-- Nothing is noted of other commands. -/
theorem noteWatched_eq_self (noted : List (Bytes × Option Value)) (s : System ι) (i : ι)
    (cmd : Command)
    (hwatch : cmd.name = ascii "WATCH" → ((s.handlers i).execute cmd s.world).1 ≠ ascii "OK")
    (hexec : ¬ s.ReachesExec i cmd) : noteWatched i noted s (.command i cmd) = noted := by
  have hne : ¬ (cmd.name = ascii "WATCH" ∧ (s.exec i cmd).1 = ascii "OK") :=
    fun h => hwatch h.1 h.2
  rw [noteWatched, if_neg (by simp), if_neg hne, if_neg hexec]

/-- An `EXEC` inside of a transaction ends the watching. -/
theorem noteWatched_exec (noted : List (Bytes × Option Value)) (s : System ι) (i : ι)
    (cmd : Command) (hexec : s.ReachesExec i cmd) :
    noteWatched i noted s (.command i cmd) = [] := by
  have hne : ¬ (cmd.name = ascii "WATCH" ∧ (s.exec i cmd).1 = ascii "OK") :=
    fun h => absurd (hexec.1.symm.trans h.1) (by decide)
  rw [noteWatched, if_neg (by simp), if_neg hne, if_pos hexec]

/-- What a handler has stored agrees with the notes after each of its commands. -/
theorem TracksWatched.exec {noted : List (Bytes × Option Value)} {s : System ι} {i : ι}
    (hw : s.world.Valid) (ht : TracksWatched noted (s.handlers i)) (cmd : Command) :
    TracksWatched (noteWatched i noted s (.command i cmd)) ((s.exec i cmd).2.handlers i) := by
  rw [handlers_exec_self]
  have hkeep := noteWatched_eq_self noted s i cmd
  have hreach := noteWatched_exec noted s i cmd
  have hnotExec (hne : cmd.name ≠ ascii "EXEC") : ¬ s.ReachesExec i cmd := fun h => hne h.1
  have hnotWatch (answer : Bytes) (hne : cmd.name ≠ ascii "WATCH") :
      cmd.name = ascii "WATCH" → answer ≠ ascii "OK" := fun h => absurd h hne
  have hsnaps := snapshotKeys_after hw ReadSteps.refl cmd.args
  have hresult := (s.handlers i).executes cmd s.world
  generalize hgen : (s.handlers i).execute cmd s.world = result at hresult hkeep ⊢
  cases hresult with
  | rejected hsub hname =>
    rw [hkeep (fun _ => ne_ok_of_head?_eq (CommandHandler.head?_subscriptionError _)) fun h => ?_]
    · exact ht
    · rw [h.2.2] at hsub
      cases hsub
  | multi hname | multiNested hname | discard hname | discardWithout hname =>
    rw [hkeep (hnotWatch _ (by rw [hname]; decide)) (hnotExec (by rw [hname]; decide))]
    exact ⟨ht.snapshots, ht.keys⟩
  | execAborted hname hsub hmulti =>
    rw [hreach ⟨hname, hmulti, hsub⟩]
    exact ⟨rfl, rfl⟩
  | exec hname hsub hmulti =>
    rw [hreach ⟨hname, hmulti, hsub⟩]
    exact ⟨rfl, rfl⟩
  | execWithout hname hmulti =>
    rw [hkeep (hnotWatch _ (by rw [hname]; decide)) fun h => ?_]
    · exact ht
    · rw [h.2.1] at hmulti
      cases hmulti
  | watchNothing hname =>
    have hne := ne_ok_of_head?_eq (head?_wrongArguments "WATCH")
    rw [hkeep (fun _ => hne) (hnotExec (by rw [hname]; decide))]
    exact ht
  | watchNested hname =>
    have hne := ne_ok_of_head?_eq CommandHandler.head?_watchNested
    rw [hkeep (fun _ => hne) (hnotExec (by rw [hname]; decide))]
    exact ht
  | watch hname hsub hargs hmulti =>
    have hok : (s.exec i cmd).1 = ascii "OK" := congrArg Prod.fst hgen
    rw [noteWatched, if_neg (by simp), if_pos ⟨hname, hok⟩]
    refine ⟨?_, ?_⟩
    · rw [hsnaps, ht.snapshots, snapshotsOf, snapshotsOf, snapshotsOf, List.map_append]
    · rw [ht.keys, List.map_append, map_fst_observe]
  | queue hname | single hname =>
    have hne {name : Bytes} (htx : CommandHandler.isTransactional name = true) :
        cmd.name ≠ name := by
      rintro rfl
      rw [htx] at hname
      cases hname
    rw [hkeep (hnotWatch _ (hne (by decide))) (hnotExec (hne (by decide)))]
    exact ⟨ht.snapshots, ht.keys⟩

/-- What a handler has stored agrees with the notes in every run. -/
theorem tracksWatched_of_trace {s₀ s : System ι} {past : List (System ι × Event ι)} {i : ι}
    {fd : Socket} {server : Option ServerInfo} (hvalid : s₀.world.Valid)
    (hnew : s₀.handlers i = .new fd server) (htrace : Trace Step s₀ past s) :
    TracksWatched (watched i past) (s.handlers i) := by
  have hstart : TracksWatched [] (s₀.handlers i) := by
    rw [hnew]
    exact ⟨rfl, rfl⟩
  refine (htrace.invariant (I := fun past s => s.world.Valid ∧
    TracksWatched (watched i past) (s.handlers i)) ⟨hvalid, hstart⟩ ?_).2
  rintro past s e s' ⟨hw, htracks⟩ hstep
  refine ⟨hstep.valid hw, ?_⟩
  rw [watched, remember_snoc]
  by_cases he : ∃ cmd, e = .command i cmd
  · obtain ⟨cmd, rfl⟩ := he
    cases hstep
    exact htracks.exec hw cmd
  · have hother : ∀ cmd, e ≠ .command i cmd := fun cmd h => he ⟨cmd, h⟩
    rw [hstep.handlers_of_other hother]
    cases e with
    | command j cmd =>
      have hji : j ≠ i := fun hji => hother cmd (by rw [hji])
      rw [noteWatched, if_pos hji]
      exact htracks
    | scan | reorder => exact htracks

end System

end MyRedis
