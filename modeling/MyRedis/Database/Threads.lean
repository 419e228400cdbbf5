import MyRedis.Database.Invariant
import MyRedis.Database.SectionEffects
import MyRedis.Foundation.Linearizability

/-!
# The database under threads

Threads call the methods of one `Database` object, while the thread of `expiry_loop` scans it in
the background.  `Process` is the object with all of these threads: the mutex, where each thread is
in the code of its method, the flag `expiry_running_`, where the background thread is in its loop,
and where the owner of the object is in `start_expiry_thread` or `stop_expiry_thread`.

`Process.threads_linearizable` says that all of this looks like an atomic database: the calls and
returns of every run, in their order, are those of a database on which each method and each scan
takes effect in one step, the methods as `DbOp.run` says, at clock readings that do not decrease.
-/

namespace MyRedis

open Foundation

/-! ### Calls -/

/-- The calls that lock the mutex. -/
inductive LockedCall where
  /-- An operation. -/
  | op (o : DbOp)
  /-- A scan of `expiry_loop`. -/
  | scan
  /-- `get_snapshot`. -/
  | getSnapshot
  /-- `load_snapshot`. -/
  | loadSnapshot (snapshot : DatabaseSnapshot)

/-- What a call returns. -/
inductive DbReturn where
  /-- The result of an operation. -/
  | result (r : DbResult)
  /-- A snapshot. -/
  | snapshot (snapshot : DatabaseSnapshot)
  /-- Nothing. -/
  | nothing

namespace LockedCall

/-- The code that runs while the mutex is locked. -/
def body : LockedCall → DbCode DbReturn
  | op o => .result <$> DbCode.ofOp o
  | scan => (fun _ => .nothing) <$> DbCode.expiryScan
  | getSnapshot => .snapshot <$> DbCode.getSnapshot
  | loadSnapshot snapshot => (fun _ => .nothing) <$> DbCode.loadSnapshot snapshot

/-- `get_snapshot` has a `std::shared_lock`, all others have a `std::unique_lock`. -/
def exclusive : LockedCall → Bool
  | getSnapshot => false
  | op _ | scan | loadSnapshot _ => true

/-- Whether it is a scan, which only the background thread makes. -/
def isScan : LockedCall → Bool
  | scan => true
  | op _ | getSnapshot | loadSnapshot _ => false

/-- What a call does to the database when nothing comes between, at clock readings between two
instants. -/
def Effect (lo hi : TimePoint) : LockedCall → Database → DbReturn → Database → Prop
  | op o, db, v, db' => ∃ r, v = .result r ∧ o.Effect lo hi db r db'
  | scan, db, v, db' => ∃ t, lo ≤ t ∧ t ≤ hi ∧ v = .nothing ∧ db' = db.expiryScan t
  | getSnapshot, db, v, db' => ∃ s, db.Reordered s ∧ v = .snapshot s ∧ db' = db
  | loadSnapshot snapshot, _, v, db' => v = .nothing ∧ snapshot.Reordered db'

/-- Calls that keep the representation invariant: pushes have values, and loaded snapshots satisfy
it. -/
def Admissible : LockedCall → Prop
  | op o => o.PushesSomething
  | loadSnapshot snapshot => snapshot.Inv
  | scan | getSnapshot => True

/-- An admissible call keeps the representation invariant, and a snapshot satisfies it. -/
theorem Effect.inv {c : LockedCall} (hc : c.Admissible) {lo hi : TimePoint} {db db' : Database}
    {v : DbReturn} (h : c.Effect lo hi db v db') (hdb : db.Inv) :
    db'.Inv ∧ ∀ s, v = .snapshot s → s.Inv := by
  cases c with
  | op o =>
    obtain ⟨r, rfl, readings, -, -, hre⟩ := h
    exact ⟨hre.inv (DbOp.run_inv hc readings hdb), fun s hs => by cases hs⟩
  | scan =>
    obtain ⟨t, -, -, rfl, rfl⟩ := h
    exact ⟨Database.expiryScan_inv t hdb, fun s hs => by cases hs⟩
  | getSnapshot =>
    obtain ⟨s, hre, rfl, rfl⟩ := h
    exact ⟨hdb, fun s' hs => by cases hs; exact hre.inv hdb⟩
  | loadSnapshot snapshot =>
    obtain ⟨rfl, hre⟩ := h
    exact ⟨hre.inv hc, fun s hs => by cases hs⟩

/-- The code of a call does what the call does. -/
theorem effect_of_runs {c : LockedCall} {lo hi : TimePoint} {db db' : Database} {v : DbReturn}
    (h : DbCode.Runs c.body lo hi db v db') : c.Effect lo hi db v db' := by
  cases c with
  | op o =>
    obtain ⟨r, rfl, hrun⟩ := DbCode.runs_map.mp h
    exact ⟨r, rfl, DbCode.effect_of_runs hrun⟩
  | scan =>
    obtain ⟨_, rfl, hrun⟩ := DbCode.runs_map.mp h
    obtain ⟨t, hlo, hhi, rfl⟩ := DbCode.runs_expiryScan hrun
    exact ⟨t, hlo, hhi, rfl, rfl⟩
  | getSnapshot =>
    obtain ⟨s, rfl, hrun⟩ := DbCode.runs_map.mp h
    obtain ⟨hre, rfl⟩ := DbCode.runs_getSnapshot hrun
    exact ⟨s, hre, rfl, rfl⟩
  | loadSnapshot snapshot =>
    obtain ⟨_, rfl, hrun⟩ := DbCode.runs_map.mp h
    exact ⟨rfl, DbCode.runs_loadSnapshot hrun⟩

/-- `get_snapshot` only reads. -/
theorem reads_of_shared {c : LockedCall} (h : c.exclusive = false) : c.body.All DbAccess.Reads := by
  cases c with
  | getSnapshot => exact ⟨trivial, fun _ => ⟨trivial, fun _ => ⟨trivial, fun _ => trivial⟩⟩⟩
  | op | scan | loadSnapshot => cases h

end LockedCall

/-- The database as an object behind its mutex. -/
def databaseObject :
    LockedObject DbAccess DbAccess.Reply Database TimePoint LockedCall DbReturn where
  Access := DbAccess.Perform
  Reads := DbAccess.Reads
  body := LockedCall.body
  exclusive := LockedCall.exclusive
  access_total a t db := ⟨_, _, a.perform_outcome t db⟩
  eq_of_reads := DbAccess.eq_of_reads
  reads_of_shared := LockedCall.reads_of_shared

/-! ### The object and its threads -/

/-- Where the background thread is in `expiry_loop`. -/
inductive LoopPlace where
  /-- There is no thread, or it has been joined. -/
  | absent
  /-- Before the test of `while`. -/
  | loopTest
  /-- Before `wait_for`. -/
  | entering
  /-- Inside `wait_for`, before a test of its predicate; its time limit. -/
  | waitTest (limit : TimePoint)
  /-- Inside `wait_for`, after a test that has found the flag set, and before it blocks. -/
  | blocking (limit : TimePoint)
  /-- Inside `wait_for`, blocked. -/
  | blocked (limit : TimePoint)
  /-- Inside `wait_for`, after the time limit. -/
  | timedOut
  /-- Before the test of `break`. -/
  | breakTest
  /-- After a test that has found the flag set, and before the mutex is asked for. -/
  | decided
  /-- Waiting for the mutex, or in the scan. -/
  | scanning
  /-- At the end. -/
  | ended
deriving DecidableEq

/-- The time limit of `wait_for`, 100 milliseconds. -/
def LoopPlace.waitTime : ℤ := 100000000

/-- The effect of `notify_all`: the thread wakes up if it is blocked. -/
def LoopPlace.notified : LoopPlace → LoopPlace
  | .blocked limit => .waitTest limit
  | place => place

/-- Where the owner of the object is in `start_expiry_thread` or `stop_expiry_thread`. -/
inductive OwnerPlace where
  /-- In neither of them. -/
  | idle
  /-- `start_expiry_thread` has set the flag. -/
  | starting
  /-- `stop_expiry_thread` has found the flag set. -/
  | clearing
  /-- The flag has been cleared. -/
  | notifying
  /-- The condition variable has been notified. -/
  | joining
deriving DecidableEq

/-- A `Database` object with its threads: `some i` are those that call its methods, `none` is the
one that `start_expiry_thread` starts. -/
structure Process (ι : Type) where
  /-- The maps, the mutex and the threads in their methods. -/
  object :
    LockedObject.State DbAccess DbAccess.Reply Database TimePoint LockedCall DbReturn (Option ι)
  /-- The flag `expiry_running_`. -/
  running : Bool
  /-- The background thread. -/
  loop : LoopPlace
  /-- The owner of the object. -/
  owner : OwnerPlace

namespace Process

variable {ι : Type}

/-- The object after its construction. -/
def initial (now : TimePoint) : Process ι where
  object := .start Database.empty now
  running := false
  loop := .absent
  owner := .idle

/-- The steps of the process. -/
inductive Label (ι : Type) where
  /-- A step of a thread in a method or in a scan, or the passing of time. -/
  | object (e : SectionLabel (Option ι) LockedCall DbReturn)
  /-- A step of the background thread outside of its scans, other than the next two. -/
  | loop
  /-- The background thread wakes up without having been notified. -/
  | wake
  /-- The background thread has found the flag set and goes on to a scan. -/
  | goOn
  /-- `start_expiry_thread` is called. -/
  | start
  /-- `start_expiry_thread` starts the thread and returns. -/
  | spawn
  /-- `stop_expiry_thread` is called. -/
  | stop
  /-- `stop_expiry_thread` clears the flag. -/
  | clear
  /-- `stop_expiry_thread` notifies the condition variable. -/
  | notify
  /-- `stop_expiry_thread` joins the thread and returns. -/
  | join

/-- A step of the background thread. -/
def Label.isBackground : Label ι → Bool
  | .object e => e.thread.any Option.isNone
  | .loop | .wake | .goOn => true
  | .start | .spawn | .stop | .clear | .notify | .join => false

theorem Label.isBackground_object (e : SectionLabel (Option ι) LockedCall DbReturn) :
    (Label.object e).isBackground = true ↔ e.thread = some none := by
  change e.thread.any Option.isNone = true ↔ _
  cases e.thread with
  | none => simp
  | some i => cases i <;> simp

/-- A step in a method or in a scan. -/
def Label.inObject : Label ι → Option (SectionLabel (Option ι) LockedCall DbReturn)
  | .object e => some e
  | .loop | .wake | .goOn | .start | .spawn | .stop | .clear | .notify | .join => none

variable [DecidableEq ι]

/-- The steps of the process.  A thread other than the background thread does not scan, and a
second background thread is not started while there is one. -/
inductive Step : Process ι → Label ι → Process ι → Prop
  /-- A thread calls a method or goes on in one, or time passes. -/
  | method {p : Process ι} {e : SectionLabel (Option ι) LockedCall DbReturn}
      {o : LockedObject.State _ _ _ _ _ _ _} (hthread : e.thread ≠ some none)
      (hscan : ∀ i, e ≠ .call i .scan) (hstep : databaseObject.Step p.object e o) :
      Step p (.object e) { p with object := o }
  /-- `while (expiry_running_)`. -/
  | loopTest {p : Process ι} (hloop : p.loop = .loopTest) :
      Step p .loop { p with loop := if p.running then .entering else .ended }
  /-- `wait_for` computes its time limit. -/
  | enter {p : Process ι} (hloop : p.loop = .entering) :
      Step p .loop { p with loop := .waitTest (p.object.clock + LoopPlace.waitTime) }
  /-- The predicate of `wait_for` ends the waiting if the flag is cleared. -/
  | waitTest {p : Process ι} {limit : TimePoint} (hloop : p.loop = .waitTest limit) :
      Step p .loop { p with loop := if p.running then .blocking limit else .breakTest }
  /-- The thread blocks.  It does not test the flag again before. -/
  | block {p : Process ι} {limit : TimePoint} (hloop : p.loop = .blocking limit) :
      Step p .loop { p with loop := .blocked limit }
  /-- The thread wakes up without having been notified. -/
  | wake {p : Process ι} {limit : TimePoint} (hloop : p.loop = .blocked limit) :
      Step p .wake { p with loop := .waitTest limit }
  /-- The time limit of `wait_for` is reached. -/
  | timeout {p : Process ι} {limit : TimePoint} (hloop : p.loop = .blocked limit)
      (hlimit : limit ≤ p.object.clock) : Step p .loop { p with loop := .timedOut }
  /-- `wait_for` returns the value of its predicate, which is not used. -/
  | waited {p : Process ι} (hloop : p.loop = .timedOut) : Step p .loop { p with loop := .breakTest }
  /-- `if (!expiry_running_) break;`. -/
  | breakOff {p : Process ι} (hloop : p.loop = .breakTest) (hrunning : p.running = false) :
      Step p .loop { p with loop := .ended }
  /-- The test has found the flag set, and the thread goes on to its scan. -/
  | goOn {p : Process ι} (hloop : p.loop = .breakTest) (hrunning : p.running = true) :
      Step p .goOn { p with loop := .decided }
  /-- The thread asks for the mutex.  It does not test the flag again before or after. -/
  | scan {p : Process ι} {o : LockedObject.State _ _ _ _ _ _ _} (hloop : p.loop = .decided)
      (hstep : databaseObject.Step p.object (.call none .scan) o) :
      Step p (.object (.call none .scan)) { p with object := o, loop := .scanning }
  /-- A step of the scan. -/
  | inScan {p : Process ι} {e : SectionLabel (Option ι) LockedCall DbReturn}
      {o : LockedObject.State _ _ _ _ _ _ _} (hloop : p.loop = .scanning)
      (hthread : e.thread = some none) (hinner : e.visible = none)
      (hstep : databaseObject.Step p.object e o) : Step p (.object e) { p with object := o }
  /-- The round of the loop is over. -/
  | scanned {p : Process ι} {v : DbReturn} {o : LockedObject.State _ _ _ _ _ _ _}
      (hloop : p.loop = .scanning) (hstep : databaseObject.Step p.object (.ret none v) o) :
      Step p (.object (.ret none v)) { p with object := o, loop := .loopTest }
  /-- `start_expiry_thread` sets the flag. -/
  | start {p : Process ι} (howner : p.owner = .idle) (hloop : p.loop = .absent) :
      Step p .start { p with running := true, owner := .starting }
  /-- The thread is started. -/
  | spawn {p : Process ι} (howner : p.owner = .starting) :
      Step p .spawn { p with loop := .loopTest, owner := .idle }
  /-- `stop_expiry_thread` tests the flag, and returns if it is not set. -/
  | stop {p : Process ι} (howner : p.owner = .idle) :
      Step p .stop { p with owner := if p.running then .clearing else .idle }
  /-- `stop_expiry_thread` clears the flag. -/
  | clear {p : Process ι} (howner : p.owner = .clearing) :
      Step p .clear { p with running := false, owner := .notifying }
  /-- `notify_all` wakes the thread if it is blocked, and is lost otherwise. -/
  | notify {p : Process ι} (howner : p.owner = .notifying) :
      Step p .notify { p with loop := p.loop.notified, owner := .joining }
  /-- `join` waits for the end of the thread. -/
  | join {p : Process ι} (howner : p.owner = .joining) (hloop : p.loop = .ended) :
      Step p .join { p with loop := .absent, owner := .idle }
  /-- There is no thread to join. -/
  | notJoinable {p : Process ι} (howner : p.owner = .joining) (hloop : p.loop = .absent) :
      Step p .join { p with owner := .idle }

/-! ### Schedules -/

/-- Who goes next, and how. -/
inductive Choice (ι : Type) where
  /-- A thread calls a method. -/
  | call (i : ι) (c : LockedCall)
  /-- A thread goes on in its method. -/
  | go (i : ι)
  /-- The background thread goes on; if it is blocked, it wakes up or reaches its time limit. -/
  | background (timeout : Bool)
  /-- The owner calls `start_expiry_thread`. -/
  | start
  /-- The owner calls `stop_expiry_thread`. -/
  | stop
  /-- The owner goes on. -/
  | owner
  /-- Time passes. -/
  | tick (t : TimePoint)

/-- The next step of the background thread. -/
def nextBackground (p : Process ι) (timeout : Bool) : Option (Label ι × Process ι) :=
  match p.loop with
  | .absent | .ended => none
  | .loopTest => some (.loop, { p with loop := if p.running then .entering else .ended })
  | .entering =>
    some (.loop, { p with loop := .waitTest (p.object.clock + LoopPlace.waitTime) })
  | .waitTest limit =>
    some (.loop, { p with loop := if p.running then .blocking limit else .breakTest })
  | .blocking limit => some (.loop, { p with loop := .blocked limit })
  | .blocked limit =>
    match timeout, decide (limit ≤ p.object.clock) with
    | false, _ => some (.wake, { p with loop := .waitTest limit })
    | true, true => some (.loop, { p with loop := .timedOut })
    | true, false => none
  | .timedOut => some (.loop, { p with loop := .breakTest })
  | .breakTest =>
    if p.running then some (.goOn, { p with loop := .decided })
    else some (.loop, { p with loop := .ended })
  | .decided =>
    match p.object.place none with
    | .idle => some (.object (.call none .scan),
        { p with object := p.object.move none (.waiting .scan), loop := .scanning })
    | _ => none
  | .scanning =>
    match databaseObject.advance DbAccess.outcome p.object none with
    | some (.ret none v, o) =>
      some (.object (.ret none v), { p with object := o, loop := .loopTest })
    | some (e, o) => if e.visible.isNone then some (.object e, { p with object := o }) else none
    | none => none

/-- The next step of the owner. -/
def nextOwner (p : Process ι) : Option (Label ι × Process ι) :=
  match p.owner with
  | .idle => none
  | .starting => some (.spawn, { p with loop := .loopTest, owner := .idle })
  | .clearing => some (.clear, { p with running := false, owner := .notifying })
  | .notifying => some (.notify, { p with loop := p.loop.notified, owner := .joining })
  | .joining =>
    match p.loop with
    | .ended => some (.join, { p with loop := .absent, owner := .idle })
    | .absent => some (.join, { p with owner := .idle })
    | _ => none

/-- The next step of the process, if it is possible. -/
def next (p : Process ι) : Choice ι → Option (Label ι × Process ι)
  | .call i c =>
    match c.isScan, p.object.place (some i) with
    | false, .idle => some (.object (.call (some i) c),
        { p with object := p.object.move (some i) (.waiting c) })
    | _, _ => none
  | .go i =>
    (databaseObject.advance DbAccess.outcome p.object (some i)).map fun next =>
      (.object next.1, { p with object := next.2 })
  | .background timeout => p.nextBackground timeout
  | .start =>
    if p.owner = .idle ∧ p.loop = .absent then
      some (.start, { p with running := true, owner := .starting })
    else none
  | .stop =>
    if p.owner = .idle then
      some (.stop, { p with owner := if p.running then .clearing else .idle })
    else none
  | .owner => p.nextOwner
  | .tick t =>
    if p.object.clock ≤ t then
      some (.object .tick, { p with object := { p.object with clock := t } })
    else none

/-- The steps of a schedule, if they are possible, and the state reached. -/
def schedule (p : Process ι) : List (Choice ι) → Option (List (Process ι × Label ι) × Process ι)
  | [] => some ([], p)
  | c :: cs =>
    (p.next c).bind fun next => (next.2.schedule cs).map fun h => ((p, next.1) :: h.1, h.2)

/-- What the background thread does next is a step. -/
theorem step_of_nextBackground {p p' : Process ι} {timeout : Bool} {e : Label ι}
    (h : p.nextBackground timeout = some (e, p')) : Step p e p' := by
  obtain ⟨o, running, loop, owner⟩ := p
  unfold nextBackground at h
  cases loop with
  | absent | ended => cases h
  | loopTest =>
    cases h
    exact .loopTest rfl
  | entering =>
    cases h
    exact .enter rfl
  | waitTest =>
    cases h
    exact .waitTest rfl
  | blocking =>
    cases h
    exact .block rfl
  | blocked limit =>
    cases timeout with
    | false =>
      cases h
      exact .wake rfl
    | true =>
      cases hlimit : decide (limit ≤ o.clock) with
      | false => simp [hlimit] at h
      | true =>
        simp only [hlimit] at h
        cases h
        exact .timeout rfl (of_decide_eq_true hlimit)
  | timedOut =>
    cases h
    exact .waited rfl
  | breakTest =>
    cases running with
    | false =>
      cases h
      exact .breakOff rfl rfl
    | true =>
      cases h
      exact .goOn rfl rfl
  | decided =>
    cases hplace : o.place none with
    | idle =>
      simp only [hplace] at h
      cases h
      exact .scan rfl (.call _ hplace)
    | waiting | inside | leaving =>
      simp only [hplace] at h
      cases h
  | scanning =>
    cases hadvance : databaseObject.advance DbAccess.outcome o none with
    | none => simp [hadvance] at h
    | some next =>
      obtain ⟨x, o'⟩ := next
      obtain ⟨hstep, hthread, hcall⟩ :=
        LockedObject.step_of_advance (O := databaseObject) DbAccess.perform_outcome hadvance
      simp only [hadvance] at h
      cases x with
      | ret i v =>
        obtain rfl : i = none := Option.some.inj hthread
        cases h
        exact .scanned rfl hstep
      | call i c => exact absurd rfl (hcall i c)
      | lock | access | unlock | tick =>
        cases h
        exact .inScan rfl hthread rfl hstep

/-- What the owner does next is a step. -/
theorem step_of_nextOwner {p p' : Process ι} {e : Label ι} (h : p.nextOwner = some (e, p')) :
    Step p e p' := by
  obtain ⟨o, running, loop, owner⟩ := p
  unfold nextOwner at h
  cases owner with
  | idle => cases h
  | starting =>
    cases h
    exact .spawn rfl
  | clearing =>
    cases h
    exact .clear rfl
  | notifying =>
    cases h
    exact .notify rfl
  | joining =>
    cases loop with
    | ended =>
      cases h
      exact .join rfl rfl
    | absent =>
      cases h
      exact .notJoinable rfl rfl
    | _ => cases h

/-- What is computed is a step. -/
theorem step_of_next {p p' : Process ι} {c : Choice ι} {e : Label ι}
    (h : p.next c = some (e, p')) : Step p e p' := by
  cases c with
  | call i c =>
    unfold next at h
    cases hscan : c.isScan with
    | true => simp [hscan] at h
    | false =>
      cases hplace : p.object.place (some i) with
      | idle =>
        simp only [hscan, hplace] at h
        cases h
        refine .method nofun (fun j hj => ?_) (.call c hplace)
        cases hj
        cases hscan
      | waiting | inside | leaving => simp [hscan, hplace] at h
  | go i =>
    obtain ⟨⟨x, o⟩, hadvance, heq⟩ := Option.map_eq_some_iff.mp h
    obtain ⟨hstep, hthread, hcall⟩ :=
      LockedObject.step_of_advance (O := databaseObject) DbAccess.perform_outcome hadvance
    cases heq
    refine .method ?_ (fun j => hcall j .scan) hstep
    change x.thread ≠ _
    rw [hthread]
    simp
  | background timeout => exact step_of_nextBackground h
  | start =>
    obtain ⟨⟨howner, hloop⟩, heq⟩ := Option.ite_none_right_eq_some.mp h
    cases heq
    exact .start howner hloop
  | stop =>
    obtain ⟨howner, heq⟩ := Option.ite_none_right_eq_some.mp h
    cases heq
    exact .stop howner
  | owner => exact step_of_nextOwner h
  | tick t =>
    obtain ⟨hclock, heq⟩ := Option.ite_none_right_eq_some.mp h
    cases heq
    exact .method nofun nofun (.tick hclock)

/-- A schedule is a run. -/
theorem trace_of_schedule {p p' : Process ι} {cs : List (Choice ι)}
    {past : List (Process ι × Label ι)} (h : p.schedule cs = some (past, p')) :
    Trace Step p past p' := by
  induction cs generalizing p past with
  | nil =>
    cases h
    exact .nil
  | cons c cs ih =>
    obtain ⟨⟨e, q⟩, hnext, hlater⟩ := Option.bind_eq_some_iff.mp h
    obtain ⟨⟨later, _⟩, hschedule, heq⟩ := Option.map_eq_some_iff.mp hlater
    cases heq
    exact (ih hschedule).cons (step_of_next hnext)

/-! ### The process as an atomic database -/

/-- The steps of the threads in their methods and scans. -/
def objectSteps (past : List (Process ι × Label ι)) :
    List (LockedObject.State DbAccess DbAccess.Reply Database TimePoint LockedCall DbReturn
      (Option ι) × SectionLabel (Option ι) LockedCall DbReturn) :=
  past.filterMap fun p => p.2.inObject.map fun e => (p.1.object, e)

/-- A step of the process is a step of the object, or leaves it alone. -/
theorem Step.object_step {p p' : Process ι} {e : Label ι} (h : Step p e p') :
    (∃ x, e.inObject = some x ∧ databaseObject.Step p.object x p'.object) ∨
      e.inObject = none ∧ p'.object = p.object := by
  cases h with
  | method hthread hscan hstep => exact Or.inl ⟨_, rfl, hstep⟩
  | scan hloop hstep => exact Or.inl ⟨_, rfl, hstep⟩
  | inScan hloop hthread hinner hstep => exact Or.inl ⟨_, rfl, hstep⟩
  | scanned hloop hstep => exact Or.inl ⟨_, rfl, hstep⟩
  | _ => exact Or.inr ⟨rfl, rfl⟩

/-- A run of the process is a run of the object. -/
theorem trace_objectSteps {p p' : Process ι} {past : List (Process ι × Label ι)}
    (h : Trace Step p past p') :
    Trace databaseObject.Step p.object (objectSteps past) p'.object := by
  induction h with
  | nil => exact .nil
  | @snoc past q q' e htrace hstep ih =>
    unfold objectSteps at ih ⊢
    rw [List.filterMap_append]
    rcases hstep.object_step with ⟨x, hx, hobject⟩ | ⟨hnone, hobject⟩
    · simpa [hx] using ih.snoc hobject
    · simpa [hnone, hobject] using ih

/-- The steps of the atomic database. -/
def AtomicStep : LockedObject.AtomicState Database TimePoint LockedCall DbReturn (Option ι) →
    SectionLabel (Option ι) LockedCall DbReturn →
      LockedObject.AtomicState Database TimePoint LockedCall DbReturn (Option ι) → Prop :=
  LockedObject.AtomicStep LockedCall.exclusive LockedCall.Effect

/-- The calls and returns of a run. -/
def calls (past : List (Process ι × Label ι)) : List (CallEvent (Option ι) LockedCall DbReturn) :=
  callHistory (objectSteps past)

/-- The calls and returns of every run are those of an atomic database, which simulates the
object. -/
theorem exists_atomic {now : TimePoint} {p : Process ι} {past : List (Process ι × Label ι)}
    (h : Trace Step (initial now) past p) :
    ∃ past' a, Trace AtomicStep (.start Database.empty now) past' a ∧
      callHistory past' = calls past ∧ databaseObject.Simulates p.object a :=
  LockedObject.linearizable (O := databaseObject) LockedCall.effect_of_runs (trace_objectSteps h)

/-- The database is thread-safe: the calls and returns of every run, in their order, are those of an
atomic database, and the maps are those of the atomic database whenever no thread holds the mutex
exclusively. -/
theorem threads_linearizable {now : TimePoint} {p : Process ι} {past : List (Process ι × Label ι)}
    (h : Trace Step (initial now) past p) :
    ∃ past' a, Trace AtomicStep (.start Database.empty now) past' a ∧
      callHistory past' = calls past ∧
      (p.object.mutex.writer = none → a.memory = p.object.memory) := by
  obtain ⟨past', a, htrace, hhistory, hsim⟩ := exists_atomic h
  exact ⟨past', a, htrace, hhistory, hsim.memory⟩

/-- One thread sets a key; another one gets it, and has to wait for the mutex in between. -/
def setThenGet : List (Choice ℕ) :=
  [.call 0 (.op (.set [107] [118])), .go 0, .call 1 (.op (.get [107])), .go 0, .go 0, .go 0, .go 0,
    .go 1, .go 0, .go 1, .tick 5, .go 1, .go 1, .go 1]

/-- The atomic database behind these two threads. -/
theorem threads_linearizable_setThenGet :
    ∃ past p, (initial 0).schedule setThenGet = some (past, p) ∧
      calls past = [.call (some 0) (.op (.set [107] [118])), .call (some 1) (.op (.get [107])),
        .ret (some 0) (.result .unit), .ret (some 1) (.result (.value (some [118])))] ∧
      ∃ past' a, Trace AtomicStep (.start Database.empty 0) past' a ∧
        callHistory past' = calls past ∧ a.memory = p.object.memory := by
  obtain ⟨⟨past, p⟩, hrun⟩ : ∃ run, (initial 0).schedule setThenGet = some run := ⟨_, rfl⟩
  obtain ⟨past', a, htrace, hhistory, hmemory⟩ := threads_linearizable (trace_of_schedule hrun)
  refine ⟨past, p, hrun, ?_, past', a, htrace, hhistory, hmemory ?_⟩
  · cases hrun
    rfl
  · cases hrun
    rfl

/-! ### What threads see of the maps -/

/-- What the invariant says about a state of the atomic database and its past. -/
structure Sound (past : List (CallEvent (Option ι) LockedCall DbReturn))
    (a : LockedObject.AtomicState Database TimePoint LockedCall DbReturn (Option ι)) : Prop where
  /-- The maps satisfy the representation invariant. -/
  memory : a.memory.Inv
  /-- The calls under way are admissible. -/
  called : ∀ {i c}, a.place i = .called c → c.Admissible
  /-- So do the snapshots that are about to be returned. -/
  leaving : ∀ {i s}, a.place i = .leaving (.snapshot s) → s.Inv
  /-- So do the snapshots that were returned. -/
  returned : ∀ {i s}, .ret i (.snapshot s) ∈ past → s.Inv

/-- The place of a thread after a thread has moved. -/
theorem eq_or_eq_of_update {κ β : Type} [DecidableEq κ] {f : κ → β} {i j : κ} {x y : β}
    (h : Function.update f i x j = y) : x = y ∨ f j = y := by
  by_cases hj : j = i
  · rw [hj, Function.update_self] at h
    exact Or.inl h
  · rw [Function.update_of_ne hj] at h
    exact Or.inr h

/-- A step of the atomic database with an admissible call keeps the invariant. -/
theorem Sound.step {past : List (CallEvent (Option ι) LockedCall DbReturn)}
    {a a' : LockedObject.AtomicState Database TimePoint LockedCall DbReturn (Option ι)}
    {e : SectionLabel (Option ι) LockedCall DbReturn} (h : Sound past a) (hstep : AtomicStep a e a')
    (hcall : ∀ i c, e = .call i c → c.Admissible) : Sound (past ++ e.visible.toList) a' := by
  cases hstep with
  | @call i c hplace =>
    refine ⟨h.memory, fun hj => ?_, fun hj => ?_, fun hret => ?_⟩
    · rcases eq_or_eq_of_update hj with heq | hold
      · cases heq
        exact hcall i c rfl
      · exact h.called hold
    · rcases eq_or_eq_of_update hj with heq | hold
      · cases heq
      · exact h.leaving hold
    · exact h.returned (by simpa [SectionLabel.visible] using hret)
  | @effect i c v m hplace heffect =>
    obtain ⟨hm, hv⟩ := heffect.inv (h.called hplace) h.memory
    refine ⟨hm, fun hj => ?_, fun hj => ?_, fun hret => ?_⟩
    · rcases eq_or_eq_of_update hj with heq | hold
      · cases heq
      · exact h.called hold
    · rcases eq_or_eq_of_update hj with heq | hold
      · cases heq
        exact hv _ rfl
      · exact h.leaving hold
    · exact h.returned (by simpa [SectionLabel.visible] using hret)
  | @ret i v hplace =>
    refine ⟨h.memory, fun hj => ?_, fun hj => ?_, fun hret => ?_⟩
    · rcases eq_or_eq_of_update hj with heq | hold
      · cases heq
      · exact h.called hold
    · rcases eq_or_eq_of_update hj with heq | hold
      · cases heq
      · exact h.leaving hold
    · rcases List.mem_append.mp hret with hold | hnew
      · exact h.returned hold
      · obtain ⟨rfl, rfl⟩ : _ ∧ _ := by simpa [SectionLabel.visible] using hnew
        exact h.leaving hplace
  | tick hclock =>
    refine ⟨h.memory, h.called, h.leaving, fun hret => ?_⟩
    exact h.returned (by simpa [SectionLabel.visible] using hret)

/-- Every run of the atomic database with admissible calls keeps the invariant. -/
theorem sound_of_trace {now : TimePoint}
    {a : LockedObject.AtomicState Database TimePoint LockedCall DbReturn (Option ι)}
    {past : List (LockedObject.AtomicState Database TimePoint LockedCall DbReturn (Option ι) ×
      SectionLabel (Option ι) LockedCall DbReturn)}
    (h : Trace AtomicStep (.start Database.empty now) past a)
    (hcalls : ∀ i c, .call i c ∈ callHistory past → c.Admissible) : Sound (callHistory past) a := by
  induction h with
  | nil => exact ⟨Database.inv_empty, nofun, nofun, nofun⟩
  | @snoc past a a' e _ hstep ih =>
    rw [callHistory_snoc] at hcalls ⊢
    refine (ih fun i c hmem => hcalls i c (List.mem_append_left _ hmem)).step hstep ?_
    rintro i c rfl
    exact hcalls i c (List.mem_append_right _ List.mem_cons_self)

/-- No thread sees the maps in the middle of a change: in every run whose pushes have values and
whose loaded snapshots satisfy the representation invariant, the maps satisfy it whenever no thread
holds the mutex exclusively, every snapshot returned satisfies it, and two threads that are about to
access the maps only read. -/
theorem no_broken_state {now : TimePoint} {p : Process ι} {past : List (Process ι × Label ι)}
    (h : Trace Step (initial now) past p)
    (hcalls : ∀ i c, .call i c ∈ calls past → c.Admissible) :
    (p.object.mutex.writer = none → p.object.memory.Inv) ∧
      (∀ i s, .ret i (.snapshot s) ∈ calls past → s.Inv) ∧
      ∀ i j c c' x y next next', i ≠ j → p.object.place i = .inside c (.access x next) →
        p.object.place j = .inside c' (.access y next') → x.Reads ∧ y.Reads := by
  obtain ⟨past', a, htrace, hhistory, hsim⟩ := exists_atomic h
  have hsound := sound_of_trace htrace (by rwa [hhistory])
  rw [hhistory] at hsound
  refine ⟨fun hwriter => ?_, fun i s => hsound.returned, ?_⟩
  · rw [← hsim.memory hwriter]
    exact hsound.memory
  · intro i j c c' x y next next' hij hi hj
    exact hsim.locked.no_data_race hij hi hj

/-- One thread pushes to a list, and two threads take snapshots at the same time. -/
def pushThenSnapshots : List (Choice ℕ) :=
  [.call 0 (.op (.rpush [107] [[97]])), .go 0, .go 0, .call 1 .getSnapshot, .go 0, .go 0, .go 0,
    .go 0, .go 0, .go 0, .go 1, .call 2 .getSnapshot, .go 2, .go 1, .go 2, .go 2, .go 1, .go 1,
    .go 2, .go 1, .go 1, .go 2, .go 2]

/-- What these threads see. -/
theorem no_broken_state_pushThenSnapshots :
    ∃ past p s, (initial 0).schedule pushThenSnapshots = some (past, p) ∧
      calls past = [.call (some 0) (.op (.rpush [107] [[97]])), .call (some 1) .getSnapshot,
        .ret (some 0) (.result (.int 1)), .call (some 2) .getSnapshot,
        .ret (some 1) (.snapshot s), .ret (some 2) (.snapshot s)] ∧
      s.listStore.lookup [107] = some [[97]] ∧ s.Inv ∧ p.object.memory.Inv := by
  obtain ⟨⟨past, p⟩, hrun⟩ : ∃ run, (initial 0).schedule pushThenSnapshots = some run := ⟨_, rfl⟩
  have hwriter : p.object.mutex.writer = none := by
    cases hrun
    rfl
  have hcalls : calls past = [.call (some 0) (.op (.rpush [107] [[97]])),
      .call (some 1) .getSnapshot, .ret (some 0) (.result (.int 1)), .call (some 2) .getSnapshot,
      .ret (some 1) (.snapshot ⟨∅, AList.singleton [107] [[97]], ∅⟩),
      .ret (some 2) (.snapshot ⟨∅, AList.singleton [107] [[97]], ∅⟩)] := by
    cases hrun
    rfl
  have hadmissible : ∀ i c, .call i c ∈ calls past → c.Admissible := by
    rw [hcalls]
    intro i c hmem
    simp only [List.mem_cons, CallEvent.call.injEq, reduceCtorEq, List.not_mem_nil, or_false,
      false_or] at hmem
    rcases hmem with ⟨-, rfl⟩ | ⟨-, rfl⟩ | ⟨-, rfl⟩
    · exact List.cons_ne_nil _ _
    · exact trivial
    · exact trivial
  obtain ⟨hmemory, hsnapshots, -⟩ := no_broken_state (trace_of_schedule hrun) hadmissible
  refine ⟨past, p, _, hrun, hcalls, rfl, hsnapshots (some 1) _ ?_, hmemory hwriter⟩
  rw [hcalls]
  simp

end Process

end MyRedis
