import MyRedis.Persistence.SavedFiles
import MyRedis.Server.Startup
import MyRedis.Server.Storage

/-!
# Processes that come and go

A machine on which server processes are started and stopped one after the other.  Its files are all
that remains of a process.  A process begins by loading `dump.mrdb` into an empty database, serves
its clients, and ends at any time: between two commands, or inside a `SAVE`, after any of its file
operations, the last one included.  Every file operation may fail, and the file that is loaded may
be delivered in part.

`restarts_give_last_save` says what a new process finds: nothing, or exactly the database of the
last `SAVE` that has renamed its file to `dump.mrdb`, with the deadlines moved to its own clock;
never an older one or a mixture.  When no file operation fails and no process dies inside a `SAVE`,
it is always the latter, and these are the commands `SAVE` whose response is `OK`
(`restarts_restore_last_save`).
-/

namespace MyRedis

open Foundation FileProgram Persistence

/-! ### The machine -/

/-- What is found and decided when a process is started. -/
structure Boot where
  /-- The password of the configuration. -/
  password : Bytes
  /-- How much of the dump file is delivered. -/
  read : Outcome
  /-- The clock reading that `load` makes. -/
  loadedAt : TimePoint
  /-- The instant at which the server is started. -/
  startTime : TimePoint
  /-- The sockets. -/
  net : Network
  /-- The outcomes of the file operations to come. -/
  outcomes : ℕ → Outcome
  /-- The readings of the clock to come. -/
  clock : ℕ → ℕ → TimePoint
  /-- The clock is steady. -/
  steady : SteadyClock clock
  /-- The dump file is loaded before the first command. -/
  loadedAt_le : loadedAt ≤ clock 0 0

/-- The database that `main` has loaded, and the server it has made. -/
def Boot.server (b : Boot) (files : Bytes → Option Bytes) : Server :=
  let disk : Disk Bytes := ⟨files, fun _ => []⟩
  let file := (disk.perform b.read (.readFile dumpPath)).1
  { clients := ∅
    password := b.password
    startTime := b.startTime
    world :=
      { db := (load b.loadedAt file Database.empty).2
        pubsub := PubSubManager.empty
        net := b.net
        disk := disk
        outcomes := b.outcomes
        clock := b.clock } }

/-- A machine: only its files if no process is running, and otherwise the process. -/
inductive Machine where
  /-- No process is running. -/
  | down (files : Bytes → Option Bytes)
  /-- A server is running. -/
  | up (r : Server.Running)

namespace Machine

/-- The files of the machine. -/
def files : Machine → Bytes → Option Bytes
  | down files => files
  | up r => r.server.world.disk.files

/-- What happens to a machine. -/
inductive Event where
  /-- A process is started. -/
  | start (b : Boot)
  /-- The process takes a step. -/
  | run (e : Server.Running.Event)
  /-- The process dies inside of a `SAVE`: the outcomes of the file operations until then. -/
  | dieInSave (outcomes : List Outcome)
  /-- The process ends, or dies elsewhere. -/
  | stop

/-- The steps of a machine.  Nothing is saved when a process ends.  A process that dies inside of a
`SAVE` may have come to its end already. -/
inductive Step : Machine → Event → Machine → Prop
  | start (files : Bytes → Option Bytes) (b : Boot) :
      Step (.down files) (.start b) (.up ⟨b.server files, []⟩)
  | run {r r' : Server.Running} {e : Server.Running.Event} (h : Server.Running.Step r e r') :
      Step (.up r) (.run e) (.up r')
  | dieInSave (r : Server.Running) (outcomes : List Outcome) :
      Step (.up r) (.dieInSave outcomes) (.down ((save dumpPath r.server.world.now
        r.server.world.db).run outcomes r.server.world.disk).2.files)
  | stop (r : Server.Running) : Step (.up r) .stop (.down r.server.world.disk.files)

/-- The file operations of a `SAVE` have been carried out to their end with success. -/
def completes (w : World) (outcomes : List Outcome) : Bool :=
  ((save dumpPath w.now w.db).run outcomes w.disk).1.any Prod.fst

/-- The instant and the database of a `SAVE` that renames its file to `dump.mrdb`, whether or not
the process lives on. -/
def saved : Machine → Event → Option (TimePoint × Database)
  | .up r, .run e => r.saved e
  | .up r, .dieInSave outcomes =>
    if completes r.server.world outcomes then some (r.server.world.now, r.server.world.db) else none
  | _, _ => none

/-- What an observer notes: the last `SAVE` that has renamed its file. -/
def noteSave (last : Option (TimePoint × Database)) (m : Machine) (e : Event) :
    Option (TimePoint × Database) :=
  (saved m e).or last

/-- The instant and the database of the last `SAVE` that has renamed its file. -/
def lastSave (past : List (Machine × Event)) : Option (TimePoint × Database) :=
  remember noteSave none past

/-! ### The dump file -/

/-- The lengths of the database and the number of its keys fit into the dump format. -/
def Fits (db : Database) : Prop :=
  db.Encodable ∧ db.store.keys.length + db.listStore.keys.length < 2 ^ 32

/-- There is no dump file, or it was written by the last `SAVE` that has renamed its file, perhaps
with something else in the place of the checksum. -/
def FileOf (last : Option (TimePoint × Database)) (file : Option Bytes) : Prop :=
  file = none ∨ ∃ p more, last = some p ∧ file = some (dumpBody p.1 p.2 ++ more)

/-- A `SAVE` in which the process dies. -/
theorem fileOf_run {w : World} {last : Option (TimePoint × Database)}
    (h : FileOf last (w.disk.files dumpPath)) (outcomes : List Outcome) :
    FileOf ((if completes w outcomes then some (w.now, w.db) else none).or last)
      (((save dumpPath w.now w.db).run outcomes w.disk).2.files dumpPath) := by
  unfold completes
  rcases files_save dumpPath w.now w.db outcomes w.disk with
    ⟨rest, more, htrue, hfile⟩ | ⟨hnot, hfile⟩
  · rw [htrue]
    exact Or.inr ⟨_, more, rfl, hfile⟩
  · have hfalse : (((save dumpPath w.now w.db).run outcomes w.disk).1.any Prod.fst) = false := by
      rcases hrun : ((save dumpPath w.now w.db).run outcomes w.disk).1 with _ | ⟨_ | _, rest⟩
      · rfl
      · rfl
      · exact absurd hrun (hnot rest)
    rw [hfalse, if_neg Bool.false_ne_true, Option.none_or]
    rcases hfile with hfile | hfile
    · rw [hfile]
      exact h
    · exact Or.inl hfile

/-- A `SAVE` in a process that lives on. -/
theorem fileOf_save {w : World} {last : Option (TimePoint × Database)}
    (h : FileOf last (w.disk.files dumpPath)) :
    FileOf ((if (w.save dumpPath).1 then some (w.now, w.db) else none).or last)
      ((w.save dumpPath).2.disk.files dumpPath) := by
  obtain ⟨n, hrun, -⟩ := exists_run_eq_eval (save dumpPath w.now w.db) w.outcomes w.disk
  have hfile := fileOf_run h ((List.range n).map w.outcomes)
  rw [completes, hrun] at hfile
  exact hfile

/-! ### What a new process finds -/

/-- The database is what was saved, with the deadlines moved to the clock of the process that loads
it at `t'`. -/
def Restored (p : TimePoint × Database) (t' : TimePoint) (db : Database) : Prop :=
  ∀ k, db.cell k = (p.2.cell k).reloaded p.1 t'

/-- Loading the dump of a database whose sizes fit restores it. -/
theorem restored_load_dump {p : TimePoint × Database} (hfits : Fits p.2)
    (hreached : ReachedAt p.1 p.2) (t' : TimePoint) :
    Restored p t' (load t' (some (dump p.1 p.2)) Database.empty).2 ∧
      ReachedAt t' (load t' (some (dump p.1 p.2)) Database.empty).2 := by
  obtain ⟨t₀, db₀, hle, hreach, hre⟩ := hreached
  have hlengths : db₀.Encodable := hre.symm.encodable hfits.1
  have hkeys : db₀.store.keys.length + db₀.listStore.keys.length < 2 ^ 32 := by
    have hstore := hre.store.length_eq
    have hlistStore := hre.listStore.length_eq
    have hsizes := hfits.2
    simp only [AList.keys, List.keys, List.length_map] at hsizes ⊢
    omega
  constructor
  · intro k
    rw [(cell_load_dump hreach hlengths hkeys hre hle t' Database.empty).2 k, hre.cell_eq]
  · exact ⟨t', _, le_rfl, Reachable.load (Reachable.empty t') le_rfl hreach hlengths hre hle
      (writtenBySave_dump p.1 p.2), .rfl⟩

/-- What is delivered of a file is a front part of it. -/
theorem delivered (files : Bytes → Option Bytes) (pending : Bytes → Bytes) (o : Outcome) :
    (Disk.perform o (.readFile dumpPath) ⟨files, pending⟩).1 = none ∨
      ∃ part content, (Disk.perform o (.readFile dumpPath) ⟨files, pending⟩).1 = some part ∧
        files dumpPath = some content ∧ part <+: content := by
  unfold Disk.perform
  simp only
  cases hfile : files dumpPath with
  | none => left; split_ifs <;> rfl
  | some content =>
    split_ifs
    · exact Or.inr ⟨content, content, rfl, rfl, List.prefix_rfl⟩
    · exact Or.inl rfl
    · exact Or.inr ⟨_, content, rfl, rfl, List.take_prefix _ _⟩

/-- A new process finds nothing or what was saved last. -/
theorem db_server {last : Option (TimePoint × Database)} {files : Bytes → Option Bytes}
    (hfile : FileOf last (files dumpPath))
    (hlast : ∀ p, last = some p → Fits p.2 ∧ ReachedAt p.1 p.2) (b : Boot) :
    ((b.server files).world.db = Database.empty ∨
        ∃ p, last = some p ∧ Restored p b.loadedAt (b.server files).world.db) ∧
      ReachedAt b.loadedAt (b.server files).world.db := by
  have hempty : ReachedAt b.loadedAt Database.empty := ⟨_, _, le_rfl, .empty _, .rfl⟩
  unfold Boot.server
  rcases delivered files (fun _ => []) b.read with hnone | ⟨part, content, hpart, hcontent, hfront⟩
  · simp only [hnone]
    exact ⟨Or.inl rfl, hempty⟩
  · simp only [hpart]
    rcases hfile with hfile | ⟨p, more, rfl, hfile⟩
    · rw [hfile] at hcontent
      cases hcontent
    · rw [hfile] at hcontent
      obtain rfl := Option.some.inj hcontent
      obtain ⟨hfits, hreached⟩ := hlast p rfl
      rcases load_saved (hfits.1.dumpEntries p.1) hfront b.loadedAt Database.empty with
        hload | hload
      · rw [hload]
        exact ⟨Or.inl rfl, hempty⟩
      · rw [hload]
        obtain ⟨hrestored, hreached'⟩ := restored_load_dump hfits hreached b.loadedAt
        exact ⟨Or.inr ⟨p, rfl, hrestored⟩, hreached'⟩

/-! ### Whatever fails -/

/-- The sizes of the databases that were saved fit into the dump format. -/
def SavesFit (past : List (Machine × Event)) : Prop :=
  ∀ s ∈ past, ∀ p, saved s.1 s.2 = some p → Fits p.2

/-- A process that is started finds nothing, or what the last `SAVE` that has renamed its file
saved. -/
def StartsFromSave (before : List (Machine × Event)) (s : Machine) (e : Event) : Prop :=
  ∀ files b, s = .down files → e = .start b → (b.server files).world.db = Database.empty ∨
    ∃ p, lastSave before = some p ∧ Restored p b.loadedAt (b.server files).world.db

/-- What holds of a machine at any time. -/
structure Sound (past : List (Machine × Event)) (m : Machine) : Prop where
  /-- The dump file. -/
  file : FileOf (lastSave past) (m.files dumpPath)
  /-- What was saved last. -/
  saved : ∀ p, lastSave past = some p → Fits p.2 ∧ ReachedAt p.1 p.2
  /-- The process. -/
  process : ∀ r, m = .up r → r.server.world.Reached
  /-- The starts so far. -/
  starts : Always StartsFromSave past

/-- One more event. -/
theorem lastSave_snoc (past : List (Machine × Event)) (m : Machine) (e : Event) :
    lastSave (past ++ [(m, e)]) = (saved m e).or (lastSave past) := by
  unfold lastSave
  rw [remember_snoc]
  rfl

/-- What is saved is the database of the process as it is. -/
theorem eq_of_saved {r : Server.Running} {e : Event} {p : TimePoint × Database}
    (h : saved (.up r) e = some p) : p = (r.server.world.now, r.server.world.db) := by
  cases e with
  | run e =>
    change r.saved e = some p at h
    unfold Server.Running.saved at h
    split at h
    · obtain ⟨-, heq⟩ := Option.ite_none_right_eq_some.mp h
      exact (Option.some.inj heq).symm
    · cases h
  | dieInSave outcomes =>
    obtain ⟨-, heq⟩ := Option.ite_none_right_eq_some.mp h
    exact (Option.some.inj heq).symm
  | start | stop => cases h

/-- What was saved last fits and can be reached, if this is so for what the event saves. -/
theorem Sound.saved_snoc {past : List (Machine × Event)} {m : Machine} (h : Sound past m)
    {e : Event} (hfits : SavesFit (past ++ [(m, e)])) {p : TimePoint × Database}
    (hp : lastSave (past ++ [(m, e)]) = some p) : Fits p.2 ∧ ReachedAt p.1 p.2 := by
  rw [lastSave_snoc] at hp
  cases hsaved : Machine.saved m e with
  | none =>
    rw [hsaved] at hp
    exact h.saved p hp
  | some q =>
    rw [hsaved] at hp
    obtain rfl := Option.some.inj hp
    refine ⟨hfits (m, e) (by simp) q hsaved, ?_⟩
    cases m with
    | down files => cases hsaved
    | up r =>
      rw [eq_of_saved hsaved]
      exact (h.process r rfl).db

/-- One more step. -/
theorem Sound.step {past : List (Machine × Event)} {m m' : Machine} {e : Event}
    (h : Sound past m) (hstep : Step m e m') (hfits : SavesFit (past ++ [(m, e)])) :
    Sound (past ++ [(m, e)]) m' := by
  have hsaved : ∀ p, lastSave (past ++ [(m, e)]) = some p → Fits p.2 ∧ ReachedAt p.1 p.2 :=
    fun p hp => h.saved_snoc hfits hp
  cases hstep with
  | start files b =>
    obtain ⟨hdb, hreached⟩ := db_server h.file h.saved b
    refine ⟨by rw [lastSave_snoc]; exact h.file, hsaved, ?_, ?_⟩
    · intro r hr
      cases hr
      exact ⟨b.steady, hreached.mono b.loadedAt_le⟩
    · rw [always_snoc]
      refine ⟨h.starts, fun files' b' hs he => ?_⟩
      cases hs
      cases he
      exact hdb
  | @run r r' e hstep =>
    refine ⟨?_, hsaved, ?_, ?_⟩
    · rw [lastSave_snoc]
      change FileOf ((r.saved e).or (lastSave past)) (r'.server.world.disk.files dumpPath)
      rcases hstep.files with ⟨⟨hdisk, -⟩, hnone⟩ | ⟨⟨hdisk, -⟩, heq⟩
      · rw [hnone, Option.none_or, hdisk]
        exact h.file
      · rw [heq, hdisk]
        exact fileOf_save h.file
    · intro r'' hr
      cases hr
      exact (h.process r rfl).step hstep
    · rw [always_snoc]
      exact ⟨h.starts, fun files b hs => by cases hs⟩
  | dieInSave r outcomes =>
    refine ⟨by rw [lastSave_snoc]; exact fileOf_run h.file outcomes, hsaved, by simp, ?_⟩
    rw [always_snoc]
    exact ⟨h.starts, fun files b hs => by cases hs⟩
  | stop r =>
    refine ⟨by rw [lastSave_snoc]; exact h.file, hsaved, by simp, ?_⟩
    rw [always_snoc]
    exact ⟨h.starts, fun files b hs => by cases hs⟩

/-- Every run is sound. -/
theorem sound_of_trace {files : Bytes → Option Bytes} (hnew : files dumpPath = none)
    {past : List (Machine × Event)} {m : Machine} (htrace : Trace Step (.down files) past m)
    (hfits : SavesFit past) : Sound past m := by
  induction htrace with
  | nil => exact ⟨Or.inl hnew, by simp [lastSave, remember], by simp, by simp⟩
  | snoc _ hstep ih =>
    exact (ih fun s hs => hfits s (List.mem_append_left _ hs)).step hstep hfits

/-! ### When nothing fails -/

/-- No file operation fails, and no process dies inside of a `SAVE`. -/
def Smooth (past : List (Machine × Event)) : Prop :=
  ∀ s ∈ past, (∀ b, s.2 = .start b → b.read.ok = true ∧ ∀ i, (b.outcomes i).ok = true) ∧
    ∀ outcomes, s.2 ≠ .dieInSave outcomes

/-- A process that is started has what the last `SAVE` that has renamed its file saved, and nothing
if there was none. -/
def RestoresSave (before : List (Machine × Event)) (s : Machine) (e : Event) : Prop :=
  ∀ files b, s = .down files → e = .start b →
    (lastSave before = none → (b.server files).world.db = Database.empty) ∧
      ∀ p, lastSave before = some p → Restored p b.loadedAt (b.server files).world.db

/-- Every `SAVE` that is carried out has the response `OK`, and those with this response are the
ones that rename their files. -/
def ConfirmsSave (s : Machine) (e : Event) : Prop :=
  ∀ r fd cmd, s = .up r → e = .run (.command fd cmd) →
    (r.server.Saves fd cmd → (r.server.respond fd cmd).1 = ascii "OK") ∧
      (cmd.name = ascii "SAVE" ∧ (r.server.respond fd cmd).1 = ascii "OK" ↔
        (saved s e).isSome = true)

/-- What holds of a machine on which nothing fails. -/
structure Intact (past : List (Machine × Event)) (m : Machine) : Prop where
  /-- The dump file is what was saved last. -/
  file : m.files dumpPath = (lastSave past).map fun p => dump p.1 p.2
  /-- Nothing is going to fail. -/
  outcomes : ∀ r, m = .up r → ∀ i, (r.server.world.outcomes i).ok = true
  /-- The starts so far. -/
  starts : Always RestoresSave past
  /-- The answers so far. -/
  confirms : Always (fun _ => ConfirmsSave) past

/-- A `SAVE` in which nothing fails. -/
theorem save_of_ok {w : World} (hok : ∀ i, (w.outcomes i).ok = true) :
    (w.save dumpPath).1 = true ∧
      (w.save dumpPath).2.disk.files dumpPath = some (dump w.now w.db) ∧
      ∀ i, ((w.save dumpPath).2.outcomes i).ok = true := by
  obtain ⟨n, hrun, hrest⟩ := exists_run_eq_eval (save dumpPath w.now w.db) w.outcomes w.disk
  have hall : ∀ o ∈ (List.range n).map w.outcomes, o.ok = true := by
    intro o ho
    obtain ⟨i, -, rfl⟩ := List.mem_map.mp ho
    exact hok i
  obtain ⟨htrue, hfile⟩ := (save_succeeds dumpPath w.now w.db w.disk).of_run hall hrun
  refine ⟨htrue, hfile, fun i => ?_⟩
  change ((FileProgram.eval _ w.outcomes w.disk).2.1 i).ok = true
  rw [hrest]
  exact hok _

/-- A new process finds the file that is there. -/
theorem db_server_of_ok (files : Bytes → Option Bytes) {b : Boot} (hok : b.read.ok = true) :
    (b.server files).world.db = (load b.loadedAt (files dumpPath) Database.empty).2 := by
  unfold Boot.server Disk.perform
  simp only [hok, if_true]

/-- A new process reads the last save. -/
theorem Intact.restores {past : List (Machine × Event)} {files : Bytes → Option Bytes} {b : Boot}
    (h : Intact past (.down files)) (hsound : Sound past (.down files)) (hread : b.read.ok = true) :
    RestoresSave past (.down files) (.start b) := by
  intro files' b' hs he
  cases hs
  cases he
  have hfile : files dumpPath = (lastSave past).map fun p => dump p.1 p.2 := h.file
  rw [db_server_of_ok files hread, hfile]
  refine ⟨fun hnone => ?_, fun p hp => ?_⟩
  · rw [hnone]
    rfl
  · obtain ⟨hfits, hreached⟩ := hsound.saved p hp
    rw [hp]
    exact (restored_load_dump hfits hreached b.loadedAt).1

/-- A step of a process keeps the file and the outcomes, or saves. -/
theorem Intact.serves {past : List (Machine × Event)} {r r' : Server.Running}
    {e : Server.Running.Event} (h : Intact past (.up r)) (hstep : Server.Running.Step r e r') :
    r'.server.world.disk.files dumpPath =
        ((r.saved e).or (lastSave past)).map (fun p => dump p.1 p.2) ∧
      ∀ i, (r'.server.world.outcomes i).ok = true := by
  have hoks := h.outcomes r rfl
  have hfile : r.server.world.disk.files dumpPath =
      (lastSave past).map fun p => dump p.1 p.2 := h.file
  obtain ⟨htrue, hdump, hoks'⟩ := save_of_ok hoks
  rcases hstep.files with ⟨⟨hdisk, houtcomes⟩, hnone⟩ | ⟨⟨hdisk, houtcomes⟩, heq⟩
  · rw [hnone, Option.none_or, hdisk, houtcomes]
    exact ⟨hfile, hoks⟩
  · rw [heq, htrue, if_pos rfl, Option.some_or, hdisk, hdump, houtcomes]
    exact ⟨rfl, hoks'⟩

/-- A `SAVE` of a process succeeds. -/
theorem Intact.confirmsSave {past : List (Machine × Event)} {r : Server.Running}
    (h : Intact past (.up r)) (e : Event) : ConfirmsSave (.up r) e := by
  intro r' fd cmd hs he
  cases hs
  cases he
  refine ⟨fun hsaves => ?_, (r.saved_iff_ok fd cmd).symm⟩
  rcases r.server.files_respond fd cmd with ⟨-, hnot, -⟩ | ⟨-, -, hok⟩
  · exact absurd hsaves hnot
  · exact hok.mpr (save_of_ok (h.outcomes r rfl)).1

/-- One more step. -/
theorem Intact.step {past : List (Machine × Event)} {m m' : Machine} {e : Event}
    (h : Intact past m) (hsound : Sound past m) (hstep : Step m e m')
    (hsmooth : Smooth (past ++ [(m, e)])) : Intact (past ++ [(m, e)]) m' := by
  obtain ⟨hboot, hdie⟩ := hsmooth (m, e) (by simp)
  cases hstep with
  | start files b =>
    obtain ⟨hread, houtcomes⟩ := hboot b rfl
    refine ⟨by rw [lastSave_snoc]; exact h.file, ?_, ?_, ?_⟩
    · intro r hr
      cases hr
      exact houtcomes
    · exact always_snoc.mpr ⟨h.starts, h.restores hsound hread⟩
    · exact always_snoc.mpr ⟨h.confirms, fun r fd cmd hs => by cases hs⟩
  | @run r r' e hstep =>
    obtain ⟨hfile, houtcomes⟩ := h.serves hstep
    refine ⟨by rw [lastSave_snoc]; exact hfile, ?_, ?_, ?_⟩
    · intro r'' hr
      cases hr
      exact houtcomes
    · exact always_snoc.mpr ⟨h.starts, fun files b hs => by cases hs⟩
    · exact always_snoc.mpr ⟨h.confirms, h.confirmsSave (.run e)⟩
  | dieInSave r outcomes => exact absurd rfl (hdie outcomes)
  | stop r =>
    refine ⟨by rw [lastSave_snoc]; exact h.file, by simp, ?_, ?_⟩
    · exact always_snoc.mpr ⟨h.starts, fun files b hs => by cases hs⟩
    · exact always_snoc.mpr ⟨h.confirms, h.confirmsSave .stop⟩

/-! ### A list that survives -/

namespace SavedList

/-- A process without a password on which nothing fails. -/
def boot : Boot where
  password := []
  read := ⟨true, 0⟩
  loadedAt := 0
  startTime := 0
  net := ⟨fun _ => some 0, []⟩
  outcomes := fun _ => ⟨true, 0⟩
  clock := fun _ _ => 0
  steady := ⟨fun _ _ => le_rfl, fun _ _ => le_rfl⟩
  loadedAt_le := le_rfl

/-- A client has connected. -/
def connected : Server.Running := ⟨(boot.server fun _ => none).acceptClient 5, []⟩

/-- The client has pushed a value. -/
def pushed : Server.Running :=
  ⟨(connected.server.serve 5 ⟨ascii "RPUSH", [ascii "l", ascii "a"]⟩).2, []⟩

/-- The client has saved the database. -/
def saved : Server.Running := ⟨(pushed.server.serve 5 ⟨ascii "SAVE", []⟩).2, []⟩

/-- A client pushes a value. -/
def served : List (Machine × Event) :=
  [(.down fun _ => none, .start boot),
    (.up ⟨boot.server fun _ => none, []⟩, .run (.accept 5)),
    (.up connected, .run (.command 5 ⟨ascii "RPUSH", [ascii "l", ascii "a"]⟩))]

/-- Then it saves, and the process ends. -/
def session : List (Machine × Event) :=
  served ++ [(.up pushed, .run (.command 5 ⟨ascii "SAVE", []⟩)), (.up saved, .stop)]

/-- Then another process is started. -/
def past : List (Machine × Event) :=
  session ++ [(.down saved.server.world.disk.files, .start boot)]

/-- The file operations of the `SAVE`. -/
def outcomes : List Outcome := List.replicate 19 ⟨true, 0⟩

/-- The files after these operations. -/
def savedFiles : Bytes → Option Bytes :=
  ((save dumpPath pushed.server.world.now pushed.server.world.db).run outcomes
    pushed.server.world.disk).2.files

/-- The process dies in the `SAVE` after the last of its file operations. -/
def brokenSession : List (Machine × Event) := served ++ [(.up pushed, .dieInSave outcomes)]

/-- Then another process is started. -/
def brokenPast : List (Machine × Event) := brokenSession ++ [(.down savedFiles, .start boot)]

theorem trace_served : Trace Step (.down fun _ => none) served (.up pushed) := by
  have haccept : Server.Running.Step ⟨boot.server fun _ => none, []⟩ (.accept 5) connected :=
    Server.Running.step_of_next rfl
  have hpush : Server.Running.Step connected
      (.command 5 ⟨ascii "RPUSH", [ascii "l", ascii "a"]⟩) pushed :=
    Server.Running.step_of_next rfl
  exact .snoc (.snoc (.snoc .nil (.start _ boot)) (.run haccept)) (.run hpush)

theorem trace_past :
    Trace Step (.down fun _ => none) past
      (.up ⟨boot.server saved.server.world.disk.files, []⟩) := by
  have hsave : Server.Running.Step pushed (.command 5 ⟨ascii "SAVE", []⟩) saved :=
    Server.Running.step_of_next rfl
  exact trace_served.append
    (.snoc (.snoc (.snoc .nil (.run hsave)) (.stop saved)) (.start _ boot))

theorem trace_brokenPast :
    Trace Step (.down fun _ => none) brokenPast (.up ⟨boot.server savedFiles, []⟩) :=
  trace_served.append (.snoc (.snoc .nil (.dieInSave pushed outcomes)) (.start _ boot))

/-- The push saves nothing. -/
theorem saved_push :
    connected.saved (.command 5 ⟨ascii "RPUSH", [ascii "l", ascii "a"]⟩) = none := by
  unfold Server.Running.saved
  exact if_neg fun h => absurd h.1.1 (by decide)

/-- The `SAVE` renames its file. -/
theorem saved_save : pushed.saved (.command 5 ⟨ascii "SAVE", []⟩) =
    some (0, singleList (ascii "l") [ascii "a"]) := by
  unfold Server.Running.saved
  exact if_pos ⟨⟨rfl, by decide +kernel, by decide +kernel⟩, by decide +kernel⟩

/-- So does the one in which the process dies. -/
theorem saved_dieInSave : Machine.saved (.up pushed) (.dieInSave outcomes) =
    some (0, singleList (ascii "l") [ascii "a"]) := by
  unfold Machine.saved
  exact if_pos (by decide +kernel)

theorem fits_singleList : Fits (singleList (ascii "l") [ascii "a"]) :=
  ⟨encodable_of_cell_eq (cell_singleList _ _) (by decide) (by decide), by decide⟩

theorem savesFit_served : SavesFit served := by
  intro s hs p hp
  simp only [served, List.mem_cons, List.not_mem_nil, or_false] at hs
  rcases hs with rfl | rfl | rfl
  · cases hp
  · cases hp
  · cases saved_push.symm.trans hp

theorem savesFit_past : SavesFit past := by
  intro s hs p hp
  simp only [past, session, List.append_assoc, List.mem_append, List.mem_cons, List.not_mem_nil,
    or_false] at hs
  rcases hs with hs | (rfl | rfl) | rfl
  · exact savesFit_served s hs p hp
  · cases saved_save.symm.trans hp
    exact fits_singleList
  · cases hp
  · cases hp

theorem savesFit_brokenPast : SavesFit brokenPast := by
  intro s hs p hp
  simp only [brokenPast, brokenSession, List.append_assoc, List.mem_append, List.mem_cons,
    List.not_mem_nil, or_false] at hs
  rcases hs with hs | rfl | rfl
  · exact savesFit_served s hs p hp
  · cases saved_dieInSave.symm.trans hp
    exact fits_singleList
  · cases hp

theorem lastSave_session : lastSave session = some (0, singleList (ascii "l") [ascii "a"]) := by
  have hsave : lastSave (served ++ [(.up pushed, .run (.command 5 ⟨ascii "SAVE", []⟩))]) =
      some (0, singleList (ascii "l") [ascii "a"]) := by
    rw [lastSave_snoc, Machine.saved, saved_save, Option.some_or]
  rw [session, List.append_cons, lastSave_snoc, hsave]
  rfl

theorem lastSave_brokenSession :
    lastSave brokenSession = some (0, singleList (ascii "l") [ascii "a"]) := by
  rw [brokenSession, lastSave_snoc, saved_dieInSave, Option.some_or]

theorem smooth_past : Smooth past := by
  intro s hs
  simp only [past, session, served, List.cons_append, List.nil_append, List.mem_cons,
    List.not_mem_nil, or_false] at hs
  rcases hs with rfl | rfl | rfl | rfl | rfl | rfl <;> refine ⟨fun b hb => ?_, by simp⟩ <;>
    cases hb <;> exact ⟨rfl, fun _ => rfl⟩

end SavedList

/-! ### The results -/

/-- **A new process finds nothing or the last save.**  On a machine that starts without a dump file,
through any number of processes that are started, serve clients, end, crash or die inside a `SAVE`,
before or after its file was renamed, with any failures of file operations: every process starts
with an empty database or with exactly the database of the last `SAVE` that has renamed its file,
and the database of a running process satisfies its invariant at any time. -/
theorem restarts_give_last_save {files : Bytes → Option Bytes} (hnew : files dumpPath = none)
    {past : List (Machine × Event)} {m : Machine} (htrace : Trace Step (.down files) past m)
    (hfits : SavesFit past) :
    Always StartsFromSave past ∧ ∀ r, m = .up r → r.server.world.db.Inv := by
  have hsound := sound_of_trace hnew htrace hfits
  exact ⟨hsound.starts, fun r hr => (hsound.process r hr).db.inv⟩

/-- The first process dies in its `SAVE`, after the last file operation.  The one that is started
second has the list again, or nothing. -/
theorem restarts_give_last_save_list :
    SavesFit SavedList.brokenPast ∧
      lastSave SavedList.brokenSession = some (0, singleList (ascii "l") [ascii "a"]) ∧
      Always StartsFromSave SavedList.brokenPast :=
  ⟨SavedList.savesFit_brokenPast, SavedList.lastSave_brokenSession,
    (restarts_give_last_save rfl SavedList.trace_brokenPast SavedList.savesFit_brokenPast).1⟩

/-- **A new process finds the last save.**  When no file operation fails and no process dies inside
of a `SAVE`, every `SAVE` that is carried out has the response `OK`, and every process starts with
exactly the database of the last one, however many processes have come and gone since. -/
theorem restarts_restore_last_save {files : Bytes → Option Bytes} (hnew : files dumpPath = none)
    {past : List (Machine × Event)} {m : Machine} (htrace : Trace Step (.down files) past m)
    (hfits : SavesFit past) (hsmooth : Smooth past) :
    Always RestoresSave past ∧ Always (fun _ => ConfirmsSave) past := by
  have hintact : Intact past m := by
    induction htrace with
    | nil => exact ⟨hnew, by simp, by simp, by simp⟩
    | snoc hbefore hstep ih =>
      have hfits' : SavesFit _ := fun s hs => hfits s (List.mem_append_left _ hs)
      refine (ih hfits' fun s hs => hsmooth s (List.mem_append_left _ hs)).step ?_ hstep hsmooth
      exact sound_of_trace hnew hbefore hfits'
  exact ⟨hintact.starts, hintact.confirms⟩

/-- The process that is started second has the list again. -/
theorem restarts_restore_last_save_list :
    SavesFit SavedList.past ∧ Smooth SavedList.past ∧
      Restored (0, singleList (ascii "l") [ascii "a"]) 0
        (SavedList.boot.server SavedList.saved.server.world.disk.files).world.db := by
  have hstarts := (restarts_restore_last_save rfl SavedList.trace_past SavedList.savesFit_past
    SavedList.smooth_past).1
  refine ⟨SavedList.savesFit_past, SavedList.smooth_past, ?_⟩
  exact (hstarts SavedList.session _ _ [] rfl _ SavedList.boot rfl rfl).2 _
    SavedList.lastSave_session

end Machine

end MyRedis
