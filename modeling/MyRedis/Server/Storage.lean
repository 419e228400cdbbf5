import MyRedis.Persistence.Reachability
import MyRedis.Server.Running

/-!
# What the server does to its files and its database

Of all commands only `SAVE` touches the files (`Server.files_respond`), and its response is `OK`
exactly if the database was saved (`Server.Running.saved_iff_ok`).  Whatever the server does, its
database stays in a state that can be reached by operations, scans and loads
(`World.Reached.step`), so that everything that is known of reachable states holds while clients are
served.
-/

namespace MyRedis

open Foundation FileProgram Persistence

/-- The file that `SAVE` writes and `main` loads. -/
def dumpPath : Bytes := ascii "dump.mrdb"

/-! ### The files during a command -/

/-- The files and the outcomes of the operations on them are the same. -/
def World.SameFiles (w w' : World) : Prop := w'.disk = w.disk ∧ w'.outcomes = w.outcomes

namespace CommandHandler

/-- Only `SAVE` touches the files. -/
theorem sameFiles_executeSingle (h : CommandHandler) {cmd : Command}
    (hname : cmd.name ≠ ascii "SAVE") (w : World) : w.SameFiles (h.executeSingle cmd w).2 := by
  have hdispatch := h.dispatches cmd
  generalize h.executeSingle cmd = run at hdispatch ⊢
  cases hdispatch with
  | save hsave => exact absurd hsave hname
  | ping =>
    unfold handlePing
    split <;> exact ⟨rfl, rfl⟩
  | set =>
    unfold handleSet
    split
    · unfold handleSetOption
      split
      · split_ifs
        · split
          · exact ⟨rfl, rfl⟩
          · split_ifs <;> exact ⟨rfl, rfl⟩
        · exact ⟨rfl, rfl⟩
      · exact ⟨rfl, rfl⟩
    · exact ⟨rfl, rfl⟩
  | get | ttl | persist | lpop | rpop | llen =>
    change w.SameFiles (handleKey _ _ _ cmd w).2
    unfold handleKey
    split <;> exact ⟨rfl, rfl⟩
  | del | existing =>
    change w.SameFiles (handleKeyList _ _ cmd w).2
    unfold handleKeyList
    split_ifs <;> exact ⟨rfl, rfl⟩
  | keys | dbsize | flushdb | unsubscribe | config | unknown => exact ⟨rfl, rfl⟩
  | expire =>
    unfold handleExpire
    split
    · split
      · exact ⟨rfl, rfl⟩
      · split_ifs <;> exact ⟨rfl, rfl⟩
    · exact ⟨rfl, rfl⟩
  | lpush | rpush =>
    change w.SameFiles (handlePush _ _ cmd w).2
    unfold handlePush
    split <;> exact ⟨rfl, rfl⟩
  | lrange =>
    unfold handleLrange
    split
    · split <;> exact ⟨rfl, rfl⟩
    · exact ⟨rfl, rfl⟩
  | lindex =>
    unfold handleLindex
    split
    · split <;> exact ⟨rfl, rfl⟩
    · exact ⟨rfl, rfl⟩
  | subscribe =>
    unfold handleSubscribe
    split_ifs <;> exact ⟨rfl, rfl⟩
  | publish =>
    unfold handlePublish
    split <;> exact ⟨rfl, rfl⟩
  | info =>
    unfold handleInfo
    split <;> exact ⟨rfl, rfl⟩

/-- Reading does not touch the files. -/
theorem sameFiles_of_readSteps {w w' : World} {n : ℕ} (h : ReadSteps w n w') : w.SameFiles w' := by
  induction h with
  | refl => exact ⟨rfl, rfl⟩
  | call _ op hop ih => exact ih

/-- Outside of a transaction only `SAVE` touches the files. -/
theorem sameFiles_execute {h : CommandHandler} (hidle : h.inMulti = false) {cmd : Command}
    (hname : cmd.name ≠ ascii "SAVE") (w : World) : w.SameFiles (h.execute cmd w).2.2 := by
  have hexec := executesOutside hidle cmd w
  generalize h.execute cmd w = result at hexec ⊢
  cases hexec with
  | rejected | multi | exec | discard | watchNothing => exact ⟨rfl, rfl⟩
  | watch =>
    obtain ⟨n, hread⟩ := readSteps_snapshotKeys cmd.args w
    exact sameFiles_of_readSteps hread
  | single => exact h.sameFiles_executeSingle hname w

/-- `SAVE` outside of a transaction is refused, or it is carried out and answered `OK` if the
database was saved. -/
theorem execute_save {h : CommandHandler} (hidle : h.inMulti = false) {cmd : Command}
    (hname : cmd.name = ascii "SAVE") (w : World) :
    (h.inSubscriptionMode w = true ∧ (h.execute cmd w).1 ≠ ascii "OK" ∧
        (h.execute cmd w).2.2 = w) ∨
      (h.inSubscriptionMode w = false ∧
        ((h.execute cmd w).1 = ascii "OK" ↔ (w.save dumpPath).1 = true) ∧
        (h.execute cmd w).2.2 = (w.save dumpPath).2) := by
  have hexec := executesOutside hidle cmd w
  generalize h.execute cmd w = result at hexec ⊢
  cases hexec with
  | rejected hsub =>
    exact Or.inl ⟨hsub, ne_ok_of_head?_eq (head?_subscriptionError _), rfl⟩
  | multi hn | exec hn | discard hn | watchNothing hn | watch hn =>
    exact absurd (hn.symm.trans hname) (by decide)
  | single _ hgate =>
    have hsub : h.inSubscriptionMode w = false := by
      rcases hgate with hsub | hallowed
      · exact hsub
      · rw [hname] at hallowed
        exact absurd hallowed (by decide)
    have hsave : h.executeSingle cmd w = handleSave cmd w := by
      unfold executeSingle
      rw [hname]
      rfl
    refine Or.inr ⟨hsub, ?_, by rw [hsave]; rfl⟩
    rw [hsave]
    change (if (w.save dumpPath).1 then ascii "OK" else _) = ascii "OK" ↔ _
    cases (w.save dumpPath).1 with
    | true => simp
    | false => exact iff_of_false (by decide) Bool.false_ne_true

end CommandHandler

/-! ### The files during a step -/

namespace Server

/-- A client that has not given the password does not get `OK` for a `SAVE`. -/
theorem gateText_save {password : Bytes} {cmd : Command} (hname : cmd.name = ascii "SAVE") :
    gateText password cmd ≠ ascii "OK" := by
  unfold gateText
  rw [hname, if_neg (by decide)]
  decide

/-- The command is a `SAVE` that is carried out. -/
def Saves (s : Server) (fd : Socket) (cmd : Command) : Prop :=
  cmd.name = ascii "SAVE" ∧ s.gated fd = false ∧ (s.handler fd).inSubscriptionMode s.world = false

instance (s : Server) (fd : Socket) (cmd : Command) : Decidable (s.Saves fd cmd) :=
  inferInstanceAs (Decidable (_ ∧ _))

/-- The files after a command: as before, or as after the saving. -/
theorem files_respond (s : Server) (fd : Socket) (cmd : Command) :
    (s.world.SameFiles (s.respond fd cmd).2.world ∧ ¬ s.Saves fd cmd ∧
        ¬ (cmd.name = ascii "SAVE" ∧ (s.respond fd cmd).1 = ascii "OK")) ∨
      ((s.world.save dumpPath).2.SameFiles (s.respond fd cmd).2.world ∧ s.Saves fd cmd ∧
        ((s.respond fd cmd).1 = ascii "OK" ↔ (s.world.save dumpPath).1 = true)) := by
  have hresponds := s.responds fd cmd
  generalize s.respond fd cmd = result at hresponds ⊢
  by_cases hname : cmd.name = ascii "SAVE"
  · cases hresponds with
    | password _ hauth => exact absurd (hauth.symm.trans hname) (by decide)
    | refused hgated =>
      refine Or.inl ⟨⟨rfl, rfl⟩, fun hsaves => ?_, fun hok => gateText_save hname hok.2⟩
      exact absurd (hsaves.2.1.symm.trans hgated) (by decide)
    | executed hserved =>
      rcases CommandHandler.execute_save (h := s.handler fd) rfl hname s.world with
        ⟨hsub, hne, hworld⟩ | ⟨hsub, hok, hworld⟩
      · refine Or.inl ⟨by rw [hworld]; exact ⟨rfl, rfl⟩, fun hsaves => ?_, fun hok => hne hok.2⟩
        exact absurd (hsaves.2.2.symm.trans hsub) (by decide)
      · exact Or.inr ⟨by rw [hworld]; exact ⟨rfl, rfl⟩, ⟨hname, hserved, hsub⟩, hok⟩
  · refine Or.inl ⟨?_, fun hsaves => hname hsaves.1, fun hok => hname hok.1⟩
    cases hresponds with
    | password | refused => exact ⟨rfl, rfl⟩
    | executed => exact CommandHandler.sameFiles_execute rfl hname _

namespace Running

/-- The instant and the database of a `SAVE` that puts a new dump file in its place. -/
def saved (r : Running) : Event → Option (TimePoint × Database)
  | .command fd cmd =>
    if r.server.Saves fd cmd ∧ (r.server.world.save dumpPath).1 = true then
      some (r.server.world.now, r.server.world.db)
    else none
  | _ => none

/-- These are the commands `SAVE` whose response is `OK`, whether or not it can be sent. -/
theorem saved_iff_ok (r : Running) (fd : Socket) (cmd : Command) :
    (r.saved (.command fd cmd)).isSome = true ↔
      cmd.name = ascii "SAVE" ∧ (r.server.respond fd cmd).1 = ascii "OK" := by
  rcases r.server.files_respond fd cmd with ⟨-, hsaves, hnot⟩ | ⟨-, hsaves, hok⟩
  · refine iff_of_false ?_ hnot
    simp [saved, hsaves]
  · simp [saved, hsaves, hsaves.1, hok]

/-- **The files after a step**: as before, or as after the saving. -/
theorem Step.files {r r' : Running} {e : Event} (h : Step r e r') :
    (r.server.world.SameFiles r'.server.world ∧ r.saved e = none) ∨
      ((r.server.world.save dumpPath).2.SameFiles r'.server.world ∧
        r.saved e = if (r.server.world.save dumpPath).1 then
          some (r.server.world.now, r.server.world.db) else none) := by
  cases h with
  | accept | quit | reject | hangUp | buffer | disconnect | scan | reorder =>
    exact Or.inl ⟨⟨rfl, rfl⟩, rfl⟩
  | @command _ fd hfd hopen cmd hquit =>
    -- sending the answer does not touch the files
    rcases r.server.files_respond fd cmd with ⟨hsame, hsaves, -⟩ | ⟨hsame, hsaves, -⟩
    · exact Or.inl ⟨hsame, if_neg fun h => hsaves h.1⟩
    · refine Or.inr ⟨hsame, ?_⟩
      unfold saved
      simp only [hsaves, true_and]

end Running

end Server

/-! ### The states that a process goes through -/

/-- Two changes of the order of the maps are one. -/
theorem Database.Reordered.trans {db db' db'' : Database} (h : db.Reordered db')
    (h' : db'.Reordered db'') : db.Reordered db'' :=
  ⟨h.store.trans h'.store, h.listStore.trans h'.listStore, h.expiry.trans h'.expiry⟩

/-- A change of the order of the maps can be undone. -/
theorem Database.Reordered.symm {db db' : Database} (h : db.Reordered db') : db'.Reordered db :=
  ⟨h.store.symm, h.listStore.symm, h.expiry.symm⟩

/-- The database is in a state that can be reached by the instant, up to the order of its maps. -/
def ReachedAt (t : TimePoint) (db : Database) : Prop :=
  ∃ t₀ db₀, t₀ ≤ t ∧ Reachable Database.Encodable t₀ db₀ ∧ db₀.Reordered db

namespace ReachedAt

variable {t t' : TimePoint} {db : Database}

/-- Time passes. -/
theorem mono (h : ReachedAt t db) (ht : t ≤ t') : ReachedAt t' db := by
  obtain ⟨t₀, db₀, hle, hreach, hre⟩ := h
  exact ⟨t₀, db₀, hle.trans ht, hreach, hre⟩

/-- The maps get another order. -/
theorem reorder (h : ReachedAt t db) {db' : Database} (hre : db.Reordered db') :
    ReachedAt t db' := by
  obtain ⟨t₀, db₀, hle, hreach, hre₀⟩ := h
  exact ⟨t₀, db₀, hle, hreach, hre₀.trans hre⟩

/-- An operation. -/
theorem op (h : ReachedAt t db) {op : DbOp} (hpush : op.PushesSomething)
    {readings : ℕ → TimePoint} (hmono : Monotone readings) (hstart : t ≤ readings 0)
    (hlast : ∀ i, readings i ≤ t') : ReachedAt t' (op.run readings db).2 := by
  obtain ⟨t₀, db₀, hle, hreach, hre⟩ := h
  exact ⟨t', _, le_rfl, hreach.op hre op hpush readings hmono (hle.trans hstart) hlast, .rfl⟩

/-- The representation invariant. -/
theorem inv (h : ReachedAt t db) : db.Inv := by
  obtain ⟨t₀, db₀, -, hreach, hre⟩ := h
  exact hre.inv hreach.inv

end ReachedAt

/-- The clock is steady, and the state of the database can be reached by now. -/
structure World.Reached (w : World) : Prop where
  /-- The clock. -/
  clock : SteadyClock w.clock
  /-- The database. -/
  db : ReachedAt w.now w.db

namespace World.Reached

variable {w : World}

/-- An operation of the database. -/
theorem call (h : w.Reached) {op : DbOp} (hpush : op.PushesSomething) : (w.call op).2.Reached :=
  ⟨h.clock.tail, h.db.op hpush (monotone_nat_of_le_succ (h.clock.within 0)) le_rfl
    (h.clock.across 0)⟩

/-- The clock is read. -/
theorem tick (h : w.Reached) : w.tick.Reached :=
  ⟨h.clock.tail, h.db.mono (h.clock.across 0 0)⟩

/-- An action of a command. -/
theorem action (h : w.Reached) (fd : Socket) {a : Action} (ha : a.Allowed) :
    (a.run fd w).Reached := by
  cases a with
  | db op => exact h.call ha
  | readClock | save => exact ⟨h.tick.clock, h.tick.db⟩
  | subscribe | unsubscribe | publish => exact ⟨h.clock, h.db⟩

/-- A command. -/
theorem execute (h : w.Reached) (handler : CommandHandler) (cmd : Command) :
    (handler.execute cmd w).2.2.Reached := by
  obtain ⟨n, w₁, f, hread, ⟨actions, hallowed, hf⟩, heq⟩ := handler.execute_world cmd w
  have hw₁ : w₁.Reached := by
    clear heq
    induction hread with
    | refl => exact h
    | call _ op hop ih => exact ih.call (ReadSteps.pushesSomething hop)
  rw [heq, hf]
  refine List.foldlRecOn (motive := World.Reached) actions (Action.run handler.clientFd) hw₁ ?_
  intro w' hw' a hmem
  exact hw'.action _ (hallowed a hmem)

/-- A step of the server. -/
theorem step {r r' : Server.Running} {e : Server.Running.Event} (hstep : Server.Running.Step r e r')
    (h : r.server.world.Reached) : r'.server.world.Reached := by
  cases hstep with
  | accept | quit | reject | hangUp | buffer | disconnect => exact ⟨h.clock, h.db⟩
  | @command _ fd _ _ cmd =>
    have hrespond : (r.server.respond fd cmd).2.world.Reached := by
      have hresponds := r.server.responds fd cmd
      generalize r.server.respond fd cmd = result at hresponds ⊢
      cases hresponds with
      | password | refused => exact h
      | executed => exact h.execute _ cmd
    exact ⟨hrespond.clock, hrespond.db⟩
  | scan =>
    obtain ⟨t₀, db₀, hle, hreach, hre⟩ := h.db
    exact ⟨h.clock.tail, _, _, h.clock.across 0 0, hreach.scan hre hle, .rfl⟩
  | reorder _ hre _ => exact ⟨h.clock, h.db.reorder hre⟩

end World.Reached

end MyRedis
