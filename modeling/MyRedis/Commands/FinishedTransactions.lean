import MyRedis.Commands.OptimisticLocking
import MyRedis.Commands.Watch

/-!
# What a finished transaction leaves behind

A transaction ends with an `EXEC`, whether the queue is run or not, or with a `DISCARD`.  `EXEC`
puts the handler back into the state of a new one (`CommandHandler.cleared_eq_new`), so that nothing
that happens later can tell the difference.  `DISCARD` keeps the watched keys.  If there are any,
the client can find out by itself: it writes another string to one of them, and its next transaction
is aborted (`System.answers_probe`).
-/

namespace MyRedis

open Foundation

namespace CommandHandler

/-- After `EXEC` a handler is as good as new. -/
theorem cleared_eq_new (h : CommandHandler) : h.cleared = .new h.clientFd h.server := rfl

/-- The flag `watch_dirty_` is never set. -/
theorem watchDirty_execute {h : CommandHandler} (hclean : h.watchDirty = false) (cmd : Command)
    (w : World) : (h.execute cmd w).2.1.watchDirty = false := by
  have hexec := h.executes cmd w
  generalize h.execute cmd w = result at hexec ⊢
  cases hexec with
  | execAborted | exec => rfl
  | _ => exact hclean

/-- An `EXEC` that is reached inside of a transaction ends with a new handler. -/
theorem execute_exec_handler {h : CommandHandler} {w : World}
    (hsub : h.inSubscriptionMode w = false) {cmd : Command} (hname : cmd.name = ascii "EXEC")
    (hmulti : h.inMulti = true) : (h.execute cmd w).2.1 = .new h.clientFd h.server := by
  rw [execute_exec hsub cmd hname hmulti, ← cleared_eq_new]
  split <;> rfl

/-- The answer to an `EXEC` without queued commands. -/
theorem execute_exec_nothing {h : CommandHandler} {w : World}
    (hsub : h.inSubscriptionMode w = false) (hmulti : h.inMulti = true) (hqueue : h.txQueue = []) :
    (h.execute execCmd w).1 =
      if (h.watchCheck w).1 then ascii "(nil)" else ascii "(empty list)" := by
  rw [execute_exec hsub execCmd rfl hmulti, if_pos hqueue]
  exact apply_ite Prod.fst _ _ _

/-- A `DISCARD` that is answered `OK`. -/
theorem execute_discard {h : CommandHandler} {cmd : Command} {w : World}
    (hname : cmd.name = ascii "DISCARD") (hok : (h.execute cmd w).1 = ascii "OK") :
    h.inSubscriptionMode w = false ∧ h.inMulti = true ∧
      (h.execute cmd w).2 = ({ h with inMulti := false, txQueue := [] }, w) := by
  have hallowed : allowedSubscribed cmd.name = false := by
    rw [hname]
    decide
  have hsub : h.inSubscriptionMode w = false := by
    by_contra hsub
    rw [Bool.not_eq_false] at hsub
    rw [execute, hsub, hallowed, Bool.not_false, Bool.true_and, if_pos rfl] at hok
    exact ne_ok_of_head?_eq (head?_subscriptionError _) hok
  have hexec : h.execute cmd w = h.handleDiscard w := by
    rw [execute, hsub, Bool.false_and, if_neg Bool.false_ne_true, hname]
    rfl
  rw [hexec] at hok ⊢
  cases hmulti : h.inMulti with
  | false =>
    have herror : ascii "ERR DISCARD without MULTI" ≠ ascii "OK" := by decide
    rw [handleDiscard, hmulti, if_neg Bool.false_ne_true] at hok
    exact absurd hok herror
  | true =>
    rw [handleDiscard, hmulti, if_pos rfl]
    exact ⟨hsub, rfl, rfl⟩

/-- A key that has another string now is found modified. -/
theorem keyModified_of_strCell {w : World} {k text : Bytes} (hk : w.db.cell k = strCell text)
    {v : Option Value} (hne : classOf v ≠ .str text) :
    (keyModified (snapshotOf k (classOf v)) w).1 = true := by
  have hget := get_strCell hk
  rcases hclass : classOf v with s | n | _
  · rw [keyModified_str, decide_eq_true_iff, hget]
    rintro ⟨⟩
    exact hne hclass
  · -- the length of a string is reported as `-1`
    have hcell : (w.call (.get k)).2.db.cell k = strCell text :=
      ReadSteps.cell_eq (.call .refl (.get k) trivial) hk
    have hllen : ((w.call (.get k)).2.call (.llen k)).1.toInt = -1 := by
      refine (Database.llen_result _ _ k).trans ?_
      rw [hcell, Cell.purge_of_deadline_eq_none rfl]
      rfl
    have hnonneg := nonneg_of_classOf_eq_size hclass
    rw [keyModified_size hnonneg, decide_eq_true_iff, hllen]
    rintro rfl
    exact absurd hnonneg (by decide)
  · rw [keyModified_overlong, hget]
    rfl

end CommandHandler

namespace System

variable {ι : Type} [DecidableEq ι]

/-! ### A new handler in the place of another -/

/-- What happens at an event: the answer, if it is a command, and the system afterwards. -/
def happen (s : System ι) : Event ι → List Bytes × System ι
  | .command i cmd => ([(s.exec i cmd).1], (s.exec i cmd).2)
  | .scan => ([], { s with world := s.world.scan })
  | .reorder db pubsub => ([], { s with world := { s.world with db := db, pubsub := pubsub } })

/-- The answers to a sequence of events, and the world in the end. -/
def play (s : System ι) : List (Event ι) → List Bytes × World
  | [] => ([], s.world)
  | e :: events => ((s.happen e).1 ++ ((s.happen e).2.play events).1,
      ((s.happen e).2.play events).2)

/-- The system with a new handler for client `i`. -/
def renew (s : System ι) (i : ι) : System ι where
  handlers := Function.update s.handlers i
    (.new (s.handlers i).clientFd (s.handlers i).server)
  world := s.world

/-- A new handler for client `i` would give the same answers and have the same effects, whatever
this client and all others do. -/
def SameAsNew (s : System ι) (i : ι) : Prop :=
  ∀ events, s.play events = (s.renew i).play events

/-- The same as long as the others do nothing. -/
def SameAsNewAlone (s : System ι) (i : ι) : Prop :=
  ∀ cmds : List Command, s.play (cmds.map (.command i)) = (s.renew i).play (cmds.map (.command i))

/-- A handler in the state of a new one. -/
theorem sameAsNew_of_eq {s : System ι} {i : ι}
    (h : s.handlers i = .new (s.handlers i).clientFd (s.handlers i).server) : s.SameAsNew i := by
  have hrenew : s.renew i = s := by
    rw [renew, ← h, Function.update_eq_self]
  intro events
  rw [hrenew]

/-! ### A handler that still watches a key -/

/-- Write a string to a key and run a transaction without commands. -/
def probe (k text : Bytes) : List Command := [⟨ascii "SET", [k, text]⟩, multiCmd, execCmd]

/-- The last answer tells whether the check of the handler finds a modified key. -/
theorem answers_probe {s : System ι} {i : ι} (hidle : (s.handlers i).inMulti = false)
    (hsub : (s.handlers i).inSubscriptionMode s.world = false) (k text : Bytes) :
    (s.play ((probe k text).map (.command i))).1 =
      [ascii "OK", ascii "OK",
        if ((s.handlers i).watchCheck (s.world.call (.set k text)).2).1 then ascii "(nil)"
        else ascii "(empty list)"] := by
  have hset : s.exec i ⟨ascii "SET", [k, text]⟩ =
      (ascii "OK", ⟨s.handlers, (s.world.call (.set k text)).2⟩) := by
    have hname : CommandHandler.isTransactional (ascii "SET") = false := by decide
    rw [exec, CommandHandler.execute_other hsub _ hname, hidle, if_neg Bool.false_ne_true]
    refine Prod.ext rfl ?_
    exact congrArg (System.mk · _) (Function.update_eq_self i s.handlers)
  -- the client is still not subscribed
  have hsub' : (s.handlers i).inSubscriptionMode (s.world.call (.set k text)).2 = false := hsub
  have hmulti : (System.mk s.handlers (s.world.call (.set k text)).2).exec i multiCmd =
      (ascii "OK", ⟨Function.update s.handlers i
        { s.handlers i with inMulti := true, txQueue := [] }, (s.world.call (.set k text)).2⟩) := by
    have hstep : (s.handlers i).execute multiCmd (s.world.call (.set k text)).2 =
        (ascii "OK", { s.handlers i with inMulti := true, txQueue := [] },
          (s.world.call (.set k text)).2) := by
      rw [CommandHandler.execute_multi hsub' multiCmd rfl, CommandHandler.handleMulti, hidle,
        if_neg Bool.false_ne_true]
    simp only [exec, hstep]
  have hexec : ((System.mk (Function.update s.handlers i
      { s.handlers i with inMulti := true, txQueue := [] })
        (s.world.call (.set k text)).2).exec i execCmd).1 =
      if ((s.handlers i).watchCheck (s.world.call (.set k text)).2).1 then ascii "(nil)"
      else ascii "(empty list)" := by
    simp only [exec, Function.update_self]
    exact CommandHandler.execute_exec_nothing hsub' rfl rfl
  simp only [probe, List.map_cons, List.map_nil, play, happen, hset, hmulti, hexec]
  rfl

/-- Another string at a watched key is noticed. -/
theorem not_sameAsNewAlone {s : System ι} {i : ι} (hidle : (s.handlers i).inMulti = false)
    (hsub : (s.handlers i).inSubscriptionMode s.world = false)
    {noted : List (Bytes × Option Value)} (htracks : TracksWatched noted (s.handlers i))
    (hnoted : noted ≠ []) : ¬ s.SameAsNewAlone i := by
  rcases noted with _ | ⟨⟨k, v⟩, noted⟩
  · exact absurd rfl hnoted
  -- a string that is not the one that was seen
  obtain ⟨text, htext⟩ : ∃ text, classOf v ≠ .str text := by
    by_cases hempty : classOf v = .str []
    · refine ⟨[0], ?_⟩
      rw [hempty]
      decide
    · exact ⟨[], hempty⟩
  have hcheck : ((s.handlers i).watchCheck (s.world.call (.set k text)).2).1 = true := by
    have hmodified := CommandHandler.keyModified_of_strCell (cell_call_set k text s.world) htext
    rw [CommandHandler.watchCheck, htracks.keys, List.map_cons, if_neg (List.cons_ne_nil _ _),
      htracks.snapshots, snapshotsOf, List.map_cons, CommandHandler.watchedKeysModified, hmodified,
      if_pos rfl]
  intro halone
  have hanswers := congrArg Prod.fst (halone (probe k text))
  have hnew : (s.renew i).handlers i = .new (s.handlers i).clientFd (s.handlers i).server :=
    Function.update_self _ _ _
  have hfresh : (((s.renew i).handlers i).watchCheck
      ((s.renew i).world.call (.set k text)).2).1 = false := by
    rw [hnew]
    rfl
  rw [answers_probe hidle hsub, answers_probe (by rw [hnew]; rfl) (by rw [hnew]; exact hsub),
    hcheck, hfresh] at hanswers
  exact absurd hanswers (by decide)

/-! ### The end of a transaction -/

/-- A transaction of the client ends: with an `EXEC` inside of the transaction, or with a `DISCARD`
that is answered `OK`. -/
def Finishes (s : System ι) (i : ι) (cmd : Command) : Prop :=
  s.ReachesExec i cmd ∨ cmd.name = ascii "DISCARD" ∧ (s.exec i cmd).1 = ascii "OK"

instance (s : System ι) (i : ι) (cmd : Command) : Decidable (s.Finishes i cmd) :=
  inferInstanceAs (Decidable (_ ∨ _))

/-- In every run the flag stays as it is. -/
theorem watchDirty_of_trace {s₀ s : System ι} {past : List (System ι × Event ι)} {i : ι}
    (hclean : (s₀.handlers i).watchDirty = false) (htrace : Trace Step s₀ past s) :
    (s.handlers i).watchDirty = false := by
  refine htrace.invariant (I := fun _ s => (s.handlers i).watchDirty = false) hclean ?_
  intro past s e s' hs hstep
  by_cases he : ∃ cmd, e = .command i cmd
  · obtain ⟨cmd, rfl⟩ := he
    cases hstep
    rw [handlers_exec_self]
    exact CommandHandler.watchDirty_execute hs cmd s.world
  · rw [hstep.handlers_of_other fun cmd h => he ⟨cmd, h⟩]
    exact hs

/-- The handler after an `EXEC` inside of a transaction is new. -/
theorem sameAsNew_of_reachesExec {s : System ι} {i : ι} {cmd : Command} (h : s.ReachesExec i cmd) :
    (s.exec i cmd).2.SameAsNew i := by
  obtain ⟨hname, hmulti, hsub⟩ := h
  have hnew := CommandHandler.execute_exec_handler hsub hname hmulti
  apply sameAsNew_of_eq
  rw [handlers_exec_self, hnew]
  rfl

section Discard

variable {s₀ s : System ι} {past : List (System ι × Event ι)} {i : ι} {fd : Socket}
  {server : Option ServerInfo} (hvalid : s₀.world.Valid) (hnew : s₀.handlers i = .new fd server)
  (htrace : Trace Step s₀ past s) {cmd : Command} (hname : cmd.name = ascii "DISCARD")
  (hok : (s.exec i cmd).1 = ascii "OK")
include hvalid hnew htrace hname hok

/-- The handler after a `DISCARD` is new if it has watched no key. -/
theorem sameAsNew_of_discard (hnone : watched i past = []) : (s.exec i cmd).2.SameAsNew i := by
  obtain ⟨-, -, hdiscard⟩ := CommandHandler.execute_discard hname hok
  have htracks := tracksWatched_of_trace hvalid hnew htrace
  rw [hnone] at htracks
  have hclean := watchDirty_of_trace (by rw [hnew]; rfl) htrace
  apply sameAsNew_of_eq
  rw [handlers_exec_self, hdiscard, CommandHandler.new, htracks.keys, htracks.snapshots, hclean]
  rfl

/-- Otherwise it is not. -/
theorem watched_eq_nil_of_discard (halone : (s.exec i cmd).2.SameAsNewAlone i) :
    watched i past = [] := by
  by_contra hsome
  obtain ⟨hsub, -, hdiscard⟩ := CommandHandler.execute_discard hname hok
  have htracks := tracksWatched_of_trace hvalid hnew htrace
  have hhandler : (s.exec i cmd).2.handlers i =
      { s.handlers i with inMulti := false, txQueue := [] } := by
    rw [handlers_exec_self, hdiscard]
  have hworld : (s.exec i cmd).2.world = s.world := congrArg Prod.snd hdiscard
  have hkept : TracksWatched (watched i past) ((s.exec i cmd).2.handlers i) := by
    rw [hhandler]
    exact ⟨htracks.snapshots, htracks.keys⟩
  refine not_sameAsNewAlone ?_ ?_ hkept hsome halone
  · rw [hhandler]
  · rw [hhandler, hworld]
    exact hsub

end Discard

/-- **What a finished transaction leaves behind.**  After the end of a transaction in any run, the
client gets the same answers to all later commands, with the same effects, as with a new handler in
the place of its own, if and only if the transaction ended with `EXEC` or no key was being watched.
This does not depend on whether other clients take part: a difference shows in the commands of the
client alone. -/
theorem sameAsNew_iff {s₀ s : System ι} {past : List (System ι × Event ι)} {i : ι} {fd : Socket}
    {server : Option ServerInfo} (hvalid : s₀.world.Valid) (hnew : s₀.handlers i = .new fd server)
    (htrace : Trace Step s₀ past s) {cmd : Command} (hfinishes : s.Finishes i cmd) :
    ((s.exec i cmd).2.SameAsNew i ↔ cmd.name = ascii "EXEC" ∨ watched i past = []) ∧
      ((s.exec i cmd).2.SameAsNewAlone i ↔ cmd.name = ascii "EXEC" ∨ watched i past = []) := by
  have hsame : cmd.name = ascii "EXEC" ∨ watched i past = [] → (s.exec i cmd).2.SameAsNew i := by
    intro hor
    rcases hfinishes with hexec | ⟨hname, hok⟩
    · exact sameAsNew_of_reachesExec hexec
    · rcases hor with hexec | hnone
      · exact absurd (hname.symm.trans hexec) (by decide)
      · exact sameAsNew_of_discard hvalid hnew htrace hname hok hnone
  have halone : (s.exec i cmd).2.SameAsNewAlone i →
      cmd.name = ascii "EXEC" ∨ watched i past = [] := by
    intro h
    rcases hfinishes with hexec | ⟨hname, hok⟩
    · exact Or.inl hexec.1
    · exact Or.inr (watched_eq_nil_of_discard hvalid hnew htrace hname hok h)
  have hfewer : (s.exec i cmd).2.SameAsNew i → (s.exec i cmd).2.SameAsNewAlone i :=
    fun h cmds => h _
  exact ⟨⟨fun h => halone (hfewer h), hsame⟩, halone, fun h => hfewer (hsame h)⟩

/-- Client `false` watches a key that client `true` changes before the `EXEC`. -/
def abortedTransaction : List (Bool × Command) :=
  [(false, ⟨ascii "WATCH", [ascii "k"]⟩), (false, ⟨ascii "MULTI", []⟩),
    (false, ⟨ascii "SET", [ascii "k", ascii "1"]⟩), (true, ⟨ascii "SET", [ascii "k", ascii "2"]⟩)]

/-- The aborted transaction is forgotten. -/
theorem sameAsNew_after_abort :
    let s := twoClients.after abortedTransaction
    s.Finishes false ⟨ascii "EXEC", []⟩ ∧ (s.exec false ⟨ascii "EXEC", []⟩).1 = ascii "(nil)" ∧
      (s.exec false ⟨ascii "EXEC", []⟩).2.SameAsNew false := by
  intro s
  have hfinishes : s.Finishes false ⟨ascii "EXEC", []⟩ := by decide
  refine ⟨hfinishes, by decide, ?_⟩
  have hiff := sameAsNew_iff World.initial_valid rfl
    (trace_history twoClients abortedTransaction) hfinishes
  exact hiff.1.mpr (Or.inl rfl)

/-- A key that was watched before a discarded transaction.  When another client has changed it, the
next transaction of the client is aborted, but that of a new handler is not. -/
theorem discard_keeps_watching :
    let s := twoClients.after
      [(false, ⟨ascii "WATCH", [ascii "k"]⟩), (false, ⟨ascii "MULTI", []⟩)]
    let s' := (s.exec false ⟨ascii "DISCARD", []⟩).2
    let later : List (Event Bool) :=
      [.command true ⟨ascii "SET", [ascii "k", ascii "v"]⟩, .command false multiCmd,
        .command false execCmd]
    s.Finishes false ⟨ascii "DISCARD", []⟩ ∧
      (s'.play later).1 = [ascii "OK", ascii "OK", ascii "(nil)"] ∧
      ((s'.renew false).play later).1 = [ascii "OK", ascii "OK", ascii "(empty list)"] ∧
      ¬ s'.SameAsNew false := by
  intro s s' later
  have hold : (s'.play later).1 = [ascii "OK", ascii "OK", ascii "(nil)"] := by decide
  have hrenewed : ((s'.renew false).play later).1 =
      [ascii "OK", ascii "OK", ascii "(empty list)"] := by
    decide
  refine ⟨by decide, hold, hrenewed, fun hsame => ?_⟩
  rw [hsame later, hrenewed] at hold
  exact absurd hold (by decide)

end System

end MyRedis
