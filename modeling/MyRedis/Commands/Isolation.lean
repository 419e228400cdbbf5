import MyRedis.Commands.Responses
import MyRedis.Commands.System

/-!
# Transactions of a kept handler

A handler that is kept for its client and is the only one for the client's socket keeps its
transactions apart from everything else: between `MULTI` and `EXEC` or `DISCARD` its commands change
nothing, and an `EXEC` that is not aborted does what its queued commands do one after the other
(`System.transaction_isolation`).

The transaction is described from outside, by what an observer sees who looks at the commands of
the client and their answers (`transaction`); `tracks_of_trace` says that the state of the handler
agrees with it in every run.
-/

namespace MyRedis

open Foundation

/-! ### Worlds with the same contents -/

/-- The same subscriptions, and the same live contents from the present instant of `w'` on. -/
def SameContents (w w' : World) : Prop :=
  w'.pubsub = w.pubsub ∧ ∀ t, w'.now ≤ t → w'.db.live t = w.db.live t

/-- Nothing has changed. -/
theorem SameContents.rfl {w : World} : SameContents w w := ⟨Eq.refl _, fun _ _ => Eq.refl _⟩

/-- Reading changes nothing. -/
theorem ReadSteps.sameContents {w w' : World} {n : ℕ} (h : ReadSteps w n w') (hw : w.Valid) :
    SameContents w w' :=
  ⟨h.frame.1, fun _ ht => h.live_eq hw ht⟩

/-- Two worlds in which actions have the same effects on the contents: they may differ in the
expired keys that are still stored, and in the files. -/
structure SameLive (w w' : World) : Prop where
  /-- The same subscriptions. -/
  pubsub : w'.pubsub = w.pubsub
  /-- The same sockets. -/
  net : w'.net = w.net
  /-- The same clock. -/
  clock : w'.clock = w.clock
  /-- The same live contents. -/
  live : w'.db.live w.now = w.db.live w.now

namespace SameLive

variable (fd : Socket) {w w' : World}

/-- The same instant. -/
theorem now (h : SameLive w w') : w'.now = w.now := by
  rw [World.now, World.now, h.clock]

/-- Worlds of this kind have the same contents. -/
theorem sameContents (h : SameLive w w') : SameContents w w' :=
  ⟨h.pubsub, fun _ ht => Database.live_eq_of_le (h.now ▸ ht) h.live⟩

/-- The clock is read and nothing else happens. -/
theorem tick (h : SameLive w w') (hw : w.Valid) : SameLive w.tick w'.tick where
  pubsub := h.pubsub
  net := h.net
  clock := by
    funext i
    exact congrFun h.clock (i + 1)
  live := Database.live_eq_of_le (hw.clock.across 0 0) h.live

/-- The same action in two such worlds. -/
theorem run (a : Action) (hw : w.Valid) (hw' : w'.Valid) (h : SameLive w w') :
    SameLive (a.run fd w) (a.run fd w') := by
  cases a with
  | db op =>
    refine ⟨h.pubsub, h.net, (h.tick hw).clock, ?_⟩
    change (op.run (w'.clock 0) w'.db).2.live _ = (op.run (w.clock 0) w.db).2.live _
    rw [h.clock]
    exact op.live_run_congr (hw.clock.across 0) hw'.db hw.db h.live
  | readClock => exact h.tick hw
  | save filepath => exact ⟨h.pubsub, h.net, (h.tick hw).clock, (h.tick hw).live⟩
  | subscribe channels =>
    refine ⟨?_, h.net, h.clock, h.live⟩
    change (w'.pubsub.subscribe fd channels).2 = (w.pubsub.subscribe fd channels).2
    rw [h.pubsub]
  | unsubscribe channels =>
    refine ⟨?_, h.net, h.clock, h.live⟩
    change (w'.pubsub.unsubscribe fd channels).2 = (w.pubsub.unsubscribe fd channels).2
    rw [h.pubsub]
  | publish channel message =>
    have hsent : w'.pubsub.publish channel message w'.net =
        w.pubsub.publish channel message w.net := by
      rw [h.pubsub, h.net]
    exact ⟨congrArg (fun r => r.2.1) hsent, congrArg (fun r => r.2.2) hsent, h.clock, h.live⟩

/-- The same actions in two such worlds. -/
theorem runAll {actions : List Action} (hactions : ∀ a ∈ actions, a.Allowed) (hw : w.Valid)
    (hw' : w'.Valid) (h : SameLive w w') :
    SameLive (Action.runAll fd actions w) (Action.runAll fd actions w') := by
  induction actions generalizing w w' with
  | nil => exact h
  | cons a actions ih =>
    have ha : a.Allowed := hactions a List.mem_cons_self
    exact ih (fun a' ha' => hactions a' (List.mem_cons_of_mem _ ha'))
      (Action.run_valid ha hw) (Action.run_valid ha hw') (h.run fd a hw hw')

end SameLive

/-- After reading, actions have the effects that they have without it, at the same instants. -/
theorem ReadSteps.sameLive {w w₁ : World} {n : ℕ} (h : ReadSteps w n w₁) (hw : w.Valid) :
    SameLive { w with clock := fun i => w.clock (n + i) } w₁ where
  pubsub := h.frame.1
  net := h.frame.2
  clock := h.clock_eq
  live := h.live_eq hw (le_of_eq h.now_eq)

/-! ### The answer to `EXEC` -/

namespace CommandHandler

/-- Only an `EXEC` that was aborted answers `(nil)`. -/
theorem execReply_ne_nil (h : CommandHandler) (w : World) :
    (if h.txQueue = [] then ascii "(empty list)"
      else lines (numberItems (h.executeAll h.txQueue w).1)) ≠ ascii "(nil)" := by
  cases hqueue : h.txQueue with
  | nil =>
    rw [if_pos rfl]
    decide
  | cons cmd cmds =>
    rw [if_neg (List.cons_ne_nil _ _), executeAll]
    intro heq
    have hhead := congrArg List.head? heq
    rw [head?_lines_numberItems] at hhead
    exact absurd hhead (by decide)

end CommandHandler

/-! ### The transaction as it is seen from outside -/

namespace System

variable {ι : Type} [DecidableEq ι]

/-- The observer of client `i` looks at the commands of this client. -/
def note (i : ι) (noted : Option (List Command)) (s : System ι) :
    Event ι → Option (List Command)
  | .command j cmd => if j = i then noteAnswer noted cmd (s.exec j cmd).1 else noted
  | _ => noted

/-- The transaction of client `i`: the queued commands, if it is open. -/
def transaction (i : ι) (past : List (System ι × Event ι)) : Option (List Command) :=
  remember (note i) none past

/-- The state of a handler agrees with what was noted of its client. -/
structure Tracks (noted : Option (List Command)) (h : CommandHandler) (w : World) : Prop where
  /-- The queue. -/
  queue : noted = if h.inMulti then some h.txQueue else none
  /-- The queue is empty outside of transactions. -/
  idle : h.inMulti = false → h.txQueue = []
  /-- A client in a transaction is not subscribed. -/
  unsubscribed : h.inMulti = true → h.inSubscriptionMode w = false

/-- Outside of a transaction, nothing but a `MULTI` that was answered `OK` is noted. -/
theorem noteAnswer_none {cmd : Command} {answer : Bytes}
    (h : cmd.name = ascii "MULTI" → answer ≠ ascii "OK") : noteAnswer none cmd answer = none := by
  unfold noteAnswer
  split
  · rfl
  · split
    · rw [if_neg (h ‹_›)]
    · split <;> rfl

/-- In a transaction, errors are not noted. -/
theorem noteAnswer_error {noted : Option (List Command)} {cmd : Command} {answer : Bytes}
    (hname : cmd.name ≠ ascii "EXEC" ∧ cmd.name ≠ ascii "DISCARD")
    (hanswer : answer.head? = some 69) : noteAnswer noted cmd answer = noted := by
  unfold noteAnswer
  rw [if_neg (by simp [hname.1, hname.2])]
  split
  · rw [if_neg]
    exact ne_ok_of_head?_eq hanswer
  · rw [if_neg]
    exact ne_queued_of_head?_eq hanswer

/-- The state of a handler agrees with the notes after each of its commands. -/
theorem Tracks.execute {noted : Option (List Command)} {h : CommandHandler} {w : World}
    (ht : Tracks noted h w) (cmd : Command) :
    Tracks (noteAnswer noted cmd (h.execute cmd w).1) (h.execute cmd w).2.1
      (h.execute cmd w).2.2 := by
  have hnone (hmulti : h.inMulti = false) : noted = none := by
    rw [ht.queue, hmulti]
    rfl
  -- Outside of a transaction a command leaves the state as it is.
  have hidle (hmulti : h.inMulti = false) (answer : Bytes) (w' : World)
      (hne : cmd.name = ascii "MULTI" → answer ≠ ascii "OK") :
      Tracks (noteAnswer noted cmd answer) h w' := by
    rw [hnone hmulti, noteAnswer_none hne]
    exact ⟨by rw [hmulti]; rfl, ht.idle, fun h => absurd h (by simp [hmulti])⟩
  have hexec := h.executes cmd w
  generalize h.execute cmd w = result at hexec ⊢
  cases hexec with
  | rejected hsub hname =>
    refine hidle ?_ _ _ fun _ => ne_ok_of_head?_eq (CommandHandler.head?_subscriptionError _)
    by_contra hmulti
    simp [ht.unsubscribed (by simpa using hmulti)] at hsub
  | multi hname hsub hmulti =>
    refine ⟨?_, fun h => by simp at h, fun _ => hsub⟩
    simp [noteAnswer, hname, hnone hmulti, ascii]
  | multiNested hname hmulti =>
    rw [noteAnswer_error (by rw [hname]; decide) rfl]
    exact ht
  | execAborted hname _ hmulti hcheck =>
    exact ⟨by simp [noteAnswer, hname, CommandHandler.cleared], fun _ => rfl,
      fun h => by simp [CommandHandler.cleared] at h⟩
  | exec hname _ hmulti hcheck =>
    exact ⟨by simp [noteAnswer, hname, CommandHandler.cleared], fun _ => rfl,
      fun h => by simp [CommandHandler.cleared] at h⟩
  | execWithout hname hmulti =>
    exact hidle hmulti _ _ fun h => absurd (hname.symm.trans h) (by decide)
  | discard hname hmulti =>
    exact ⟨by simp [noteAnswer, hname], fun _ => rfl, fun h => by simp at h⟩
  | discardWithout hname hmulti =>
    exact hidle hmulti _ _ fun h => absurd (hname.symm.trans h) (by decide)
  | watchNothing hname hargs =>
    rw [noteAnswer_error (by rw [hname]; decide) (head?_wrongArguments _)]
    exact ht
  | watchNested hname hmulti =>
    rw [noteAnswer_error (by rw [hname]; decide) CommandHandler.head?_watchNested]
    exact ht
  | watch hname hsub hargs hmulti =>
    have hkeep := hidle hmulti (ascii "OK") (CommandHandler.snapshotKeys cmd.args w).2
      fun h => absurd (hname.symm.trans h) (by decide)
    exact ⟨hkeep.queue, ht.idle, fun h => absurd h (by simp [hmulti])⟩
  | queue hname hmulti =>
    refine ⟨?_, fun h => absurd h (by simp [hmulti]), ht.unsubscribed⟩
    simp only [CommandHandler.isTransactional, Bool.or_eq_false_iff, beq_eq_false_iff_ne] at hname
    obtain ⟨⟨⟨h1, h2⟩, h3⟩, -⟩ := hname
    rw [noteAnswer, if_neg (by simp [h2, h3]), if_neg h1, if_pos rfl, ht.queue, hmulti]
    rfl
  | single hname hmulti =>
    refine hidle hmulti _ _ fun h => ?_
    rw [h] at hname
    exact absurd hname (by decide)

/-- The state of a handler agrees with the notes in every run. -/
theorem tracks_of_trace {s₀ s : System ι} {past : List (System ι × Event ι)} {i : ι}
    {fd : Socket} {server : Option ServerInfo} (hnew : s₀.handlers i = .new fd server)
    (honly : s₀.OnlyOne i) (htrace : Trace Step s₀ past s) :
    Tracks (transaction i past) (s.handlers i) s.world := by
  have hstart : Tracks none (s₀.handlers i) s₀.world := by
    rw [hnew]
    exact ⟨rfl, fun _ => rfl, fun h => absurd h (by simp [CommandHandler.new])⟩
  refine (htrace.invariant (I := fun past s => s.OnlyOne i ∧
    Tracks (transaction i past) (s.handlers i) s.world) ⟨honly, hstart⟩ ?_).2
  rintro past s e s' ⟨hone, htracks⟩ hstep
  refine ⟨?_, ?_⟩
  · intro j hj
    rw [hstep.clientFd_eq, hstep.clientFd_eq]
    exact hone j hj
  · rw [transaction, remember_snoc]
    by_cases he : ∃ cmd, e = .command i cmd
    · obtain ⟨cmd, rfl⟩ := he
      cases hstep
      rw [handlers_exec_self, note, if_pos rfl]
      exact htracks.execute cmd
    · have hother : ∀ cmd, e ≠ .command i cmd := fun cmd h => he ⟨cmd, h⟩
      have hnote : note i (transaction i past) s e = transaction i past := by
        cases e with
        | command j cmd => exact if_neg fun hji => hother cmd (by rw [hji])
        | scan | reorder => rfl
      change Tracks (note i (transaction i past) s e) _ _
      rw [hnote, hstep.handlers_of_other hother]
      refine ⟨htracks.queue, htracks.idle, fun hmulti => ?_⟩
      by_contra hsub
      have hsub' := hstep.isSubscribed_of_other hone hother
        (by rw [hstep.handlers_of_other hother]; simpa using hsub)
      rw [htracks.unsubscribed hmulti] at hsub'
      exact absurd hsub' (by decide)

/-! ### Isolation -/

/-- What is noted of an open transaction is the queue of the handler. -/
theorem Tracks.of_some {queue : List Command} {h : CommandHandler} {w : World}
    (ht : Tracks (some queue) h w) : h.inMulti = true ∧ h.txQueue = queue := by
  have hqueue := ht.queue
  cases hmulti : h.inMulti with
  | false => simp [hmulti] at hqueue
  | true => exact ⟨rfl, by simpa [hmulti] using hqueue.symm⟩

/-- In a transaction, commands other than `EXEC` leave the world alone. -/
theorem Tracks.world_eq {queue : List Command} {h : CommandHandler} {w : World}
    (ht : Tracks (some queue) h w) {cmd : Command} (hcmd : cmd.name ≠ ascii "EXEC") :
    (h.execute cmd w).2.2 = w := by
  have hmulti := ht.of_some.1
  have hexec := h.executes cmd w
  generalize h.execute cmd w = result at hexec ⊢
  cases hexec with
  | execAborted hname | exec hname => exact absurd hname hcmd
  | watch _ _ _ hfalse | single _ hfalse => exact absurd (hmulti.symm.trans hfalse) (by decide)
  | _ => rfl

/-- Running the queue after the check of `EXEC` has the effect of running it without the check, at
the same instants. -/
theorem sameContents_executeAll {h : CommandHandler} {w w₁ : World} {n : ℕ} (hw : w.Valid)
    (hread : ReadSteps w n w₁) (cmds : List Command) :
    SameContents (h.executeAll cmds { w with clock := fun j => w.clock (n + j) }).2
      (h.executeAll cmds w₁).2 := by
  obtain ⟨actions, hallowed, hacts⟩ := h.allowed_executeAll cmds
  have hvalid : World.Valid { w with clock := fun j => w.clock (n + j) } :=
    ⟨hw.db, hread.clock_eq ▸ (hread.valid hw).clock⟩
  have hrun := SameLive.runAll h.clientFd hallowed hvalid (hread.valid hw) (hread.sameLive hw)
  rw [← hacts, ← hacts] at hrun
  exact hrun.sameContents

/-- In a transaction, `EXEC` is either aborted and changes nothing, or it runs the queue. -/
theorem Tracks.exec {queue : List Command} {h : CommandHandler} {w : World} (hw : w.Valid)
    (ht : Tracks (some queue) h w) {cmd : Command} (hcmd : cmd.name = ascii "EXEC") :
    ((h.execute cmd w).1 = ascii "(nil)" → SameContents w (h.execute cmd w).2.2) ∧
      ((h.execute cmd w).1 ≠ ascii "(nil)" → ∃ n,
        SameContents (h.executeAll queue { w with clock := fun j => w.clock (n + j) }).2
          (h.execute cmd w).2.2) := by
  obtain ⟨hmulti, rfl⟩ := ht.of_some
  obtain ⟨n, hread⟩ := h.readSteps_watchCheck w
  rw [CommandHandler.execute_exec (ht.unsubscribed hmulti) cmd hcmd hmulti]
  split
  · exact ⟨fun _ => hread.sameContents hw, fun hne => absurd rfl hne⟩
  · exact ⟨fun heq => absurd heq (h.execReply_ne_nil _),
      fun _ => ⟨n, sameContents_executeAll hw hread h.txQueue⟩⟩

/-- **Isolation.**  In every run in which handler `i` is the only one for its socket: outside of a
transaction its queue is empty; in a transaction its commands change neither the live contents nor
the subscriptions until `EXEC`, and `DISCARD` changes nothing either; an `EXEC` that is aborted
changes nothing, and one that is not leaves what executing the queued commands one after the other
leaves, from the state before the `EXEC` and at the instants at which the `EXEC` runs them. -/
theorem transaction_isolation {s₀ s : System ι} {past : List (System ι × Event ι)} {i : ι}
    {fd : Socket} {server : Option ServerInfo} (hvalid : s₀.world.Valid)
    (hnew : s₀.handlers i = .new fd server) (honly : s₀.OnlyOne i)
    (htrace : Trace Step s₀ past s) :
    (transaction i past = none → (s.handlers i).txQueue = []) ∧
      ∀ queue, transaction i past = some queue → ∀ cmd : Command,
        (cmd.name ≠ ascii "EXEC" → SameContents s.world (s.exec i cmd).2.world) ∧
        (cmd.name = ascii "EXEC" → (s.exec i cmd).1 = ascii "(nil)" →
          SameContents s.world (s.exec i cmd).2.world) ∧
        (cmd.name = ascii "EXEC" → (s.exec i cmd).1 ≠ ascii "(nil)" → ∃ n,
          SameContents (queue.foldl (fun w cmd => ((s.handlers i).executeSingle cmd w).2)
            { s.world with clock := fun j => s.world.clock (n + j) })
            (s.exec i cmd).2.world) := by
  have htracks := tracks_of_trace hnew honly htrace
  have hworld := valid_of_trace htrace hvalid
  refine ⟨fun hnone => ?_, fun queue hsome cmd => ?_⟩
  · refine htracks.idle ?_
    have hqueue := htracks.queue
    rw [hnone] at hqueue
    cases hmulti : (s.handlers i).inMulti with
    | false => rfl
    | true => simp [hmulti] at hqueue
  · rw [hsome] at htracks
    refine ⟨fun hname => ?_, fun hname => (htracks.exec hworld hname).1, fun hname hne => ?_⟩
    · have hsame : (s.exec i cmd).2.world = s.world := htracks.world_eq hname
      rw [hsame]
      exact SameContents.rfl
    · obtain ⟨n, hcontents⟩ := (htracks.exec hworld hname).2 hne
      rw [CommandHandler.executeAll_snd] at hcontents
      exact ⟨n, hcontents⟩

/-- A transaction of client `false` with a command of client `true` in between. -/
def queueAndOverwrite : List (Bool × Command) :=
  [(false, ⟨ascii "MULTI", []⟩), (false, ⟨ascii "SET", [ascii "k", ascii "v"]⟩),
    (true, ⟨ascii "SET", [ascii "k", ascii "w"]⟩)]

/-- Its `EXEC` stores the value of the queued command. -/
theorem transaction_isolation_two_clients :
    transaction false (twoClients.history queueAndOverwrite) =
        some [⟨ascii "SET", [ascii "k", ascii "v"]⟩] ∧
      (twoClients.after queueAndOverwrite).world.db.valueAt 0 (ascii "k") =
        some (.str (ascii "w")) ∧
      ((twoClients.after queueAndOverwrite).exec false ⟨ascii "EXEC", []⟩).2.world.db.valueAt 0
        (ascii "k") = some (.str (ascii "v")) := by
  refine ⟨rfl, rfl, ?_⟩
  obtain ⟨n, -, hlive⟩ := ((transaction_isolation World.initial_valid rfl (twoClients_onlyOne false)
    (trace_history twoClients queueAndOverwrite)).2 _ rfl ⟨ascii "EXEC", []⟩).2.2 rfl (by decide)
  rw [Database.valueAt, hlive 0 le_rfl]
  rfl

end System

end MyRedis
