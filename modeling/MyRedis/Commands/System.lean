import MyRedis.Commands.Actions
import MyRedis.Foundation.Trace

/-!
# Handlers that share a world

Any number of command handlers, each kept for one client, on the same database and the same pub/sub
manager.  A step is one command of one handler, an active-expiry scan, or a change of the iteration
order of the hash maps.  The runs of the system are its traces, so that what has happened to a
handler so far can be said in terms of its commands and their answers.
-/

namespace MyRedis

open Foundation

/-! ### One command -/

namespace CommandHandler

variable (h : CommandHandler) (cmd : Command) (w : World)

/-- Every command reads first and acts then. -/
theorem execute_world : ∃ n w₁ f, ReadSteps w n w₁ ∧ ActsWith Action.Allowed h.clientFd f ∧
    (h.execute cmd w).2.2 = f w₁ := by
  obtain ⟨n, hcheck⟩ := h.readSteps_watchCheck w
  obtain ⟨m, hwatch⟩ := readSteps_snapshotKeys cmd.args w
  have hexec := h.executes cmd w
  generalize h.execute cmd w = result at hexec ⊢
  cases hexec with
  | execAborted => exact ⟨n, _, id, hcheck, ActsWith.nothing, rfl⟩
  | exec => exact ⟨n, _, _, hcheck, allowed_executeAll h h.txQueue, rfl⟩
  | watch => exact ⟨m, _, id, hwatch, ActsWith.nothing, rfl⟩
  | single => exact ⟨0, w, _, ReadSteps.refl, allowed_executeSingle cmd h, rfl⟩
  | _ => exact ⟨0, w, id, ReadSteps.refl, ActsWith.nothing, rfl⟩

/-- The socket of a handler does not change. -/
@[simp] theorem clientFd_execute : (h.execute cmd w).2.1.clientFd = h.clientFd := by
  have hexec := h.executes cmd w
  generalize h.execute cmd w = result at hexec ⊢
  cases hexec <;> rfl

variable {h cmd w}

/-- A command keeps the world valid. -/
theorem execute_valid (hw : w.Valid) : (h.execute cmd w).2.2.Valid := by
  obtain ⟨n, w₁, f, hread, ⟨actions, hallowed, hf⟩, heq⟩ := h.execute_world cmd w
  rw [heq, hf]
  exact Action.runAll_valid hallowed (hread.valid hw)

/-- A command of one client subscribes no other client. -/
theorem isSubscribed_of_execute {fd : Socket} (hfd : fd ≠ h.clientFd)
    (hsub : (h.execute cmd w).2.2.pubsub.isSubscribed fd = true) :
    w.pubsub.isSubscribed fd = true := by
  obtain ⟨n, w₁, f, hread, ⟨actions, hallowed, hf⟩, heq⟩ := h.execute_world cmd w
  rw [heq, hf] at hsub
  rw [← hread.frame.1]
  exact Action.isSubscribed_of_runAll hfd hsub

end CommandHandler

/-! ### The system -/

/-- Handlers and the world they share. -/
structure System (ι : Type) where
  /-- The handlers. -/
  handlers : ι → CommandHandler
  /-- The world. -/
  world : World

/-- What happens in a system. -/
inductive Event (ι : Type) where
  /-- A command of a client. -/
  | command (i : ι) (cmd : Command)
  /-- An active-expiry scan. -/
  | scan
  /-- The hash maps and hash sets get another iteration order. -/
  | reorder (db : Database) (pubsub : PubSubManager)

/-- A world in which nothing has happened: nothing is stored, nobody is subscribed, and nothing will
fail. -/
def World.initial : World where
  db := Database.empty
  pubsub := PubSubManager.empty
  net := ⟨fun _ => some 0, []⟩
  disk := ⟨fun _ => none, fun _ => []⟩
  outcomes := fun _ => ⟨true, 0⟩
  clock := fun _ _ => 0

/-- This world is valid. -/
theorem World.initial_valid : World.initial.Valid :=
  ⟨Database.inv_empty, fun _ _ => le_rfl, fun _ _ => le_rfl⟩

/-- The world after an active-expiry scan. -/
def World.scan (w : World) : World :=
  { w.tick with db := w.db.expiryScan w.now }

namespace System

variable {ι : Type} [DecidableEq ι]

/-- Execute a command of a client: the text of the response, and the system afterwards. -/
def exec (s : System ι) (i : ι) (cmd : Command) : Bytes × System ι :=
  let result := (s.handlers i).execute cmd s.world
  (result.1, ⟨Function.update s.handlers i result.2.1, result.2.2⟩)

/-- The steps of a system. -/
inductive Step : System ι → Event ι → System ι → Prop
  | command (s : System ι) (i : ι) (cmd : Command) : Step s (.command i cmd) (s.exec i cmd).2
  | scan (s : System ι) : Step s .scan { s with world := s.world.scan }
  | reorder (s : System ι) {db : Database} {pubsub : PubSubManager} (h : s.world.db.Reordered db)
      (hpubsub : s.world.pubsub.Reordered pubsub) :
      Step s (.reorder db pubsub) { s with world := { s.world with db := db, pubsub := pubsub } }

/-- The handler after one of its commands. -/
theorem handlers_exec_self (s : System ι) (i : ι) (cmd : Command) :
    (s.exec i cmd).2.handlers i = ((s.handlers i).execute cmd s.world).2.1 :=
  Function.update_self _ _ _

/-- The other handlers do not notice. -/
theorem handlers_exec_of_ne (s : System ι) {i j : ι} (hij : i ≠ j) (cmd : Command) :
    (s.exec j cmd).2.handlers i = s.handlers i :=
  Function.update_of_ne hij _ _

/-- The sockets do not change. -/
theorem Step.clientFd_eq {s s' : System ι} {e : Event ι} (h : Step s e s') (i : ι) :
    (s'.handlers i).clientFd = (s.handlers i).clientFd := by
  cases h with
  | command j cmd =>
    by_cases hij : i = j
    · subst hij
      rw [handlers_exec_self, CommandHandler.clientFd_execute]
    · rw [handlers_exec_of_ne s hij]
  | scan | reorder => rfl

/-- A step keeps the world valid. -/
theorem Step.valid {s s' : System ι} {e : Event ι} (h : Step s e s') (hs : s.world.Valid) :
    s'.world.Valid := by
  cases h with
  | command i cmd => exact CommandHandler.execute_valid hs
  | scan => exact ⟨Database.expiryScan_inv _ hs.db, hs.clock.tail⟩
  | reorder h => exact ⟨h.inv hs.db, hs.clock⟩

/-- In every run the world stays valid. -/
theorem valid_of_trace {s₀ s : System ι} {past : List (System ι × Event ι)}
    (htrace : Trace Step s₀ past s) (hs : s₀.world.Valid) : s.world.Valid :=
  htrace.invariant (I := fun _ s => s.world.Valid) hs fun _ _ _ _ hs hstep => hstep.valid hs

/-- No other handler has the socket of handler `i`. -/
def OnlyOne (s : System ι) (i : ι) : Prop :=
  ∀ j, j ≠ i → (s.handlers j).clientFd ≠ (s.handlers i).clientFd

/-- A step that is not a command of handler `i` does not subscribe its client. -/
theorem Step.isSubscribed_of_other {s s' : System ι} {e : Event ι} (h : Step s e s') {i : ι}
    (hi : s.OnlyOne i) (he : ∀ cmd, e ≠ .command i cmd)
    (hsub : (s'.handlers i).inSubscriptionMode s'.world = true) :
    (s.handlers i).inSubscriptionMode s.world = true := by
  unfold CommandHandler.inSubscriptionMode at hsub ⊢
  rw [h.clientFd_eq] at hsub
  cases h with
  | command j cmd =>
    have hji : j ≠ i := fun hji => he cmd (by rw [hji])
    exact CommandHandler.isSubscribed_of_execute (hi j hji).symm hsub
  | scan => exact hsub
  | reorder _ hpubsub => rwa [← hpubsub.isSubscribed_eq]

/-- A step that is not a command of handler `i` leaves this handler alone. -/
theorem Step.handlers_of_other {s s' : System ι} {e : Event ι} (h : Step s e s') {i : ι}
    (he : ∀ cmd, e ≠ .command i cmd) : s'.handlers i = s.handlers i := by
  cases h with
  | command j cmd =>
    have hij : i ≠ j := fun hij => he cmd (by rw [hij])
    exact handlers_exec_of_ne s hij cmd
  | scan | reorder => rfl

/-! ### Commands one after the other -/

/-- New handlers in a world in which nothing has happened. -/
def initial (fds : ι → Socket) : System ι where
  handlers := fun i => .new (fds i) none
  world := World.initial

/-- The steps of a sequence of commands. -/
def history (s : System ι) : List (ι × Command) → List (System ι × Event ι)
  | [] => []
  | c :: cs => (s, .command c.1 c.2) :: (s.exec c.1 c.2).2.history cs

/-- The system after a sequence of commands. -/
def after (s : System ι) : List (ι × Command) → System ι
  | [] => s
  | c :: cs => (s.exec c.1 c.2).2.after cs

/-- A sequence of commands is a run. -/
theorem trace_history (s : System ι) (cmds : List (ι × Command)) :
    Trace Step s (s.history cmds) (s.after cmds) := by
  induction cmds generalizing s with
  | nil => exact Trace.nil
  | cons c cs ih => exact Trace.cons (Step.command s c.1 c.2) (ih _)

/-- Two clients with different sockets. -/
def twoClients : System Bool := initial fun b => if b then 5 else 4

/-- Each client has its own socket. -/
theorem twoClients_onlyOne (i : Bool) : twoClients.OnlyOne i := by
  unfold OnlyOne twoClients initial CommandHandler.new
  revert i
  decide

end System

end MyRedis
