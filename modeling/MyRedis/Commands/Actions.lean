import MyRedis.Commands.Transactions
import MyRedis.Database.Readings
import MyRedis.PubSub.Index

/-!
# What commands do to the world

A single command performs a list of actions that is determined by the command alone
(`CommandHandler.allowed_executeSingle`), and these concern the subscriptions and the sockets only
if it is `SUBSCRIBE`, `UNSUBSCRIBE` or `PUBLISH` (`CommandHandler.offline_executeSingle`); the
bookkeeping of `WATCH` and `EXEC` only reads (`CommandHandler.readSteps_snapshotKeys`,
`CommandHandler.readSteps_watchCheck`).  Everything that is said later about the effects of commands
is derived from one lemma per action and one per read.
-/

namespace MyRedis

open Foundation

/-! ### The clock -/

/-- The readings of the clock do not decrease, neither within a call nor from call to call. -/
structure SteadyClock (clock : ℕ → ℕ → TimePoint) : Prop where
  /-- Within a call. -/
  within : ∀ i j, clock i j ≤ clock i (j + 1)
  /-- From call to call. -/
  across : ∀ i j, clock i j ≤ clock (i + 1) 0

namespace SteadyClock

variable {clock : ℕ → ℕ → TimePoint}

/-- The readings to come are steady, too. -/
theorem tail (h : SteadyClock clock) : SteadyClock fun i => clock (i + 1) :=
  ⟨fun i => h.within (i + 1), fun i => h.across (i + 1)⟩

end SteadyClock

/-- What holds of every world that occurs: the representation invariant of the database, and a
steady clock. -/
structure World.Valid (w : World) : Prop where
  /-- The database is in a valid state. -/
  db : w.db.Inv
  /-- The clock is steady. -/
  clock : SteadyClock w.clock

/-! ### Reading -/

/-- The world after `n` operations of the database that only read. -/
inductive ReadSteps (w : World) : ℕ → World → Prop
  | refl : ReadSteps w 0 w
  | call {n : ℕ} {w' : World} (h : ReadSteps w n w') (op : DbOp) (hop : op.IsRead) :
      ReadSteps w (n + 1) (w'.call op).2

namespace ReadSteps

variable {w w' w'' : World} {n m : ℕ}

/-- One operation. -/
theorem single (op : DbOp) (hop : op.IsRead) : ReadSteps w 1 (w.call op).2 := refl.call op hop

/-- Reading on. -/
theorem trans (h : ReadSteps w n w') (h' : ReadSteps w' m w'') : ReadSteps w (n + m) w'' := by
  induction h' with
  | refl => exact h
  | call _ op hop ih => exact ih.call op hop

/-- The clock moves on with every operation. -/
theorem clock_eq (h : ReadSteps w n w') : w'.clock = fun i => w.clock (n + i) := by
  induction h with
  | refl =>
    funext i
    rw [Nat.zero_add]
  | call _ op hop ih =>
    funext i
    rw [Nat.add_right_comm, Nat.add_assoc, ← congrFun ih (i + 1)]
    rfl

/-- Reading leaves the pub/sub manager and the sockets alone. -/
theorem frame (h : ReadSteps w n w') : w'.pubsub = w.pubsub ∧ w'.net = w.net := by
  induction h with
  | refl => exact ⟨rfl, rfl⟩
  | call _ op hop ih => exact ih

/-- An operation that only reads calls no push without a value. -/
theorem pushesSomething {op : DbOp} (hop : op.IsRead) : op.PushesSomething := by
  cases op <;> first | exact trivial | exact hop.elim

/-- Reading keeps the world valid. -/
theorem valid (h : ReadSteps w n w') (hw : w.Valid) : w'.Valid := by
  induction h with
  | refl => exact hw
  | call _ op hop ih => exact ⟨DbOp.run_inv (pushesSomething hop) _ ih.db, ih.clock.tail⟩

/-- The instant after `n` operations. -/
theorem now_eq (h : ReadSteps w n w') : w'.now = w.clock n 0 := by
  rw [World.now, h.clock_eq]
  rfl

/-- Reading does not change the live contents. -/
theorem live_eq (h : ReadSteps w n w') (hw : w.Valid) {t : TimePoint} (ht : w'.now ≤ t) :
    w'.db.live t = w.db.live t := by
  induction h with
  | refl => rfl
  | @call n w₁ h₁ op hop ih =>
    have hreading : ∀ j, w₁.clock 0 j ≤ t := fun j => ((h₁.valid hw).clock.across 0 j).trans ht
    rw [← ih (hreading 0)]
    exact DbOp.live_run_of_isRead hop hreading _

end ReadSteps

/-! ### Actions -/

/-- What a single command can do to the world. -/
inductive Action where
  /-- An operation of the database. -/
  | db (op : DbOp)
  /-- A look at the clock. -/
  | readClock
  /-- Saving the database. -/
  | save (filepath : Bytes)
  /-- Subscribing to channels. -/
  | subscribe (channels : List Bytes)
  /-- Giving up subscriptions. -/
  | unsubscribe (channels : List Bytes)
  /-- Sending a message. -/
  | publish (channel message : Bytes)

namespace Action

/-- The world after an action of the client `fd`. -/
def run (fd : Socket) (w : World) : Action → World
  | db op => (w.call op).2
  | readClock => w.tick
  | save filepath => (w.save filepath).2
  | subscribe channels => (w.subscribe fd channels).2
  | unsubscribe channels => (w.unsubscribe fd channels).2
  | publish channel message => (w.publish channel message).2

/-- A push has at least one value. -/
def Allowed : Action → Prop
  | db op => op.PushesSomething
  | _ => True

/-- An action that is allowed and concerns neither the subscriptions nor the sockets. -/
def Offline : Action → Prop
  | db op => op.PushesSomething
  | readClock | save _ => True
  | _ => False

/-- An action that concerns neither subscriptions nor sockets is allowed. -/
theorem Offline.allowed {a : Action} (h : a.Offline) : a.Allowed := by
  cases a with
  | db op => exact h
  | _ => trivial

/-- The world after several actions. -/
def runAll (fd : Socket) (actions : List Action) (w : World) : World :=
  actions.foldl (run fd) w

variable {fd : Socket} {w w' : World}

/-- An action keeps the world valid. -/
theorem run_valid {a : Action} (ha : a.Allowed) (hw : w.Valid) : (a.run fd w).Valid := by
  cases a with
  | db op => exact ⟨DbOp.run_inv ha _ hw.db, hw.clock.tail⟩
  | readClock | save => exact ⟨hw.db, hw.clock.tail⟩
  | subscribe | unsubscribe | publish => exact ⟨hw.db, hw.clock⟩

/-- Several actions keep the world valid. -/
theorem runAll_valid {actions : List Action} (ha : ∀ a ∈ actions, a.Allowed) (hw : w.Valid) :
    (runAll fd actions w).Valid := by
  refine List.foldlRecOn (motive := World.Valid) actions (run fd) hw ?_
  intro w' hw' a hmem
  exact run_valid (ha a hmem) hw'

/-- An action of one client subscribes no other client. -/
theorem isSubscribed_of_run {a : Action} {fd' : Socket} (hfd : fd' ≠ fd)
    (h : (a.run fd w).pubsub.isSubscribed fd' = true) : w.pubsub.isSubscribed fd' = true := by
  rw [PubSubManager.isSubscribed_iff] at h ⊢
  obtain ⟨c, hc⟩ := h
  refine ⟨c, ?_⟩
  cases a with
  | db | readClock | save => exact hc
  | subscribe channels =>
    rcases (PubSubManager.hasChannel_subscribe fd channels).mp hc with hbefore | ⟨heq, _⟩
    · exact hbefore
    · exact absurd heq hfd
  | unsubscribe channels => exact ((PubSubManager.hasChannel_unsubscribe fd channels).mp hc).1
  | publish channel message =>
    exact ((PubSubManager.hasChannel_publish channel message w.net).mp hc).1

/-- Several actions of one client subscribe no other client. -/
theorem isSubscribed_of_runAll {actions : List Action} {fd' : Socket} (hfd : fd' ≠ fd)
    (h : (runAll fd actions w).pubsub.isSubscribed fd' = true) :
    w.pubsub.isSubscribed fd' = true := by
  exact of_foldl (P := fun w' : World => w'.pubsub.isSubscribed fd' = true)
    (fun _ _ => isSubscribed_of_run hfd) actions h

/-- An action that does not concern the subscriptions and the sockets leaves them alone. -/
theorem Offline.run {a : Action} (h : a.Offline) (fd : Socket) (w : World) :
    (a.run fd w).pubsub = w.pubsub ∧ (a.run fd w).net = w.net := by
  cases a with
  | db | readClock | save => exact ⟨rfl, rfl⟩
  | subscribe | unsubscribe | publish => exact h.elim

/-- So do several. -/
theorem offline_runAll (fd : Socket) (w : World) {actions : List Action}
    (h : ∀ a ∈ actions, a.Offline) :
    (runAll fd actions w).pubsub = w.pubsub ∧ (runAll fd actions w).net = w.net := by
  refine List.foldlRecOn (motive := fun w' : World => w'.pubsub = w.pubsub ∧ w'.net = w.net) actions
    (run fd) ⟨rfl, rfl⟩ ?_
  intro w' hw' a hmem
  obtain ⟨hpubsub, hnet⟩ := (h a hmem).run fd w'
  exact ⟨hpubsub.trans hw'.1, hnet.trans hw'.2⟩

end Action

/-- A part of the code does to every world what a fixed list of actions of a certain kind does. -/
def ActsWith (P : Action → Prop) (fd : Socket) (f : World → World) : Prop :=
  ∃ actions : List Action, (∀ a ∈ actions, P a) ∧ ∀ w, f w = Action.runAll fd actions w

namespace ActsWith

variable {P : Action → Prop} {fd : Socket}

/-- Doing nothing. -/
theorem nothing : ActsWith P fd fun w => w := ⟨[], by simp, fun _ => rfl⟩

/-- One action. -/
theorem single {a : Action} (ha : P a) : ActsWith P fd fun w => a.run fd w :=
  ⟨[a], by simpa using ha, fun _ => rfl⟩

/-- One after the other. -/
theorem comp {f g : World → World} (hf : ActsWith P fd f) (hg : ActsWith P fd g) :
    ActsWith P fd fun w => g (f w) := by
  obtain ⟨actions, hallowed, hf⟩ := hf
  obtain ⟨actions', hallowed', hg⟩ := hg
  refine ⟨actions ++ actions', ?_, fun w => ?_⟩
  · intro a ha
    rcases List.mem_append.mp ha with ha | ha
    · exact hallowed a ha
    · exact hallowed' a ha
  · beta_reduce
    rw [hf, hg, Action.runAll, Action.runAll, Action.runAll, List.foldl_append]

/-- A choice that does not depend on the world. -/
theorem ite {c : Prop} [Decidable c] {f g : World → Bytes × World}
    (hf : c → ActsWith P fd fun w => (f w).2) (hg : ¬ c → ActsWith P fd fun w => (g w).2) :
    ActsWith P fd fun w => (if c then f w else g w).2 := by
  by_cases hc : c
  · simpa only [if_pos hc] using hf hc
  · simpa only [if_neg hc] using hg hc

/-- Actions that concern neither subscriptions nor sockets are allowed. -/
theorem allowed {f : World → World} (h : ActsWith Action.Offline fd f) :
    ActsWith Action.Allowed fd f := by
  obtain ⟨actions, hoffline, hf⟩ := h
  exact ⟨actions, fun a ha => (hoffline a ha).allowed, hf⟩

end ActsWith

/-! ### Single commands -/

namespace CommandHandler

variable (fd : Socket) (cmd : Command)

/-- An answer from one operation. -/
theorem offline_reply {op : DbOp} (hop : op.PushesSomething) (text : DbResult → Bytes) :
    ActsWith Action.Offline fd fun w => (reply op text w).2 :=
  ActsWith.single (a := .db op) hop

theorem offline_handlePing : ActsWith Action.Offline fd fun w => (handlePing cmd w).2 := by
  unfold handlePing
  split <;> exact ActsWith.nothing

theorem offline_handleSetOption (key : Bytes) (options : List Bytes) :
    ActsWith Action.Offline fd fun w => (handleSetOption key options w).2 := by
  unfold handleSetOption
  split
  · split_ifs
    · split
      · exact ActsWith.nothing
      · split_ifs
        · exact ActsWith.nothing
        · exact offline_reply fd (by trivial) _
    · exact ActsWith.nothing
  · exact ActsWith.nothing

theorem offline_handleSet : ActsWith Action.Offline fd fun w => (handleSet cmd w).2 := by
  unfold handleSet
  split
  · rename_i key value options _
    exact (ActsWith.single (a := .db (.set key value)) trivial).comp
      (offline_handleSetOption fd key options)
  · exact ActsWith.nothing

theorem offline_handleKey (name : String) (op : Bytes → DbOp)
    (hop : ∀ key, (op key).PushesSomething) (text : DbResult → Bytes) :
    ActsWith Action.Offline fd fun w => (handleKey name op text cmd w).2 := by
  unfold handleKey
  split
  · exact offline_reply fd (hop _) text
  · exact ActsWith.nothing

theorem offline_handleKeyList (name : String) {op : List Bytes → DbOp}
    (hop : ∀ keys, (op keys).PushesSomething) :
    ActsWith Action.Offline fd fun w => (handleKeyList name op cmd w).2 := by
  unfold handleKeyList
  split_ifs
  · exact ActsWith.nothing
  · exact offline_reply fd (hop _) _

theorem offline_handleExpire : ActsWith Action.Offline fd fun w => (handleExpire cmd w).2 := by
  unfold handleExpire
  split
  · split
    · exact ActsWith.nothing
    · split_ifs
      · exact ActsWith.nothing
      · exact offline_reply fd (by trivial) _
  · exact ActsWith.nothing

theorem offline_handlePush (name : String) {op : Bytes → List Bytes → DbOp}
    (hop : ∀ key values, values ≠ [] → (op key values).PushesSomething) :
    ActsWith Action.Offline fd fun w => (handlePush name op cmd w).2 := by
  unfold handlePush
  split
  · exact offline_reply fd (hop _ _ (List.cons_ne_nil _ _)) _
  · exact ActsWith.nothing

theorem offline_handleLrange : ActsWith Action.Offline fd fun w => (handleLrange cmd w).2 := by
  unfold handleLrange
  split
  · split
    · exact offline_reply fd (by trivial) _
    · exact ActsWith.nothing
  · exact ActsWith.nothing

theorem offline_handleLindex : ActsWith Action.Offline fd fun w => (handleLindex cmd w).2 := by
  unfold handleLindex
  split
  · split
    · exact ActsWith.nothing
    · exact offline_reply fd (by trivial) _
  · exact ActsWith.nothing

variable (h : CommandHandler)

theorem offline_handleInfo : ActsWith Action.Offline fd fun w => (h.handleInfo cmd w).2 := by
  unfold handleInfo
  split
  · exact ActsWith.single (a := .db .dbsize) trivial
  · exact (ActsWith.single (a := .readClock) trivial).comp
      (ActsWith.single (a := .db .dbsize) trivial)

/-- The commands that concern the subscriptions. -/
def pubsubNames : List Bytes := [ascii "SUBSCRIBE", ascii "UNSUBSCRIBE", ascii "PUBLISH"]

/-- The other commands concern neither the subscriptions nor the sockets. -/
theorem offline_executeSingle (hname : cmd.name ∉ pubsubNames) :
    ActsWith Action.Offline h.clientFd fun w => (h.executeSingle cmd w).2 := by
  simp only [pubsubNames, List.mem_cons, List.not_mem_nil, or_false, not_or] at hname
  obtain ⟨hsubscribe, hunsubscribe, hpublish⟩ := hname
  have hdispatch := h.dispatches cmd
  generalize h.executeSingle cmd = run at hdispatch ⊢
  cases hdispatch with
  | ping => exact offline_handlePing _ cmd
  | set => exact offline_handleSet _ cmd
  | get => exact offline_handleKey _ cmd "GET" .get (fun _ => trivial) _
  | del | existing => exact offline_handleKeyList _ cmd _ fun _ => trivial
  | keys | dbsize | flushdb => exact offline_reply _ (by trivial) _
  | expire => exact offline_handleExpire _ cmd
  | ttl => exact offline_handleKey _ cmd "TTL" .ttl (fun _ => trivial) _
  | persist => exact offline_handleKey _ cmd "PERSIST" .persist (fun _ => trivial) _
  | save => exact ActsWith.single (a := .save _) trivial
  | lpush | rpush => exact offline_handlePush _ cmd _ fun _ _ hne => hne
  | lpop => exact offline_handleKey _ cmd "LPOP" .lpop (fun _ => trivial) _
  | rpop => exact offline_handleKey _ cmd "RPOP" .rpop (fun _ => trivial) _
  | lrange => exact offline_handleLrange _ cmd
  | llen => exact offline_handleKey _ cmd "LLEN" .llen (fun _ => trivial) _
  | lindex => exact offline_handleLindex _ cmd
  | subscribe hname => exact absurd hname hsubscribe
  | unsubscribe hname => exact absurd hname hunsubscribe
  | publish hname => exact absurd hname hpublish
  | config | unknown => exact ActsWith.nothing
  | info => exact offline_handleInfo _ cmd h

section Names

variable {cmd}

theorem executeSingle_subscribe (hname : cmd.name = ascii "SUBSCRIBE") (w : World) :
    h.executeSingle cmd w = h.handleSubscribe cmd w := by
  unfold executeSingle
  rw [hname]
  rfl

theorem executeSingle_unsubscribe (hname : cmd.name = ascii "UNSUBSCRIBE") (w : World) :
    h.executeSingle cmd w = h.handleUnsubscribe cmd w := by
  unfold executeSingle
  rw [hname]
  rfl

theorem executeSingle_publish (hname : cmd.name = ascii "PUBLISH") (w : World) :
    h.executeSingle cmd w = handlePublish cmd w := by
  unfold executeSingle
  rw [hname]
  rfl

end Names

/-- A single command performs actions that depend on the command only. -/
theorem allowed_executeSingle :
    ActsWith Action.Allowed h.clientFd fun w => (h.executeSingle cmd w).2 := by
  by_cases hname : cmd.name ∈ pubsubNames
  · simp only [pubsubNames, List.mem_cons, List.not_mem_nil, or_false] at hname
    rcases hname with hname | hname | hname
    · simp only [executeSingle_subscribe h hname, handleSubscribe]
      exact ActsWith.ite (fun _ => ActsWith.nothing)
        fun _ => ActsWith.single (a := .subscribe cmd.args) trivial
    · simp only [executeSingle_unsubscribe h hname]
      exact ActsWith.single (a := .unsubscribe cmd.args) trivial
    · simp only [executeSingle_publish h hname]
      unfold handlePublish
      split
      · exact ActsWith.single (a := .publish _ _) trivial
      · exact ActsWith.nothing
  · exact (offline_executeSingle cmd h hname).allowed

/-- So do several commands. -/
theorem allowed_executeAll (cmds : List Command) :
    ActsWith Action.Allowed h.clientFd fun w => (h.executeAll cmds w).2 := by
  induction cmds with
  | nil => exact ActsWith.nothing
  | cons cmd cmds ih => exact (allowed_executeSingle cmd h).comp ih

/-! ### Watching -/

/-- Looking at a key for `WATCH` only reads: once, if it finds a string, and twice otherwise. -/
theorem readSteps_snapshotKey (key : Bytes) (w : World) :
    ReadSteps w (if (w.call (.get key)).1.optional.isSome then 1 else 2) (snapshotKey key w).2 := by
  have hget : ReadSteps w 1 (w.call (.get key)).2 := ReadSteps.single _ trivial
  have hllen : ReadSteps w 2 ((w.call (.get key)).2.call (.llen key)).2 := hget.call _ trivial
  unfold snapshotKey
  cases hval : (w.call (.get key)).1.optional with
  | some value => simpa only [hval, Option.isSome_some, if_true] using hget
  | none =>
    simp only [hval, Option.isSome_none, Bool.false_eq_true, if_false]
    split
    · exact hllen
    · exact hllen

/-- `WATCH` only reads. -/
theorem readSteps_snapshotKeys (keys : List Bytes) (w : World) :
    ∃ n, ReadSteps w n (snapshotKeys keys w).2 := by
  induction keys generalizing w with
  | nil => exact ⟨0, ReadSteps.refl⟩
  | cons key keys ih =>
    obtain ⟨n, hn⟩ := ih (snapshotKey key w).2
    exact ⟨_, (readSteps_snapshotKey key w).trans hn⟩

/-- Looking at a key for `EXEC` only reads. -/
theorem readSteps_keyModified (snap : WatchedKeySnapshot) (w : World) :
    ∃ n, ReadSteps w n (keyModified snap w).2 := by
  have hget : ReadSteps w 1 (w.call (.get snap.key)).2 := ReadSteps.single _ trivial
  have hllen : ReadSteps w 2 ((w.call (.get snap.key)).2.call (.llen snap.key)).2 :=
    hget.call _ trivial
  unfold keyModified
  simp only
  split
  · split
    · exact ⟨1, hget⟩
    · split
      · exact ⟨2, hllen⟩
      · exact ⟨1, hget⟩
  · split
    · exact ⟨1, hget⟩
    · exact ⟨2, hllen⟩

/-- `watched_keys_modified` only reads. -/
theorem readSteps_watchedKeysModified (snaps : List WatchedKeySnapshot) (w : World) :
    ∃ n, ReadSteps w n (watchedKeysModified snaps w).2 := by
  induction snaps generalizing w with
  | nil => exact ⟨0, ReadSteps.refl⟩
  | cons snap snaps ih =>
    obtain ⟨n, hn⟩ := readSteps_keyModified snap w
    rw [watchedKeysModified]
    split_ifs
    · exact ⟨n, hn⟩
    · obtain ⟨m, hm⟩ := ih (keyModified snap w).2
      exact ⟨n + m, hn.trans hm⟩

/-- The check of `EXEC` only reads. -/
theorem readSteps_watchCheck (w : World) : ∃ n, ReadSteps w n (h.watchCheck w).2 := by
  unfold watchCheck
  split_ifs
  · exact ⟨0, ReadSteps.refl⟩
  · exact readSteps_watchedKeysModified _ _

end CommandHandler

end MyRedis
