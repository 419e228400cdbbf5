import MyRedis.Foundation.Simulation
import MyRedis.Server.Connections
import MyRedis.Server.Service

/-!
# The server refines the service

A world shows what a service knows if its database refines the store and its subscriptions are the
relation between clients and channels; a server shows a service if its world does and its table of
clients has the connected and the admitted ones.  Each operation of the server keeps this relation:
plans are carried out as the service carries them out, and scans of the expiry thread, changes of
the iteration orders, read buffers and decisions to close a connection are not noticed.

`Server.Running.simulation` puts this together, and `server_refines_service` is the resulting
statement about whole runs.
-/

namespace MyRedis

open Foundation Resp PubSubManager

/-! ### Worlds that show a service -/

/-- A world shows what a service knows: the database refines the store and the subscriptions are the
relation.  The clock is steady and does not move within a call. -/
structure World.Shows (w : World) (a : Service) : Prop where
  /-- The database. -/
  db : Refines w.now w.db a.store
  /-- The clock. -/
  clock : SteadyClock w.clock
  /-- All readings of a call are the same. -/
  instant : ∀ i j, w.clock i j = w.clock i 0
  /-- What was done so far is not later than the next call. -/
  now : a.now ≤ w.now
  /-- The two indices of the subscriptions agree. -/
  indexed : w.pubsub.Indexed
  /-- The subscriptions. -/
  subs : w.pubsub.subscriptions = a.subs

namespace World.Shows

variable {w : World} {a : Service}

/-- The connections are not part of the world. -/
theorem withClients (h : w.Shows a) (clients : Finset Socket) (admitted : Set Socket) :
    w.Shows { a with clients := clients, admitted := admitted } :=
  ⟨h.db, h.clock, h.instant, h.now, h.indexed, h.subs⟩

/-- The time passes. -/
theorem tick (h : w.Shows a) : w.tick.Shows a where
  db := h.db.later (h.clock.across 0 0)
  clock := h.clock.tail
  instant i := h.instant (i + 1)
  now := h.now.trans (h.clock.across 0 0)
  indexed := h.indexed
  subs := h.subs

/-- The service may know the time better. -/
theorem atNow (h : w.Shows a) : w.tick.Shows { a with now := w.now } where
  db := h.tick.db
  clock := h.tick.clock
  instant := h.tick.instant
  now := h.clock.across 0 0
  indexed := h.indexed
  subs := h.subs

/-- An operation of the database: within the range of an `int` its result meets the specification of
the store, and afterwards the world shows the store after the operation. -/
theorem call (h : w.Shows a) {op : DbOp} (hop : op.PushesSomething) :
    (a.store.Fits w.now op → (w.call op).1.Meets (TimedStore.apply w.now a.store op).1) ∧
      (w.call op).2.Shows (a.carryOut w.now op) := by
  have hclock : w.clock 0 = fun _ => w.now := funext (h.instant 0)
  have hmeets := run_meets h.db.1 h.db.2 (o := op)
  have hrefines := h.db.op hop
  rw [← hclock] at hmeets hrefines
  refine ⟨hmeets, ?_⟩
  exact ⟨hrefines.later (h.clock.across 0 0), h.clock.tail,
    fun i => h.instant (i + 1), h.clock.across 0 0, h.indexed, h.subs⟩

/-- Reading changes nothing that can be seen. -/
theorem read (h : w.Shows a) {n : ℕ} {w' : World} (hread : ReadSteps w n w') : w'.Shows a := by
  induction hread with
  | refl => exact h
  | @call n w₁ hbefore op hop ih =>
    have hcall := (ih.call (ReadSteps.pushesSomething hop)).2
    refine ⟨⟨hcall.db.1, ?_⟩, hcall.clock, hcall.instant, ?_, hcall.indexed, hcall.subs⟩
    · rw [(ReadSteps.single op hop).live_eq ⟨ih.db.1, ih.clock⟩ le_rfl]
      exact (ih.db.later (ih.clock.across 0 0)).2
    · exact ih.now.trans (ih.clock.across 0 0)

/-- Saving changes nothing that can be seen. -/
theorem save (h : w.Shows a) (filepath : Bytes) : (w.save filepath).2.Shows a :=
  ⟨h.tick.db, h.tick.clock, h.tick.instant, h.tick.now, h.indexed, h.subs⟩

/-- An active-expiry scan changes nothing that can be seen. -/
theorem scan (h : w.Shows a) : w.scan.Shows a := by
  exact ⟨h.db.scan.later (h.clock.across 0 0), h.tick.clock, h.tick.instant, h.tick.now, h.indexed,
    h.subs⟩

/-- Neither does a change of the iteration orders. -/
theorem reorder (h : w.Shows a) {db : Database} (hre : w.db.Reordered db)
    {pubsub : PubSubManager} (hpubsub : w.pubsub.Reordered pubsub) :
    World.Shows { w with db := db, pubsub := pubsub } a :=
  ⟨h.db.reorder hre, h.clock, h.instant, h.now, h.indexed.reordered hpubsub,
    hpubsub.subscriptions_eq.trans h.subs⟩

/-- The subscriptions after a call of the pub/sub manager. -/
theorem sockets (h : w.Shows a) {p : PubSubManager} (hindexed : p.Indexed) (net : Network)
    {subs : Set (Socket × Bytes)} (hsubs : p.subscriptions = subs) :
    World.Shows { w with pubsub := p, net := net } { a with subs := subs } :=
  ⟨h.db, h.clock, h.instant, h.now, hindexed, hsubs⟩

end World.Shows

/-! ### Plans -/

/-- The connections are the same. -/
def Service.SameClients (a a' : Service) : Prop :=
  a'.clients = a.clients ∧ a'.admitted = a.admitted

/-- A query is answered as the service answers it. -/
theorem Query.answers {w : World} {a : Service} (h : w.Shows a) {q : Query} (hq : q.Allowed) :
    ∃ a', Service.Answers a q (q.run w).1 a' ∧ (q.run w).2.Shows a' ∧ a.SameClients a' := by
  induction q generalizing w a with
  | say text => exact ⟨a, .say a text, h, rfl, rfl⟩
  | ask op text =>
    obtain ⟨hmeets, hshows⟩ := h.call hq
    exact ⟨_, .ask text h.now hmeets, hshows, rfl, rfl⟩
  | first op next ih =>
    obtain ⟨a', hanswers, hshows, hclients⟩ := ih (h.call hq.1).2 hq.2
    exact ⟨a', .first h.now hanswers, hshows, hclients⟩
  | readClock next ih =>
    obtain ⟨a', hanswers, hshows, hclients⟩ := ih w.now h.atNow (hq w.now)
    exact ⟨a', .readClock h.now hanswers, hshows, hclients⟩

namespace PubSubManager

/-- The number of channels is read off the relation. -/
theorem subCount_eq_channelCount (p : PubSubManager) (fd : Socket) :
    p.subCount fd = Service.channelCount fd p.subscriptions := p.subCount_eq fd

theorem subscriptions_addSubscription (p : PubSubManager) (fd : Socket) (channel : Bytes) :
    (addSubscription fd p channel).subscriptions = Service.listen fd p.subscriptions channel := by
  ext ⟨fd', c⟩
  simp [Service.listen, hasChannel_addSubscription, or_comm]

theorem subscriptions_takeSubscription (p : PubSubManager) (fd : Socket) (channel : Bytes) :
    (takeSubscription fd p channel).subscriptions =
      Service.unlisten fd p.subscriptions channel := by
  ext ⟨fd', c⟩
  simp [Service.unlisten, hasChannel_takeSubscription]

/-- A loop over channels, seen on the relation. -/
theorem counted_foldl {next : PubSubManager → Bytes → PubSubManager}
    {change : Set (Socket × Bytes) → Bytes → Set (Socket × Bytes)} (fd : Socket)
    (hnext : ∀ p c, (next p c).subscriptions = change p.subscriptions c) (channels : List Bytes)
    (p : PubSubManager) :
    (channels.foldl (collectStep next fun c p => (c, p.subCount fd)) ([], p)).1 =
        Service.counted change fd channels p.subscriptions ∧
      (channels.foldl next p).subscriptions = channels.foldl change p.subscriptions := by
  refine foldl_collectStep_related (R := fun (p : PubSubManager) subs => p.subscriptions = subs)
    ?_ ?_ channels [] rfl
  · rintro q _ c rfl
    exact hnext q c
  · rintro q _ c rfl
    rw [subCount_eq_channelCount]

/-- `subscribe` is what the service does. -/
theorem subscribe_eq_counted (p : PubSubManager) (fd : Socket) (channels : List Bytes) :
    (p.subscribe fd channels).1 =
        Service.counted (Service.listen fd) fd channels p.subscriptions ∧
      (p.subscribe fd channels).2.subscriptions =
        channels.foldl (Service.listen fd) p.subscriptions := by
  rw [subscribe_snd, subscribe_eq]
  exact counted_foldl fd (fun p c => p.subscriptions_addSubscription fd c) channels p

/-- `unsubscribe` is what the service does, if there is something to do. -/
theorem unsubscribe_eq_counted {p : PubSubManager} {fd : Socket} {channels : List Bytes}
    (hne : p.toUnsub fd channels ≠ []) :
    (p.unsubscribe fd channels).1 =
        Service.counted (Service.unlisten fd) fd (p.toUnsub fd channels) p.subscriptions ∧
      (p.unsubscribe fd channels).2.subscriptions =
        (p.toUnsub fd channels).foldl (Service.unlisten fd) p.subscriptions := by
  obtain ⟨hcounts, hsubs⟩ := counted_foldl fd
    (fun p c => p.subscriptions_takeSubscription fd c) (p.toUnsub fd channels) p
  rw [unsubscribe_snd hne, unsubscribe_eq hne]
  refine ⟨hcounts, ?_⟩
  rw [← hsubs]
  ext ⟨fd', c⟩
  exact hasChannel_eraseEmptyClient

/-- `publish` takes out of the relation whom it could not reach. -/
theorem subscriptions_publish (channel message : Bytes) (p : PubSubManager) (net : Network) :
    (p.publish channel message net).2.1.subscriptions = {x ∈ p.subscriptions |
      ¬ (x.2 = channel ∧
        ∃ y ∈ p.publishSends channel message net, y.socket = x.1 ∧ y.whole = false)} := by
  ext ⟨fd, c⟩
  rw [mem_subscriptions, hasChannel_publish, mem_deadSockets]
  rfl

end PubSubManager

/-- A plan is carried out as the service carries it out. -/
theorem Plan.carriesOut {w : World} {a : Service} (h : w.Shows a) (fd : Socket) {plan : Plan}
    (hplan : plan.Allowed) :
    ∃ a', Service.CarriesOut fd a plan (plan.run fd w).1 (callSends w.sockets (plan.call fd)) a' ∧
      (plan.run fd w).2.Shows a' ∧ a.SameClients a' := by
  cases plan with
  | query q =>
    obtain ⟨a', hanswers, hshows, hclients⟩ := Query.answers h hplan
    exact ⟨a', .query hanswers, hshows, hclients⟩
  | save filepath text => exact ⟨a, .save a filepath text _, h.save filepath, rfl, rfl⟩
  | subscribe channels =>
    obtain ⟨hcounts, hsubs⟩ := w.pubsub.subscribe_eq_counted fd channels
    rw [h.subs] at hcounts hsubs
    refine ⟨_, ?_, h.sockets (h.indexed.subscribe fd channels) w.net hsubs, rfl, rfl⟩
    have hcarries : Service.CarriesOut fd a (.subscribe channels) _ _ _ := .subscribe a channels
    rwa [← hcounts] at hcarries
  | unsubscribe channels =>
    by_cases hnil : w.pubsub.toUnsub fd channels = []
    · obtain ⟨rfl, hnone⟩ := toUnsub_eq_nil fd hnil
      have hrun : w.pubsub.unsubscribe fd [] = ([(ascii "*", 0)], w.pubsub) := by
        rw [PubSubManager.unsubscribe, if_pos hnil]
      refine ⟨a, ?_, ?_, rfl, rfl⟩
      · simp only [Plan.run, World.unsubscribe, hrun]
        refine .unsubscribeNone ?_
        rw [← h.subs]
        exact hnone
      · simp only [Plan.run, World.unsubscribe, hrun]
        exact h
    · obtain ⟨hcounts, hsubs⟩ := unsubscribe_eq_counted hnil
      obtain ⟨hgiven, hall⟩ := w.pubsub.toUnsub_spec fd channels
      rw [h.subs] at hcounts hsubs
      have hall' : channels = [] → (w.pubsub.toUnsub fd channels).Nodup ∧
          ∀ c, c ∈ w.pubsub.toUnsub fd channels ↔ (fd, c) ∈ a.subs := by
        rw [← h.subs]
        exact hall
      refine ⟨_, ?_, h.sockets (h.indexed.unsubscribe fd channels) w.net hsubs, rfl, rfl⟩
      have hcarries : Service.CarriesOut fd a (.unsubscribe channels) _ _ _ :=
        .unsubscribe hnil hgiven hall'
      rwa [← hcounts] at hcarries
  | publish channel message =>
    have hsubs := subscriptions_publish channel message w.pubsub w.net
    rw [h.subs] at hsubs
    have hsockets : ∀ fd', fd' ∈ (w.pubsub.publishSends channel message w.net).map Send.socket ↔
        (fd', channel) ∈ a.subs := by
      intro fd'
      rw [mem_socket_publishSends, h.indexed.agree, ← h.subs]
      rfl
    refine ⟨_, ?_, h.sockets (h.indexed.publish channel message w.net) _ hsubs, rfl, rfl⟩
    have hcarries : Service.CarriesOut fd a (.publish channel message) _ _ _ :=
      .publish (nodup_socket_publishSends channel message w.pubsub w.net) hsockets
        fun x hx => data_publishSends channel message w.pubsub w.net hx
    rwa [← publish_fst] at hcarries

/-! ### Servers -/

namespace Server

/-- A server shows what a service knows. -/
structure Shows (password : Bytes) (startTime : TimePoint) (s : Server) (a : Service) : Prop where
  /-- The database, the subscriptions and the clock. -/
  world : s.world.Shows a
  /-- The password. -/
  password_eq : s.password = password
  /-- The instant at which the server was started. -/
  startTime_eq : s.startTime = startTime
  /-- The clients. -/
  clients : ∀ fd, fd ∈ a.clients ↔ fd ∈ s.clients
  /-- The clients that have given the password. -/
  admitted : ∀ fd, fd ∈ a.admitted ↔ (s.client fd).authenticated = true

namespace Shows

variable {password : Bytes} {startTime : TimePoint} {s : Server} {a : Service}

/-- The number of clients that `INFO` tells. -/
theorem card_clients (h : Shows password startTime s a) :
    s.clients.entries.length = a.clients.card := by
  have heq : a.clients = s.clients.keys.toFinset := by
    ext fd
    rw [h.clients, List.mem_toFinset]
    rfl
  rw [heq, List.toFinset_card_of_nodup s.clients.keys_nodup]
  exact (List.length_map _).symm

/-- The gate is the same. -/
theorem gated_iff (h : Shows password startTime s a) (fd : Socket) :
    s.gated fd = true ↔ Service.Gated password a fd := by
  unfold gated Service.Gated
  rw [h.admitted, h.password_eq]
  simp

/-- So is the restriction of subscribed clients. -/
theorem isSubscribed_iff (h : Shows password startTime s a) (fd : Socket) :
    s.world.pubsub.isSubscribed fd = true ↔ ∃ c, (fd, c) ∈ a.subs := by
  rw [PubSubManager.isSubscribed_iff, ← h.world.subs]
  rfl

/-- What is sent to a client is not part of what the service knows. -/
theorem send (h : Shows password startTime s a) (fd : Socket) (data : Bytes) :
    Shows password startTime (s.send fd data).2 a :=
  ⟨⟨h.world.db, h.world.clock, h.world.instant, h.world.now, h.world.indexed, h.world.subs⟩,
    h.password_eq, h.startTime_eq, h.clients, h.admitted⟩

/-- A world for another one. -/
theorem setWorld (h : Shows password startTime s a) {w : World} {a' : Service} (hw : w.Shows a')
    (hclients : a.SameClients a') : Shows password startTime { s with world := w } a' where
  world := hw
  password_eq := h.password_eq
  startTime_eq := h.startTime_eq
  clients := by
    rw [hclients.1]
    exact h.clients
  admitted := by
    rw [hclients.2]
    exact h.admitted

/-- The read buffers are not part of what the service knows. -/
theorem setBuffer (h : Shows password startTime s a) {fd : Socket} (hfd : fd ∈ s.clients)
    (readBuffer : Bytes) :
    Shows password startTime (s.setClient fd { s.client fd with readBuffer := readBuffer }) a where
  world := h.world
  password_eq := h.password_eq
  startTime_eq := h.startTime_eq
  clients fd' := by
    rw [h.clients, setClient, AList.mem_insert, iff_or_self]
    rintro rfl
    exact hfd
  admitted fd' := by
    rw [h.admitted]
    by_cases hne : fd' = fd
    · subst hne
      rw [client_setClient_self]
    · rw [client_setClient_of_ne s hne]

/-- A client connects. -/
theorem accept (h : Shows password startTime s a) (fd : Socket) :
    Shows password startTime (s.acceptClient fd)
      { a with clients := insert fd a.clients, admitted := a.admitted \ {fd} } where
  world := h.world.withClients _ _
  password_eq := h.password_eq
  startTime_eq := h.startTime_eq
  clients fd' := by
    rw [Finset.mem_insert, h.clients, acceptClient, setClient, AList.mem_insert]
  admitted fd' := by
    rw [Set.mem_sdiff, h.admitted, Set.mem_singleton_iff, acceptClient]
    by_cases hne : fd' = fd
    · subst hne
      simp [ClientState.new]
    · rw [client_setClient_of_ne s hne]
      exact and_iff_left hne

/-- A client is disconnected. -/
theorem disconnect (h : Shows password startTime s a) (fd : Socket) :
    Shows password startTime (s.disconnectClient fd)
      { a with clients := a.clients.erase fd, admitted := a.admitted \ {fd},
               subs := {x ∈ a.subs | x.1 ≠ fd} } where
  world := by
    have hsubs : (s.world.pubsub.clientDisconnected fd).subscriptions =
        {x ∈ a.subs | x.1 ≠ fd} := by
      ext ⟨fd', c⟩
      rw [← h.world.subs]
      exact hasChannel_clientDisconnected fd
    exact (h.world.sockets (h.world.indexed.clientDisconnected fd) s.world.net
      hsubs).withClients _ _
  password_eq := h.password_eq
  startTime_eq := h.startTime_eq
  clients fd' := by
    rw [Finset.mem_erase, h.clients, disconnectClient, AList.mem_erase]
  admitted fd' := by
    rw [Set.mem_sdiff, h.admitted, Set.mem_singleton_iff]
    by_cases hne : fd' = fd
    · subst hne
      rw [client_disconnectClient_self]
      simp [ClientState.new]
    · rw [client_disconnectClient_of_ne s hne]
      exact and_iff_left hne

/-- A client gives the password. -/
theorem authenticate (h : Shows password startTime s a) {fd : Socket} (hfd : fd ∈ s.clients) :
    Shows password startTime (s.setClient fd { s.client fd with authenticated := true })
      { a with admitted := insert fd a.admitted } where
  world := h.world.withClients _ _
  password_eq := h.password_eq
  startTime_eq := h.startTime_eq
  clients fd' := by
    rw [h.clients, setClient, AList.mem_insert, iff_or_self]
    rintro rfl
    exact hfd
  admitted fd' := by
    rw [Set.mem_insert_iff, h.admitted]
    by_cases hne : fd' = fd
    · subst hne
      simp
    · rw [client_setClient_of_ne s hne]
      exact or_iff_right hne

end Shows

/-! ### The simulation -/

namespace Shows

variable {password : Bytes} {startTime : TimePoint} {s : Server} {a : Service} {fd : Socket}

/-- A command that is served: what the handler does is a step of the service. -/
theorem execute (h : Shows password startTime s a) (hfd : fd ∈ s.clients)
    (hserved : s.gated fd = false) (cmd : Command) :
    ∃ a', Service.Step password startTime a
        (.answer fd cmd ((s.handler fd).execute cmd s.world).1
          (callSends s.world.sockets (s.commandCall fd cmd))) a' ∧
      Shows password startTime
        { s with world := ((s.handler fd).execute cmd s.world).2.2 } a' := by
  have hclient : fd ∈ a.clients := (h.clients fd).mpr hfd
  have hopen : ¬ Service.Gated password a fd := by
    rw [← h.gated_iff, hserved]
    exact Bool.false_ne_true
  have hcall : s.commandCall fd cmd =
      CommandHandler.pubsubCall fd (s.world.pubsub.isSubscribed fd) cmd := by
    rw [commandCall, hserved, if_neg Bool.false_ne_true]
  by_cases hrestricted : a.Restricted fd cmd
  · have hsub : s.world.pubsub.isSubscribed fd = true := (h.isSubscribed_iff fd).mpr hrestricted.1
    have hexec : (s.handler fd).execute cmd s.world =
        (CommandHandler.subscriptionError cmd.name, s.handler fd, s.world) := by
      have hmode : (s.handler fd).inSubscriptionMode s.world = true := hsub
      rw [CommandHandler.execute, hmode, hrestricted.2]
      rfl
    have hnone : CommandHandler.pubsubCall fd (s.world.pubsub.isSubscribed fd) cmd = none := by
      rw [CommandHandler.pubsubCall, hsub, hrestricted.2]
      rfl
    rw [hexec, hcall, hnone]
    exact ⟨a, .restrict hclient hopen hrestricted, h⟩
  · -- what is left of the guards: a transactional command, or one that is executed at once
    have hsilent {name : Bytes} (hname : cmd.name = name)
        (hnot : name ∉ CommandHandler.pubsubNames) :
        callSends s.world.sockets (s.commandCall fd cmd) = [] := by
      rw [hcall, CommandHandler.pubsubCall_of_notMem (hname ▸ hnot)]
      rfl
    have htransaction {name text : Bytes} {w : World} (hname : cmd.name = name)
        (htrans : CommandHandler.isTransactional name = true)
        (hnot : name ∉ CommandHandler.pubsubNames) (htext : Service.transactionText cmd = text)
        (hw : w.Shows a) :
        ∃ a', Service.Step password startTime a
            (.answer fd cmd text (callSends s.world.sockets (s.commandCall fd cmd))) a' ∧
          Shows password startTime { s with world := w } a' := by
      rw [hsilent hname hnot, ← htext]
      exact ⟨a, .transaction hclient hopen hrestricted (hname ▸ htrans),
        h.setWorld hw ⟨rfl, rfl⟩⟩
    have hexec := (s.handler fd).executes cmd s.world
    generalize (s.handler fd).execute cmd s.world = result at hexec ⊢
    cases hexec with
    | rejected hsub hname =>
      exact absurd ⟨(h.isSubscribed_iff fd).mp hsub, hname⟩ hrestricted
    | multi hname =>
      refine htransaction hname (by decide) (by decide) ?_ h.world
      rw [Service.transactionText, if_pos hname]
    | execWithout hname =>
      refine htransaction hname (by decide) (by decide) ?_ h.world
      rw [Service.transactionText, hname]
      rfl
    | discardWithout hname =>
      refine htransaction hname (by decide) (by decide) ?_ h.world
      rw [Service.transactionText, hname]
      rfl
    | watchNothing hname hargs =>
      refine htransaction hname (by decide) (by decide) ?_ h.world
      rw [Service.transactionText, hname, hargs]
      rfl
    | watch hname _ hargs =>
      obtain ⟨n, hread⟩ := CommandHandler.readSteps_snapshotKeys cmd.args s.world
      refine htransaction hname (by decide) (by decide) ?_ (h.world.read hread)
      rw [Service.transactionText, hname, if_neg (by decide), if_neg (by decide),
        if_neg (by decide), if_neg hargs]
    | single hname _ hgate =>
      obtain ⟨a', hplan, hshows, hclients⟩ := Plan.carriesOut h.world fd
        (Plan.allowed_ofCommand (s.handler fd).server cmd)
      have hserver : (s.handler fd).server = some ⟨startTime, a.clients.card⟩ := by
        rw [← h.card_clients, ← h.startTime_eq]
        rfl
      have hmode : s.world.pubsub.isSubscribed fd = false ∨
          CommandHandler.allowedSubscribed cmd.name = true := hgate
      rw [hcall, Plan.call_ofCommand (s.handler fd).server fd hmode,
        CommandHandler.executeSingle_eq_run]
      rw [hserver] at hplan hshows ⊢
      exact ⟨a', .command hclient hopen hrestricted hname hplan, h.setWorld hshows hclients⟩
    | multiNested _ hmulti | execAborted _ _ hmulti | exec _ _ hmulti | discard _ hmulti
    | watchNested _ hmulti | queue _ hmulti => exact absurd hmulti Bool.false_ne_true

/-- The answer to a command of a client is a step of the service. -/
theorem respond (h : Shows password startTime s a) (hfd : fd ∈ s.clients) (cmd : Command) :
    ∃ a', Service.Step password startTime a
        (.answer fd cmd (s.respond fd cmd).1
          (callSends s.world.sockets (s.commandCall fd cmd))) a' ∧
      Shows password startTime (s.respond fd cmd).2 a' := by
  have hclient : fd ∈ a.clients := (h.clients fd).mpr hfd
  have hnone (hgated : s.gated fd = true) :
      callSends s.world.sockets (s.commandCall fd cmd) = [] := by
    rw [commandCall, if_pos hgated]
    rfl
  have hresponds := s.responds fd cmd
  generalize s.respond fd cmd = result at hresponds ⊢
  cases hresponds with
  | password hgated hname hargs =>
    rw [hnone hgated, h.password_eq]
    rw [h.password_eq] at hargs
    exact ⟨_, .authenticate hclient ((h.gated_iff fd).mp hgated) hname hargs, h.authenticate hfd⟩
  | refused hgated hcmd =>
    rw [hnone hgated, h.password_eq]
    rw [h.password_eq] at hcmd
    exact ⟨a, .refuse hclient ((h.gated_iff fd).mp hgated) hcmd, h⟩
  | executed hserved => exact h.execute hfd hserved cmd

end Shows

namespace Running

/-- What is seen of an event of a running server. -/
def see (r : Running) : Event → Option Service.Event
  | .accept fd => some (.join fd)
  | .command fd cmd => some (.answer fd cmd (r.server.respond fd cmd).1
      ((Event.command fd cmd).pushes r.server))
  | .disconnect fd => some (.leave fd)
  | .quit _ | .reject _ | .hangUp _ | .buffer _ _ | .scan | .reorder _ _ => none

/-- A running server simulates the service. -/
theorem simulation (password : Bytes) (startTime : TimePoint) :
    Simulation Step (Service.Step password startTime) see
      fun r a => Shows password startTime r.server a where
  silent := by
    intro r e r' a h hstep hsee
    cases hstep with
    | accept | command | disconnect => cases hsee
    | quit | reject => exact h.send _ _
    | hangUp => exact h
    | buffer _ hfd readBuffer => exact h.setBuffer hfd readBuffer
    | scan => exact h.setWorld h.world.scan ⟨rfl, rfl⟩
    | reorder _ hre hpubsub => exact h.setWorld (h.world.reorder hre hpubsub) ⟨rfl, rfl⟩
  visible := by
    intro r e r' a o h hstep hsee
    cases hstep with
    | accept _ hfd =>
      cases hsee
      exact ⟨_, .join fun hmem => hfd ((h.clients _).mp hmem), h.accept _⟩
    | @command _ fd hfd hopen cmd hname =>
      cases hsee
      obtain ⟨a', hanswer, hshows⟩ := h.respond hfd cmd
      exact ⟨a', hanswer, hshows.send fd _⟩
    | disconnect s fd later =>
      cases hsee
      exact ⟨_, .leave a fd, h.disconnect fd⟩
    | quit | reject | hangUp | buffer | scan | reorder => cases hsee

end Running

open Running in
/-- A server that has just been started shows a service with nobody connected. -/
theorem Running.Fresh.shows {s : Server} (h : Fresh s) (hclock : SteadyClock s.world.clock)
    (hinstant : ∀ i j, s.world.clock i j = s.world.clock i 0) {store : TimedStore}
    (hstore : Refines s.world.now s.world.db store) :
    Shows s.password s.startTime s (Service.initial store s.world.now) where
  world := by
    refine ⟨hstore, hclock, hinstant, le_rfl, ?_, ?_⟩
    · rw [h.pubsub]
      exact indexed_empty
    · rw [h.pubsub]
      ext ⟨fd, c⟩
      simp [Service.initial, HasChannel, empty]
  password_eq := rfl
  startTime_eq := rfl
  clients fd := by
    rw [h.clients]
    simp [Service.initial]
  admitted fd := by
    rw [client, h.clients]
    simp [Service.initial, ClientState.new]

/-- **The server refines the service.**  In every run of a server from a fresh start, with any
number of clients, sockets that are used again, failing writes, saves, scans of the expiry thread
and any iteration orders, what the clients see (who is connected, the answers to all commands, the
messages that are sent to subscribers) is a run of the service.  The service determines the answers
except for the order of `KEYS`, for the listed keys that `DEL` counts although their deadlines have
been reached, and for operations that are not within the range of an `int`. -/
theorem server_refines_service {s₀ : Server} (hs₀ : Running.Fresh s₀)
    (hclock : SteadyClock s₀.world.clock)
    (hinstant : ∀ i j, s₀.world.clock i j = s₀.world.clock i 0) {store : TimedStore}
    (hstore : Refines s₀.world.now s₀.world.db store) {past : List (Running × Running.Event)}
    {r : Running} (htrace : Trace Running.Step ⟨s₀, []⟩ past r) :
    ∃ seen a, Trace (Service.Step s₀.password s₀.startTime)
        (Service.initial store s₀.world.now) seen a ∧
      seen.map Prod.snd = observed Running.see past ∧
      Shows s₀.password s₀.startTime r.server a :=
  (Running.simulation s₀.password s₀.startTime).exists_trace htrace
    (hs₀.shows hclock hinstant hstore)

/-- A run in which one client listens to a channel and another one stores a value, sends a message
and reads the value. -/
theorem server_refines_service_message :
    let events : List Running.Event := [.accept 4, .accept 5,
      .command 4 ⟨ascii "SUBSCRIBE", [ascii "news"]⟩,
      .command 5 ⟨ascii "SET", [ascii "k", ascii "v"]⟩, .scan,
      .command 5 ⟨ascii "PUBLISH", [ascii "news", ascii "k"]⟩,
      .command 4 ⟨ascii "GET", [ascii "k"]⟩, .command 5 ⟨ascii "GET", [ascii "k"]⟩]
    let message := pushMsg (ascii "news") (ascii "k")
    let answers : List Service.Event := [.join 4, .join 5,
      .answer 4 ⟨ascii "SUBSCRIBE", [ascii "news"]⟩ (ascii "subscribe news 1") [],
      .answer 5 ⟨ascii "SET", [ascii "k", ascii "v"]⟩ (ascii "OK") [],
      .answer 5 ⟨ascii "PUBLISH", [ascii "news", ascii "k"]⟩ (ascii "(integer) 1")
        [⟨4, message, message⟩],
      .answer 4 ⟨ascii "GET", [ascii "k"]⟩ (CommandHandler.subscriptionError (ascii "GET")) [],
      .answer 5 ⟨ascii "GET", [ascii "k"]⟩ (quoted (ascii "v")) []]
    ((Running.history ⟨initial, []⟩ events).map fun h => observed Running.see h.1) = some answers ∧
      ∃ seen a, Trace (Service.Step [] 0) (Service.initial ∅ 0) seen a ∧
        seen.map Prod.snd = answers := by
  intro events message answers
  have hobserved : ((Running.history ⟨initial, []⟩ events).map
      fun h => observed Running.see h.1) = some answers := by decide +kernel
  obtain ⟨⟨past, r⟩, hhistory, hpast⟩ := Option.map_eq_some_iff.mp hobserved
  have hfresh : Running.Fresh initial := ⟨rfl, rfl⟩
  have hstore : Refines initial.world.now initial.world.db ∅ := ⟨Database.inv_empty, rfl⟩
  obtain ⟨seen, a, htrace, hseen, -⟩ := server_refines_service hfresh
    World.initial_valid.clock (fun _ _ => rfl) hstore (Running.trace_of_history hhistory)
  exact ⟨hobserved, seen, a, htrace, hseen.trans hpast⟩

end Server

end MyRedis
