import MyRedis.Commands.Subscriptions
import MyRedis.Server.Running

/-!
# Connections and subscriptions

The server keeps the state of a connection and the pub/sub manager keeps its subscriptions, both
under the number of the socket, which the operating system may use again once the connection is
closed.  A step of a running server calls the pub/sub manager at most once (`Running.Event.call`),
so that the subscriptions follow a history of calls; with the invariant of the double index it
follows that only connected clients are subscribed, and that a new connection inherits nothing from
an earlier one on the same socket.
-/

namespace MyRedis

open Foundation Resp PubSubManager

namespace Server

/-! ### The calls of the pub/sub manager -/

/-- The call that a command of a client leads to, if any. -/
def commandCall (s : Server) (fd : Socket) (cmd : Command) : Option Call :=
  if s.gated fd then none
  else CommandHandler.pubsubCall fd (s.world.pubsub.isSubscribed fd) cmd

/-- Responding to a command makes this call, and does nothing else to subscriptions and sockets. -/
theorem sockets_respond (s : Server) (fd : Socket) (cmd : Command) :
    (s.respond fd cmd).2.world.sockets = runCall s.world.sockets (s.commandCall fd cmd) := by
  have hresponds := s.responds fd cmd
  generalize s.respond fd cmd = result at hresponds ⊢
  cases hresponds with
  | password hgated | refused hgated =>
    rw [commandCall, if_pos hgated]
    rfl
  | executed hserved =>
    rw [commandCall, hserved, if_neg Bool.false_ne_true]
    exact CommandHandler.sockets_execute rfl cmd s.world

/-- A client subscribes only itself, to the channels that it has named. -/
theorem commandCall_eq_subscribe {s : Server} {fd fd' : Socket} {cmd : Command}
    {channels : List Bytes} (h : s.commandCall fd cmd = some (.subscribe fd' channels)) :
    fd' = fd ∧ channels = cmd.args := by
  unfold commandCall CommandHandler.pubsubCall at h
  split at h
  · cases h
  split at h
  · cases h
  split at h
  · split at h
    · cases h
    · cases h
      exact ⟨rfl, rfl⟩
  split at h
  · cases h
  split at h
  · split at h <;> cases h
  · cases h

/-- Responding to a client adds and removes no clients. -/
theorem mem_clients_respond_iff {s : Server} {fd fd' : Socket} (hfd : fd ∈ s.clients)
    (cmd : Command) : fd' ∈ (s.respond fd cmd).2.clients ↔ fd' ∈ s.clients := by
  have hresponds := s.responds fd cmd
  generalize s.respond fd cmd = result at hresponds ⊢
  cases hresponds with
  | password =>
    rw [setClient, AList.mem_insert, or_iff_right_iff_imp]
    rintro rfl
    exact hfd
  | refused | executed => rfl

namespace Running

/-- The call of the pub/sub manager that belongs to an event, if any. -/
def Event.call (s : Server) : Event → Option Call
  | .command fd cmd => s.commandCall fd cmd
  | .disconnect fd => some (.clientDisconnected fd)
  | _ => none

/-- The subscriptions after a step, up to the iteration orders. -/
theorem Step.pubsub_reordered {r r' : Running} {e : Event} (h : Step r e r') :
    (runCall r.server.world.sockets (e.call r.server)).1.Reordered r'.server.world.pubsub := by
  cases h with
  | @command _ fd _ _ cmd =>
    have hpubsub : (r.server.respond fd cmd).2.world.pubsub =
        (runCall r.server.world.sockets (r.server.commandCall fd cmd)).1 :=
      congrArg Prod.fst (r.server.sockets_respond fd cmd)
    exact hpubsub ▸ .rfl
  | reorder _ _ hpubsub => exact hpubsub
  | _ => exact .rfl

/-- The two maps of the pub/sub manager go on to agree. -/
theorem Step.indexed {r r' : Running} {e : Event} (h : Step r e r')
    (hindexed : r.server.world.pubsub.Indexed) : r'.server.world.pubsub.Indexed :=
  (Indexed.runCall (s := r.server.world.sockets) hindexed _).reordered h.pubsub_reordered

/-- The clients after a step. -/
theorem Step.mem_clients_iff {r r' : Running} {e : Event} (h : Step r e r') (fd : Socket) :
    fd ∈ r'.server.clients ↔ e = .accept fd ∨ fd ∈ r.server.clients ∧ e ≠ .disconnect fd := by
  cases h with
  | accept =>
    rw [acceptClient, setClient, AList.mem_insert]
    simp [eq_comm]
  | command _ hfd =>
    refine (mem_clients_respond_iff hfd _).trans ?_
    simp
  | buffer _ hfd =>
    rw [setClient, AList.mem_insert, or_iff_right_iff_imp.mpr]
    · simp
    · rintro rfl
      exact hfd
  | disconnect s fd' later =>
    rw [disconnectClient, AList.mem_erase]
    simp [and_comm, eq_comm]
  | quit | reject | hangUp | scan | reorder => simp [Server.quit, Server.reject, send]

/-- A client that is in a channel has just subscribed, or it was there before and is not
disconnected. -/
theorem Step.hasChannel {r r' : Running} {e : Event} (h : Step r e r') {fd : Socket} {c : Bytes}
    (hc : r'.server.world.pubsub.HasChannel fd c) :
    (∃ cmd, e = .command fd cmd ∧
        r.server.commandCall fd cmd = some (.subscribe fd cmd.args)) ∨
      r.server.world.pubsub.HasChannel fd c ∧ e ≠ .disconnect fd := by
  rw [h.pubsub_reordered.hasChannel_iff] at hc
  cases hcall : e.call r.server with
  | none =>
    rw [hcall] at hc
    refine Or.inr ⟨hc, ?_⟩
    rintro rfl
    cases hcall
  | some call =>
    rw [hcall, runCall, hasChannel_run] at hc
    cases hconcerns : call.concerns fd c r.server.world.sockets with
    | none =>
      rw [hconcerns] at hc
      refine Or.inr ⟨hc, ?_⟩
      rintro rfl
      cases hcall
      simp [Call.concerns] at hconcerns
    | some joined =>
      rw [hconcerns] at hc
      obtain rfl : joined = true := hc
      obtain ⟨channels, rfl⟩ := Call.eq_subscribe_of_concerns hconcerns
      cases e with
      | command fd' cmd =>
        obtain ⟨rfl, rfl⟩ := commandCall_eq_subscribe hcall
        exact Or.inl ⟨cmd, rfl, hcall⟩
      | disconnect => cases hcall
      | _ => cases hcall

/-! ### The invariant -/

/-- A server that has just been started: it has no clients and no subscriptions.  Nothing is assumed
of its password, its database, its files and what the environment will decide. -/
structure Fresh (s : Server) : Prop where
  /-- There are no clients. -/
  clients : s.clients = ∅
  /-- There are no subscriptions. -/
  pubsub : s.world.pubsub = .empty

/-- The observer who notes whether a client has subscribed since it was accepted. -/
def noteSubscribed (fd : Socket) (noted : Bool) (r : Running) : Event → Bool
  | .accept fd' => if fd' = fd then false else noted
  | .command fd' cmd =>
    if r.server.commandCall fd' cmd = some (.subscribe fd cmd.args) then true else noted
  | _ => noted

/-- The client has subscribed since it was accepted. -/
def HasSubscribed (fd : Socket) (past : List (Running × Event)) : Prop :=
  remember (noteSubscribed fd) false past = true

/-- What holds of the subscriptions after every run. -/
structure Sound (past : List (Running × Event)) (r : Running) : Prop where
  /-- The two maps of the pub/sub manager agree. -/
  indexed : r.server.world.pubsub.Indexed
  /-- Whoever is in a channel is connected. -/
  connected : ∀ fd c, r.server.world.pubsub.HasChannel fd c → fd ∈ r.server.clients
  /-- Whoever is in a channel has subscribed since it was accepted. -/
  subscribed : ∀ fd c, r.server.world.pubsub.HasChannel fd c → HasSubscribed fd past

/-- A step keeps the invariant. -/
theorem Sound.step {past : List (Running × Event)} {r r' : Running} {e : Event}
    (hs : Sound past r) (h : Step r e r') : Sound (past ++ [(r, e)]) r' where
  indexed := h.indexed hs.indexed
  connected := by
    intro fd c hc
    rw [h.mem_clients_iff]
    rcases h.hasChannel hc with ⟨cmd, rfl, _⟩ | ⟨hbefore, hstays⟩
    · cases h with
      | command _ hfd => exact Or.inr ⟨hfd, by simp⟩
    · exact Or.inr ⟨hs.connected fd c hbefore, hstays⟩
  subscribed := by
    intro fd c hc
    rw [HasSubscribed, remember_snoc]
    rcases h.hasChannel hc with ⟨cmd, rfl, hcall⟩ | ⟨hbefore, _⟩
    · simp [noteSubscribed, hcall]
    · have hnoted := hs.subscribed fd c hbefore
      cases h with
      | accept _ hfd =>
        rename_i fd' _
        -- the new client is not the one in the channel
        have hne : fd' ≠ fd := by
          rintro rfl
          exact hfd (hs.connected fd' c hbefore)
        rw [noteSubscribed, if_neg hne]
        exact hnoted
      | command =>
        refine ite_eq_left_iff.mpr ?_
        intro _
        exact hnoted
      | _ => exact hnoted

/-- The invariant holds after every run. -/
theorem sound_of_trace {s₀ : Server} (hs₀ : Fresh s₀) {past : List (Running × Event)} {r : Running}
    (htrace : Trace Step ⟨s₀, []⟩ past r) : Sound past r := by
  refine htrace.invariant ?_ fun past r e r' hs h => hs.step h
  have hnone (fd : Socket) (c : Bytes) : ¬ s₀.world.pubsub.HasChannel fd c := by
    rw [hs₀.pubsub]
    simp [HasChannel, empty]
  constructor
  · rw [hs₀.pubsub]
    exact indexed_empty
  · intro fd c hc
    exact absurd hc (hnone fd c)
  · intro fd c hc
    exact absurd hc (hnone fd c)

/-! ### The result -/

/-- The published messages that an event sends. -/
def Event.pushes (s : Server) (e : Event) : List Send :=
  callSends s.world.sockets (e.call s)

/-- A published message is sent to a client that is in a channel. -/
theorem exists_hasChannel_of_mem_pushes {r : Running} (hindexed : r.server.world.pubsub.Indexed)
    {e : Event} {x : Send} (hx : x ∈ e.pushes r.server) :
    ∃ c, r.server.world.pubsub.HasChannel x.socket c := by
  unfold Event.pushes callSends at hx
  split at hx
  · rename_i channel message _
    refine ⟨channel, ?_⟩
    rw [← hindexed.agree]
    exact (mem_socket_publishSends channel message r.server.world.pubsub r.server.world.net).mp
      (List.mem_map_of_mem hx)
  · cases hx

/-- What is expected of the connections of a running server. -/
structure StartClean (past : List (Running × Event)) (r : Running) : Prop where
  /-- Every socket in the first map of the pub/sub manager is that of a client. -/
  channels : ∀ fd c, r.server.world.pubsub.Listens fd c → fd ∈ r.server.clients
  /-- Every socket in the second map is that of a client. -/
  clientChannels : ∀ fd ∈ r.server.world.pubsub.clientChannels, fd ∈ r.server.clients
  /-- A new client starts with an empty buffer, not authenticated and without subscriptions. -/
  accepted : ∀ fd r', Step r (.accept fd) r' → (r'.server.client fd).readBuffer = [] ∧
    (r'.server.client fd).authenticated = false ∧ fd ∉ r'.server.world.pubsub.clientChannels ∧
      ∀ c, ¬ r'.server.world.pubsub.Listens fd c
  /-- A published message is sent only to clients that have subscribed since they were accepted. -/
  pushes : ∀ e r', Step r e r' → ∀ x ∈ e.pushes r.server, HasSubscribed x.socket past

/-- **Connections do not inherit state.**  In every run of a server, in which sockets may be used
again for new connections once they are closed, every socket in the two maps of the pub/sub manager
is that of a connected client; a new client starts with an empty read buffer, not authenticated and
without subscriptions; and no published message is sent to a client before it has subscribed. -/
theorem connections_start_clean {s₀ : Server} (hs₀ : Fresh s₀) {past : List (Running × Event)}
    {r : Running} (htrace : Trace Step ⟨s₀, []⟩ past r) : StartClean past r := by
  have hsound : Sound past r := sound_of_trace hs₀ htrace
  have hkeys : ∀ fd ∈ r.server.world.pubsub.clientChannels, fd ∈ r.server.clients := by
    intro fd hfd
    obtain ⟨c, hc⟩ := (SetMap.exists_holds_iff (hsound.indexed.not_emptyClient fd)).mpr hfd
    exact hsound.connected fd c hc
  constructor
  · intro fd c hc
    exact hsound.connected fd c ((hsound.indexed.agree fd c).mp hc)
  · exact hkeys
  · intro fd r' h
    cases h with
    | accept _ hfd =>
      have hclient : (r.server.acceptClient fd).client fd = .new := client_setClient_self _ _ _
      rw [hclient]
      refine ⟨rfl, rfl, ?_, ?_⟩
      · exact fun hmem => hfd (hkeys fd hmem)
      · intro c hc
        exact hfd (hsound.connected fd c ((hsound.indexed.agree fd c).mp hc))
  · intro e r' h x hx
    obtain ⟨c, hc⟩ := exists_hasChannel_of_mem_pushes hsound.indexed hx
    exact hsound.subscribed _ c hc

/-- A client subscribes and leaves, and its socket is used again. -/
theorem connections_start_clean_reused_socket :
    ∃ past r, history ⟨initial, []⟩ [.accept 4, .command 4 ⟨ascii "SUBSCRIBE", [ascii "a"]⟩,
      .quit 4, .disconnect 4, .accept 4] = some (past, r) ∧ StartClean past r := by
  obtain ⟨⟨past, r⟩, hrun⟩ := Option.isSome_iff_exists.mp
    (show (history ⟨initial, []⟩ [.accept 4, .command 4 ⟨ascii "SUBSCRIBE", [ascii "a"]⟩,
      .quit 4, .disconnect 4, .accept 4]).isSome by decide)
  exact ⟨past, r, hrun, connections_start_clean ⟨rfl, rfl⟩ (trace_of_history hrun)⟩

end Running

end Server

end MyRedis
