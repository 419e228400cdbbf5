import MyRedis.Server.Connections

/-!
# Outgoing streams

What is written to a connection, message by message.  A message that is sent to a client is either
the reply to one of its commands (or to a `QUIT` or a protocol error) or a published message, and
it may be cut off by a failed write.  After a reply that failed the server gives the connection up,
but after a published message that failed the publisher only removes the subscription.

The result is about runs in which no published message is cut off, and no reply is cut off while its
client has a subscription: then what is written to a connection is a sequence of whole messages and
at most one cut-off message at the end.  Without this condition bytes can follow a cut-off message.
-/

namespace MyRedis

open Foundation Resp PubSubManager

/-- The message was cut off: some of its bytes were written, but not all. -/
def Send.Cut (x : Send) : Prop := x.written ≠ [] ∧ x.written ≠ x.data

instance (x : Send) : Decidable x.Cut := inferInstanceAs (Decidable (_ ∧ _))

namespace Server.Running

/-! ### The messages of an event -/

/-- The reply that an event sends, if any. -/
def Event.reply (s : Server) : Event → Option Send
  | .command fd cmd => some ((s.respond fd cmd).2.world.net.sendRecord fd (s.reply fd cmd))
  | .quit fd => some (s.world.net.sendRecord fd (simpleString (ascii "OK")))
  | .reject fd => some (s.world.net.sendRecord fd (error (ascii "ERR Protocol error")))
  | _ => none

/-- The messages that an event sends: published messages, and then the reply. -/
def Event.sends (s : Server) (e : Event) : List Send := e.pushes s ++ (e.reply s).toList

/-- These messages are all that is written. -/
theorem Step.logs {r r' : Running} {e : Event} (h : Step r e r') :
    r.server.world.net.Logs (e.sends r.server) r'.server.world.net := by
  have hpushes := logs_runCall r.server.world.sockets (e.call r.server)
  cases h with
  | command =>
    rw [Event.call, ← sockets_respond] at hpushes
    exact hpushes.append (Network.logs_sendResponse _ _ _)
  | quit => exact Network.logs_sendResponse _ _ _
  | reject => exact Network.logs_sendResponse _ _ _
  | accept | hangUp | buffer | disconnect | scan | reorder => exact hpushes

/-- A reply goes to a client whose connection is not given up; it is given up if the reply could not
be sent. -/
theorem Step.reply_spec {r r' : Running} {e : Event} (h : Step r e r') {x : Send}
    (hx : e.reply r.server = some x) :
    x.socket ∉ r.toDisconnect ∧ (x.whole = false → x.socket ∈ r'.toDisconnect) := by
  cases h with
  | command _ _ hopen =>
    cases hx
    refine ⟨hopen, ?_⟩
    intro hwhole
    rw [Network.whole_sendRecord] at hwhole
    have hlost : (r.server.serve _ _).1 = false := hwhole
    simp [hlost, Network.sendRecord]
  | quit _ _ hopen | reject _ _ hopen =>
    cases hx
    exact ⟨hopen, fun _ => List.mem_append_right _ List.mem_cons_self⟩
  | accept | hangUp | buffer | disconnect | scan | reorder => cases hx

/-- A client that is to be disconnected stays so until it is. -/
theorem Step.mem_toDisconnect {r r' : Running} {e : Event} (h : Step r e r') {fd : Socket}
    (hfd : fd ∈ r.toDisconnect) (he : e ≠ .disconnect fd) : fd ∈ r'.toDisconnect := by
  cases h with
  | command =>
    dsimp only
    split
    · exact hfd
    · exact List.mem_append_left _ hfd
  | quit | reject | hangUp => exact List.mem_append_left _ hfd
  | accept | buffer | scan | reorder => exact hfd
  | disconnect s fd' later =>
    rcases List.mem_cons.mp hfd with rfl | hlater
    · exact absurd rfl he
    · exact hlater

/-! ### The messages of a connection -/

/-- The observer who notes what is sent to a client since it was accepted. -/
def noteSends (fd : Socket) (log : List Send) (r : Running) : Event → List Send
  | .accept fd' => if fd' = fd then [] else log
  | e => log ++ (e.sends r.server).filter fun x => x.socket = fd

/-- The messages that were sent to a client since it was accepted. -/
def connectionLog (fd : Socket) (past : List (Running × Event)) : List Send :=
  remember (noteSends fd) [] past

/-- The observer who notes what had been written to a socket when its client was accepted. -/
def noteStart (fd : Socket) (before : Bytes) (r : Running) : Event → Bytes
  | .accept fd' => if fd' = fd then r.server.world.net.bytesTo fd else before
  | _ => before

/-- The bytes that were written to a socket before its client was accepted. -/
def bytesBefore (fd : Socket) (past : List (Running × Event)) : Bytes :=
  remember (noteStart fd) [] past

/-- The messages after one more step. -/
theorem connectionLog_snoc (fd : Socket) (past : List (Running × Event)) (r : Running) (e : Event) :
    e = .accept fd ∧ connectionLog fd (past ++ [(r, e)]) = [] ∨
      e ≠ .accept fd ∧ connectionLog fd (past ++ [(r, e)]) =
        connectionLog fd past ++ (e.sends r.server).filter fun x => x.socket = fd := by
  rw [connectionLog, remember_snoc]
  cases e with
  | accept fd' =>
    by_cases hfd : fd' = fd
    · exact Or.inl ⟨by rw [hfd], if_pos hfd⟩
    · refine Or.inr ⟨by simpa using hfd, ?_⟩
      rw [noteSends, if_neg hfd]
      exact (List.append_nil _).symm
  | _ => exact Or.inr ⟨by simp, rfl⟩

/-- The bytes that were written to a connection are those of its messages. -/
theorem bytesTo_eq_of_trace {r₀ r : Running} {past : List (Running × Event)}
    (hr₀ : r₀.server.clients = ∅) (htrace : Trace Step r₀ past r) {fd : Socket}
    (hfd : fd ∈ r.server.clients) : r.server.world.net.bytesTo fd =
      bytesBefore fd past ++ (connectionLog fd past).flatMap Send.written := by
  revert hfd
  refine htrace.invariant (I := fun past r => fd ∈ r.server.clients →
    r.server.world.net.bytesTo fd =
      bytesBefore fd past ++ (connectionLog fd past).flatMap Send.written) ?_ ?_
  · rw [hr₀]
    intro hfd
    exact absurd hfd (AList.notMem_empty fd)
  · intro past r e r' ih h hfd
    rw [h.logs]
    rcases connectionLog_snoc fd past r e with ⟨rfl, hlog⟩ | ⟨hne, hlog⟩
    · rw [hlog, bytesBefore, remember_snoc, noteStart, if_pos rfl]
      rfl
    · have hbefore : bytesBefore fd (past ++ [(r, e)]) = bytesBefore fd past := by
        rw [bytesBefore, remember_snoc]
        cases e with
        | accept fd' => exact if_neg fun heq => hne (by rw [heq])
        | _ => rfl
      have hfd' : fd ∈ r.server.clients := by
        rcases (h.mem_clients_iff fd).mp hfd with haccept | ⟨hmem, _⟩
        · exact absurd haccept hne
        · exact hmem
      rw [hlog, hbefore, ih hfd', List.flatMap_append, List.append_assoc]
      rfl

/-! ### Whole messages -/

/-- The messages for a client: the replies to its commands, to its `QUIT` and to its protocol
errors, and the messages that were published by commands of whatever client. -/
inductive Message (fd : Socket) (past : List (Running × Event)) : Bytes → Prop
  | reply {r : Running} {cmd : Command} (h : (r, .command fd cmd) ∈ past) :
      Message fd past (r.server.reply fd cmd)
  | quit {r : Running} (h : (r, .quit fd) ∈ past) : Message fd past (simpleString (ascii "OK"))
  | reject {r : Running} (h : (r, .reject fd) ∈ past) :
      Message fd past (error (ascii "ERR Protocol error"))
  | push {r : Running} {fd' : Socket} {cmd : Command} {channel message : Bytes}
      (h : (r, .command fd' cmd) ∈ past)
      (hcall : r.server.commandCall fd' cmd = some (.publish channel message)) :
      Message fd past (pushMsg channel message)

/-- A message stays a message in a longer run. -/
theorem Message.mono {fd : Socket} {past later : List (Running × Event)} {data : Bytes}
    (h : Message fd past data) : Message fd (past ++ later) data := by
  cases h with
  | reply h => exact .reply (List.mem_append_left _ h)
  | quit h => exact .quit (List.mem_append_left _ h)
  | reject h => exact .reject (List.mem_append_left _ h)
  | push h hcall => exact .push (List.mem_append_left _ h) hcall

/-- What an event sends to a client is a message for it, of which a front part is written. -/
theorem message_of_mem_sends {past : List (Running × Event)} {r : Running} {e : Event} {x : Send}
    (hx : x ∈ e.sends r.server) :
    x.written <+: x.data ∧ Message x.socket (past ++ [(r, e)]) x.data := by
  have hlast : (r, e) ∈ past ++ [(r, e)] := List.mem_append_right _ List.mem_cons_self
  rcases List.mem_append.mp hx with hpush | hreply
  · unfold Event.pushes callSends at hpush
    split at hpush
    · rename_i channel message hcall
      obtain ⟨hdata, hwritten⟩ := data_publishSends channel message _ _ hpush
      refine ⟨hwritten, ?_⟩
      rw [hdata]
      cases e with
      | command fd cmd => exact .push hlast hcall
      | _ => cases hcall
    · cases hpush
  · rw [Option.mem_toList] at hreply
    cases e with
    | command fd cmd =>
      cases hreply
      exact ⟨Network.written_isPrefix _ _ _, .reply hlast⟩
    | quit fd =>
      cases hreply
      exact ⟨Network.written_isPrefix _ _ _, .quit hlast⟩
    | reject fd =>
      cases hreply
      exact ⟨Network.written_isPrefix _ _ _, .reject hlast⟩
    | _ => cases hreply

/-- Everything that was sent to a client is a message for it, of which a front part was written. -/
theorem message_of_mem_connectionLog {r₀ r : Running} {past : List (Running × Event)}
    (htrace : Trace Step r₀ past r) {fd : Socket} {x : Send} (hx : x ∈ connectionLog fd past) :
    x.written <+: x.data ∧ Message fd past x.data := by
  revert hx
  refine htrace.invariant (I := fun past _ => x ∈ connectionLog fd past →
    x.written <+: x.data ∧ Message fd past x.data) ?_ ?_
  · intro hx
    cases hx
  · intro past r e r' ih _ hx
    rcases connectionLog_snoc fd past r e with ⟨_, hlog⟩ | ⟨_, hlog⟩
    · rw [hlog] at hx
      cases hx
    · rw [hlog] at hx
      rcases List.mem_append.mp hx with hbefore | hnew
      · exact ⟨(ih hbefore).1, (ih hbefore).2.mono⟩
      · obtain ⟨hsent, hsocket⟩ := List.mem_filter.mp hnew
        obtain rfl : x.socket = fd := of_decide_eq_true hsocket
        exact message_of_mem_sends hsent

/-- If nothing is written after a message that was cut off, what is written is a concatenation of
whole messages and a front part of another one. -/
theorem exists_messages {log : List Send} (hfront : ∀ x ∈ log, x.written <+: x.data)
    (hlog : log.Pairwise fun x y => x.Cut → y.written = []) :
    ∃ (messages : List Bytes) (part : Bytes), (∀ data ∈ messages, ∃ x ∈ log, x.data = data) ∧
      log.flatMap Send.written = messages.flatten ++ part ∧
      (part = [] ∨ ∃ x ∈ log, part <+: x.data ∧ part ≠ x.data) := by
  induction log with
  | nil => exact ⟨[], [], by simp, rfl, Or.inl rfl⟩
  | cons x log ih =>
    rw [List.pairwise_cons] at hlog
    by_cases hcut : x.Cut
    · have hnothing : log.flatMap Send.written = [] :=
        List.flatMap_eq_nil_iff.mpr fun y hy => hlog.1 y hy hcut
      refine ⟨[], x.written, by simp, ?_, Or.inr ⟨x, List.mem_cons_self, ?_, hcut.2⟩⟩
      · rw [List.flatMap_cons, hnothing, List.append_nil]
        rfl
      · exact hfront x List.mem_cons_self
    · obtain ⟨messages, part, hmessages, hbytes, hpart⟩ :=
        ih (fun y hy => hfront y (List.mem_cons_of_mem _ hy)) hlog.2
      have hpart' : part = [] ∨ ∃ y ∈ x :: log, part <+: y.data ∧ part ≠ y.data := by
        rcases hpart with hnil | ⟨y, hy, hrest⟩
        · exact Or.inl hnil
        · exact Or.inr ⟨y, List.mem_cons_of_mem _ hy, hrest⟩
      by_cases hnil : x.written = []
      · refine ⟨messages, part, ?_, ?_, hpart'⟩
        · intro data hdata
          obtain ⟨y, hy, heq⟩ := hmessages data hdata
          exact ⟨y, List.mem_cons_of_mem _ hy, heq⟩
        · rw [List.flatMap_cons, hnil, hbytes]
          rfl
      · have hwhole : x.written = x.data := by
          by_contra hne
          exact hcut ⟨hnil, hne⟩
        refine ⟨x.data :: messages, part, ?_, ?_, hpart'⟩
        · intro data hdata
          rcases List.mem_cons.mp hdata with rfl | hlater
          · exact ⟨x, List.mem_cons_self, rfl⟩
          · obtain ⟨y, hy, heq⟩ := hmessages data hlater
            exact ⟨y, List.mem_cons_of_mem _ hy, heq⟩
        · rw [List.flatMap_cons, hwhole, hbytes, List.flatten_cons, List.append_assoc]

/-! ### Cut-off messages -/

/-- An event cuts off no published message, and no reply to a client that has a subscription when
the reply is sent. -/
def Tolerable (r : Running) (e : Event) : Prop :=
  (∀ x ∈ e.pushes r.server, ¬ x.Cut) ∧
    ∀ x ∈ (e.reply r.server).toList, x.Cut →
      (runCall r.server.world.sockets (e.call r.server)).1.isSubscribed x.socket = false

instance (r : Running) (e : Event) : Decidable (Tolerable r e) :=
  inferInstanceAs (Decidable (_ ∧ _))

/-- What holds of a client after a run of such events: nothing was written after a message that was
cut off, and if there was one, then the client is about to be disconnected and has no
subscriptions. -/
structure CutLast (fd : Socket) (past : List (Running × Event)) (r : Running) : Prop where
  /-- Nothing is written after a message that was cut off. -/
  last : (connectionLog fd past).Pairwise fun x y => x.Cut → y.written = []
  /-- The client is about to be disconnected. -/
  leaving : (∃ x ∈ connectionLog fd past, x.Cut) → fd ∈ r.toDisconnect
  /-- The client has no subscriptions. -/
  unsubscribed : (∃ x ∈ connectionLog fd past, x.Cut) →
    ∀ c, ¬ r.server.world.pubsub.HasChannel fd c

/-- A step sends nothing to a client that is about to be disconnected and has no subscriptions. -/
theorem Step.sends_eq_nil {r r' : Running} {e : Event} (h : Step r e r') {fd : Socket}
    (hindexed : r.server.world.pubsub.Indexed) (hleaving : fd ∈ r.toDisconnect)
    (hunsubscribed : ∀ c, ¬ r.server.world.pubsub.HasChannel fd c) :
    (e.sends r.server).filter (fun x => x.socket = fd) = [] := by
  rw [List.filter_eq_nil_iff]
  intro x hx hsocket
  obtain rfl : x.socket = fd := of_decide_eq_true hsocket
  rcases List.mem_append.mp hx with hpush | hreply
  · obtain ⟨c, hc⟩ := exists_hasChannel_of_mem_pushes hindexed hpush
    exact hunsubscribed c hc
  · exact (h.reply_spec (Option.mem_toList.mp hreply)).1 hleaving

/-- One such event cuts off at most its last message. -/
theorem Tolerable.pairwise_sends {r : Running} {e : Event} (h : Tolerable r e) :
    (e.sends r.server).Pairwise fun x y => x.Cut → y.written = [] := by
  refine List.pairwise_append.mpr ⟨?_, ?_, ?_⟩
  · refine List.pairwise_of_forall_mem_list ?_
    intro x hx y _ hcut
    exact absurd hcut (h.1 x hx)
  · cases e.reply r.server <;> simp
  · intro x hx y _ hcut
    exact absurd hcut (h.1 x hx)

/-- A step of this kind keeps the invariant. -/
theorem CutLast.step {fd : Socket} {past : List (Running × Event)} {r r' : Running} {e : Event}
    (hsound : Sound past r) (hlast : fd ∈ r.server.clients → CutLast fd past r) (h : Step r e r')
    (htolerable : Tolerable r e) (hfd : fd ∈ r'.server.clients) :
    CutLast fd (past ++ [(r, e)]) r' := by
  rcases connectionLog_snoc fd past r e with ⟨_, hlog⟩ | ⟨hne, hlog⟩
  · -- a new connection, to which nothing was sent
    constructor <;> simp [hlog]
  · obtain ⟨hbefore, hstays⟩ : fd ∈ r.server.clients ∧ e ≠ .disconnect fd := by
      rcases (h.mem_clients_iff fd).mp hfd with haccept | hmem
      · exact absurd haccept hne
      · exact hmem
    have hinv := hlast hbefore
    by_cases hcut : ∃ x ∈ connectionLog fd past, x.Cut
    · -- nothing is sent any more
      have hleaving := hinv.leaving hcut
      rw [h.sends_eq_nil hsound.indexed hleaving (hinv.unsubscribed hcut), List.append_nil] at hlog
      refine ⟨?_, fun _ => h.mem_toDisconnect hleaving hstays, ?_⟩
      · rw [hlog]
        exact hinv.last
      · intro _ c hc
        rcases h.hasChannel hc with ⟨cmd, rfl, _⟩ | ⟨hhad, _⟩
        · cases h with
          | command _ _ hopen => exact hopen hleaving
        · exact hinv.unsubscribed hcut c hhad
    · -- only the reply of this step can be cut off, and it is the last message
      have hnew {x : Send} (hx : x ∈ connectionLog fd (past ++ [(r, e)])) (hxcut : x.Cut) :
          e.reply r.server = some x ∧ x.socket = fd := by
        rw [hlog] at hx
        rcases List.mem_append.mp hx with hold | hsent
        · exact absurd ⟨x, hold, hxcut⟩ hcut
        · obtain ⟨hsent, hsocket⟩ := List.mem_filter.mp hsent
          refine ⟨?_, of_decide_eq_true hsocket⟩
          rcases List.mem_append.mp hsent with hpush | hreply
          · exact absurd hxcut (htolerable.1 x hpush)
          · exact Option.mem_toList.mp hreply
      refine ⟨?_, ?_, ?_⟩
      · rw [hlog]
        refine List.pairwise_append.mpr ⟨hinv.last, htolerable.pairwise_sends.filter _, ?_⟩
        intro x hx y _ hxcut
        exact absurd ⟨x, hx, hxcut⟩ hcut
      · rintro ⟨x, hx, hxcut⟩
        obtain ⟨hreply, rfl⟩ := hnew hx hxcut
        exact (h.reply_spec hreply).2 (decide_eq_false hxcut.2)
      · rintro ⟨x, hx, hxcut⟩ c hc
        obtain ⟨hreply, rfl⟩ := hnew hx hxcut
        have hunsubscribed := htolerable.2 x (Option.mem_toList.mpr hreply) hxcut
        rw [← h.pubsub_reordered.isSubscribed_eq] at hunsubscribed
        rw [isSubscribed_iff.mpr ⟨c, hc⟩] at hunsubscribed
        cases hunsubscribed

/-- The invariant holds after every run of such events. -/
theorem cutLast_of_trace {s₀ : Server} (hs₀ : Fresh s₀) {past : List (Running × Event)}
    {r : Running} (htrace : Trace Step ⟨s₀, []⟩ past r)
    (htolerable : Always (fun _ r e => Tolerable r e) past) {fd : Socket}
    (hfd : fd ∈ r.server.clients) : CutLast fd past r := by
  induction htrace with
  | nil =>
    rw [hs₀.clients] at hfd
    exact absurd hfd (AList.notMem_empty fd)
  | snoc hbefore hstep ih =>
    rw [always_snoc] at htolerable
    exact CutLast.step (sound_of_trace hs₀ hbefore) (ih htolerable.1) hstep htolerable.2 hfd

/-! ### The result -/

/-- What is expected of the bytes that were written to a connection. -/
structure WellFramed (fd : Socket) (past : List (Running × Event)) (r : Running) : Prop where
  /-- They are the bytes of the messages that were sent to the client. -/
  bytes : r.server.world.net.bytesTo fd =
    bytesBefore fd past ++ (connectionLog fd past).flatMap Send.written
  /-- They are a concatenation of whole messages, followed by at most one that was cut off. -/
  messages : ∃ (messages : List Bytes) (part : Bytes), (∀ data ∈ messages, Message fd past data) ∧
    (connectionLog fd past).flatMap Send.written = messages.flatten ++ part ∧
    (part = [] ∨ ∃ data, Message fd past data ∧ part <+: data ∧ part ≠ data)
  /-- Nothing was written after a message that was cut off. -/
  last : (connectionLog fd past).Pairwise fun x y => x.Cut → y.written = []

/-- **Outgoing streams.**  In every run of a server and with every outcome of the writes: if no
published message is cut off, and no reply is cut off while its client has a subscription, then what
is written to each connection is a concatenation of whole messages followed by at most one that was
cut off, and nothing is written after that one. -/
theorem streams_well_framed {s₀ : Server} (hs₀ : Fresh s₀) {past : List (Running × Event)}
    {r : Running} (htrace : Trace Step ⟨s₀, []⟩ past r)
    (htolerable : Always (fun _ r e => Tolerable r e) past) {fd : Socket}
    (hfd : fd ∈ r.server.clients) : WellFramed fd past r := by
  have hlast := (cutLast_of_trace hs₀ htrace htolerable hfd).last
  refine ⟨bytesTo_eq_of_trace hs₀.clients htrace hfd, ?_, hlast⟩
  obtain ⟨messages, part, hmessages, hbytes, hpart⟩ :=
    exists_messages (fun x hx => (message_of_mem_connectionLog htrace hx).1) hlast
  refine ⟨messages, part, ?_, hbytes, ?_⟩
  · intro data hdata
    obtain ⟨x, hx, rfl⟩ := hmessages data hdata
    exact (message_of_mem_connectionLog htrace hx).2
  · rcases hpart with hnil | ⟨x, hx, hfront, hne⟩
    · exact Or.inl hnil
    · exact Or.inr ⟨x.data, (message_of_mem_connectionLog htrace hx).2, hfront, hne⟩

/-- A server that has just been started, with given outcomes of the writes to come. -/
def withWrites (writes : ℕ → Option ℕ) : Server :=
  { initial with world := { World.initial with net := ⟨writes, []⟩ } }

/-- A reply is cut off after two bytes, and another client goes on. -/
theorem streams_well_framed_cut_reply :
    ∃ past r, history ⟨withWrites fun i => if i = 1 then none else some 1, []⟩
        [.accept 4, .accept 5, .command 4 ⟨ascii "PING", []⟩, .command 5 ⟨ascii "PING", []⟩] =
      some (past, r) ∧ WellFramed 4 past r := by
  obtain ⟨⟨past, r⟩, hrun, hcheck⟩ := (Option.any_eq_true _ _).mp
    (show (history ⟨withWrites fun i => if i = 1 then none else some 1, []⟩
      [.accept 4, .accept 5, .command 4 ⟨ascii "PING", []⟩,
        .command 5 ⟨ascii "PING", []⟩]).any (fun run =>
        decide ((∀ p ∈ run.1, Tolerable p.1 p.2) ∧ 4 ∈ run.2.server.clients)) = true by decide)
  obtain ⟨htolerable, hfd⟩ := of_decide_eq_true hcheck
  exact ⟨past, r, hrun, streams_well_framed ⟨rfl, rfl⟩ (trace_of_history hrun)
    (always_iff_forall_mem.mpr htolerable) hfd⟩

/-- A client subscribes, a message that another client publishes is cut off after two bytes, and the
reply to the next command of the client follows. -/
theorem bytes_follow_cut_message :
    ∃ s₀ past r, Fresh s₀ ∧ Trace Step ⟨s₀, []⟩ past r ∧ 4 ∈ r.server.clients ∧
      r.server.world.net.bytesTo 4 =
        ascii "*3\r\n$9\r\nsubscribe\r\n$1\r\na\r\n:1\r\n" ++ ascii "*3" ++ ascii "+PONG\r\n" ∧
      ¬ WellFramed 4 past r := by
  obtain ⟨⟨past, r⟩, hrun, hcheck⟩ := (Option.any_eq_true _ _).mp
    (show (history
      ⟨withWrites fun i => if i = 1 then some 1 else if i = 2 then none else some 99, []⟩
      [.accept 4, .accept 5, .command 4 ⟨ascii "SUBSCRIBE", [ascii "a"]⟩,
        .command 5 ⟨ascii "PUBLISH", [ascii "a", ascii "m"]⟩,
        .command 4 ⟨ascii "PING", []⟩]).any (fun run =>
        decide (4 ∈ run.2.server.clients ∧ run.2.server.world.net.bytesTo 4 =
          ascii "*3\r\n$9\r\nsubscribe\r\n$1\r\na\r\n:1\r\n" ++ ascii "*3" ++ ascii "+PONG\r\n" ∧
          ¬ (connectionLog 4 run.1).Pairwise fun x y => x.Cut → y.written = [])) = true by decide)
  obtain ⟨hfd, hbytes, hlast⟩ := of_decide_eq_true hcheck
  exact ⟨_, past, r, ⟨rfl, rfl⟩, trace_of_history hrun, hfd, hbytes, fun h => hlast h.last⟩

end Server.Running

end MyRedis
