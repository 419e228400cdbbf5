import MyRedis.Server.Streams

/-!
# The authentication gate

If the server has a password, a client that has not given it gets nothing but refusals.  Which
clients have given it is noted from the commands of a run (`Running.HasGiven`), and after every run
whoever is authenticated or subscribed is among them (`Running.Guarded`).  A step of any other
client is confined to that client: it changes nothing but the client's own entry and sends bytes to
nobody else (`Running.Step.confined`).  Conversely, a client that is not subscribed does not notice
the steps of others (`Running.unnoticed_of_trace`).
-/

namespace MyRedis

open Foundation Resp PubSubManager

/-- The command with which a client gives a password. -/
def authCommand (password : Bytes) : Command := ⟨ascii "AUTH", [password]⟩

namespace Server

/-! ### Refusals -/

/-- The answer to a command other than `AUTH` with the password. -/
def refusalText (cmd : Command) : Bytes :=
  if cmd.name = ascii "AUTH" then
    if cmd.args.length = 1 then ascii "ERR invalid password" else wrongArguments "AUTH"
  else ascii "NOAUTH Authentication required."

/-- Without the password the answer of the server is a refusal. -/
theorem gateText_of_ne {password : Bytes} {cmd : Command} (h : cmd ≠ authCommand password) :
    gateText password cmd = refusalText cmd := by
  unfold gateText refusalText
  split
  · rename_i hname
    split
    · rename_i given hargs
      have hgiven : given ≠ password := by
        rintro rfl
        exact h (congrArg₂ Command.mk hname hargs)
      rw [if_neg hgiven, hargs, List.length_singleton, if_pos rfl]
    · rename_i hargs
      rw [if_neg]
      intro hlength
      obtain ⟨given, hgiven⟩ := List.length_eq_one_iff.mp hlength
      exact hargs given hgiven
  · rfl

/-- A client that has not given the password of the server is not served. -/
theorem gated_of_not_authenticated {s : Server} {fd : Socket} (hpassword : s.password ≠ [])
    (hclient : (s.client fd).authenticated = false) : s.gated fd = true := by
  simp [gated, hpassword, hclient]

/-- The response to a client that is not served leaves the world as it is. -/
theorem world_respond_of_gated {s : Server} {fd : Socket} (hgated : s.gated fd = true)
    (cmd : Command) : (s.respond fd cmd).2.world = s.world := by
  have hresponds := s.responds fd cmd
  generalize s.respond fd cmd = result at hresponds ⊢
  cases hresponds with
  | password | refused => rfl
  | executed hserved =>
    rw [hgated] at hserved
    cases hserved

/-- Unless the client gives the password, the response is a refusal and leaves the server as it
is. -/
theorem respond_of_refused {s : Server} {fd : Socket} (hgated : s.gated fd = true) {cmd : Command}
    (hcmd : cmd ≠ authCommand s.password) : s.respond fd cmd = (refusalText cmd, s) := by
  have hresponds := s.responds fd cmd
  generalize s.respond fd cmd = result at hresponds ⊢
  cases hresponds with
  | password _ hname hargs => exact absurd (congrArg₂ Command.mk hname hargs) hcmd
  | refused => rw [gateText_of_ne hcmd]
  | executed hserved =>
    rw [hgated] at hserved
    cases hserved

namespace Running

/-! ### Who has given the password -/

/-- The observer who notes whether a client has given the password since it was accepted. -/
def noteGiven (password : Bytes) (fd : Socket) (given : Bool) (_ : Running) : Event → Bool
  | .accept fd' => if fd' = fd then false else given
  | .command fd' cmd => if fd' = fd ∧ cmd = authCommand password then true else given
  | _ => given

/-- The client has given the password since it was accepted. -/
def HasGiven (password : Bytes) (fd : Socket) (past : List (Running × Event)) : Prop :=
  remember (noteGiven password fd) false past = true

/-- Whoever has given the password has done so as long as its connection lasts. -/
theorem HasGiven.snoc {password : Bytes} {fd : Socket} {past : List (Running × Event)}
    (h : HasGiven password fd past) (r : Running) {e : Event} (he : e ≠ .accept fd) :
    HasGiven password fd (past ++ [(r, e)]) := by
  rw [HasGiven, remember_snoc]
  cases e with
  | accept fd' =>
    rw [noteGiven, if_neg fun heq => he (by rw [heq])]
    exact h
  | command fd' cmd =>
    refine ite_eq_left_iff.mpr ?_
    intro _
    exact h
  | _ => exact h

/-- The password of the server does not change. -/
theorem Step.password {r r' : Running} {e : Event} (h : Step r e r') :
    r'.server.password = r.server.password := by
  cases h with
  | command => exact r.server.password_respond _ _
  | _ => rfl

/-- A client that is authenticated has just given the password, or it was authenticated before. -/
theorem Step.authenticated {r r' : Running} {e : Event} (h : Step r e r') {fd : Socket}
    (hfd : (r'.server.client fd).authenticated = true) :
    e = .command fd (authCommand r.server.password) ∨
      (r.server.client fd).authenticated = true ∧ e ≠ .accept fd := by
  cases h with
  | @accept _ fd' _ =>
    by_cases heq : fd = fd'
    · rw [heq, acceptClient, client_setClient_self] at hfd
      cases hfd
    · rw [acceptClient, client_setClient_of_ne _ heq] at hfd
      exact Or.inr ⟨hfd, by simpa using Ne.symm heq⟩
  | @command _ fd' _ _ cmd _ =>
    have hresponds := r.server.responds fd' cmd
    change ((r.server.respond fd' cmd).2.client fd).authenticated = true at hfd
    generalize r.server.respond fd' cmd = result at hresponds hfd
    cases hresponds with
    | password _ hname hargs =>
      by_cases heq : fd = fd'
      · refine Or.inl ?_
        rw [heq]
        exact congrArg (Event.command fd') (congrArg₂ Command.mk hname hargs)
      · rw [client_setClient_of_ne _ heq] at hfd
        exact Or.inr ⟨hfd, by simp⟩
    | refused | executed => exact Or.inr ⟨hfd, by simp⟩
  | @buffer _ fd' _ _ =>
    refine Or.inr ⟨?_, by simp⟩
    by_cases heq : fd = fd'
    · rw [heq, client_setClient_self] at hfd
      rw [heq]
      exact hfd
    · rwa [client_setClient_of_ne _ heq] at hfd
  | disconnect s fd' later =>
    refine Or.inr ⟨?_, by simp⟩
    by_cases heq : fd = fd'
    · rw [heq, client_disconnectClient_self] at hfd
      cases hfd
    · rwa [client_disconnectClient_of_ne _ heq] at hfd
  | quit | reject | hangUp | scan | reorder => exact Or.inr ⟨hfd, by simp⟩

/-- What holds of the clients after every run of a server with a password. -/
structure Guarded (password : Bytes) (past : List (Running × Event)) (r : Running) : Prop where
  /-- The password is the one the server was started with. -/
  unchanged : r.server.password = password
  /-- Whoever is authenticated has given the password. -/
  authenticated : ∀ fd, (r.server.client fd).authenticated = true → HasGiven password fd past
  /-- Whoever is in a channel has given the password. -/
  channels : ∀ fd c, r.server.world.pubsub.HasChannel fd c → HasGiven password fd past

/-- A step keeps the invariant. -/
theorem Guarded.step {password : Bytes} (hpassword : password ≠ []) {past : List (Running × Event)}
    {r r' : Running} {e : Event} (hg : Guarded password past r) (hs : Sound past r)
    (h : Step r e r') : Guarded password (past ++ [(r, e)]) r' where
  unchanged := h.password.trans hg.unchanged
  authenticated := by
    intro fd hfd
    rcases h.authenticated hfd with rfl | ⟨hbefore, hne⟩
    · rw [HasGiven, remember_snoc, noteGiven, hg.unchanged, if_pos ⟨rfl, rfl⟩]
    · exact (hg.authenticated fd hbefore).snoc r hne
  channels := by
    intro fd c hc
    rcases h.hasChannel hc with ⟨cmd, rfl, hcall⟩ | ⟨hbefore, _⟩
    · -- only a client that is served can subscribe
      refine (hg.authenticated fd ?_).snoc r (by simp)
      by_contra hclient
      have hgated := gated_of_not_authenticated (by rwa [hg.unchanged])
        (Bool.eq_false_of_not_eq_true hclient)
      rw [commandCall, if_pos hgated] at hcall
      cases hcall
    · refine (hg.channels fd c hbefore).snoc r ?_
      rintro rfl
      cases h with
      | accept _ hfd => exact hfd (hs.connected fd c hbefore)

/-- The invariant holds after every run. -/
theorem guarded_of_trace {s₀ : Server} (hs₀ : Fresh s₀) (hpassword : s₀.password ≠ [])
    {past : List (Running × Event)} {r : Running} (htrace : Trace Step ⟨s₀, []⟩ past r) :
    Guarded s₀.password past r := by
  induction htrace with
  | nil =>
    constructor
    · rfl
    · intro fd hfd
      rw [client, hs₀.clients] at hfd
      cases hfd
    · intro fd c hc
      rw [hs₀.pubsub] at hc
      simp [HasChannel, empty] at hc
  | snoc hbefore hstep ih => exact ih.step hpassword (sound_of_trace hs₀ hbefore) hstep

/-! ### What a step of one client means for the others -/

/-- A reply goes to the client that the event is about. -/
theorem Event.client_of_reply {s : Server} {e : Event} {x : Send} (hx : e.reply s = some x) :
    e.client = some x.socket := by
  cases e with
  | command | quit | reject =>
    cases hx
    rfl
  | _ => cases hx

/-- An event that is not about a client does not reply to it. -/
theorem Event.stream_reply_eq_nil {s : Server} {e : Event} {fd : Socket}
    (he : e.client ≠ some fd) : Send.stream fd (e.reply s).toList = [] := by
  cases hx : e.reply s with
  | none => rfl
  | some x =>
    have hne : fd ≠ x.socket := by
      rintro rfl
      exact he (client_of_reply hx)
    rw [Option.toList_some, Send.stream_cons, if_neg hne]
    rfl

/-- An event sends nothing to a client that it is not about if that client gets no published
message. -/
theorem Event.stream_sends_eq_nil {s : Server} {e : Event} {fd : Socket}
    (he : e.client ≠ some fd) (hpushes : ∀ x ∈ e.pushes s, x.socket ≠ fd) :
    Send.stream fd (e.sends s) = [] := by
  have hnone : (e.pushes s).filter (fun x => x.socket = fd) = [] := by
    rw [List.filter_eq_nil_iff]
    intro x hx hsocket
    exact hpushes x hx (of_decide_eq_true hsocket)
  rw [Event.sends, Send.stream_append, stream_reply_eq_nil he, Send.stream, hnone]
  rfl

/-- The entry of a client and its place among those that are about to be disconnected are not
changed by events about others. -/
theorem Step.lookup_of_ne {r r' : Running} {e : Event} (h : Step r e r') {fd : Socket}
    (he : e.client ≠ some fd) :
    r'.server.clients.lookup fd = r.server.clients.lookup fd ∧
      (fd ∈ r'.toDisconnect ↔ fd ∈ r.toDisconnect) := by
  have hother {fd' : Socket} (he' : some fd' ≠ some fd) : fd ≠ fd' := fun heq => he' (by rw [heq])
  have hlast {fd' : Socket} (he' : some fd' ≠ some fd) (closing : List Socket) :
      fd ∈ closing ++ [fd'] ↔ fd ∈ closing := by
    simp [hother he']
  cases h with
  | accept => exact ⟨AList.lookup_insert_ne (hother he), Iff.rfl⟩
  | @command _ fd' _ _ cmd _ =>
    refine ⟨?_, ?_⟩
    · have hresponds := r.server.responds fd' cmd
      change (r.server.respond fd' cmd).2.clients.lookup fd = _
      generalize r.server.respond fd' cmd = result at hresponds ⊢
      cases hresponds with
      | password => exact AList.lookup_insert_ne (hother he)
      | refused | executed => rfl
    · dsimp only
      split
      · rfl
      · exact hlast he _
  | quit | reject | hangUp => exact ⟨rfl, hlast he _⟩
  | buffer => exact ⟨AList.lookup_insert_ne (hother he), Iff.rfl⟩
  | disconnect s fd' later =>
    exact ⟨AList.lookup_erase_ne (hother he), by simp [hother he]⟩
  | scan | reorder => exact ⟨rfl, Iff.rfl⟩

/-- All that a step of a client may do that has not given the password. -/
structure Confined (fd : Socket) (r r' : Running) : Prop where
  /-- The database, the subscriptions, the files and the clock are not changed: only bytes are
  sent. -/
  world : r'.server.world = { r.server.world with net := r'.server.world.net }
  /-- The bytes are sent to the client itself. -/
  bytes : ∀ fd', fd' ≠ fd →
    r'.server.world.net.bytesTo fd' = r.server.world.net.bytesTo fd'
  /-- The other clients keep their entries. -/
  clients : ∀ fd', fd' ≠ fd → r'.server.clients.lookup fd' = r.server.clients.lookup fd'
  /-- The other connections are kept or closed as before. -/
  closing : ∀ fd', fd' ≠ fd → (fd' ∈ r'.toDisconnect ↔ fd' ∈ r.toDisconnect)

/-- An event about a client that is not served publishes nothing. -/
theorem Event.pushes_eq_nil {s : Server} {e : Event} {fd : Socket} (he : e.client = some fd)
    (hgated : s.gated fd = true) : e.pushes s = [] := by
  cases e with
  | command fd' cmd =>
    obtain rfl : fd' = fd := Option.some.inj he
    rw [pushes, call, commandCall, if_pos hgated]
    rfl
  | _ => rfl

/-- Disconnecting a client without channels leaves the pub/sub manager as it is. -/
theorem clientDisconnected_eq_self {p : PubSubManager} (hp : p.Indexed) {fd : Socket}
    (hfd : ∀ c, ¬ p.HasChannel fd c) : p.clientDisconnected fd = p := by
  have hnone : p.clientChannels.lookup fd = none := by
    rw [AList.lookup_eq_none]
    intro hmem
    obtain ⟨c, hc⟩ := (SetMap.exists_holds_iff (hp.not_emptyClient fd)).mpr hmem
    exact hfd c hc
  rw [clientDisconnected, hnone]

/-- A step about a client that is not served and has no channels is confined to that client. -/
theorem Step.confined {r r' : Running} {e : Event} (h : Step r e r') {fd : Socket}
    (he : e.client = some fd) (hindexed : r.server.world.pubsub.Indexed)
    (hgated : r.server.gated fd = true)
    (hchannels : ∀ c, ¬ r.server.world.pubsub.HasChannel fd c) : Confined fd r r' := by
  have hother {fd' : Socket} (hfd' : fd' ≠ fd) : e.client ≠ some fd' := by
    rw [he]
    exact fun heq => hfd' (Option.some.inj heq).symm
  constructor
  · cases h with
    | @command _ fd' _ _ cmd _ =>
      obtain rfl : fd' = fd := Option.some.inj he
      exact congrArg (fun w : World => { w with net := (r.server.serve fd' cmd).2.world.net })
        (world_respond_of_gated hgated cmd)
    | disconnect s fd' later =>
      obtain rfl : fd' = fd := Option.some.inj he
      change { s.world with pubsub := s.world.pubsub.clientDisconnected fd' } = s.world
      rw [clientDisconnected_eq_self hindexed hchannels]
    | accept | quit | reject | hangUp | buffer => rfl
    | scan | reorder => cases he
  · intro fd' hfd'
    have hpushes : ∀ x ∈ e.pushes r.server, x.socket ≠ fd' := by
      rw [Event.pushes_eq_nil he hgated]
      simp
    rw [h.logs, Event.stream_sends_eq_nil (hother hfd') hpushes, List.append_nil]
  · intro fd' hfd'
    exact (h.lookup_of_ne (hother hfd')).1
  · intro fd' hfd'
    exact (h.lookup_of_ne (hother hfd')).2

/-- What a client without channels can notice of steps about others: nothing. -/
structure Unnoticed (fd : Socket) (r r' : Running) : Prop where
  /-- It keeps its entry. -/
  lookup : r'.server.clients.lookup fd = r.server.clients.lookup fd
  /-- Its connection is kept or closed as before. -/
  closing : fd ∈ r'.toDisconnect ↔ fd ∈ r.toDisconnect
  /-- Nothing is sent to it. -/
  bytes : r'.server.world.net.bytesTo fd = r.server.world.net.bytesTo fd
  /-- It gets no channels. -/
  channels : ∀ c, ¬ r'.server.world.pubsub.HasChannel fd c

/-- A step about others goes unnoticed. -/
theorem Step.unnoticed {r r' : Running} {e : Event} (h : Step r e r') {fd : Socket}
    (he : e.client ≠ some fd) (hindexed : r.server.world.pubsub.Indexed)
    (hchannels : ∀ c, ¬ r.server.world.pubsub.HasChannel fd c) : Unnoticed fd r r' where
  lookup := (h.lookup_of_ne he).1
  closing := (h.lookup_of_ne he).2
  bytes := by
    have hpushes : ∀ x ∈ e.pushes r.server, x.socket ≠ fd := by
      rintro x hx rfl
      obtain ⟨c, hc⟩ := exists_hasChannel_of_mem_pushes hindexed hx
      exact hchannels c hc
    rw [h.logs, Event.stream_sends_eq_nil he hpushes, List.append_nil]
  channels := by
    intro c hc
    rcases h.hasChannel hc with ⟨cmd, rfl, _⟩ | ⟨hbefore, _⟩
    · exact he rfl
    · exact hchannels c hbefore

/-- So does any number of steps. -/
theorem unnoticed_of_trace {r r' : Running} {past : List (Running × Event)}
    (htrace : Trace Step r past r') {fd : Socket} (hpast : ∀ p ∈ past, p.2.client ≠ some fd)
    (hindexed : r.server.world.pubsub.Indexed)
    (hchannels : ∀ c, ¬ r.server.world.pubsub.HasChannel fd c) :
    Unnoticed fd r r' ∧ r'.server.world.pubsub.Indexed := by
  induction htrace with
  | nil => exact ⟨⟨rfl, Iff.rfl, rfl, hchannels⟩, hindexed⟩
  | snoc _ hstep ih =>
    obtain ⟨hbefore, hindexed'⟩ := ih fun p hp => hpast p (List.mem_append_left _ hp)
    have hlast := hstep.unnoticed (hpast _ (List.mem_append_right _ List.mem_cons_self)) hindexed'
      hbefore.channels
    refine ⟨⟨hlast.lookup.trans hbefore.lookup, hlast.closing.trans hbefore.closing,
      hlast.bytes.trans hbefore.bytes, hlast.channels⟩, hstep.indexed hindexed'⟩

/-- Steps about others connect nobody else. -/
theorem mem_clients_of_trace {r r' : Running} {past : List (Running × Event)}
    (htrace : Trace Step r past r') {fd : Socket} (hpast : ∀ p ∈ past, p.2.client ≠ some fd)
    (hfd : fd ∈ r'.server.clients) : fd ∈ r.server.clients := by
  induction htrace with
  | nil => exact hfd
  | snoc _ hstep ih =>
    refine ih (fun p hp => hpast p (List.mem_append_left _ hp)) ?_
    rcases (hstep.mem_clients_iff fd).mp hfd with rfl | ⟨hmem, _⟩
    · exact absurd rfl (hpast _ (List.mem_append_right _ List.mem_cons_self))
    · exact hmem

end Running

end Server

end MyRedis
