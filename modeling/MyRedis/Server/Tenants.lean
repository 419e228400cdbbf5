import MyRedis.Database.Commuting
import MyRedis.Server.ServiceRefinement

/-!
# Clients with keys and channels of their own

Some clients use certain keys and channels, and all other clients keep away from these: a `Tenant`
is such a group of clients with its keys and channels.  What the clients of a tenant see of a run is
then a run of the service by itself, in which nobody else is there (`Service.tenantSimulation`).
The other clients change neither the messages nor the answers that the tenant gets, as far as the
service determines them, and the tenant learns nothing about the contents of the other keys.  What
the service leaves open can depend on the others: a `KEYS` of another client removes a key of the
tenant whose deadline has been reached, and a later `DEL` of the tenant does not count it any more.

The proof follows the plans: an operation within the keys of the tenant has the same result and the
same effect on them in any store that agrees on these keys, and an operation outside of them has no
effect there.  Commands about the whole database are not within any keys, so that a tenant uses none
of `KEYS`, `DBSIZE`, `FLUSHDB` and `INFO`; the others may use all of them but `FLUSHDB`.
-/

namespace MyRedis

open Foundation Resp PubSubManager

/-! ### Operations within and outside of a set of keys -/

namespace DbOp

variable {op : DbOp} {K : Set Bytes}

/-- The operation works on keys of the set only. -/
def Within (K : Set Bytes) (op : DbOp) : Prop := op.Keyed ∧ ∀ k ∈ op.keyList, k ∈ K

/-- The operation changes no key of the set. -/
def Outside (K : Set Bytes) (op : DbOp) : Prop := op ≠ .flushdb ∧ ∀ k ∈ op.keyList, k ∉ K

/-- An operation has no effect on keys that it is not given. -/
theorem effect_of_notMem (hop : op ≠ .flushdb) (now : TimePoint) (v : View) {k : Bytes}
    (hk : k ∉ op.keyList) : op.effect now v k = v k := by
  cases op with
  | flushdb => exact absurd rfl hop
  | del ks => exact if_neg hk
  | set | lpush | rpush | lpop | rpop | expire | persist =>
    exact Function.update_of_ne (List.ne_of_not_mem_cons hk) _ _
  | get | exists_ | keys | dbsize | lrange | llen | lindex | ttl => rfl

/-- Its effect on the keys that it is given depends on these keys only. -/
theorem effect_congr (hop : op.Within K) (now : TimePoint) {v v' : View}
    (h : ∀ k ∈ K, v k = v' k) {k : Bytes} (hk : k ∈ K) :
    op.effect now v k = op.effect now v' k := by
  have hupdate {key : Bytes} (hkey : key ∈ K) (f : Option Entry → Option Entry) :
      Function.update v key (f (v key)) k = Function.update v' key (f (v' key)) k := by
    by_cases hne : k = key
    · subst hne
      rw [Function.update_self, Function.update_self, h k hk]
    · rw [Function.update_of_ne hne, Function.update_of_ne hne, h k hk]
  cases op with
  | keys | dbsize | flushdb => exact hop.1.elim
  | del ks => simp only [effect, h k hk]
  | get | exists_ | lrange | llen | lindex | ttl => exact h k hk
  | set key value => exact hupdate (hop.2 key List.mem_cons_self) fun _ => some (.str value, none)
  | lpush key values =>
    exact hupdate (hop.2 key List.mem_cons_self)
      (Cell.pushLive (fun list value => value :: list) values)
  | rpush key values =>
    exact hupdate (hop.2 key List.mem_cons_self)
      (Cell.pushLive (fun list value => list ++ [value]) values)
  | lpop key => exact hupdate (hop.2 key List.mem_cons_self) (Cell.popLive List.tail)
  | rpop key => exact hupdate (hop.2 key List.mem_cons_self) (Cell.popLive List.dropLast)
  | expire key seconds => exact hupdate (hop.2 key List.mem_cons_self) (Cell.expireLive now seconds)
  | persist key => exact hupdate (hop.2 key List.mem_cons_self) fun o => o.map fun e => (e.1, none)

end DbOp

/-- Two stores look the same at the keys of a set. -/
def TimedStore.AgreeOn (K : Set Bytes) (now : TimePoint) (m m' : TimedStore) : Prop :=
  ∀ k ∈ K, m.lookupAt now k = m'.lookupAt now k

namespace TimedStore.AgreeOn

variable {K : Set Bytes} {now now' : TimePoint} {m m' : TimedStore} {op : DbOp}

/-- The same keys of the set exist. -/
theorem countP_isSome_eq (h : AgreeOn K now m m') (ks : List Bytes) (hks : ∀ k ∈ ks, k ∈ K) :
    (ks.countP fun key => (m.lookupAt now key).isSome) =
      ks.countP fun key => (m'.lookupAt now key).isSome := by
  refine List.countP_congr ?_
  intro key hkey
  rw [h key (hks key hkey)]

/-- They keep looking the same while the time passes. -/
theorem later (h : AgreeOn K now m m') (hle : now ≤ now') : AgreeOn K now' m m' := by
  intro k hk
  rw [TimedMap.lookupAt_mono hle, TimedMap.lookupAt_mono hle, h k hk]

/-- An operation within the set looks at the same lists, keys and deadlines. -/
theorem fits_iff (h : AgreeOn K now m m') (hop : op.Within K) : m.Fits now op ↔ m'.Fits now op := by
  cases op with
  | keys | dbsize | flushdb => exact hop.1.elim
  | exists_ ks => simp only [TimedStore.Fits, countP_isSome_eq h ks hop.2]
  | lpush key | rpush key | lrange key | llen key | lindex key | ttl key =>
    simp only [TimedStore.Fits, TimedStore.listAt, h key (hop.2 key List.mem_cons_self)]
  | set | get | del | lpop | rpop | expire | persist => exact Iff.rfl

/-- An operation within the set has the same result. -/
theorem result_eq (h : AgreeOn K now m m') (hop : op.Within K) :
    (TimedStore.apply now m op).1 = (TimedStore.apply now m' op).1 := by
  cases op with
  | keys | dbsize | flushdb => exact hop.1.elim
  | set => rfl
  | del ks =>
    have hlisted : (Database.listed ks fun key => (m.lookupAt now key).isSome) =
        Database.listed ks fun key => (m'.lookupAt now key).isSome := by
      refine Finset.filter_congr ?_
      intro key hkey
      simp only [h key (hop.2 key (List.mem_toFinset.mp hkey))]
    simp only [TimedStore.apply, hlisted]
  | exists_ ks => simp only [TimedStore.apply, countP_isSome_eq h ks hop.2]
  | get key | lrange key | lindex key =>
    simp only [TimedStore.apply, TimedStore.listAt, h key (hop.2 key List.mem_cons_self)]
  | lpush key | rpush key | lpop key | rpop key | llen key =>
    simp only [TimedStore.apply, TimedStore.push, TimedStore.pop,
      h key (hop.2 key List.mem_cons_self)]
    rcases m'.lookupAt now key with _ | ⟨_ | _, _⟩ <;> rfl
  | expire key | ttl key | persist key =>
    simp only [TimedStore.apply, h key (hop.2 key List.mem_cons_self)]
    rcases m'.lookupAt now key with _ | ⟨_, _ | _⟩ <;> rfl

/-- An operation within the set keeps them looking the same. -/
theorem apply (h : AgreeOn K now m m') (hop : op.Within K) :
    AgreeOn K now (TimedStore.apply now m op).2 (TimedStore.apply now m' op).2 := by
  intro k hk
  rw [TimedStore.lookupAt_apply, TimedStore.lookupAt_apply]
  exact DbOp.effect_congr hop now h hk

/-- An operation outside of the set may be carried out in one of them only. -/
theorem apply_outside (h : AgreeOn K now m m') (hop : op.Outside K) :
    AgreeOn K now (TimedStore.apply now m op).2 m' := by
  intro k hk
  rw [TimedStore.lookupAt_apply, DbOp.effect_of_notMem hop.1 now _ fun hmem => hop.2 k hmem hk]
  exact h k hk

end TimedStore.AgreeOn

/-! ### Tenants -/

/-- A group of clients with keys and channels of their own. -/
structure Tenant where
  /-- The sockets of its clients. -/
  clients : Finset Socket
  /-- Its keys. -/
  keys : Set Bytes
  /-- Its channels. -/
  channels : Set Bytes

/-- All operations of the query work on keys of the set only. -/
def Query.Within (K : Set Bytes) : Query → Prop
  | .say _ => True
  | .ask op _ => op.Within K
  | .first op next => op.Within K ∧ next.Within K
  | .readClock next => ∀ t, (next t).Within K

/-- No operation of the query changes a key of the set. -/
def Query.Outside (K : Set Bytes) : Query → Prop
  | .say _ => True
  | .ask op _ => op.Outside K
  | .first op next => op.Outside K ∧ next.Outside K
  | .readClock next => ∀ t, (next t).Outside K

/-- A plan that uses the keys and channels of the tenant only. -/
def Plan.Within (T : Tenant) : Plan → Prop
  | .query q => q.Within T.keys
  | .save _ _ => True
  | .subscribe channels | .unsubscribe channels => ∀ c ∈ channels, c ∈ T.channels
  | .publish channel _ => channel ∈ T.channels

/-- A plan that keeps away from the keys and channels of the tenant. -/
def Plan.Outside (T : Tenant) : Plan → Prop
  | .query q => q.Outside T.keys
  | .save _ _ | .unsubscribe _ => True
  | .subscribe channels => ∀ c ∈ channels, c ∉ T.channels
  | .publish channel _ => channel ∉ T.channels

/-- A plan within keys and channels is not the one of `INFO`, and does not depend on the server. -/
theorem Plan.ofCommand_eq_of_within {T : Tenant} {server : Option ServerInfo} {cmd : Command}
    (h : (Plan.ofCommand server cmd).Within T) (server' : Option ServerInfo) :
    Plan.ofCommand server cmd = Plan.ofCommand server' cmd := by
  by_cases hname : cmd.name = ascii "INFO"
  · rw [Plan.ofCommand_of_lookup hname rfl] at h
    cases server with
    | none => exact h.1.elim
    | some server => exact (h 0).1.elim
  · exact Plan.ofCommand_congr hname server server'

namespace Service

/-- The client that an event is about. -/
def Event.client : Event → Socket
  | .join fd | .leave fd | .answer fd _ _ _ => fd

/-- The messages that are sent to subscribers. -/
def Event.sends : Event → List Send
  | .join _ | .leave _ => []
  | .answer _ _ _ sends => sends

/-- The clients of the tenant use its keys and channels only, and the others keep away from them. -/
def Event.Respects (T : Tenant) : Event → Prop
  | .join _ | .leave _ => True
  | .answer fd cmd _ _ => ∀ server,
    (fd ∈ T.clients → (Plan.ofCommand server cmd).Within T) ∧
      (fd ∉ T.clients → (Plan.ofCommand server cmd).Outside T)

/-- The subscriptions of the clients of the tenant. -/
def ownSubs (T : Tenant) (subs : Set (Socket × Bytes)) : Set (Socket × Bytes) :=
  {x ∈ subs | x.1 ∈ T.clients}

section Subscriptions

variable {T : Tenant} {fd : Socket}

theorem ownSubs_listen (hfd : fd ∈ T.clients) (subs : Set (Socket × Bytes)) (c : Bytes) :
    ownSubs T (listen fd subs c) = listen fd (ownSubs T subs) c := by
  ext ⟨fd', c'⟩
  simp only [ownSubs, listen, Set.mem_ofPred_eq, Set.mem_insert_iff, Prod.mk.injEq]
  constructor
  · rintro ⟨hmem | hmem, hown⟩
    · exact Or.inl hmem
    · exact Or.inr ⟨hmem, hown⟩
  · rintro (⟨rfl, rfl⟩ | ⟨hmem, hown⟩)
    · exact ⟨Or.inl ⟨rfl, rfl⟩, hfd⟩
    · exact ⟨Or.inr hmem, hown⟩

theorem ownSubs_listen_of_notMem (hfd : fd ∉ T.clients) (subs : Set (Socket × Bytes)) (c : Bytes) :
    ownSubs T (listen fd subs c) = ownSubs T subs := by
  ext ⟨fd', c'⟩
  simp only [ownSubs, listen, Set.mem_ofPred_eq, Set.mem_insert_iff, Prod.mk.injEq]
  constructor
  · rintro ⟨⟨rfl, _⟩ | hmem, hown⟩
    · exact absurd hown hfd
    · exact ⟨hmem, hown⟩
  · rintro ⟨hmem, hown⟩
    exact ⟨Or.inr hmem, hown⟩

theorem ownSubs_unlisten (T : Tenant) (fd : Socket) (subs : Set (Socket × Bytes)) (c : Bytes) :
    ownSubs T (unlisten fd subs c) = unlisten fd (ownSubs T subs) c := by
  ext x
  simp only [ownSubs, unlisten, Set.mem_ofPred_eq, Set.mem_sdiff, and_right_comm]

theorem ownSubs_unlisten_of_notMem (hfd : fd ∉ T.clients) (subs : Set (Socket × Bytes))
    (c : Bytes) : ownSubs T (unlisten fd subs c) = ownSubs T subs := by
  ext x
  simp only [ownSubs, unlisten, Set.mem_ofPred_eq, Set.mem_sdiff, Set.mem_singleton_iff]
  refine and_congr_left ?_
  intro hown
  refine and_iff_left ?_
  rintro rfl
  exact hfd hown

/-- The number of channels of a client of the tenant. -/
theorem channelCount_ownSubs (hfd : fd ∈ T.clients) (subs : Set (Socket × Bytes)) :
    channelCount fd subs = channelCount fd (ownSubs T subs) := by
  simp [channelCount, ownSubs, hfd]

/-- A loop over channels that goes along with the restriction to the tenant. -/
theorem counted_ownSubs {change : Set (Socket × Bytes) → Bytes → Set (Socket × Bytes)}
    (hfd : fd ∈ T.clients)
    (hchange : ∀ subs c, ownSubs T (change subs c) = change (ownSubs T subs) c)
    (channels : List Bytes) (subs : Set (Socket × Bytes)) :
    counted change fd channels subs = counted change fd channels (ownSubs T subs) ∧
      ownSubs T (channels.foldl change subs) = channels.foldl change (ownSubs T subs) := by
  refine foldl_collectStep_related
    (R := fun subs own : Set (Socket × Bytes) => ownSubs T subs = own) ?_ ?_ channels [] rfl
  · rintro subs _ c rfl
    exact hchange subs c
  · rintro subs _ c rfl
    rw [channelCount_ownSubs hfd]

/-- A loop over channels that the tenant does not notice. -/
theorem ownSubs_foldl {change : Set (Socket × Bytes) → Bytes → Set (Socket × Bytes)}
    (hchange : ∀ subs c, ownSubs T (change subs c) = ownSubs T subs) (channels : List Bytes)
    (subs : Set (Socket × Bytes)) : ownSubs T (channels.foldl change subs) = ownSubs T subs := by
  refine List.foldlRecOn
    (motive := fun subs' : Set (Socket × Bytes) => ownSubs T subs' = ownSubs T subs) channels change
    rfl ?_
  intro subs' h c _
  rw [hchange, h]

/-- Who listens after a client has subscribed. -/
theorem mem_foldl_listen {channels : List Bytes} {subs : Set (Socket × Bytes)} {fd' : Socket}
    {c : Bytes} : (fd', c) ∈ channels.foldl (listen fd) subs ↔
      (fd', c) ∈ subs ∨ fd' = fd ∧ c ∈ channels := by
  refine (foldl_or (P := fun subs : Set (Socket × Bytes) => (fd', c) ∈ subs)
    (Q := fun channel => fd' = fd ∧ c = channel) (listen fd) ?_ channels subs).trans ?_
  · intro subs channel
    simp [listen, or_comm]
  · simp [and_comm]

/-- Who listens after a client has unsubscribed did so before. -/
theorem mem_of_mem_foldl_unlisten {channels : List Bytes} {subs : Set (Socket × Bytes)}
    {x : Socket × Bytes} (hx : x ∈ channels.foldl (unlisten fd) subs) : x ∈ subs :=
  of_foldl (P := fun subs : Set (Socket × Bytes) => x ∈ subs) (fun _ _ h => h.1) channels hx

end Subscriptions

/-- The second service is the first one as the tenant sees it. -/
structure Private (T : Tenant) (a b : Service) : Prop where
  /-- The keys of the tenant. -/
  store : TimedStore.AgreeOn T.keys a.now a.store b.store
  /-- Nothing has happened later. -/
  now : b.now ≤ a.now
  /-- The subscriptions of the clients of the tenant. -/
  subs : b.subs = ownSubs T a.subs
  /-- Exactly these clients listen to the channels of the tenant. -/
  channels : ∀ fd c, (fd, c) ∈ a.subs → (fd ∈ T.clients ↔ c ∈ T.channels)
  /-- The clients of the tenant. -/
  clients : ∀ fd ∈ T.clients, (fd ∈ b.clients ↔ fd ∈ a.clients)
  /-- Those that have given the password. -/
  admitted : ∀ fd ∈ T.clients, (fd ∈ b.admitted ↔ fd ∈ a.admitted)

namespace Private

variable {T : Tenant} {a a' b : Service}

/-- A query of the tenant is answered in the same way. -/
theorem answers_within {q : Query} {text : Bytes} (hanswers : Answers a q text a')
    (h : Private T a b) (hq : q.Within T.keys) :
    ∃ b', Answers b q text b' ∧ Private T a' b' := by
  induction hanswers generalizing b with
  | say a text => exact ⟨b, .say b text, h⟩
  | @ask a now op r text hnow hr =>
    have hlater := h.store.later hnow
    rw [hlater.result_eq hq, hlater.fits_iff hq] at hr
    exact ⟨_, .ask text (h.now.trans hnow) hr, hlater.apply hq, le_rfl, h.subs, h.channels,
      h.clients, h.admitted⟩
  | @first a a' now op next text hnow _ ih =>
    have hfirst : Private T (a.carryOut now op) (b.carryOut now op) :=
      ⟨(h.store.later hnow).apply hq.1, le_rfl, h.subs, h.channels, h.clients, h.admitted⟩
    obtain ⟨b', hb', hprivate⟩ := ih hfirst hq.2
    exact ⟨b', .first (h.now.trans hnow) hb', hprivate⟩
  | @readClock a a' now next text hnow _ ih =>
    have hread : Private T { a with now := now } { b with now := now } :=
      ⟨h.store.later hnow, le_rfl, h.subs, h.channels, h.clients, h.admitted⟩
    obtain ⟨b', hb', hprivate⟩ := ih hread (hq now)
    exact ⟨b', .readClock (h.now.trans hnow) hb', hprivate⟩

/-- A query of another client is not noticed. -/
theorem answers_outside {q : Query} {text : Bytes} (hanswers : Answers a q text a')
    (h : Private T a b) (hq : q.Outside T.keys) : Private T a' b := by
  induction hanswers with
  | say a text => exact h
  | @ask a now op r text hnow hr =>
    exact ⟨(h.store.later hnow).apply_outside hq, h.now.trans hnow, h.subs, h.channels, h.clients,
      h.admitted⟩
  | @first a a' now op next text hnow _ ih =>
    exact ih ⟨(h.store.later hnow).apply_outside hq.1, h.now.trans hnow, h.subs, h.channels,
      h.clients, h.admitted⟩ hq.2
  | @readClock a a' now next text hnow _ ih =>
    exact ih ⟨h.store.later hnow, h.now.trans hnow, h.subs, h.channels, h.clients, h.admitted⟩
      (hq now)

variable {fd : Socket}

/-- Other subscriptions. -/
theorem withSubs (h : Private T a b) {subs own : Set (Socket × Bytes)}
    (hsubs : own = ownSubs T subs)
    (hchannels : ∀ fd c, (fd, c) ∈ subs → (fd ∈ T.clients ↔ c ∈ T.channels)) :
    Private T { a with subs := subs } { b with subs := own } :=
  ⟨h.store, h.now, hsubs, hchannels, h.clients, h.admitted⟩

/-- A plan of a client of the tenant is carried out in the same way. -/
theorem carriesOut_within {plan : Plan} {text : Bytes} {sends : List Send}
    (hcarries : CarriesOut fd a plan text sends a') (h : Private T a b) (hfd : fd ∈ T.clients)
    (hplan : plan.Within T) : ∃ b', CarriesOut fd b plan text sends b' ∧ Private T a' b' := by
  cases hcarries with
  | query hanswers =>
    obtain ⟨b', hb', hprivate⟩ := answers_within hanswers h hplan
    exact ⟨b', .query hb', hprivate⟩
  | save filepath text ok => exact ⟨b, .save b filepath text ok, h⟩
  | subscribe channels =>
    obtain ⟨hcounts, hsubs⟩ := counted_ownSubs hfd (ownSubs_listen hfd) channels a.subs
    rw [← h.subs] at hcounts hsubs
    rw [hcounts]
    refine ⟨_, .subscribe b channels, h.withSubs hsubs.symm ?_⟩
    intro fd' c hmem
    rcases mem_foldl_listen.mp hmem with hmem | ⟨rfl, hc⟩
    · exact h.channels fd' c hmem
    · exact iff_of_true hfd (hplan c hc)
  | unsubscribeNone hnone =>
    refine ⟨b, .unsubscribeNone ?_, h⟩
    intro c hmem
    rw [h.subs] at hmem
    exact hnone c hmem.1
  | @unsubscribe channels order hne hgiven hall =>
    obtain ⟨hcounts, hsubs⟩ := counted_ownSubs hfd (ownSubs_unlisten T fd) order a.subs
    rw [← h.subs] at hcounts hsubs
    rw [hcounts]
    refine ⟨_, .unsubscribe hne hgiven ?_, h.withSubs hsubs.symm ?_⟩
    · intro hnil
      refine ⟨(hall hnil).1, ?_⟩
      intro c
      rw [(hall hnil).2 c, h.subs]
      exact (and_iff_left hfd).symm
    · intro fd' c hmem
      exact h.channels fd' c (mem_of_mem_foldl_unlisten hmem)
  | @publish channel message _ hnodup hsockets hdata =>
    refine ⟨_, .publish hnodup ?_ hdata, h.withSubs ?_ ?_⟩
    · intro fd'
      rw [hsockets, h.subs]
      refine (and_iff_left_of_imp ?_).symm
      intro hmem
      exact (h.channels fd' channel hmem).mpr hplan
    · rw [h.subs]
      ext x
      simp only [ownSubs, Set.mem_ofPred_eq, and_right_comm]
    · intro fd' c hmem
      exact h.channels fd' c hmem.1

/-- A plan of another client is not noticed. -/
theorem carriesOut_outside {plan : Plan} {text : Bytes} {sends : List Send}
    (hcarries : CarriesOut fd a plan text sends a') (h : Private T a b) (hfd : fd ∉ T.clients)
    (hplan : plan.Outside T) : Private T a' b := by
  cases hcarries with
  | query hanswers => exact answers_outside hanswers h hplan
  | save => exact h
  | subscribe channels =>
    refine h.withSubs ?_ ?_
    · rw [ownSubs_foldl (ownSubs_listen_of_notMem hfd), h.subs]
    · intro fd' c hmem
      rcases mem_foldl_listen.mp hmem with hmem | ⟨rfl, hc⟩
      · exact h.channels fd' c hmem
      · exact iff_of_false hfd (hplan c hc)
  | unsubscribeNone => exact h
  | unsubscribe =>
    refine h.withSubs ?_ ?_
    · rw [ownSubs_foldl (ownSubs_unlisten_of_notMem hfd), h.subs]
    · intro fd' c hmem
      exact h.channels fd' c (mem_of_mem_foldl_unlisten hmem)
  | @publish channel message _ hnodup hsockets hdata =>
    refine h.withSubs ?_ ?_
    · -- whoever listened to this channel is not a client of the tenant
      rw [h.subs]
      ext ⟨fd', c⟩
      simp only [ownSubs, Set.mem_ofPred_eq]
      constructor
      · rintro ⟨hmem, hown⟩
        refine ⟨⟨hmem, ?_⟩, hown⟩
        rintro ⟨rfl, _⟩
        exact hplan ((h.channels fd' c hmem).mp hown)
      · rintro ⟨⟨hmem, _⟩, hown⟩
        exact ⟨hmem, hown⟩
    · intro fd' c hmem
      exact h.channels fd' c hmem.1

/-- A plan of another client sends nothing to the clients of the tenant. -/
theorem sends_outside {plan : Plan} {text : Bytes} {sends : List Send}
    (hcarries : CarriesOut fd a plan text sends a') (h : Private T a b) (hplan : plan.Outside T) :
    ∀ x ∈ sends, x.socket ∉ T.clients := by
  cases hcarries with
  | publish _ hsockets _ =>
    intro x hx hown
    have hmem := (hsockets x.socket).mp (List.mem_map_of_mem hx)
    exact hplan ((h.channels _ _ hmem).mp hown)
  | query | save | subscribe | unsubscribeNone | unsubscribe => simp

/-- The gate is the same for the clients of the tenant. -/
theorem gated_iff (h : Private T a b) (hfd : fd ∈ T.clients) (password : Bytes) :
    Gated password b fd ↔ Gated password a fd := by
  rw [Gated, Gated, h.admitted fd hfd]

/-- So is the restriction of subscribed clients. -/
theorem restricted_iff (h : Private T a b) (hfd : fd ∈ T.clients) (cmd : Command) :
    b.Restricted fd cmd ↔ a.Restricted fd cmd := by
  unfold Restricted
  rw [h.subs]
  simp [ownSubs, hfd]

/-! #### Connections -/

/-- A client of the tenant connects. -/
theorem join (h : Private T a b) (fd : Socket) :
    Private T { a with clients := insert fd a.clients, admitted := a.admitted \ {fd} }
      { b with clients := insert fd b.clients, admitted := b.admitted \ {fd} } where
  store := h.store
  now := h.now
  subs := h.subs
  channels := h.channels
  clients fd' hfd' := by rw [Finset.mem_insert, Finset.mem_insert, h.clients fd' hfd']
  admitted fd' hfd' := by rw [Set.mem_sdiff, Set.mem_sdiff, h.admitted fd' hfd']

/-- Another client connects. -/
theorem join_other (h : Private T a b) (hfd : fd ∉ T.clients) :
    Private T { a with clients := insert fd a.clients, admitted := a.admitted \ {fd} } b where
  store := h.store
  now := h.now
  subs := h.subs
  channels := h.channels
  clients fd' hfd' := by
    rw [h.clients fd' hfd', Finset.mem_insert, or_iff_right (ne_of_mem_of_not_mem hfd' hfd)]
  admitted fd' hfd' := by
    rw [h.admitted fd' hfd', Set.mem_sdiff]
    exact (and_iff_left (ne_of_mem_of_not_mem hfd' hfd)).symm

/-- A client of the tenant leaves. -/
theorem leave (h : Private T a b) (fd : Socket) :
    Private T { a with clients := a.clients.erase fd, admitted := a.admitted \ {fd},
                       subs := {x ∈ a.subs | x.1 ≠ fd} }
      { b with clients := b.clients.erase fd, admitted := b.admitted \ {fd},
               subs := {x ∈ b.subs | x.1 ≠ fd} } where
  store := h.store
  now := h.now
  subs := by
    rw [h.subs]
    ext x
    simp only [ownSubs, Set.mem_ofPred_eq, and_right_comm]
  channels fd' c hmem := h.channels fd' c hmem.1
  clients fd' hfd' := by rw [Finset.mem_erase, Finset.mem_erase, h.clients fd' hfd']
  admitted fd' hfd' := by rw [Set.mem_sdiff, Set.mem_sdiff, h.admitted fd' hfd']

/-- Another client leaves. -/
theorem leave_other (h : Private T a b) (hfd : fd ∉ T.clients) :
    Private T { a with clients := a.clients.erase fd, admitted := a.admitted \ {fd},
                       subs := {x ∈ a.subs | x.1 ≠ fd} } b where
  store := h.store
  now := h.now
  subs := by
    rw [h.subs]
    ext x
    simp only [ownSubs, Set.mem_ofPred_eq]
    refine and_congr_left ?_
    intro hown
    exact (and_iff_left (ne_of_mem_of_not_mem hown hfd)).symm
  channels fd' c hmem := h.channels fd' c hmem.1
  clients fd' hfd' := by
    rw [h.clients fd' hfd', Finset.mem_erase, and_iff_right (ne_of_mem_of_not_mem hfd' hfd)]
  admitted fd' hfd' := by
    rw [h.admitted fd' hfd', Set.mem_sdiff]
    exact (and_iff_left (ne_of_mem_of_not_mem hfd' hfd)).symm

/-- A client of the tenant gives the password. -/
theorem authenticate (h : Private T a b) (fd : Socket) :
    Private T { a with admitted := insert fd a.admitted }
      { b with admitted := insert fd b.admitted } where
  store := h.store
  now := h.now
  subs := h.subs
  channels := h.channels
  clients := h.clients
  admitted fd' hfd' := by rw [Set.mem_insert_iff, Set.mem_insert_iff, h.admitted fd' hfd']

/-- Another client gives the password. -/
theorem authenticate_other (h : Private T a b) (hfd : fd ∉ T.clients) :
    Private T { a with admitted := insert fd a.admitted } b where
  store := h.store
  now := h.now
  subs := h.subs
  channels := h.channels
  clients := h.clients
  admitted fd' hfd' := by
    rw [h.admitted fd' hfd', Set.mem_insert_iff, or_iff_right (ne_of_mem_of_not_mem hfd' hfd)]

end Private

/-- What can be seen by the clients of the tenant. -/
def tenantSees (T : Tenant) (_ : Service) (e : Event) : Option Event :=
  if e.client ∈ T.clients then some e else none

/-- The service simulates the service that the tenant sees. -/
theorem tenantSimulation (T : Tenant) (password : Bytes) (startTime : TimePoint) :
    Simulation (fun a e a' => Step password startTime a e a' ∧ e.Respects T)
      (Step password startTime) (tenantSees T) (Private T) where
  silent := by
    rintro a e a' b h ⟨hstep, hrespects⟩ hsee
    have hfd : e.client ∉ T.clients := by
      intro hmem
      rw [tenantSees, if_pos hmem] at hsee
      cases hsee
    cases hstep with
    | join _ => exact h.join_other hfd
    | leave => exact h.leave_other hfd
    | authenticate _ _ _ _ => exact h.authenticate_other hfd
    | refuse | restrict | transaction => exact h
    | command _ _ _ _ hplan => exact h.carriesOut_outside hplan hfd ((hrespects _).2 hfd)
  visible := by
    rintro a e a' b o h ⟨hstep, hrespects⟩ hsee
    obtain ⟨hfd, heq⟩ := Option.ite_none_right_eq_some.mp hsee
    cases heq
    cases hstep with
    | join hnew => exact ⟨_, .join fun hmem => hnew ((h.clients _ hfd).mp hmem), h.join _⟩
    | leave => exact ⟨_, .leave b _, h.leave _⟩
    | authenticate hclient hgated hname hargs =>
      exact ⟨_, .authenticate ((h.clients _ hfd).mpr hclient) ((h.gated_iff hfd _).mpr hgated)
        hname hargs, h.authenticate _⟩
    | refuse hclient hgated hcmd =>
      exact ⟨b, .refuse ((h.clients _ hfd).mpr hclient) ((h.gated_iff hfd _).mpr hgated) hcmd, h⟩
    | restrict hclient hserved hrestricted =>
      exact ⟨b, .restrict ((h.clients _ hfd).mpr hclient) (mt (h.gated_iff hfd _).mp hserved)
        ((h.restricted_iff hfd _).mpr hrestricted), h⟩
    | transaction hclient hserved hfree hname =>
      exact ⟨b, .transaction ((h.clients _ hfd).mpr hclient) (mt (h.gated_iff hfd _).mp hserved)
        (mt (h.restricted_iff hfd _).mp hfree) hname, h⟩
    | command hclient hserved hfree hname hplan =>
      obtain ⟨b', hb', hprivate⟩ := h.carriesOut_within hplan hfd ((hrespects _).1 hfd)
      rw [Plan.ofCommand_eq_of_within ((hrespects _).1 hfd) (some ⟨startTime, b.clients.card⟩)]
        at hb'
      exact ⟨b', .command ((h.clients _ hfd).mpr hclient) (mt (h.gated_iff hfd _).mp hserved)
        (mt (h.restricted_iff hfd _).mp hfree) hname hb', hprivate⟩

/-- The others send nothing to the clients of the tenant. -/
theorem sends_of_trace {T : Tenant} {password : Bytes} {startTime : TimePoint} {a₀ b₀ a : Service}
    {past : List (Service × Event)}
    (htrace : Trace (fun a e a' => Step password startTime a e a' ∧ e.Respects T) a₀ past a)
    (h₀ : Private T a₀ b₀) :
    ∀ e ∈ past.map Prod.snd, e.client ∉ T.clients → ∀ x ∈ e.sends, x.socket ∉ T.clients := by
  suffices hinv : (∃ b, Private T a b) ∧ ∀ e ∈ past.map Prod.snd, e.client ∉ T.clients →
      ∀ x ∈ e.sends, x.socket ∉ T.clients from hinv.2
  refine htrace.invariant (I := fun past a => (∃ b, Private T a b) ∧
    ∀ e ∈ past.map Prod.snd, e.client ∉ T.clients → ∀ x ∈ e.sends, x.socket ∉ T.clients)
    ⟨⟨b₀, h₀⟩, by simp⟩ ?_
  rintro past a e a' ⟨⟨b, h⟩, hpast⟩ hstep
  refine ⟨?_, ?_⟩
  · cases hsee : tenantSees T a e with
    | none => exact ⟨b, (tenantSimulation T password startTime).silent h hstep hsee⟩
    | some o =>
      obtain ⟨b', -, hprivate⟩ := (tenantSimulation T password startTime).visible h hstep hsee
      exact ⟨b', hprivate⟩
  · intro e' he' hfd
    rw [List.map_append, List.mem_append] at he'
    rcases he' with he' | he'
    · exact hpast e' he' hfd
    · obtain rfl := List.mem_singleton.mp he'
      obtain ⟨hstep, hrespects⟩ := hstep
      cases hstep with
      | command _ _ _ _ hplan => exact h.sends_outside hplan ((hrespects _).2 hfd)
      | join | leave | authenticate | refuse | restrict | transaction =>
        intro x hx
        cases hx

end Service

namespace Server

/-- **Tenants are isolated.**  Take any run of a server from a fresh start in which the clients of a
tenant use only its keys and channels and all other clients keep away from these.  Then what the
clients of the tenant see (their connections, the answers to their commands, the messages that they
publish) is a run of the service with nobody else, from any store that has the same at the keys of
the tenant, and no message of another client is sent to them.  Of the answers that this run leaves
open, the count of `DEL` can be changed by the others: it lies between the number of the listed keys
that exist and the number of the listed keys in any case. -/
theorem tenants_are_isolated (T : Tenant) {s₀ : Server} (hs₀ : Running.Fresh s₀)
    (hclock : SteadyClock s₀.world.clock)
    (hinstant : ∀ i j, s₀.world.clock i j = s₀.world.clock i 0) {store own : TimedStore}
    (hstore : Refines s₀.world.now s₀.world.db store)
    (hown : store.AgreeOn T.keys s₀.world.now own) {past : List (Running × Running.Event)}
    {r : Running} (htrace : Trace Running.Step ⟨s₀, []⟩ past r)
    (hrespects : ∀ e ∈ observed Running.see past, e.Respects T) :
    ∃ seen b, Trace (Service.Step s₀.password s₀.startTime)
        (Service.initial own s₀.world.now) seen b ∧
      seen.map Prod.snd =
        ((observed Running.see past).filter fun e => decide (e.client ∈ T.clients)) ∧
      ∀ e ∈ observed Running.see past, e.client ∉ T.clients →
        ∀ x ∈ e.sends, x.socket ∉ T.clients := by
  obtain ⟨whole, a, hwhole, hevents, -⟩ :=
    (Running.simulation s₀.password s₀.startTime).exists_trace htrace
      (hs₀.shows hclock hinstant hstore)
  rw [← hevents] at hrespects
  have hprivate : Service.Private T (Service.initial store s₀.world.now)
      (Service.initial own s₀.world.now) := by
    refine ⟨hown, le_rfl, ?_, fun _ _ hmem => absurd hmem (Set.notMem_empty _),
      fun _ _ => Iff.rfl, fun _ _ => Iff.rfl⟩
    simp [Service.initial, Service.ownSubs]
  obtain ⟨seen, b, hseen, hown', -⟩ :=
    (Service.tenantSimulation T s₀.password s₀.startTime).exists_trace
      (hwhole.restrict hrespects) hprivate
  refine ⟨seen, b, hseen, ?_, ?_⟩
  · rw [hown', ← hevents]
    exact observed_eq_filter whole
  · rw [← hevents]
    exact Service.sends_of_trace (hwhole.restrict hrespects) hprivate

/-- A run in which a client stores and reads a key of its own while another client stores another
key and lists all keys. -/
theorem tenants_are_isolated_two_clients :
    let events : List Running.Event := [.accept 4, .accept 5,
      .command 4 ⟨ascii "SET", [ascii "a", ascii "1"]⟩,
      .command 5 ⟨ascii "SET", [ascii "b", ascii "2"]⟩, .command 5 ⟨ascii "KEYS", []⟩,
      .command 4 ⟨ascii "GET", [ascii "a"]⟩]
    ∃ past r, Running.history ⟨initial, []⟩ events = some (past, r) ∧
      ∃ seen b, Trace (Service.Step [] 0) (Service.initial ∅ 0) seen b ∧
        seen.map Prod.snd = [.join 4,
          .answer 4 ⟨ascii "SET", [ascii "a", ascii "1"]⟩ (ascii "OK") [],
          .answer 4 ⟨ascii "GET", [ascii "a"]⟩ (quoted (ascii "1")) []] := by
  intro events
  let T : Tenant := ⟨{4}, {ascii "a"}, ∅⟩
  let observation : List Service.Event := [.join 4, .join 5,
    .answer 4 ⟨ascii "SET", [ascii "a", ascii "1"]⟩ (ascii "OK") [],
    .answer 5 ⟨ascii "SET", [ascii "b", ascii "2"]⟩ (ascii "OK") [],
    .answer 5 ⟨ascii "KEYS", []⟩ (listText [ascii "b", ascii "a"]) [],
    .answer 4 ⟨ascii "GET", [ascii "a"]⟩ (quoted (ascii "1")) []]
  have hobserved : ((Running.history ⟨initial, []⟩ events).map
      fun h => observed Running.see h.1) = some observation := by decide +kernel
  obtain ⟨⟨past, r⟩, hhistory, hpast⟩ := Option.map_eq_some_iff.mp hobserved
  have hfresh : Running.Fresh initial := ⟨rfl, rfl⟩
  have hstore : Refines initial.world.now initial.world.db ∅ := ⟨Database.inv_empty, rfl⟩
  have hown : ∀ k ∈ [ascii "a"], k ∈ T.keys := fun k hk => List.mem_singleton.mp hk
  have hother : ∀ k ∈ [ascii "b"], k ∉ T.keys := by
    intro k hk hmem
    exact absurd ((List.mem_singleton.mp hk).symm.trans hmem) (by decide)
  have hset (server : Option ServerInfo) (k v : Bytes) :
      Plan.ofCommand server ⟨ascii "SET", [k, v]⟩ =
        .query (.first (.set k v) (.say (ascii "OK"))) := rfl
  have hkeys (server : Option ServerInfo) : Plan.ofCommand server ⟨ascii "KEYS", []⟩ =
      .query (.ask .keys fun r => listText r.toStrings) := rfl
  have hget (server : Option ServerInfo) (k : Bytes) :
      Plan.ofCommand server ⟨ascii "GET", [k]⟩ =
        .query (.ask (.get k) fun r => optionalText r.optional) := rfl
  have hrespects : ∀ e ∈ observation, e.Respects T := by
    simp only [observation, List.forall_mem_cons]
    refine ⟨trivial, trivial, fun server => ⟨fun _ => ?_, fun h => absurd (by decide) h⟩,
      fun server => ⟨fun h => absurd h (by decide), fun _ => ?_⟩,
      fun server => ⟨fun h => absurd h (by decide), fun _ => ?_⟩,
      fun server => ⟨fun _ => ?_, fun h => absurd (by decide) h⟩, by simp⟩
    · rw [hset]
      exact ⟨⟨trivial, hown⟩, trivial⟩
    · rw [hset]
      exact ⟨⟨by decide, hother⟩, trivial⟩
    · rw [hkeys]
      exact ⟨by decide, fun _ h => absurd h List.not_mem_nil⟩
    · rw [hget]
      exact ⟨trivial, hown⟩
  have hpast' : observed Running.see past = observation := hpast
  obtain ⟨seen, b, htrace, hseen, -⟩ := tenants_are_isolated T hfresh World.initial_valid.clock
    (fun _ _ => rfl) hstore (fun _ _ => rfl) (Running.trace_of_history hhistory)
    (by rwa [hpast'])
  refine ⟨past, r, hhistory, seen, b, htrace, ?_⟩
  rw [hseen, hpast']
  decide +kernel

end Server

end MyRedis
