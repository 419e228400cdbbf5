import MyRedis.Commands.Subscriptions
import MyRedis.Commands.System

/-!
# Subscription mode

A client that is subscribed may only send `SUBSCRIBE`, `UNSUBSCRIBE` and `PING`.  The gate for this
is in `execute`, and `EXEC` hands the queued commands to `execute_single`, behind the gate.  So a
client whose queue begins with `SUBSCRIBE` has the rest of the queue executed although it is
subscribed by then.

A queue is `orderly` if no such command stands where the subscriptions of the queue itself have left
the client subscribed.  The mode is enforced in exactly the runs in which `EXEC` executes orderly
queues only (`System.subscription_mode_iff`).
-/

namespace MyRedis

open Foundation Resp

namespace CommandHandler

/-! ### What reaches a handler -/

/-- The commands that are handed to `execute_single` in a call of `execute`, each with the world
that it meets. -/
inductive Reaches (h : CommandHandler) (cmd : Command) (w : World) : Command → World → Prop
  | single (hname : isTransactional cmd.name = false) (hmulti : h.inMulti = false)
      (hgate : h.inSubscriptionMode w = false ∨ allowedSubscribed cmd.name = true) :
      Reaches h cmd w cmd w
  | queued (hname : cmd.name = ascii "EXEC") (hsub : h.inSubscriptionMode w = false)
      (hmulti : h.inMulti = true) (hcheck : (h.watchCheck w).1 = false)
      {before later : List Command}
      {c : Command} (hqueue : h.txQueue = before ++ c :: later) :
      Reaches h cmd w c (h.executeAll before (h.watchCheck w).2).2

/-- The mode is enforced in a call of `execute`: what reaches a handler while the client is
subscribed is one of the three commands; and if the command itself is none of them and the client is
subscribed, it is answered with an error, and nothing changes. -/
structure Enforces (h : CommandHandler) (cmd : Command) (w : World) : Prop where
  /-- Only the three commands take effect. -/
  reaches : ∀ c w', Reaches h cmd w c w' → h.inSubscriptionMode w' = true →
    allowedSubscribed c.name = true
  /-- All others are refused. -/
  refuses : h.inSubscriptionMode w = true → allowedSubscribed cmd.name = false →
    isError (h.execute cmd w).1 = true ∧ (h.execute cmd w).2.2.db = w.db ∧
      (h.execute cmd w).2.2.pubsub = w.pubsub

/-- The gate refuses. -/
theorem execute_of_refused {h : CommandHandler} {cmd : Command} {w : World}
    (hsub : h.inSubscriptionMode w = true) (hname : allowedSubscribed cmd.name = false) :
    h.execute cmd w = (subscriptionError cmd.name, h, w) := by
  rw [execute, hsub, hname]
  rfl

/-- Its answer is an error. -/
theorem isError_subscriptionError (name : Bytes) : isError (subscriptionError name) = true := by
  have htake : (subscriptionError name).take 4 = ascii "ERR " := by
    rw [subscriptionError, List.append_assoc]
    rfl
  rw [isError, htake]
  rfl

/-! ### Orderly queues -/

/-- The channels of a client after a command, if it had the given channels before. -/
def channelsAfter (channels : List Bytes) (cmd : Command) : List Bytes :=
  if cmd.name = ascii "SUBSCRIBE" then channels ++ cmd.args
  else if cmd.name = ascii "UNSUBSCRIBE" then
    if cmd.args = [] then [] else channels.filter fun c => cmd.args.all fun arg => arg ≠ c
  else channels

/-- A queue in which other commands than the three only stand where the subscriptions made so far
have all been given up again. -/
def orderly : List Bytes → List Command → Bool
  | _, [] => true
  | channels, cmd :: cmds =>
    (channels = [] || allowedSubscribed cmd.name) && orderly (channelsAfter channels cmd) cmds

/-- The channels are those of the client. -/
def HasExactly (fd : Socket) (channels : List Bytes) (w : World) : Prop :=
  ∀ c, w.pubsub.HasChannel fd c ↔ c ∈ channels

/-- A client is subscribed if it has a channel. -/
theorem HasExactly.isSubscribed_iff {fd : Socket} {channels : List Bytes} {w : World}
    (h : HasExactly fd channels w) : w.pubsub.isSubscribed fd = true ↔ channels ≠ [] := by
  rw [PubSubManager.isSubscribed_iff, exists_congr h]
  exact ⟨fun ⟨_, hc⟩ => List.ne_nil_of_mem hc, List.exists_mem_of_ne_nil channels⟩

/-- A client that is not subscribed has no channels. -/
theorem hasExactly_nil {fd : Socket} {w : World} (h : w.pubsub.isSubscribed fd = false) :
    HasExactly fd [] w := by
  intro c
  refine iff_of_false ?_ List.not_mem_nil
  intro hc
  rw [PubSubManager.isSubscribed_iff.mpr ⟨c, hc⟩] at h
  cases h

section Orderly

variable (h : CommandHandler) {channels : List Bytes} {cmd : Command} {w : World}

/-- A command in its place changes the channels of the client as computed. -/
theorem hasExactly_executeSingle (hchannels : HasExactly h.clientFd channels w)
    (hplace : channels = [] ∨ allowedSubscribed cmd.name = true) :
    HasExactly h.clientFd (channelsAfter channels cmd) (h.executeSingle cmd w).2 := by
  intro c
  unfold channelsAfter
  by_cases hsubscribe : cmd.name = ascii "SUBSCRIBE"
  · rw [if_pos hsubscribe, executeSingle_subscribe h hsubscribe, handleSubscribe]
    split
    · rename_i hargs
      rw [hargs, List.append_nil]
      exact hchannels c
    · rw [List.mem_append, ← hchannels c]
      refine (PubSubManager.hasChannel_subscribe h.clientFd cmd.args).trans ?_
      rw [eq_self_iff_true, true_and]
  rw [if_neg hsubscribe]
  by_cases hunsubscribe : cmd.name = ascii "UNSUBSCRIBE"
  · rw [if_pos hunsubscribe, executeSingle_unsubscribe h hunsubscribe]
    refine (PubSubManager.hasChannel_unsubscribe h.clientFd cmd.args).trans ?_
    rw [hchannels c]
    split
    · simp [*]
    · have hother : c ∉ cmd.args ↔ ∀ arg ∈ cmd.args, arg ≠ c :=
        ⟨fun hnone arg harg heq => hnone (heq ▸ harg), fun hall harg => hall c harg rfl⟩
      simp [*]
  rw [if_neg hunsubscribe]
  by_cases hpublish : cmd.name = ascii "PUBLISH"
  · -- a message may cost the client its own channels, but then it has none
    have hnil : channels = [] := by
      refine hplace.resolve_right ?_
      rw [hpublish]
      decide
    subst hnil
    refine iff_of_false ?_ List.not_mem_nil
    intro hc
    refine List.not_mem_nil ((hchannels c).mp ?_)
    rw [executeSingle_publish h hpublish, handlePublish] at hc
    split at hc
    · exact ((PubSubManager.hasChannel_publish _ _ w.net).mp hc).1
    · exact hc
  have hoffline : cmd.name ∉ pubsubNames := by
    simp [pubsubNames, hsubscribe, hunsubscribe, hpublish]
  obtain ⟨actions, hactions, hacts⟩ := offline_executeSingle cmd h hoffline
  have hworld : (h.executeSingle cmd w).2 = Action.runAll h.clientFd actions w := hacts w
  rw [hworld, (Action.offline_runAll h.clientFd w hactions).1]
  exact hchannels c

/-- A queue is orderly if and only if every command in it that meets a subscribed client is one of
the three. -/
theorem orderly_iff (hchannels : HasExactly h.clientFd channels w) (queue : List Command) :
    orderly channels queue = true ↔ ∀ before c later, queue = before ++ c :: later →
      h.inSubscriptionMode (h.executeAll before w).2 = true → allowedSubscribed c.name = true := by
  induction queue generalizing channels w with
  | nil => simp [orderly]
  | cons first queue ih =>
    have hsub : h.inSubscriptionMode w = true ↔ channels ≠ [] := hchannels.isSubscribed_iff
    rw [orderly, Bool.and_eq_true, Bool.or_eq_true, decide_eq_true_iff]
    constructor
    · rintro ⟨hplace, hrest⟩ before c later hqueue hmode
      have hnext := hasExactly_executeSingle h hchannels hplace
      rcases before with _ | ⟨_, before⟩
      · obtain ⟨rfl, -⟩ := List.cons.inj hqueue
        exact hplace.resolve_left (hsub.mp hmode)
      · obtain ⟨rfl, htail⟩ := List.cons.inj hqueue
        exact (ih hnext).mp hrest before c later htail hmode
    · intro hall
      have hplace : channels = [] ∨ allowedSubscribed first.name = true := by
        rw [or_iff_not_imp_left, ← ne_eq, ← hsub]
        exact hall [] first queue rfl
      refine ⟨hplace, (ih (hasExactly_executeSingle h hchannels hplace)).mpr ?_⟩
      intro before c later hqueue hmode
      exact hall (first :: before) c later (by rw [hqueue, List.cons_append]) hmode

/-- The commands that are queued are executed in this call. -/
def runsQueue (h : CommandHandler) (cmd : Command) (w : World) : Bool :=
  cmd.name = ascii "EXEC" && !h.inSubscriptionMode w && h.inMulti && !(h.watchCheck w).1

/-- The mode is enforced in a call if and only if the queue that it executes, if it does, is
orderly. -/
theorem enforces_iff_orderly :
    Enforces h cmd w ↔ (h.runsQueue cmd w = true → orderly [] h.txQueue = true) := by
  have hnone (hsub : h.inSubscriptionMode w = false) :
      HasExactly h.clientFd [] (h.watchCheck w).2 := by
    obtain ⟨n, hread⟩ := h.readSteps_watchCheck w
    refine hasExactly_nil ?_
    rw [hread.frame.1]
    exact hsub
  constructor
  · intro henforces hruns
    simp only [runsQueue, Bool.and_eq_true, decide_eq_true_eq, Bool.not_eq_true'] at hruns
    obtain ⟨⟨⟨hname, hsub⟩, hmulti⟩, hcheck⟩ := hruns
    rw [orderly_iff h (hnone hsub)]
    intro before c later hqueue
    exact henforces.reaches c _ (.queued hname hsub hmulti hcheck hqueue)
  · intro horderly
    constructor
    · rintro c w' (⟨-, -, hgate⟩ | ⟨hname, hsub, hmulti, hcheck, hqueue⟩)
      · intro hmode
        exact hgate.resolve_left (by simp [hmode])
      · have hruns : h.runsQueue cmd w = true := by
          simp [runsQueue, hname, hsub, hmulti, hcheck]
        exact (orderly_iff h (hnone hsub) _).mp (horderly hruns) _ _ _ hqueue
    · intro hsub hname
      rw [execute_of_refused hsub hname]
      exact ⟨isError_subscriptionError cmd.name, rfl, rfl⟩

end Orderly

end CommandHandler

/-! ### Runs -/

namespace System

variable {ι : Type}

/-- The mode is enforced in a step. -/
def Enforced (s : System ι) : Event ι → Prop
  | .command i cmd => (s.handlers i).Enforces cmd s.world
  | .scan | .reorder _ _ => True

/-- If the step executes a queue, the queue is orderly. -/
def Orderly (s : System ι) : Event ι → Prop
  | .command i cmd =>
    (s.handlers i).runsQueue cmd s.world = true →
      CommandHandler.orderly [] (s.handlers i).txQueue = true
  | .scan | .reorder _ _ => True

instance (s : System ι) (e : Event ι) : Decidable (s.Orderly e) :=
  match e with
  | .command i cmd => inferInstanceAs (Decidable ((s.handlers i).runsQueue cmd s.world = true →
      CommandHandler.orderly [] (s.handlers i).txQueue = true))
  | .scan | .reorder _ _ => inferInstanceAs (Decidable True)

/-- One step. -/
theorem enforced_iff_orderly (s : System ι) (e : Event ι) : s.Enforced e ↔ s.Orderly e := by
  cases e with
  | command i cmd => exact CommandHandler.enforces_iff_orderly (s.handlers i)
  | scan | reorder => exact Iff.rfl

variable [DecidableEq ι]

/-- **Subscription mode.**  In a run, whatever reaches a handler while its client is subscribed is
`SUBSCRIBE`, `UNSUBSCRIBE` or `PING`, and every other command of a subscribed client is answered
with an error and changes neither the database nor the subscriptions, if and only if `EXEC` executes
orderly queues only. -/
theorem subscription_mode_iff {s₀ s : System ι} {past : List (System ι × Event ι)}
    (htrace : Trace Step s₀ past s) :
    Always (fun _ s' e => s'.Enforced e) past ↔ Always (fun _ s' e => s'.Orderly e) past :=
  htrace.always_congr fun _ s' e _ _ _ => s'.enforced_iff_orderly e

/-- A transaction that ends with a subscription, and commands after it. -/
def subscribeLast : List (Bool × Command) :=
  [(false, ⟨ascii "MULTI", []⟩), (false, ⟨ascii "SET", [ascii "k", ascii "v"]⟩),
    (false, ⟨ascii "SUBSCRIBE", [ascii "c"]⟩), (false, ⟨ascii "PING", []⟩),
    (false, ⟨ascii "EXEC", []⟩), (false, ⟨ascii "GET", [ascii "k"]⟩),
    (true, ⟨ascii "PUBLISH", [ascii "c", ascii "m"]⟩)]

/-- In this run the mode is enforced. -/
theorem subscription_mode_subscribeLast :
    Always (fun _ s' e => s'.Enforced e) (twoClients.history subscribeLast) := by
  refine (subscription_mode_iff (trace_history twoClients subscribeLast)).mpr ?_
  rw [always_iff_forall_mem]
  decide

/-- A transaction that begins with a subscription. -/
def subscribeFirst : List (Bool × Command) :=
  [(false, ⟨ascii "MULTI", []⟩), (false, ⟨ascii "SUBSCRIBE", [ascii "c"]⟩),
    (false, ⟨ascii "SET", [ascii "k", ascii "v"]⟩), (false, ⟨ascii "EXEC", []⟩)]

/-- In this run `SET` is executed for a client that is subscribed: it is answered with `OK`, and the
value is stored. -/
theorem queued_set_passes_gate :
    let s := twoClients.after (subscribeFirst.take 3)
    let h := s.handlers false
    let set : Command := ⟨ascii "SET", [ascii "k", ascii "v"]⟩
    let w := (h.executeAll [⟨ascii "SUBSCRIBE", [ascii "c"]⟩] s.world).2
    h.Reaches ⟨ascii "EXEC", []⟩ s.world set w ∧ h.inSubscriptionMode w = true ∧
      CommandHandler.allowedSubscribed set.name = false ∧
      (h.executeSingle set w).1 = ascii "OK" ∧
      w.db.live w.now (ascii "k") = none ∧
      (s.exec false ⟨ascii "EXEC", []⟩).2.world.db.live w.now (ascii "k") =
        some (.str (ascii "v"), none) ∧
      ¬ Always (fun _ s' e => s'.Enforced e) (twoClients.history subscribeFirst) := by
  intro s h set w
  have hreaches : h.Reaches ⟨ascii "EXEC", []⟩ s.world set w :=
    .queued rfl (by decide) (by decide) (by decide) (show h.txQueue = [_] ++ set :: [] by decide)
  refine ⟨hreaches, by decide, by decide, by decide, by decide, by decide, ?_⟩
  intro hall
  have henforced : s.Enforced (.command false ⟨ascii "EXEC", []⟩) :=
    always_iff_forall_mem.mp hall (s, .command false ⟨ascii "EXEC", []⟩)
      (by simp [subscribeFirst, history, s, after])
  exact absurd (henforced.reaches set w hreaches (by decide)) (by decide)

end System

end MyRedis
