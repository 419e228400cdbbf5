import MyRedis.Commands.Handlers

/-!
# Transactions

The rest of `command_handler.cpp`: `MULTI`, `EXEC`, `DISCARD` and `WATCH`, and `execute`, the entry
point of the class, with the gate for subscribed clients and the queue of an open transaction.

A handler that may change its own state returns the text of the response, the new state of the
handler and the new world.
-/

namespace MyRedis

open Foundation

namespace CommandHandler

/-- `in_subscription_mode`. -/
def inSubscriptionMode (h : CommandHandler) (w : World) : Bool :=
  w.pubsub.isSubscribed h.clientFd

/-! ### Watched keys -/

/-- The loop body of `WATCH`: what is remembered of a key. -/
def snapshotKey (key : Bytes) (w : World) : WatchedKeySnapshot × World :=
  let val := w.call (.get key)
  match val.1.optional with
  | some value => (⟨key, true, some value, -1⟩, val.2)
  | none =>
    let llen := val.2.call (.llen key)
    if 0 ≤ llen.1.toInt then (⟨key, true, none, llen.1.toInt⟩, llen.2)
    else (⟨key, false, none, -1⟩, llen.2)

/-- The loop of `WATCH`. -/
def snapshotKeys : List Bytes → World → List WatchedKeySnapshot × World
  | [], w => ([], w)
  | key :: keys, w =>
    let snap := snapshotKey key w
    let rest := snapshotKeys keys snap.2
    (snap.1 :: rest.1, rest.2)

/-- The loop body of `watched_keys_modified`. -/
def keyModified (snap : WatchedKeySnapshot) (w : World) : Bool × World :=
  let val := w.call (.get snap.key)
  if snap.existed then
    match snap.stringValue with
    | some value => (decide (val.1.optional ≠ some value), val.2)
    | none =>
      if 0 ≤ snap.listSize then
        let llen := val.2.call (.llen snap.key)
        (decide (llen.1.toInt ≠ snap.listSize), llen.2)
      else (false, val.2)
  else if val.1.optional.isSome then (true, val.2)
  else
    let llen := val.2.call (.llen snap.key)
    (decide (0 ≤ llen.1.toInt), llen.2)

/-- `watched_keys_modified`, which stops at the first key that was modified. -/
def watchedKeysModified : List WatchedKeySnapshot → World → Bool × World
  | [], w => (false, w)
  | snap :: snaps, w =>
    let modified := keyModified snap w
    if modified.1 then (true, modified.2) else watchedKeysModified snaps modified.2

/-! ### Transaction commands -/

/-- `MULTI`. -/
def handleMulti (h : CommandHandler) (w : World) : Bytes × CommandHandler × World :=
  if h.inMulti then (ascii "ERR MULTI calls can not be nested", h, w)
  else (ascii "OK", { h with inMulti := true, txQueue := [] }, w)

/-- The state after the end of `EXEC`. -/
def cleared (h : CommandHandler) : CommandHandler :=
  { h with inMulti := false, txQueue := [], watchedKeys := [], watchSnapshots := [],
           watchDirty := false }

/-- Run commands one after the other and collect the texts of their responses. -/
def executeAll (h : CommandHandler) : List Command → World → List Bytes × World
  | [], w => ([], w)
  | cmd :: cmds, w =>
    let result := h.executeSingle cmd w
    let rest := h.executeAll cmds result.2
    (result.1 :: rest.1, rest.2)

/-- One more command: its response comes behind those of the commands before, in the world that
they have left. -/
def executeNext (h : CommandHandler) (done : List Bytes × World) (cmd : Command) :
    List Bytes × World :=
  (done.1 ++ [(h.executeSingle cmd done.2).1], (h.executeSingle cmd done.2).2)

/-- The commands are executed in a loop, each in the world that the ones before it have left. -/
theorem executeAll_eq_foldl (h : CommandHandler) (cmds : List Command) (w : World) :
    h.executeAll cmds w = cmds.foldl h.executeNext ([], w) := by
  suffices hdone : ∀ responses, cmds.foldl h.executeNext (responses, w) =
      (responses ++ (h.executeAll cmds w).1, (h.executeAll cmds w).2) from (hdone []).symm
  induction cmds generalizing w with
  | nil => simp [executeAll]
  | cons cmd cmds ih =>
    intro responses
    rw [List.foldl_cons, executeNext, ih, executeAll, List.append_assoc]
    rfl

/-- The world that is left by the loop. -/
theorem executeAll_snd (h : CommandHandler) (cmds : List Command) (w : World) :
    (h.executeAll cmds w).2 = cmds.foldl (fun w cmd => (h.executeSingle cmd w).2) w := by
  induction cmds generalizing w with
  | nil => rfl
  | cons cmd cmds ih => exact ih _

/-- The check of `EXEC`: no watched keys, or none of them was modified. -/
def watchCheck (h : CommandHandler) (w : World) : Bool × World :=
  if h.watchedKeys = [] then (false, w) else watchedKeysModified h.watchSnapshots w

/-- `EXEC`. -/
def handleExec (h : CommandHandler) (w : World) : Bytes × CommandHandler × World :=
  if h.inMulti then
    let check := h.watchCheck w
    if check.1 then (ascii "(nil)", h.cleared, check.2)
    else
      let result := h.executeAll h.txQueue check.2
      (if h.txQueue = [] then ascii "(empty list)" else lines (numberItems result.1),
        h.cleared, result.2)
  else (ascii "ERR EXEC without MULTI", h, w)

/-- `DISCARD`.  The watched keys stay watched. -/
def handleDiscard (h : CommandHandler) (w : World) : Bytes × CommandHandler × World :=
  if h.inMulti then (ascii "OK", { h with inMulti := false, txQueue := [] }, w)
  else (ascii "ERR DISCARD without MULTI", h, w)

/-- `WATCH`. -/
def handleWatch (h : CommandHandler) (cmd : Command) (w : World) : Bytes × CommandHandler × World :=
  if cmd.args = [] then (wrongArguments "WATCH", h, w)
  else if h.inMulti then (ascii "ERR WATCH inside MULTI is not allowed", h, w)
  else
    let result := snapshotKeys cmd.args w
    (ascii "OK",
      { h with watchedKeys := h.watchedKeys ++ cmd.args,
               watchSnapshots := h.watchSnapshots ++ result.1 },
      result.2)

/-! ### The entry point -/

/-- The commands that a subscribed client may send. -/
def allowedSubscribed (name : Bytes) : Bool :=
  name == ascii "SUBSCRIBE" || name == ascii "UNSUBSCRIBE" || name == ascii "PING"

/-- The error for the other commands. -/
def subscriptionError (name : Bytes) : Bytes :=
  ascii "ERR Can't execute '" ++ name ++
    ascii "': only (P)SUBSCRIBE / (P)UNSUBSCRIBE / PING / QUIT are allowed in this context"

theorem head?_subscriptionError (name : Bytes) : (subscriptionError name).head? = some 69 := by
  rw [subscriptionError, ascii_ofList]
  rfl

theorem head?_watchNested : (ascii "ERR WATCH inside MULTI is not allowed").head? = some 69 := by
  rw [ascii_ofList]
  rfl

/-- `execute`. -/
def execute (h : CommandHandler) (cmd : Command) (w : World) : Bytes × CommandHandler × World :=
  if h.inSubscriptionMode w && !allowedSubscribed cmd.name then (subscriptionError cmd.name, h, w)
  else if cmd.name = ascii "MULTI" then h.handleMulti w
  else if cmd.name = ascii "EXEC" then h.handleExec w
  else if cmd.name = ascii "DISCARD" then h.handleDiscard w
  else if cmd.name = ascii "WATCH" then h.handleWatch cmd w
  else if h.inMulti then (ascii "QUEUED", { h with txQueue := h.txQueue ++ [cmd] }, w)
  else
    let result := h.executeSingle cmd w
    (result.1, h, result.2)

/-! ### All that a command can do -/

/-- The name of a command that is neither queued nor executed at once. -/
def isTransactional (name : Bytes) : Bool :=
  name == ascii "MULTI" || name == ascii "EXEC" || name == ascii "DISCARD" || name == ascii "WATCH"

/-- All ways in which `execute` can go: the guards that were passed, and the result. -/
inductive Executes (h : CommandHandler) (cmd : Command) (w : World) :
    Bytes × CommandHandler × World → Prop
  | rejected (hsub : h.inSubscriptionMode w = true) (hname : allowedSubscribed cmd.name = false) :
      Executes h cmd w (subscriptionError cmd.name, h, w)
  | multi (hname : cmd.name = ascii "MULTI") (hsub : h.inSubscriptionMode w = false)
      (hmulti : h.inMulti = false) :
      Executes h cmd w (ascii "OK", { h with inMulti := true, txQueue := [] }, w)
  | multiNested (hname : cmd.name = ascii "MULTI") (hmulti : h.inMulti = true) :
      Executes h cmd w (ascii "ERR MULTI calls can not be nested", h, w)
  | execAborted (hname : cmd.name = ascii "EXEC") (hsub : h.inSubscriptionMode w = false)
      (hmulti : h.inMulti = true) (hcheck : (h.watchCheck w).1 = true) :
      Executes h cmd w (ascii "(nil)", h.cleared, (h.watchCheck w).2)
  | exec (hname : cmd.name = ascii "EXEC") (hsub : h.inSubscriptionMode w = false)
      (hmulti : h.inMulti = true) (hcheck : (h.watchCheck w).1 = false) :
      Executes h cmd w
        (if h.txQueue = [] then ascii "(empty list)"
          else lines (numberItems (h.executeAll h.txQueue (h.watchCheck w).2).1),
          h.cleared, (h.executeAll h.txQueue (h.watchCheck w).2).2)
  | execWithout (hname : cmd.name = ascii "EXEC") (hmulti : h.inMulti = false) :
      Executes h cmd w (ascii "ERR EXEC without MULTI", h, w)
  | discard (hname : cmd.name = ascii "DISCARD") (hmulti : h.inMulti = true) :
      Executes h cmd w (ascii "OK", { h with inMulti := false, txQueue := [] }, w)
  | discardWithout (hname : cmd.name = ascii "DISCARD") (hmulti : h.inMulti = false) :
      Executes h cmd w (ascii "ERR DISCARD without MULTI", h, w)
  | watchNothing (hname : cmd.name = ascii "WATCH") (hargs : cmd.args = []) :
      Executes h cmd w (wrongArguments "WATCH", h, w)
  | watchNested (hname : cmd.name = ascii "WATCH") (hmulti : h.inMulti = true) :
      Executes h cmd w (ascii "ERR WATCH inside MULTI is not allowed", h, w)
  | watch (hname : cmd.name = ascii "WATCH") (hsub : h.inSubscriptionMode w = false)
      (hargs : cmd.args ≠ []) (hmulti : h.inMulti = false) :
      Executes h cmd w
        (ascii "OK",
          { h with watchedKeys := h.watchedKeys ++ cmd.args,
                   watchSnapshots := h.watchSnapshots ++ (snapshotKeys cmd.args w).1 },
          (snapshotKeys cmd.args w).2)
  | queue (hname : isTransactional cmd.name = false) (hmulti : h.inMulti = true)
      (hgate : h.inSubscriptionMode w = false ∨ allowedSubscribed cmd.name = true) :
      Executes h cmd w (ascii "QUEUED", { h with txQueue := h.txQueue ++ [cmd] }, w)
  | single (hname : isTransactional cmd.name = false) (hmulti : h.inMulti = false)
      (hgate : h.inSubscriptionMode w = false ∨ allowedSubscribed cmd.name = true) :
      Executes h cmd w ((h.executeSingle cmd w).1, h, (h.executeSingle cmd w).2)

/-- A transactional command is rejected while the client is subscribed. -/
theorem allowedSubscribed_of_isTransactional {name : Bytes} (h : isTransactional name = true) :
    allowedSubscribed name = false := by
  simp only [isTransactional, Bool.or_eq_true, beq_iff_eq] at h
  obtain ((rfl | rfl) | rfl) | rfl := h <;> decide

/-- `execute` goes one of these ways. -/
theorem executes (h : CommandHandler) (cmd : Command) (w : World) :
    Executes h cmd w (h.execute cmd w) := by
  unfold execute
  split
  · rename_i hgate
    simp only [Bool.and_eq_true, Bool.not_eq_true'] at hgate
    exact .rejected hgate.1 hgate.2
  rename_i hgate
  replace hgate : h.inSubscriptionMode w = false ∨ allowedSubscribed cmd.name = true := by
    cases hs : h.inSubscriptionMode w with
    | false => exact Or.inl rfl
    | true => simpa [hs] using hgate
  have hsub (htx : isTransactional cmd.name = true) : h.inSubscriptionMode w = false := by
    simpa [allowedSubscribed_of_isTransactional htx] using hgate
  split
  · rename_i hname
    unfold handleMulti
    split
    · exact .multiNested hname ‹_›
    · exact .multi hname (hsub (by rw [hname]; decide)) (Bool.eq_false_of_not_eq_true ‹_›)
  split
  · rename_i hname
    have hunsub := hsub (by rw [hname]; decide)
    unfold handleExec
    split
    · simp only
      split
      · exact .execAborted hname hunsub ‹_› ‹_›
      · exact .exec hname hunsub ‹_› (Bool.eq_false_of_not_eq_true ‹_›)
    · exact .execWithout hname (Bool.eq_false_of_not_eq_true ‹_›)
  split
  · rename_i hname
    unfold handleDiscard
    split
    · exact .discard hname ‹_›
    · exact .discardWithout hname (Bool.eq_false_of_not_eq_true ‹_›)
  split
  · rename_i hname
    unfold handleWatch
    split
    · exact .watchNothing hname ‹_›
    · split
      · exact .watchNested hname ‹_›
      · exact .watch hname (hsub (by rw [hname]; decide)) ‹_› (Bool.eq_false_of_not_eq_true ‹_›)
  rename_i hmulti hexec hdiscard hwatch
  have hname : isTransactional cmd.name = false := by
    simp [isTransactional, hmulti, hexec, hdiscard, hwatch]
  split
  · exact .queue hname ‹_› hgate
  · exact .single hname (Bool.eq_false_of_not_eq_true ‹_›) hgate

/-- The ways that are left outside of a transaction. -/
inductive ExecutesOutside (h : CommandHandler) (cmd : Command) (w : World) :
    Bytes × CommandHandler × World → Prop
  | rejected (hsub : h.inSubscriptionMode w = true) (hname : allowedSubscribed cmd.name = false) :
      ExecutesOutside h cmd w (subscriptionError cmd.name, h, w)
  | multi (hname : cmd.name = ascii "MULTI") :
      ExecutesOutside h cmd w (ascii "OK", { h with inMulti := true, txQueue := [] }, w)
  | exec (hname : cmd.name = ascii "EXEC") :
      ExecutesOutside h cmd w (ascii "ERR EXEC without MULTI", h, w)
  | discard (hname : cmd.name = ascii "DISCARD") :
      ExecutesOutside h cmd w (ascii "ERR DISCARD without MULTI", h, w)
  | watchNothing (hname : cmd.name = ascii "WATCH") :
      ExecutesOutside h cmd w (wrongArguments "WATCH", h, w)
  | watch (hname : cmd.name = ascii "WATCH") :
      ExecutesOutside h cmd w
        (ascii "OK",
          { h with watchedKeys := h.watchedKeys ++ cmd.args,
                   watchSnapshots := h.watchSnapshots ++ (snapshotKeys cmd.args w).1 },
          (snapshotKeys cmd.args w).2)
  | single (hname : isTransactional cmd.name = false)
      (hgate : h.inSubscriptionMode w = false ∨ allowedSubscribed cmd.name = true) :
      ExecutesOutside h cmd w ((h.executeSingle cmd w).1, h, (h.executeSingle cmd w).2)

/-- Outside of a transaction `execute` goes one of these ways. -/
theorem executesOutside {h : CommandHandler} (hidle : h.inMulti = false) (cmd : Command)
    (w : World) : ExecutesOutside h cmd w (h.execute cmd w) := by
  have hexec := h.executes cmd w
  generalize h.execute cmd w = result at hexec ⊢
  cases hexec with
  | rejected hsub hname => exact .rejected hsub hname
  | multi hname => exact .multi hname
  | execWithout hname => exact .exec hname
  | discardWithout hname => exact .discard hname
  | watchNothing hname => exact .watchNothing hname
  | watch hname => exact .watch hname
  | single hname _ hgate => exact .single hname hgate
  | multiNested _ hmulti | execAborted _ _ hmulti | exec _ _ hmulti | discard _ hmulti
  | watchNested _ hmulti | queue _ hmulti => exact absurd (hidle.symm.trans hmulti) (by decide)

/-- A `WATCH` that is answered `OK`. -/
theorem execute_watch {h : CommandHandler} (cmd : Command) {w : World}
    (hname : cmd.name = ascii "WATCH") (hok : (h.execute cmd w).1 = ascii "OK") :
    h.inSubscriptionMode w = false ∧ h.inMulti = false ∧
      (h.execute cmd w).2 =
        ({ h with watchedKeys := h.watchedKeys ++ cmd.args,
                  watchSnapshots := h.watchSnapshots ++ (snapshotKeys cmd.args w).1 },
          (snapshotKeys cmd.args w).2) := by
  have hexec := h.executes cmd w
  generalize h.execute cmd w = result at hexec hok ⊢
  cases hexec with
  | rejected => exact absurd hok (ne_ok_of_head?_eq (head?_subscriptionError _))
  | watchNothing => exact absurd hok (ne_ok_of_head?_eq (head?_wrongArguments _))
  | watchNested => exact absurd hok (ne_ok_of_head?_eq head?_watchNested)
  | watch _ hsub _ hmulti => exact ⟨hsub, hmulti, rfl⟩
  | multi hn | multiNested hn | execAborted hn | exec hn | execWithout hn | discard hn
  | discardWithout hn => exact absurd (hn.symm.trans hname) (by decide)
  | queue hn | single hn =>
    rw [hname] at hn
    exact absurd hn (by decide)

section NotSubscribed

variable {h : CommandHandler} {w : World} (hsub : h.inSubscriptionMode w = false) (cmd : Command)
include hsub

/-- A `MULTI` of a client that is not subscribed. -/
theorem execute_multi (hname : cmd.name = ascii "MULTI") : h.execute cmd w = h.handleMulti w := by
  rw [execute, hsub, Bool.false_and, if_neg Bool.false_ne_true, if_pos hname]

/-- An `EXEC` that is reached inside of a transaction. -/
theorem execute_exec (hname : cmd.name = ascii "EXEC") (hmulti : h.inMulti = true) :
    h.execute cmd w =
      if (h.watchCheck w).1 then (ascii "(nil)", h.cleared, (h.watchCheck w).2)
      else
        (if h.txQueue = [] then ascii "(empty list)"
          else lines (numberItems (h.executeAll h.txQueue (h.watchCheck w).2).1),
          h.cleared, (h.executeAll h.txQueue (h.watchCheck w).2).2) := by
  have hne : cmd.name ≠ ascii "MULTI" := by
    rw [hname]
    decide
  rw [execute, hsub, Bool.false_and, if_neg Bool.false_ne_true, if_neg hne, if_pos hname,
    handleExec, if_pos hmulti]

/-- Any other command: it is queued in a transaction, and executed otherwise. -/
theorem execute_other (hname : isTransactional cmd.name = false) :
    h.execute cmd w =
      if h.inMulti then (ascii "QUEUED", { h with txQueue := h.txQueue ++ [cmd] }, w)
      else ((h.executeSingle cmd w).1, h, (h.executeSingle cmd w).2) := by
  simp only [isTransactional, Bool.or_eq_false_iff, beq_eq_false_iff_ne] at hname
  obtain ⟨⟨⟨h1, h2⟩, h3⟩, h4⟩ := hname
  rw [execute, hsub, Bool.false_and, if_neg Bool.false_ne_true, if_neg h1, if_neg h2, if_neg h3,
    if_neg h4]

end NotSubscribed

end CommandHandler

end MyRedis
