import MyRedis.Commands.Isolation

/-!
# No lost updates

Clients increment a number stored at a key `k` by attempts of the form
`WATCH k`, `GET k`, `MULTI`, `SET k (value read + 1)`, `EXEC`, with the commands of all clients
interleaved in any way.  The check of `EXEC` compares values and not versions, and the `GET` comes
after the `WATCH`.  Still no update is lost: the values at `k` are pairwise different, so that an
`EXEC` that finds the value of its `WATCH` knows that nothing was written in between, and what its
`GET` read lies in between (`StageInv`).
-/

namespace MyRedis

open Foundation

/-! ### Attempts -/

/-- How far an attempt of a client has come. -/
inductive Stage where
  /-- There is no attempt. -/
  | idle
  /-- `k` is watched. -/
  | watched
  /-- The number `v` was read. -/
  | read (v : ℤ)
  /-- A transaction was opened. -/
  | opened (v : ℤ)
  /-- The new value is queued. -/
  | queued (v : ℤ)

/-- `WATCH k`. -/
def watchCmd (k : Bytes) : Command := ⟨ascii "WATCH", [k]⟩

/-- `GET k`. -/
def getCmd (k : Bytes) : Command := ⟨ascii "GET", [k]⟩

/-- `MULTI`. -/
def multiCmd : Command := ⟨ascii "MULTI", []⟩

/-- `SET k` to the number after `v`. -/
def setCmd (k : Bytes) (v : ℤ) : Command := ⟨ascii "SET", [k, decimalInt (v + 1)]⟩

/-- `EXEC`. -/
def execCmd : Command := ⟨ascii "EXEC", []⟩

namespace System

variable {ι : Type} [DecidableEq ι]

/-- The states that the system reaches from `s₀` when every write to `k` is made by an attempt,
together with the stages of the clients and the number of `EXEC`s of attempts that were not
aborted.  An attempt begins with a `WATCH` that is answered `OK`; it may be given up at any time.
Between attempts, a client may send any command that leaves `k` as it is. -/
inductive Counting (k : Bytes) (s₀ : System ι) : System ι → (ι → Stage) → ℕ → Prop
  | start : Counting k s₀ s₀ (fun _ => .idle) 0
  | watch {s : System ι} {stage : ι → Stage} {n : ℕ} (h : Counting k s₀ s stage n) {i : ι}
      (hi : stage i = .idle) (hok : (s.exec i (watchCmd k)).1 = ascii "OK") :
      Counting k s₀ (s.exec i (watchCmd k)).2 (Function.update stage i .watched) n
  | get {s : System ι} {stage : ι → Stage} {n : ℕ} (h : Counting k s₀ s stage n) {i : ι}
      (hi : stage i = .watched) {text : Bytes} {v : ℤ}
      (hanswer : (s.exec i (getCmd k)).1 = quoted text) (hv : strtol text = some v) :
      Counting k s₀ (s.exec i (getCmd k)).2 (Function.update stage i (.read v)) n
  | multi {s : System ι} {stage : ι → Stage} {n : ℕ} (h : Counting k s₀ s stage n) {i : ι} {v : ℤ}
      (hi : stage i = .read v) :
      Counting k s₀ (s.exec i multiCmd).2 (Function.update stage i (.opened v)) n
  | set {s : System ι} {stage : ι → Stage} {n : ℕ} (h : Counting k s₀ s stage n) {i : ι} {v : ℤ}
      (hi : stage i = .opened v) :
      Counting k s₀ (s.exec i (setCmd k v)).2 (Function.update stage i (.queued v)) n
  | exec {s : System ι} {stage : ι → Stage} {n : ℕ} (h : Counting k s₀ s stage n) {i : ι} {v : ℤ}
      (hi : stage i = .queued v) :
      Counting k s₀ (s.exec i execCmd).2 (Function.update stage i .idle)
        (if (s.exec i execCmd).1 = ascii "(nil)" then n else n + 1)
  | giveUp {s : System ι} {stage : ι → Stage} {n : ℕ} (h : Counting k s₀ s stage n) (i : ι) :
      Counting k s₀ s (Function.update stage i .idle) n
  | other {s : System ι} {stage : ι → Stage} {n : ℕ} (h : Counting k s₀ s stage n) {i : ι}
      (hi : stage i = .idle) {cmd : Command}
      (hkeep : (s.exec i cmd).2.world.db.cell k = s.world.db.cell k) :
      Counting k s₀ (s.exec i cmd).2 stage n
  | scan {s : System ι} {stage : ι → Stage} {n : ℕ} (h : Counting k s₀ s stage n) :
      Counting k s₀ { s with world := s.world.scan } stage n
  | reorder {s : System ι} {stage : ι → Stage} {n : ℕ} (h : Counting k s₀ s stage n)
      {db : Database} {pubsub : PubSubManager} (hdb : s.world.db.Reordered db)
      (hpubsub : s.world.pubsub.Reordered pubsub) :
      Counting k s₀ { s with world := { s.world with db := db, pubsub := pubsub } } stage n

end System

/-! ### The values at the key -/

/-- The text at the key after `n` increments of the number `v₀`, first written as `text₀`. -/
def valueText (text₀ : Bytes) (v₀ : ℤ) : ℕ → Bytes
  | 0 => text₀
  | n + 1 => decimalInt (v₀ + (n + 1))

/-- The number that this text stands for. -/
theorem strtol_valueText {text₀ : Bytes} {v₀ : ℤ} (h : strtol text₀ = some v₀) (n : ℕ) :
    strtol (valueText text₀ v₀ n) = some (v₀ + n) := by
  cases n with
  | zero => simpa [valueText] using h
  | succ n =>
    rw [valueText, strtol_decimalInt]
    push_cast
    rfl

/-- No value occurs twice. -/
theorem valueText_injective {text₀ : Bytes} {v₀ : ℤ} (h : strtol text₀ = some v₀) :
    Function.Injective (valueText text₀ v₀) := by
  intro n m heq
  have hn := strtol_valueText h n
  rw [heq, strtol_valueText h m] at hn
  have := Option.some.inj hn
  omega

/-- The cell of a string without a deadline. -/
def strCell (text : Bytes) : Cell := ⟨some text, none, none⟩

/-! ### Looking at such a key -/

/-- Reading leaves such a cell alone. -/
theorem ReadSteps.cell_eq {w w' : World} {n : ℕ} (h : ReadSteps w n w') {k text : Bytes}
    (hk : w.db.cell k = strCell text) : w'.db.cell k = strCell text := by
  induction h with
  | refl => exact hk
  | call _ op hop ih => exact (DbOp.cell_run_of_isRead hop _ (by rw [ih]; rfl)).trans ih

/-- `GET` finds the string. -/
theorem get_strCell {w : World} {k text : Bytes} (hk : w.db.cell k = strCell text) :
    (w.call (.get k)).1.optional = some text := by
  change (w.db.get (w.clock 0 0) k).1 = some text
  rw [Database.get_result, hk, Cell.purge_of_deadline_eq_none rfl]
  rfl

/-- What `WATCH` remembers of such a key. -/
def strSnapshot (k text : Bytes) : WatchedKeySnapshot := ⟨k, true, some text, -1⟩

/-- `WATCH` remembers the string. -/
theorem snapshotKey_strCell {w : World} {k text : Bytes} (hk : w.db.cell k = strCell text) :
    (CommandHandler.snapshotKey k w).1 = strSnapshot k text := by
  unfold CommandHandler.snapshotKey
  simp only [get_strCell hk]
  rfl

/-- A check that finds nothing modified has found the string of every snapshot of the key. -/
theorem eq_of_watchedKeysModified {snaps : List WatchedKeySnapshot} {w : World}
    {k text text' : Bytes}
    (hk : w.db.cell k = strCell text) (hmem : strSnapshot k text' ∈ snaps)
    (hcheck : (CommandHandler.watchedKeysModified snaps w).1 = false) : text = text' := by
  induction snaps generalizing w with
  | nil => cases hmem
  | cons snap snaps ih =>
    rw [CommandHandler.watchedKeysModified] at hcheck
    split at hcheck
    · cases hcheck
    · rename_i hsame
      obtain ⟨n, hread⟩ := CommandHandler.readSteps_keyModified snap w
      rcases List.mem_cons.mp hmem with rfl | hmem
      · by_contra hne
        refine hsame ?_
        change decide ((w.call (.get k)).1.optional ≠ some text') = true
        rw [decide_eq_true_iff, get_strCell hk]
        exact fun h => hne (Option.some.inj h)
      · exact ih (hread.cell_eq hk) hmem hcheck

/-! ### The commands of an attempt -/

/-- Quotation marks do not hide anything. -/
theorem quoted_injective : Function.Injective quoted := by
  intro a b h
  unfold quoted at h
  exact List.append_cancel_left (List.append_cancel_right h)

/-- `GET` answers with the string. -/
theorem executeSingle_getCmd (h : CommandHandler) (k : Bytes) (w : World) :
    h.executeSingle (getCmd k) w =
      (optionalText (w.call (.get k)).1.optional, (w.call (.get k)).2) := rfl

/-- Running a queue with one `SET`. -/
theorem executeAll_setCmd (h : CommandHandler) (k : Bytes) (v : ℤ) (w : World) :
    (h.executeAll [setCmd k v] w).2 = (w.call (.set k (decimalInt (v + 1)))).2 := rfl

/-- `SET` leaves a string without a deadline. -/
theorem cell_call_set (k text : Bytes) (w : World) :
    (w.call (.set k text)).2.db.cell k = strCell text := by
  refine (congrFun (w.db.cell_set k text) k).trans ?_
  rw [Function.update_self]
  rfl

/-! ### The invariant -/

namespace System

section Invariant

variable (k text₀ : Bytes) (v₀ : ℤ)

/-- The handler has watched `k` when it had its value after `c` increments. -/
structure Watching (c : ℕ) (h : CommandHandler) (w : World) : Prop where
  /-- The snapshot. -/
  snapshot : strSnapshot k (valueText text₀ v₀ c) ∈ h.watchSnapshots
  /-- The check of `EXEC` is made. -/
  keys : h.watchedKeys ≠ []
  /-- The client is not subscribed. -/
  unsubscribed : h.inSubscriptionMode w = false

/-- The number `v` was read at or after the time of the `WATCH`. -/
def HasRead (v : ℤ) (n : ℕ) (h : CommandHandler) (w : World) : Prop :=
  ∃ c c', c ≤ c' ∧ c' ≤ n ∧ v = v₀ + (c' : ℤ) ∧ Watching k text₀ v₀ c h w

/-- What holds of a handler in each stage of an attempt, after `n` increments. -/
def StageInv (n : ℕ) (h : CommandHandler) (w : World) : Stage → Prop
  | .idle => True
  | .watched => h.inMulti = false ∧ ∃ c, c ≤ n ∧ Watching k text₀ v₀ c h w
  | .read v => h.inMulti = false ∧ HasRead k text₀ v₀ v n h w
  | .opened v => h.inMulti = true ∧ h.txQueue = [] ∧ HasRead k text₀ v₀ v n h w
  | .queued v => h.inMulti = true ∧ h.txQueue = [setCmd k v] ∧ HasRead k text₀ v₀ v n h w

/-- The invariant of the counting system. -/
structure CountInv {ι : Type} (s : System ι) (stage : ι → Stage) (n : ℕ) : Prop where
  /-- Every client has its own socket. -/
  sockets : Function.Injective fun i => (s.handlers i).clientFd
  /-- The value at the key. -/
  value : s.world.db.cell k = strCell (valueText text₀ v₀ n)
  /-- The stages. -/
  stages : ∀ i, StageInv k text₀ v₀ n (s.handlers i) s.world (stage i)

end Invariant

variable {k text₀ : Bytes} {v₀ : ℤ}

/-- Increments by others do not disturb a handler that has watched. -/
theorem Watching.transfer {c : ℕ} {h : CommandHandler} {w w' : World}
    (hwatch : Watching k text₀ v₀ c h w)
    (hsub : h.inSubscriptionMode w' = true → h.inSubscriptionMode w = true) :
    Watching k text₀ v₀ c h w' := by
  refine ⟨hwatch.snapshot, hwatch.keys, ?_⟩
  by_contra hne
  have := hsub (by simpa using hne)
  rw [hwatch.unsubscribed] at this
  cases this

/-- Increments by others do not disturb an attempt. -/
theorem StageInv.transfer {n n' : ℕ} (hn : n ≤ n') {h : CommandHandler} {w w' : World}
    (hsub : h.inSubscriptionMode w' = true → h.inSubscriptionMode w = true) {stage : Stage}
    (hstage : StageInv k text₀ v₀ n h w stage) : StageInv k text₀ v₀ n' h w' stage := by
  have hread {v : ℤ} : HasRead k text₀ v₀ v n h w → HasRead k text₀ v₀ v n' h w' := by
    rintro ⟨c, c', hc, hc', hv, hwatch⟩
    exact ⟨c, c', hc, hc'.trans hn, hv, hwatch.transfer hsub⟩
  cases stage with
  | idle => trivial
  | watched =>
    obtain ⟨hmulti, c, hc, hwatch⟩ := hstage
    exact ⟨hmulti, c, hc.trans hn, hwatch.transfer hsub⟩
  | read v => exact ⟨hstage.1, hread hstage.2⟩
  | opened v => exact ⟨hstage.1, hstage.2.1, hread hstage.2.2⟩
  | queued v => exact ⟨hstage.1, hstage.2.1, hread hstage.2.2⟩

variable {ι : Type} [DecidableEq ι]

/-- A command of client `i` keeps the invariant if it does so for this client and the key. -/
theorem CountInv.exec {s : System ι} {stage : ι → Stage} {n n' : ℕ}
    (hinv : CountInv k text₀ v₀ s stage n) (hn : n ≤ n') {i : ι} {cmd : Command} {st : Stage}
    (hvalue : (s.exec i cmd).2.world.db.cell k = strCell (valueText text₀ v₀ n'))
    (hown : StageInv k text₀ v₀ n' ((s.exec i cmd).2.handlers i) (s.exec i cmd).2.world st) :
    CountInv k text₀ v₀ (s.exec i cmd).2 (Function.update stage i st) n' where
  sockets := by
    have hfds : (fun j => ((s.exec i cmd).2.handlers j).clientFd) =
        fun j => (s.handlers j).clientFd := funext (Step.command s i cmd).clientFd_eq
    rw [hfds]
    exact hinv.sockets
  value := hvalue
  stages := by
    intro j
    by_cases hij : j = i
    · subst hij
      rw [Function.update_self]
      exact hown
    · rw [Function.update_of_ne hij, handlers_exec_of_ne s hij]
      refine (hinv.stages j).transfer hn fun hsub => ?_
      exact CommandHandler.isSubscribed_of_execute (fun heq => hij (hinv.sockets heq)) hsub

/-! ### The steps -/

section Steps

variable {s : System ι} {stage : ι → Stage} {n : ℕ} (hinv : CountInv k text₀ v₀ s stage n) {i : ι}
include hinv

/-- A `WATCH` remembers the present value. -/
theorem CountInv.watch (hok : (s.exec i (watchCmd k)).1 = ascii "OK") :
    CountInv k text₀ v₀ (s.exec i (watchCmd k)).2 (Function.update stage i .watched) n := by
  obtain ⟨hsub, hmulti, hexec⟩ := CommandHandler.execute_watch (watchCmd k) rfl hok
  obtain ⟨m, hread⟩ := CommandHandler.readSteps_snapshotKeys [k] s.world
  have hworld : (s.exec i (watchCmd k)).2.world = (CommandHandler.snapshotKeys [k] s.world).2 :=
    congrArg Prod.snd hexec
  have hhandler : (s.exec i (watchCmd k)).2.handlers i = _ :=
    (handlers_exec_self s i _).trans (congrArg Prod.fst hexec)
  refine hinv.exec le_rfl (by rw [hworld]; exact hread.cell_eq hinv.value) ?_
  rw [hworld, hhandler]
  refine ⟨hmulti, n, le_rfl, ?_, by simp [watchCmd], ?_⟩
  · refine List.mem_append_right _ ?_
    rw [← snapshotKey_strCell hinv.value]
    exact List.mem_cons_self
  · unfold CommandHandler.inSubscriptionMode at hsub ⊢
    rw [hread.frame.1]
    exact hsub

/-- A `GET` reads the present value. -/
theorem CountInv.get (h₀ : strtol text₀ = some v₀) (hi : stage i = .watched) {text : Bytes} {v : ℤ}
    (hanswer : (s.exec i (getCmd k)).1 = quoted text) (hv : strtol text = some v) :
    CountInv k text₀ v₀ (s.exec i (getCmd k)).2 (Function.update stage i (.read v)) n := by
  have hstage := hinv.stages i
  rw [hi] at hstage
  obtain ⟨hmulti, c, hc, hwatch⟩ := hstage
  have hexec := CommandHandler.execute_other hwatch.unsubscribed (getCmd k) rfl
  rw [if_neg (by simp [hmulti]), executeSingle_getCmd, get_strCell hinv.value] at hexec
  have hworld : (s.exec i (getCmd k)).2.world = (s.world.call (.get k)).2 :=
    congrArg (fun r => r.2.2) hexec
  have hhandler : (s.exec i (getCmd k)).2.handlers i = s.handlers i :=
    (handlers_exec_self s i _).trans (congrArg (fun r => r.2.1) hexec)
  have htext : text = valueText text₀ v₀ n :=
    quoted_injective (hanswer.symm.trans (congrArg Prod.fst hexec))
  have hvn : v = v₀ + (n : ℤ) := by
    rw [htext, strtol_valueText h₀] at hv
    exact (Option.some.inj hv).symm
  refine hinv.exec le_rfl ?_ ?_
  · rw [hworld]
    exact (ReadSteps.single (.get k) trivial).cell_eq hinv.value
  · rw [hworld, hhandler]
    exact ⟨hmulti, c, n, hc, le_rfl, hvn, hwatch.snapshot, hwatch.keys, hwatch.unsubscribed⟩

/-- `MULTI` opens a transaction. -/
theorem CountInv.multi {v : ℤ} (hi : stage i = .read v) :
    CountInv k text₀ v₀ (s.exec i multiCmd).2 (Function.update stage i (.opened v)) n := by
  have hstage := hinv.stages i
  rw [hi] at hstage
  obtain ⟨hmulti, c, c', hc, hc', hv, hwatch⟩ := hstage
  have hexec := CommandHandler.execute_multi hwatch.unsubscribed multiCmd rfl
  rw [CommandHandler.handleMulti, if_neg (by simp [hmulti])] at hexec
  have hworld : (s.exec i multiCmd).2.world = s.world := congrArg (fun r => r.2.2) hexec
  have hhandler : (s.exec i multiCmd).2.handlers i = _ :=
    (handlers_exec_self s i _).trans (congrArg (fun r => r.2.1) hexec)
  refine hinv.exec le_rfl (by rw [hworld]; exact hinv.value) ?_
  rw [hworld, hhandler]
  exact ⟨rfl, rfl, c, c', hc, hc', hv, hwatch.snapshot, hwatch.keys, hwatch.unsubscribed⟩

/-- `SET` is queued. -/
theorem CountInv.set {v : ℤ} (hi : stage i = .opened v) :
    CountInv k text₀ v₀ (s.exec i (setCmd k v)).2 (Function.update stage i (.queued v)) n := by
  have hstage := hinv.stages i
  rw [hi] at hstage
  obtain ⟨hmulti, hqueue, c, c', hc, hc', hv, hwatch⟩ := hstage
  have hexec := CommandHandler.execute_other hwatch.unsubscribed (setCmd k v) rfl
  rw [if_pos hmulti, hqueue] at hexec
  have hworld : (s.exec i (setCmd k v)).2.world = s.world := congrArg (fun r => r.2.2) hexec
  have hhandler : (s.exec i (setCmd k v)).2.handlers i = _ :=
    (handlers_exec_self s i _).trans (congrArg (fun r => r.2.1) hexec)
  refine hinv.exec le_rfl (by rw [hworld]; exact hinv.value) ?_
  rw [hworld, hhandler]
  exact ⟨hmulti, rfl, c, c', hc, hc', hv, hwatch.snapshot, hwatch.keys, hwatch.unsubscribed⟩

/-- An `EXEC` that is not aborted writes the next value, and an aborted one writes nothing. -/
theorem CountInv.execStep (h₀ : strtol text₀ = some v₀) {v : ℤ} (hi : stage i = .queued v) :
    CountInv k text₀ v₀ (s.exec i execCmd).2 (Function.update stage i .idle)
      (if (s.exec i execCmd).1 = ascii "(nil)" then n else n + 1) := by
  have hstage := hinv.stages i
  rw [hi] at hstage
  obtain ⟨hmulti, hqueue, c, c', hc, hc', hv, hwatch⟩ := hstage
  obtain ⟨m, hread⟩ := (s.handlers i).readSteps_watchCheck s.world
  have hcell := hread.cell_eq hinv.value
  have hexec := CommandHandler.execute_exec hwatch.unsubscribed execCmd rfl hmulti
  by_cases hcheck : ((s.handlers i).watchCheck s.world).1 = true
  · rw [if_pos hcheck] at hexec
    have hworld : (s.exec i execCmd).2.world = ((s.handlers i).watchCheck s.world).2 :=
      congrArg (fun r => r.2.2) hexec
    have hanswer : (s.exec i execCmd).1 = ascii "(nil)" := congrArg Prod.fst hexec
    rw [if_pos hanswer]
    exact hinv.exec le_rfl (by rw [hworld]; exact hcell) trivial
  · rw [if_neg hcheck] at hexec
    have hworld : (s.exec i execCmd).2.world =
        ((s.handlers i).executeAll (s.handlers i).txQueue
          ((s.handlers i).watchCheck s.world).2).2 := congrArg (fun r => r.2.2) hexec
    have hanswer : (s.exec i execCmd).1 ≠ ascii "(nil)" := by
      change ((s.handlers i).execute execCmd s.world).1 ≠ _
      rw [hexec]
      exact (s.handlers i).execReply_ne_nil _
    -- The check has found the value of the `WATCH`, so nothing was written since then.
    have hcn : n = c := by
      refine valueText_injective h₀ (eq_of_watchedKeysModified hinv.value hwatch.snapshot ?_)
      rw [CommandHandler.watchCheck, if_neg hwatch.keys] at hcheck
      exact Bool.eq_false_of_not_eq_true hcheck
    have hnext : v + 1 = v₀ + ((n : ℤ) + 1) := by
      obtain rfl : c' = n := by omega
      omega
    rw [if_neg hanswer]
    refine hinv.exec (Nat.le_succ n) ?_ trivial
    rw [hworld, hqueue, executeAll_setCmd, hnext]
    exact cell_call_set _ _ _

end Steps

/-- The invariant holds in every state that is reached. -/
theorem countInv_of_counting {s₀ : System ι} (h₀ : strtol text₀ = some v₀)
    (hsockets : Function.Injective fun i => (s₀.handlers i).clientFd)
    (hvalue : s₀.world.db.cell k = strCell text₀) {s : System ι} {stage : ι → Stage} {n : ℕ}
    (h : Counting k s₀ s stage n) : CountInv k text₀ v₀ s stage n := by
  induction h with
  | start => exact ⟨hsockets, hvalue, fun _ => trivial⟩
  | watch _ hi hok ih => exact ih.watch hok
  | get _ hi hanswer hv ih => exact ih.get h₀ hi hanswer hv
  | multi _ hi ih => exact ih.multi hi
  | set _ hi ih => exact ih.set hi
  | exec _ hi ih => exact ih.execStep h₀ hi
  | @giveUp s stage n _ i ih =>
    refine ⟨ih.sockets, ih.value, fun j => ?_⟩
    by_cases hij : j = i
    · subst hij
      rw [Function.update_self]
      trivial
    · rw [Function.update_of_ne hij]
      exact ih.stages j
  | @other s stage n _ i hi cmd hkeep ih =>
    have hnext : CountInv k text₀ v₀ (s.exec i cmd).2 (Function.update stage i .idle) n :=
      ih.exec le_rfl (hkeep.trans ih.value) trivial
    rwa [← hi, Function.update_eq_self] at hnext
  | @scan s stage n _ ih =>
    have hscan : k ∉ s.world.db.scanned s.world.now := by
      intro hmem
      have hexp := Database.expired_of_mem_scanned hmem
      rw [ih.value, Cell.expired_of_deadline_eq_none rfl] at hexp
      cases hexp
    have hcell := congrFun (Database.cell_expiryScan s.world.now s.world.db) k
    refine ⟨ih.sockets, hcell.trans ((if_neg hscan).trans ih.value), fun j => ?_⟩
    refine (ih.stages j).transfer le_rfl ?_
    exact fun hsub => hsub
  | reorder _ hdb hpubsub ih =>
    refine ⟨ih.sockets, (congrFun hdb.cell_eq k).trans ih.value, fun j => ?_⟩
    refine (ih.stages j).transfer le_rfl ?_
    exact fun hsub => (hpubsub.isSubscribed_eq _).symm.trans hsub

/-- **No lost update.**  If every write to `k`, which holds a number and has no deadline, is made by
an attempt, then in every state that is reached `k` holds a string without deadline that stands for
the initial number plus the number of `EXEC`s of attempts that were not aborted. -/
theorem no_lost_update {s₀ : System ι}
    (hsockets : Function.Injective fun i => (s₀.handlers i).clientFd) {k text₀ : Bytes} {v₀ : ℤ}
    (hvalue : s₀.world.db.cell k = ⟨some text₀, none, none⟩) (h₀ : strtol text₀ = some v₀)
    {s : System ι} {stage : ι → Stage} {n : ℕ} (h : Counting k s₀ s stage n) :
    ∃ text, s.world.db.cell k = ⟨some text, none, none⟩ ∧ strtol text = some (v₀ + n) :=
  ⟨valueText text₀ v₀ n, (countInv_of_counting h₀ hsockets hvalue h).value, strtol_valueText h₀ n⟩

/-- Two clients, and the number `5` at the key `k`. -/
def counterStart : System Bool :=
  twoClients.after [(true, ⟨ascii "SET", [ascii "k", ascii "5"]⟩)]

/-- Client `false` makes an attempt, and client `true` begins another one. -/
def attempt : List (Bool × Command) :=
  [(false, watchCmd (ascii "k")), (true, watchCmd (ascii "k")), (false, getCmd (ascii "k")),
    (false, multiCmd), (false, setCmd (ascii "k") 5), (false, execCmd)]

/-- After this attempt the number is `6`. -/
theorem no_lost_update_one_attempt :
    ∃ text, (counterStart.after attempt).world.db.cell (ascii "k") = ⟨some text, none, none⟩ ∧
      strtol text = some (5 + (1 : ℕ)) := by
  have hvalue : counterStart.world.db.cell (ascii "k") = ⟨some (ascii "5"), none, none⟩ := rfl
  have hnumber : strtol (ascii "5") = some 5 := by decide
  have hstart : Counting (ascii "k") counterStart counterStart (fun _ => .idle) 0 := .start
  have hwatch := (hstart.watch (i := false) rfl (by decide)).watch (i := true) rfl (by decide)
  have hanswer : ((counterStart.after (attempt.take 2)).exec false (getCmd (ascii "k"))).1 =
      quoted (ascii "5") := by decide
  have hread := hwatch.get (i := false) rfl hanswer hnumber
  have hexec := ((hread.multi (i := false) rfl).set (i := false) rfl).exec (i := false) rfl
  rw [if_neg (by decide)] at hexec
  exact no_lost_update (by decide) hvalue hnumber hexec

end System

end MyRedis
