import MyRedis.Commands.Responses
import MyRedis.Commands.System
import MyRedis.Database.Effect
import MyRedis.Resp.Framing

/-!
# Commands that fail

A handler that returns an error is expected to have done nothing.  This is so except in two places.
`SET` stores the value before it looks at the option `EX`, so that the value stays when the number
of seconds is refused.  And a push reports the new length of the list as an `int`, in which `-1` is
the signal for a key of the wrong type: a push to a list of just the wrong length is reported as
refused.

`CommandHandler.keepsContents_iff_of_isError` says that there are no others.
-/

namespace MyRedis

open Foundation Resp

/-- The same subscriptions, and the same live contents from the instant of the command on. -/
def KeepsContents (w w' : World) : Prop :=
  w'.pubsub = w.pubsub ∧ ∀ t, w.now ≤ t → w'.db.live t = w.db.live t

/-- Nothing has changed. -/
theorem KeepsContents.rfl {w : World} : KeepsContents w w := ⟨Eq.refl _, fun _ _ => Eq.refl _⟩

/-- It is enough to compare the contents at the instant of the command. -/
theorem keepsContents_iff {w w' : World} :
    KeepsContents w w' ↔ w'.pubsub = w.pubsub ∧ w'.db.live w.now = w.db.live w.now := by
  refine and_congr_right fun _ => ⟨fun h => h w.now le_rfl, fun h t ht => ?_⟩
  exact Database.live_eq_of_le ht h

/-! ### Texts that are not errors -/

/-- An error is recognised by its first byte. -/
theorem isError_eq_false {r : Bytes} (h : r.head? ∉ [some 69, some 87, some 78]) :
    isError r = false := by
  by_contra herror
  rcases head?_of_isError (Bool.not_eq_false _ ▸ herror) with he | he | he <;>
    rw [he] at h <;> exact h (by decide)

theorem isError_quoted (s : Bytes) : isError (quoted s) = false :=
  isError_eq_false (by simp [quoted, ascii])

theorem isError_optionalText (s : Option Bytes) : isError (optionalText s) = false := by
  rcases s with _ | s
  · decide
  · exact isError_quoted s

theorem isError_integerText (n : ℤ) : isError (integerText n) = false :=
  isError_eq_false (by simp [integerText, ascii])

theorem isError_boolText (r : DbResult) : isError (CommandHandler.boolText r) = false :=
  isError_eq_false (by simp [CommandHandler.boolText, ascii])

/-- The error for a key of the wrong type is one. -/
theorem isError_wrongtypeErr : isError wrongtypeErr = true := by
  have htake : wrongtypeErr.take 10 = ascii "WRONGTYPE " := by
    rw [wrongtypeErr, ascii_ofList, ascii_ofList]
    rfl
  simp [isError, htake]

/-- A length is an error if it is the signal for the wrong type. -/
theorem isError_lengthText_iff {n : Int32} : isError (lengthText n) = true ↔ n = -1 := by
  unfold lengthText
  split
  · rename_i h
    exact iff_of_true isError_wrongtypeErr h
  · rename_i h
    rw [isError_integerText]
    exact iff_of_false Bool.false_ne_true h

theorem isError_listText (items : List Bytes) : isError (listText items) = false := by
  unfold listText
  split
  · decide
  · obtain ⟨item, rest, hcons⟩ := List.exists_cons_of_ne_nil ‹items ≠ []›
    refine isError_eq_false ?_
    rw [hcons, List.map_cons, head?_lines_numberItems]
    decide

theorem isError_confirmations {kind : String} {c : UInt8} (hc : c ∈ (ascii kind).head?)
    (hkind : c ∉ [69, 87, 78]) (results : List (Bytes × Int32)) :
    isError (confirmations kind results) = false := by
  obtain ⟨rest, hcons⟩ := List.head?_eq_some_iff.mp hc
  refine isError_eq_false ?_
  have hhead : (confirmations kind results).head? = none ∨
      (confirmations kind results).head? = some c := by
    rcases results with _ | ⟨r, _ | ⟨r', results⟩⟩
    · exact Or.inl rfl
    · exact Or.inr (by simp [confirmations, lines, hcons])
    · exact Or.inr (by simp [confirmations, lines, hcons])
  rcases hhead with h | h
  · rw [h]
    decide
  · rw [h]
    simpa using hkind

/-! ### The two exceptions -/

/-- `SET` has stored the value. -/
theorem keepsContents_set_iff {w : World} {key value : Bytes} :
    KeepsContents w (w.call (.set key value)).2 ↔
      w.db.live w.now key = some (.str value, none) := by
  have hlive : (w.call (.set key value)).2.db.live w.now =
      Function.update (w.db.live w.now) key (some (.str value, none)) :=
    Database.live_of_cell_update (w.db.cell_set key value) w.now
  have hpubsub : (w.call (.set key value)).2.pubsub = w.pubsub := rfl
  rw [keepsContents_iff, hlive, and_iff_right hpubsub]
  constructor
  · intro h
    rw [← h, Function.update_self]
  · intro h
    rw [← h, Function.update_eq_self]

/-- The length of a list after a push. -/
theorem length_foldl_ins {ins : List Bytes → Bytes → List Bytes}
    (hins : ∀ l v, (ins l v).length = l.length + 1) (values l : List Bytes) :
    (values.foldl ins l).length = l.length + values.length := by
  induction values generalizing l with
  | nil => rfl
  | cons v values ih =>
    rw [List.foldl_cons, ih, hins, List.length_cons]
    omega

/-- A push changes the live contents unless the key holds a string. -/
theorem pushLive_eq_self_iff {ins : List Bytes → Bytes → List Bytes}
    (hins : ∀ l v, (ins l v).length = l.length + 1) {values : List Bytes} (hvalues : values ≠ [])
    {e : Option Entry} : Cell.pushLive ins values e = e ↔ (strOf e).isSome = true := by
  have hpos : 0 < values.length := List.length_pos_of_ne_nil hvalues
  have hne (l : List Bytes) : values.foldl ins l ≠ [] := by
    intro hnil
    have hlength := length_foldl_ins hins values l
    rw [hnil, List.length_nil] at hlength
    omega
  rcases e with _ | ⟨_ | ⟨l, hl⟩, d⟩
  · refine iff_of_false ?_ (by simp [strOf])
    simp [Cell.pushLive, Value.ofList_of_ne_nil (hne _)]
  · exact iff_of_true rfl rfl
  · refine iff_of_false ?_ (by simp [strOf])
    rw [Cell.pushLive, Value.ofList_of_ne_nil (hne _)]
    intro heq
    simp only [Option.map_some, Option.some.injEq, Prod.mk.injEq, Value.list.injEq, and_true] at heq
    have hlength := length_foldl_ins hins values l
    rw [heq] at hlength
    omega

/-- A push keeps the contents exactly if the key holds a string. -/
theorem keepsContents_push_iff {ins : List Bytes → Bytes → List Bytes}
    (hins : ∀ l v, (ins l v).length = l.length + 1) {w w' : World} (hw : w.db.Inv) {key : Bytes}
    {values : List Bytes} (hvalues : values ≠ []) (hpubsub : w'.pubsub = w.pubsub)
    (hdb : w'.db = (Database.push ins w.now key values w.db).2) :
    KeepsContents w w' ↔ (strOf (w.db.live w.now key)).isSome = true := by
  have hlive : w'.db.live w.now =
      Function.update (w.db.live w.now) key (Cell.pushLive ins values (w.db.live w.now key)) := by
    rw [hdb, Database.live_of_cell_update (Database.cell_push ins w.db w.now key values),
      Cell.live_push (hw key)]
    rfl
  rw [keepsContents_iff, and_iff_right hpubsub, hlive, ← pushLive_eq_self_iff hins hvalues]
  constructor
  · intro h
    have hkey := congrFun h key
    rwa [Function.update_self] at hkey
  · intro h
    rw [h, Function.update_eq_self]

namespace CommandHandler

/-- The commands that change the contents although they fail: a `SET` whose option `EX` is refused,
unless the key has the value already and no deadline; and a push to a key that holds no string, if
the new length of the list is `-1` as an `int`. -/
inductive FailsLate (cmd : Command) (w : World) : Prop
  | set {key value option seconds : Bytes} {rest : List Bytes} (hname : cmd.name = ascii "SET")
      (hargs : cmd.args = key :: value :: option :: seconds :: rest)
      (hoption : option.map toUpper = ascii "EX") (hseconds : ∀ n, stoi seconds = some n → n ≤ 0)
      (hkey : w.db.live w.now key ≠ some (.str value, none))
  | push {key value : Bytes} {values : List Bytes}
      (hname : cmd.name = ascii "LPUSH" ∨ cmd.name = ascii "RPUSH")
      (hargs : cmd.args = key :: value :: values) (hkey : strOf (w.db.live w.now key) = none)
      (hlength : (((listOf (w.db.live w.now key)).getD []).length + values.length + 1) % 2 ^ 32 =
        2 ^ 32 - 1)

/-- Other commands do not. -/
theorem not_failsLate {cmd : Command}
    (hname : cmd.name ∉ [ascii "SET", ascii "LPUSH", ascii "RPUSH"]) (w : World) :
    ¬ FailsLate cmd w := by
  simp only [List.mem_cons, List.not_mem_nil, or_false, not_or] at hname
  rintro (⟨hset, -⟩ | ⟨hpush | hpush, -⟩)
  · exact hname.1 hset
  · exact hname.2.1 hpush
  · exact hname.2.2 hpush

/-- What a handler has to do for a command: if it fails, it keeps the contents unless the command
fails late. -/
def Fails (cmd : Command) (w : World) (result : Bytes × World) : Prop :=
  isError result.1 = true → (KeepsContents w result.2 ↔ ¬ FailsLate cmd w)

section

variable {cmd : Command} {w : World}

/-- The command has not failed. -/
theorem fails_of_isError_eq_false {result : Bytes × World} (h : isError result.1 = false) :
    Fails cmd w result := by
  intro herror
  rw [h] at herror
  cases herror

/-- The handler has done nothing. -/
theorem fails_of_not_failsLate {result : Bytes × World} (h : KeepsContents w result.2)
    (hlate : ¬ FailsLate cmd w) : Fails cmd w result :=
  fun _ => iff_of_true h hlate

/-- The new length of a list is the signal for the wrong type. -/
theorem ofNat_eq_neg_one_iff {n : ℕ} : Int32.ofNat n = -1 ↔ n % 2 ^ 32 = 2 ^ 32 - 1 := by
  have hsize : Int32.size = 2 ^ 32 := rfl
  have hone : (-1 : Int32).toInt = -1 := by decide
  rw [← Int32.toInt_inj, Int32.toInt_ofNat', hone, hsize, Int.bmod_eq_emod]
  split <;> omega

/-- `SET` fails after it has stored the value. -/
theorem fails_handleSet (hname : cmd.name = ascii "SET") : Fails cmd w (handleSet cmd w) := by
  have hok : isError (ascii "OK") = false := by decide
  have hpush : ¬ (cmd.name = ascii "LPUSH" ∨ cmd.name = ascii "RPUSH") := by
    rw [hname]
    decide
  have hlate {key value option seconds : Bytes} {rest : List Bytes}
      (hargs : cmd.args = key :: value :: option :: seconds :: rest)
      (hoption : option.map toUpper = ascii "EX") (hseconds : ∀ n, stoi seconds = some n → n ≤ 0) :
      KeepsContents w (w.call (.set key value)).2 ↔ ¬ FailsLate cmd w := by
    rw [keepsContents_set_iff, iff_not_comm]
    constructor
    · rintro (⟨-, hargs', -, -, hkey⟩ | ⟨hname', -⟩)
      · rw [hargs] at hargs'
        simp only [List.cons.injEq] at hargs'
        obtain ⟨rfl, rfl, -⟩ := hargs'
        exact hkey
      · exact absurd hname' hpush
    · intro hkey
      exact .set hname hargs hoption hseconds hkey
  unfold handleSet
  split
  · rename_i key value options hargs
    unfold handleSetOption
    split
    · split_ifs with hoption
      · split
        · rename_i hnone
          exact fun _ => hlate hargs hoption (by simp [hnone])
        · rename_i n hsome
          split_ifs with hle
          · refine fun _ => hlate hargs hoption fun m hm => ?_
            rwa [← Option.some.inj (hsome.symm.trans hm)]
          · exact fails_of_isError_eq_false hok
      · exact fails_of_isError_eq_false hok
    · exact fails_of_isError_eq_false hok
  · rename_i hargs
    refine fails_of_not_failsLate .rfl ?_
    rintro (⟨-, hargs', -⟩ | ⟨hname', -⟩)
    · exact hargs _ _ _ hargs'
    · exact hpush hname'

/-- A push fails on a string, and on a list of the wrong length. -/
theorem fails_handlePush {name : String} {op : Bytes → List Bytes → DbOp}
    {ins : List Bytes → Bytes → List Bytes} (hins : ∀ l v, (ins l v).length = l.length + 1)
    (hop : ∀ key values, (op key values).run (w.clock 0) w.db =
      (Database.push ins w.now key values w.db).map .int id)
    (hname : cmd.name = ascii "LPUSH" ∨ cmd.name = ascii "RPUSH") (hw : w.db.Inv) :
    Fails cmd w (handlePush name op cmd w) := by
  have hset : cmd.name ≠ ascii "SET" := by
    rcases hname with h | h <;> rw [h] <;> decide
  unfold handlePush
  split
  · rename_i key value values hargs
    intro herror
    have hcall : (w.call (op key (value :: values))).1.toInt =
        (Database.push ins w.now key (value :: values) w.db).1 := by
      rw [World.call, hop]
      rfl
    have hdb : (w.call (op key (value :: values))).2.db =
        (Database.push ins w.now key (value :: values) w.db).2 := by
      rw [World.call, hop]
      rfl
    have hpubsub : (w.call (op key (value :: values))).2.pubsub = w.pubsub := rfl
    rw [reply, isError_lengthText_iff, hcall, Database.push_live hw] at herror
    rw [reply, keepsContents_push_iff hins hw (List.cons_ne_nil _ _) hpubsub hdb, iff_not_comm]
    constructor
    · rintro (⟨hname', -⟩ | ⟨-, hargs', hkey, -⟩)
      · exact absurd hname' hset
      · rw [hargs] at hargs'
        simp only [List.cons.injEq] at hargs'
        obtain ⟨rfl, -, -⟩ := hargs'
        simp [hkey]
    · intro hkey
      rw [if_neg hkey, ofNat_eq_neg_one_iff, length_foldl_ins hins, List.length_cons] at herror
      exact .push hname hargs (by simpa using hkey) herror
  · rename_i hargs
    refine fails_of_not_failsLate .rfl ?_
    rintro (⟨hname', -⟩ | ⟨-, hargs', -⟩)
    · exact hset hname'
    · exact hargs _ _ _ hargs'

section NotLate

variable (hlate : ¬ FailsLate cmd w)
include hlate

/-- `PING` may repeat a text that looks like an error. -/
theorem fails_handlePing : Fails cmd w (handlePing cmd w) := by
  unfold handlePing
  split <;> exact fails_of_not_failsLate .rfl hlate

theorem fails_handleKey {name : String} {op : Bytes → DbOp} {text : DbResult → Bytes}
    (htext : ∀ r, isError (text r) = false) : Fails cmd w (handleKey name op text cmd w) := by
  unfold handleKey
  split
  · exact fails_of_isError_eq_false (htext _)
  · exact fails_of_not_failsLate .rfl hlate

theorem fails_handleKeyList {name : String} {op : List Bytes → DbOp} :
    Fails cmd w (handleKeyList name op cmd w) := by
  unfold handleKeyList
  split
  · exact fails_of_not_failsLate .rfl hlate
  · exact fails_of_isError_eq_false (isError_integerText _)

theorem fails_handleExpire : Fails cmd w (handleExpire cmd w) := by
  unfold handleExpire
  split
  · split
    · exact fails_of_not_failsLate .rfl hlate
    · split_ifs
      · exact fails_of_not_failsLate .rfl hlate
      · exact fails_of_isError_eq_false (isError_boolText _)
  · exact fails_of_not_failsLate .rfl hlate

theorem fails_handleSave : Fails cmd w (handleSave cmd w) :=
  fails_of_not_failsLate ⟨rfl, fun _ _ => rfl⟩ hlate

theorem fails_handleLrange : Fails cmd w (handleLrange cmd w) := by
  unfold handleLrange
  split
  · split
    · exact fails_of_isError_eq_false (isError_listText _)
    · exact fails_of_not_failsLate .rfl hlate
  · exact fails_of_not_failsLate .rfl hlate

/-- `LLEN` fails on a string, after it has looked whether the key has expired. -/
theorem fails_handleLlen : Fails cmd w (handleLlen cmd w) := by
  unfold handleLlen handleKey
  split
  · rename_i key _
    refine fails_of_not_failsLate ⟨rfl, fun t ht => ?_⟩ hlate
    exact Database.live_of_cell_purge (w.db.cell_llen w.now key) (Cell.live_purge _ _) ht
  · exact fails_of_not_failsLate .rfl hlate

theorem fails_handleLindex : Fails cmd w (handleLindex cmd w) := by
  unfold handleLindex
  split
  · split
    · exact fails_of_not_failsLate .rfl hlate
    · exact fails_of_isError_eq_false (isError_optionalText _)
  · exact fails_of_not_failsLate .rfl hlate

theorem fails_handleSubscribe (h : CommandHandler) : Fails cmd w (h.handleSubscribe cmd w) := by
  unfold handleSubscribe
  split
  · exact fails_of_not_failsLate .rfl hlate
  · exact fails_of_isError_eq_false (isError_confirmations (c := 115) (by decide) (by decide) _)

theorem fails_handlePublish : Fails cmd w (handlePublish cmd w) := by
  unfold handlePublish
  split
  · exact fails_of_isError_eq_false (isError_integerText _)
  · exact fails_of_not_failsLate .rfl hlate

end NotLate

theorem fails_handleInfo (h : CommandHandler) : Fails cmd w (h.handleInfo cmd w) := by
  unfold handleInfo
  simp only
  split <;> exact fails_of_isError_eq_false (isError_eq_false (by simp [reply, ascii]))

end

/-- **Failed commands.**  If the response to a command is an error, the subscriptions and the live
contents of the database, values and deadlines, are as before if and only if the command does not
fail late. -/
theorem keepsContents_iff_of_isError (h : CommandHandler) {cmd : Command} {w : World}
    (hw : w.db.Inv) (herror : isError (h.executeSingle cmd w).1 = true) :
    KeepsContents w (h.executeSingle cmd w).2 ↔ ¬ FailsLate cmd w := by
  have hok : isError (ascii "OK") = false := by decide
  have hfails : Fails cmd w (h.executeSingle cmd w) := by
    have hdispatch := h.dispatches cmd
    have hlate {name : Bytes} (hname : cmd.name = name)
        (hother : name ∉ [ascii "SET", ascii "LPUSH", ascii "RPUSH"]) : ¬ FailsLate cmd w :=
      not_failsLate (hname ▸ hother) w
    generalize h.executeSingle cmd = run at hdispatch ⊢
    cases hdispatch with
    | ping hname => exact fails_handlePing (hlate hname (by decide))
    | set hname => exact fails_handleSet hname
    | get hname | lpop hname | rpop hname =>
      exact fails_handleKey (hlate hname (by decide)) fun _ => isError_optionalText _
    | del hname | existing hname => exact fails_handleKeyList (hlate hname (by decide))
    | keys => exact fails_of_isError_eq_false (isError_listText _)
    | dbsize => exact fails_of_isError_eq_false (isError_integerText _)
    | flushdb => exact fails_of_isError_eq_false hok
    | expire hname => exact fails_handleExpire (hlate hname (by decide))
    | ttl hname => exact fails_handleKey (hlate hname (by decide)) fun _ => isError_integerText _
    | persist hname => exact fails_handleKey (hlate hname (by decide)) fun _ => isError_boolText _
    | save hname => exact fails_handleSave (hlate hname (by decide))
    | lpush hname =>
      exact fails_handlePush (fun _ _ => rfl) (fun _ _ => rfl) (Or.inl hname) hw
    | rpush hname =>
      exact fails_handlePush (fun _ _ => List.length_append) (fun _ _ => rfl) (Or.inr hname) hw
    | lrange hname => exact fails_handleLrange (hlate hname (by decide))
    | llen hname => exact fails_handleLlen (hlate hname (by decide))
    | lindex hname => exact fails_handleLindex (hlate hname (by decide))
    | subscribe hname => exact fails_handleSubscribe (hlate hname (by decide)) h
    | unsubscribe =>
      exact fails_of_isError_eq_false (isError_confirmations (c := 117) (by decide) (by decide) _)
    | publish hname => exact fails_handlePublish (hlate hname (by decide))
    | config hname => exact fails_of_not_failsLate .rfl (hlate hname (by decide))
    | info => exact fails_handleInfo h
    | unknown hname =>
      refine fails_of_not_failsLate .rfl (not_failsLate (fun hmem => hname ?_) w)
      simp only [List.mem_cons, List.not_mem_nil, or_false] at hmem
      rcases hmem with hmem | hmem | hmem <;> rw [hmem] <;> decide
  exact hfails herror

/-- A deadline that is refused, on a key that exists. -/
theorem keepsContents_expire_refused :
    let w := ((new 4 none).execute ⟨ascii "SET", [ascii "k", ascii "v"]⟩ World.initial).2.2
    let cmd : Command := ⟨ascii "EXPIRE", [ascii "k", ascii "0"]⟩
    ((new 4 none).executeSingle cmd w).1 = invalidExpire "EXPIRE" ∧
      KeepsContents w ((new 4 none).executeSingle cmd w).2 := by
  intro w cmd
  have hw : w.Valid := execute_valid World.initial_valid
  refine ⟨by decide, ?_⟩
  exact (keepsContents_iff_of_isError (new 4 none) hw.db (by decide)).mpr
    (not_failsLate (by decide) w)

/-- A `SET` that is refused because of its deadline has stored the value, without a deadline. -/
theorem set_stores_before_it_fails :
    let cmd : Command := ⟨ascii "SET", [ascii "k", ascii "v", ascii "EX", ascii "0"]⟩
    ((new 4 none).executeSingle cmd World.initial).1 = invalidExpire "SET" ∧
      World.initial.db.live World.initial.now (ascii "k") = none ∧
      ((new 4 none).executeSingle cmd World.initial).2.db.live World.initial.now (ascii "k") =
        some (.str (ascii "v"), none) ∧
      ¬ KeepsContents World.initial ((new 4 none).executeSingle cmd World.initial).2 := by
  intro cmd
  have hafter :
      ((new 4 none).executeSingle cmd World.initial).2.db.live World.initial.now (ascii "k") =
        some (.str (ascii "v"), none) := by
    decide
  have hbefore : World.initial.db.live World.initial.now (ascii "k") = none := by decide
  refine ⟨by decide, hbefore, hafter, fun h => ?_⟩
  have hsame := congrFun (h.2 World.initial.now le_rfl) (ascii "k")
  rw [hafter, hbefore] at hsame
  cases hsame

end CommandHandler

end MyRedis
