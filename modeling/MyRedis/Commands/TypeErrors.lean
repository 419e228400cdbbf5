import MyRedis.Commands.Failures

/-!
# Commands on keys of the wrong type

A key holds a string or a list, and a command for the one kind of value should be refused with the
`WRONGTYPE` error if the key holds the other.  Only `LPUSH`, `RPUSH` and `LLEN` do this: the
database returns `-1` for them.  The other list commands and `GET` look into one of the two maps
only and answer as if the key did not exist.  And as the number `-1` is also what the length of a
very long list is as an `int`, these three commands report the wrong type for such a list, too.

`CommandHandler.uniform_iff` says that there is nothing else.
-/

namespace MyRedis

open Foundation Resp

namespace Database

/-- The value of a key that has not expired is a string. -/
def holdsString (now : TimePoint) (db : Database) (key : Bytes) : Bool :=
  ((db.cell key).purge now).str.isSome

/-- The value of a key that has not expired is a list. -/
def holdsList (now : TimePoint) (db : Database) (key : Bytes) : Bool :=
  ((db.cell key).purge now).list.isSome

/-- The list at a key that has not expired, which is empty if there is none. -/
def liveList (now : TimePoint) (db : Database) (key : Bytes) : List Bytes :=
  ((db.cell key).purge now).list.getD []

/-- A key that holds a string has not expired. -/
theorem isExpiredUnlocked_of_holdsString {now : TimePoint} {db : Database} {key : Bytes}
    (h : db.holdsString now key = true) : db.isExpiredUnlocked now key = false := by
  rw [isExpiredUnlocked_eq]
  by_contra hexpired
  rw [holdsString, Cell.purge, if_pos (Bool.eq_true_of_not_eq_false hexpired)] at h
  cases h

/-- The string of such a key is in the map. -/
theorem lookup_of_holdsString {now : TimePoint} {db : Database} {key : Bytes}
    (h : db.holdsString now key = true) : (db.store.lookup key).isSome = true := by
  have hlive := isExpiredUnlocked_of_holdsString h
  rw [isExpiredUnlocked_eq] at hlive
  rw [holdsString, Cell.purge, if_neg (by rw [hlive]; exact Bool.false_ne_true)] at h
  exact h

/-- A push to a string changes nothing. -/
theorem push_of_holdsString {now : TimePoint} {db : Database} {key : Bytes}
    (h : db.holdsString now key = true) (ins : List Bytes → Bytes → List Bytes)
    (values : List Bytes) : (push ins now key values db).2 = db := by
  have hdb : lazyExpire now key db = db := by
    rw [lazyExpire, isExpiredUnlocked_of_holdsString h]
    rfl
  simp only [push, hdb, lookup_of_holdsString h, if_true]

/-- Asking for the length of a string changes nothing. -/
theorem llen_of_holdsString {now : TimePoint} {db : Database} {key : Bytes}
    (h : db.holdsString now key = true) : (db.llen now key).2 = db := by
  rw [llen, isExpiredUnlocked_of_holdsString h, if_pos (lookup_of_holdsString h)]
  rfl

end Database

namespace CommandHandler

/-! ### What is expected -/

/-- The commands that work on one type of value. -/
def typedNames : List Bytes :=
  [ascii "GET", ascii "LPUSH", ascii "RPUSH", ascii "LPOP", ascii "RPOP", ascii "LRANGE",
    ascii "LLEN", ascii "LINDEX"]

/-- Those among them that do not look at the type. -/
def silentNames : List Bytes :=
  [ascii "GET", ascii "LPOP", ascii "RPOP", ascii "LRANGE", ascii "LINDEX"]

/-- A command that works on one type of value, with arguments of a valid number and form, the first
of which is the key. -/
inductive OnKey (cmd : Command) (key : Bytes) : Prop
  | single (hname : cmd.name ∈ [ascii "GET", ascii "LPOP", ascii "RPOP", ascii "LLEN"])
      (hargs : cmd.args = [key])
  | push {value : Bytes} {values : List Bytes} (hname : cmd.name ∈ [ascii "LPUSH", ascii "RPUSH"])
      (hargs : cmd.args = key :: value :: values)
  | lrange {start stop : Bytes} (hname : cmd.name = ascii "LRANGE")
      (hargs : cmd.args = [key, start, stop]) (hstart : (stoi start).isSome = true)
      (hstop : (stoi stop).isSome = true)
  | lindex {index : Bytes} (hname : cmd.name = ascii "LINDEX") (hargs : cmd.args = [key, index])
      (hindex : (stoi index).isSome = true)

/-- The key of a command holds a value of the other type. -/
def Mismatch (cmd : Command) (w : World) : Prop :=
  ∃ key, OnKey cmd key ∧
    if cmd.name = ascii "GET" then w.db.holdsList w.now key = true
    else w.db.holdsString w.now key = true

/-- A result is the `WRONGTYPE` error if and only if the key has the other type, and then the
database has not changed. -/
structure Uniform (cmd : Command) (w : World) (result : Bytes × World) : Prop where
  /-- The answer. -/
  answer : result.1 = wrongtypeErr ↔ Mismatch cmd w
  /-- The database. -/
  unchanged : Mismatch cmd w → result.2.db = w.db

/-- The key does not hold a string, but the length of its list is `-1` as an `int`. -/
inductive LooksMismatched (cmd : Command) (w : World) : Prop
  | push {key value : Bytes} {values : List Bytes}
      (hname : cmd.name ∈ [ascii "LPUSH", ascii "RPUSH"])
      (hargs : cmd.args = key :: value :: values) (hkey : w.db.holdsString w.now key = false)
      (hlength : ((w.db.liveList w.now key).length + values.length + 1) % 2 ^ 32 = 2 ^ 32 - 1)
  | llen {key : Bytes} (hname : cmd.name = ascii "LLEN") (hargs : cmd.args = [key])
      (hkey : w.db.holdsString w.now key = false)
      (hlength : (w.db.liveList w.now key).length % 2 ^ 32 = 2 ^ 32 - 1)

section

variable {cmd : Command} {w : World}

/-! ### Texts -/

/-- A text that is not an error is not the `WRONGTYPE` error. -/
theorem ne_wrongtypeErr_of_isError_eq_false {r : Bytes} (h : isError r = false) :
    r ≠ wrongtypeErr := by
  rintro rfl
  rw [isError_wrongtypeErr] at h
  exact absurd h (by decide)

/-- The error for a wrong number of arguments is another one. -/
theorem wrongArguments_ne_wrongtypeErr (name : String) : wrongArguments name ≠ wrongtypeErr := by
  apply ne_of_apply_ne List.head?
  rw [head?_wrongArguments, head?_wrongtypeErr]
  decide

/-- So is the error for an argument that is not an integer. -/
theorem notInteger_ne_wrongtypeErr : notInteger ≠ wrongtypeErr := by
  apply ne_of_apply_ne List.head?
  rw [head?_notInteger, head?_wrongtypeErr]
  decide

/-- A length is the `WRONGTYPE` error if it is the signal. -/
theorem lengthText_eq_wrongtypeErr_iff {n : Int32} : lengthText n = wrongtypeErr ↔ n = -1 := by
  rw [← isError_lengthText_iff]
  constructor
  · intro h
    rw [h]
    exact isError_wrongtypeErr
  · intro h
    rw [isError_lengthText_iff] at h
    rw [lengthText, if_pos h]

/-! ### Commands that do not look at the type -/

/-- A command that is never answered with the `WRONGTYPE` error. -/
theorem uniform_iff_of_ne {result : Bytes × World} (h : result.1 ≠ wrongtypeErr) :
    Uniform cmd w result ↔ ¬ Mismatch cmd w := by
  constructor
  · intro huniform hmismatch
    exact h (huniform.answer.mpr hmismatch)
  · intro hmismatch
    exact ⟨iff_of_false h hmismatch, fun h => absurd h hmismatch⟩

/-- `GET`, `LPOP` and `RPOP`. -/
theorem handleKey_ne_wrongtypeErr (name : String) (op : Bytes → DbOp) :
    (handleKey name op (fun r => optionalText r.optional) cmd w).1 ≠ wrongtypeErr := by
  unfold handleKey
  split
  · exact ne_wrongtypeErr_of_isError_eq_false (isError_optionalText _)
  · exact wrongArguments_ne_wrongtypeErr name

/-- `LRANGE`. -/
theorem handleLrange_ne_wrongtypeErr : (handleLrange cmd w).1 ≠ wrongtypeErr := by
  unfold handleLrange
  split
  · split
    · exact ne_wrongtypeErr_of_isError_eq_false (isError_listText _)
    · exact notInteger_ne_wrongtypeErr
  · exact wrongArguments_ne_wrongtypeErr "LRANGE"

/-- `LINDEX`. -/
theorem handleLindex_ne_wrongtypeErr : (handleLindex cmd w).1 ≠ wrongtypeErr := by
  unfold handleLindex
  split
  · split
    · exact notInteger_ne_wrongtypeErr
    · exact ne_wrongtypeErr_of_isError_eq_false (isError_optionalText _)
  · exact wrongArguments_ne_wrongtypeErr "LINDEX"

/-! ### Commands that return a length -/

/-- The arguments of a push. -/
theorem OnKey.push_args {key : Bytes} (h : OnKey cmd key)
    (hname : cmd.name ∈ [ascii "LPUSH", ascii "RPUSH"]) :
    ∃ value values, cmd.args = key :: value :: values := by
  have hother {names : List Bytes} (hmem : cmd.name ∈ names)
      (hdisj : ∀ name ∈ [ascii "LPUSH", ascii "RPUSH"], name ∉ names) : False :=
    hdisj _ hname hmem
  rcases h with ⟨hname', -⟩ | ⟨-, hargs⟩ | ⟨hname', -, -, -⟩ | ⟨hname', -, -⟩
  · exact (hother hname' (by decide)).elim
  · exact ⟨_, _, hargs⟩
  · exact (hother (List.mem_singleton.mpr hname') (by decide)).elim
  · exact (hother (List.mem_singleton.mpr hname') (by decide)).elim

/-- The arguments of `LLEN`. -/
theorem OnKey.llen_args {key : Bytes} (h : OnKey cmd key) (hname : cmd.name = ascii "LLEN") :
    cmd.args = [key] := by
  rcases h with ⟨-, hargs⟩ | ⟨hname', -⟩ | ⟨hname', -, -, -⟩ | ⟨hname', -, -⟩
  · exact hargs
  · rw [hname] at hname'
    exact absurd hname' (by decide)
  · exact absurd (hname.symm.trans hname') (by decide)
  · exact absurd (hname.symm.trans hname') (by decide)

/-- Commands other than `GET` are for lists. -/
theorem mismatch_iff_of_ne (hget : cmd.name ≠ ascii "GET") :
    Mismatch cmd w ↔ ∃ key, OnKey cmd key ∧ w.db.holdsString w.now key = true := by
  simp only [Mismatch, if_neg hget]

/-- A push to a string. -/
theorem mismatch_push_iff {key value : Bytes} {values : List Bytes}
    (hname : cmd.name ∈ [ascii "LPUSH", ascii "RPUSH"]) (hget : cmd.name ≠ ascii "GET")
    (hargs : cmd.args = key :: value :: values) :
    Mismatch cmd w ↔ w.db.holdsString w.now key = true := by
  rw [mismatch_iff_of_ne hget]
  constructor
  · rintro ⟨key', hkey, hholds⟩
    obtain ⟨value', values', hargs'⟩ := hkey.push_args hname
    rw [hargs] at hargs'
    rwa [(List.cons.inj hargs').1]
  · intro hholds
    exact ⟨key, .push hname hargs, hholds⟩

/-- The length of a string. -/
theorem mismatch_llen_iff {key : Bytes} (hname : cmd.name = ascii "LLEN")
    (hget : cmd.name ≠ ascii "GET") (hargs : cmd.args = [key]) :
    Mismatch cmd w ↔ w.db.holdsString w.now key = true := by
  rw [mismatch_iff_of_ne hget]
  constructor
  · rintro ⟨key', hkey, hholds⟩
    have hargs' := hkey.llen_args hname
    rw [hargs] at hargs'
    rwa [(List.cons.inj hargs').1]
  · intro hholds
    exact ⟨key, .single (by rw [hname]; decide) hargs, hholds⟩

/-- A command that returns a length, in which `-1` is the signal for a string. -/
theorem uniform_iff_of_signal {result : Bytes × World} {n : Int32} {key : Bytes} (long : Prop)
    (hresult : result.1 = lengthText n)
    (hmismatch : Mismatch cmd w ↔ w.db.holdsString w.now key = true)
    (hlooks : LooksMismatched cmd w ↔ w.db.holdsString w.now key = false ∧ long)
    (hn : n = -1 ↔ w.db.holdsString w.now key = true ∨ long)
    (hdb : w.db.holdsString w.now key = true → result.2.db = w.db) :
    Uniform cmd w result ↔ ¬ LooksMismatched cmd w := by
  have hanswer : result.1 = wrongtypeErr ↔ w.db.holdsString w.now key = true ∨ long := by
    rw [hresult, lengthText_eq_wrongtypeErr_iff, hn]
  constructor
  · intro huniform hlong
    obtain ⟨hkey, hlong⟩ := hlooks.mp hlong
    have hholds := hmismatch.mp (huniform.answer.mp (hanswer.mpr (Or.inr hlong)))
    exact Bool.false_ne_true (hkey.symm.trans hholds)
  · intro hlong
    rw [hlooks, not_and] at hlong
    refine ⟨?_, fun h => hdb (hmismatch.mp h)⟩
    rw [hanswer, hmismatch]
    refine or_iff_left_of_imp fun hlength => ?_
    by_contra hkey
    exact hlong (Bool.eq_false_of_not_eq_true hkey) hlength

/-- The signal is returned for a string, and as the length of a list that is too long. -/
theorem signal_iff {isString : Bool} {length : ℕ} :
    (if isString then (-1 : Int32) else Int32.ofNat length) = -1 ↔
      isString = true ∨ length % 2 ^ 32 = 2 ^ 32 - 1 := by
  cases isString with
  | true => exact iff_of_true rfl (Or.inl rfl)
  | false => exact ofNat_eq_neg_one_iff.trans (or_iff_right Bool.false_ne_true).symm

/-- A command with the wrong number of arguments. -/
theorem uniform_of_wrongArguments (name : String) (hmismatch : ¬ Mismatch cmd w)
    (hlooks : ¬ LooksMismatched cmd w) :
    Uniform cmd w (wrongArguments name, w) ↔ ¬ LooksMismatched cmd w :=
  iff_of_true ((uniform_iff_of_ne (wrongArguments_ne_wrongtypeErr name)).mpr hmismatch) hlooks

/-- `LPUSH` and `RPUSH`. -/
theorem uniform_handlePush {name : String} {op : Bytes → List Bytes → DbOp}
    {ins : List Bytes → Bytes → List Bytes} (hins : ∀ l v, (ins l v).length = l.length + 1)
    (hop : ∀ key values, (op key values).run (w.clock 0) w.db =
      (Database.push ins w.now key values w.db).map .int id)
    (hname : cmd.name ∈ [ascii "LPUSH", ascii "RPUSH"]) :
    Uniform cmd w (handlePush name op cmd w) ↔ ¬ LooksMismatched cmd w := by
  have hother {name : Bytes} (hnot : name ∉ [ascii "LPUSH", ascii "RPUSH"]) : cmd.name ≠ name := by
    rintro rfl
    exact hnot hname
  have hget : cmd.name ≠ ascii "GET" := hother (by decide)
  have hllen : cmd.name ≠ ascii "LLEN" := hother (by decide)
  unfold handlePush
  split
  · rename_i key value values hargs
    have hcall : w.call (op key (value :: values)) =
        (.int (Database.push ins w.now key (value :: values) w.db).1,
          { w.tick with db := (Database.push ins w.now key (value :: values) w.db).2 }) := by
      rw [World.call, hop]
      rfl
    refine uniform_iff_of_signal (n := (Database.push ins w.now key (value :: values) w.db).1)
      (((w.db.liveList w.now key).length + values.length + 1) % 2 ^ 32 = 2 ^ 32 - 1)
      (by rw [reply, hcall]; rfl) (mismatch_push_iff hname hget hargs) ?_ ?_ ?_
    · constructor
      · rintro (⟨-, hargs', hkey, hlength⟩ | ⟨hname', -⟩)
        · rw [hargs] at hargs'
          obtain ⟨rfl, hrest⟩ := List.cons.inj hargs'
          obtain ⟨rfl, rfl⟩ := List.cons.inj hrest
          exact ⟨hkey, hlength⟩
        · exact absurd hname' hllen
      · rintro ⟨hkey, hlength⟩
        exact .push hname hargs hkey hlength
    · rw [Database.push_result, ← Database.holdsString, ← Database.liveList, signal_iff,
        length_foldl_ins hins, List.length_cons, Nat.add_assoc]
    · intro hkey
      rw [reply, hcall]
      exact Database.push_of_holdsString hkey ins (value :: values)
  · rename_i hargs
    refine uniform_of_wrongArguments name ?_ ?_
    · rw [mismatch_iff_of_ne hget]
      rintro ⟨key, hkey, -⟩
      obtain ⟨value, values, hargs'⟩ := hkey.push_args hname
      exact hargs _ _ _ hargs'
    · rintro (⟨-, hargs', -⟩ | ⟨hname', -⟩)
      · exact hargs _ _ _ hargs'
      · exact hllen hname'

/-- `LLEN`. -/
theorem uniform_handleLlen (hname : cmd.name = ascii "LLEN") :
    Uniform cmd w (handleLlen cmd w) ↔ ¬ LooksMismatched cmd w := by
  have hget : cmd.name ≠ ascii "GET" := by
    rw [hname]
    decide
  have hpush : cmd.name ∉ [ascii "LPUSH", ascii "RPUSH"] := by
    rw [hname]
    decide
  unfold handleLlen handleKey
  split
  · rename_i key hargs
    refine uniform_iff_of_signal (n := (w.db.llen w.now key).1)
      ((w.db.liveList w.now key).length % 2 ^ 32 = 2 ^ 32 - 1) rfl
      (mismatch_llen_iff hname hget hargs) ?_ ?_ ?_
    · constructor
      · rintro (⟨hname', -⟩ | ⟨-, hargs', hkey, hlength⟩)
        · exact absurd hname' hpush
        · rw [hargs] at hargs'
          obtain ⟨rfl, -⟩ := List.cons.inj hargs'
          exact ⟨hkey, hlength⟩
      · rintro ⟨hkey, hlength⟩
        exact .llen hname hargs hkey hlength
    · rw [Database.llen_result, ← Database.holdsString, ← Database.liveList, signal_iff]
    · intro hkey
      exact Database.llen_of_holdsString hkey
  · rename_i hargs
    refine uniform_of_wrongArguments "LLEN" ?_ ?_
    · rw [mismatch_iff_of_ne hget]
      rintro ⟨key, hkey, -⟩
      exact hargs _ (hkey.llen_args hname)
    · rintro (⟨hname', -⟩ | ⟨-, hargs', -⟩)
      · exact hpush hname'
      · exact hargs _ hargs'

end

/-- **Type errors.**  For every command that works on one type of value and in every state, the
command is answered with the `WRONGTYPE` error exactly if its key holds a value of the other type,
and then changes nothing, if and only if it is not one of the commands that do not look at the type
of a key of the other type, and the key does not only look as if it were of the other type. -/
theorem uniform_iff (h : CommandHandler) {cmd : Command} (hname : cmd.name ∈ typedNames)
    (w : World) :
    Uniform cmd w (h.executeSingle cmd w) ↔
      ¬ (cmd.name ∈ silentNames ∧ Mismatch cmd w) ∧ ¬ LooksMismatched cmd w := by
  have hsilent {result : Bytes × World} (hmem : cmd.name ∈ silentNames)
      (hlooks : cmd.name ∉ [ascii "LPUSH", ascii "RPUSH", ascii "LLEN"])
      (hne : result.1 ≠ wrongtypeErr) : Uniform cmd w result ↔
        ¬ (cmd.name ∈ silentNames ∧ Mismatch cmd w) ∧ ¬ LooksMismatched cmd w := by
    have hnot : ¬ LooksMismatched cmd w := by
      rintro (⟨hname', -⟩ | ⟨hname', -⟩)
      · exact hlooks (List.mem_of_mem_dropLast hname')
      · exact hlooks (by rw [hname']; decide)
    rw [uniform_iff_of_ne hne, and_iff_left hnot, and_iff_right hmem]
  have hchecked {result : Bytes × World} (hmem : cmd.name ∉ silentNames)
      (huniform : Uniform cmd w result ↔ ¬ LooksMismatched cmd w) : Uniform cmd w result ↔
        ¬ (cmd.name ∈ silentNames ∧ Mismatch cmd w) ∧ ¬ LooksMismatched cmd w := by
    rw [huniform, and_iff_right fun hboth => hmem hboth.1]
  have hdispatch := h.dispatches cmd
  generalize h.executeSingle cmd = run at hdispatch ⊢
  cases hdispatch with
  | get heq | lpop heq | rpop heq =>
    exact hsilent (by rw [heq]; decide) (by rw [heq]; decide) (handleKey_ne_wrongtypeErr _ _)
  | lrange heq =>
    exact hsilent (by rw [heq]; decide) (by rw [heq]; decide) handleLrange_ne_wrongtypeErr
  | lindex heq =>
    exact hsilent (by rw [heq]; decide) (by rw [heq]; decide) handleLindex_ne_wrongtypeErr
  | lpush heq =>
    exact hchecked (by rw [heq]; decide)
      (uniform_handlePush (fun _ _ => rfl) (fun _ _ => rfl) (by rw [heq]; decide))
  | rpush heq =>
    exact hchecked (by rw [heq]; decide)
      (uniform_handlePush (fun _ _ => List.length_append) (fun _ _ => rfl) (by rw [heq]; decide))
  | llen heq => exact hchecked (by rw [heq]; decide) (uniform_handleLlen heq)
  | unknown hunknown =>
    have hknown : ∀ name ∈ typedNames, name ∈ commandNames := by decide
    exact absurd (hknown _ hname) hunknown
  | ping heq | set heq | del heq | existing heq | keys heq | dbsize heq | flushdb heq | expire heq
  | ttl heq | persist heq | save heq | subscribe heq | unsubscribe heq | publish heq | config heq
  | info heq =>
    rw [heq] at hname
    exact absurd hname (by decide)

/-- A string and a list. -/
def stringAndList : World :=
  ((new 4 none).executeSingle ⟨ascii "RPUSH", [ascii "l", ascii "x"]⟩
    ((new 4 none).executeSingle ⟨ascii "SET", [ascii "s", ascii "y"]⟩ World.initial).2).2

/-- A push to the string is refused, as it should be. -/
theorem uniform_push_to_string :
    let cmd : Command := ⟨ascii "LPUSH", [ascii "s", ascii "z"]⟩
    ((new 4 none).executeSingle cmd stringAndList).1 = wrongtypeErr ∧
      Uniform cmd stringAndList ((new 4 none).executeSingle cmd stringAndList) := by
  intro cmd
  have hname : cmd.name ∈ typedNames := by decide
  have hstring : stringAndList.db.holdsString stringAndList.now (ascii "s") = true := by decide
  refine ⟨by decide, (uniform_iff (new 4 none) hname stringAndList).mpr ⟨?_, ?_⟩⟩
  · rintro ⟨hsilent, -⟩
    revert hsilent
    decide
  · rintro (⟨-, hargs, hkey, -⟩ | ⟨hllen, -⟩)
    · obtain ⟨rfl, -⟩ := List.cons.inj hargs
      exact Bool.false_ne_true (hkey.symm.trans hstring)
    · revert hllen
      decide

/-- `GET` of the list, and popping from the string, asking for its elements and for one of them are
answered as if the keys did not exist. -/
theorem get_of_list_is_nil :
    let get : Command := ⟨ascii "GET", [ascii "l"]⟩
    ((new 4 none).executeSingle get stringAndList).1 = ascii "(nil)" ∧
      ((new 4 none).executeSingle ⟨ascii "LPOP", [ascii "s"]⟩ stringAndList).1 = ascii "(nil)" ∧
      ((new 4 none).executeSingle ⟨ascii "LRANGE", [ascii "s", ascii "0", ascii "-1"]⟩
        stringAndList).1 = ascii "(empty list)" ∧
      ((new 4 none).executeSingle ⟨ascii "LINDEX", [ascii "s", ascii "0"]⟩ stringAndList).1 =
        ascii "(nil)" ∧
      Mismatch get stringAndList ∧
      ¬ Uniform get stringAndList ((new 4 none).executeSingle get stringAndList) := by
  intro get
  have hanswer : ((new 4 none).executeSingle get stringAndList).1 = ascii "(nil)" := by decide
  have hlist : stringAndList.db.holdsList stringAndList.now (ascii "l") = true := by decide
  have hmismatch : Mismatch get stringAndList :=
    ⟨ascii "l", .single (by decide) rfl, by rwa [if_pos rfl]⟩
  refine ⟨hanswer, by decide, by decide, by decide, hmismatch, fun h => ?_⟩
  have herror := h.answer.mpr hmismatch
  rw [hanswer] at herror
  revert herror
  decide

end CommandHandler

end MyRedis
