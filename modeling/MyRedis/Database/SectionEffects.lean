import MyRedis.Database.Sections

/-!
# What the methods do when they run alone

`DbCode.Runs` is the code of a method run alone, at clock readings between two instants.  There is
one rule for each access, and with them the code of every method is executed symbolically: it does
what `DbOp.run` does at the readings made on the way, up to the iteration order of a map into which
something was inserted.
-/

namespace MyRedis

open Foundation

/-! ### Clock readings -/

/-- The clock readings of a call that is made between two instants. -/
structure ReadingsIn (lo hi : TimePoint) (readings : ℕ → TimePoint) : Prop where
  /-- The clock does not run backwards. -/
  mono : Monotone readings
  /-- No reading is made before the call. -/
  start : lo ≤ readings 0
  /-- No reading is made after the call. -/
  last : ∀ i, readings i ≤ hi

namespace ReadingsIn

variable {lo t hi : TimePoint} {readings later : ℕ → TimePoint}

/-- All readings at one instant. -/
theorem const (hlo : lo ≤ t) (hhi : t ≤ hi) : ReadingsIn lo hi fun _ => t :=
  ⟨monotone_const, hlo, fun _ => hhi⟩

/-- The first `n` readings, and then others. -/
def append (n : ℕ) (readings later : ℕ → TimePoint) (i : ℕ) : TimePoint :=
  if i < n then readings i else later (i - n)

theorem append_left {n i : ℕ} (hi : i < n) : append n readings later i = readings i :=
  if_pos hi

theorem append_right (n i : ℕ) : append n readings later (n + i) = later i := by
  rw [append, if_neg (by omega), Nat.add_sub_cancel_left]

/-- Readings of one part of a call and then of the other. -/
theorem of_append (h : ReadingsIn lo t readings) (h' : ReadingsIn t hi later) (n : ℕ) :
    ReadingsIn lo hi (append n readings later) := by
  have hle : ∀ i j, readings i ≤ later j := fun i j =>
    (h.last i).trans (h'.start.trans (h'.mono (Nat.zero_le j)))
  refine ⟨fun i j hij => ?_, ?_, fun i => ?_⟩ <;> unfold append
  · split <;> split
    · exact h.mono hij
    · exact hle _ _
    · omega
    · exact h'.mono (Nat.sub_le_sub_right hij n)
  · split
    · exact h.start
    · exact h.start.trans (hle 0 _)
  · split
    · exact (hle i 0).trans (h'.last 0)
    · exact h'.last _

end ReadingsIn

/-- What an operation does at clock readings between two instants. -/
def DbOp.Effect (lo hi : TimePoint) (op : DbOp) (db : Database) (r : DbResult) (db' : Database) :
    Prop :=
  ∃ readings, ReadingsIn lo hi readings ∧ r = (op.run readings db).1 ∧
    (op.run readings db).2.Reordered db'

/-! ### Rules for the accesses -/

namespace DbCode

variable {α β : Type} {lo hi : TimePoint} {db db' : Database} {v : α}

/-- The code, run alone between two instants, comes to its end with this result. -/
abbrev Runs (code : DbCode α) (lo hi : TimePoint) (db : Database) (v : α) (db' : Database) : Prop :=
  code.Exec DbAccess.Perform hi lo db v db'

theorem runs_bind {p : DbCode β} {f : β → DbCode α} :
    Runs (p >>= f) lo hi db v db' ↔
      ∃ t b db₁, Runs p lo t db b db₁ ∧ Runs (f b) t hi db₁ v db' :=
  Code.exec_bind

theorem runs_map {p : DbCode β} {g : β → α} :
    Runs (g <$> p) lo hi db v db' ↔ ∃ b, v = g b ∧ Runs p lo hi db b db' := by
  refine runs_bind.trans ⟨?_, ?_⟩
  · rintro ⟨t, b, db₁, hp, ht, rfl, rfl⟩
    exact ⟨b, rfl, hp.mono_right ht⟩
  · rintro ⟨b, rfl, hp⟩
    exact ⟨hi, b, db', hp, le_rfl, rfl, rfl⟩

/-- An access whose reply and effect do not depend on the time. -/
theorem runs_access {a : DbAccess} {f : a.Reply → DbCode α} {r : a.Reply} {db₁ : Database}
    (h : ∀ t r' db', a.Perform t db r' db' ↔ r' = r ∧ db' = db₁) :
    Runs (access a >>= f) lo hi db v db' ↔ Runs (f r) lo hi db₁ v db' := by
  constructor
  · rintro ⟨t, r', db₂, ht, hperform, hrest⟩
    obtain ⟨rfl, rfl⟩ := (h _ _ _).mp hperform
    exact hrest.mono_left ht
  · intro hrest
    exact ⟨lo, r, db₁, le_rfl, (h _ _ _).mpr ⟨rfl, rfl⟩, hrest⟩

theorem runs_find {m : MapName} {key : Bytes} {f : Option m.Value → DbCode α} :
    Runs (access (.find m key) >>= f) lo hi db v db' ↔
      Runs (f ((db.map m).lookup key)) lo hi db v db' :=
  runs_access fun _ _ _ => Iff.rfl

theorem runs_erase {m : MapName} {key : Bytes} {f : Bool → DbCode α} :
    Runs (access (.erase m key) >>= f) lo hi db v db' ↔
      Runs (f ((db.map m).lookup key).isSome) lo hi (db.setMap m ((db.map m).erase key)) v db' :=
  runs_access fun _ _ _ => Iff.rfl

theorem runs_deref {key : Bytes} {f : List Bytes → DbCode α} :
    Runs (access (.deref key) >>= f) lo hi db v db' ↔
      Runs (f ((db.listStore.lookup key).getD [])) lo hi db v db' :=
  runs_access fun _ _ _ => Iff.rfl

theorem runs_size {m : MapName} {f : ℕ → DbCode α} :
    Runs (access (.size m) >>= f) lo hi db v db' ↔
      Runs (f (db.map m).keys.length) lo hi db v db' :=
  runs_access fun _ _ _ => Iff.rfl

theorem runs_entryAt {m : MapName} {i : ℕ} {f : Option (Bytes × m.Value) → DbCode α} :
    Runs (access (.entryAt m i) >>= f) lo hi db v db' ↔
      Runs (f (((db.map m).entries[i]?).map fun e => (e.1, e.2))) lo hi db v db' :=
  runs_access fun _ _ _ => Iff.rfl

theorem runs_clear {m : MapName} {f : Unit → DbCode α} :
    Runs (access (.clear m) >>= f) lo hi db v db' ↔ Runs (f ()) lo hi (db.setMap m ∅) v db' :=
  runs_access fun _ _ _ => ⟨fun h => ⟨rfl, h⟩, fun h => h.2⟩

theorem runs_now {f : TimePoint → DbCode α} :
    Runs (access .now >>= f) lo hi db v db' ↔ ∃ t, lo ≤ t ∧ Runs (f t) t hi db v db' := by
  constructor
  · rintro ⟨t, r, db₁, ht, ⟨rfl, rfl⟩, hrest⟩
    exact ⟨_, ht, hrest⟩
  · rintro ⟨t, ht, hrest⟩
    exact ⟨t, t, db, ht, ⟨rfl, rfl⟩, hrest⟩

theorem runs_assign {m : MapName} {key : Bytes} {value : m.Value} {f : Unit → DbCode α} :
    Runs (access (.assign m key value) >>= f) lo hi db v db' ↔
      ∃ x : UnorderedMap Bytes m.Value, ((db.map m).insert key value).entries.Perm x.entries ∧
        Runs (f ()) lo hi (db.setMap m x) v db' := by
  constructor
  · rintro ⟨t, r, db₁, ht, ⟨x, hperm, rfl⟩, hrest⟩
    exact ⟨x, hperm, hrest.mono_left ht⟩
  · rintro ⟨x, hperm, hrest⟩
    exact ⟨lo, (), _, le_rfl, ⟨x, hperm, rfl⟩, hrest⟩

/-! ### The helpers -/

/-- The expiry check sees the database at some instant; if the key has no deadline, the clock is not
read and any instant will do. -/
theorem runs_isExpiredUnlocked {key : Bytes} {f : Bool → DbCode α} :
    Runs (isExpiredUnlocked key >>= f) lo hi db v db' ↔
      ∃ t, lo ≤ t ∧ Runs (f (db.isExpiredUnlocked t key)) t hi db v db' := by
  unfold isExpiredUnlocked Database.isExpiredUnlocked
  rw [Code.bind_assoc, runs_find, Database.map_expiry]
  cases db.expiry.lookup key with
  | none => exact ⟨fun h => ⟨lo, le_rfl, h⟩, fun ⟨_, ht, h⟩ => h.mono_left ht⟩
  | some deadline =>
    rw [Code.bind_assoc]
    exact runs_now

theorem runs_keyExistsUnlocked {key : Bytes} {f : Bool → DbCode α} :
    Runs (keyExistsUnlocked key >>= f) lo hi db v db' ↔
      Runs (f (db.keyExistsUnlocked key)) lo hi db v db' := by
  unfold keyExistsUnlocked Database.keyExistsUnlocked
  rw [Code.bind_assoc, runs_find, Database.map_store]
  cases (db.store.lookup key).isSome with
  | true => exact Iff.rfl
  | false =>
    rw [if_neg Bool.false_ne_true, Code.bind_assoc, runs_find]
    exact Iff.rfl

theorem runs_removeExpiredUnlocked {key : Bytes} {f : Unit → DbCode α} :
    Runs (removeExpiredUnlocked key >>= f) lo hi db v db' ↔
      Runs (f ()) lo hi (db.removeExpiredUnlocked key) v db' := by
  unfold removeExpiredUnlocked
  rw [Code.bind_assoc, runs_erase, Code.bind_assoc, runs_erase, Code.bind_assoc, runs_erase]
  exact Iff.rfl

theorem runs_removeAll {keys : List Bytes} {f : Unit → DbCode α} :
    Runs (removeAll keys >>= f) lo hi db v db' ↔
      Runs (f ()) lo hi (keys.foldl Database.removeExpiredUnlocked db) v db' := by
  induction keys generalizing db with
  | nil => exact Iff.rfl
  | cons key keys ih =>
    unfold removeAll
    rw [Code.bind_assoc, runs_removeExpiredUnlocked, ih]
    exact Iff.rfl

/-! ### Methods that read one key -/

section OneKey

variable {key : Bytes}

/-- Lazy expiry in front of a method that returns at once if the key has expired. -/
theorem runs_lazyExpire {a : α} {rest : DbCode α} :
    Runs (isExpiredUnlocked key >>= fun expired =>
        if expired then removeExpiredUnlocked key >>= fun _ => pure a else rest) lo hi db v db' ↔
      ∃ t, lo ≤ t ∧ if db.isExpiredUnlocked t key then
          t ≤ hi ∧ v = a ∧ db' = db.removeExpiredUnlocked key
        else Runs rest t hi db v db' := by
  rw [runs_isExpiredUnlocked]
  refine exists_congr fun t => and_congr_right fun _ => ?_
  cases db.isExpiredUnlocked t key with
  | true => exact runs_removeExpiredUnlocked
  | false => exact Iff.rfl

/-- Lazy expiry in front of a method that only reads. -/
theorem eq_of_runs_lazyExpire {a : α} {rest : DbCode α} {after : α × Database}
    (h : Runs (isExpiredUnlocked key >>= fun expired =>
      if expired then removeExpiredUnlocked key >>= fun _ => pure a else rest) lo hi db v db')
    (hrest : ∀ t, Runs rest t hi db v db' → t ≤ hi ∧ after = (v, db')) :
    ∃ t, lo ≤ t ∧ t ≤ hi ∧
      (if db.isExpiredUnlocked t key then (a, db.removeExpiredUnlocked key) else after) =
        (v, db') := by
  obtain ⟨t, ht, h⟩ := runs_lazyExpire.mp h
  refine ⟨t, ht, ?_⟩
  split at h
  · rename_i hexp
    obtain ⟨hhi, rfl, rfl⟩ := h
    exact ⟨hhi, if_pos hexp⟩
  · rename_i hexp
    rw [if_neg hexp]
    exact hrest t h

theorem runs_get {v : Option Bytes} (h : Runs (get key) lo hi db v db') :
    ∃ t, lo ≤ t ∧ t ≤ hi ∧ db.get t key = (v, db') := by
  refine eq_of_runs_lazyExpire h fun t h => ?_
  rw [← Code.bind_pure (access _), runs_find] at h
  obtain ⟨hhi, rfl, rfl⟩ := h
  exact ⟨hhi, rfl⟩

/-- A method that reads the list of the key. -/
theorem runs_findList {t : TimePoint} (a : α) (g : List Bytes → α)
    {f : Option (List Bytes) → DbCode α} (hnone : f none = pure a)
    (hsome : ∀ list, f (some list) = pure (g list))
    (h : Runs (access (.find .listStore key) >>= f) t hi db v db') :
    t ≤ hi ∧ (((db.listStore.lookup key).elim a g), db) = (v, db') := by
  rw [runs_find, Database.map_listStore] at h
  cases hl : db.listStore.lookup key with
  | none =>
    rw [hl, hnone] at h
    obtain ⟨hhi, rfl, rfl⟩ := h
    exact ⟨hhi, rfl⟩
  | some list =>
    rw [hl, hsome] at h
    obtain ⟨hhi, rfl, rfl⟩ := h
    exact ⟨hhi, rfl⟩

theorem runs_lrange {start stop : Int32} {v : List Bytes}
    (h : Runs (lrange key start stop) lo hi db v db') :
    ∃ t, lo ≤ t ∧ t ≤ hi ∧ db.lrange t key start stop = (v, db') := by
  refine eq_of_runs_lazyExpire h fun t h => ?_
  obtain ⟨hhi, heq⟩ := runs_findList [] (Database.slice · start stop) rfl (fun _ => rfl) h
  refine ⟨hhi, Eq.trans ?_ heq⟩
  cases db.listStore.lookup key <;> rfl

theorem runs_lindex {index : Int32} {v : Option Bytes}
    (h : Runs (lindex key index) lo hi db v db') :
    ∃ t, lo ≤ t ∧ t ≤ hi ∧ db.lindex t key index = (v, db') := by
  refine eq_of_runs_lazyExpire h fun t h => ?_
  obtain ⟨hhi, heq⟩ := runs_findList none (Database.element · index) rfl (fun _ => rfl) h
  refine ⟨hhi, Eq.trans ?_ heq⟩
  cases db.listStore.lookup key <;> rfl

theorem runs_llen {v : Int32} (h : Runs (llen key) lo hi db v db') :
    ∃ t, lo ≤ t ∧ t ≤ hi ∧ db.llen t key = (v, db') := by
  refine eq_of_runs_lazyExpire h fun t h => ?_
  rw [runs_find, Database.map_store] at h
  cases hstr : (db.store.lookup key).isSome with
  | true =>
    rw [hstr] at h
    obtain ⟨hhi, rfl, rfl⟩ := h
    exact ⟨hhi, rfl⟩
  | false =>
    rw [hstr] at h
    obtain ⟨hhi, heq⟩ :=
      runs_findList 0 (fun list => Int32.ofNat list.length) rfl (fun _ => rfl) h
    refine ⟨hhi, Eq.trans ?_ heq⟩
    cases db.listStore.lookup key <;> rfl

/-! ### Deadlines -/

/-- A method that needs the key to exist and not to have expired, and may then read the clock once
more. -/
theorem runs_ifExists {a : α} {rest : DbCode α} (after : TimePoint → α × Database)
    (h : Runs (keyExistsUnlocked key >>= fun present =>
      if !present then pure a else isExpiredUnlocked key >>= fun expired =>
        if expired then removeExpiredUnlocked key >>= fun _ => pure a else rest) lo hi db v db')
    (hrest : ∀ t, Runs rest t hi db v db' →
      ∃ t', t ≤ t' ∧ t' ≤ hi ∧ (after t').1 = v ∧ (after t').2.Reordered db') :
    ∃ t t', lo ≤ t ∧ t ≤ t' ∧ t' ≤ hi ∧
      (if !db.keyExistsUnlocked key then (a, db)
        else if db.isExpiredUnlocked t key then (a, db.removeExpiredUnlocked key)
        else after t').1 = v ∧
      (if !db.keyExistsUnlocked key then (a, db)
        else if db.isExpiredUnlocked t key then (a, db.removeExpiredUnlocked key)
        else after t').2.Reordered db' := by
  rw [runs_keyExistsUnlocked] at h
  cases hexists : db.keyExistsUnlocked key with
  | false =>
    rw [hexists] at h
    obtain ⟨hhi, rfl, rfl⟩ := h
    exact ⟨lo, lo, le_rfl, le_rfl, hhi, rfl, .rfl⟩
  | true =>
    rw [hexists] at h
    obtain ⟨t, ht, h⟩ := runs_lazyExpire.mp h
    cases hexp : db.isExpiredUnlocked t key with
    | true =>
      rw [hexp] at h
      obtain ⟨hhi, rfl, rfl⟩ := h
      exact ⟨t, t, ht, le_rfl, hhi, by rw [hexp]; rfl, by rw [hexp]; exact .rfl⟩
    | false =>
      rw [hexp] at h
      obtain ⟨t', ht', hhi, hv, hdb⟩ := hrest t h
      exact ⟨t, t', ht, ht', hhi, by rw [hexp]; exact hv, by rw [hexp]; exact hdb⟩

theorem runs_expire {seconds : Int32} {v : Bool} (h : Runs (expire key seconds) lo hi db v db') :
    ∃ t t', lo ≤ t ∧ t ≤ t' ∧ t' ≤ hi ∧ (db.expire t t' key seconds).1 = v ∧
      (db.expire t t' key seconds).2.Reordered db' := by
  refine runs_ifExists (fun t' => (true,
    { db with expiry := db.expiry.insert key (t' + seconds.toInt * nsPerSec) })) h fun t h => ?_
  rw [runs_now] at h
  obtain ⟨t', ht', h⟩ := h
  rw [runs_assign] at h
  obtain ⟨x, hperm, hhi, rfl, rfl⟩ := h
  exact ⟨t', ht', hhi, rfl, .rfl, .rfl, hperm⟩

theorem runs_ttl {v : Int32} (h : Runs (ttl key) lo hi db v db') :
    ∃ t t', lo ≤ t ∧ t ≤ t' ∧ t' ≤ hi ∧ (db.ttl t t' key).1 = v ∧
      (db.ttl t t' key).2.Reordered db' := by
  refine runs_ifExists _ h fun t h => ?_
  rw [runs_find, Database.map_expiry] at h
  cases hdeadline : db.expiry.lookup key with
  | none =>
    rw [hdeadline] at h
    obtain ⟨hhi, rfl, rfl⟩ := h
    exact ⟨t, le_rfl, hhi, rfl, .rfl⟩
  | some deadline =>
    rw [hdeadline] at h
    obtain ⟨t', ht', hhi, rfl, rfl⟩ := runs_now.mp h
    exact ⟨t', ht', hhi, rfl, .rfl⟩

theorem runs_persist {v : Bool} (h : Runs (persist key) lo hi db v db') :
    ∃ t t', lo ≤ t ∧ t ≤ t' ∧ t' ≤ hi ∧ (db.persist t key).1 = v ∧
      (db.persist t key).2.Reordered db' := by
  refine runs_ifExists (fun _ => ((db.expiry.lookup key).isSome,
    { db with expiry := db.expiry.erase key })) h fun t h => ?_
  rw [← Code.bind_pure (access _), runs_erase] at h
  obtain ⟨hhi, rfl, rfl⟩ := h
  exact ⟨t, le_rfl, hhi, rfl, .rfl⟩

/-! ### Methods that write one key -/

theorem runs_set {value : Bytes} {v : Unit} (h : Runs (set key value) lo hi db v db') :
    lo ≤ hi ∧ (db.set key value).Reordered db' := by
  unfold set at h
  rw [runs_erase, runs_assign] at h
  obtain ⟨x, hperm, h⟩ := h
  rw [runs_erase] at h
  obtain ⟨hhi, -, rfl⟩ := h
  exact ⟨hhi, hperm, .rfl, .rfl⟩

/-- The cells after the list of a key was replaced, in whatever order the map is afterwards. -/
theorem cell_setMap_listStore {list : List Bytes} {x : UnorderedMap Bytes (List Bytes)}
    (hperm : (db.listStore.insert key list).entries.Perm x.entries) :
    (db.setMap .listStore x).cell =
      Function.update db.cell key { db.cell key with list := some list } := by
  have hre : Database.Reordered { db with listStore := db.listStore.insert key list }
      (db.setMap .listStore x) := ⟨.rfl, hperm, .rfl⟩
  rw [hre.cell_eq]
  exact Database.cell_eq_update (Function.update_eq_self _ _).symm
    (lookup_insert_eq_update _ _ _) (Function.update_eq_self _ _).symm

theorem runs_edit {e : DequeEdit} {f : Unit → DbCode α}
    (h : Runs (access (.edit key e) >>= f) lo hi db v db') :
    ∃ db₁, Runs (f ()) lo hi db₁ v db' ∧ db₁.cell = Function.update db.cell key
      { db.cell key with list := some (e.apply ((db.cell key).list.getD [])) } := by
  obtain ⟨t, _, db₁, ht, ⟨x, hperm, rfl⟩, hrest⟩ := h
  exact ⟨_, hrest.mono_left ht, cell_setMap_listStore hperm⟩

theorem runs_reference {f : Unit → DbCode α}
    (h : Runs (access (.reference key) >>= f) lo hi db v db') :
    ∃ db₁, Runs (f ()) lo hi db₁ v db' ∧ db₁.cell = Function.update db.cell key
      { db.cell key with list := some ((db.cell key).list.getD []) } := by
  obtain ⟨t, r, db₁, ht, hperform, hrest⟩ := h
  refine ⟨db₁, hrest.mono_left ht, ?_⟩
  change if (db.listStore.lookup key).isSome then _ else _ at hperform
  have hlist : (db.cell key).list = db.listStore.lookup key := rfl
  cases hl : db.listStore.lookup key with
  | none =>
    rw [hl] at hperform hlist
    obtain ⟨x, hperm, rfl⟩ := hperform
    rw [cell_setMap_listStore hperm, hlist]
    rfl
  | some list =>
    rw [hl] at hperform hlist
    obtain rfl : db₁ = db := hperform
    rw [hlist, Option.getD_some, ← hlist]
    exact (Function.update_eq_self _ _).symm

/-- The loop of a push changes the list value by value. -/
theorem runs_editLoop {ins : Bytes → DequeEdit} {values list : List Bytes} {f : Unit → DbCode α}
    (hlist : (db.cell key).list = some list)
    (h : Runs (editLoop key ins values >>= f) lo hi db v db') :
    ∃ db₁, Runs (f ()) lo hi db₁ v db' ∧ db₁.cell = Function.update db.cell key
      { db.cell key with
        list := some (values.foldl (fun list value => (ins value).apply list) list) } := by
  induction values generalizing db list with
  | nil =>
    refine ⟨db, h, ?_⟩
    rw [List.foldl_nil, ← hlist]
    exact (Function.update_eq_self _ _).symm
  | cons value values ih =>
    unfold editLoop at h
    rw [Code.bind_assoc] at h
    obtain ⟨db₁, h, hcell⟩ := runs_edit h
    rw [hlist] at hcell
    have hlist₁ : (db₁.cell key).list = some ((ins value).apply list) := by
      rw [hcell, Function.update_self]
      rfl
    obtain ⟨db₂, h, hcell₂⟩ := ih hlist₁ h
    refine ⟨db₂, h, ?_⟩
    rw [hcell₂, hcell, Function.update_self, Function.update_idem]
    rfl

/-- Pushing values onto a list, or finding a string. -/
theorem runs_pushValues {ins : Bytes → DequeEdit} {values : List Bytes} {v : Int32}
    (h : Runs (pushValues ins key values) lo hi db v db') :
    let list := values.foldl (fun list value => (ins value).apply list)
      ((db.listStore.lookup key).getD [])
    let pushed := if (db.store.lookup key).isSome then (-1, db)
      else (Int32.ofNat list.length, { db with listStore := db.listStore.insert key list })
    lo ≤ hi ∧ pushed.1 = v ∧ pushed.2.Reordered db' := by
  unfold pushValues at h
  rw [runs_find, Database.map_store] at h
  intro list pushed
  cases hstr : (db.store.lookup key).isSome with
  | true =>
    rw [hstr] at h
    obtain ⟨hhi, rfl, rfl⟩ := h
    have hpushed : pushed = (-1, db') := if_pos hstr
    rw [hpushed]
    exact ⟨hhi, rfl, .rfl⟩
  | false =>
    rw [hstr] at h
    have hpushed : pushed = (Int32.ofNat list.length,
        { db with listStore := db.listStore.insert key list }) :=
      if_neg (by simp [hstr])
    rw [hpushed]
    obtain ⟨db₁, h, hcell₁⟩ := runs_reference h
    have hlist₁ : (db₁.cell key).list = some ((db.cell key).list.getD []) := by
      rw [hcell₁, Function.update_self]
    obtain ⟨db₂, h, hcell₂⟩ := runs_editLoop hlist₁ h
    rw [runs_deref] at h
    obtain ⟨hhi, rfl, rfl⟩ := h
    refine ⟨hhi, ?_, Database.reordered_of_cell_eq ?_⟩
    · have hlist₂ := congrArg Cell.list (congrFun hcell₂ key)
      rw [Function.update_self] at hlist₂
      rw [show db'.listStore.lookup key = (db'.cell key).list from rfl, hlist₂]
      rfl
    · rw [hcell₂, hcell₁, Function.update_self, Function.update_idem]
      exact cell_setMap_listStore .rfl

theorem runs_push {ins : Bytes → DequeEdit} {values : List Bytes} {v : Int32}
    (h : Runs (push ins key values) lo hi db v db') :
    ∃ t, lo ≤ t ∧ t ≤ hi ∧
      (db.push (fun list value => (ins value).apply list) t key values).1 = v ∧
      (db.push (fun list value => (ins value).apply list) t key values).2.Reordered db' := by
  unfold push at h
  rw [runs_isExpiredUnlocked] at h
  obtain ⟨t, ht, h⟩ := h
  refine ⟨t, ht, ?_⟩
  have hlazy : Runs (pushValues ins key values) t hi (Database.lazyExpire t key db) v db' := by
    unfold Database.lazyExpire
    cases hexp : db.isExpiredUnlocked t key with
    | true =>
      rw [hexp] at h
      exact runs_removeExpiredUnlocked.mp h
    | false =>
      rw [hexp] at h
      exact h
  exact runs_pushValues hlazy

theorem runs_eraseList {f : Unit → DbCode α} :
    Runs (eraseList key >>= f) lo hi db v db' ↔ Runs (f ()) lo hi (db.eraseList key) v db' := by
  unfold eraseList
  rw [Code.bind_assoc, runs_erase, Code.bind_assoc, runs_erase]
  exact Iff.rfl

/-- The cells after a list and its deadline were erased. -/
theorem cell_eraseList (db : Database) (key : Bytes) : (db.eraseList key).cell =
    Function.update db.cell key { db.cell key with list := none, deadline := none } :=
  Database.cell_eq_update (Function.update_eq_self _ _).symm (lookup_erase_eq_update _ _)
    (lookup_erase_eq_update _ _)

/-- Popping a value from a list, which is deleted when it becomes empty. -/
theorem runs_popValue {front : List Bytes → Option Bytes} {e : DequeEdit} {list : List Bytes}
    {v : Option Bytes} (hlist : db.listStore.lookup key = some list)
    (h : Runs (popValue front e key list) lo hi db v db') :
    lo ≤ hi ∧ v = front list ∧
      (if front list = none ∨ e.apply list = [] then db.eraseList key
        else { db with listStore := db.listStore.insert key (e.apply list) }).Reordered db' := by
  unfold popValue at h
  cases hfront : front list with
  | none =>
    rw [hfront] at h
    obtain ⟨hhi, rfl, rfl⟩ := runs_eraseList.mp h
    refine ⟨hhi, rfl, ?_⟩
    rw [if_pos (Or.inl rfl)]
    exact .rfl
  | some val =>
    rw [hfront] at h
    obtain ⟨db₁, h, hcell⟩ := runs_edit h
    rw [show (db.cell key).list = some list from hlist, Option.getD_some] at hcell
    have hlist₁ : db₁.listStore.lookup key = some (e.apply list) := by
      rw [show db₁.listStore.lookup key = (db₁.cell key).list from rfl, hcell,
        Function.update_self]
    rw [runs_deref, hlist₁, Option.getD_some] at h
    by_cases hempty : e.apply list = []
    · rw [if_pos hempty] at h
      obtain ⟨hhi, rfl, rfl⟩ := runs_eraseList.mp h
      refine ⟨hhi, rfl, ?_⟩
      rw [if_pos (Or.inr hempty)]
      refine Database.reordered_of_cell_eq ?_
      rw [cell_eraseList, cell_eraseList, hcell, Function.update_self, Function.update_idem]
    · rw [if_neg hempty] at h
      obtain ⟨hhi, rfl, rfl⟩ := h
      refine ⟨hhi, rfl, ?_⟩
      rw [if_neg (by simp [hempty])]
      refine Database.reordered_of_cell_eq ?_
      rw [hcell]
      exact cell_setMap_listStore .rfl

theorem runs_pop {front : List Bytes → Option Bytes} {e : DequeEdit} {v : Option Bytes}
    (h : Runs (pop front e key) lo hi db v db') :
    ∃ t, lo ≤ t ∧ t ≤ hi ∧ (db.pop front e.apply t key).1 = v ∧
      (db.pop front e.apply t key).2.Reordered db' := by
  obtain ⟨t, ht, h⟩ := runs_lazyExpire.mp h
  refine ⟨t, ht, ?_⟩
  unfold Database.pop
  cases hexp : db.isExpiredUnlocked t key with
  | true =>
    rw [hexp] at h
    obtain ⟨hhi, rfl, rfl⟩ := h
    exact ⟨hhi, rfl, .rfl⟩
  | false =>
    rw [hexp, if_neg Bool.false_ne_true, runs_find, Database.map_listStore] at h
    cases hl : db.listStore.lookup key with
    | none =>
      rw [hl] at h
      obtain ⟨hhi, rfl, rfl⟩ := h
      exact ⟨hhi, rfl, .rfl⟩
    | some list =>
      rw [hl] at h
      obtain ⟨hhi, rfl, hre⟩ := runs_popValue hl h
      refine ⟨hhi, ?_⟩
      cases hfront : front list with
      | none =>
        rw [hfront, if_pos (Or.inl rfl)] at hre
        simpa [hfront] using hre
      | some val =>
        by_cases hempty : e.apply list = []
        · rw [if_pos (Or.inr hempty)] at hre
          simpa [hfront, hempty] using hre
        · rw [if_neg (by simp [hempty, hfront])] at hre
          simpa [hfront, hempty] using hre

end OneKey

/-! ### Loops over keys -/

theorem runs_delLoop {keys : List Bytes} {count v : Int32}
    (h : Runs (delLoop keys count) lo hi db v db') :
    lo ≤ hi ∧ keys.foldl Database.delStep (count, db) = (v, db') := by
  induction keys generalizing db count with
  | nil =>
    obtain ⟨hhi, rfl, rfl⟩ := h
    exact ⟨hhi, rfl⟩
  | cons key keys ih =>
    unfold delLoop at h
    rw [runs_erase, runs_erase] at h
    change Runs (ite (db.keyExistsUnlocked key = true) _ _) _ _ _ _ _ at h
    rw [List.foldl_cons]
    cases hkey : db.keyExistsUnlocked key with
    | true =>
      rw [if_pos hkey] at h
      have hstep : Database.delStep (count, db) key =
          (count + 1, db.removeExpiredUnlocked key) := by
        simp only [Database.delStep, hkey, if_true]
        rfl
      rw [hstep]
      exact ih (runs_erase.mp h)
    | false =>
      rw [if_neg (by simp [hkey])] at h
      have hstep : Database.delStep (count, db) key = (count,
          { db with store := db.store.erase key, listStore := db.listStore.erase key }) := by
        simp only [Database.delStep, hkey, Bool.false_eq_true, if_false]
      rw [hstep]
      exact ih h

theorem runs_existsLoop {keys : List Bytes} {count v : Int32}
    (h : Runs (existsLoop keys count) lo hi db v db') :
    ∃ readings, ReadingsIn lo hi readings ∧
      Database.existsLoop readings keys (count, db) = (v, db') := by
  induction keys generalizing db count lo with
  | nil =>
    obtain ⟨hhi, rfl, rfl⟩ := h
    exact ⟨fun _ => lo, .const le_rfl hhi, rfl⟩
  | cons key keys ih =>
    unfold existsLoop at h
    rw [runs_isExpiredUnlocked] at h
    obtain ⟨t, ht, h⟩ := h
    -- what remains is the loop over the other keys, after one round
    have hround : Runs (existsLoop keys (Database.existsStep t (count, db) key).1) t hi
        (Database.existsStep t (count, db) key).2 v db' := by
      unfold Database.existsStep
      cases hexp : db.isExpiredUnlocked t key with
      | true =>
        rw [hexp] at h
        exact runs_removeExpiredUnlocked.mp h
      | false =>
        rw [hexp, if_neg Bool.false_ne_true, runs_keyExistsUnlocked] at h
        cases hkey : db.keyExistsUnlocked key <;> rw [hkey] at h <;> exact h
    obtain ⟨readings, hreadings, hloop⟩ := ih hround
    refine ⟨ReadingsIn.append 1 (fun _ => t) readings,
      (ReadingsIn.const ht le_rfl).of_append hreadings 1, ?_⟩
    rw [← hloop, Database.existsLoop]
    rfl

/-- The collecting loop depends only on as many readings as there are keys. -/
theorem collect_congr {now : ℕ → TimePoint} (now' : ℕ → TimePoint) {keys : List Bytes}
    (h : ∀ i < keys.length, now i = now' i) : db.collect now keys = db.collect now' keys := by
  induction keys generalizing now now' with
  | nil => rfl
  | cons key keys ih =>
    have htail := @ih (fun i => now (i + 1)) (fun i => now' (i + 1))
      fun i hi => h (i + 1) (Nat.succ_lt_succ hi)
    rw [Database.collect, Database.collect, htail, h 0 (Nat.succ_pos _)]

/-- A collecting loop, from some position of the map on. -/
theorem runs_collectLoop {m : MapName} {n i : ℕ} {found v : List Bytes × List Bytes}
    (hn : ((db.map m).keys.drop i).length = n)
    (h : Runs (collectLoop m n i found) lo hi db v db') :
    ∃ readings, ReadingsIn lo hi readings ∧ db' = db ∧
      v = (found.1 ++ (db.collect readings ((db.map m).keys.drop i)).1,
        found.2 ++ (db.collect readings ((db.map m).keys.drop i)).2) := by
  induction n generalizing i found lo with
  | zero =>
    obtain ⟨hhi, rfl, rfl⟩ := h
    refine ⟨fun _ => lo, .const le_rfl hhi, rfl, ?_⟩
    rw [List.length_eq_zero_iff.mp hn]
    simp [Database.collect]
  | succ n ih =>
    have hlen : i < (db.map m).entries.length := by
      rw [List.length_drop, AList.keys, List.keys, List.length_map] at hn
      omega
    obtain ⟨e, he⟩ : ∃ e, (db.map m).entries[i]? = some e := ⟨_, List.getElem?_eq_getElem hlen⟩
    have hdrop : (db.map m).keys.drop i = e.1 :: (db.map m).keys.drop (i + 1) := by
      unfold AList.keys List.keys
      rw [← List.map_drop, ← List.map_drop, List.drop_eq_getElem_cons hlen, List.map_cons]
      rw [(List.getElem?_eq_some_iff.mp he).2]
    have hn' : ((db.map m).keys.drop (i + 1)).length = n := by
      rw [hdrop] at hn
      exact Nat.succ.inj hn
    unfold collectLoop at h
    rw [runs_entryAt, he] at h
    obtain ⟨t, ht, h⟩ := runs_isExpiredUnlocked.mp h
    have hround : Runs (collectLoop m n (i + 1)
        (if db.isExpiredUnlocked t e.1 then (found.1, found.2 ++ [e.1])
          else (found.1 ++ [e.1], found.2))) t hi db v db' := by
      cases hexp : db.isExpiredUnlocked t e.1 <;> rw [hexp] at h <;> exact h
    obtain ⟨readings, hreadings, hdb, hv⟩ := ih hn' hround
    refine ⟨ReadingsIn.append 1 (fun _ => t) readings,
      (ReadingsIn.const ht le_rfl).of_append hreadings 1, hdb, ?_⟩
    have hcollect : db.collect (ReadingsIn.append 1 (fun _ => t) readings)
        (e.1 :: (db.map m).keys.drop (i + 1)) =
        (if db.isExpiredUnlocked t e.1 then
          ((db.collect readings ((db.map m).keys.drop (i + 1))).1,
            e.1 :: (db.collect readings ((db.map m).keys.drop (i + 1))).2)
        else (e.1 :: (db.collect readings ((db.map m).keys.drop (i + 1))).1,
          (db.collect readings ((db.map m).keys.drop (i + 1))).2)) := rfl
    rw [hv, hdrop, hcollect]
    cases db.isExpiredUnlocked t e.1 <;> simp

/-- Both collecting loops. -/
theorem runs_collectBoth {v : List Bytes × List Bytes} (h : Runs collectBoth lo hi db v db') :
    ∃ readings, ReadingsIn lo hi readings ∧ db' = db ∧ v = Database.collectBoth readings db := by
  unfold collectBoth at h
  rw [runs_size] at h
  obtain ⟨t, strings, db₁, hstrings, h⟩ := runs_bind.mp h
  obtain ⟨readings, hreadings, rfl, rfl⟩ := runs_collectLoop (by simp) hstrings
  rw [runs_size] at h
  obtain ⟨later, hlater, rfl, rfl⟩ := runs_collectLoop (by simp) h
  refine ⟨ReadingsIn.append db'.store.keys.length readings later,
    hreadings.of_append hlater _, rfl, ?_⟩
  unfold Database.collectBoth
  rw [collect_congr readings fun i hi => ReadingsIn.append_left hi]
  simp only [ReadingsIn.append_right]
  rfl

theorem runs_keys {v : List Bytes} (h : Runs keys lo hi db v db') :
    ∃ readings, ReadingsIn lo hi readings ∧ db.keys readings = (v, db') := by
  unfold keys at h
  obtain ⟨t, found, db₁, hfound, h⟩ := runs_bind.mp h
  obtain ⟨readings, hreadings, rfl, rfl⟩ := runs_collectBoth hfound
  obtain ⟨hhi, rfl, rfl⟩ := runs_removeAll.mp h
  exact ⟨readings, ⟨hreadings.mono, hreadings.start, fun i => (hreadings.last i).trans hhi⟩, rfl⟩

theorem runs_dbsize {v : ℕ} (h : Runs dbsize lo hi db v db') :
    ∃ readings, ReadingsIn lo hi readings ∧ db.dbsize readings = (v, db') := by
  unfold dbsize at h
  obtain ⟨t, found, db₁, hfound, h⟩ := runs_bind.mp h
  obtain ⟨readings, hreadings, rfl, rfl⟩ := runs_collectBoth hfound
  obtain ⟨hhi, rfl, rfl⟩ := runs_removeAll.mp h
  exact ⟨readings, ⟨hreadings.mono, hreadings.start, fun i => (hreadings.last i).trans hhi⟩, rfl⟩

/-! ### The scan, and whole maps -/

/-- The sampling loop looks at the entries from some position on, up to its limit. -/
theorem runs_sampleLoop {now : TimePoint} {n i : ℕ} {toDelete v : List Bytes}
    (h : Runs (sampleLoop now n i toDelete) lo hi db v db') :
    lo ≤ hi ∧ db' = db ∧ v = toDelete ++
      ((((db.expiry.entries.drop i).take n).filter fun e => decide (e.2 ≤ now)).map Sigma.fst) := by
  induction n generalizing i toDelete with
  | zero =>
    obtain ⟨hhi, rfl, rfl⟩ := h
    exact ⟨hhi, rfl, by simp⟩
  | succ n ih =>
    unfold sampleLoop at h
    rw [runs_entryAt, Database.map_expiry] at h
    cases he : db.expiry.entries[i]? with
    | none =>
      rw [he] at h
      obtain ⟨hhi, rfl, rfl⟩ := h
      refine ⟨hhi, rfl, ?_⟩
      rw [List.drop_eq_nil_of_le (List.getElem?_eq_none_iff.mp he)]
      simp
    | some e =>
      rw [he] at h
      obtain ⟨hhi, hdb, hv⟩ := ih h
      obtain ⟨hlen, rfl⟩ := List.getElem?_eq_some_iff.mp he
      refine ⟨hhi, hdb, ?_⟩
      rw [hv, List.drop_eq_getElem_cons hlen, List.take_succ_cons, List.filter_cons]
      by_cases hdue : db.expiry.entries[i].2 ≤ now
      · rw [if_pos hdue, if_pos (decide_eq_true hdue)]
        simp
      · rw [if_neg hdue, if_neg (by simpa using hdue)]

theorem runs_expiryScan {v : Unit} (h : Runs expiryScan lo hi db v db') :
    ∃ t, lo ≤ t ∧ t ≤ hi ∧ db' = db.expiryScan t := by
  unfold expiryScan at h
  rw [runs_size, Database.map_expiry] at h
  by_cases hempty : db.expiry.keys.length = 0
  · rw [if_pos hempty] at h
    obtain ⟨hhi, -, rfl⟩ := h
    refine ⟨lo, le_rfl, hhi, ?_⟩
    rw [AList.keys, List.keys, List.length_map, List.length_eq_zero_iff] at hempty
    unfold Database.expiryScan
    rw [hempty]
    rfl
  · rw [if_neg hempty] at h
    obtain ⟨t, ht, h⟩ := runs_now.mp h
    obtain ⟨t', toDelete, db₁, hsample, h⟩ := runs_bind.mp h
    obtain ⟨ht', rfl, rfl⟩ := runs_sampleLoop hsample
    rw [← Code.bind_pure (removeAll _), runs_removeAll] at h
    obtain ⟨hhi, -, rfl⟩ := h
    exact ⟨t, ht, ht'.trans hhi, rfl⟩

theorem runs_flushdb {v : Unit} (h : Runs flushdb lo hi db v db') : lo ≤ hi ∧ db' = db.flushdb := by
  unfold flushdb at h
  rw [runs_clear, runs_clear, ← Code.bind_pure (access _), runs_clear] at h
  obtain ⟨hhi, -, rfl⟩ := h
  exact ⟨hhi, rfl⟩

theorem runs_copy {m : MapName} {f : UnorderedMap Bytes m.Value → DbCode α}
    (h : Runs (access (.copy m) >>= f) lo hi db v db') :
    ∃ x, (db.map m).entries.Perm x.entries ∧ Runs (f x) lo hi db v db' := by
  obtain ⟨t, x, db₁, ht, ⟨hperm, rfl⟩, hrest⟩ := h
  exact ⟨x, hperm, hrest.mono_left ht⟩

theorem runs_getSnapshot {v : DatabaseSnapshot} (h : Runs getSnapshot lo hi db v db') :
    db.Reordered v ∧ db' = db := by
  unfold getSnapshot at h
  obtain ⟨store, hstore, h⟩ := runs_copy h
  obtain ⟨listStore, hlistStore, h⟩ := runs_copy h
  obtain ⟨expiry, hexpiry, h⟩ := runs_copy h
  obtain ⟨-, rfl, rfl⟩ := h
  exact ⟨⟨hstore, hlistStore, hexpiry⟩, rfl⟩

theorem runs_replace {m : MapName} {x : UnorderedMap Bytes m.Value} {f : Unit → DbCode α}
    (h : Runs (access (.replace m x) >>= f) lo hi db v db') :
    ∃ y : UnorderedMap Bytes m.Value, x.entries.Perm y.entries ∧
      Runs (f ()) lo hi (db.setMap m y) v db' := by
  obtain ⟨t, r, db₁, ht, ⟨y, hperm, rfl⟩, hrest⟩ := h
  exact ⟨y, hperm, hrest.mono_left ht⟩

theorem runs_loadSnapshot {snapshot : DatabaseSnapshot} {v : Unit}
    (h : Runs (loadSnapshot snapshot) lo hi db v db') : snapshot.Reordered db' := by
  unfold loadSnapshot at h
  obtain ⟨store, hstore, h⟩ := runs_replace h
  obtain ⟨listStore, hlistStore, h⟩ := runs_replace h
  rw [← Code.bind_pure (access _)] at h
  obtain ⟨expiry, hexpiry, h⟩ := runs_replace h
  obtain ⟨-, -, rfl⟩ := h
  exact ⟨hstore, hlistStore, hexpiry⟩

/-! ### All operations -/

/-- The result of a method becomes the result of the operation. -/
theorem effect_of_map {op : DbOp} {g : β → DbResult} {b : β} {p : β × Database}
    {readings : ℕ → TimePoint} (hreadings : ReadingsIn lo hi readings)
    (hop : op.run readings db = p.map g id) (hb : p.1 = b) (hdb : p.2.Reordered db') :
    op.Effect lo hi db (g b) db' := by
  refine ⟨readings, hreadings, ?_, ?_⟩
  · rw [hop, ← hb]
    rfl
  · rw [hop]
    exact hdb

/-- The same for a method without insertions. -/
theorem effect_of_map_eq {op : DbOp} {g : β → DbResult} {b : β} {p : β × Database}
    {readings : ℕ → TimePoint} (hreadings : ReadingsIn lo hi readings)
    (hop : op.run readings db = p.map g id) (hp : p = (b, db')) : op.Effect lo hi db (g b) db' :=
  effect_of_map hreadings hop (by rw [hp]) (by rw [hp]; exact .rfl)

/-- Two clock readings. -/
theorem readingsIn_two {t t' : TimePoint} (hlo : lo ≤ t) (htt : t ≤ t') (hhi : t' ≤ hi) :
    ReadingsIn lo hi (ReadingsIn.append 1 (fun _ => t) fun _ => t') :=
  (ReadingsIn.const hlo le_rfl).of_append (.const htt hhi) 1

/-- The code of an operation does what the operation does at the clock readings of the call. -/
theorem effect_of_runs {op : DbOp} {r : DbResult} (h : Runs (ofOp op) lo hi db r db') :
    op.Effect lo hi db r db' := by
  cases op with
  | set key value =>
    obtain ⟨t, _, db₁, hset, hhi, rfl, rfl⟩ := runs_bind.mp h
    obtain ⟨ht, hdb⟩ := runs_set hset
    exact ⟨fun _ => lo, .const le_rfl (ht.trans hhi), rfl, hdb⟩
  | flushdb =>
    obtain ⟨t, _, db₁, hflush, hhi, rfl, rfl⟩ := runs_bind.mp h
    obtain ⟨ht, rfl⟩ := runs_flushdb hflush
    exact ⟨fun _ => lo, .const le_rfl (ht.trans hhi), rfl, .rfl⟩
  | del ks =>
    obtain ⟨v, rfl, hrun⟩ := runs_map.mp h
    obtain ⟨hhi, heq⟩ := runs_delLoop hrun
    exact effect_of_map_eq (.const le_rfl hhi) rfl heq
  | exists_ ks =>
    obtain ⟨v, rfl, hrun⟩ := runs_map.mp h
    obtain ⟨readings, hreadings, heq⟩ := runs_existsLoop hrun
    exact effect_of_map_eq hreadings rfl heq
  | keys =>
    obtain ⟨v, rfl, hrun⟩ := runs_map.mp h
    obtain ⟨readings, hreadings, heq⟩ := runs_keys hrun
    exact effect_of_map_eq hreadings rfl heq
  | dbsize =>
    obtain ⟨v, rfl, hrun⟩ := runs_map.mp h
    obtain ⟨readings, hreadings, heq⟩ := runs_dbsize hrun
    exact effect_of_map_eq hreadings rfl heq
  | get key =>
    obtain ⟨v, rfl, hrun⟩ := runs_map.mp h
    obtain ⟨t, hlo, hhi, heq⟩ := runs_get hrun
    exact effect_of_map_eq (.const hlo hhi) rfl heq
  | lrange key start stop =>
    obtain ⟨v, rfl, hrun⟩ := runs_map.mp h
    obtain ⟨t, hlo, hhi, heq⟩ := runs_lrange hrun
    exact effect_of_map_eq (.const hlo hhi) rfl heq
  | llen key =>
    obtain ⟨v, rfl, hrun⟩ := runs_map.mp h
    obtain ⟨t, hlo, hhi, heq⟩ := runs_llen hrun
    exact effect_of_map_eq (.const hlo hhi) rfl heq
  | lindex key index =>
    obtain ⟨v, rfl, hrun⟩ := runs_map.mp h
    obtain ⟨t, hlo, hhi, heq⟩ := runs_lindex hrun
    exact effect_of_map_eq (.const hlo hhi) rfl heq
  | lpush key values =>
    obtain ⟨v, rfl, hrun⟩ := runs_map.mp h
    obtain ⟨t, hlo, hhi, hv, hdb⟩ := runs_push hrun
    exact effect_of_map (.const hlo hhi) rfl hv hdb
  | rpush key values =>
    obtain ⟨v, rfl, hrun⟩ := runs_map.mp h
    obtain ⟨t, hlo, hhi, hv, hdb⟩ := runs_push hrun
    exact effect_of_map (.const hlo hhi) rfl hv hdb
  | lpop key =>
    obtain ⟨v, rfl, hrun⟩ := runs_map.mp h
    obtain ⟨t, hlo, hhi, hv, hdb⟩ := runs_pop hrun
    exact effect_of_map (.const hlo hhi) rfl hv hdb
  | rpop key =>
    obtain ⟨v, rfl, hrun⟩ := runs_map.mp h
    obtain ⟨t, hlo, hhi, hv, hdb⟩ := runs_pop hrun
    exact effect_of_map (.const hlo hhi) rfl hv hdb
  | expire key seconds =>
    obtain ⟨v, rfl, hrun⟩ := runs_map.mp h
    obtain ⟨t, t', hlo, htt, hhi, hv, hdb⟩ := runs_expire hrun
    exact effect_of_map (readingsIn_two hlo htt hhi) rfl hv hdb
  | ttl key =>
    obtain ⟨v, rfl, hrun⟩ := runs_map.mp h
    obtain ⟨t, t', hlo, htt, hhi, hv, hdb⟩ := runs_ttl hrun
    exact effect_of_map (readingsIn_two hlo htt hhi) rfl hv hdb
  | persist key =>
    obtain ⟨v, rfl, hrun⟩ := runs_map.mp h
    obtain ⟨t, t', hlo, htt, hhi, hv, hdb⟩ := runs_persist hrun
    exact effect_of_map (readingsIn_two hlo htt hhi) rfl hv hdb

end DbCode

end MyRedis
