import MyRedis.Database.Threads

/-!
# Starting and stopping the background thread

`stop_expiry_thread` clears the flag, notifies the condition variable and joins the thread.  It does
not lock the mutex of the condition variable, so the notification is lost if it comes after the
predicate of `wait_for` has found the flag set and before the thread blocks.  What ends the waiting
then is the time limit.

`Process.stop_is_final` bounds what the thread still does after the flag was cleared: no further
scan passes the test of `break`, so that at most the one already decided on is carried out, and the
number of steps is bounded; there are none at all once `stop_expiry_thread` has returned.
`Process.nothing_is_stuck` says that, in every reachable state, every call under way can take effect
and `stop_expiry_thread` can return, without a further call and without a wake-up by chance.
-/

namespace MyRedis

open Foundation

/-! ### The length of a scan -/

namespace DbCode

/-- Removing keys one by one takes three accesses for each. -/
theorem within_removeAll (keys : List Bytes) : (removeAll keys).Within (3 * keys.length) := by
  induction keys with
  | nil => exact trivial
  | cons key keys ih =>
    have hkey : (removeExpiredUnlocked key).Within 3 :=
      fun _ => fun _ => fun _ => trivial
    have hboth := hkey.bind fun _ => ih
    rw [List.length_cons, Nat.mul_succ, Nat.add_comm]
    exact hboth

/-- The sampling loop takes one access for each entry, and the entries found due are removed. -/
theorem within_sampleLoop (now : TimePoint) (n i : ℕ) (toDelete : List Bytes) :
    (sampleLoop now n i toDelete >>= removeAll).Within (n + 3 * (toDelete.length + n)) := by
  induction n generalizing i toDelete with
  | zero => exact (within_removeAll toDelete).mono (by omega)
  | succ n ih =>
    rw [show n + 1 + 3 * (toDelete.length + (n + 1)) =
      n + 3 * (toDelete.length + 1 + n) + 1 by omega]
    intro entry
    cases entry with
    | none => exact (within_removeAll toDelete).mono (by omega)
    | some entry =>
      refine (ih (i + 1) _).mono ?_
      split
      · rw [List.length_append, List.length_singleton]
      · omega

end DbCode

/-- The number of accesses of a scan: two in front of the loop, one for each entry looked at, and
three for each one removed. -/
def scanAccesses : ℕ := 2 + 4 * Database.maxSample

/-- A scan makes a bounded number of accesses. -/
theorem LockedCall.within_scan : LockedCall.scan.body.Within scanAccesses := by
  have hscan : DbCode.expiryScan.Within scanAccesses := by
    intro n
    change (ite _ _ _ : DbCode Unit).Within _
    split
    · exact trivial
    · intro now
      exact DbCode.within_sampleLoop now Database.maxSample 0 []
  have hmap : (DbCode.expiryScan >>= fun _ => (pure DbReturn.nothing : DbCode DbReturn)).Within
      (scanAccesses + 0) := hscan.bind fun _ => trivial
  exact hmap

namespace Process

variable {ι : Type}

/-! ### What the flag, the thread and the owner have to do with each other -/

/-- The background thread takes at most `n` more steps in its scan. -/
def ScanLeft (n : ℕ) : Place DbAccess DbAccess.Reply LockedCall DbReturn → Prop
  | .idle => True
  | .waiting c => c = .scan ∧ scanAccesses + 3 ≤ n
  | .inside _ code => ∃ k, code.Within k ∧ k + 2 ≤ n
  | .leaving _ => 1 ≤ n

/-- The number of steps from a place in the loop to its end, once the flag is cleared, apart from
those of a scan under way. -/
def loopLeft : LoopPlace → ℕ
  | .absent | .ended => 0
  | .loopTest | .breakTest | .scanning => 1
  | .waitTest _ | .timedOut => 2
  | .entering | .blocked _ => 3
  | .blocking _ => 4
  -- the scan is still to be made: its call, its steps and the test of `while`
  | .decided => scanAccesses + 5

/-- Where the owner is, given the flag and the background thread. -/
def OwnerFits (owner : OwnerPlace) (running : Bool) (loop : LoopPlace) : Prop :=
  match owner with
  | .idle => running = true ↔ loop ≠ .absent
  | .starting => running = true ∧ loop = .absent
  | .clearing => running = true ∧ loop ≠ .absent
  | .notifying => running = false ∧ loop ≠ .absent
  | .joining => running = false ∧ loop ≠ .absent

/-- Once the flag is cleared, the background thread takes at most `n` more steps. -/
def StepsLeft (n : ℕ) (p : Process ι) : Prop :=
  ∃ k, ScanLeft k (p.object.place none) ∧ k + loopLeft p.loop ≤ n

/-- A step of the background thread outside of its scans. -/
theorem StepsLeft.loop_step {n : ℕ} {p : Process ι} (hleft : StepsLeft n p) {loop : LoopPlace}
    (hloop : loopLeft loop + 1 = loopLeft p.loop) :
    ∃ m, StepsLeft m { p with loop := loop } ∧ 1 + m ≤ n := by
  obtain ⟨k, hk, hn⟩ := hleft
  exact ⟨k + loopLeft loop, ⟨k, hk, le_rfl⟩, by omega⟩

/-- A step of another thread. -/
theorem StepsLeft.other_step {n : ℕ} {p p' : Process ι} (hleft : StepsLeft n p)
    (hplace : p'.object.place none = p.object.place none)
    (hloop : loopLeft p'.loop ≤ loopLeft p.loop) : ∃ m, StepsLeft m p' ∧ 0 + m ≤ n := by
  obtain ⟨k, hk, hn⟩ := hleft
  exact ⟨n, ⟨k, hplace ▸ hk, by omega⟩, by omega⟩

/-- The background thread asks for the mutex. -/
def Label.beginsScan : Label ι → Bool
  | .object (.call none .scan) => true
  | _ => false

theorem Label.beginsScan_iff {e : Label ι} :
    e.beginsScan = true ↔ e = .object (.call none .scan) := by
  unfold Label.beginsScan
  split <;> simp_all

/-- The number of scans that have been decided on and not begun. -/
def scansDecided : LoopPlace → ℕ
  | .decided => 1
  | _ => 0

/-- A notification brings the thread nearer to its end, and decides on no scan. -/
theorem notified_le (place : LoopPlace) : loopLeft place.notified ≤ loopLeft place ∧
    scansDecided place.notified = scansDecided place := by
  cases place <;> simp [LoopPlace.notified, loopLeft, scansDecided]

/-- A step with which the process goes on by itself: nothing is called, and the background thread is
not woken up by chance. -/
def Label.isContinuation : Label ι → Bool
  | .object (.call (some _) _) | .start | .stop | .wake => false
  | _ => true

/-- The invariant of the process. -/
structure Coherent [DecidableEq ι] (p : Process ι) : Prop where
  /-- The mutex is in order. -/
  locked : databaseObject.Locked p.object
  /-- The background thread is in a section exactly in its scans. -/
  scanning : p.loop = .scanning ↔ p.object.place none ≠ .idle
  /-- A scan is bounded. -/
  left : ScanLeft (scanAccesses + 3) (p.object.place none)
  /-- The owner knows about the flag and the thread. -/
  owner : OwnerFits p.owner p.running p.loop
  /-- The thread ends only after the flag was cleared. -/
  ended : p.loop = .ended → p.running = false

variable [DecidableEq ι] {p p' : Process ι} {e : Label ι}

theorem coherent_initial (now : TimePoint) : (initial now : Process ι).Coherent where
  locked := LockedObject.locked_start _ _
  scanning := by simp [initial, LockedObject.State.start]
  left := trivial
  owner := by simp [OwnerFits, initial]
  ended h := by cases h

theorem ScanLeft.mono {n n' : ℕ} (hn : n ≤ n')
    {place : Place DbAccess DbAccess.Reply LockedCall DbReturn} (h : ScanLeft n place) :
    ScanLeft n' place := by
  cases place with
  | idle => exact trivial
  | waiting c => exact ⟨h.1, h.2.trans hn⟩
  | inside c code =>
    obtain ⟨k, hk, hle⟩ := h
    exact ⟨k, hk, hle.trans hn⟩
  | leaving v => exact Nat.le_trans h hn

/-- Each step of the background thread in its scan, up to its return, leaves one less. -/
theorem ScanLeft.step {o o' : LockedObject.State DbAccess DbAccess.Reply Database TimePoint
      LockedCall DbReturn (Option ι)} {x : SectionLabel (Option ι) LockedCall DbReturn} {n : ℕ}
    (h : ScanLeft n (o.place none)) (hstep : databaseObject.Step o x o')
    (hthread : x.thread = some none) (hcall : ∀ c, x ≠ .call none c) :
    1 ≤ n ∧ ScanLeft (n - 1) (o'.place none) := by
  cases hstep with
  | @call i c hplace =>
    obtain rfl : i = none := Option.some.inj hthread
    exact absurd rfl (hcall c)
  | @lock i c hplace hmode hwriter hreaders =>
    obtain rfl : i = none := Option.some.inj hthread
    rw [hplace] at h
    obtain ⟨rfl, hn⟩ := h
    rw [LockedObject.State.move_self]
    exact ⟨by omega, scanAccesses, LockedCall.within_scan, by omega⟩
  | @lockShared i c hplace hmode hwriter =>
    obtain rfl : i = none := Option.some.inj hthread
    rw [hplace] at h
    obtain ⟨rfl, hn⟩ := h
    cases hmode
  | @access i c a next r m hplace haccess =>
    obtain rfl : i = none := Option.some.inj hthread
    rw [hplace] at h
    obtain ⟨k, hk, hle⟩ := h
    rw [LockedObject.State.move_self]
    cases k with
    | zero => exact hk.elim
    | succ k => exact ⟨by omega, k, hk r, by omega⟩
  | @unlock i c v hplace =>
    obtain rfl : i = none := Option.some.inj hthread
    rw [hplace] at h
    obtain ⟨k, hk, hle⟩ := h
    rw [LockedObject.State.move_self]
    exact ⟨by omega, show 1 ≤ n - 1 by omega⟩
  | @ret i v hplace =>
    obtain rfl : i = none := Option.some.inj hthread
    rw [hplace] at h
    rw [LockedObject.State.move_self]
    exact ⟨h, trivial⟩
  | tick => cases hthread

/-- A step inside a scan does not end it. -/
theorem place_ne_idle {o o' : LockedObject.State DbAccess DbAccess.Reply Database TimePoint
      LockedCall DbReturn (Option ι)} {x : SectionLabel (Option ι) LockedCall DbReturn}
    (hstep : databaseObject.Step o x o') (hthread : x.thread = some none)
    (hinner : x.visible = none) : o'.place none ≠ .idle := by
  cases hstep with
  | call | ret => cases hinner
  | tick => cases hthread
  | lock | lockShared | access | unlock =>
    obtain rfl := Option.some.inj hthread
    rw [LockedObject.State.move_self]
    exact nofun

/-- For the owner it matters only whether there is a thread. -/
theorem OwnerFits.congr {owner : OwnerPlace} {running : Bool} {loop loop' : LoopPlace}
    (h : OwnerFits owner running loop) (hloop : loop' = .absent ↔ loop = .absent) :
    OwnerFits owner running loop' := by
  cases owner with
  | idle => exact h.trans (not_congr hloop.symm)
  | starting => exact ⟨h.1, hloop.mpr h.2⟩
  | clearing | notifying | joining => exact ⟨h.1, fun habsent => h.2 (hloop.mp habsent)⟩

/-- A step outside of the methods and scans. -/
theorem Coherent.control (h : p.Coherent) (hobject : p'.object = p.object)
    (hscanning : p'.loop = .scanning ↔ p.loop = .scanning)
    (howner : OwnerFits p'.owner p'.running p'.loop)
    (hended : p'.loop = .ended → p'.running = false) : p'.Coherent where
  locked := hobject ▸ h.locked
  scanning := by
    rw [hobject, hscanning]
    exact h.scanning
  left := hobject ▸ h.left
  owner := howner
  ended := hended

/-- A step of the background thread outside of its scans. -/
theorem Coherent.loop_control (h : p.Coherent) {loop : LoopPlace}
    (hloop : p.loop ≠ .scanning ∧ p.loop ≠ .absent) (hloop' : loop ≠ .scanning ∧ loop ≠ .absent)
    (hended : loop = .ended → p.running = false) : { p with loop := loop }.Coherent :=
  h.control rfl (iff_of_false hloop'.1 hloop.1)
    (h.owner.congr (iff_of_false hloop'.2 hloop.2)) hended

theorem Coherent.step (h : p.Coherent) (hstep : Step p e p') : p'.Coherent := by
  have hlocked : databaseObject.Locked p'.object := by
    rcases hstep.object_step with ⟨x, -, hobject⟩ | ⟨-, hobject⟩
    · exact h.locked.step hobject
    · rw [hobject]
      exact h.locked
  have howner := h.owner
  cases hstep with
  | method hthread hscan hstep =>
    refine ⟨hlocked, ?_, ?_, h.owner, h.ended⟩
    · rw [hstep.place_eq hthread]
      exact h.scanning
    · rw [hstep.place_eq hthread]
      exact h.left
  | inScan hloop hthread hinner hstep =>
    refine ⟨hlocked, iff_of_true hloop (place_ne_idle hstep hthread hinner), ?_, h.owner, h.ended⟩
    refine (h.left.step hstep hthread ?_).2.mono (Nat.sub_le _ _)
    rintro c rfl
    cases hinner
  | scanned hloop hstep =>
    cases hstep
    refine ⟨hlocked, ?_, ?_, h.owner.congr (by simp [hloop]), fun hended => by cases hended⟩
    · simp
    · rw [LockedObject.State.move_self]
      exact trivial
  | scan hloop hstep =>
    cases hstep
    refine ⟨hlocked, ?_, ?_, h.owner.congr (by simp [hloop]), fun hended => by cases hended⟩
    · simp
    · rw [LockedObject.State.move_self]
      exact ⟨rfl, le_rfl⟩
  | loopTest hloop =>
    refine h.loop_control (by simp [hloop]) ?_ ?_ <;> cases p.running <;> simp
  | waitTest hloop =>
    refine h.loop_control (by simp [hloop]) ?_ ?_ <;> cases p.running <;> simp
  | enter hloop | block hloop | wake hloop | timeout hloop | waited hloop | goOn hloop =>
    exact h.loop_control (by simp [hloop]) (by simp) (by simp)
  | breakOff hloop hrunning =>
    exact h.loop_control (by simp [hloop]) (by simp) fun _ => hrunning
  | start hidle hloop =>
    exact h.control rfl Iff.rfl ⟨rfl, hloop⟩ fun hended => by simp [hloop] at hended
  | spawn hstarting =>
    rw [hstarting] at howner
    refine h.control rfl ?_ ?_ nofun
    · simp [howner.2]
    · simp [OwnerFits, howner.1]
  | stop hidle =>
    rw [hidle] at howner
    refine h.control rfl Iff.rfl ?_ h.ended
    cases hrunning : p.running with
    | true => exact ⟨rfl, howner.mp hrunning⟩
    | false =>
      rw [hrunning] at howner
      exact howner
  | clear hclearing =>
    rw [hclearing] at howner
    exact h.control rfl Iff.rfl ⟨rfl, howner.2⟩ fun _ => rfl
  | notify hnotifying =>
    rw [hnotifying] at howner
    refine h.control rfl ?_ ⟨howner.1, ?_⟩ fun _ => howner.1
    · cases p.loop <;> simp [LoopPlace.notified]
    · revert howner
      cases p.loop <;> simp [LoopPlace.notified, OwnerFits]
  | join hjoining hloop =>
    rw [hjoining] at howner
    refine h.control rfl ?_ ?_ nofun
    · simp [hloop]
    · simp [OwnerFits, howner.1]
  | notJoinable hjoining hloop =>
    rw [hjoining] at howner
    exact absurd hloop howner.2

/-- A run keeps the invariant. -/
theorem Coherent.trace {past : List (Process ι × Label ι)} (h : p.Coherent)
    (htrace : Trace Step p past p') : p'.Coherent :=
  Trace.invariant (I := fun _ p => p.Coherent) h (fun _ _ _ _ h hstep => h.step hstep) htrace

/-! ### After the flag was cleared -/

/-- The most steps that the background thread may take after the flag was cleared. -/
def lastSteps : ℕ := scanAccesses + 5

theorem Coherent.place_eq_idle (h : p.Coherent) (hloop : p.loop ≠ .scanning) :
    p.object.place none = .idle :=
  not_not.mp fun hplace => hloop (h.scanning.mpr hplace)

theorem Coherent.stepsLeft (h : p.Coherent) : StepsLeft lastSteps p := by
  by_cases hloop : p.loop = .scanning
  · refine ⟨_, h.left, ?_⟩
    rw [hloop]
    decide
  · refine ⟨0, ?_, ?_⟩
    · rw [h.place_eq_idle hloop]
      exact trivial
    · cases p.loop <;> simp [loopLeft, lastSteps, scanAccesses]

/-- A step while the flag is cleared. -/
theorem StepsLeft.step {n : ℕ} (hleft : StepsLeft n p) (h : p.Coherent)
    (hrunning : p.running = false) (hstep : Step p e p') (hstart : e ≠ .start) :
    ∃ m, StepsLeft m p' ∧ (if e.isBackground then 1 else 0) + m ≤ n := by
  have howner := h.owner
  cases hstep with
  | @method x o hthread hscan hstep =>
    rw [if_neg fun hback => hthread ((Label.isBackground_object x).mp hback)]
    exact hleft.other_step (hstep.place_eq hthread) le_rfl
  | @inScan x o hloop hthread hinner hstep =>
    rw [if_pos ((Label.isBackground_object x).mpr hthread)]
    obtain ⟨k, hk, hn⟩ := hleft
    obtain ⟨hpos, hk'⟩ := hk.step hstep hthread (by rintro c rfl; cases hinner)
    exact ⟨k - 1 + loopLeft p.loop, ⟨k - 1, hk', le_rfl⟩, by omega⟩
  | @scanned v o hloop hstep =>
    obtain ⟨k, hk, hn⟩ := hleft
    obtain ⟨hpos, hk'⟩ := hk.step hstep rfl nofun
    rw [hloop] at hn
    refine ⟨k - 1 + 1, ⟨k - 1, hk', le_rfl⟩, ?_⟩
    change k + 1 ≤ n at hn
    change 1 + (k - 1 + 1) ≤ n
    omega
  | @scan o hloop hstep =>
    obtain ⟨k, -, hn⟩ := hleft
    cases hstep
    rw [hloop] at hn
    refine ⟨scanAccesses + 3 + 1, ⟨scanAccesses + 3, ?_, le_rfl⟩, ?_⟩
    · rw [LockedObject.State.move_self]
      exact ⟨rfl, le_rfl⟩
    · change k + (scanAccesses + 5) ≤ n at hn
      change 1 + (scanAccesses + 3 + 1) ≤ n
      omega
  | loopTest hloop => exact hleft.loop_step (by simp [hrunning, hloop, loopLeft])
  | waitTest hloop => exact hleft.loop_step (by simp [hrunning, hloop, loopLeft])
  | enter hloop | block hloop | wake hloop | timeout hloop | waited hloop | breakOff hloop =>
    exact hleft.loop_step (by rw [hloop]; rfl)
  | goOn hloop htrue => simp [hrunning] at htrue
  | start => exact absurd rfl hstart
  | spawn hstarting =>
    rw [hstarting] at howner
    have htrue := howner.1
    simp [hrunning] at htrue
  | stop | clear | notJoinable => exact hleft.other_step rfl le_rfl
  | notify => exact hleft.other_step rfl (notified_le p.loop).1
  | join => exact hleft.other_step rfl (Nat.zero_le _)

/-- The flag stays cleared until the thread is started again. -/
theorem Step.running_eq_false (hstep : Step p e p') (hrunning : p.running = false)
    (hstart : e ≠ .start) : p'.running = false := by
  cases hstep with
  | start => exact absurd rfl hstart
  | clear => rfl
  | _ => exact hrunning

/-- While the flag is cleared, a scan is begun only if it was decided on, and none is decided on. -/
theorem Step.scansDecided_le (hstep : Step p e p') (hrunning : p.running = false) :
    (if e.beginsScan then 1 else 0) + scansDecided p'.loop ≤ scansDecided p.loop := by
  cases hstep with
  | @method x o hthread hscan hstep =>
    rw [if_neg fun h => hscan none (Label.object.inj (Label.beginsScan_iff.mp h)), Nat.zero_add]
  | @inScan x o hloop hthread hinner hstep =>
    have hbegins : (Label.object x).beginsScan ≠ true := by
      intro h
      rw [Label.object.inj (Label.beginsScan_iff.mp h)] at hinner
      cases hinner
    rw [if_neg hbegins, Nat.zero_add]
  | scan hloop hstep => rw [hloop]; rfl
  | goOn hloop htrue => simp [hrunning] at htrue
  | loopTest hloop => simp [Label.beginsScan, scansDecided, hrunning]
  | waitTest hloop => simp [Label.beginsScan, scansDecided, hrunning]
  | notify => exact (Nat.zero_add _).le.trans (notified_le p.loop).2.le
  | scanned | enter | block | wake | timeout | waited | breakOff | spawn | join =>
    exact Nat.zero_le _
  | start | stop | clear | notJoinable => exact (Nat.zero_add _).le

/-- In a run that starts with the flag cleared and does not start the thread again, the flag stays
cleared, and no scan is decided on. -/
theorem no_scan_decided (hrunning : p.running = false) {later : List (Process ι × Label ι)}
    (htrace : Trace (fun p e p' => Step p e p' ∧ e ≠ .start) p later p') :
    ∀ q ∈ later, q.2 ≠ .goOn := by
  suffices hall : p'.running = false ∧ ∀ q ∈ later, q.2 ≠ .goOn from hall.2
  refine htrace.invariant (I := fun later p' => p'.running = false ∧ ∀ q ∈ later, q.2 ≠ .goOn)
    ⟨hrunning, by simp⟩ ?_
  rintro later q e q' ⟨hq, hlater⟩ ⟨hstep, hstart⟩
  refine ⟨hstep.running_eq_false hq hstart, ?_⟩
  intro x hx
  rcases List.mem_append.mp hx with hx | hx
  · exact hlater x hx
  · obtain rfl := List.mem_singleton.mp hx
    rintro rfl
    cases hstep with
    | goOn hloop htrue => simp [hq] at htrue

/-- The number of steps of the background thread in such a run. -/
theorem Coherent.countP_background (h : p.Coherent) (hrunning : p.running = false)
    {later : List (Process ι × Label ι)}
    (htrace : Trace (fun p e p' => Step p e p' ∧ e ≠ .start) p later p') {n : ℕ}
    (hleft : StepsLeft n p) : later.countP (fun q => q.2.isBackground) ≤ n := by
  refine htrace.countP_le (L := fun n p => (p.Coherent ∧ p.running = false) ∧ StepsLeft n p)
    ?_ ⟨⟨h, hrunning⟩, hleft⟩
  rintro n q e q' ⟨⟨hq, hstopped⟩, hn⟩ ⟨hstep, hstart⟩
  obtain ⟨m, hm, hle⟩ := hn.step hq hstopped hstep hstart
  exact ⟨m, ⟨⟨hq.step hstep, hstep.running_eq_false hstopped hstart⟩, hm⟩, hle⟩

/-- The number of scans that are begun in such a run. -/
theorem countP_beginsScan (hrunning : p.running = false) {later : List (Process ι × Label ι)}
    (htrace : Trace (fun p e p' => Step p e p' ∧ e ≠ .start) p later p') :
    later.countP (fun q => q.2.beginsScan) ≤ scansDecided p.loop := by
  refine htrace.countP_le (L := fun n p => p.running = false ∧ scansDecided p.loop ≤ n)
    ?_ ⟨hrunning, le_rfl⟩
  rintro n q e q' ⟨hstopped, hn⟩ ⟨hstep, hstart⟩
  exact ⟨_, ⟨hstep.running_eq_false hstopped hstart, le_rfl⟩,
    (hstep.scansDecided_le hstopped).trans hn⟩

/-- Shutting down is bounded and final: in every run, once the flag is cleared and until the thread
is started again, no scan passes the test of `break`, the background thread asks for the mutex at
most once, and only if it had passed this test before, it takes at most `lastSteps` steps, and none
at all if `stop_expiry_thread` has returned. -/
theorem stop_is_final {now : TimePoint} {past later : List (Process ι × Label ι)}
    (h : Trace Step (initial now) past p) (hrunning : p.running = false)
    (hlater : Trace Step p later p') (hstart : ∀ q ∈ later, q.2 ≠ .start) :
    (∀ q ∈ later, q.2 ≠ .goOn) ∧
      later.countP (fun q => q.2.beginsScan) ≤ (if p.loop = .decided then 1 else 0) ∧
      later.countP (fun q => q.2.isBackground) ≤ lastSteps ∧
      (p.owner = .idle → ∀ q ∈ later, q.2.isBackground = false) := by
  have hp : p.Coherent := (coherent_initial now).trace h
  have hstopped : Trace (fun p e p' => Step p e p' ∧ e ≠ .start) p later p' := by
    refine hlater.restrict ?_
    intro e he
    obtain ⟨q, hq, rfl⟩ := List.mem_map.mp he
    exact hstart q hq
  have hdecided : scansDecided p.loop = if p.loop = .decided then 1 else 0 := by
    cases p.loop <;> rfl
  refine ⟨no_scan_decided hrunning hstopped, hdecided ▸ countP_beginsScan hrunning hstopped,
    hp.countP_background hrunning hstopped hp.stepsLeft, fun hidle => ?_⟩
  -- without a thread no step is left
  have habsent : p.loop = .absent := by
    have howner := hp.owner
    rw [hidle] at howner
    exact not_not.mp fun hne => by simp [howner.mpr hne] at hrunning
  have hnone : StepsLeft 0 p := by
    refine ⟨0, ?_, ?_⟩
    · rw [hp.place_eq_idle (by simp [habsent])]
      exact trivial
    · rw [habsent]
      exact le_rfl
  have hzero := hp.countP_background hrunning hstopped hnone
  intro q hq
  exact Bool.eq_false_iff.mpr (List.countP_eq_zero.mp (Nat.le_zero.mp hzero) q hq)

/-- The thread is started, finds the flag set in `wait_for`, and is told to stop before it is
blocked. -/
def stopBeforeBlocking : List (Choice ℕ) :=
  [.start, .owner, .background false, .background false, .background false, .stop, .owner]

/-- What follows: the notification is lost, the thread blocks until its time limit, ends and is
joined, and a method is called afterwards. -/
def afterStop : List (Choice ℕ) :=
  [.owner, .background false, .tick 100000000, .background true, .background false,
    .background false, .owner, .call 0 (.op (.get [107])), .go 0]

/-- The thread takes four more steps. -/
theorem stop_is_final_afterStop :
    ∃ past later p p', (initial 0).schedule stopBeforeBlocking = some (past, p) ∧
      p.schedule afterStop = some (later, p') ∧ p'.owner = .idle ∧
      later.countP (fun q => q.2.isBackground) = 4 ∧
      later.countP (fun q => q.2.isBackground) ≤ lastSteps := by
  obtain ⟨⟨past, p⟩, hrun⟩ : ∃ run, (initial 0).schedule stopBeforeBlocking = some run := ⟨_, rfl⟩
  obtain ⟨⟨later, p'⟩, hlater⟩ : ∃ run, p.schedule afterStop = some run := by
    cases hrun
    exact ⟨_, rfl⟩
  have hstopped : p.running = false := by
    cases hrun
    rfl
  have hnostart : ∀ q ∈ later, q.2 ≠ .start := by
    cases hrun
    cases hlater
    simp
  refine ⟨past, later, p, p', hrun, hlater, ?_, ?_, ?_⟩
  · cases hrun
    cases hlater
    rfl
  · cases hrun
    cases hlater
    rfl
  · exact (stop_is_final (trace_of_schedule hrun) hstopped (trace_of_schedule hlater)
      hnostart).2.2.1

/-! ### Nothing is stuck -/

/-- A step inside a section is a step of the process. -/
theorem Coherent.object_step (h : p.Coherent)
    {x : SectionLabel (Option ι) LockedCall DbReturn}
    {o : LockedObject.State DbAccess DbAccess.Reply Database TimePoint LockedCall DbReturn
      (Option ι)}
    (hstep : databaseObject.Step p.object x o) (hinner : x.visible = none) :
    Step p (.object x) { p with object := o } := by
  by_cases hthread : x.thread = some none
  · refine .inScan (h.scanning.mpr fun hidle => ?_) hthread hinner hstep
    -- a thread outside can only call
    cases hstep with
    | call | ret => cases hinner
    | tick => cases hthread
    | lock hplace | lockShared hplace | access hplace | unlock hplace =>
      obtain rfl := Option.some.inj hthread
      rw [hidle] at hplace
      cases hplace
  · refine .method hthread (fun i hcall => ?_) hstep
    rw [hcall] at hinner
    cases hinner

/-- A run inside the sections is a run of the process. -/
theorem Coherent.object_trace (h : p.Coherent)
    {o : LockedObject.State DbAccess DbAccess.Reply Database TimePoint LockedCall DbReturn
      (Option ι)}
    {steps : List (LockedObject.State DbAccess DbAccess.Reply Database TimePoint LockedCall
      DbReturn (Option ι) × SectionLabel (Option ι) LockedCall DbReturn)}
    (htrace : Trace databaseObject.Step p.object steps o) (hinner : callHistory steps = []) :
    ∃ later, Trace Step p later { p with object := o } ∧
      ∀ q ∈ later, q.2.isContinuation = true := by
  induction htrace with
  | nil => exact ⟨[], .nil, by simp⟩
  | @snoc steps o o' x _ hstep ih =>
    rw [callHistory_snoc, List.append_eq_nil_iff] at hinner
    obtain ⟨later, hlater, hcalls⟩ := ih hinner.1
    have hx : x.visible = none := by simpa using hinner.2
    have hq : Coherent { p with object := o } := h.trace hlater
    refine ⟨_, hlater.snoc (hq.object_step hstep hx), fun q hmem => ?_⟩
    rcases List.mem_append.mp hmem with hmem | hmem
    · exact hcalls q hmem
    · obtain rfl := List.mem_singleton.mp hmem
      cases x with
      | call => cases hx
      | _ => rfl

/-- From here, the process can come to such a state by itself. -/
def CanReach (p : Process ι) (P : Process ι → Prop) : Prop :=
  ∃ later p', Trace Step p later p' ∧ (∀ q ∈ later, q.2.isContinuation = true) ∧ P p'

theorem CanReach.refl {P : Process ι → Prop} (h : P p) : p.CanReach P :=
  ⟨[], p, .nil, by simp, h⟩

/-- A continuation, and then another. -/
theorem CanReach.trans {P Q : Process ι → Prop} (h : p.CanReach P)
    (hP : ∀ q, P q → q.CanReach Q) : p.CanReach Q := by
  obtain ⟨later, q, htrace, hcalls, hq⟩ := h
  obtain ⟨later', r, htrace', hcalls', hr⟩ := hP q hq
  refine ⟨_, r, htrace.append htrace', fun x hx => ?_, hr⟩
  rcases List.mem_append.mp hx with hx | hx
  · exact hcalls x hx
  · exact hcalls' x hx

/-- One step, and then others. -/
theorem CanReach.step {P : Process ι → Prop} (hstep : Step p e p')
    (he : e.isContinuation = true) (h : p'.CanReach P) : p.CanReach P := by
  obtain ⟨later, q, htrace, hcalls, hq⟩ := h
  refine ⟨_, q, htrace.cons hstep, fun x hx => ?_, hq⟩
  rcases List.mem_cons.mp hx with rfl | hx
  · exact he
  · exact hcalls x hx

/-- A call under way can take effect. -/
theorem Coherent.can_leave (h : p.Coherent) {i : Option ι} {c : LockedCall}
    (hplace : (p.object.place i).pending = .called c) :
    p.CanReach fun q => q.Coherent ∧ q.running = p.running ∧ q.loop = p.loop ∧
      q.owner = p.owner ∧ ∃ v, q.object.place i = .leaving v := by
  obtain ⟨steps, o, v, htrace, hinner, hv⟩ := LockedObject.exists_leaving h.locked hplace
  obtain ⟨later, hlater, hcalls⟩ := h.object_trace htrace hinner
  exact ⟨later, _, hlater, hcalls, h.trace hlater, rfl, rfl, rfl, v, hv⟩

/-- The background thread can finish its scan. -/
theorem Coherent.can_finish_scan (h : p.Coherent) (hloop : p.loop = .scanning) :
    p.CanReach fun q => q.loop = .loopTest ∧ q.owner = p.owner ∧ q.running = p.running := by
  have hleave : p.CanReach fun q => q.running = p.running ∧ q.loop = .scanning ∧
      q.owner = p.owner ∧ ∃ v, q.object.place none = .leaving v := by
    have hne := h.scanning.mp hloop
    cases hplace : p.object.place none with
    | idle => exact absurd hplace hne
    | leaving v => exact .refl ⟨rfl, hloop, rfl, v, hplace⟩
    | waiting c | inside c code =>
      refine (h.can_leave (i := none) (c := c) (by rw [hplace]; rfl)).trans ?_
      rintro q ⟨-, hrunning, hq, howner, hv⟩
      exact .refl ⟨hrunning, hq.trans hloop, howner, hv⟩
  refine hleave.trans ?_
  rintro q ⟨hrunning, hq, howner, v, hv⟩
  exact .step (.scanned hq (.ret hv)) rfl (.refl ⟨rfl, howner, hrunning⟩)

/-- The background thread can come to its end, while the owner waits and the flag is cleared. -/
def CanEnd (p : Process ι) : Prop :=
  p.CanReach fun q => q.loop = .ended ∧ q.owner = p.owner ∧ q.running = false

theorem CanEnd.step (hstep : Step p e p') (he : e.isContinuation = true)
    (howner : p'.owner = p.owner) (h : p'.CanEnd) : p.CanEnd := by
  unfold CanEnd at h ⊢
  rw [howner] at h
  exact CanReach.step hstep he h

section Ends

variable (hrunning : p.running = false)
include hrunning

/-- The condition of the loop fails. -/
theorem canEnd_of_loopTest (hloop : p.loop = .loopTest) : p.CanEnd := by
  refine CanReach.step (.loopTest hloop) rfl (.refl ⟨?_, rfl, hrunning⟩)
  simp [hrunning]

/-- The loop is left by `break`. -/
theorem canEnd_of_breakTest (hloop : p.loop = .breakTest) : p.CanEnd :=
  CanReach.step (.breakOff hloop hrunning) rfl (.refl ⟨rfl, rfl, hrunning⟩)

/-- The condition of the wait is met. -/
theorem canEnd_of_waitTest {limit : TimePoint} (hloop : p.loop = .waitTest limit) :
    p.CanEnd := by
  refine .step (.waitTest hloop) rfl rfl (canEnd_of_breakTest hrunning ?_)
  simp [hrunning]

/-- The notification may have been lost, but the time limit comes. -/
theorem canEnd_of_blocked {limit : TimePoint} (hloop : p.loop = .blocked limit) : p.CanEnd := by
  have htick : Step p (.object .tick)
      { p with object := { p.object with clock := max p.object.clock limit } } :=
    .method nofun nofun (.tick (le_max_left _ _))
  exact .step htick rfl rfl (.step (.timeout hloop (le_max_right _ _)) rfl rfl
    (.step (.waited rfl) rfl rfl (canEnd_of_breakTest hrunning rfl)))

/-- A scan that is under way is finished first. -/
theorem Coherent.canEnd_of_scanning (h : p.Coherent) (hloop : p.loop = .scanning) :
    p.CanEnd := by
  refine (h.can_finish_scan hloop).trans ?_
  rintro q ⟨hq, howner, hstopped⟩
  exact howner ▸ canEnd_of_loopTest (hstopped.trans hrunning) hq

/-- Once the flag is cleared, the background thread can come to its end. -/
theorem Coherent.canEnd (h : p.Coherent) (hloop : p.loop ≠ .absent) : p.CanEnd := by
  cases hp : p.loop with
  | absent => exact absurd hp hloop
  | ended => exact CanReach.refl ⟨hp, rfl, hrunning⟩
  | loopTest => exact canEnd_of_loopTest hrunning hp
  | breakTest => exact canEnd_of_breakTest hrunning hp
  | entering => exact .step (.enter hp) rfl rfl (canEnd_of_waitTest hrunning rfl)
  | waitTest => exact canEnd_of_waitTest hrunning hp
  | blocking => exact .step (.block hp) rfl rfl (canEnd_of_blocked hrunning rfl)
  | blocked => exact canEnd_of_blocked hrunning hp
  | timedOut => exact .step (.waited hp) rfl rfl (canEnd_of_breakTest hrunning rfl)
  | decided =>
    have hcall : Step p (.object (.call none .scan))
        { p with object := p.object.move none (.waiting .scan), loop := .scanning } :=
      .scan hp (.call _ (h.place_eq_idle (by simp [hp])))
    exact .step hcall rfl rfl ((h.step hcall).canEnd_of_scanning hrunning rfl)
  | scanning => exact h.canEnd_of_scanning hrunning hp

end Ends

/-- The owner can join the thread. -/
theorem Coherent.can_join (h : p.Coherent) (howner : p.owner = .joining) :
    p.CanReach fun q => q.owner = .idle ∧ q.running = false ∧ q.loop = .absent := by
  have hfits := h.owner
  rw [howner] at hfits
  refine (h.canEnd hfits.1 hfits.2).trans ?_
  rintro q ⟨hq, hjoining, hrunning⟩
  exact .step (.join (hjoining.trans howner) hq) rfl (.refl ⟨rfl, hrunning, rfl⟩)

/-- The owner can notify and then join. -/
theorem Coherent.can_notify (h : p.Coherent) (howner : p.owner = .notifying) :
    p.CanReach fun q => q.owner = .idle ∧ q.running = false ∧ q.loop = .absent :=
  .step (.notify howner) rfl ((h.step (.notify howner)).can_join rfl)

/-- Nothing is stuck: in every reachable state, a call under way can take effect and
`stop_expiry_thread` can return, without any further call and without a wake-up by chance. -/
theorem nothing_is_stuck {now : TimePoint} {past : List (Process ι × Label ι)}
    (h : Trace Step (initial now) past p) :
    (∀ i c, (p.object.place i).pending = .called c →
      p.CanReach fun q => ∃ v, q.object.place i = .leaving v) ∧
    (p.owner = .clearing ∨ p.owner = .notifying ∨ p.owner = .joining →
      p.CanReach fun q => q.owner = .idle ∧ q.running = false ∧ q.loop = .absent) := by
  have hp : p.Coherent := (coherent_initial now).trace h
  constructor
  · intro i c hplace
    refine (hp.can_leave hplace).trans ?_
    rintro q ⟨-, -, -, -, hv⟩
    exact .refl hv
  · rintro (howner | howner | howner)
    · exact .step (.clear howner) rfl ((hp.step (.clear howner)).can_notify rfl)
    · exact hp.can_notify howner
    · exact hp.can_join howner

/-- The background thread has the mutex, a method waits for it, and the owner waits for the
thread. -/
def everyoneWaits : List (Choice ℕ) :=
  [.start, .owner, .background false, .background false, .background false, .background false,
    .tick 100000000, .background true, .background false, .background false, .background false,
    .background false, .call 0 (.op .dbsize), .stop, .owner, .owner]

/-- All of them can go on. -/
theorem nothing_is_stuck_everyoneWaits :
    ∃ past p, (initial 0).schedule everyoneWaits = some (past, p) ∧
      p.object.mutex.writer = some none ∧
      (p.CanReach fun q => ∃ v, q.object.place (some 0) = .leaving v) ∧
      p.CanReach fun q => q.owner = .idle ∧ q.running = false ∧ q.loop = .absent := by
  obtain ⟨⟨past, p⟩, hrun⟩ : ∃ run, (initial 0).schedule everyoneWaits = some run := ⟨_, rfl⟩
  obtain ⟨hcalls, hstop⟩ := nothing_is_stuck (trace_of_schedule hrun)
  refine ⟨past, p, hrun, ?_, hcalls (some 0) (.op .dbsize) ?_, hstop (Or.inr (Or.inr ?_))⟩ <;>
    cases hrun <;> rfl

end Process

end MyRedis
