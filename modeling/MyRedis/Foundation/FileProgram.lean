import Mathlib.Logic.Function.Basic
import MyRedis.Foundation.ByteString

/-!
# Programs over a file system that may fail or stop

A `FileProgram` performs one file-system request after the other and decides by the answers how to
go on.  It is run against a list of outcomes chosen by the environment, one for each request: an
outcome says whether the request succeeds and, where a partial effect is possible, how much of it
takes place.  When the outcomes run out the process has died between two requests, so that a
statement over all lists of outcomes covers every pattern of failures and every crash point.

Output streams are buffered: written data is pending in the process until it is drained to the
file, at any time and in any portions until the stream is flushed or closed, and what is still
pending is lost with the process.
-/

namespace Foundation

/-! ### Requests -/

/-- The requests to the file system. -/
inductive FileRequest (P : Type) where
  /-- Open an output stream on an emptied or new file. -/
  | openTrunc (path : P)
  /-- Open an output stream at the end of a file. -/
  | openAppend (path : P)
  /-- Write to the open output stream. -/
  | write (path : P) (data : Bytes)
  /-- Flush the open output stream. -/
  | flush (path : P)
  /-- Close the open output stream. -/
  | close (path : P)
  /-- Open the file at its end and ask for the position. -/
  | fileSize (path : P)
  /-- Open the file and read what it delivers. -/
  | readFile (path : P)
  /-- Remove the file. -/
  | remove (path : P)
  /-- Give the file another name, replacing what has that name. -/
  | rename (path newPath : P)
deriving DecidableEq

/-- The type of the answer to a request. -/
abbrev FileRequest.Answer {P : Type} : FileRequest P → Type
  | .openTrunc _ => Bool
  | .openAppend _ => Bool
  | .write _ _ => Bool
  | .flush _ => Bool
  | .close _ => Bool
  | .fileSize _ => Option ℕ
  | .readFile _ => Option Bytes
  | .remove _ => Bool
  | .rename _ _ => Bool

/-- What the environment decides about one request. -/
structure Outcome where
  /-- Whether the request succeeds. -/
  ok : Bool
  /-- How much of a partial effect takes place. -/
  amount : ℕ
deriving DecidableEq

/-- The files, and what is pending in the output streams of the process. -/
structure Disk (P : Type) where
  /-- The contents of the files that exist. -/
  files : P → Option Bytes
  /-- The bytes written to an output stream that have not reached the file. -/
  pending : P → Bytes

namespace Disk

variable {P : Type} [DecidableEq P]

/-- Move the first `n` pending bytes of a stream to its file. -/
def drain (d : Disk P) (path : P) (n : ℕ) : Disk P where
  files := Function.update d.files path ((d.files path).map (· ++ (d.pending path).take n))
  pending := Function.update d.pending path ((d.pending path).drop n)

/-- Replace the contents of one file; no stream is open on it. -/
def setFile (d : Disk P) (path : P) (contents : Option Bytes) : Disk P where
  files := Function.update d.files path contents
  pending := Function.update d.pending path []

/-- Add bytes to the pending ones of a stream. -/
def buffer (d : Disk P) (path : P) (data : Bytes) : Disk P :=
  { d with pending := Function.update d.pending path (d.pending path ++ data) }

@[simp] theorem drain_files_self (d : Disk P) (path : P) (n : ℕ) :
    (d.drain path n).files path = (d.files path).map (· ++ (d.pending path).take n) :=
  Function.update_self _ _ _

@[simp] theorem drain_pending_self (d : Disk P) (path : P) (n : ℕ) :
    (d.drain path n).pending path = (d.pending path).drop n :=
  Function.update_self _ _ _

@[simp] theorem setFile_files_self (d : Disk P) (path : P) (contents : Option Bytes) :
    (d.setFile path contents).files path = contents :=
  Function.update_self _ _ _

@[simp] theorem setFile_pending_self (d : Disk P) (path : P) (contents : Option Bytes) :
    (d.setFile path contents).pending path = [] :=
  Function.update_self _ _ _

@[simp] theorem buffer_pending_self (d : Disk P) (path : P) (data : Bytes) :
    (d.buffer path data).pending path = d.pending path ++ data :=
  Function.update_self _ _ _

/-- Drain a stream as far as the outcome says: completely, if it succeeds. -/
def sync (d : Disk P) (path : P) (o : Outcome) : Disk P :=
  d.drain path (if o.ok then (d.pending path).length else o.amount)

/-- After a successful flush nothing is pending. -/
theorem sync_pending {path : P} {o : Outcome} (ho : o.ok = true) (d : Disk P) :
    (d.sync path o).pending path = [] := by
  rw [sync, drain_pending_self, if_pos ho, List.drop_length]

/-- The answer to a request and its effect, as the outcome decides. -/
def perform (o : Outcome) : (q : FileRequest P) → Disk P → q.Answer × Disk P
  | .openTrunc path, d => if o.ok then (true, d.setFile path (some [])) else (false, d)
  | .openAppend path, d =>
    if o.ok then (true, d.setFile path (some ((d.files path).getD []))) else (false, d)
  | .write path data, d => (o.ok, (d.buffer path data).drain path o.amount)
  | .flush path, d => (o.ok, d.sync path o)
  | .close path, d => (o.ok, (d.sync path o).setFile path ((d.sync path o).files path))
  | .fileSize path, d => (if o.ok then (d.files path).map List.length else none, d)
  | .readFile path, d =>
    -- on failure the file is not opened, or only a front part of it is delivered
    (if o.ok then d.files path
      else if o.amount = 0 then none else (d.files path).map (List.take (o.amount - 1)), d)
  | .remove path, d =>
    if o.ok && (d.files path).isSome then (true, d.setFile path none) else (false, d)
  | .rename path newPath, d =>
    if o.ok && (d.files path).isSome then
      (true, (d.setFile newPath (d.files path)).setFile path none)
    else (false, d)

/-- Closing a stream with nothing pending leaves the file as it is, even if it fails. -/
theorem close_files_of_pending_nil {path : P} {d : Disk P} (h : d.pending path = [])
    (o : Outcome) : (d.perform o (.close path)).2.files path = d.files path := by
  change ((d.sync path o).setFile path _).files path = d.files path
  rw [setFile_files_self, sync, drain_files_self, h, List.take_nil]
  simp

end Disk

/-- The file that a request may change. -/
def FileRequest.Touches {P : Type} : FileRequest P → P → Prop
  | .fileSize _, _ => False
  | .readFile _, _ => False
  | .openTrunc path, p => path = p
  | .openAppend path, p => path = p
  | .write path _, p => path = p
  | .flush path, p => path = p
  | .close path, p => path = p
  | .remove path, p => path = p
  | .rename path newPath, p => path = p ∨ newPath = p

/-! ### Programs -/

/-- A program that performs requests. -/
inductive FileProgram (P : Type) (α : Type) where
  /-- The program has returned. -/
  | done (a : α)
  /-- A request, and how to go on with its answer. -/
  | request (q : FileRequest P) (next : q.Answer → FileProgram P α)

namespace FileProgram

variable {P α β : Type}

/-- Go on with another program. -/
def bind : FileProgram P α → (α → FileProgram P β) → FileProgram P β
  | done a, f => f a
  | request q next, f => request q fun answer => (next answer).bind f

instance : Monad (FileProgram P) where
  pure := done
  bind := bind

/-- Perform one request. -/
def perform (q : FileRequest P) : FileProgram P q.Answer :=
  request q done

/-! ### Files that a program leaves alone -/

/-- No request of the program, whatever the answers, touches the file. -/
def Avoids (path : P) : FileProgram P α → Prop
  | done _ => True
  | request q next => ¬ q.Touches path ∧ ∀ answer, (next answer).Avoids path

theorem avoids_pure (path : P) (a : α) : (pure a : FileProgram P α).Avoids path := trivial

/-- A first request that does not touch the file. -/
theorem avoids_perform_bind {path : P} {q : FileRequest P} {f : q.Answer → FileProgram P β}
    (hq : ¬ q.Touches path) (hf : ∀ answer, (f answer).Avoids path) :
    (perform q >>= f).Avoids path := ⟨hq, hf⟩

/-- Both parts of a composed program avoid the file. -/
theorem avoids_bind {path : P} {p : FileProgram P α} {f : α → FileProgram P β}
    (hp : p.Avoids path) (hf : ∀ a, (f a).Avoids path) : (p >>= f).Avoids path := by
  induction p with
  | done a => exact hf a
  | request q next ih => exact ⟨hp.1, fun answer => ih answer (hp.2 answer)⟩

/-! ### Values that a program returns -/

/-- Every value that the program returns, whatever the answers, has the property. -/
def Returns (post : α → Prop) : FileProgram P α → Prop
  | done a => post a
  | request _ next => ∀ answer, (next answer).Returns post

theorem returns_pure {post : α → Prop} {a : α} (h : post a) :
    (pure a : FileProgram P α).Returns post := h

/-- A request does not matter for the value returned. -/
theorem returns_perform_bind {post : β → Prop} {q : FileRequest P}
    {f : q.Answer → FileProgram P β} (hf : ∀ answer, (f answer).Returns post) :
    (perform q >>= f).Returns post := hf

/-! ### Running a program -/

variable [DecidableEq P]

/-- Run a program against the outcomes.  The result is the value returned with the outcomes that
are left, or `none` if the process died because there was no further outcome. -/
def run : FileProgram P α → List Outcome → Disk P → Option (α × List Outcome) × Disk P
  | done a, outcomes, d => (some (a, outcomes), d)
  | request _ _, [], d => (none, d)
  | request q next, o :: outcomes, d => (next (d.perform o q).1).run outcomes (d.perform o q).2

/-- Run a program in a process that lives on; `outcomes` are those of all requests to come. -/
def eval : FileProgram P α → (ℕ → Outcome) → Disk P → α × (ℕ → Outcome) × Disk P
  | done a, outcomes, d => (a, outcomes, d)
  | request q next, outcomes, d =>
    (next (d.perform (outcomes 0) q).1).eval (fun i => outcomes (i + 1))
      (d.perform (outcomes 0) q).2

/-- What happens after a first program has stopped. -/
def continueWith (f : α → FileProgram P β) :
    Option (α × List Outcome) × Disk P → Option (β × List Outcome) × Disk P
  | (none, d) => (none, d)
  | (some (a, outcomes), d) => (f a).run outcomes d

/-! ### Running composed programs -/

/-- A composed program is run part by part. -/
theorem run_bind (p : FileProgram P α) (f : α → FileProgram P β) (outcomes : List Outcome)
    (d : Disk P) : (p >>= f).run outcomes d = continueWith f (p.run outcomes d) := by
  induction p generalizing outcomes d with
  | done a => rfl
  | request q next ih =>
    cases outcomes with
    | nil => rfl
    | cons o outcomes => exact ih _ outcomes _

/-- A program that returns got an outcome for its first request. -/
theorem run_perform_bind_eq_some {q : FileRequest P} {f : q.Answer → FileProgram P β}
    {outcomes rest : List Outcome} {d d' : Disk P} {b : β} :
    (perform q >>= f).run outcomes d = (some (b, rest), d') ↔
      ∃ o later, outcomes = o :: later ∧
        (f (d.perform o q).1).run later (d.perform o q).2 = (some (b, rest), d') := by
  constructor
  · intro h
    cases outcomes with
    | nil => cases h
    | cons o later => exact ⟨o, later, rfl, h⟩
  · rintro ⟨o, later, rfl, h⟩
    exact h

/-- A composed program that returns did so part by part. -/
theorem run_bind_eq_some {p : FileProgram P α} {f : α → FileProgram P β}
    {outcomes rest : List Outcome} {d d' : Disk P} {b : β} :
    (p >>= f).run outcomes d = (some (b, rest), d') ↔
      ∃ a middle d₁, p.run outcomes d = (some (a, middle), d₁) ∧
        (f a).run middle d₁ = (some (b, rest), d') := by
  rw [run_bind]
  constructor
  · intro h
    rcases hp : p.run outcomes d with ⟨_ | ⟨a, middle⟩, d₁⟩
    · rw [hp] at h
      cases h
    · rw [hp] at h
      exact ⟨a, middle, d₁, rfl, h⟩
  · rintro ⟨a, middle, d₁, hp, hf⟩
    rw [hp]
    exact hf

/-- A run returns only values that the program can return. -/
theorem Returns.of_run {post : α → Prop} {p : FileProgram P α} (hp : p.Returns post)
    {outcomes rest : List Outcome} {d d' : Disk P} {a : α}
    (h : p.run outcomes d = (some (a, rest), d')) : post a := by
  induction p generalizing outcomes d with
  | done b =>
    cases h
    exact hp
  | request q next ih =>
    cases outcomes with
    | nil => cases h
    | cons o outcomes => exact ih _ (hp _) h

/-- An early return of `false` is not taken in a run that returns `true`. -/
theorem run_guard_eq_true {b : Bool} {early p : FileProgram P Bool}
    (hearly : early.Returns (· = false)) {outcomes rest : List Outcome} {d d' : Disk P} :
    (if !b then early else p).run outcomes d = (some (true, rest), d') ↔
      b = true ∧ p.run outcomes d = (some (true, rest), d') := by
  cases b with
  | true => exact ⟨fun h => ⟨rfl, h⟩, fun h => h.2⟩
  | false =>
    constructor
    · intro h
      have hfalse : true = false := hearly.of_run h
      cases hfalse
    · rintro ⟨hfalse, _⟩
      cases hfalse

/-! ### Runs in which nothing fails -/

/-- If no request fails and the process lives for `n` of them, the program returns after exactly
`n` requests, with a value and a disk that meet the postcondition. -/
def Succeeds (n : ℕ) (p : FileProgram P α) (d : Disk P) (post : α → Disk P → Prop) : Prop :=
  ∀ outcomes : List Outcome, n ≤ outcomes.length → (∀ o ∈ outcomes, o.ok = true) →
    ∃ a d', p.run outcomes d = (some (a, outcomes.drop n), d') ∧ post a d'

theorem succeeds_pure {a : α} {d : Disk P} {post : α → Disk P → Prop} (h : post a d) :
    (pure a : FileProgram P α).Succeeds 0 d post :=
  fun _ _ _ => ⟨a, d, rfl, h⟩

/-- A request that succeeds. -/
theorem succeeds_perform {q : FileRequest P} {d : Disk P} {post : q.Answer → Disk P → Prop}
    (h : ∀ o : Outcome, o.ok = true → post (d.perform o q).1 (d.perform o q).2) :
    (perform q).Succeeds 1 d post := by
  intro outcomes hlen hok
  cases outcomes with
  | nil => simp at hlen
  | cons o outcomes => exact ⟨_, _, rfl, h o (hok o List.mem_cons_self)⟩

/-- The parts of a composed program succeed one after the other. -/
theorem succeeds_bind {n m : ℕ} {p : FileProgram P α} {f : α → FileProgram P β} {d : Disk P}
    (mid : α → Disk P → Prop) {post : β → Disk P → Prop} (hp : p.Succeeds n d mid)
    (hf : ∀ a d', mid a d' → (f a).Succeeds m d' post) : (p >>= f).Succeeds (n + m) d post := by
  intro outcomes hlen hok
  obtain ⟨a, d₁, hrun, hmid⟩ := hp outcomes (by omega) hok
  have hrest : m ≤ (outcomes.drop n).length := by
    rw [List.length_drop]
    omega
  obtain ⟨b, d₂, hrun', hpost⟩ :=
    hf a d₁ hmid (outcomes.drop n) hrest fun o ho => hok o (List.mem_of_mem_drop ho)
  refine ⟨b, d₂, ?_, hpost⟩
  rw [run_bind, hrun, ← List.drop_drop]
  exact hrun'

/-- Further outcomes do not change a run that has returned. -/
theorem run_append {p : FileProgram P α} {outcomes rest : List Outcome} {d d' : Disk P} {a : α}
    (h : p.run outcomes d = (some (a, rest), d')) (more : List Outcome) :
    p.run (outcomes ++ more) d = (some (a, rest ++ more), d') := by
  induction p generalizing outcomes d with
  | done b =>
    cases h
    rfl
  | request q next ih =>
    cases outcomes with
    | nil => cases h
    | cons o outcomes => exact ih _ h

/-- A program in a process that lives on makes a run that returns, with as many of the outcomes as
it needs. -/
theorem exists_run_eq_eval (p : FileProgram P α) (outcomes : ℕ → Outcome) (d : Disk P) :
    ∃ n, p.run ((List.range n).map outcomes) d =
        (some ((p.eval outcomes d).1, []), (p.eval outcomes d).2.2) ∧
      (p.eval outcomes d).2.1 = fun i => outcomes (n + i) := by
  induction p generalizing outcomes d with
  | done a => exact ⟨0, rfl, by simp [eval]⟩
  | request q next ih =>
    obtain ⟨n, hrun, hrest⟩ := ih _ (fun i => outcomes (i + 1)) (d.perform (outcomes 0) q).2
    refine ⟨n + 1, ?_, ?_⟩
    · rw [List.range_succ_eq_map, List.map_cons, List.map_map]
      exact hrun
    · rw [eval, hrest]
      funext i
      rw [Nat.add_right_comm]

/-- A run without failures that returns meets the postcondition. -/
theorem Succeeds.of_run {n : ℕ} {p : FileProgram P α} {d d' : Disk P} {post : α → Disk P → Prop}
    (hp : p.Succeeds n d post) {outcomes rest : List Outcome} {a : α}
    (hok : ∀ o ∈ outcomes, o.ok = true) (hrun : p.run outcomes d = (some (a, rest), d')) :
    post a d' := by
  -- the run does not change if it is given enough outcomes for `hp`
  have hlong := run_append hrun (List.replicate n ⟨true, 0⟩)
  obtain ⟨b, d₁, hrun', hpost⟩ := hp (outcomes ++ List.replicate n ⟨true, 0⟩)
    (by rw [List.length_append, List.length_replicate]; exact Nat.le_add_left _ _) (by
      intro o ho
      rcases List.mem_append.mp ho with ho | ho
      · exact hok o ho
      · rw [List.eq_of_mem_replicate ho])
  rw [hlong, Prod.mk.injEq, Option.some.injEq, Prod.mk.injEq] at hrun'
  obtain ⟨⟨rfl, -⟩, rfl⟩ := hrun'
  exact hpost

end FileProgram

/-- Draining a stream changes only its own file. -/
theorem Disk.drain_files_of_ne {P : Type} [DecidableEq P] {path p : P} (h : path ≠ p) (d : Disk P)
    (n : ℕ) : (d.drain path n).files p = d.files p :=
  Function.update_of_ne (Ne.symm h) _ _

/-- Setting a file changes only that file. -/
theorem Disk.setFile_files_of_ne {P : Type} [DecidableEq P] {path p : P} (h : path ≠ p)
    (d : Disk P) (contents : Option Bytes) : (d.setFile path contents).files p = d.files p :=
  Function.update_of_ne (Ne.symm h) _ _

/-- A request changes only files that it touches. -/
theorem Disk.perform_files {P : Type} [DecidableEq P] {path : P} {q : FileRequest P}
    (h : ¬ q.Touches path) (o : Outcome) (d : Disk P) :
    (d.perform o q).2.files path = d.files path := by
  cases q with
  | openTrunc p =>
    simp only [perform]
    split
    · exact setFile_files_of_ne h d _
    · rfl
  | openAppend p =>
    simp only [perform]
    split
    · exact setFile_files_of_ne h d _
    · rfl
  | write p data => exact drain_files_of_ne h (d.buffer p data) _
  | flush p => exact drain_files_of_ne h d _
  | close p =>
    change ((d.sync p o).setFile p ((d.sync p o).files p)).files path = d.files path
    rw [setFile_files_of_ne h]
    exact drain_files_of_ne h d _
  | fileSize p => rfl
  | readFile p => rfl
  | remove p =>
    simp only [perform]
    split
    · exact setFile_files_of_ne h d _
    · rfl
  | rename p p' =>
    obtain ⟨hp, hp'⟩ := not_or.mp h
    simp only [perform]
    split
    · exact (setFile_files_of_ne hp _ none).trans (setFile_files_of_ne hp' d _)
    · rfl

/-- A program leaves the files that it avoids as they are, wherever it stops. -/
theorem FileProgram.run_files_of_avoids {P α : Type} [DecidableEq P] {path : P}
    {p : FileProgram P α} (hp : p.Avoids path) (outcomes : List Outcome) (d : Disk P) :
    (p.run outcomes d).2.files path = d.files path := by
  induction p generalizing outcomes d with
  | done a => rfl
  | request q next ih =>
    cases outcomes with
    | nil => rfl
    | cons o outcomes =>
      exact (ih _ (hp.2 _) outcomes _).trans (Disk.perform_files hp.1 o d)

/-! ### Output streams -/

/-- The file and what is pending for it make up `content`. -/
def Disk.Holds {P : Type} (path : P) (content : Bytes) (d : Disk P) : Prop :=
  ∃ front, d.files path = some front ∧ front ++ d.pending path = content

namespace Disk.Holds

variable {P : Type} [DecidableEq P] {path : P} {content : Bytes} {d : Disk P}

/-- A freshly set file without pending bytes. -/
theorem setFile (d : Disk P) (path : P) (content : Bytes) :
    (d.setFile path (some content)).Holds path content := by
  refine ⟨content, setFile_files_self d path _, ?_⟩
  rw [setFile_pending_self, List.append_nil]

/-- Draining moves bytes from the stream to the file. -/
theorem drain (h : d.Holds path content) (n : ℕ) : (d.drain path n).Holds path content := by
  obtain ⟨front, hfile, hcontent⟩ := h
  refine ⟨front ++ (d.pending path).take n, ?_, ?_⟩
  · rw [drain_files_self, hfile]
    rfl
  · rw [drain_pending_self, List.append_assoc, List.take_append_drop]
    exact hcontent

/-- A write adds to the content. -/
theorem write (h : d.Holds path content) (o : Outcome) (data : Bytes) :
    (d.perform o (.write path data)).2.Holds path (content ++ data) := by
  obtain ⟨front, hfile, hcontent⟩ := h
  have hbuffer : (d.buffer path data).Holds path (content ++ data) := by
    refine ⟨front, hfile, ?_⟩
    rw [buffer_pending_self, ← List.append_assoc, hcontent]
  exact hbuffer.drain o.amount

/-- A successful flush or close has drained everything. -/
theorem files_sync (h : d.Holds path content) {o : Outcome} (ho : o.ok = true) :
    (d.sync path o).files path = some content := by
  obtain ⟨front, hfile, hcontent⟩ := h
  unfold Disk.sync
  rw [if_pos ho, drain_files_self, hfile, List.take_length, ← hcontent]
  rfl

/-- A successful close leaves the content in the file. -/
theorem close (h : d.Holds path content) {o : Outcome} (ho : o.ok = true) :
    (d.perform o (.close path)).2.files path = some content := by
  change ((d.sync path o).setFile path _).files path = some content
  rw [h.files_sync ho, setFile_files_self]

end Disk.Holds

end Foundation
