import MyRedis.Resp.Indexed
import MyRedis.Server.Basic

/-!
# The end of the read loop

The loop of `process_client` goes on as long as there is something in the read buffer.  It is left
in the middle for several reasons, and it also goes on behind a request for more bytes, if this
request consumed something.  `LoopEnds` says how the loop can come to an end, round by round, with
the parser and the flags of the source (`Resp.Indexed.parseCommand`); a loop that goes on for ever
is not among the cases.

The parser reads nothing beside the buffer, sets exactly one flag, and what it consumes is in the
buffer.  So every round that does not leave the loop makes the buffer shorter, and the loop ends for
every content of the buffer (`Server.parsing_safe`).
-/

namespace MyRedis

open Foundation Resp

/-- Why the loop of `process_client` is left. -/
inductive StopReason where
  /-- The buffer is empty. -/
  | emptyBuffer
  /-- The bytes are malformed. -/
  | protocolError
  /-- The client said `QUIT`. -/
  | quit
  /-- The response could not be written. -/
  | failedWrite
  /-- More than 64 MiB are left in the buffer. -/
  | sizeGuard
  /-- The command is not complete, and nothing was consumed. -/
  | incomplete
  /-- The parser has set none of the flags. -/
  | noVerdict
deriving DecidableEq

section Loop

variable {σ : Type} (k : Consumer σ)

/-- The loop of `process_client`, started with a buffer and a state, is left after finitely many
rounds, for a reason and with a result: whether the connection is kept, what is left of the buffer,
and the state. -/
inductive LoopEnds : Bytes → σ → StopReason → Bool × Bytes × σ → Prop
  | emptyBuffer (s : σ) : LoopEnds [] s .emptyBuffer (true, [], s)
  | protocolError {buffer : Bytes} {raw : Indexed.RawResult} (s : σ) (hne : buffer ≠ [])
      (hparse : Indexed.parseCommand buffer = some raw) (herror : raw.protocolError = true) :
      LoopEnds buffer s .protocolError (false, buffer, k.reject s)
  | consumed {buffer : Bytes} {raw : Indexed.RawResult} {s : σ} {reason : StopReason}
      {result : Bool × Bytes × σ} (hne : buffer ≠ [])
      (hparse : Indexed.parseCommand buffer = some raw) (herror : raw.protocolError = false)
      (hmore : raw.needMore = true) (hbytes : 0 < raw.bytesConsumed)
      (hrest : LoopEnds (buffer.drop raw.bytesConsumed) s reason result) :
      LoopEnds buffer s reason result
  | incomplete {buffer : Bytes} {raw : Indexed.RawResult} (s : σ) (hne : buffer ≠ [])
      (hparse : Indexed.parseCommand buffer = some raw) (herror : raw.protocolError = false)
      (hmore : raw.needMore = true) (hbytes : ¬ 0 < raw.bytesConsumed) :
      LoopEnds buffer s .incomplete (true, buffer, s)
  | noVerdict {buffer : Bytes} {raw : Indexed.RawResult} (s : σ) (hne : buffer ≠ [])
      (hparse : Indexed.parseCommand buffer = some raw) (herror : raw.protocolError = false)
      (hmore : raw.needMore = false) (hok : raw.ok = false) :
      LoopEnds buffer s .noVerdict (true, buffer, s)
  | sizeGuard {buffer : Bytes} {raw : Indexed.RawResult} (s : σ) (hne : buffer ≠ [])
      (hparse : Indexed.parseCommand buffer = some raw) (herror : raw.protocolError = false)
      (hmore : raw.needMore = false) (hok : raw.ok = true)
      (hsize : maxBufferSize < (buffer.drop raw.bytesConsumed).length) :
      LoopEnds buffer s .sizeGuard (false, buffer.drop raw.bytesConsumed, s)
  | quit {buffer : Bytes} {raw : Indexed.RawResult} (s : σ) (hne : buffer ≠ [])
      (hparse : Indexed.parseCommand buffer = some raw) (herror : raw.protocolError = false)
      (hmore : raw.needMore = false) (hok : raw.ok = true)
      (hsize : ¬ maxBufferSize < (buffer.drop raw.bytesConsumed).length)
      (hname : raw.command.name = ascii "QUIT") :
      LoopEnds buffer s .quit (false, buffer.drop raw.bytesConsumed, k.quit s)
  | failedWrite {buffer : Bytes} {raw : Indexed.RawResult} (s : σ) (hne : buffer ≠ [])
      (hparse : Indexed.parseCommand buffer = some raw) (herror : raw.protocolError = false)
      (hmore : raw.needMore = false) (hok : raw.ok = true)
      (hsize : ¬ maxBufferSize < (buffer.drop raw.bytesConsumed).length)
      (hname : raw.command.name ≠ ascii "QUIT") (hwrite : (k.serve raw.command s).1 = false) :
      LoopEnds buffer s .failedWrite
        (false, buffer.drop raw.bytesConsumed, (k.serve raw.command s).2)
  | served {buffer : Bytes} {raw : Indexed.RawResult} {s : σ} {reason : StopReason}
      {result : Bool × Bytes × σ} (hne : buffer ≠ [])
      (hparse : Indexed.parseCommand buffer = some raw) (herror : raw.protocolError = false)
      (hmore : raw.needMore = false) (hok : raw.ok = true)
      (hsize : ¬ maxBufferSize < (buffer.drop raw.bytesConsumed).length)
      (hname : raw.command.name ≠ ascii "QUIT") (hwrite : (k.serve raw.command s).1 = true)
      (hrest : LoopEnds (buffer.drop raw.bytesConsumed) (k.serve raw.command s).2 reason result) :
      LoopEnds buffer s reason result

variable {k}

/-- The loop ends, with the result of `processBuffer`.  Every round that does not leave the loop
makes the buffer shorter. -/
theorem exists_loopEnds {fuel : ℕ} {buffer : Bytes} (hfuel : buffer.length ≤ fuel) (s : σ) :
    ∃ reason, reason ≠ .noVerdict ∧
      LoopEnds k buffer s reason (processBuffer k fuel buffer s) := by
  induction fuel generalizing buffer s with
  | zero =>
    obtain rfl := List.length_eq_zero_iff.mp (Nat.le_zero.mp hfuel)
    exact ⟨.emptyBuffer, StopReason.noConfusion, .emptyBuffer s⟩
  | succ fuel ih =>
    by_cases hne : buffer = []
    · rw [hne]
      exact ⟨.emptyBuffer, StopReason.noConfusion, .emptyBuffer s⟩
    have hdrop {n : ℕ} (hn : 0 < n) : (buffer.drop n).length ≤ fuel := by
      have hpos := List.length_pos_of_ne_nil hne
      rw [List.length_drop]
      omega
    obtain ⟨raw, hraw, hencodes, -⟩ := Indexed.safe_parseCommand buffer
    rw [processBuffer, if_neg hne]
    rcases hparse : parseCommand buffer with ⟨cmd, n⟩ | n | _
    · rw [hparse] at hencodes
      obtain rfl : raw = ⟨true, false, false, cmd, n⟩ := hencodes
      have hn := pos_of_parseCommand hparse
      simp only
      by_cases hsize : maxBufferSize < (buffer.drop n).length
      · rw [if_pos hsize]
        exact ⟨.sizeGuard, StopReason.noConfusion, .sizeGuard s hne hraw rfl rfl rfl hsize⟩
      rw [if_neg hsize]
      by_cases hname : cmd.name = ascii "QUIT"
      · rw [if_pos hname]
        exact ⟨.quit, StopReason.noConfusion, .quit s hne hraw rfl rfl rfl hsize hname⟩
      rw [if_neg hname]
      by_cases hwrite : (k.serve cmd s).1 = true
      · rw [if_pos hwrite]
        obtain ⟨reason, hreason, hrest⟩ := ih (hdrop hn) (k.serve cmd s).2
        exact ⟨reason, hreason, .served hne hraw rfl rfl rfl hsize hname hwrite hrest⟩
      · rw [if_neg hwrite]
        exact ⟨.failedWrite, StopReason.noConfusion,
          .failedWrite s hne hraw rfl rfl rfl hsize hname (Bool.eq_false_iff.mpr hwrite)⟩
    · rw [hparse] at hencodes
      obtain rfl : raw = ⟨false, true, false, Indexed.noCommand, n⟩ := hencodes
      simp only
      by_cases hn : 0 < n
      · rw [if_pos hn]
        obtain ⟨reason, hreason, hrest⟩ := ih (hdrop hn) s
        exact ⟨reason, hreason, .consumed hne hraw rfl rfl hn hrest⟩
      · rw [if_neg hn]
        exact ⟨.incomplete, StopReason.noConfusion, .incomplete s hne hraw rfl rfl hn⟩
    · rw [hparse] at hencodes
      obtain ⟨n, rfl⟩ := hencodes
      exact ⟨.protocolError, StopReason.noConfusion, .protocolError s hne hraw rfl⟩

end Loop

namespace Resp.Indexed

/-- Exactly one of the three flags is set. -/
def RawResult.OneFlag (raw : RawResult) : Prop :=
  (raw.ok, raw.needMore, raw.protocolError) ∈
    [(true, false, false), (false, true, false), (false, false, true)]

/-- A result of a verdict has one flag. -/
theorem RawResult.Encodes.oneFlag {raw : RawResult} {verdict : RespParseResult}
    (h : raw.Encodes verdict) : raw.OneFlag := by
  rcases verdict with ⟨cmd, n⟩ | n | _
  · obtain rfl : raw = ⟨true, false, false, cmd, n⟩ := h
    simp [OneFlag]
  · obtain rfl : raw = ⟨false, true, false, noCommand, n⟩ := h
    simp [OneFlag]
  · obtain ⟨n, rfl⟩ := h
    simp [OneFlag]

/-- A result with a command takes at least one byte. -/
theorem one_le_bytesConsumed {buffer : Bytes} {raw : RawResult}
    (h : raw.Encodes (Resp.parseCommand buffer)) (hok : raw.ok = true) : 1 ≤ raw.bytesConsumed := by
  rcases hparse : Resp.parseCommand buffer with ⟨cmd, n⟩ | n | _
  · rw [hparse] at h
    obtain rfl : raw = ⟨true, false, false, cmd, n⟩ := h
    exact pos_of_parseCommand hparse
  · rw [hparse] at h
    obtain rfl : raw = ⟨false, true, false, noCommand, n⟩ := h
    cases hok
  · rw [hparse] at h
    obtain ⟨n, rfl⟩ := h
    cases hok

end Resp.Indexed

namespace Server

/-- **Parsing is safe and makes progress.**  For every buffer the parser has a result without a read
beside the buffer.  Exactly one flag is set, no more than the buffer is consumed, and a command
consumes at least one byte.  The loop of `process_client` ends for every content of the buffer and
in every state, and the parser never leaves it without a verdict. -/
theorem parsing_safe (buffer : Bytes) :
    (∃ raw, Indexed.parseCommand buffer = some raw ∧ raw.Encodes (parseCommand buffer) ∧
      raw.OneFlag ∧ raw.bytesConsumed ≤ buffer.length ∧ (raw.ok = true → 1 ≤ raw.bytesConsumed)) ∧
    ∀ (fd : Socket) (s : Server), ∃ reason, reason ≠ .noVerdict ∧
      LoopEnds (consumer fd) buffer s reason
        (processBuffer (consumer fd) buffer.length buffer s) := by
  constructor
  · obtain ⟨raw, hraw, hencodes, hle⟩ := Indexed.safe_parseCommand buffer
    exact ⟨raw, hraw, hencodes, hencodes.oneFlag, hle, Indexed.one_le_bytesConsumed hencodes⟩
  · intro fd s
    exact exists_loopEnds le_rfl s

end Server

end MyRedis
