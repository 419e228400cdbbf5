import MyRedis.Server.Running

/-!
# The size of the read buffers

`process_client` gives a connection up if more than 64 MiB are left in its read buffer, but it tests
this only behind a complete command.  While a command is not complete the loop is left before the
test.  For an inline command this does no harm, because the parser itself refuses a line of more
than 64 KiB; an array, however, may go on without ever being completed.

Nothing else lets a buffer grow: in a run in which no array is still incomplete after 64 MiB, all
buffers stay within the limit (`Server.buffers_bounded`).
-/

namespace MyRedis

open Foundation Resp

namespace Resp

/-! ### Incomplete commands -/

/-- What is left of a buffer behind complete commands and blank lines. -/
inductive Behind : Bytes → Bytes → Prop
  | here (buffer : Bytes) : Behind buffer buffer
  | blank {buffer part : Bytes} {n : ℕ} (hparse : parseCommand buffer = .needMore n) (hn : 0 < n)
      (hrest : Behind (buffer.drop n) part) : Behind buffer part
  | command {buffer part : Bytes} {cmd : Command} {n : ℕ} (hparse : parseCommand buffer = .ok cmd n)
      (hrest : Behind (buffer.drop n) part) : Behind buffer part

/-- An array of which more bytes are needed. -/
def UnfinishedArray (part : Bytes) : Prop :=
  part.head? = some 42 ∧ parseCommand part = .needMore 0

/-- Nothing is added to the buffer. -/
theorem Behind.length_le {buffer part : Bytes} (h : Behind buffer part) :
    part.length ≤ buffer.length := by
  induction h with
  | here => exact le_rfl
  | blank _ _ _ ih | command _ _ ih => exact ih.trans (by simp)

/-- An inline command of which more bytes are needed is short. -/
theorem length_le_maxInlineLength {part : Bytes} (hmore : parseCommand part = .needMore 0)
    (hinline : part.head? ≠ some 42) : part.length ≤ maxInlineLength := by
  have hline (line : Bytes) {consume : ℕ} (hconsume : 0 < consume) :
      parseLine line consume ≠ .needMore 0 := by
    unfold parseLine
    split
    · intro heq
      exact hconsume.ne' (RespParseResult.needMore.inj heq)
    · split <;> exact RespParseResult.noConfusion
  rcases part with _ | ⟨c, s⟩
  · exact Nat.zero_le _
  have hc : c ≠ 42 := fun hc => hinline (congrArg some hc)
  rw [parseCommand, if_neg hc, parseInline] at hmore
  split at hmore
  · exact absurd hmore (hline _ (Nat.succ_pos _))
  split at hmore
  · exact absurd hmore (hline _ (Nat.succ_pos _))
  split at hmore
  · cases hmore
  · exact Nat.le_of_not_lt ‹_›

end Resp

/-- If the connection is kept, the loop leaves what is behind the complete commands of the buffer,
and more bytes of it are needed. -/
theorem behind_processBuffer {σ : Type} {k : Consumer σ} {fuel : ℕ} {buffer : Bytes} {s : σ}
    (hfuel : buffer.length ≤ fuel) (hkept : (processBuffer k fuel buffer s).1 = true) :
    Behind buffer (processBuffer k fuel buffer s).2.1 ∧
      parseCommand (processBuffer k fuel buffer s).2.1 = .needMore 0 := by
  induction fuel generalizing buffer s with
  | zero =>
    obtain rfl := List.length_eq_zero_iff.mp (Nat.le_zero.mp hfuel)
    exact ⟨.here _, rfl⟩
  | succ fuel ih =>
    rw [processBuffer] at hkept ⊢
    by_cases hbuffer : buffer = []
    · rw [if_pos hbuffer, hbuffer]
      exact ⟨.here _, rfl⟩
    rw [if_neg hbuffer] at hkept ⊢
    have hdrop {n : ℕ} (hn : 0 < n) : (buffer.drop n).length ≤ fuel := by
      have hpos := List.length_pos_of_ne_nil hbuffer
      rw [List.length_drop]
      omega
    cases hparse : parseCommand buffer with
    | protocolError =>
      rw [hparse] at hkept
      cases hkept
    | needMore n =>
      simp only [hparse] at hkept ⊢
      by_cases hn : 0 < n
      · rw [if_pos hn] at hkept ⊢
        obtain ⟨hbehind, hmore⟩ := ih (hdrop hn) hkept
        exact ⟨.blank hparse hn hbehind, hmore⟩
      · rw [if_neg hn]
        obtain rfl : n = 0 := by omega
        exact ⟨.here _, hparse⟩
    | ok cmd n =>
      simp only [hparse] at hkept ⊢
      by_cases hsize : maxBufferSize < (buffer.drop n).length
      · rw [if_pos hsize] at hkept
        cases hkept
      rw [if_neg hsize] at hkept ⊢
      by_cases hquit : cmd.name = ascii "QUIT"
      · rw [if_pos hquit] at hkept
        cases hkept
      rw [if_neg hquit] at hkept ⊢
      by_cases hserved : (k.serve cmd s).1 = true
      · rw [if_pos hserved] at hkept ⊢
        obtain ⟨hbehind, hmore⟩ := ih (hdrop (pos_of_parseCommand hparse)) hkept
        exact ⟨.command hparse hbehind, hmore⟩
      · rw [if_neg hserved] at hkept
        cases hkept

namespace Server

/-! ### One step -/

/-- If the connection is kept after a read, the read buffer is within the limit. -/
def Bounded (r : Running) : ReadEvent → Prop
  | .read fd received => (r.server.processClient fd received).1 = true →
      ((r.server.processClient fd received).2.client fd).readBuffer.length ≤ maxBufferSize
  | .accept _ | .disconnect _ | .scan | .reorder _ _ => True

/-- No array is still incomplete after more bytes than the limit. -/
def Moderate (r : Running) : ReadEvent → Prop
  | .read fd (.data bytes) => ∀ part, Behind ((r.server.client fd).readBuffer ++ bytes) part →
      UnfinishedArray part → part.length ≤ maxBufferSize
  | .read _ .wouldBlock | .read _ .closed | .accept _ | .disconnect _ | .scan | .reorder _ _ => True

/-- The read buffers of all connections that are not given up are within the limit. -/
def AllBounded (r : Running) : Prop :=
  ∀ fd, fd ∉ r.toDisconnect → (r.server.client fd).readBuffer.length ≤ maxBufferSize

/-- A client that is not connected has no buffer. -/
theorem readBuffer_new : ClientState.new.readBuffer.length ≤ maxBufferSize := Nat.zero_le _

/-- Processing a read does not change the entries of other clients. -/
theorem client_processClient_of_ne {s : Server} {fd fd' : Socket} (h : fd' ≠ fd)
    (received : Received) : (s.processClient fd received).2.client fd' = s.client fd' := by
  cases received with
  | wouldBlock | closed => rfl
  | data bytes =>
    rw [processClient, client_setClient_of_ne _ h]
    refine processBuffer_invariant (I := fun s' : Server => s'.client fd' = s.client fd')
      ?_ ?_ ?_ _ _ rfl
    · intro cmd s' _ hs'
      exact (s'.client_respond_of_ne h cmd).1.trans hs'
    · exact fun _ hs' => hs'
    · exact fun _ hs' => hs'

/-- A read of moderate size leaves a buffer within the limit. -/
theorem bounded_of_moderate {r : Running} {fd : Socket} (hfd : fd ∉ r.toDisconnect)
    (hr : AllBounded r) {received : Received} (hmoderate : Moderate r (.read fd received)) :
    Bounded r (.read fd received) := by
  intro hkept
  cases received with
  | wouldBlock => exact hr fd hfd
  | closed => cases hkept
  | data bytes =>
    obtain ⟨hbehind, hmore⟩ := behind_processBuffer le_rfl hkept
    rw [processClient, client_setClient_self]
    by_cases harray :
        (processRead (consumer fd) bytes (r.server.client fd).readBuffer r.server).2.1.head? =
          some 42
    · exact hmoderate _ hbehind ⟨harray, hmore⟩
    · have hlimit : maxInlineLength ≤ maxBufferSize := by decide
      exact (length_le_maxInlineLength hmore harray).trans hlimit

/-- A step of moderate size keeps all buffers within the limit. -/
theorem AllBounded.step {r r' : Running} {e : ReadEvent} (hr : AllBounded r)
    (hstep : ReadStep r e r') (hmoderate : Moderate r e) : Bounded r e ∧ AllBounded r' := by
  cases hstep with
  | @accept _ fd hfd =>
    refine ⟨trivial, fun fd' hopen => ?_⟩
    by_cases heq : fd' = fd
    · rw [heq, acceptClient, client_setClient_self]
      exact readBuffer_new
    · rw [acceptClient, client_setClient_of_ne _ heq]
      exact hr fd' hopen
  | @read _ fd hfd hopen received =>
    have hbounded := bounded_of_moderate hopen hr hmoderate
    refine ⟨hbounded, fun fd' hopen' => ?_⟩
    by_cases hkept : (r.server.processClient fd received).1 = true
    · rw [if_pos hkept] at hopen'
      by_cases heq : fd' = fd
      · rw [heq]
        exact hbounded hkept
      · rw [client_processClient_of_ne heq]
        exact hr fd' hopen'
    · rw [if_neg hkept, List.mem_append, List.mem_singleton, not_or] at hopen'
      rw [client_processClient_of_ne hopen'.2]
      exact hr fd' hopen'.1
  | disconnect s fd later =>
    refine ⟨trivial, fun fd' hopen => ?_⟩
    by_cases heq : fd' = fd
    · rw [heq, client_disconnectClient_self]
      exact readBuffer_new
    · rw [client_disconnectClient_of_ne _ heq]
      exact hr fd' (by simp [heq, hopen])
  | scan | reorder => exact ⟨trivial, hr⟩

/-! ### Runs -/

/-- **Bounded read buffers.**  In every run of a server in which no array of a client is still
incomplete after 64 MiB: whenever `process_client` keeps a connection, at most 64 MiB are left in
its read buffer. -/
theorem buffers_bounded {s₀ : Server} (hs₀ : s₀.clients = ∅) {past : List (Running × ReadEvent)}
    {r : Running} (htrace : Trace ReadStep ⟨s₀, []⟩ past r)
    (hmoderate : ∀ p ∈ past, Moderate p.1 p.2) : ∀ p ∈ past, Bounded p.1 p.2 := by
  have hinvariant : (∀ p ∈ past, Moderate p.1 p.2) →
      (∀ p ∈ past, Bounded p.1 p.2) ∧ AllBounded r := by
    refine htrace.invariant (I := fun past r => (∀ p ∈ past, Moderate p.1 p.2) →
      (∀ p ∈ past, Bounded p.1 p.2) ∧ AllBounded r) ?_ ?_
    · refine fun _ => ⟨by simp, fun fd _ => ?_⟩
      have hnew : s₀.client fd = .new := by
        rw [client, hs₀]
        rfl
      rw [hnew]
      exact readBuffer_new
    · intro past r e r' ih hstep hpast
      simp only [List.forall_mem_append, List.forall_mem_singleton] at hpast ⊢
      obtain ⟨hbounded, hr⟩ := ih hpast.1
      obtain ⟨hlast, hr'⟩ := hr.step hstep hpast.2
      exact ⟨⟨hbounded, hlast⟩, hr'⟩
  exact (hinvariant hmoderate).1

/-- A step is of moderate size if the buffer with the bytes of the read is within the limit. -/
theorem moderate_of_length_le {r : Running} {fd : Socket} {bytes : Bytes}
    (h : ((r.server.client fd).readBuffer ++ bytes).length ≤ maxBufferSize) :
    Moderate r (.read fd (.data bytes)) :=
  fun _ hbehind _ => hbehind.length_le.trans h

/-- A command and a part of the next one. -/
theorem buffers_bounded_ping :
    ∃ past r, Trace ReadStep ⟨initial, []⟩ past r ∧ (r.server.client 4).readBuffer.length = 20 ∧
      ∀ p ∈ past, Bounded p.1 p.2 := by
  let bytes := ascii "PING\r\n*2\r\n$3\r\nGET\r\n$10\r\nke"
  let r₁ : Running := ⟨initial.acceptClient 4, []⟩
  have haccept : ReadStep ⟨initial, []⟩ (.accept 4) r₁ := .accept _ (by decide)
  have hfd : 4 ∈ r₁.server.clients := by decide
  have htrace := (Trace.nil.snoc haccept).snoc (.read r₁ hfd List.not_mem_nil (.data bytes))
  refine ⟨_, _, htrace, by decide, buffers_bounded rfl htrace ?_⟩
  simp only [List.nil_append, List.forall_mem_append, List.forall_mem_singleton]
  exact ⟨trivial, moderate_of_length_le (by decide)⟩

/-! ### An array without an end -/

/-- The reads of a run are those that the server makes. -/
def SmallReads (past : List (Running × ReadEvent)) : Prop :=
  ∀ p ∈ past, ∀ fd bytes, p.2 = .read fd (.data bytes) →
    1 ≤ bytes.length ∧ bytes.length ≤ readSize

/-- One more read. -/
theorem SmallReads.snoc {past : List (Running × ReadEvent)} (h : SmallReads past) (r : Running)
    {fd : Socket} {bytes : Bytes} (hbytes : bytes.length = readSize) :
    SmallReads (past ++ [(r, .read fd (.data bytes))]) := by
  intro p hp fd' bytes' hread
  rcases List.mem_append.mp hp with hp | hp
  · exact h p hp fd' bytes' hread
  · rw [List.mem_singleton.mp hp] at hread
    cases hread
    rw [hbytes]
    decide

/-- A read that does not complete a command. -/
theorem processClient_of_needMore {s : Server} {fd : Socket} {bytes : Bytes}
    (hmore : parseCommand ((s.client fd).readBuffer ++ bytes) = .needMore 0) :
    s.processClient fd (.data bytes) =
      (true, s.setClient fd
        { s.client fd with readBuffer := (s.client fd).readBuffer ++ bytes }) := by
  rw [processClient, processRead_of_needMore _ hmore]

section Parts

variable {wire : Bytes}
  (hwire : ∀ part, part <+: wire → part ≠ wire → parseCommand part = .needMore 0)
include hwire

/-- One more read of a command whose parts are not complete. -/
theorem exists_readStep_take {s : Server} {fd : Socket} (hfd : fd ∈ s.clients) {n : ℕ}
    (hbuffer : (s.client fd).readBuffer = wire.take n) (hn : n + readSize < wire.length) :
    ∃ bytes s', bytes.length = readSize ∧ (s.processClient fd (.data bytes)).1 = true ∧
      ReadStep ⟨s, []⟩ (.read fd (.data bytes)) ⟨s', []⟩ ∧
      s' = (s.processClient fd (.data bytes)).2 ∧ fd ∈ s'.clients ∧
      (s'.client fd).readBuffer = wire.take (n + readSize) := by
  have htaken : (s.client fd).readBuffer ++ (wire.drop n).take readSize =
      wire.take (n + readSize) := by
    rw [hbuffer, List.take_add]
  have hmore : parseCommand ((s.client fd).readBuffer ++ (wire.drop n).take readSize) =
      .needMore 0 := by
    rw [htaken]
    refine hwire _ (List.take_prefix _ _) fun heq => ?_
    have hlength := congrArg List.length heq
    rw [List.length_take] at hlength
    omega
  have hprocess := processClient_of_needMore hmore
  have hstep := ReadStep.read ⟨s, []⟩ hfd List.not_mem_nil (.data ((wire.drop n).take readSize))
  refine ⟨(wire.drop n).take readSize, _, ?_, congrArg Prod.fst hprocess, ?_, rfl, ?_, ?_⟩
  · rw [List.length_take, List.length_drop]
    omega
  · rw [if_pos (congrArg Prod.fst hprocess)] at hstep
    exact hstep
  · exact mem_clients_processClient hfd _ hfd
  · rw [hprocess, client_setClient_self]
    exact htaken

/-- Any number of reads of such a command. -/
theorem exists_readTrace_take {n : ℕ} (hn : readSize * n < wire.length) :
    ∃ past s, Trace ReadStep ⟨initial, []⟩ past ⟨s, []⟩ ∧ SmallReads past ∧ 4 ∈ s.clients ∧
      (s.client 4).readBuffer = wire.take (readSize * n) := by
  induction n with
  | zero =>
    have haccept : ReadStep ⟨initial, []⟩ (.accept 4) ⟨initial.acceptClient 4, []⟩ :=
      .accept _ (by decide)
    refine ⟨_, _, Trace.nil.snoc haccept, ?_, by decide, rfl⟩
    intro p hp fd bytes hread
    rw [List.nil_append, List.mem_singleton] at hp
    rw [hp] at hread
    cases hread
  | succ n ih =>
    rw [Nat.mul_succ] at hn ⊢
    obtain ⟨past, s, htrace, hsmall, hfd, hbuffer⟩ := ih (by omega)
    obtain ⟨bytes, s', hlength, -, hstep, -, hfd', hbuffer'⟩ :=
      exists_readStep_take hwire hfd hbuffer hn
    exact ⟨_, s', htrace.snoc hstep, hsmall.snoc _ hlength, hfd', hbuffer'⟩

end Parts

/-- A client announces a string of 128 MiB and sends it in reads of the usual size: the server keeps
the connection although more than 64 MiB are in the read buffer. -/
theorem unfinished_array_exceeds_limit :
    ∃ past r, Trace ReadStep ⟨initial, []⟩ past r ∧ SmallReads past ∧
      ¬ ∀ p ∈ past, Bounded p.1 p.2 := by
  obtain ⟨size, hsize⟩ : ∃ size, size = 2 ^ 27 := ⟨_, rfl⟩
  let parts : List Bytes := [List.replicate size 97]
  have hsendable : Sendable parts := by
    refine ⟨List.cons_ne_nil _ _, ?_, ?_⟩
    · change 1 < 2 ^ 31
      decide
    · intro part hpart
      rw [List.mem_singleton.mp hpart, List.length_replicate, hsize]
      decide
  have hlength : size ≤ (encode parts).length := by
    simp only [parts, encode_eq, List.flatMap_cons, List.flatMap_nil, bulkString,
      List.length_append, List.length_replicate]
    omega
  have hwire (part : Bytes) (hpart : part <+: encode parts) (hne : part ≠ encode parts) :
      parseCommand part = .needMore 0 := parseCommand_incomplete hsendable hpart hne
  have hlimit : readSize * 16384 = maxBufferSize := by decide
  have hroom : maxBufferSize + readSize < size := by
    rw [hsize]
    decide
  have hn' : readSize * 16384 + readSize < (encode parts).length := by
    rw [hlimit]
    exact hroom.trans_le hlength
  have hn : readSize * 16384 < (encode parts).length := (Nat.le_add_right _ readSize).trans_lt hn'
  obtain ⟨past, s, htrace, hsmall, hfd, hbuffer⟩ := exists_readTrace_take hwire hn
  obtain ⟨bytes, s', hread, hkept, hstep, hs', -, hbuffer'⟩ :=
    exists_readStep_take hwire hfd hbuffer hn'
  refine ⟨_, _, htrace.snoc hstep, hsmall.snoc _ hread, ?_⟩
  intro hall
  have hbounded : Bounded ⟨s, []⟩ (.read 4 (.data bytes)) :=
    hall (⟨s, []⟩, .read 4 (.data bytes)) (List.mem_append_right _ List.mem_cons_self)
  have hle := hbounded hkept
  rw [← hs', hbuffer', List.length_take, min_eq_left hn'.le, hlimit] at hle
  have hpos : 0 < readSize := by decide
  exact absurd hle (Nat.not_le.mpr (Nat.lt_add_of_pos_right hpos))

end Server

end MyRedis
