import MyRedis.PubSub.Basic

/-!
# What a send writes

`send_response` writes a message to a socket in as many pieces as the socket takes, and gives up at
the first failure.  So it always writes a front part of the message (`Network.written`), and it
reports success if that is the whole message.  A sequence of sends is recorded as a list of `Send`s;
`Network.Logs` says that such a list accounts for every byte that went out.
-/

namespace MyRedis

open Foundation

namespace Network

/-- All bytes that were written to a socket. -/
def bytesTo (net : Network) (fd : Socket) : Bytes :=
  (net.sent.filter fun x => x.1 = fd).flatMap Prod.snd

/-- A write is seen on its own socket only. -/
theorem bytesTo_wrote (net : Network) (sock : Socket) (data : Bytes) (fd : Socket) :
    (net.wrote [(sock, data)]).bytesTo fd = net.bytesTo fd ++ if fd = sock then data else [] := by
  unfold bytesTo wrote
  rw [List.filter_append, List.flatMap_append]
  by_cases hfd : fd = sock
  · simp [hfd]
  · simp [hfd, Ne.symm hfd]

/-- A failed write is not seen at all. -/
theorem bytesTo_wrote_nil (net : Network) (fd : Socket) :
    (net.wrote []).bytesTo fd = net.bytesTo fd := by
  simp [bytesTo, wrote]

/-- The loop of `write_exact` writes a front part of the data, and all of it if it succeeds. -/
theorem writeLoop_spec (sock : Socket) {fuel : ℕ} {data : Bytes} (net : Network)
    (hfuel : data.length ≤ fuel) :
    ∃ part, part <+: data ∧ ((net.writeLoop sock fuel data).1 = true ↔ part = data) ∧
      ∀ fd, (net.writeLoop sock fuel data).2.bytesTo fd =
        net.bytesTo fd ++ if fd = sock then part else [] := by
  induction fuel generalizing data net with
  | zero =>
    obtain rfl := List.length_eq_zero_iff.mp (Nat.le_zero.mp hfuel)
    exact ⟨[], List.prefix_refl _, by simp [writeLoop], by simp [writeLoop]⟩
  | succ fuel ih =>
    rw [writeLoop]
    by_cases hdata : data = []
    · rw [if_pos hdata]
      exact ⟨[], List.nil_prefix, by simp [hdata], by simp⟩
    · rw [if_neg hdata]
      cases net.writes 0 with
      | none =>
        refine ⟨[], List.nil_prefix, ?_, ?_⟩
        · simp [Ne.symm hdata]
        · simp [bytesTo_wrote_nil]
      | some more =>
        have hrest : (data.drop (more + 1)).length ≤ fuel := by
          rw [List.length_drop]
          omega
        obtain ⟨part, hpart, hok, hbytes⟩ :=
          ih (net.wrote [(sock, data.take (more + 1))]) hrest
        have hsplit : data.take (more + 1) ++ data.drop (more + 1) = data :=
          List.take_append_drop _ _
        refine ⟨data.take (more + 1) ++ part, ?_, ?_, ?_⟩
        · obtain ⟨later, hlater⟩ := hpart
          exact ⟨later, by rw [List.append_assoc, hlater, hsplit]⟩
        · rw [hok]
          constructor
          · rintro rfl
            exact hsplit
          · intro heq
            exact List.append_cancel_left (heq.trans hsplit.symm)
        · intro fd
          rw [hbytes, bytesTo_wrote, List.append_assoc]
          split <;> simp

/-- The bytes that a call of `send_response` writes. -/
def written (sock : Socket) (data : Bytes) (net : Network) : Bytes :=
  ((net.sendResponse sock data).2.bytesTo sock).drop (net.bytesTo sock).length

section Send

variable (net : Network) (sock : Socket) (data : Bytes)

/-- What `written` is. -/
theorem written_spec : net.written sock data <+: data ∧
    ((net.sendResponse sock data).1 = true ↔ net.written sock data = data) ∧
      ∀ fd, (net.sendResponse sock data).2.bytesTo fd =
        net.bytesTo fd ++ if fd = sock then net.written sock data else [] := by
  obtain ⟨part, hpart, hok, hbytes⟩ := net.writeLoop_spec sock (le_refl data.length)
  have hwritten : net.written sock data = part := by
    rw [written, sendResponse, hbytes, if_pos rfl, List.drop_left]
  rw [hwritten]
  exact ⟨hpart, hok, hbytes⟩

/-- Only a front part of the message is written. -/
theorem written_isPrefix : net.written sock data <+: data := (net.written_spec sock data).1

/-- Success means that the whole message was written. -/
theorem sendResponse_eq_true_iff :
    (net.sendResponse sock data).1 = true ↔ net.written sock data = data :=
  (net.written_spec sock data).2.1

/-- A send is seen on its own socket only. -/
theorem bytesTo_sendResponse (fd : Socket) : (net.sendResponse sock data).2.bytesTo fd =
    net.bytesTo fd ++ if fd = sock then net.written sock data else [] :=
  (net.written_spec sock data).2.2 fd

/-- If no write fails, the whole message is written. -/
theorem written_eq_of_writes (h : ∀ i, (net.writes i).isSome) : net.written sock data = data := by
  rw [← sendResponse_eq_true_iff, sendResponse]
  generalize data.length = fuel
  induction fuel generalizing data net with
  | zero => rfl
  | succ fuel ih =>
    rw [writeLoop]
    split
    · rfl
    · obtain ⟨more, hmore⟩ := Option.isSome_iff_exists.mp (h 0)
      rw [hmore]
      exact ih _ _ fun i => h (i + 1)

end Send

end Network

/-! ### Sends -/

/-- A call of `send_response`: where to, what, and how much of it went out. -/
structure Send where
  /-- The socket. -/
  socket : Socket
  /-- The message. -/
  data : Bytes
  /-- The bytes that were written. -/
  written : Bytes
deriving DecidableEq

namespace Send

/-- The call has reported success. -/
def whole (x : Send) : Bool := x.written = x.data

/-- The bytes that a sequence of sends has written to a socket. -/
def stream (fd : Socket) (log : List Send) : Bytes :=
  (log.filter fun x => x.socket = fd).flatMap Send.written

@[simp] theorem stream_nil (fd : Socket) : stream fd [] = [] := rfl

@[simp] theorem stream_append (fd : Socket) (log log' : List Send) :
    stream fd (log ++ log') = stream fd log ++ stream fd log' := by
  simp [stream]

theorem stream_cons (fd : Socket) (x : Send) (log : List Send) :
    stream fd (x :: log) = (if fd = x.socket then x.written else []) ++ stream fd log := by
  unfold stream
  by_cases hfd : fd = x.socket
  · simp [hfd]
  · simp [hfd, Ne.symm hfd]

end Send

namespace Network

/-- The record of a call of `send_response`. -/
def sendRecord (sock : Socket) (data : Bytes) (net : Network) : Send where
  socket := sock
  data := data
  written := net.written sock data

/-- A call reports success if the whole message was written. -/
theorem whole_sendRecord (sock : Socket) (data : Bytes) (net : Network) :
    (net.sendRecord sock data).whole = (net.sendResponse sock data).1 := by
  rw [Bool.eq_iff_iff, sendResponse_eq_true_iff]
  exact decide_eq_true_iff

/-- The sends account for all bytes that went out in between. -/
def Logs (net : Network) (log : List Send) (net' : Network) : Prop :=
  ∀ fd, net'.bytesTo fd = net.bytesTo fd ++ Send.stream fd log

theorem logs_nil (net : Network) : net.Logs [] net := fun _ => (List.append_nil _).symm

/-- Sends one after the other. -/
theorem Logs.append {net net₁ net₂ : Network} {log log' : List Send} (h : net.Logs log net₁)
    (h' : net₁.Logs log' net₂) : net.Logs (log ++ log') net₂ := by
  intro fd
  rw [h', h, Send.stream_append, List.append_assoc]

/-- One send. -/
theorem logs_sendResponse (net : Network) (sock : Socket) (data : Bytes) :
    net.Logs [net.sendRecord sock data] (net.sendResponse sock data).2 := by
  intro fd
  rw [bytesTo_sendResponse, Send.stream_cons, Send.stream_nil, List.append_nil, sendRecord]

end Network

/-! ### The sends of a publish -/

namespace PubSubManager

/-- The sends of the sending loop of `publish`. -/
def deliveries (msg : Bytes) : List Socket → Network → List Send
  | [], _ => []
  | subFd :: later, net =>
    net.sendRecord subFd msg :: deliveries msg later (net.sendResponse subFd msg).2

/-- The loop sends once to each socket. -/
@[simp] theorem map_socket_deliveries (msg : Bytes) (fds : List Socket) (net : Network) :
    (deliveries msg fds net).map Send.socket = fds := by
  induction fds generalizing net with
  | nil => rfl
  | cons subFd later ih => rw [deliveries, List.map_cons, ih, Network.sendRecord]

/-- Every send is the message, of which a front part goes out. -/
theorem data_deliveries {msg : Bytes} {fds : List Socket} {net : Network} {x : Send}
    (hx : x ∈ deliveries msg fds net) : x.data = msg ∧ x.written <+: x.data := by
  induction fds generalizing net with
  | nil => cases hx
  | cons subFd later ih =>
    rcases List.mem_cons.mp hx with rfl | hlater
    · exact ⟨rfl, net.written_isPrefix subFd msg⟩
    · exact ih hlater

/-- The sends are all that the loop writes. -/
theorem logs_deliver (msg : Bytes) (fds : List Socket) (net : Network) :
    net.Logs (deliveries msg fds net) (deliver msg fds net).2.2 := by
  induction fds generalizing net with
  | nil => exact net.logs_nil
  | cons subFd later ih =>
    have hlater := (net.logs_sendResponse subFd msg).append (ih (net.sendResponse subFd msg).2)
    rw [deliver, deliveries]
    split <;> exact hlater

/-- The loop counts the sends that succeed. -/
theorem deliver_fst (msg : Bytes) (fds : List Socket) (net : Network) :
    (deliver msg fds net).1 = Int32.ofNat ((deliveries msg fds net).countP Send.whole) := by
  induction fds generalizing net with
  | nil => rfl
  | cons subFd later ih =>
    rw [deliver, deliveries, List.countP_cons, Network.whole_sendRecord]
    split
    · rw [Int32.ofNat_add, ← ih]
      rfl
    · rw [Nat.add_zero, ← ih]

/-- The loop collects the sockets whose sends fail. -/
theorem mem_dead_deliver {msg : Bytes} {fds : List Socket} {net : Network} {fd : Socket} :
    fd ∈ (deliver msg fds net).2.1 ↔
      ∃ x ∈ deliveries msg fds net, x.socket = fd ∧ x.whole = false := by
  induction fds generalizing net with
  | nil => simp [deliver, deliveries]
  | cons subFd later ih =>
    rw [deliver, deliveries, List.exists_mem_cons_iff, ← ih, Network.whole_sendRecord]
    split
    · rename_i hok
      simp [hok]
    · rename_i hok
      simp [hok, Network.sendRecord, eq_comm]

end PubSubManager

end MyRedis
