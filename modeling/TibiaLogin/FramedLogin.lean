import TibiaLogin.FramedSockets

namespace TibiaLogin.FramedLogin

open Memory Query LoginResponse LoginHandler WebSocket WebSocketProtocol FrameStream FrameRoundTrip FrameSafety ClientReader
  AccountService LoginService SocketService FramedSockets
open FrameDecoder (Decoder decode decode_append)

section

variable {rsa : RsaKey} {publicKey : PublicKey rsa} {form : LoginForm} {m : Message} {n : Nat}

/-- A binary message with the packet of a form, in frames of its own choice. -/
def IsPacket (publicKey : PublicKey rsa) (form : LoginForm) (m : Message) : Prop :=
  m.isText = false ∧ m.data = LoginForm.stream form publicKey []

theorem IsPacket.opCode_eq (h : IsPacket publicKey form m) : m.opCode = 2 := by
  rw [Message.opCode, h.1]
  rfl

theorem IsPacket.taken (h : IsPacket publicKey form m) : Taken (acceptorContext n) m.opCode m.data := by
  have hlength : (LoginForm.stream form publicKey []).length = 147 := by
    rw [LoginForm.stream, List.length_append, List.append_nil, length_request]
    rfl
  rw [h.opCode_eq, h.2]
  refine ⟨?_, fun h => absurd h (by decide), ?_⟩
  · rw [hlength, acceptorContext_max]
    decide
  · simp only [acceptorContext, loginMessage_packet publicKey form 0]
    rfl

theorem asks_fragments (fragments : List Fragment) (ipAddress : Int) :
    (fragments.flatMap Fragment.events).flatMap (asks ipAddress) = [] := by
  rw [List.flatMap_eq_nil_iff]
  intro e he
  simp only [Fragment.events, List.mem_flatMap] at he
  obtain ⟨f, -, c, -, hevent⟩ := he
  rw [Control.events] at hevent
  split_ifs at hevent
  · rw [List.mem_singleton.mp hevent]
    rfl
  · cases hevent

theorem IsPacket.asks_eq (h : IsPacket publicKey form m) (ipAddress : Int) :
    m.events.flatMap (asks ipAddress) = [⟨form.request publicKey, ipAddress⟩] := by
  rw [Message.events, List.flatMap_append, asks_fragments, List.nil_append, List.flatMap_singleton, asks, h.opCode_eq, h.2]
  exact congrArg Option.toList (loginMessage_packet publicKey form ipAddress)

theorem asks_packets {messages : List Message} (h : ∀ m ∈ messages, IsPacket publicKey form m) (ipAddress : Int) :
    (messages.flatMap Message.events).flatMap (asks ipAddress) =
      List.replicate messages.length ⟨form.request publicKey, ipAddress⟩ := by
  induction messages with
  | nil => rfl
  | cons m messages ih =>
      obtain ⟨hm, hrest⟩ := List.forall_mem_cons.mp h
      rw [List.flatMap_cons, List.flatMap_append, hm.asks_eq, ih hrest]
      rfl

end

section

variable {σ : Type} {accounts : Accounts} {exchange : Exchange σ} {P : σ → Prop} (hserves : Serves accounts exchange P)
  {build : Build} (henc : build.encoding = .latin1) {rsa : RsaKey} (publicKey : PublicKey rsa)
  (randR : UInt32 → Int × UInt32) (config : ServerConfig) (form : LoginForm) {n : Nat} {ipOf : Nat → Int}

include hserves henc

end

theorem cutPacket_isPacket : IsPacket plainKey plainForm cutPacket :=
  ⟨rfl, by rw [Message.data]; simp [cutPacket]⟩

end TibiaLogin.FramedLogin
