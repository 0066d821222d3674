import NetworkLibrary.Delivery.Link
import NetworkLibrary.Packet.Serialize

/-!
# `EchoServer` and `TestClient`

A session of the benchmark: `TestClient` sends packets that begin with `kTestEcho`, `EchoServer`
sends each payload back from `OnRecv`, and `TestClient` counts the packets it gets and verifies
their type. The two directions of the connection are links. The server's only calls of `SendPacket`
are those of `OnRecv`, one after the other and before the handler posts the next receive; the
handler holds a reference of the session, so that each of them enqueues its packet.
-/

namespace NetworkLibrary.Echo

open Foundations Receive Delivery

def kTestEcho : BitVec 16 := 1

/-! ## The client -/

/-- The packet of `SenderThread`: `*p << type << payload`. -/
def testPacket (pooled : PooledPacket) (payload : BitVec 32) : Packet :=
  ((allocPacket pooled).insert .unsignedShort kTestEcho).insert .int payload

/-- `>>` on a `WORD`. -/
def extractWord (packet : Packet) : BitVec 16 := (packet.extract .unsignedShort).1

/-- The counters of `TestClient`, which are far from `2^63`. -/
structure TestClient where
  recvCnt : ℕ
  verifiedCnt : ℕ
  crashed : Bool
  deriving DecidableEq

/-- `TestClient::OnRecv`. -/
def TestClient.onRecv (client : TestClient) (packet : Packet) : TestClient :=
  let client := { client with recvCnt := client.recvCnt + 1 }
  let type := extractWord packet
  if type = kTestEcho then { client with verifiedCnt := client.verifiedCnt + 1 }
  else { client with crashed := true }

/-- The packet that `GetPacketMessage` fills. -/
def delivered (pooled : PooledPacket) (payload : List UInt8) : Packet :=
  (((allocPacket pooled).fill payload (allocPacket pooled).rear).moveWritePos payload.length).2

/-- What an output of the receive handler does to the client. -/
def TestClient.receive (pool : Pool) (client : TestClient) : Output → TestClient
  | .onRecv payload => client.onRecv (delivered (pool client.recvCnt) payload)
  | .killSession | .crash => client

/-! ## The session -/

/-- What the two ends of a session bring: encoders, packets, and memory. -/
structure Setup where
  clientEncoder : XorPacketEncoder
  serverEncoder : XorPacketEncoder
  clientPool : Pool
  serverPool : Pool
  clientContent : ℕ → Outgoing
  serverContent : ℕ → Outgoing
  clientSendBuffer : ℕ → ℕ
  serverSendBuffer : ℕ → ℕ
  clientMemory : ℤ → UInt8
  serverMemory : ℤ → UInt8

namespace Setup

variable (c : Setup)

/-- From the client to the server. -/
def up : Lts Link Delivery.Act :=
  link c.clientEncoder c.serverEncoder c.serverPool c.clientContent c.clientSendBuffer
    c.serverMemory

/-- From the server to the client. -/
def down : Lts Link Delivery.Act :=
  link c.serverEncoder c.clientEncoder c.clientPool c.serverContent c.serverSendBuffer
    c.clientMemory

end Setup

structure State where
  up : Link
  down : Link
  /-- The calls of `EchoServer::OnRecv` that have called `SendPacket`. -/
  echoed : ℕ
  client : TestClient

inductive Act
  /-- A step of the client's send side or of the server's receive side. -/
  | up (a : Delivery.Act)
  /-- A step of the server's send side or of the client's receive side. -/
  | down (a : Delivery.Act)
  /-- The worker that runs `EchoServer::OnRecv` calls `SendPacket` with a packet of its own. -/
  | echo (thread packet : ℕ)
  deriving DecidableEq

/-- A frame of `SendPacket`. -/
def ofSendPacket : Send.Frame → Bool
  | .enqueueLink _ | .enqueueSize | .postNote => true
  | _ => false

/-- `EchoServer::OnRecv` is running or will be called before the handler ends. -/
def State.handling (s : State) : Bool :=
  s.echoed ≠ s.up.receiver.outputs.length || s.down.sender.frames.any ofSendPacket

/-- The calls of `TestClient::OnRecv` in a completion. -/
def State.receive (pool : Pool) (s : State) (down : Link) : State :=
  { s with
    down := down
    client := (down.receiver.outputs.drop s.down.receiver.outputs.length).foldl
      (TestClient.receive pool) s.client }

variable (c : Setup)

def step (s : State) : Act → Option State
  | .up (.deliver n) =>
    -- the next receive is posted at the end of the handler
    if s.handling then none else (c.up.step s.up (.deliver n)).map fun l => { s with up := l }
  | .up a => (c.up.step s.up a).map fun l => { s with up := l }
  | .down (.send _ (.sendPacket _)) => none
  | .down a => (c.down.step s.down a).map (s.receive c.clientPool)
  | .echo i p =>
    match s.up.receiver.outputs[s.echoed]? with
    | some (.onRecv payload) =>
      if (c.serverContent p).payload = payload ∧ s.down.sender.calls[i]? = some [] ∧
          s.down.sender.frames.any ofSendPacket = false then
        (c.down.step s.down (.send i (.sendPacket p))).map fun l =>
          { s with down := l, echoed := s.echoed + 1 }
      else none
    | _ => none

/-- The runs of a session. -/
def session : Lts State Act where
  init s := c.up.init s.up ∧ c.down.init s.down ∧ s.echoed = 0 ∧ s.client = ⟨0, 0, false⟩
  step := step c

/-- Both directions stay within the bounds of their buffers. -/
def Within (s : State) : Act → Prop
  | .up a => Delivery.Within s.up a
  | .down a => Delivery.Within s.down a
  | .echo i p => Delivery.Within s.down (.send i (.sendPacket p))

/-- Besides, neither end is killed and all sends succeed. -/
def Undisturbed (s : State) : Act → Prop
  | .up a => Delivery.Undisturbed s.up a
  | .down a => Delivery.Undisturbed s.down a
  | .echo i p => Delivery.Undisturbed s.down (.send i (.sendPacket p))

/-- The encoders match in both directions, the client's packets are those of `SenderThread`, and the
server's are any that can be sent. -/
structure Setup.Proper : Prop where
  up : Matching c.clientEncoder c.serverEncoder
  down : Matching c.serverEncoder c.clientEncoder
  client : ∀ p, ∃ payload,
    (c.clientContent p).payload = (testPacket (c.clientContent p).pooled payload).data
  server : ∀ p, Sendable (c.serverContent p)

variable {c} {s t : State} {a : Act} {ok : State → Act → Prop}

/-! ## The packets -/

theorem inBounds_allocPacket (pooled : PooledPacket) : (allocPacket pooled).InBounds where
  front := (by decide : (0 : ℤ) ≤ 20)
  rear := le_rfl
  size := by
    show (20 : ℤ) ≤ pooled.bufferSize
    rw [pooled.size]
    decide

/-- What `SenderThread` sends: the type and four bytes. -/
theorem data_testPacket (pooled : PooledPacket) (payload : BitVec 32) :
    (testPacket pooled payload).data = toBytes 2 kTestEcho ++ toBytes 4 payload := by
  have hempty : (allocPacket pooled).data = [] := Packet.data_clear
  have hrear : (allocPacket pooled).rear = 20 := rfl
  have hsize : (allocPacket pooled).bufferSize = 1024 := pooled.size
  have h₁ : (Packet.Item.scalar .unsignedShort kTestEcho).encoded.length = 2 := length_toBytes ..
  have h₂ : (Packet.Item.scalar .int payload).encoded.length = 4 := length_toBytes ..
  obtain ⟨hdata, hin, hrear', hsize'⟩ := Packet.write_eq (inBounds_allocPacket pooled)
    (x := .scalar .unsignedShort kTestEcho) trivial (by omega)
  obtain ⟨hdata', -⟩ := Packet.write_eq hin (x := .scalar .int payload) trivial (by omega)
  rw [hdata, hempty, List.nil_append] at hdata'
  exact hdata'

theorem length_testPacket (pooled : PooledPacket) (payload : BitVec 32) :
    (testPacket pooled payload).data.length = 6 := by
  rw [data_testPacket, List.length_append, length_toBytes, length_toBytes]

/-- **A packet that begins with `kTestEcho` is verified.** -/
theorem onRecv_delivered (client : TestClient) (pooled : PooledPacket) {payload tail : List UInt8}
    (h : payload = toBytes 2 kTestEcho ++ tail) (hlen : payload.length ≤ 1004) :
    client.onRecv (delivered pooled payload) =
      { client with recvCnt := client.recvCnt + 1, verifiedCnt := client.verifiedCnt + 1 } := by
  have hsize := pooled.size
  have hdata : (delivered pooled payload).data = payload := data_allocPacket pooled payload hlen
  have hin : (delivered pooled payload).InBounds := by
    have hfit : ((allocPacket pooled).fill payload (allocPacket pooled).rear).rear +
        payload.length ≤ ((allocPacket pooled).fill payload (allocPacket pooled).rear).bufferSize := by
      show (20 : ℤ) + payload.length ≤ pooled.bufferSize
      rw [hsize, Packet.kBufferDefault]
      omega
    rw [delivered, Packet.moveWritePos_of_le _ hfit]
    exact ⟨(by decide : (0 : ℤ) ≤ 20), le_add_of_nonneg_right (Int.natCast_nonneg _), hfit⟩
  obtain ⟨-, hload, -⟩ := Packet.load_front hin (hdata.trans h)
  rw [length_toBytes] at hload
  have htype : extractWord (delivered pooled payload) = kTestEcho := by
    rw [extractWord, Packet.extract]
    simp only [Packet.Scalar.sizeof, hload]
    exact ofBytes_toBytes 2 kTestEcho
  simp only [TestClient.onRecv]
  rw [if_pos htype]

/-- Any number of such packets. -/
theorem foldl_receive (pool : Pool) (payloads : List (List UInt8)) (client : TestClient)
    (h : ∀ payload ∈ payloads, payload.length ≤ 1004 ∧
      ∃ tail, payload = toBytes 2 kTestEcho ++ tail) :
    (payloads.map Output.onRecv).foldl (TestClient.receive pool) client =
      { client with
        recvCnt := client.recvCnt + payloads.length
        verifiedCnt := client.verifiedCnt + payloads.length } := by
  induction payloads generalizing client with
  | nil => rfl
  | cons payload payloads ih =>
    obtain ⟨⟨hlen, tail, htail⟩, h⟩ := List.forall_mem_cons.1 h
    rw [List.map_cons, List.foldl_cons, TestClient.receive,
      onRecv_delivered client _ htail hlen, ih _ h, List.length_cons]
    simp only [TestClient.mk.injEq, and_true]
    omega

end NetworkLibrary.Echo
