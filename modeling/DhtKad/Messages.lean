import DhtKad.RoutingTable
import DhtKad.Lib.ByteString
import DhtKad.Lib.ExceptList

/-!
`messages/routing.rs` and `messages/util.rs`: the wire messages, how they are
built, and the checks and decoders applied to them.

One message type serves for requests and replies. Its enumerations travel as
32-bit numbers of which only some are declared, and its peers as raw bytes;
`validateRequest` and `protoPeerToPeer` are where the two meet, and
`protoPeerToPeer_isOk_iff` says what the second of them needs.
-/

namespace DhtKad

/-- The protobuf view of an enumeration: the number of a value, the value of a
declared number, and the default. -/
class ProtobufEnum (E : Type) where
  value : E → Int32
  fromI32 : Int32 → Option E
  default : E

inductive MessageType
  | store
  | findValue
  | findNode
  | ping
  deriving DecidableEq, Repr

def MessageType.fromI32 (value : Int32) : Option MessageType :=
  if value = 0 then some .store
  else if value = 1 then some .findValue
  else if value = 2 then some .findNode
  else if value = 3 then some .ping
  else none

instance : ProtobufEnum MessageType where
  value
    | .store => 0
    | .findValue => 1
    | .findNode => 2
    | .ping => 3
  fromI32 := MessageType.fromI32
  default := .store

inductive ErrorCode
  | ok
  | internalError
  | notFound
  | badRequest
  deriving DecidableEq, Repr

def ErrorCode.fromI32 (value : Int32) : Option ErrorCode :=
  if value = 0 then some .ok
  else if value = 1 then some .internalError
  else if value = 2 then some .notFound
  else if value = 3 then some .badRequest
  else none

instance : ProtobufEnum ErrorCode where
  value
    | .ok => 0
    | .internalError => 1
    | .notFound => 2
    | .badRequest => 3
  fromI32 := ErrorCode.fromI32
  default := .ok

/-- An enumeration field as received: any number, declared or not. -/
structure ProtobufEnumOrUnknown (E : Type) where
  value : Int32
  deriving DecidableEq, Repr

namespace ProtobufEnumOrUnknown

variable {E : Type} [ProtobufEnum E]

def new (e : E) : ProtobufEnumOrUnknown E := { value := ProtobufEnum.value e }

/-- An undeclared number is read as the default. -/
def enumValueOrDefault (v : ProtobufEnumOrUnknown E) : E :=
  (ProtobufEnum.fromI32 v.value).getD ProtobufEnum.default

end ProtobufEnumOrUnknown

@[simp] theorem enumValueOrDefault_new (c : ErrorCode) :
    (ProtobufEnumOrUnknown.new c).enumValueOrDefault = c := by
  cases c <;> decide

/-- `message::Peer`, a peer as raw bytes. -/
structure MessagePeer where
  id : Bytes := []
  addrs : Bytes := []
  deriving DecidableEq, Repr

/-- `routing::Message`; the defaults are those of `Message::new`. -/
structure Message where
  fieldType : ProtobufEnumOrUnknown MessageType := .new .store
  key : Bytes := []
  value : Bytes := []
  closerPeers : List MessagePeer := []
  myself : Option MessagePeer := none
  code : ProtobufEnumOrUnknown ErrorCode := .new .ok
  deriving DecidableEq, Repr

/-- `std::io::Error`, of which only the text is used. -/
structure IoError where
  text : String
  deriving DecidableEq, Repr

structure RPCError where
  errorCode : ErrorCode
  message : String
  deriving DecidableEq, Repr

/-! ### Peers -/

/-- Decodes a received peer: both the slice of the identifier and the UTF-8
decoding of the address can panic. -/
def protoPeerToPeer (mp : MessagePeer) : Except Panic Peer := do
  let id ← keyFromBytes mp.id
  match ByteString.fromUtf8 mp.addrs with
  | some address => return { id := id, address := address }
  | none => throw .invalidUtf8

def protoPeerFromPeer (p : Peer) : MessagePeer :=
  { id := keyToBytes p.id, addrs := ByteString.utf8 p.address }

/-! ### Requests -/

def createFindNodeRequest (target : U128) (myself : Peer) : Message :=
  { fieldType := .new .findNode
    key := keyToBytes target
    myself := some (protoPeerFromPeer myself) }

def createFindValueRequest (key : U128) (myself : Peer) : Message :=
  { fieldType := .new .findValue
    key := keyToBytes key
    myself := some (protoPeerFromPeer myself) }

def createPingRequest (myself : Peer) : Message :=
  { fieldType := .new .ping
    myself := some (protoPeerFromPeer myself) }

def createStoreRequest (myself : Peer) (key : U128) (value : Bytes) : Message :=
  { fieldType := .new .store
    key := keyToBytes key
    value := value
    myself := some (protoPeerFromPeer myself) }

def validateRequest (msg : Message) : Bool :=
  match msg.myself with
  | none => false
  | some myself =>
      if myself.id.length = 0 then false
      else if myself.addrs.length = 0 then false
      else if (ByteString.fromUtf8 myself.addrs).isNone then false
      else true

/-! ### Responses -/

def validateStoreResult (r : Except IoError Message) : Except RPCError Unit :=
  match r with
  | .ok message =>
      if message.code.enumValueOrDefault ≠ .ok then
        .error { errorCode := message.code.enumValueOrDefault, message := "RPC failed" }
      else .ok ()
  | .error e => .error { errorCode := .internalError, message := e.text }

def createInvalidResponse : Message := { code := .new .badRequest }

def createStoreResponse (success : Bool) : Message :=
  { fieldType := .new .store
    code := if success then .new .ok else .new .internalError }

def createFindValueResponse (key value : Bytes) : Message := { key := key, value := value }

def createFindNodeResponse (peers : List Peer) : Message :=
  { closerPeers := peers.map protoPeerFromPeer }

def createPingResponse : Message := {}

/-! ### What the decoder needs and what the check gives -/

@[simp] theorem protoPeerToPeer_protoPeerFromPeer (p : Peer) :
    protoPeerToPeer (protoPeerFromPeer p) = .ok p := by
  simp [protoPeerToPeer, protoPeerFromPeer, bind, Except.bind, pure, Except.pure]

/-- The peers of a reply are read as they were written. -/
theorem mapM_createFindNodeResponse (peers : List Peer) :
    (createFindNodeResponse peers).closerPeers.mapM protoPeerToPeer = .ok peers := by
  rw [createFindNodeResponse, ExceptList.mapM_eq_ok_iff, List.forall₂_map_left_iff]
  exact List.forall₂_same.mpr fun p _ => protoPeerToPeer_protoPeerFromPeer p

theorem protoPeerToPeer_eq_ok_iff {mp : MessagePeer} {p : Peer} :
    protoPeerToPeer mp = .ok p ↔
      keyFromBytes mp.id = .ok p.id ∧ ByteString.fromUtf8 mp.addrs = some p.address := by
  unfold protoPeerToPeer
  cases hid : keyFromBytes mp.id with
  | error e => simp [bind, Except.bind]
  | ok id =>
      cases haddr : ByteString.fromUtf8 mp.addrs with
      | none => simp [bind, Except.bind, throw, throwThe, MonadExceptOf.throw]
      | some a =>
          obtain ⟨pid, paddr⟩ := p
          simp [bind, Except.bind, pure, Except.pure]

/-- The entry of a message can be decoded to a peer. -/
def Decodes (e : MessagePeer) : Prop :=
  16 ≤ e.id.length ∧ (ByteString.fromUtf8 e.addrs).isSome

theorem protoPeerToPeer_isOk_iff (mp : MessagePeer) :
    (∃ p, protoPeerToPeer mp = .ok p) ↔ Decodes mp := by
  constructor
  · rintro ⟨p, hp⟩
    obtain ⟨hid, haddr⟩ := protoPeerToPeer_eq_ok_iff.mp hp
    exact ⟨(keyFromBytes_isOk_iff mp.id).mp ⟨_, hid⟩, by simp [haddr]⟩
  · rintro ⟨hid, haddr⟩
    obtain ⟨id, hid⟩ := (keyFromBytes_isOk_iff mp.id).mpr hid
    obtain ⟨a, haddr⟩ := Option.isSome_iff_exists.mp haddr
    exact ⟨⟨id, a⟩, protoPeerToPeer_eq_ok_iff.mpr ⟨hid, haddr⟩⟩

/-- A valid request names its sender by some bytes and by an address that is
text: nothing is said of the number of bytes of the identifier. -/
theorem validateRequest_eq_true_iff (msg : Message) :
    validateRequest msg = true ↔
      ∃ myself, msg.myself = some myself ∧ myself.id ≠ [] ∧ myself.addrs ≠ [] ∧
        (ByteString.fromUtf8 myself.addrs).isSome := by
  unfold validateRequest
  cases msg.myself with
  | none => simp
  | some myself =>
      cases h : ByteString.fromUtf8 myself.addrs <;> simp [h]

/-- The sender of a valid request decodes exactly if its identifier is long
enough. -/
theorem protoPeerToPeer_isOk_of_valid {msg : Message} {myself : MessagePeer}
    (hvalid : validateRequest msg = true) (hmyself : msg.myself = some myself) :
    (∃ p, protoPeerToPeer myself = .ok p) ↔ 16 ≤ myself.id.length := by
  obtain ⟨myself', hmyself', -, -, htext⟩ := (validateRequest_eq_true_iff msg).mp hvalid
  obtain rfl := Option.some.inj (hmyself.symm.trans hmyself')
  rw [protoPeerToPeer_isOk_iff]
  exact and_iff_left htext

/-- The requests of a peer with an address pass the check, whatever else they
carry. -/
theorem validateRequest_of_peer {msg : Message} {p : Peer}
    (hmyself : msg.myself = some (protoPeerFromPeer p)) :
    validateRequest msg = true ↔ p.address ≠ "" := by
  rw [validateRequest_eq_true_iff, hmyself]
  constructor
  · rintro ⟨_, h, -, haddr, -⟩ hempty
    obtain rfl := Option.some.inj h
    exact haddr (by simp [protoPeerFromPeer, hempty])
  · intro hne
    refine ⟨_, rfl, ?_, ?_, by simp [protoPeerFromPeer]⟩
    · rw [← List.length_pos_iff]
      simp [protoPeerFromPeer]
    · simpa [protoPeerFromPeer] using hne

end DhtKad
