import ForgeKv.Raft.Types

namespace ForgeKv.Protocol
open Raft (Bytes)

def magic : Nat := 0x464B5631
def version : Nat := 1
def headerSize : Nat := 24
def maxKeySize : Nat := 1024
def maxValueSize : Nat := 1024*1024
def maxClientCommandSize : Nat := maxKeySize+maxValueSize+64
def maxPayloadSize : Nat := maxKeySize+maxValueSize+256
def maxFrameSize : Nat := headerSize+maxPayloadSize

inductive Namespace where
  | client
  | raft
deriving DecidableEq, Repr

inductive MessageType where
  | put
  | get
  | deleteKey
  | ping
  | raftAppendEntries
  | raftRequestVote
  | raftInstallSnapshot
  | ok
  | notFound
  | error
  | redirect
  | busy
deriving DecidableEq, Repr

-- ProtocolError::none is the empty option.
inductive ProtocolError where
  | invalidMagic
  | unsupportedVersion
  | invalidNamespace
  | invalidMessageType
  | messageTypeNamespaceMismatch
  | unsupportedFlags
  | payloadTooLarge
  | checksumMismatch
  | truncatedFrame
  | parserFailed
deriving DecidableEq, Repr

-- std::uint64_t request_id
structure Frame where
  messageNamespace : Namespace
  messageType : MessageType
  flags : UInt8
  requestId : UInt64
  payload : Bytes
deriving DecidableEq, Repr

structure FrameHeader where
  messageNamespace : Namespace
  messageType : MessageType
  flags : UInt8
  requestId : UInt64
  payloadLength : Nat
  checksum : UInt32
deriving DecidableEq, Repr

def FrameHeader.initial : FrameHeader := ⟨.client,.ping,0,0,0,0⟩

def Namespace.code : Namespace → Nat
  | .client => 1
  | .raft => 2

-- The cast of a byte, and is_valid_namespace of the result.
def Namespace.read (byte : Nat) : Option Namespace :=
  if byte = 1 then some .client else if byte = 2 then some .raft else none

def MessageType.code : MessageType → Nat
  | .put => 0x01
  | .get => 0x02
  | .deleteKey => 0x03
  | .ping => 0x04
  | .raftAppendEntries => 0x40
  | .raftRequestVote => 0x41
  | .raftInstallSnapshot => 0x42
  | .ok => 0x80
  | .notFound => 0x81
  | .error => 0x82
  | .redirect => 0x83
  | .busy => 0x84

def messageTypes : List MessageType :=
  [.put,.get,.deleteKey,.ping,.raftAppendEntries,.raftRequestVote,.raftInstallSnapshot,.ok,.notFound,.error,.redirect,.busy]

-- The cast of a byte, and is_valid_message_type of the result.
def MessageType.read (byte : Nat) : Option MessageType := messageTypes.find? (·.code == byte)

def isClientMessageType : MessageType → Bool
  | .put | .get | .deleteKey | .ping | .ok | .notFound | .error | .redirect | .busy => true
  | .raftAppendEntries | .raftRequestVote | .raftInstallSnapshot => false

def isRaftMessageType : MessageType → Bool
  | .raftAppendEntries | .raftRequestVote | .raftInstallSnapshot => true
  | _ => false

def messageTypeMatchesNamespace (messageNamespace : Namespace) (messageType : MessageType) : Bool :=
  (messageNamespace == .client && isClientMessageType messageType) || (messageNamespace == .raft && isRaftMessageType messageType)

theorem Namespace.read_iff : Namespace.read byte = some messageNamespace ↔ byte = messageNamespace.code := by
  unfold Namespace.read
  cases messageNamespace <;> split <;> simp_all [Namespace.code]

theorem MessageType.read_code (type : MessageType) : MessageType.read type.code = some type := by cases type <;> rfl

theorem MessageType.read_iff : MessageType.read byte = some type ↔ byte = type.code := by
  constructor
  · intro found
    have same := List.find?_some found
    exact (beq_iff_eq.mp same).symm
  · intro same
    rw [same,read_code]

theorem Namespace.code_small (messageNamespace : Namespace) : messageNamespace.code < 256 := by cases messageNamespace <;> decide

theorem MessageType.code_small (type : MessageType) : type.code < 256 := by cases type <;> decide

end ForgeKv.Protocol
