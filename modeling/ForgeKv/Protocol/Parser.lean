import ForgeKv.Protocol.Frame
import ForgeKv.Protocol.Slicing

namespace ForgeKv.Protocol
open Raft (Bytes)
open BigEndian

-- A namespace or a type outside its enumeration is no value here, so the first
-- two checks of the source always pass.
def validate (frame : Frame) : Option ProtocolError :=
  if messageTypeMatchesNamespace frame.messageNamespace frame.messageType = false then some .messageTypeNamespaceMismatch
  else if frame.flags ≠ 0 then some .unsupportedFlags
  else if maxPayloadSize < frame.payload.length then some .payloadTooLarge
  else none

-- The first twenty bytes, which the checksum covers.
def Frame.front (frame : Frame) : Bytes :=
  encode 4 magic ++ (encode 1 version ++ (encode 1 frame.messageNamespace.code ++ (encode 1 frame.messageType.code ++
    (encode 1 frame.flags.toNat ++ (encode 8 frame.requestId.toNat ++ encode 4 frame.payload.length)))))

def Frame.checksum (frame : Frame) : UInt32 :=
  Crc32.value (Crc32.update (Crc32.update Crc32.initial frame.front) frame.payload)

def serialize (frame : Frame) : Except ProtocolError Bytes :=
  match validate frame with
  | some error => .error error
  | none => .ok (frame.front ++ (encode 4 frame.checksum.toNat ++ frame.payload))

-- Of the arrays header_ and payload_ only the bytes received are kept: header_bytes_
-- and payload_bytes_ are their lengths, and payloadSize is payload_.size().
structure Parser where
  header : Bytes
  currentHeader : FrameHeader
  payload : Bytes
  payloadSize : Nat
  checksum : UInt32
  awaitingPayload : Bool
  failed : Bool
deriving DecidableEq, Repr

structure ParseBatch where
  frames : List Frame
  error : Option ProtocolError
deriving DecidableEq, Repr

namespace Parser

def fresh : Parser := ⟨[],.initial,[],0,Crc32.initial,false,false⟩

def bufferedBytes (parser : Parser) : Nat := parser.header.length+parser.payload.length

def resetFrameState (parser : Parser) : Parser := {fresh with failed := parser.failed}

def fail (parser : Parser) (error : ProtocolError) (frames : List Frame) : Parser × ParseBatch :=
  ({parser with failed := true}.resetFrameState,⟨frames,some error⟩)

def decodeHeader (bytes : Bytes) : Except ProtocolError FrameHeader :=
  if field bytes 0 4 ≠ magic then .error .invalidMagic
  else if field bytes 4 1 ≠ version then .error .unsupportedVersion
  else match Namespace.read (field bytes 5 1) with
    | none => .error .invalidNamespace
    | some messageNamespace => match MessageType.read (field bytes 6 1) with
      | none => .error .invalidMessageType
      | some messageType =>
        if messageTypeMatchesNamespace messageNamespace messageType = false then .error .messageTypeNamespaceMismatch
        else
          let flags := UInt8.ofNat (field bytes 7 1)
          if flags ≠ 0 then .error .unsupportedFlags
          else
            let payloadLength := field bytes 16 4
            if maxPayloadSize < payloadLength then .error .payloadTooLarge
            else .ok
              {messageNamespace := messageNamespace
               messageType := messageType
               flags := flags
               requestId := UInt64.ofNat (field bytes 8 8)
               payloadLength := payloadLength
               checksum := UInt32.ofNat (field bytes 20 4)}

-- How a part of the loop of consume ends: at the next part, or out of the loop.
inductive Phase where
  | next (parser : Parser) (frames : List Frame) (input : Bytes)
  | leave (parser : Parser) (batch : ParseBatch)

def completeFrame (parser : Parser) (frames : List Frame) (input : Bytes) : Phase :=
  let head := parser.currentHeader
  if Crc32.value parser.checksum ≠ head.checksum then
    let (broken,batch) := parser.fail .checksumMismatch frames
    .leave broken batch
  else .next parser.resetFrameState
    (frames ++ [⟨head.messageNamespace,head.messageType,head.flags,head.requestId,parser.payload⟩]) input

-- The part of the loop that runs while no payload is awaited.
def takeHeader (parser : Parser) (frames : List Frame) (input : Bytes) : Phase :=
  if parser.awaitingPayload then .next parser frames input
  else
    let count := min (headerSize-parser.header.length) input.length
    let filled := {parser with header := parser.header ++ input.take count}
    if filled.header.length ≠ headerSize then .leave filled ⟨frames,none⟩
    else match decodeHeader filled.header with
      | .error error =>
        let (broken,batch) := filled.fail error frames
        .leave broken batch
      | .ok head =>
        let ready :=
          {filled with
            currentHeader := head
            payload := []
            payloadSize := head.payloadLength
            checksum := Crc32.update Crc32.initial (filled.header.take 20)
            awaitingPayload := true}
        if ready.payloadSize = 0 then ready.completeFrame frames (input.drop count)
        else .next ready frames (input.drop count)

-- The part that runs while a payload is awaited.
def takePayload (parser : Parser) (frames : List Frame) (input : Bytes) : Phase :=
  if parser.awaitingPayload = false ∨ input = [] then .next parser frames input
  else
    let count := min (parser.payloadSize-parser.payload.length) input.length
    let chunk := input.take count
    let filled := {parser with payload := parser.payload ++ chunk,checksum := Crc32.update parser.checksum chunk}
    if filled.payload.length = filled.payloadSize then filled.completeFrame frames (input.drop count)
    else .next filled frames (input.drop count)

-- The body of the loop of consume.
def turn (parser : Parser) (frames : List Frame) (input : Bytes) : Phase :=
  match parser.takeHeader frames input with
  | .leave parser batch => .leave parser batch
  | .next parser frames input => parser.takePayload frames input

-- The loop of consume. Every turn takes a byte, so as many turns as there are
-- bytes are enough (consumeFrom_reads).
def consumeFrom : Nat → Parser → List Frame → Bytes → Parser × ParseBatch
  | 0,parser,frames,_ => (parser,⟨frames,none⟩)
  | turns+1,parser,frames,input =>
    if input = [] then (parser,⟨frames,none⟩)
    else match parser.turn frames input with
      | .leave parser batch => (parser,batch)
      | .next parser frames input => consumeFrom turns parser frames input

def consume (parser : Parser) (input : Bytes) : Parser × ParseBatch :=
  if parser.failed then (parser,⟨[],some .parserFailed⟩)
  else parser.consumeFrom input.length [] input

def finish (parser : Parser) : Parser × Option ProtocolError :=
  if parser.failed then (parser,some .parserFailed)
  else if parser.header ≠ [] ∨ parser.awaitingPayload then ({parser with failed := true}.resetFrameState,some .truncatedFrame)
  else (parser,none)

end Parser

end ForgeKv.Protocol
