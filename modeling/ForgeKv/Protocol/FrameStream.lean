import ForgeKv.Library.Procedure
import ForgeKv.Protocol.Parser

namespace ForgeKv.Protocol
open Raft (Bytes)
open BigEndian

def FrameHeader.front (head : FrameHeader) : Bytes :=
  encode 4 magic ++ (encode 1 version ++ (encode 1 head.messageNamespace.code ++ (encode 1 head.messageType.code ++
    (encode 1 head.flags.toNat ++ (encode 8 head.requestId.toNat ++ encode 4 head.payloadLength)))))

def FrameHeader.bytes (head : FrameHeader) : Bytes := head.front ++ encode 4 head.checksum.toNat

structure FrameHeader.Valid (head : FrameHeader) : Prop where
  matching : messageTypeMatchesNamespace head.messageNamespace head.messageType = true
  flags : head.flags = 0
  size : head.payloadLength ≤ maxPayloadSize

section header
variable {head : FrameHeader} {bytes : Bytes}

@[simp] theorem FrameHeader.front_length (head : FrameHeader) : head.front.length = 20 := by simp [front]

@[simp] theorem FrameHeader.bytes_length (head : FrameHeader) : head.bytes.length = headerSize := by simp [bytes,headerSize]

theorem header_codes (head : FrameHeader) : field head.bytes 0 4 = magic ∧ field head.bytes 4 1 = version ∧
    field head.bytes 5 1 = head.messageNamespace.code ∧ field head.bytes 6 1 = head.messageType.code ∧
    field head.bytes 7 1 = head.flags.toNat := by
  have magical : magic < 256^4 := by decide
  have versioned : version < 256 := by decide
  have namespaced := head.messageNamespace.code_small
  have typed := head.messageType.code_small
  refine ⟨?_,?_,?_,?_,?_⟩ <;> simp (disch := omega) [FrameHeader.bytes,FrameHeader.front,Nat.mod_eq_of_lt]

theorem header_numbers (small : head.payloadLength ≤ maxPayloadSize) : field head.bytes 8 8 = head.requestId.toNat ∧
    field head.bytes 16 4 = head.payloadLength ∧ field head.bytes 20 4 = head.checksum.toNat := by
  have sized : head.payloadLength < 256^4 := Nat.lt_of_le_of_lt small (by decide)
  refine ⟨?_,?_,?_⟩ <;> simp (disch := omega) [FrameHeader.bytes,FrameHeader.front,Nat.mod_eq_of_lt]

theorem decodeHeader_bytes (valid : head.Valid) : Parser.decodeHeader head.bytes = .ok head := by
  obtain ⟨magical,versioned,namespaced,typed,flagged⟩ := header_codes head
  obtain ⟨numbered,sized,summed⟩ := header_numbers valid.size
  have tooLarge : ¬ maxPayloadSize < head.payloadLength := Nat.not_lt.mpr valid.size
  have clear := valid.flags
  unfold Parser.decodeHeader
  simp only [magical,versioned,namespaced,typed,flagged,numbered,sized,summed,Namespace.read_iff.mpr rfl,MessageType.read_code,
    valid.matching,tooLarge,UInt8.ofNat_toNat,UInt64.ofNat_toNat,UInt32.ofNat_toNat,clear]
  obtain ⟨messageNamespace,messageType,flags,requestId,payloadLength,checksum⟩ := head
  simp_all

theorem decodeHeader_ok (decoded : Parser.decodeHeader bytes = .ok head) (whole : bytes.length = headerSize) :
    head.Valid ∧ bytes = head.bytes := by
  simp only [Parser.decodeHeader,ite_ok,not_not] at decoded
  obtain ⟨magical,versioned,decoded⟩ := decoded
  split at decoded
  · cases decoded
  rename_i messageNamespace namespaced
  split at decoded
  · cases decoded
  rename_i messageType typed
  simp only [ite_ok,Except.ok.injEq] at decoded
  obtain ⟨matching,flagged,sized,rfl⟩ := decoded
  unfold headerSize at whole
  refine ⟨⟨by simpa using matching,by simpa using flagged,Nat.not_lt.mp sized⟩,?_⟩
  have flags : (UInt8.ofNat (field bytes 7 1)).toNat = field bytes 7 1 := UInt8.toNat_ofNat_of_lt (field_lt bytes 7 1)
  have request : (UInt64.ofNat (field bytes 8 8)).toNat = field bytes 8 8 := UInt64.toNat_ofNat_of_lt (field_lt bytes 8 8)
  have checksum : (UInt32.ofNat (field bytes 20 4)).toNat = field bytes 20 4 := UInt32.toNat_ofNat_of_lt (field_lt bytes 20 4)
  have last : encode 4 (field bytes 20 4) = bytes.drop 20 := encode_field_last bytes whole
  simp only [FrameHeader.bytes,FrameHeader.front,flags,request,checksum,last,List.append_assoc,← Namespace.read_iff.mp namespaced,
    ← MessageType.read_iff.mp typed,← magical,← versioned]
  simp (disch := omega) only [encode_field_drop,List.drop_zero]

end header

def Frame.header (frame : Frame) : FrameHeader :=
  ⟨frame.messageNamespace,frame.messageType,frame.flags,frame.requestId,frame.payload.length,frame.checksum⟩

theorem validate_iff : validate frame = none ↔ frame.header.Valid := by
  unfold validate
  constructor
  · intro passed
    split at passed
    · cases passed
    rename_i matching
    split at passed
    · cases passed
    rename_i flags
    split at passed
    · cases passed
    rename_i size
    exact ⟨Bool.not_eq_false _ ▸ matching,not_not.mp flags,Nat.not_lt.mp size⟩
  · intro ⟨matching,flags,size⟩
    simp only [Frame.header] at matching flags size
    simp [matching,flags,size]

theorem serialize_iff : serialize frame = .ok image ↔ frame.header.Valid ∧ image = frame.header.bytes ++ frame.payload := by
  have layout : frame.front ++ (encode 4 frame.checksum.toNat ++ frame.payload) = frame.header.bytes ++ frame.payload :=
    (List.append_assoc _ _ _).symm
  unfold serialize
  rw [layout,← validate_iff]
  cases validate frame with
  | none => simp [eq_comm]
  | some => simp

inductive Reading where
  | short
  | bad (error : ProtocolError)
  | frame (frame : Frame) (rest : Bytes)
deriving DecidableEq, Repr

-- What a stream of bytes starts with, seen all at once.
def readFrame (bytes : Bytes) : Reading :=
  if bytes.length < headerSize then .short
  else match Parser.decodeHeader (bytes.take headerSize) with
    | .error error => .bad error
    | .ok head =>
      let payload := (bytes.drop headerSize).take head.payloadLength
      if payload.length < head.payloadLength then .short
      else if Crc32.value (Crc32.update (Crc32.update Crc32.initial head.front) payload) ≠ head.checksum then .bad .checksumMismatch
      else .frame ⟨head.messageNamespace,head.messageType,head.flags,head.requestId,payload⟩
        (bytes.drop (headerSize+head.payloadLength))

theorem readFrame_frame : readFrame bytes = .frame frame rest ↔ ∃ image, serialize frame = .ok image ∧ bytes = image ++ rest := by
  constructor
  · intro found
    unfold readFrame at found
    split at found
    · cases found
    split at found
    · cases found
    rename_i head decoded
    dsimp only at found
    split at found
    · cases found
    rename_i full
    split at found
    · cases found
    rename_i sum
    have whole : (bytes.take headerSize).length = headerSize := by
      rw [List.length_take]
      omega
    obtain ⟨valid,front⟩ := decodeHeader_ok decoded whole
    have size : ((bytes.drop headerSize).take head.payloadLength).length = head.payloadLength := by
      rw [List.length_take] at full ⊢
      omega
    cases found
    have same : Frame.header ⟨head.messageNamespace,head.messageType,head.flags,head.requestId,
        (bytes.drop headerSize).take head.payloadLength⟩ = head := by
      have fronts : Frame.front ⟨head.messageNamespace,head.messageType,head.flags,head.requestId,
          (bytes.drop headerSize).take head.payloadLength⟩ = head.front := by
        simp only [Frame.front,FrameHeader.front,size]
      simp only [Frame.header,Frame.checksum,fronts,size,not_not.mp sum]
    refine ⟨_,serialize_iff.mpr ⟨by rw [same]; exact valid,rfl⟩,?_⟩
    rw [same,← front,List.append_assoc,slice_drop,List.take_append_drop]
  · intro ⟨image,serialized,same⟩
    obtain ⟨valid,rfl⟩ := serialize_iff.mp serialized
    subst same
    have front : (frame.header.bytes ++ frame.payload ++ rest).take headerSize = frame.header.bytes := by
      rw [List.append_assoc,List.take_append_of_le_length (by simp),List.take_of_length_le (by simp)]
    have body : (frame.header.bytes ++ frame.payload ++ rest).drop headerSize = frame.payload ++ rest := by
      rw [List.append_assoc,List.drop_left' (by simp)]
    have behind : (frame.header.bytes ++ frame.payload ++ rest).drop (headerSize+frame.payload.length) = rest :=
      List.drop_left' (by simp)
    have long : ¬ (frame.header.bytes ++ frame.payload ++ rest).length < headerSize := by simp
    have payload : (frame.payload ++ rest).take frame.header.payloadLength = frame.payload := List.take_left
    have full : ¬ frame.payload.length < frame.header.payloadLength := Nat.lt_irrefl _
    have sum : ¬ Crc32.value (Crc32.update (Crc32.update Crc32.initial frame.header.front) frame.payload) ≠ frame.header.checksum :=
      not_not.mpr rfl
    unfold readFrame
    rw [if_neg long,front,decodeHeader_bytes valid]
    dsimp only
    rw [body,payload,if_neg full,if_neg sum]
    exact congrArg (Reading.frame frame) behind

-- A whole stream: its frames, the error that stops it, the bytes still held.
inductive Reads : Bytes → List Frame → Option ProtocolError → Bytes → Prop where
  | short (waits : readFrame bytes = .short) : Reads bytes [] none bytes
  | bad (broken : readFrame bytes = .bad error) : Reads bytes [] (some error) []
  | frame (found : readFrame bytes = .frame frame rest) (later : Reads rest frames error held) :
    Reads bytes (frame::frames) error held

theorem serialize_length (serialized : serialize frame = .ok image) : headerSize ≤ image.length := by
  obtain ⟨_,rfl⟩ := serialize_iff.mp serialized
  simp

theorem readFrame_shorter (found : readFrame bytes = .frame frame rest) : rest.length < bytes.length := by
  obtain ⟨image,serialized,rfl⟩ := readFrame_frame.mp found
  have long := serialize_length serialized
  unfold headerSize at long
  rw [List.length_append]
  omega

theorem reads_exists (bytes : Bytes) : ∃ frames error held, Reads bytes frames error held := by
  induction size : bytes.length using Nat.strongRecOn generalizing bytes with
  | ind size ih =>
    cases found : readFrame bytes with
    | short => exact ⟨[],none,bytes,.short found⟩
    | bad error => exact ⟨[],some error,[],.bad found⟩
    | frame frame rest =>
      obtain ⟨frames,error,held,later⟩ := ih rest.length (size ▸ readFrame_shorter found) rest rfl
      exact ⟨frame::frames,error,held,.frame found later⟩

theorem readFrame_nil : readFrame [] = .short := rfl

theorem Reads.held_short (reads : Reads bytes frames error held) : readFrame held = .short := by
  induction reads with
  | short waits => exact waits
  | bad => rfl
  | frame _ _ ih => exact ih

theorem short_before (waits : readFrame held = .short) (found : readFrame (held ++ input) = .frame frame rest) :
    rest.length < input.length := by
  obtain ⟨image,serialized,same⟩ := readFrame_frame.mp found
  apply Nat.lt_of_not_le
  intro more
  have lengths := congrArg List.length same
  rw [List.length_append,List.length_append] at lengths
  obtain ⟨early,rfl⟩ := List.prefix_of_prefix_length_le ⟨rest,same.symm⟩ (List.prefix_append held input) (by omega)
  have ended : readFrame (image ++ early) = .frame frame early := readFrame_frame.mpr ⟨image,serialized,rfl⟩
  rw [ended] at waits
  cases waits

section
variable (reads : Reads bytes frames error held)
include reads

theorem Reads.of_short (waits : readFrame bytes = .short) :
    frames = [] ∧ error = none ∧ held = bytes := by
  cases reads with
  | short => exact ⟨rfl,rfl,rfl⟩
  | bad stops =>
    rw [stops] at waits
    cases waits
  | frame found =>
    rw [found] at waits
    cases waits

theorem Reads.of_bad (stops : readFrame bytes = .bad reason) :
    frames = [] ∧ error = some reason ∧ held = [] := by
  cases reads with
  | short waits =>
    rw [waits] at stops
    cases stops
  | bad stops' =>
    rw [stops'] at stops
    cases stops
    exact ⟨rfl,rfl,rfl⟩
  | frame found =>
    rw [found] at stops
    cases stops

theorem Reads.of_frame (found : readFrame bytes = .frame first rest) :
    ∃ later, frames = first::later ∧ Reads rest later error held := by
  cases reads with
  | short waits =>
    rw [waits] at found
    cases found
  | bad stops =>
    rw [stops] at found
    cases found
  | frame found' later =>
    rw [found'] at found
    cases found
    exact ⟨_,rfl,later⟩

theorem Reads.unique (other : Reads bytes frames' error' held') :
    frames' = frames ∧ error' = error ∧ held' = held := by
  induction reads generalizing frames' with
  | short waits => exact other.of_short waits
  | bad stops => exact other.of_bad stops
  | frame found _ ih =>
    obtain ⟨later,rfl,rest⟩ := other.of_frame found
    obtain ⟨rfl,rfl,rfl⟩ := ih rest
    exact ⟨rfl,rfl,rfl⟩

end

theorem readFrame_append (found : readFrame bytes = .frame frame rest) (more : Bytes) :
    readFrame (bytes ++ more) = .frame frame (rest ++ more) := by
  obtain ⟨image,serialized,rfl⟩ := readFrame_frame.mp found
  exact readFrame_frame.mpr ⟨image,serialized,List.append_assoc _ _ _⟩

theorem bad_append (stops : readFrame bytes = .bad error) (more : Bytes) : readFrame (bytes ++ more) = .bad error := by
  unfold readFrame at stops ⊢
  split at stops
  · cases stops
  rename_i long
  have many := Nat.not_lt.mp long
  rw [if_neg (by rw [List.length_append]; omega),List.take_append_of_le_length many]
  cases decoded : Parser.decodeHeader (bytes.take headerSize) with
  | error =>
    rw [decoded] at stops
    exact stops
  | ok head =>
  rw [decoded] at stops
  dsimp only at stops ⊢
  split at stops
  · cases stops
  rename_i full
  rw [List.length_take,List.length_drop] at full
  have same : ((bytes ++ more).drop headerSize).take head.payloadLength = (bytes.drop headerSize).take head.payloadLength := by
    rw [List.drop_append_of_le_length many,List.take_append_of_le_length (by rw [List.length_drop]; omega)]
  have full' : ¬ ((bytes.drop headerSize).take head.payloadLength).length < head.payloadLength := by
    rw [List.length_take,List.length_drop]
    exact full
  rw [same,if_neg full']
  split at stops
  · rename_i mismatch
    rw [if_pos mismatch]
    exact stops
  · cases stops

theorem Reads.append (reads : Reads bytes frames error held) (clean : error = none) (later : Reads (held ++ more) frames' error' held') :
    Reads (bytes ++ more) (frames ++ frames') error' held' := by
  induction reads with
  | short => exact later
  | bad => cases clean
  | frame found _ ih => exact .frame (readFrame_append found more) (ih clean later)

theorem Reads.stays (reads : Reads bytes frames error held) (wrong : error ≠ none) (more : Bytes) :
    Reads (bytes ++ more) frames error held := by
  induction reads with
  | short => exact absurd rfl wrong
  | bad stops => exact .bad (bad_append stops more)
  | frame found _ ih => exact .frame (readFrame_append found more) (ih wrong)

-- The bytes of a list of frames that serialize accepts.
def Concatenation (frames : List Frame) (bytes : Bytes) : Prop :=
  ∃ images, List.Forall₂ (fun frame image => serialize frame = .ok image) frames images ∧ bytes = images.flatten

theorem Reads.split (reads : Reads bytes frames error held) : ∃ valid rest, bytes = valid ++ rest ∧ Concatenation frames valid ∧
    (error = none → rest = held) := by
  induction reads with
  | short => exact ⟨[],_,rfl,⟨[],.nil,rfl⟩,fun _ => rfl⟩
  | bad => exact ⟨[],_,rfl,⟨[],.nil,rfl⟩,nofun⟩
  | frame found _ ih =>
    obtain ⟨-,rest,rfl,⟨images,serialized,rfl⟩,clean⟩ := ih
    obtain ⟨image,made,rfl⟩ := readFrame_frame.mp found
    exact ⟨image ++ images.flatten,rest,(List.append_assoc _ _ _).symm,⟨image::images,.cons made serialized,rfl⟩,clean⟩

theorem reads_concatenation (serialized : List.Forall₂ (fun frame image => serialize frame = .ok image) frames images)
    (later : Reads rest frames' error held) : Reads (images.flatten ++ rest) (frames ++ frames') error held := by
  induction serialized with
  | nil => exact later
  | cons made _ ih =>
    refine .frame (readFrame_frame.mpr ⟨_,made,?_⟩) ih
    rw [List.flatten_cons,List.append_assoc]

theorem reads_iff : Reads bytes frames none [] ↔ Concatenation frames bytes := by
  constructor
  · intro reads
    obtain ⟨valid,rest,rfl,concatenation,clean⟩ := reads.split
    rwa [clean rfl,List.append_nil]
  · intro ⟨images,serialized,same⟩
    have reads := reads_concatenation serialized (.short readFrame_nil)
    rwa [List.append_nil,List.append_nil,← same] at reads

-- No list of frames takes more of a stream than the frames it reads as.
def LongestValid (frames : List Frame) (bytes : Bytes) : Prop :=
  ∃ valid rest, bytes = valid ++ rest ∧ Concatenation frames valid ∧
    ∀ others front back, bytes = front ++ back → Concatenation others front → front.length ≤ valid.length

theorem images_prefix (serialized : List.Forall₂ (fun frame image => serialize frame = .ok image) frames images)
    (longer : List.Forall₂ (fun frame image => serialize frame = .ok image) (frames ++ later) images') :
    images.flatten.length ≤ images'.flatten.length := by
  induction serialized generalizing images' with
  | nil => exact Nat.zero_le _
  | cons made _ ih =>
    cases longer with
    | cons made' rest =>
      cases made.symm.trans made'
      rw [List.flatten_cons,List.flatten_cons,List.length_append,List.length_append]
      exact Nat.add_le_add_left (ih rest) _

theorem Reads.longest (reads : Reads bytes frames error held) : LongestValid frames bytes := by
  obtain ⟨valid,rest,whole,⟨images,serialized,same⟩,_⟩ := reads.split
  refine ⟨valid,rest,whole,⟨images,serialized,same⟩,?_⟩
  intro others front back whole' ⟨images',serialized',same'⟩
  obtain ⟨later,error',held',following⟩ := reads_exists back
  have reads' := reads_concatenation serialized' following
  rw [← same',← whole'] at reads'
  obtain ⟨rfl,-,-⟩ := reads'.unique reads
  rw [same,same']
  exact images_prefix serialized' serialized

end ForgeKv.Protocol
