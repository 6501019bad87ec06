import ForgeKv.Protocol.FrameStream

namespace ForgeKv.Protocol
open Raft (Bytes)
open BigEndian

namespace Parser

-- The parser that holds the bytes of an unfinished frame.
def holding (held : Bytes) : Parser :=
  if held.length < headerSize then {fresh with header := held}
  else match decodeHeader (held.take headerSize) with
    | .error _ => fresh
    | .ok head =>
      {header := held.take headerSize
       currentHeader := head
       payload := held.drop headerSize
       payloadSize := head.payloadLength
       checksum := Crc32.update (Crc32.update Crc32.initial head.front) (held.drop headerSize)
       awaitingPayload := true
       failed := false}

def broken : Parser := {fresh with failed := true}

-- What a part of the loop may end with when the bytes so far are all.
inductive Ends (frames : List Frame) (all : Bytes) : Phase → Prop where
  | leaves (waits : readFrame all = .short) : Ends frames all (.leave (holding all) ⟨frames,none⟩)
  | waits (waits : readFrame all = .short) : Ends frames all (.next (holding all) frames [])
  | bad (stops : readFrame all = .bad error) : Ends frames all (.leave broken ⟨frames,some error⟩)
  | frame (found : readFrame all = .frame frame rest) : Ends frames all (.next fresh (frames ++ [frame]) rest)

section turn
variable {held input all : Bytes} {head : FrameHeader} {frames : List Frame}

theorem holding_short (few : held.length < headerSize) : holding held = {fresh with header := held} := if_pos few

theorem holding_long (many : headerSize ≤ held.length) (decoded : decodeHeader (held.take headerSize) = .ok head) :
    holding held = ⟨held.take headerSize,head,held.drop headerSize,head.payloadLength,
      Crc32.update (Crc32.update Crc32.initial head.front) (held.drop headerSize),true,false⟩ := by
  unfold holding
  rw [if_neg (Nat.not_lt.mpr many),decoded]

theorem completeFrame_ends (many : headerSize ≤ all.length) (decoded : decodeHeader (all.take headerSize) = .ok head)
    (full : headerSize+head.payloadLength ≤ all.length) :
    Ends frames all (completeFrame ⟨all.take headerSize,head,(all.drop headerSize).take head.payloadLength,head.payloadLength,
      Crc32.update (Crc32.update Crc32.initial head.front) ((all.drop headerSize).take head.payloadLength),true,false⟩ frames
      (all.drop (headerSize+head.payloadLength))) := by
  have size : ¬ ((all.drop headerSize).take head.payloadLength).length < head.payloadLength := by
    rw [List.length_take,List.length_drop]
    omega
  unfold completeFrame
  dsimp only
  split
  · rename_i mismatch
    apply Ends.bad
    unfold readFrame
    rw [if_neg (Nat.not_lt.mpr many),decoded]
    dsimp only
    rw [if_neg size,if_pos mismatch]
  · rename_i sum
    apply Ends.frame
    unfold readFrame
    rw [if_neg (Nat.not_lt.mpr many),decoded]
    dsimp only
    rw [if_neg size,if_neg sum]

theorem readFrame_waits (many : headerSize ≤ all.length) (decoded : decodeHeader (all.take headerSize) = .ok head)
    (partial' : all.length < headerSize+head.payloadLength) : readFrame all = .short := by
  unfold readFrame
  rw [if_neg (Nat.not_lt.mpr many),decoded]
  dsimp only
  rw [if_pos]
  rw [List.length_take,List.length_drop]
  omega

theorem waiting_header (many : headerSize ≤ held.length) (waits : readFrame held = .short) :
    ∃ head, decodeHeader (held.take headerSize) = .ok head ∧ held.length < headerSize+head.payloadLength := by
  unfold readFrame at waits
  rw [if_neg (Nat.not_lt.mpr many)] at waits
  split at waits
  · cases waits
  rename_i head decoded
  dsimp only at waits
  split at waits
  · rename_i few
    rw [List.length_take,List.length_drop] at few
    exact ⟨head,decoded,by omega⟩
  · split at waits <;> cases waits

theorem filled_take (inside : held.length ≤ size) :
    held ++ input.take (min (size-held.length) input.length) = (held ++ input).take size := by
  have taken : input.take (min (size-held.length) input.length) = input.take (size-held.length) := by
    simp [List.take_eq_take_iff]
  rw [taken,List.take_append,List.take_of_length_le inside]

theorem filled_drop (inside : held.length ≤ size) :
    input.drop (min (size-held.length) input.length) = (held ++ input).drop size := by
  have left : input.drop (min (size-held.length) input.length) = input.drop (size-held.length) := by
    simp [List.drop_eq_drop_iff]
  rw [left,List.drop_append,List.drop_eq_nil_of_le inside,List.nil_append]

theorem takePayload_ends (many : headerSize ≤ held.length) (waits : readFrame held = .short) (some : input ≠ []) :
    Ends frames (held ++ input) (takePayload (holding held) frames input) := by
  obtain ⟨head,decoded,few⟩ := waiting_header many waits
  have front : (held ++ input).take headerSize = held.take headerSize := List.take_append_of_le_length many
  have body : (held ++ input).drop headerSize = held.drop headerSize ++ input := List.drop_append_of_le_length many
  have whole : headerSize ≤ (held ++ input).length := by
    rw [List.length_append]
    omega
  have decoded' : decodeHeader ((held ++ input).take headerSize) = .ok head := by rw [front,decoded]
  have inside : (held.drop headerSize).length ≤ head.payloadLength := by
    rw [List.length_drop]
    omega
  rw [holding_long many decoded]
  unfold takePayload
  dsimp only
  rw [if_neg (by simp [some]),filled_take inside,filled_drop inside,
    ← update_append (Crc32.update Crc32.initial head.front),filled_take inside,← body,List.drop_drop,← front]
  split
  · rename_i full
    rw [List.length_take,List.length_drop] at full
    exact completeFrame_ends whole decoded' (by omega)
  · rename_i less
    have behind : (held ++ input).length < headerSize+head.payloadLength := by
      rw [List.length_take,List.length_drop] at less
      omega
    have none : (held ++ input).drop (headerSize+head.payloadLength) = [] := List.drop_eq_nil_of_le (Nat.le_of_lt behind)
    have all : ((held ++ input).drop headerSize).take head.payloadLength = (held ++ input).drop headerSize := by
      apply List.take_of_length_le
      rw [List.length_drop]
      omega
    rw [none,all,← holding_long whole decoded']
    exact .waits (readFrame_waits whole decoded' behind)

theorem takePayload_idle (parser : Parser) : takePayload parser frames [] = .next parser frames [] := by simp [takePayload]

theorem turn_ended (ends : Ends frames all (takeHeader parser earlier input)) : Ends frames all (turn parser earlier input) := by
  unfold turn
  generalize takeHeader parser earlier input = phase at ends
  cases ends with
  | leaves waits => exact .leaves waits
  | bad stops => exact .bad stops
  | waits waits =>
    dsimp only
    rw [takePayload_idle]
    exact .waits waits
  | frame found =>
    exact .frame found

theorem takeHeader_ends (few : held.length < headerSize) :
    Ends frames (held ++ input) (takeHeader (holding held) frames input) ∨
      (takeHeader (holding held) frames input =
          .next (holding ((held ++ input).take headerSize)) frames ((held ++ input).drop headerSize) ∧
        headerSize ≤ (held ++ input).length ∧ readFrame ((held ++ input).take headerSize) = .short) := by
  unfold takeHeader
  rw [holding_short few]
  simp only [fresh,Bool.false_eq_true,if_false]
  rw [filled_take (Nat.le_of_lt few),filled_drop (Nat.le_of_lt few)]
  generalize held ++ input = all
  by_cases many : headerSize ≤ all.length
  · have whole : (all.take headerSize).length = headerSize := List.length_take_of_le many
    rw [if_neg (not_not.mpr whole)]
    cases decoded : decodeHeader (all.take headerSize) with
    | error =>
      left
      apply Ends.bad
      unfold readFrame
      rw [if_neg (Nat.not_lt.mpr many),decoded]
    | ok head =>
      obtain ⟨_,same⟩ := decodeHeader_ok decoded whole
      have front : (all.take headerSize).take 20 = head.front := by
        rw [same,FrameHeader.bytes,List.take_append_of_le_length (by simp),List.take_of_length_le (by simp)]
      dsimp only
      rw [front]
      by_cases empty : head.payloadLength = 0
      · left
        have complete : Ends frames all _ := completeFrame_ends many decoded (by omega)
        simp only [empty,List.take_zero,Nat.add_zero] at complete ⊢
        exact complete
      · right
        have self : (all.take headerSize).take headerSize = all.take headerSize := List.take_of_length_le (Nat.le_of_eq whole)
        have decoded' : decodeHeader ((all.take headerSize).take headerSize) = .ok head := by rw [self,decoded]
        have none : (all.take headerSize).drop headerSize = [] := List.drop_eq_nil_of_le (Nat.le_of_eq whole)
        rw [if_neg empty,holding_long (Nat.le_of_eq whole.symm) decoded',self,none]
        exact ⟨rfl,many,readFrame_waits (Nat.le_of_eq whole.symm) decoded' (by omega)⟩
  · left
    have less := Nat.not_le.mp many
    have self : all.take headerSize = all := List.take_of_length_le (Nat.le_of_lt less)
    rw [self,if_pos (Nat.ne_of_lt less)]
    have waits : readFrame all = .short := if_pos less
    have leaves : Ends frames all _ := .leaves waits
    rw [holding_short less] at leaves
    exact leaves

theorem turn_ends (waits : readFrame held = .short) (some : input ≠ []) :
    Ends frames (held ++ input) (turn (holding held) frames input) := by
  by_cases many : headerSize ≤ held.length
  · obtain ⟨head,decoded,_⟩ := waiting_header many waits
    have awaiting : (holding held).awaitingPayload = true := by rw [holding_long many decoded]
    unfold turn takeHeader
    rw [if_pos awaiting]
    exact takePayload_ends many waits some
  · rcases takeHeader_ends (Nat.not_le.mp many) with ends | ⟨taken,long,short⟩
    · exact turn_ended ends
    · unfold turn
      rw [taken]
      dsimp only
      by_cases none : (held ++ input).drop headerSize = []
      · have self : (held ++ input).take headerSize = held ++ input := by
          apply List.take_of_length_le
          exact List.drop_eq_nil_iff.mp none
        rw [none,takePayload_idle,self]
        rw [self] at short
        exact .waits short
      · have ends : Ends frames _ _ := takePayload_ends (Nat.le_of_eq (List.length_take_of_le long).symm) short none
        rwa [List.take_append_drop] at ends

end turn

def ending (error : Option ProtocolError) (held : Bytes) : Parser := if error = none then holding held else broken

theorem holding_nil : holding [] = fresh := rfl

theorem consumeFrom_nil (turns : Nat) (parser : Parser) : consumeFrom turns parser done [] = (parser,⟨done,none⟩) := by
  cases turns <;> simp [consumeFrom]

-- A run of the loop reads the stream of what was held and what came. A frame that
-- ends in the input leaves less of it, so the turns last.
theorem consumeFrom_reads (waits : readFrame held = .short) (enough : input.length ≤ turns)
    (reads : Reads (held ++ input) frames error rest) :
    consumeFrom turns (holding held) done input = (ending error rest,⟨done ++ frames,error⟩) := by
  induction turns generalizing held done input frames with
  | zero =>
    have none : input = [] := List.eq_nil_of_length_eq_zero (Nat.le_zero.mp enough)
    subst none
    rw [List.append_nil] at reads
    obtain ⟨rfl,rfl,rfl⟩ := reads.of_short waits
    simp [consumeFrom,ending]
  | succ turns ih =>
    by_cases none : input = []
    · subst none
      rw [List.append_nil] at reads
      obtain ⟨rfl,rfl,rfl⟩ := reads.of_short waits
      simp [consumeFrom,ending]
    have ends : Ends done _ _ := turn_ends waits none
    rw [consumeFrom,if_neg none]
    generalize turn (holding held) done input = phase at ends
    cases ends with
    | leaves short =>
      obtain ⟨rfl,rfl,rfl⟩ := reads.of_short short
      simp [ending]
    | waits short =>
      obtain ⟨rfl,rfl,rfl⟩ := reads.of_short short
      simp [ending,consumeFrom_nil]
    | bad stops =>
      obtain ⟨rfl,rfl,rfl⟩ := reads.of_bad stops
      simp [ending]
    | frame found =>
      obtain ⟨later,rfl,following⟩ := reads.of_frame found
      have fewer := short_before waits found
      dsimp only
      rw [← holding_nil,ih readFrame_nil (Nat.le_of_lt_succ (Nat.lt_of_lt_of_le fewer enough)) following,
        List.append_assoc,List.singleton_append]

theorem holding_failed (held : Bytes) : (holding held).failed = false := by
  unfold holding
  split
  · rfl
  · split <;> rfl

theorem consume_reads (waits : readFrame held = .short) (reads : Reads (held ++ input) frames error rest) :
    consume (holding held) input = (ending error rest,⟨frames,error⟩) := by
  unfold consume
  rw [holding_failed,if_neg Bool.false_ne_true,consumeFrom_reads waits (Nat.le_refl _) reads,List.nil_append]

-- The calls of consume on the chunks of a stream, one after another.
def feed : Parser → List Bytes → Parser × List ParseBatch
  | parser,[] => (parser,[])
  | parser,chunk::chunks =>
    let (next,batch) := parser.consume chunk
    let (last,batches) := feed next chunks
    (last,batch::batches)

def allFrames (batches : List ParseBatch) : List Frame := batches.flatMap ParseBatch.frames

def firstError (batches : List ParseBatch) : Option ProtocolError := batches.findSome? ParseBatch.error

theorem feed_broken (chunks : List Bytes) : (feed broken chunks).1 = broken ∧ allFrames (feed broken chunks).2 = [] := by
  induction chunks with
  | nil => exact ⟨rfl,rfl⟩
  | cons chunk chunks ih =>
    exact ⟨ih.1,ih.2⟩

theorem feed_reads (waits : readFrame held = .short) (reads : Reads (held ++ chunks.flatten) frames error rest) :
    (feed (holding held) chunks).1 = ending error rest ∧ allFrames (feed (holding held) chunks).2 = frames ∧
      firstError (feed (holding held) chunks).2 = error := by
  induction chunks generalizing held frames with
  | nil =>
    rw [List.flatten_nil,List.append_nil] at reads
    obtain ⟨rfl,rfl,rfl⟩ := reads.of_short waits
    exact ⟨by simp [feed,ending],rfl,rfl⟩
  | cons chunk chunks ih =>
    obtain ⟨first,stop,middle,step⟩ := reads_exists (held ++ chunk)
    rw [List.flatten_cons,← List.append_assoc] at reads
    have taken := consume_reads waits step
    simp only [feed,taken]
    cases stop with
    | none =>
      obtain ⟨second,error',rest',following⟩ := reads_exists (middle ++ chunks.flatten)
      obtain ⟨rfl,rfl,rfl⟩ := (step.append rfl following).unique reads
      obtain ⟨last,emitted,wrong⟩ := ih step.held_short following
      refine ⟨last,?_,wrong⟩
      rw [← emitted]
      rfl
    | some =>
      obtain ⟨rfl,rfl,rfl⟩ := (step.stays nofun chunks.flatten).unique reads
      obtain ⟨last,emitted⟩ := feed_broken chunks
      have silent : frames ++ allFrames (feed broken chunks).2 = frames := by rw [emitted,List.append_nil]
      exact ⟨last,silent,rfl⟩

theorem holding_buffered (waits : readFrame held = .short) : (holding held).bufferedBytes ≤ maxFrameSize := by
  by_cases many : headerSize ≤ held.length
  · obtain ⟨head,decoded,few⟩ := waiting_header many waits
    have whole : (held.take headerSize).length = headerSize := List.length_take_of_le many
    obtain ⟨valid,-⟩ := decodeHeader_ok decoded whole
    have size := valid.size
    rw [holding_long many decoded]
    simp only [bufferedBytes,whole,List.length_drop,maxFrameSize]
    omega
  · have few := Nat.not_le.mp many
    rw [holding_short few]
    exact Nat.le_trans (Nat.le_of_lt few) (Nat.le_add_right _ _)

theorem ending_buffered (error : Option ProtocolError) (waits : readFrame held = .short) :
    (ending error held).bufferedBytes ≤ maxFrameSize := by
  cases error with
  | none => exact holding_buffered waits
  | some => exact Nat.zero_le _

-- The parser does not see packet boundaries.
theorem fragmentation_invisible (left right : List Bytes) (same : left.flatten = right.flatten) :
    allFrames (feed fresh left).2 = allFrames (feed fresh right).2 ∧
      firstError (feed fresh left).2 = firstError (feed fresh right).2 ∧
      (feed fresh left).1.failed = (feed fresh right).1.failed ∧
      (firstError (feed fresh left).2 = none → (feed fresh left).1.finish.2 = (feed fresh right).1.finish.2 ∧
        (feed fresh left).1.bufferedBytes = (feed fresh right).1.bufferedBytes) ∧
      (feed fresh left).1.bufferedBytes ≤ maxFrameSize := by
  obtain ⟨frames,error,rest,reads⟩ := reads_exists left.flatten
  have reads' := reads
  rw [same] at reads'
  obtain ⟨last,emitted,wrong⟩ := feed_reads readFrame_nil reads
  obtain ⟨last',emitted',wrong'⟩ := feed_reads readFrame_nil reads'
  rw [holding_nil] at last emitted wrong last' emitted' wrong'
  rw [last,emitted,wrong,last',emitted',wrong']
  exact ⟨rfl,rfl,rfl,fun _ => ⟨rfl,rfl⟩,ending_buffered error reads.held_short⟩

def putFrame : Frame := ⟨.client,.put,0,9,[1,2,3]⟩

def putImage : Bytes := putFrame.header.bytes ++ putFrame.payload

-- Two frames, cut within the first header and within the second payload.
theorem fragmentation_invisible_put :
    allFrames (feed fresh [putImage.take 5,[],putImage.drop 5 ++ putImage.take 26,putImage.drop 26]).2 = [putFrame,putFrame] := by
  have whole : allFrames (feed fresh [putImage ++ putImage]).2 = [putFrame,putFrame] := by decide +kernel
  rw [← whole]
  exact (fragmentation_invisible _ _ (by decide +kernel)).1

theorem holding_finish (waits : readFrame held = .short) :
    (holding held).finish.2 = if held = [] then none else some .truncatedFrame := by
  unfold finish
  rw [holding_failed,if_neg Bool.false_ne_true]
  by_cases many : headerSize ≤ held.length
  · obtain ⟨head,decoded,_⟩ := waiting_header many waits
    have some : held ≠ [] := by
      intro none
      rw [none] at many
      cases many
    rw [holding_long many decoded,if_pos (.inr rfl),if_neg some]
  · rw [holding_short (Nat.not_le.mp many)]
    by_cases none : held = []
    · rw [if_pos none,if_neg (by simp [none,fresh])]
    · rw [if_neg none,if_pos (.inl none)]

-- The parser accepts exactly the concatenations of serialized frames, and emits
-- them; of any other stream it emits the longest valid part.
theorem frame_format_exact (bytes : Bytes) :
    (∀ frames, ((consume fresh bytes).2 = ⟨frames,none⟩ ∧ (consume fresh bytes).1.finish.2 = none) ↔ Concatenation frames bytes) ∧
      ((∀ frames, ¬ Concatenation frames bytes) →
        ((∃ reason, (consume fresh bytes).2.error = some reason) ∨
          ((consume fresh bytes).2.error = none ∧ (consume fresh bytes).1.finish.2 = some .truncatedFrame)) ∧
        LongestValid (consume fresh bytes).2.frames bytes) := by
  obtain ⟨frames,error,rest,reads⟩ := reads_exists bytes
  have consumed : consume (holding []) bytes = (ending error rest,⟨frames,error⟩) := consume_reads readFrame_nil reads
  rw [← holding_nil,consumed]
  have accepts (emitted : List Frame) :
      ((⟨frames,error⟩ : ParseBatch) = ⟨emitted,none⟩ ∧ (ending error rest).finish.2 = none) ↔ Concatenation emitted bytes := by
    rw [← reads_iff]
    constructor
    · intro ⟨batch,finished⟩
      cases batch
      have finish := holding_finish reads.held_short
      rw [ending,if_pos rfl,finish] at finished
      by_cases none : rest = []
      · rwa [none] at reads
      · rw [if_neg none] at finished
        cases finished
    · intro reads'
      obtain ⟨rfl,rfl,rfl⟩ := reads.unique reads'
      exact ⟨rfl,rfl⟩
  refine ⟨accepts,fun invalid => ⟨?_,reads.longest⟩⟩
  cases error with
  | some reason => exact .inl ⟨reason,rfl⟩
  | none =>
    refine .inr ⟨rfl,?_⟩
    have finish := holding_finish reads.held_short
    rw [ending,if_pos rfl,finish,if_neg]
    intro none
    rw [none] at reads
    exact invalid frames (reads_iff.mp reads)

theorem frame_format_exact_stray : (∀ frames, ¬ Concatenation frames [0]) ∧ LongestValid (consume fresh [0]).2.frames [0] := by
  have stray : ∀ frames, ¬ Concatenation frames [0] := by
    intro frames concatenation
    have accepted := ((frame_format_exact [0]).1 frames).mpr concatenation
    exact absurd accepted.2 (by decide)
  exact ⟨stray,((frame_format_exact [0]).2 stray).2⟩

end Parser

end ForgeKv.Protocol
