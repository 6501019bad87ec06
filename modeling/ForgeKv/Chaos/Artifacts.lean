import Mathlib.Algebra.Group.Nat.Defs
import ForgeKv.Library.Text

namespace ForgeKv.Chaos
open Text

inductive ActionKind where
  | noOp
  | killLeader
  | killFollower
  | restartNode
  | partitionNode
  | partitionLeaderMajority
  | setLatency
  | setJitter
  | setLoss
  | healNetwork
  | pauseNode
  | resumeNode
  | rapidLeaderChurn
deriving DecidableEq, Repr

structure ChaosAction where
  kind : ActionKind
  plannedOffsetUs : UInt64
  node : UInt64
  peer : UInt64
  value : UInt32
deriving DecidableEq, Repr

def actionKindName : ActionKind → Text
  | .noOp => "no_op".toList
  | .killLeader => "kill_leader".toList
  | .killFollower => "kill_follower".toList
  | .restartNode => "restart_node".toList
  | .partitionNode => "partition_node".toList
  | .partitionLeaderMajority => "partition_leader_majority".toList
  | .setLatency => "set_latency".toList
  | .setJitter => "set_jitter".toList
  | .setLoss => "set_loss".toList
  | .healNetwork => "heal_network".toList
  | .pauseNode => "pause_node".toList
  | .resumeNode => "resume_node".toList
  | .rapidLeaderChurn => "rapid_leader_churn".toList

def kinds : List ActionKind := [.noOp,.killLeader,.killFollower,.restartNode,.partitionNode,.partitionLeaderMajority,
  .setLatency,.setJitter,.setLoss,.healNetwork,.pauseNode,.resumeNode,.rapidLeaderChurn]

def parseKind (name : Text) : Option ActionKind := kinds.find? (fun kind => actionKindName kind = name)

def hex (nibble : Nat) : Char := Nat.digitChar nibble

def jsonEscape (c : Char) : Text :=
  if c = '"' then ['\\','"']
  else if c = '\\' then ['\\','\\']
  else if c = '\x08' then ['\\','b']
  else if c = '\x0c' then ['\\','f']
  else if c = '\n' then ['\\','n']
  else if c = '\r' then ['\\','r']
  else if c = '\t' then ['\\','t']
  else if c.toNat < 0x20 then ['\\','u','0','0',hex (c.toNat/16),hex (c.toNat%16)]
  else [c]

def jsonString (text : Text) : Text := '"'::(text.flatMap jsonEscape ++ ['"'])

-- std::to_string
def toText (number : UInt64) : Text := decimal number.toNat

-- The texts around the fields of a line.
namespace Label
def kind : Text := "\x7b\"version\":1,\"kind\":".toList
def plannedOffset : Text := ",\"planned_offset_us\":".toList
def observedStart : Text := ",\"observed_start_us\":".toList
def observedFinish : Text := ",\"observed_finish_us\":".toList
def node : Text := ",\"node\":".toList
def peer : Text := ",\"peer\":".toList
def value : Text := ",\"value\":".toList
def close : Text := "\x7d".toList
end Label

-- The line of append_action without its line feed.
def actionLine (action : ChaosAction) (observedStartUs observedFinishUs : UInt64) : Text :=
  Label.kind ++ (jsonString (actionKindName action.kind) ++
  (Label.plannedOffset ++ (toText action.plannedOffsetUs ++
  (Label.observedStart ++ (toText observedStartUs ++
  (Label.observedFinish ++ (toText observedFinishUs ++
  (Label.node ++ (toText action.node ++
  (Label.peer ++ (toText action.peer ++
  (Label.value ++ (decimal action.value.toNat ++ Label.close)))))))))))))

def consumeU64 (input : Text) : Option (UInt64 × Text) :=
  let digits := input.takeWhile Char.isDigit
  if digits = [] then none
  else match fromChars (2^64) digits with
    | some (value,[]) => some (UInt64.ofNat value,input.drop digits.length)
    | _ => none

def parseActionLine (line : Text) : Option ChaosAction := do
  let line ← strip (Label.kind ++ ['"']) line
  let (name,rest) ← cut '"' line
  let kind ← parseKind name
  let line ← strip ('"'::Label.plannedOffset) ('"'::rest)
  let (plannedOffsetUs,line) ← consumeU64 line
  let line ← strip Label.observedStart line
  let (observedStart,line) ← consumeU64 line
  let line ← strip Label.observedFinish line
  let (observedFinish,line) ← consumeU64 line
  let line ← strip Label.node line
  let (node,line) ← consumeU64 line
  let line ← strip Label.peer line
  let (peer,line) ← consumeU64 line
  let line ← strip Label.value line
  let (value,line) ← consumeU64 line
  let line ← strip Label.close line
  if line ≠ [] ∨ value > 0xffffffff ∨ observedFinish < observedStart then none
  else some ⟨kind,plannedOffsetUs,node,peer,value.toUInt32⟩

structure ArtifactLimits where
  maximumRecords : Nat
  maximumBytes : Nat
  maximumLineBytes : Nat
deriving DecidableEq, Repr

-- `timeline` is what timeline.jsonl holds.
structure ArtifactWriter where
  limits : ArtifactLimits
  timelineRecords : Nat
  timelineBytes : Nat
  timeline : Text
deriving DecidableEq, Repr

-- What the operating system makes of one append: all of it, or a failure that
-- leaves some of the line in the file.
inductive Written where
  | whole
  | fails (kept : Nat) (message : String)
deriving DecidableEq, Repr

namespace ArtifactWriter

def create (limits : ArtifactLimits) : Except String ArtifactWriter :=
  if limits.maximumRecords = 0 ∨ limits.maximumBytes = 0 ∨ limits.maximumLineBytes = 0 then
    .error "artifact limits must be positive"
  else .ok ⟨limits,0,0,[]⟩

def appendLine (writer : ArtifactWriter) (line : Text) (written : Written) : ArtifactWriter × Option String :=
  if line.length > writer.limits.maximumLineBytes ∨ writer.timelineRecords ≥ writer.limits.maximumRecords ∨
      line.length > writer.limits.maximumBytes-min writer.timelineBytes writer.limits.maximumBytes then
    (writer,some "artifact limit exceeded")
  else match written with
    | .whole => ({writer with timelineRecords := writer.timelineRecords+1, timelineBytes := writer.timelineBytes+line.length
                              timeline := writer.timeline ++ line},none)
    | .fails kept message => ({writer with timeline := writer.timeline ++ line.take kept},some message)

def appendAction (writer : ArtifactWriter) (action : ChaosAction) (observedStartUs observedFinishUs : UInt64) (written : Written) :
    ArtifactWriter × Option String :=
  if observedFinishUs < observedStartUs then (writer,some "action finish precedes start")
  else writer.appendLine (actionLine action observedStartUs observedFinishUs ++ ['\n']) written

end ArtifactWriter

structure Append where
  action : ChaosAction
  observedStartUs : UInt64
  observedFinishUs : UInt64
  written : Written
deriving DecidableEq, Repr

namespace ArtifactWriter

def appends (writer : ArtifactWriter) : List Append → Except String ArtifactWriter
  | [] => .ok writer
  | item::rest =>
    match writer.appendAction item.action item.observedStartUs item.observedFinishUs item.written with
    | (_,some message) => .error message
    | (after,none) => after.appends rest

end ArtifactWriter

def readLines (limits : ArtifactLimits) (actions : List ChaosAction) (remaining : Text) : Except String (List ChaosAction) :=
  if remaining = [] then .ok actions
  else match _found : cut '\n' remaining with
    | none => .error "timeline limit exceeded"
    | some (line,rest) =>
      if line.length > limits.maximumLineBytes ∨ actions.length ≥ limits.maximumRecords then .error "timeline limit exceeded"
      else match parseActionLine line with
        | none => .error "invalid timeline record"
        | some action => readLines limits (actions ++ [action]) rest
termination_by remaining.length
decreasing_by
  rw [(cut_eq_some.mp _found).1]
  simp
  omega

def readTimeline (limits : ArtifactLimits) (file : Text) : Except String (List ChaosAction) :=
  if file.length > limits.maximumBytes then .error "artifact exceeds limit or is not a regular file"
  else if file = [] then .error "empty timeline"
  else if file.getLast? ≠ some '\n' then .error "truncated timeline"
  else readLines limits [] file

theorem parseKind_name (kind : ActionKind) : parseKind (actionKindName kind) = some kind := by
  cases kind <;> decide

theorem jsonString_name (kind : ActionKind) : jsonString (actionKindName kind) = '"'::(actionKindName kind ++ ['"']) := by
  cases kind <;> decide

theorem name_unquoted (kind : ActionKind) : '"' ∉ actionKindName kind := by
  cases kind <;> decide

section line
variable {number : Nat} {rest : Text}

theorem consumeU64_decimal (small : number < 2^64) (stop : ∀ c ∈ rest.head?, c.isDigit = false) :
    consumeU64 (decimal number ++ rest) = some (UInt64.ofNat number,rest) := by
  have run := (takeWhile_digits (decimal_digit number) stop).1
  have whole : fromChars (2^64) (decimal number) = some (number,[]) :=
    fromChars_whole.mpr ⟨decimal_isDecimal number,value_decimal number,small⟩
  unfold consumeU64
  simp only [run,decimal_ne_nil,if_false,whole,List.drop_left]

theorem consumeU64_toText (number : UInt64) (stop : ∀ c ∈ rest.head?, c.isDigit = false) :
    consumeU64 (toText number ++ rest) = some (number,rest) := by
  rw [toText,consumeU64_decimal number.toNat_lt stop,UInt64.ofNat_toNat]

theorem label_stops {label : Text} {c : Char} (front : label.head? = some c) (other : c.isDigit = false) :
    ∀ next ∈ (label ++ rest).head?, next.isDigit = false := by
  intro next first
  rw [List.head?_append,front] at first
  cases first
  exact other

end line

section recorded
variable {limits : ArtifactLimits} {writer after : ArtifactWriter} {observedStartUs observedFinishUs : UInt64} {actions : List ChaosAction}

theorem parseActionLine_actionLine (action : ChaosAction) (ordered : ¬ observedFinishUs < observedStartUs) :
    parseActionLine (actionLine action observedStartUs observedFinishUs) = some action := by
  have wide : decimal action.value.toNat = toText action.value.toUInt64 := by rw [toText,UInt32.toNat_toUInt64]
  have fits : ¬ action.value.toUInt64 > 0xffffffff := by
    exact Nat.not_lt.mpr (Nat.le_of_lt_succ action.value.toNat_lt)
  have shape : actionLine action observedStartUs observedFinishUs = (Label.kind ++ ['"']) ++
      (actionKindName action.kind ++ '"'::(Label.plannedOffset ++ (toText action.plannedOffsetUs ++
      (Label.observedStart ++ (toText observedStartUs ++
      (Label.observedFinish ++ (toText observedFinishUs ++
      (Label.node ++ (toText action.node ++
      (Label.peer ++ (toText action.peer ++
      (Label.value ++ (toText action.value.toUInt64 ++ (Label.close ++ [])))))))))))))) := by
    rw [actionLine,jsonString_name,wide]
    simp only [List.append_assoc,List.cons_append,List.nil_append,List.append_nil]
  have found {Item : Type} {first : Option Item} {item : Item} {rest : Item → Option ChaosAction} (same : first = some item) :
      (first >>= rest) = rest item := by
    rw [same]
    rfl
  have read (number : UInt64) (label : Text) {rest : Text} {c : Char} (front : label.head? = some c) (other : c.isDigit = false) :
      consumeU64 (toText number ++ (label ++ rest)) = some (number,label ++ rest) :=
    consumeU64_toText number (label_stops front other)
  rw [shape]
  refine (found (strip_append _)).trans ?_
  refine (found (cut_append (name_unquoted action.kind))).trans ?_
  refine (found (parseKind_name action.kind)).trans ?_
  refine (found (strip_append ('"'::Label.plannedOffset))).trans ?_
  refine (found (read _ Label.observedStart rfl rfl)).trans ((found (strip_append _)).trans ?_)
  refine (found (read _ Label.observedFinish rfl rfl)).trans ((found (strip_append _)).trans ?_)
  refine (found (read _ Label.node rfl rfl)).trans ((found (strip_append _)).trans ?_)
  refine (found (read _ Label.peer rfl rfl)).trans ((found (strip_append _)).trans ?_)
  refine (found (read _ Label.value rfl rfl)).trans ((found (strip_append _)).trans ?_)
  refine (found (read _ Label.close rfl rfl)).trans ((found (strip_append _)).trans ?_)
  rw [if_neg (not_or.mpr ⟨not_not.mpr rfl,not_or.mpr ⟨fits,ordered⟩⟩),UInt32.toUInt32_toUInt64]

theorem toText_oneLine (number : Nat) : '\n' ∉ decimal number :=
  fun member => absurd (decimal_digit number _ member) (by decide)

theorem actionLine_oneLine (action : ChaosAction) : '\n' ∉ actionLine action observedStartUs observedFinishUs := by
  have name : '\n' ∉ actionKindName action.kind := by cases action.kind <;> decide
  have labels : ∀ label ∈ [Label.kind,Label.plannedOffset,Label.observedStart,Label.observedFinish,Label.node,Label.peer,
      Label.value,Label.close], '\n' ∉ label := by decide
  simp only [actionLine,jsonString_name,toText,List.mem_append,List.mem_cons,not_or,toText_oneLine]
  simp [labels,name]

-- The lines that were appended, each with its line feed.
def image (item : Append) : Text := actionLine item.action item.observedStartUs item.observedFinishUs ++ ['\n']

def images (items : List Append) : Text := (items.map image).flatten

structure Recorded (limits : ArtifactLimits) (items : List Append) (writer : ArtifactWriter) : Prop where
  same : writer.limits = limits
  timeline : writer.timeline = images items
  bytes : writer.timelineBytes = (images items).length
  records : writer.timelineRecords = items.length
  few : items.length ≤ limits.maximumRecords
  small : (images items).length ≤ limits.maximumBytes
  short : ∀ item ∈ items, (image item).length ≤ limits.maximumLineBytes
  ordered : ∀ item ∈ items, ¬ item.observedFinishUs < item.observedStartUs

theorem images_append (items more : List Append) : images (items ++ more) = images items ++ images more := by simp [images]

theorem create_recorded (created : ArtifactWriter.create limits = .ok writer) : Recorded limits [] writer := by
  unfold ArtifactWriter.create at created
  split at created
  · cases created
  · cases created
    exact ⟨rfl,rfl,rfl,rfl,Nat.zero_le _,Nat.zero_le _,(fun _ member => nomatch member),fun _ member => nomatch member⟩

theorem appendAction_recorded {items : List Append} {item : Append} (recorded : Recorded limits items writer)
    (appended : writer.appendAction item.action item.observedStartUs item.observedFinishUs item.written = (after,none)) :
    Recorded limits (items ++ [item]) after := by
  have image' : images (items ++ [item]) = images items ++ image item := by simp [images]
  have total : (images (items ++ [item])).length = (images items).length+(image item).length := by
    rw [image',List.length_append]
  unfold ArtifactWriter.appendAction at appended
  split at appended
  · cases appended
  rename_i ordered
  unfold ArtifactWriter.appendLine at appended
  split at appended
  · cases appended
  rename_i fine
  split at appended
  · cases appended
    simp only [not_or,Nat.not_lt,ge_iff_le,Nat.not_le,recorded.same,recorded.records,recorded.bytes] at fine
    obtain ⟨short,room,light⟩ := fine
    have line : (image item).length ≤ limits.maximumLineBytes := short
    have weight : (image item).length ≤ limits.maximumBytes-min (images items).length limits.maximumBytes := light
    have small := recorded.small
    refine ⟨recorded.same,?_,?_,?_,?_,?_,?_,?_⟩
    · rw [image',← recorded.timeline]
      rfl
    · rw [total,← recorded.bytes]
      rfl
    · simp [recorded.records]
    · rw [List.length_append]
      exact room
    · omega
    · exact List.forall_mem_append.mpr ⟨recorded.short,by simpa using line⟩
    · exact List.forall_mem_append.mpr ⟨recorded.ordered,by simpa using ordered⟩
  · cases appended

theorem appends_recorded {items more : List Append} (recorded : Recorded limits items writer)
    (appended : writer.appends more = .ok after) : Recorded limits (items ++ more) after := by
  induction more generalizing items writer with
  | nil =>
    cases appended
    rw [List.append_nil]
    exact recorded
  | cons item rest ih =>
    unfold ArtifactWriter.appends at appended
    split at appended
    · cases appended
    · rename_i next done
      have later := ih (appendAction_recorded recorded done) appended
      rwa [List.append_assoc] at later

theorem readLines_image {item : Append} (short : (image item).length ≤ limits.maximumLineBytes)
    (ordered : ¬ item.observedFinishUs < item.observedStartUs) (room : actions.length < limits.maximumRecords) (rest : Text) :
    readLines limits actions (image item ++ rest) = readLines limits (actions ++ [item.action]) rest := by
  have found : cut '\n' (image item ++ rest) = some (actionLine item.action item.observedStartUs item.observedFinishUs,rest) := by
    rw [image,List.append_assoc]
    exact cut_append (actionLine_oneLine item.action)
  have fits : ¬ ((actionLine item.action item.observedStartUs item.observedFinishUs).length > limits.maximumLineBytes ∨
      actions.length ≥ limits.maximumRecords) := by
    rw [image,List.length_append] at short
    omega
  rw [readLines,if_neg (by simp [image])]
  split
  · rename_i none
    rw [found] at none
    cases none
  · rename_i line after again
    rw [found] at again
    cases again
    rw [if_neg fits,parseActionLine_actionLine item.action ordered]

theorem readLines_images {items : List Append} (short : ∀ item ∈ items, (image item).length ≤ limits.maximumLineBytes)
    (ordered : ∀ item ∈ items, ¬ item.observedFinishUs < item.observedStartUs)
    (room : actions.length+items.length ≤ limits.maximumRecords) :
    readLines limits actions (images items) = .ok (actions ++ items.map Append.action) := by
  induction items generalizing actions with
  | nil => simp [images,readLines]
  | cons item rest ih =>
    rw [List.length_cons] at room
    have next : images (item::rest) = image item ++ images rest := rfl
    have count : (actions ++ [item.action]).length+rest.length ≤ limits.maximumRecords := by
      rw [List.length_append,List.length_singleton]
      omega
    rw [next,readLines_image (short item List.mem_cons_self) (ordered item List.mem_cons_self) (by omega),
      ih (fun other member => short other (List.mem_cons_of_mem _ member))
        (fun other member => ordered other (List.mem_cons_of_mem _ member)) count]
    simp

theorem images_last {items : List Append} (some' : items ≠ []) : (images items).getLast? = some '\n' := by
  rw [← List.dropLast_concat_getLast some']
  simp [images,image]

theorem Recorded.read {items : List Append} (recorded : Recorded limits items writer) (count : Nat) (some' : items.take count ≠ []) :
    readTimeline limits (images (items.take count)) = .ok ((items.map Append.action).take count) := by
  have whole : images items = images (items.take count) ++ images (items.drop count) := by
    rw [← images_append,List.take_append_drop]
  have small := recorded.small
  have few := recorded.few
  rw [whole,List.length_append] at small
  have last := images_last some'
  have full : images (items.take count) ≠ [] := by
    intro none
    rw [none] at last
    cases last
  unfold readTimeline
  rw [if_neg (by omega),if_neg full,if_neg (not_not.mpr last),readLines_images
    (fun item member => recorded.short item (List.mem_of_mem_take member))
    (fun item member => recorded.ordered item (List.mem_of_mem_take member)) (by simp; omega),List.map_take]
  rfl

end recorded

theorem timeline_replays (limits : ArtifactLimits) (writer after : ArtifactWriter) (items : List Append)
    (created : ArtifactWriter.create limits = .ok writer) (some' : items ≠ []) (appended : writer.appends items = .ok after) :
    readTimeline limits after.timeline = .ok (items.map Append.action) ∧
    ∀ kept < after.timeline.length, (∃ message, readTimeline limits (after.timeline.take kept) = .error message) ∨
      ∃ count, readTimeline limits (after.timeline.take kept) = .ok ((items.map Append.action).take count) := by
  have recorded : Recorded limits items after := appends_recorded (create_recorded created) appended
  constructor
  · have read := recorded.read items.length (by simpa using some')
    rw [List.take_length] at read
    rw [recorded.timeline,read,List.take_of_length_le (by simp)]
  · rintro kept -
    have lines : images items = ((items.map fun item => actionLine item.action item.observedStartUs item.observedFinishUs).map
        (· ++ ['\n'])).flatten := by
      rw [List.map_map]
      rfl
    have plain : ∀ body ∈ items.map (fun item => actionLine item.action item.observedStartUs item.observedFinishUs), '\n' ∉ body := by
      simp only [List.mem_map]
      rintro body ⟨item,-,rfl⟩
      exact actionLine_oneLine item.action
    obtain ⟨count,part,equal,open'⟩ := take_lines _ plain kept
    rw [← lines,← List.map_take,List.map_map] at equal
    have first : after.timeline.take kept = images (items.take count) ++ part := by
      rw [recorded.timeline,equal]
      rfl
    rw [first]
    by_cases whole : part = []
    · rw [whole,List.append_nil]
      by_cases none : items.take count = []
      · refine .inl ⟨"empty timeline",?_⟩
        rw [none]
        rfl
      · exact .inr ⟨count,recorded.read count none⟩
    · -- the last line has lost its line feed
      have size := congrArg List.length first
      have small := recorded.small
      rw [List.length_take,recorded.timeline] at size
      have torn : (images (items.take count) ++ part).getLast? ≠ some '\n' := by
        obtain ⟨c,last⟩ := Option.isSome_iff_exists.mp (List.getLast?_isSome.mpr whole)
        rw [List.getLast?_append,last,Option.some_or]
        rintro ⟨rfl⟩
        exact open' (List.mem_of_getLast? last)
      refine .inl ⟨"truncated timeline",?_⟩
      unfold readTimeline
      rw [if_neg (by omega),if_neg (by simp [whole]),if_pos torn]

-- The leader is killed and started again.
def leaderBack : List Append := [⟨⟨.killLeader,250000,2,0,7⟩,250010,250900,.whole⟩,⟨⟨.restartNode,900000,2,0,0⟩,900020,901700,.whole⟩]

theorem timeline_replays_leaderBack : ∃ after, ArtifactWriter.appends ⟨⟨4,4096,512⟩,0,0,[]⟩ leaderBack = .ok after ∧
    readTimeline ⟨4,4096,512⟩ after.timeline = .ok (leaderBack.map Append.action) ∧
    ∀ kept < after.timeline.length, (∃ message, readTimeline ⟨4,4096,512⟩ (after.timeline.take kept) = .error message) ∨
      ∃ count, readTimeline ⟨4,4096,512⟩ (after.timeline.take kept) = .ok ((leaderBack.map Append.action).take count) := by
  have appended : ArtifactWriter.appends ⟨⟨4,4096,512⟩,0,0,[]⟩ leaderBack =
      .ok ⟨⟨4,4096,512⟩,2,(images leaderBack).length,images leaderBack⟩ := by decide +kernel
  exact ⟨_,appended,timeline_replays ⟨4,4096,512⟩ _ _ leaderBack rfl (by decide) appended⟩

end ForgeKv.Chaos
