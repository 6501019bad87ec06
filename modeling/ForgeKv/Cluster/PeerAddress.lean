import ForgeKv.Library.Text
import ForgeKv.Cluster.Owner

namespace ForgeKv.Cluster
open Text

inductive AddressError where
  | invalidArgument (message : String)
  | outOfRange (message : String)
deriving DecidableEq, Repr

-- isspace of the "C" locale.
def isSpace (c : Char) : Bool := c == ' ' || (9 ≤ c.toNat && c.toNat ≤ 13)

def takeSign : Text → Bool × Nat × Text
  | '-'::rest => (true,1,rest)
  | '+'::rest => (false,1,rest)
  | rest => (false,0,rest)

-- std::stoull in base ten: the number, and how many characters were consumed. A
-- minus sign negates the number in its unsigned type.
def stoull (text : Text) : Except AddressError (Nat × Nat) :=
  let blanks := text.takeWhile isSpace
  let (negative,sign,unsigned) := takeSign (text.dropWhile isSpace)
  let digits := unsigned.takeWhile Char.isDigit
  if digits = [] then .error (.invalidArgument "stoull")
  else if 2^64 ≤ value digits then .error (.outOfRange "stoull")
  else .ok (if negative then (2^64-value digits)%2^64 else value digits,blanks.length+sign+digits.length)

def invalidPeer : AddressError :=
  .invalidArgument "peer must be node_id=host:peer_port:client_port or node_id=[ipv6]:peer_port:client_port"

def parseNumber (text : Text) (maximum : Nat) (allowZero : Bool) : Except AddressError Nat :=
  if text = [] then .error invalidPeer
  else do
    let (number,consumed) ← stoull text
    if consumed ≠ text.length ∨ number > maximum ∨ (allowZero = false ∧ number = 0) then .error invalidPeer
    else .ok number

-- The host, with or without its brackets, and what follows its colon.
def splitEndpoint : Text → Option (Text × Text)
  | '['::inner =>
    match cut ']' inner with
    | some (host,':'::ports) => if host = [] then none else some (host,ports)
    | _ => none
  | endpoint =>
    match cut ':' endpoint with
    | some (host,ports) => if host = [] then none else some (host,ports)
    | none => none

def splitPorts (ports : Text) : Option (Text × Text) :=
  match cut ':' ports with
  | some (peerPort,clientPort) =>
    if peerPort = [] ∨ clientPort = [] ∨ ':' ∈ clientPort then none else some (peerPort,clientPort)
  | none => none

def parsePeerAddress (text : Text) : Except AddressError PeerAddress :=
  match cut '=' text with
  | none => .error invalidPeer
  | some (id,endpoint) =>
    if id = [] ∨ endpoint = [] then .error invalidPeer
    else do
      let nodeId ← parseNumber id (2^64-1) true
      match splitEndpoint endpoint with
      | none => .error invalidPeer
      | some (host,ports) =>
        match splitPorts ports with
        | none => .error invalidPeer
        | some (first,second) =>
          let peerPort ← parseNumber first 65535 false
          let clientPort ← parseNumber second 65535 false
          return ⟨nodeId,String.ofList host,peerPort,clientPort⟩

-- HOST:PORTS or [HOST]:PORTS
inductive Hosted : Text → Text → Text → Prop where
  | plain (some' : host ≠ []) (colon : ':' ∉ host) (bracket : host.head? ≠ some '[') : Hosted (host ++ ':'::ports) host ports
  | bracketed (some' : host ≠ []) (closing : ']' ∉ host) : Hosted ('[' :: (host ++ ']' :: ':' :: ports)) host ports

-- ID=HOST:PORT:PORT or ID=[HOST]:PORT:PORT, whatever stands for the numbers.
structure Laid (text id host first second : Text) : Prop where
  endpoint : ∃ rest, text = id ++ '='::rest ∧ Hosted rest host (first ++ ':'::second)
  equals : '=' ∉ id
  id : id ≠ []
  first : first ≠ [] ∧ ':' ∉ first
  second : second ≠ [] ∧ ':' ∉ second

structure PortText (text : Text) : Prop where
  decimal : Decimal text
  positive : 1 ≤ value text
  small : value text ≤ 65535

def Spelled (text : Text) (address : PeerAddress) : Prop :=
  ∃ id host first second, Laid text id host first second ∧ Decimal id ∧ value id < 2^64 ∧ PortText first ∧ PortText second ∧
    address = ⟨value id,String.ofList host,value first,value second⟩

-- std::stoull takes the whole field for a number of the range.
def Converts (text : Text) (minimum maximum : Nat) : Prop :=
  ∃ number, stoull text = .ok (number,text.length) ∧ minimum ≤ number ∧ number ≤ maximum

-- What std::stoull skips or accepts in front of the digits.
def Unadorned (text : Text) : Prop := ∀ c ∈ text.head?, isSpace c = false ∧ c ≠ '+' ∧ c ≠ '-'

section
variable {text id host first second ports endpoint : Text} {number maximum : Nat} {allowZero : Bool} {address : PeerAddress}

theorem digit_unadorned (digits : ∀ c ∈ text, c.isDigit = true) : Unadorned text := by
  intro c front
  have digit := digits c (List.mem_of_mem_head? front)
  refine ⟨?_,?_,?_⟩
  · have low : 48 ≤ c.toNat := by
      simp only [Char.isDigit,Bool.and_eq_true,decide_eq_true_eq] at digit
      exact digit.1
    have apart : c ≠ ' ' := by
      rintro rfl
      exact absurd digit (by decide)
    simp [isSpace,apart]
    omega
  · rintro rfl
    exact absurd digit (by decide)
  · rintro rfl
    exact absurd digit (by decide)

theorem stoull_unadorned (unadorned : Unadorned text) : stoull text =
    if text.takeWhile Char.isDigit = [] then .error (.invalidArgument "stoull")
    else if 2^64 ≤ value (text.takeWhile Char.isDigit) then .error (.outOfRange "stoull")
    else .ok (value (text.takeWhile Char.isDigit),(text.takeWhile Char.isDigit).length) := by
  cases text with
  | nil => rfl
  | cons c rest =>
    obtain ⟨space,plus,minus⟩ := unadorned c rfl
    have bare : takeSign (c::rest) = (false,0,c::rest) := by
      unfold takeSign
      split
      · rename_i equal; cases equal; exact absurd rfl minus
      · rename_i equal; cases equal; exact absurd rfl plus
      · rfl
    simp [stoull,space,bare]

theorem takeWhile_whole : (text.takeWhile Char.isDigit).length = text.length ↔ ∀ c ∈ text, c.isDigit = true := by
  rw [← List.takeWhile_eq_self_iff]
  exact ⟨(List.takeWhile_prefix _).eq_of_length,congrArg List.length⟩

theorem stoull_decimal (unadorned : Unadorned text) : stoull text = .ok (number,text.length) ↔
    Decimal text ∧ value text = number ∧ number < 2^64 := by
  rw [stoull_unadorned unadorned]
  by_cases digits : Decimal text
  · simp only [List.takeWhile_eq_self_iff.mpr digits.2,digits.1,if_false,digits,true_and]
    split
    · rename_i large
      refine ⟨nofun,?_⟩
      rintro ⟨rfl,small⟩
      exact absurd large (Nat.not_le.mpr small)
    · rename_i small
      simp only [Except.ok.injEq,Prod.mk.injEq,and_true]
      constructor
      · rintro rfl
        exact ⟨rfl,Nat.not_le.mp small⟩
      · exact And.left
  · refine ⟨fun converted => absurd ?_ digits,fun right => absurd right.1 digits⟩
    split at converted
    · cases converted
    rename_i present
    split at converted
    · cases converted
    rw [Except.ok.injEq,Prod.mk.injEq] at converted
    refine ⟨?_,takeWhile_whole.mp converted.2⟩
    rintro rfl
    exact present rfl

theorem parseNumber_ok : parseNumber text maximum allowZero = .ok number ↔
    stoull text = .ok (number,text.length) ∧ number ≤ maximum ∧ (allowZero = false → number ≠ 0) := by
  unfold parseNumber
  split
  · rename_i none
    subst none
    exact ⟨nofun,fun right => nomatch right.1⟩
  constructor
  · intro parsed
    obtain ⟨⟨found,consumed⟩,converted,checked⟩ := bind_ok.mp parsed
    dsimp only at checked
    split at checked
    · cases checked
    rename_i fine
    cases checked
    simp only [not_or,not_not,not_and,Nat.not_lt] at fine
    exact ⟨fine.1 ▸ converted,fine.2⟩
  · rintro ⟨converted,low,nonzero⟩
    refine bind_ok.mpr ⟨_,converted,if_neg ?_⟩
    rintro (short | high | ⟨zero,none⟩)
    · exact short rfl
    · exact absurd low (Nat.not_le.mpr high)
    · exact nonzero zero none

theorem converts_iff (allowZero : Bool) : Converts text (cond allowZero 0 1) maximum ↔ ∃ number, parseNumber text maximum allowZero = .ok number := by
  simp only [Converts,parseNumber_ok]
  refine exists_congr fun number => and_congr_right fun _ => ?_
  cases allowZero with
  | true => simp
  | false => simp only [cond_false,forall_const,Nat.one_le_iff_ne_zero,and_comm]

theorem splitEndpoint_iff : splitEndpoint endpoint = some (host,ports) ↔ Hosted endpoint host ports := by
  constructor
  · intro split'
    unfold splitEndpoint at split'
    split at split'
    · rename_i inner
      split at split'
      · rename_i inside after found
        split at split'
        · cases split'
        rename_i present
        cases split'
        obtain ⟨rfl,closing⟩ := cut_eq_some.mp found
        exact .bracketed present closing
      · cases split'
    · rename_i open'
      split at split'
      · rename_i before after found
        split at split'
        · cases split'
        rename_i present
        cases split'
        obtain ⟨rfl,colon⟩ := cut_eq_some.mp found
        refine .plain present colon fun bracket => ?_
        obtain ⟨rest,rfl⟩ := List.head?_eq_some_iff.mp bracket
        exact open' _ rfl
      · cases split'
  · intro hosted
    cases hosted with
    | plain present colon bracket =>
      unfold splitEndpoint
      split
      · rename_i inner equal
        cases host with
        | nil => exact absurd rfl present
        | cons =>
          cases equal
          exact absurd rfl bracket
      · rw [cut_append colon]
        simp only [present,if_false]
    | bracketed present closing => simp only [splitEndpoint,cut_append closing,present,if_false]

theorem Hosted.ne_nil (hosted : Hosted endpoint host ports) : endpoint ≠ [] := by
  cases hosted <;> simp

theorem splitPorts_iff : splitPorts ports = some (first,second) ↔
    ports = first ++ ':'::second ∧ (first ≠ [] ∧ ':' ∉ first) ∧ second ≠ [] ∧ ':' ∉ second := by
  constructor
  · intro split'
    unfold splitPorts at split'
    split at split'
    · rename_i left right found
      split at split'
      · cases split'
      rename_i fine
      cases split'
      obtain ⟨rfl,colon⟩ := cut_eq_some.mp found
      simp only [not_or] at fine
      exact ⟨rfl,⟨fine.1,colon⟩,fine.2⟩
    · cases split'
  · rintro ⟨rfl,⟨present,colon⟩,given,last⟩
    unfold splitPorts
    rw [cut_append colon]
    simp only [present,given,last,or_self,if_false]

theorem parsePeerAddress_ok : parsePeerAddress text = .ok address ↔ ∃ id host first second, Laid text id host first second ∧
    ∃ nodeId peerPort clientPort, parseNumber id (2^64-1) true = .ok nodeId ∧ parseNumber first 65535 false = .ok peerPort ∧
      parseNumber second 65535 false = .ok clientPort ∧ address = ⟨nodeId,String.ofList host,peerPort,clientPort⟩ := by
  constructor
  · intro parsed
    unfold parsePeerAddress at parsed
    split at parsed
    · cases parsed
    rename_i id rest found
    obtain ⟨rfl,equals⟩ := cut_eq_some.mp found
    split at parsed
    · cases parsed
    rename_i present
    obtain ⟨nodeId,numbered,parsed⟩ := bind_ok.mp parsed
    split at parsed
    · cases parsed
    rename_i host ports placed
    split at parsed
    · cases parsed
    rename_i first second apart
    obtain ⟨peerPort,peered,parsed⟩ := bind_ok.mp parsed
    obtain ⟨clientPort,clients,parsed⟩ := bind_ok.mp parsed
    cases parsed
    obtain ⟨rfl,firstly,secondly⟩ := splitPorts_iff.mp apart
    exact ⟨id,host,first,second,⟨⟨rest,rfl,splitEndpoint_iff.mp placed⟩,equals,(not_or.mp present).1,firstly,secondly⟩,
      nodeId,peerPort,clientPort,numbered,peered,clients,rfl⟩
  · rintro ⟨id,host,first,second,⟨⟨rest,rfl,hosted⟩,equals,present,firstly,secondly⟩,
      nodeId,peerPort,clientPort,numbered,peered,clients,rfl⟩
    have given : ¬ (id = [] ∨ rest = []) := not_or.mpr ⟨present,hosted.ne_nil⟩
    unfold parsePeerAddress
    rw [cut_append equals]
    simp only [given,if_false,numbered,splitEndpoint_iff.mpr hosted,splitPorts_iff.mpr ⟨rfl,firstly,secondly⟩,peered,clients]
    rfl

theorem parseNumber_id (unadorned : Unadorned id) : parseNumber id (2^64-1) true = .ok number ↔
    Decimal id ∧ value id < 2^64 ∧ number = value id := by
  rw [parseNumber_ok,stoull_decimal unadorned]
  constructor
  · rintro ⟨⟨digits,rfl,small⟩,-⟩
    exact ⟨digits,small,rfl⟩
  · rintro ⟨digits,small,rfl⟩
    exact ⟨⟨digits,rfl,small⟩,Nat.le_sub_one_of_lt small,nofun⟩

theorem parseNumber_port (unadorned : Unadorned text) : parseNumber text 65535 false = .ok number ↔
    PortText text ∧ number = value text := by
  rw [parseNumber_ok,stoull_decimal unadorned]
  constructor
  · rintro ⟨⟨digits,rfl,-⟩,small,positive⟩
    exact ⟨⟨digits,Nat.one_le_iff_ne_zero.mpr (positive rfl),small⟩,rfl⟩
  · rintro ⟨⟨digits,positive,small⟩,rfl⟩
    exact ⟨⟨digits,rfl,Nat.lt_of_le_of_lt small (by decide)⟩,small,fun _ => Nat.one_le_iff_ne_zero.mp positive⟩

-- A text can be laid out in one way only.
theorem Laid.unique {id' host' first' second' : Text} (laid : Laid text id host first second) (other : Laid text id' host' first' second') :
    id = id' ∧ first = first' ∧ second = second' := by
  obtain ⟨⟨rest,equal,hosted⟩,equals,-,firstly,secondly⟩ := laid
  obtain ⟨⟨rest',equal',hosted'⟩,equals',-,firstly',secondly'⟩ := other
  have found := cut_eq_some.mpr ⟨equal,equals⟩
  rw [cut_eq_some.mpr ⟨equal',equals'⟩] at found
  cases found
  have placed := splitEndpoint_iff.mpr hosted
  rw [splitEndpoint_iff.mpr hosted',Option.some.injEq,Prod.mk.injEq] at placed
  have apart := splitPorts_iff.mpr ⟨placed.2,firstly,secondly⟩
  rw [splitPorts_iff.mpr ⟨rfl,firstly',secondly'⟩] at apart
  cases apart
  exact ⟨rfl,rfl,rfl⟩

end

-- The parser and the grammar agree on a text exactly if it has no layout whose
-- three fields std::stoull takes with one that starts with white space or a sign.
theorem peer_address_exact (text : Text) : (∀ address, parsePeerAddress text = .ok address ↔ Spelled text address) ↔
    ∀ id host first second, Laid text id host first second → Converts id 0 (2^64-1) → Converts first 1 65535 →
      Converts second 1 65535 → Unadorned id ∧ Unadorned first ∧ Unadorned second := by
  constructor
  · intro exact' id host first second laid wide peer client
    obtain ⟨nodeId,numbered⟩ := (converts_iff true).mp wide
    obtain ⟨peerPort,peered⟩ := (converts_iff false).mp peer
    obtain ⟨clientPort,clients⟩ := (converts_iff false).mp client
    have parsed := parsePeerAddress_ok.mpr ⟨id,host,first,second,laid,nodeId,peerPort,clientPort,numbered,peered,clients,rfl⟩
    obtain ⟨id',host',first',second',laid',digits,-,firstly,secondly,-⟩ := (exact' _).mp parsed
    obtain ⟨rfl,rfl,rfl⟩ := laid.unique laid'
    exact ⟨digit_unadorned digits.2,digit_unadorned firstly.decimal.2,digit_unadorned secondly.decimal.2⟩
  intro unadorned address
  rw [parsePeerAddress_ok]
  constructor
  · rintro ⟨id,host,first,second,laid,nodeId,peerPort,clientPort,numbered,peered,clients,rfl⟩
    obtain ⟨bare,peer,client⟩ := unadorned id host first second laid ((converts_iff true).mpr ⟨_,numbered⟩)
      ((converts_iff false).mpr ⟨_,peered⟩) ((converts_iff false).mpr ⟨_,clients⟩)
    obtain ⟨digits,small,rfl⟩ := (parseNumber_id bare).mp numbered
    obtain ⟨firstly,rfl⟩ := (parseNumber_port peer).mp peered
    obtain ⟨secondly,rfl⟩ := (parseNumber_port client).mp clients
    exact ⟨id,host,first,second,laid,digits,small,firstly,secondly,rfl⟩
  · rintro ⟨id,host,first,second,laid,digits,small,firstly,secondly,rfl⟩
    exact ⟨id,host,first,second,laid,_,_,_,(parseNumber_id (digit_unadorned digits.2)).mpr ⟨digits,small,rfl⟩,
      (parseNumber_port (digit_unadorned firstly.decimal.2)).mpr ⟨firstly,rfl⟩,
      (parseNumber_port (digit_unadorned secondly.decimal.2)).mpr ⟨secondly,rfl⟩,rfl⟩

-- 7=[::1]:9001:9002
example : parsePeerAddress ['7','=','[',':',':','1',']',':','9','0','0','1',':','9','0','0','2'] = .ok ⟨7,"::1",9001,9002⟩ := by
  decide +kernel

-- +1=h:1:2
def signedText : Text := ['+','1','=','h',':','1',':','2']

-- A sign is no digit, and std::stoull accepts it.
theorem peer_address_signed : parsePeerAddress signedText = .ok ⟨1,"h",1,2⟩ ∧ ∀ address, ¬ Spelled signedText address := by
  refine ⟨by decide +kernel,?_⟩
  rintro address ⟨id,host,first,second,⟨⟨rest,equal,-⟩,equals,-⟩,digits,-⟩
  have found : cut '=' signedText = some (id,rest) := cut_eq_some.mpr ⟨equal,equals⟩
  cases found
  exact absurd (digits.2 '+' (by decide)) (by decide)

end ForgeKv.Cluster
