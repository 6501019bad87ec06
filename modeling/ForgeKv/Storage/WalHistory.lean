import ForgeKv.Storage.Logged

namespace ForgeKv.Storage

-- The records that recovery hands on.
def replayed (file : WalFile) : List WalRecord :=
  match recoverBytes file.contents with
  | .error _ => []
  | .ok recovered => recovered.records

-- A Wal with the records of its log: those that were there when it was opened,
-- and those appended since.
structure Handle where
  wal : Wal
  records : List WalRecord
deriving DecidableEq

structure WalHistory where
  file : WalFile
  handle : Option Handle

inductive WalEvent where
  | opens
  | appends (record : WalRecord) (room : Nat)
  | syncs (completes : Bool)
  | crashes
  | losesPower (kept : Nat)

namespace WalHistory

def initial : WalHistory := ⟨.empty,none⟩

def happen (history : WalHistory) : WalEvent → WalHistory
  | .opens =>
    match Wal.openFile history.file with
    | .error _ => {history with handle := none}
    | .ok (left,wal) => ⟨left,some ⟨wal,replayed history.file⟩⟩
  | .appends record room =>
    match history.handle with
    | none => history
    | some handle =>
      match handle.wal.append history.file record room with
      | (left,.error _) => {history with file := left}
      | (left,.ok wal) => ⟨left,some ⟨wal,handle.records ++ [record]⟩⟩
  | .syncs completes =>
    match history.handle with
    | none => history
    | some handle =>
      match handle.wal.sync history.file completes with
      | (left,.error _) => {history with file := left}
      | (left,.ok wal) => ⟨left,some {handle with wal := wal}⟩
  -- The process ends, in an append after some of its bytes or anywhere else.
  | .crashes => {history with handle := none}
  | .losesPower kept => ⟨history.file.lose kept,none⟩

def run (history : WalHistory) (events : List WalEvent) : WalHistory := events.foldl happen history

-- The file is opened when every whole record in it is on the disk, and an append
-- finds nothing of a failed one before it.
def Careful (history : WalHistory) : WalEvent → Prop
  | .opens => (images (replayed history.file)).length ≤ history.file.covered
  | .appends _ _ => ∀ handle ∈ history.handle, history.file.contents = images handle.records
  | .syncs _ | .crashes | .losesPower _ => True

instance decidableCareful (history : WalHistory) : (event : WalEvent) → Decidable (history.Careful event)
  | .opens => inferInstanceAs (Decidable (_ ≤ _))
  | .appends _ _ => inferInstanceAs (Decidable (∀ handle ∈ history.handle, history.file.contents = images handle.records))
  | .syncs _ | .crashes | .losesPower _ => inferInstanceAs (Decidable True)

def Carefully : WalHistory → List WalEvent → Prop
  | _,[] => True
  | history,event::rest => history.Careful event ∧ Carefully (history.happen event) rest

instance decidableCarefully : (history : WalHistory) → (events : List WalEvent) → Decidable (history.Carefully events)
  | _,[] => inferInstanceAs (Decidable True)
  | history,event::rest =>
    have := decidableCarefully (history.happen event) rest
    inferInstanceAs (Decidable (history.Careful event ∧ Carefully (history.happen event) rest))

structure Attached (file : WalFile) (records : List WalRecord) (handle : Handle) : Prop where
  holds : handle.records = records
  running : handle.wal.closed = false
  last : handle.wal.lastLsn = records.length
  durable : Covered file records handle.wal.durableLsn

structure Sound (history : WalHistory) (records : List WalRecord) : Prop where
  logged : Logged history.file records
  attached : ∀ handle, history.handle = some handle → Attached history.file records handle

end WalHistory

theorem Logged.replayed (logged : Logged file records) : Storage.replayed file = records := by
  obtain ⟨rest,torn,same⟩ := logged.tail
  simp only [Storage.replayed,same,recoverBytes_images logged.consecutive torn]

namespace WalHistory

theorem initial_sound : Sound initial [] := ⟨.empty,fun _ none => nomatch none⟩

section
variable (sound : Sound history records)
include sound

theorem Sound.opens (synced : history.Careful .opens) : Sound (history.happen .opens) records := by
  obtain ⟨left,opened,contents,covered⟩ := sound.logged.openFile
  rw [Careful,sound.logged.replayed] at synced
  have all : Covered left records records.length := by
    refine ⟨Nat.le_refl _,?_⟩
    rw [List.take_length,covered]
    omega
  simp only [happen,opened,sound.logged.replayed]
  refine ⟨sound.logged.recovered contents,?_⟩
  intro handle attached
  cases attached
  exact ⟨rfl,rfl,rfl,all⟩

theorem Sound.appends (clean : ∀ handle ∈ history.handle, history.file.contents = images handle.records) (record : WalRecord) (room : Nat) :
    ∃ later, Sound (history.happen (.appends record room)) later := by
  cases present : history.handle with
  | none =>
    simp only [happen,present]
    exact ⟨records,sound⟩
  | some handle =>
    have attached := sound.attached handle present
    have same : history.file.contents = images records := attached.holds ▸ clean handle present
    obtain ⟨error,left,fails,logged,covered⟩ | ⟨left,succeeds,-,next,logged,-,covered⟩ :=
      sound.logged.append same attached.running attached.last record room
    · simp only [happen,present,fails]
      refine ⟨records,logged,?_⟩
      intro other again
      cases again
      exact ⟨attached.holds,attached.running,attached.last,attached.durable.grow List.prefix_rfl (Nat.le_of_eq covered.symm)⟩
    · simp only [happen,present,succeeds]
      refine ⟨records ++ [record],logged,?_⟩
      intro other again
      cases again
      refine ⟨by rw [attached.holds],attached.running,?_,attached.durable.grow (List.prefix_append _ _) (Nat.le_of_eq covered.symm)⟩
      rw [List.length_append]
      exact next

theorem Sound.syncs (completes : Bool) : Sound (history.happen (.syncs completes)) records := by
  cases present : history.handle with
  | none =>
    simp only [happen,present]
    exact sound
  | some handle =>
    have attached := sound.attached handle present
    cases completes with
    | false =>
      simp only [happen,present,Wal.sync,attached.running,Bool.false_eq_true,if_false]
      refine ⟨sound.logged,?_⟩
      intro other again
      cases again
      exact attached
    | true =>
      simp only [happen,present,Wal.sync,attached.running,Bool.false_eq_true,if_false,if_true]
      refine ⟨sound.logged.sync,?_⟩
      intro other again
      cases again
      refine ⟨attached.holds,rfl,attached.last,?_⟩
      rw [attached.last]
      exact sound.logged.covered_sync

theorem Sound.happen (careful : history.Careful event) : ∃ later, Sound (history.happen event) later := by
  cases event with
  | opens => exact ⟨records,sound.opens careful⟩
  | appends record room => exact sound.appends careful record room
  | syncs completes => exact ⟨records,sound.syncs completes⟩
  | crashes => exact ⟨records,sound.logged,fun _ none => nomatch none⟩
  | losesPower kept =>
    obtain ⟨count,logged,_⟩ := sound.logged.lose kept
    exact ⟨records.take count,logged,fun _ none => nomatch none⟩

theorem Sound.run (careful : history.Carefully events) : ∃ later, Sound (history.run events) later := by
  induction events generalizing history records with
  | nil => exact ⟨records,sound⟩
  | cons event rest ih =>
    obtain ⟨first,remaining⟩ := careful
    obtain ⟨later,next⟩ := sound.happen first
    exact ih next remaining

end

-- Whatever a loss of power leaves, the next open finds the durable records.
theorem durable_lsn_recoverable {handle : Handle} (careful : initial.Carefully events) (present : (initial.run events).handle = some handle) :
    Consecutive 0 handle.records ∧ handle.wal.durableLsn ≤ handle.records.length ∧
      ∀ kept, (∃ left next, Wal.openFile ((initial.run events).file.lose kept) = .ok (left,next)) ∧
        handle.records.take handle.wal.durableLsn <+: replayed ((initial.run events).file.lose kept) := by
  obtain ⟨records,sound⟩ := initial_sound.run careful
  have attached := sound.attached handle present
  have same := attached.holds
  subst same
  refine ⟨sound.logged.consecutive,attached.durable.1,fun kept => ?_⟩
  obtain ⟨count,logged,inside⟩ := sound.logged.lose kept
  obtain ⟨left,opened,_⟩ := logged.openFile
  refine ⟨⟨left,_,opened⟩,?_⟩
  rw [logged.replayed]
  exact List.take_prefix_take_left (inside _ attached.durable)

-- A record, and a file that takes it whole.
def entry (lsn : Nat) : WalRecord := ⟨lsn,.put,[107],[118]⟩

-- The first open after the sync finds a torn record that the loss of power left,
-- the second one a torn record that was never synced.
def prudent : List WalEvent := [.opens,.appends (entry 1) 64,.syncs true,.appends (entry 2) 64,.losesPower 50,.opens,
  .appends (entry 2) 10,.crashes,.opens]

theorem durable_lsn_recoverable_prudent :
    initial.Carefully prudent ∧ (initial.run prudent).handle = some ⟨⟨false,1,1⟩,[entry 1]⟩ ∧
      [entry 1] <+: replayed ((initial.run prudent).file.lose 0) := by
  have careful : initial.Carefully prudent := by decide +kernel
  have present : (initial.run prudent).handle = some ⟨⟨false,1,1⟩,[entry 1]⟩ := by decide +kernel
  exact ⟨careful,present,((durable_lsn_recoverable careful present).2.2 0).2⟩

-- The process ends before the sync, and the record that the next one finds
-- counts as durable.
def hasty : List WalEvent := [.opens,.appends (entry 1) 64,.crashes,.opens]

-- An append fails after some bytes, and the next one is behind them.
def careless : List WalEvent := [.opens,.appends (entry 1) 10,.appends (entry 1) 64,.syncs true]

theorem durable_lsn_overstated :
    ((initial.run hasty).handle = some ⟨⟨false,1,1⟩,[entry 1]⟩ ∧ replayed ((initial.run hasty).file.lose 0) = []) ∧
    ((initial.run careless).handle = some ⟨⟨false,1,1⟩,[entry 1]⟩ ∧ replayed ((initial.run careless).file.lose 0) = []) := by
  decide +kernel

end WalHistory
end ForgeKv.Storage
