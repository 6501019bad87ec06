import ForgeKv.Storage.Refinement
import ForgeKv.Storage.WalHistory

namespace ForgeKv.Storage
open Raft (Bytes)

-- A machine with one log file and at most one store on it. order is the queue
-- order: the mutations found when the store was opened, found of them, and then
-- those queued. replies are the promises set since, and promised are the LSNs
-- acknowledged by a store that syncs, over all stores, with their mutations.
structure Host where
  file : WalFile
  store : Option KvStore
  order : List Mutation
  found : Nat
  replies : List Reply
  promised : List (Nat × Mutation)

inductive StoreEvent where
  | opens (options : StorageOptions)
  | puts (key value : Bytes)
  | erases (key : Bytes)
  | writes (step : WriterStep)
  | closes
  | crashes
  | losesPower (kept : Nat)

def Reply.promise (reply : Reply) : Option (Nat × Mutation) :=
  match reply.outcome with
  | .error _ => none
  | .ok result => some (result.lsn,reply.mutation.mutation)

namespace Host

def initial : Host := ⟨.empty,none,[],0,[],[]⟩

-- A call that waits or throws leaves the store alone.
def queued (host : Host) (mutation : Mutation) : Option (Except Failure KvStore) → Host
  | none | some (.error _) => host
  | some (.ok store) => {host with store := some store,order := host.order ++ [mutation]}

def happen (host : Host) : StoreEvent → Host
  | .opens options =>
    match host.store with
    | some _ => host
    | none =>
      match KvStore.openStore options host.file with
      | .error _ => host
      | .ok (left,store) =>
        let order := (replayed host.file).map WalRecord.mutation
        {host with file := left,store := some store,order := order,found := order.length,replies := []}
  | .puts key value =>
    match host.store with
    | none => host
    | some store => host.queued ⟨.put,key,value⟩ (store.put key value host.order.length)
  | .erases key =>
    match host.store with
    | none => host
    | some store => host.queued ⟨.deleteKey,key,[]⟩ (store.erase key host.order.length)
  | .writes step =>
    match host.store with
    | none => host
    | some store =>
      let written := store.write host.file step
      let promises := if store.options.durability = .async then [] else written.replies.filterMap Reply.promise
      {host with
        file := written.file,store := some written.store,replies := host.replies ++ written.replies
        promised := host.promised ++ promises}
  | .closes => {host with store := host.store.map KvStore.close}
  | .crashes => {host with store := none}
  | .losesPower kept => {host with file := host.file.lose kept,store := none}

def run (host : Host) (events : List StoreEvent) : Host := events.foldl happen host

end Host

-- An acknowledged LSN, its mutation in the order, and its record under the sync.
def Kept (file : WalFile) (records : List WalRecord) (order : List Mutation) (promise : Nat × Mutation) : Prop :=
  0 < promise.1 ∧ order[promise.1-1]? = some promise.2 ∧ Covered file records promise.1

namespace Host

structure Sound (host : Host) (records : List WalRecord) : Prop where
  logged : Logged host.file records
  ordered : records.map WalRecord.mutation <+: host.order
  kept : ∀ promise ∈ host.promised, Kept host.file records host.order promise
  completions : host.replies.map (fun reply => reply.mutation.completion) = List.range' host.found host.replies.length
  answered : ∀ reply ∈ host.replies, Answered host.order reply
  serving : ∀ store, host.store = some store →
    Serving host.file records host.order (host.found+host.replies.length) store ∧
    ∀ reply ∈ host.replies, ∀ result, reply.outcome = .ok result → result.lsn ≤ store.visibleLsn

theorem initial_sound : Sound initial [] :=
  ⟨.empty,List.nil_prefix,(fun _ member => nomatch member),rfl,(fun _ member => nomatch member),fun _ none => nomatch none⟩

end Host

theorem Kept.grow (kept : Kept file records order promise) (grows : records <+: later) (more : file.covered ≤ left.covered)
    (rest : List Mutation) : Kept left later (order ++ rest) promise := by
  obtain ⟨positive,found,covers⟩ := kept
  refine ⟨positive,?_,covers.grow grows more⟩
  rw [List.getElem?_append_left (List.getElem?_eq_some_iff.mp found).1]
  exact found

theorem Answered.kept (answered : Answered order reply) (replied : reply.promise = some promise)
    (covers : ∀ result, reply.outcome = .ok result → Covered file records result.lsn) : Kept file records order promise := by
  unfold Reply.promise at replied
  split at replied
  · cases replied
  · rename_i result outcome
    cases replied
    obtain ⟨found,right⟩ := answered
    have number := (right result outcome).1
    refine ⟨by omega,?_,covers result outcome⟩
    rw [number,Nat.add_sub_cancel]
    exact found

theorem Logged.openStore (logged : Logged file records) (valid : validateOptions options = .ok ()) :
    ∃ left store, KvStore.openStore options file = .ok (left,store) ∧
      left.contents = images records ∧ left.covered = min file.covered (images records).length ∧
      store.visibleLsn = records.length ∧ store.values = plain (records.map WalRecord.mutation) ∧
      Serving left records (records.map WalRecord.mutation) records.length store := by
  obtain ⟨opened,opens,contents,covered⟩ := logged.openFile
  obtain ⟨left,recovers,again,same⟩ := (logged.recovered contents).recover (rfl : (⟨false,records.length,records.length⟩ : Wal).closed = false)
  have values : records.foldl applyRecovered .empty = plain (records.map WalRecord.mutation) := foldl_applyRecovered records _
  have all : (records.map WalRecord.mutation).take records.length = records.map WalRecord.mutation :=
    List.take_of_length_le (Nat.le_of_eq (List.length_map _))
  refine ⟨left,.start options ⟨false,records.length,records.length⟩ records,?_,again,?_,rfl,values,?_⟩
  · simp only [KvStore.openStore,valid,opens,recovers]
  · rw [same,covered,Nat.min_assoc,Nat.min_self]
  · refine ⟨valid,Nat.le_refl _,?_,⟨?_,?_,rfl⟩,⟨rfl,rfl,again⟩,rfl,rfl⟩
    · dsimp only [KvStore.start]
      rw [all]
      exact values
    · rw [List.length_map]
    · rw [List.drop_of_length_le (Nat.le_of_eq (List.length_map _))]
      rfl

namespace Host
variable {host : Host} {records : List WalRecord}

section
variable (sound : Sound host records)
include sound

theorem Sound.opens (options : StorageOptions) : Sound (host.happen (.opens options)) records := by
  cases present : host.store with
  | some =>
    simp only [happen,present]
    exact sound
  | none =>
    cases checked : validateOptions options with
    | error =>
      simp only [happen,present,KvStore.openStore,checked]
      exact sound
    | ok =>
      obtain ⟨left,store,opened,contents,covered,_,_,serving⟩ := sound.logged.openStore checked
      simp only [happen,present,opened,sound.logged.replayed]
      refine ⟨sound.logged.recovered contents,List.prefix_rfl,?_,rfl,(fun _ member => nomatch member),?_⟩
      · intro promise member
        obtain ⟨positive,found,within,fits⟩ := sound.kept promise member
        refine ⟨positive,?_,within,?_⟩
        · obtain ⟨rest,order⟩ := sound.ordered
          rw [← order,List.getElem?_append_left (by rw [List.length_map]; omega)] at found
          exact found
        · rw [covered]
          exact Nat.le_min.mpr ⟨fits,images_take_le records promise.1⟩
      · intro other same
        cases same
        refine ⟨?_,fun _ member => nomatch member⟩
        rw [List.length_map]
        exact serving

theorem Sound.queued {store : KvStore} (present : host.store = some store) (operation : WalOperation) (key value : Bytes) :
    Sound (host.queued ⟨operation,key,value⟩ (store.submit operation key value host.order.length)) records := by
  unfold KvStore.submit
  dsimp only
  split
  · split
    · exact sound
    · split
      · exact sound
      · obtain ⟨serving,seen⟩ := sound.serving store present
        have inside : records.length ≤ host.order.length := by
          have length := sound.ordered.length_le
          rwa [List.length_map] at length
        refine ⟨sound.logged,sound.ordered.trans (List.prefix_append _ _),?_,sound.completions,?_,?_⟩
        · intro promise member
          exact (sound.kept promise member).grow List.prefix_rfl (Nat.le_refl _) _
        · intro reply member
          exact (sound.answered reply member).grow _
        · intro other same
          cases same
          refine ⟨⟨serving.limits,serving.visible,?_,?_,?_⟩,seen⟩
          · dsimp only [Host.queued]
            rw [List.take_append_of_le_length (Nat.le_trans serving.visible inside)]
            exact serving.values
          · have pushed := serving.awaiting.push (rfl : (⟨operation,key,value,host.order.length⟩ : PendingMutation).completion = _)
            rw [List.append_assoc] at pushed
            exact pushed
          · exact serving.staged.grow _
  · exact sound

theorem Sound.puts (key value : Bytes) : Sound (host.happen (.puts key value)) records := by
  cases present : host.store with
  | none =>
    simp only [happen,present]
    exact sound
  | some =>
    simp only [happen,present,KvStore.put]
    split
    · exact sound
    · split
      · exact sound
      · exact sound.queued present .put key value

theorem Sound.erases (key : Bytes) : Sound (host.happen (.erases key)) records := by
  cases present : host.store with
  | none =>
    simp only [happen,present]
    exact sound
  | some =>
    simp only [happen,present,KvStore.erase]
    split
    · exact sound
    · exact sound.queued present .deleteKey key []

theorem Sound.writes (step : WriterStep) : ∃ later, Sound (host.happen (.writes step)) later := by
  cases present : host.store with
  | none =>
    simp only [happen,present]
    exact ⟨records,sound⟩
  | some store =>
    obtain ⟨serving,seen⟩ := sound.serving store present
    obtain ⟨later,advances⟩ := write_advances sound.logged sound.ordered serving step
    simp only [happen,present]
    refine ⟨later,advances.logged,advances.ordered,?_,?_,?_,?_⟩
    · intro promise member
      obtain old | new := List.mem_append.mp member
      · have kept := (sound.kept promise old).grow advances.grows advances.covered []
        rwa [List.append_nil] at kept
      · split at new
        · cases new
        · rename_i synced
          obtain ⟨reply,inside,replied⟩ := List.mem_filterMap.mp new
          exact (advances.answered reply inside).kept replied fun result outcome => (advances.acknowledged reply inside result outcome).2 synced
    · dsimp only
      rw [List.map_append,sound.completions,advances.completions,List.length_append,List.range'_append_1]
    · intro reply member
      obtain old | new := List.mem_append.mp member
      · exact sound.answered reply old
      · exact advances.answered reply new
    · intro other same
      cases same
      rw [List.length_append,← Nat.add_assoc]
      refine ⟨advances.serving,?_⟩
      intro reply member result outcome
      obtain old | new := List.mem_append.mp member
      · exact Nat.le_trans (seen reply old result outcome) advances.seen
      · exact (advances.acknowledged reply new result outcome).1

theorem Sound.closes : Sound (host.happen .closes) records := by
  refine ⟨sound.logged,sound.ordered,sound.kept,sound.completions,sound.answered,?_⟩
  intro other same
  obtain ⟨store,present,rfl⟩ := Option.map_eq_some_iff.mp same
  obtain ⟨serving,seen⟩ := sound.serving store present
  exact ⟨{serving with},seen⟩

theorem Sound.losesPower (kept : Nat) : ∃ later, Sound (host.happen (.losesPower kept)) later := by
  obtain ⟨count,logged,inside⟩ := sound.logged.lose kept
  refine ⟨records.take count,logged,?_,?_,sound.completions,sound.answered,fun _ none => nomatch none⟩
  · rw [List.map_take]
    exact (List.take_prefix _ _).trans sound.ordered
  · intro promise member
    obtain ⟨positive,found,covers⟩ := sound.kept promise member
    have small := inside promise.1 covers
    refine ⟨positive,found,?_,?_⟩
    · rw [List.length_take]
      exact Nat.le_min.mpr ⟨small,covers.1⟩
    · rw [List.take_take,Nat.min_eq_left small]
      exact Nat.le_trans covers.2 (host.file.covered_lose kept)

theorem Sound.happen (event : StoreEvent) : ∃ later, Sound (host.happen event) later := by
  cases event with
  | opens options => exact ⟨records,sound.opens options⟩
  | puts key value => exact ⟨records,sound.puts key value⟩
  | erases key => exact ⟨records,sound.erases key⟩
  | writes step => exact sound.writes step
  | closes => exact ⟨records,sound.closes⟩
  | crashes => exact ⟨records,sound.logged,sound.ordered,sound.kept,sound.completions,sound.answered,fun _ none => nomatch none⟩
  | losesPower kept => exact sound.losesPower kept

theorem Sound.run (events : List StoreEvent) : ∃ later, Sound (host.run events) later := by
  induction events generalizing host records with
  | nil => exact ⟨records,sound⟩
  | cons event rest ih =>
    obtain ⟨later,next⟩ := sound.happen event
    exact ih next

end

-- A store is a plain map run in the queue order. Its promises are set in that
-- order, once each; and what a crash leaves of the log is opened as the map of a
-- first part of the order with all that was acknowledged after a sync.
structure Refines (host : Host) : Prop where
  completions : host.replies.map (fun reply => reply.mutation.completion) = List.range' host.found host.replies.length
  answered : ∀ reply ∈ host.replies, Answered host.order reply
  visible : ∀ store, host.store = some store → store.lastLsn ≤ host.order.length ∧
    ∀ reply ∈ host.replies, ∀ result, reply.outcome = .ok result → result.lsn ≤ store.lastLsn
  gets : ∀ store, host.store = some store → ∀ key, validateKey key = .ok () →
    store.get key = .ok ((plain (host.order.take store.lastLsn)).find? key)
  survives : ∀ kept options, validateOptions options = .ok () →
    ∃ left store, KvStore.openStore options (host.file.lose kept) = .ok (left,store) ∧ store.lastLsn ≤ host.order.length ∧
      store.values = plain (host.order.take store.lastLsn) ∧
      ∀ promise ∈ host.promised, 0 < promise.1 ∧ promise.1 ≤ store.lastLsn ∧ host.order[promise.1-1]? = some promise.2

theorem Sound.survives (sound : Sound host records) (kept : Nat) (valid : validateOptions options = .ok ()) :
    ∃ left store, KvStore.openStore options (host.file.lose kept) = .ok (left,store) ∧ store.lastLsn ≤ host.order.length ∧
      store.values = plain (host.order.take store.lastLsn) ∧
      ∀ promise ∈ host.promised, 0 < promise.1 ∧ promise.1 ≤ store.lastLsn ∧ host.order[promise.1-1]? = some promise.2 := by
  obtain ⟨later,lost⟩ := sound.losesPower kept
  obtain ⟨left,store,opened,_,_,visible,values,_⟩ := lost.logged.openStore valid
  have ordered : later.map WalRecord.mutation <+: host.order := lost.ordered
  have inside := ordered.length_le
  rw [List.length_map] at inside
  refine ⟨left,store,opened,?_,?_,?_⟩
  · rw [KvStore.lastLsn,visible]
    exact inside
  · rw [KvStore.lastLsn,visible,values,ordered_take ordered (Nat.le_refl _),List.take_length]
  · intro promise member
    obtain ⟨positive,found,covers⟩ := lost.kept promise member
    refine ⟨positive,?_,found⟩
    rw [KvStore.lastLsn,visible]
    exact covers.1

theorem store_refines_map (events : List StoreEvent) : (initial.run events).Refines := by
  obtain ⟨records,sound⟩ := initial_sound.run events
  have inside := sound.ordered.length_le
  rw [List.length_map] at inside
  refine ⟨sound.completions,sound.answered,?_,?_,fun kept options valid => sound.survives kept valid⟩
  · intro store present
    obtain ⟨serving,seen⟩ := sound.serving store present
    exact ⟨Nat.le_trans serving.visible inside,seen⟩
  · intro store present key valid
    obtain ⟨serving,_⟩ := sound.serving store present
    simp only [KvStore.get,valid,serving.values]
    rfl

-- A batch of two under group commit, and what a loss of power leaves of it.
example : ((initial.run [.opens {walPath := "wal",durability := .groupCommit},.puts [1] [2],.erases [1],.writes (.goes 64 true),
    .writes (.goes 64 true),.writes (.goes 64 true),.writes (.goes 64 true),.writes (.goes 64 true),.writes (.goes 64 true),
    .losesPower 0]).promised.map Prod.fst,
    (initial.run [.opens {walPath := "wal",durability := .groupCommit},.puts [1] [2],.writes (.goes 64 true),
      .writes (.goes 64 true),.losesPower 0]).file.contents) = ([1],[]) := by decide +kernel

end Host
end ForgeKv.Storage
