import ForgeKv.Library.Table
import ForgeKv.Storage.Wal

namespace ForgeKv.Storage
open Raft (Bytes)

inductive DurabilityMode where
  | async
  | sync
  | groupCommit
deriving DecidableEq, Repr

structure StorageOptions where
  walPath : String
  durability : DurabilityMode := .sync
  maxBatchEntries : Nat := 64
  maxBatchBytes : Nat := 4*1024*1024
  maxBatchWait : Int := 1000
  maxPendingEntries : Nat := 4096
  maxPendingBytes : Nat := 64*1024*1024
deriving DecidableEq, Repr

def validateKey (key : Bytes) : Except String Unit :=
  if key = [] ∨ maxKeySize < key.length then .error "key length is outside the supported range" else .ok ()

def validateOptions (options : StorageOptions) : Except String Unit :=
  if options.walPath = "" then .error "WAL path cannot be empty"
  else if options.maxBatchEntries = 0 ∨ options.maxBatchBytes = 0 ∨ options.maxBatchWait < 0 ∨ options.maxPendingEntries = 0 ∨
      options.maxPendingBytes < maxWalRecordSize then
    .error "storage queue and batch limits must be positive"
  else .ok ()

structure MutationResult where
  lsn : Nat
  existed : Bool
deriving DecidableEq, Repr

-- completion tells one promise from the others.
structure PendingMutation where
  operation : WalOperation
  key : Bytes
  value : Bytes
  completion : Nat
deriving DecidableEq, Repr

def PendingMutation.bytes (mutation : PendingMutation) : Nat := walHeaderSize+mutation.key.length+mutation.value.length

def PendingMutation.record (mutation : PendingMutation) (lsn : Nat) : WalRecord := ⟨lsn,mutation.operation,mutation.key,mutation.value⟩

-- What a promise is given.
structure Reply where
  mutation : PendingMutation
  outcome : Except Failure MutationResult

-- Where the writer thread is: in take_batch; in the three parts of process_batch
-- and before its promises are set; in fail; behind the loop.
inductive Stage where
  | taking
  | appending (nextLsn : Nat) (batch : List PendingMutation) (records : List WalRecord)
  | syncing (batch : List PendingMutation) (records : List WalRecord)
  | applying (batch : List PendingMutation) (records : List WalRecord)
  | answering (left : List (PendingMutation × MutationResult))
  | failing (error : Failure)
  | stopped
deriving DecidableEq, Repr

structure KvStore where
  options : StorageOptions
  wal : Wal
  values : Table Bytes Bytes
  visibleLsn : Nat
  queue : List PendingMutation
  pendingEntries : Nat
  pendingBytes : Nat
  accepting : Bool
  stopping : Bool
  failure : Option Failure
  stage : Stage

def applyRecovered (values : Table Bytes Bytes) (record : WalRecord) : Table Bytes Bytes :=
  match record.operation with
  | .put => values.assign record.key record.value
  | .deleteKey => values.erase record.key

-- The part of process_batch under the state lock.
def applyBatch (values : Table Bytes Bytes) : List WalRecord → Table Bytes Bytes × List MutationResult
  | [] => (values,[])
  | record::rest =>
    let existed := (values.find? record.key).isSome
    let applied := applyBatch (applyRecovered values record) rest
    (applied.1,⟨record.lsn,existed⟩::applied.2)

-- The loop of take_batch, with the batch so far: what is taken and what is left.
def takeBatch (entryLimit maxBatchBytes : Nat) (batch : List PendingMutation) (batchBytes : Nat) :
    List PendingMutation → List PendingMutation × List PendingMutation
  | [] => (batch,[])
  | next::queue =>
    if batch.length < entryLimit then
      if batch ≠ [] ∧ maxBatchBytes < batchBytes+next.bytes then (batch,next::queue)
      else takeBatch entryLimit maxBatchBytes (batch ++ [next]) (batchBytes+next.bytes) queue
    else (batch,next::queue)

-- What a step of the writer leaves, and the promises that it sets.
structure Written where
  store : KvStore
  file : WalFile
  replies : List Reply

namespace KvStore

-- The state that the constructor leaves, with the records of its recovery.
def start (options : StorageOptions) (wal : Wal) (records : List WalRecord) : KvStore where
  options := options
  wal := wal
  values := records.foldl applyRecovered .empty
  visibleLsn := wal.lastLsn
  queue := []
  pendingEntries := 0
  pendingBytes := 0
  accepting := true
  stopping := false
  failure := none
  stage := .taking

-- Wal::open recovers once, and the constructor recovers again for the values.
def openStore (options : StorageOptions) (file : WalFile) : Except Failure (WalFile × KvStore) :=
  match validateOptions options with
  | .error message => .error (.thrown message)
  | .ok () =>
    match Wal.openFile file with
    | .error error => .error (.storage error)
    | .ok (opened,wal) =>
      match wal.recover opened with
      | .error error => .error (.storage error)
      | .ok (left,recovered,records) => .ok (left,start options recovered records)

-- A caller waits for capacity as long as there is no result.
def submit (store : KvStore) (operation : WalOperation) (key value : Bytes) (completion : Nat) : Option (Except Failure KvStore) :=
  let mutation : PendingMutation := ⟨operation,key,value,completion⟩
  if store.accepting = false ∨ store.failure.isSome ∨ (store.pendingEntries < store.options.maxPendingEntries ∧
      store.pendingBytes+mutation.bytes ≤ store.options.maxPendingBytes) then
    match store.failure with
    | some error => some (.error error)
    | none =>
      if store.accepting = false then some (.error (.thrown "storage engine is closed"))
      else some (.ok {store with
        queue := store.queue ++ [mutation]
        pendingEntries := store.pendingEntries+1
        pendingBytes := store.pendingBytes+mutation.bytes})
  else none

def put (store : KvStore) (key value : Bytes) (completion : Nat) : Option (Except Failure KvStore) :=
  match validateKey key with
  | .error message => some (.error (.thrown message))
  | .ok () =>
    if maxValueSize < value.length then some (.error (.thrown "value exceeds the maximum size"))
    else store.submit .put key value completion

def erase (store : KvStore) (key : Bytes) (completion : Nat) : Option (Except Failure KvStore) :=
  match validateKey key with
  | .error message => some (.error (.thrown message))
  | .ok () => store.submit .deleteKey key [] completion

def get (store : KvStore) (key : Bytes) : Except String (Option Bytes) :=
  match validateKey key with
  | .error message => .error message
  | .ok () => .ok (store.values.find? key)

def lastLsn (store : KvStore) : Nat := store.visibleLsn

def close (store : KvStore) : KvStore := {store with accepting := false,stopping := true}

-- The writer leaves its loop and closes the log.
def stopped (store : KvStore) : KvStore := {store with stage := .stopped,wal := {store.wal with closed := true}}

-- The wait of a group commit may end at any time, so a batch may be taken
-- whenever the queue is not empty.
def take (store : KvStore) : KvStore :=
  if store.queue = [] then if store.stopping then store.stopped else store
  else
    let entryLimit := if store.options.durability = .groupCommit then store.options.maxBatchEntries else 1
    let taken := takeBatch entryLimit store.options.maxBatchBytes [] 0 store.queue
    {store with
      queue := taken.2
      pendingEntries := store.pendingEntries-taken.1.length
      pendingBytes := store.pendingBytes-(taken.1.map PendingMutation.bytes).sum
      stage := .appending ((store.wal.lastLsn+1) % 2^64) taken.1 []}

-- fail gives the error to the active batch, and then takes the lock.
def fail (store : KvStore) (file : WalFile) (error : Failure) (batch : List PendingMutation) : Written :=
  ⟨{store with stage := .failing error},file,batch.map (fun mutation => ⟨mutation,.error error⟩)⟩

def abandon (store : KvStore) (file : WalFile) (error : Failure) : Written :=
  ⟨{store with
    failure := some error,accepting := false,stopping := true,queue := [],pendingEntries := 0,pendingBytes := 0,
    stage := .stopped,wal := {store.wal with closed := true}},file,store.queue.map (fun mutation => ⟨mutation,.error error⟩)⟩

def append (store : KvStore) (file : WalFile) (nextLsn : Nat) (batch : List PendingMutation) (records : List WalRecord)
    (mutation : PendingMutation) (room : Nat) : Written :=
  match store.wal.append file (mutation.record nextLsn) room with
  | (left,.error error) => store.fail left error batch
  | (left,.ok wal) =>
    let written := records ++ [mutation.record nextLsn]
    let stage : Stage :=
      if written.length < batch.length then .appending ((nextLsn+1) % 2^64) batch written
      else if store.options.durability = .async then .applying batch written
      else .syncing batch written
    ⟨{store with wal := wal,stage := stage},left,[]⟩

def sync (store : KvStore) (file : WalFile) (batch : List PendingMutation) (records : List WalRecord) (completes : Bool) : Written :=
  match store.wal.sync file completes with
  | (left,.error error) => store.fail left error batch
  | (left,.ok wal) => ⟨{store with wal := wal,stage := .applying batch records},left,[]⟩

def apply (store : KvStore) (batch : List PendingMutation) (records : List WalRecord) : KvStore :=
  let applied := applyBatch store.values records
  {store with
    values := applied.1
    visibleLsn := (records.getLast?.map WalRecord.lsn).getD store.visibleLsn
    stage := .answering (batch.zip applied.2)}

end KvStore

-- What happens next, where it is up to the system or to a hook: how many bytes
-- the file takes, whether the sync completes, what a hook throws.
inductive WriterStep where
  | goes (room : Nat) (completes : Bool)
  | throws (message : String)

def KvStore.write (store : KvStore) (file : WalFile) : WriterStep → Written
  | .goes room completes =>
    match store.stage with
    | .taking => ⟨store.take,file,[]⟩
    | .appending nextLsn batch records =>
      match batch[records.length]? with
      | none => ⟨store,file,[]⟩
      | some mutation => store.append file nextLsn batch records mutation room
    | .syncing batch records => store.sync file batch records completes
    | .applying batch records => ⟨store.apply batch records,file,[]⟩
    | .answering [] => ⟨{store with stage := .taking},file,[]⟩
    | .answering ((mutation,result)::left) => ⟨{store with stage := .answering left},file,[⟨mutation,.ok result⟩]⟩
    | .failing error => store.abandon file error
    | .stopped => ⟨store,file,[]⟩
  -- before_append, after_append, before_sync, after_sync or flush_observer
  | .throws message =>
    match store.stage with
    | .appending _ batch _ | .syncing batch _ | .applying batch _ => store.fail file (.thrown message) batch
    | .taking | .answering _ | .failing _ | .stopped => ⟨store,file,[]⟩

end ForgeKv.Storage
