import ForgeKv.Storage.KvStore
import ForgeKv.Storage.Logged

namespace ForgeKv.Storage
open Raft (Bytes)

-- A mutation of a plain map.
structure Mutation where
  operation : WalOperation
  key : Bytes
  value : Bytes
deriving DecidableEq, Repr

def Mutation.run (values : Table Bytes Bytes) (mutation : Mutation) : Table Bytes Bytes :=
  match mutation.operation with
  | .put => values.assign mutation.key mutation.value
  | .deleteKey => values.erase mutation.key

def plain (order : List Mutation) : Table Bytes Bytes := order.foldl Mutation.run .empty

def WalRecord.mutation (record : WalRecord) : Mutation := ⟨record.operation,record.key,record.value⟩

def PendingMutation.mutation (pending : PendingMutation) : Mutation := ⟨pending.operation,pending.key,pending.value⟩

-- The reply says what a plain map says after the mutations before it.
def Answered (order : List Mutation) (reply : Reply) : Prop :=
  order[reply.mutation.completion]? = some reply.mutation.mutation ∧ ∀ result, reply.outcome = .ok result →
    result.lsn = reply.mutation.completion+1 ∧
    result.existed = ((plain (order.take reply.mutation.completion)).find? reply.mutation.key).isSome

-- The pending mutations are the order from start on.
structure Awaiting (order : List Mutation) (start : Nat) (pending : List PendingMutation) : Prop where
  inside : start ≤ order.length
  mutations : pending.map PendingMutation.mutation = order.drop start
  completions : pending.map PendingMutation.completion = List.range' start pending.length

namespace Awaiting
variable {order : List Mutation} {start : Nat}

theorem get (awaiting : Awaiting order start pending) (found : pending[index]? = some mutation) :
    mutation.completion = start+index ∧ order[start+index]? = some mutation.mutation := by
  constructor
  · have same := congrArg (fun list => list[index]?) awaiting.completions
    have inside := (List.getElem?_eq_some_iff.mp found).1
    simp only [List.getElem?_map,found,Option.map_some] at same
    rw [List.getElem?_range' inside] at same
    simpa using Option.some.inj same
  · have same := congrArg (fun list => list[index]?) awaiting.mutations
    simpa only [List.getElem?_map,found,Option.map_some,List.getElem?_drop,eq_comm] using same

theorem push (awaiting : Awaiting order start pending) (new : mutation.completion = order.length) :
    Awaiting (order ++ [mutation.mutation]) start (pending ++ [mutation]) := by
  have length := congrArg List.length awaiting.mutations
  have inside := awaiting.inside
  rw [List.length_map,List.length_drop] at length
  refine ⟨?_,?_,?_⟩
  · rw [List.length_append]
    omega
  · rw [List.map_append,awaiting.mutations,List.drop_append_of_le_length inside]
    rfl
  · rw [List.map_append,awaiting.completions,List.length_append,List.length_singleton,List.range'_concat,Nat.one_mul,List.map_singleton,new]
    congr 2
    omega

theorem pass (awaiting : Awaiting order start (front ++ rest)) : Awaiting order (start+front.length) rest := by
  have length := congrArg List.length awaiting.mutations
  have inside := awaiting.inside
  rw [List.length_map,List.length_drop,List.length_append] at length
  refine ⟨by omega,?_,?_⟩
  · have later := congrArg (List.drop front.length) awaiting.mutations
    rwa [List.map_append,List.drop_left' (List.length_map _),List.drop_drop] at later
  · have later := congrArg (List.drop front.length) awaiting.completions
    rw [List.map_append,List.drop_left' (List.length_map _),List.length_append] at later
    rw [later,List.drop_range',Nat.mul_one,Nat.add_sub_cancel_left]

theorem tickets (awaiting : Awaiting order start (front ++ rest)) : front.map PendingMutation.completion = List.range' start front.length := by
  have whole := congrArg (List.take front.length) awaiting.completions
  rw [List.map_append,List.take_left' (List.length_map _),List.length_append] at whole
  rw [whole,← List.range'_append_1,List.take_left' (List.length_range' ..)]

end Awaiting

theorem takeBatch_parts (entryLimit maxBatchBytes : Nat) (batch : List PendingMutation) (batchBytes : Nat) (queue : List PendingMutation) :
    (takeBatch entryLimit maxBatchBytes batch batchBytes queue).1 ++ (takeBatch entryLimit maxBatchBytes batch batchBytes queue).2 =
      batch ++ queue := by
  induction queue generalizing batch batchBytes with
  | nil => rfl
  | cons next queue ih =>
    unfold takeBatch
    split
    · split
      · rfl
      · rw [ih,List.append_assoc]
        rfl
    · rfl

theorem takeBatch_nonempty (entryLimit maxBatchBytes batchBytes : Nat) (queue : List PendingMutation) (some : batch ≠ []) :
    (takeBatch entryLimit maxBatchBytes batch batchBytes queue).1 ≠ [] := by
  induction queue generalizing batch batchBytes with
  | nil => exact some
  | cons next queue ih =>
    unfold takeBatch
    split
    · split
      · exact some
      · exact ih _ (by simp)
    · exact some

theorem takeBatch_progress (positive : 0 < entryLimit) (maxBatchBytes : Nat) (some : queue ≠ []) :
    0 < (takeBatch entryLimit maxBatchBytes [] 0 queue).1.length := by
  cases queue with
  | nil => exact absurd rfl some
  | cons next queue =>
    have first : takeBatch entryLimit maxBatchBytes [] 0 (next::queue) = takeBatch entryLimit maxBatchBytes [next] (0+next.bytes) queue := by
      simp [takeBatch,positive]
    rw [first]
    exact List.length_pos_of_ne_nil (takeBatch_nonempty _ _ _ _ (by simp))

theorem plain_append (order later : List Mutation) : plain (order ++ later) = later.foldl Mutation.run (plain order) := List.foldl_append

theorem foldl_applyRecovered (records : List WalRecord) (values : Table Bytes Bytes) :
    records.foldl applyRecovered values = (records.map WalRecord.mutation).foldl Mutation.run values := by
  rw [List.foldl_map]
  rfl

section
variable (values : Table Bytes Bytes) (records : List WalRecord)
include values records

theorem applyBatch_values :
    (applyBatch values records).1 = (records.map WalRecord.mutation).foldl Mutation.run values := by
  induction records generalizing values with
  | nil => rfl
  | cons record rest ih => exact ih _

theorem applyBatch_length :
    (applyBatch values records).2.length = records.length := by
  induction records generalizing values with
  | nil => rfl
  | cons record rest ih => exact congrArg Nat.succ (ih _)

theorem applyBatch_result (found : (applyBatch values records).2[index]? = some result) :
    ∃ record, records[index]? = some record ∧ result.lsn = record.lsn ∧
      result.existed = ((((records.take index).map WalRecord.mutation).foldl Mutation.run values).find? record.key).isSome := by
  induction records generalizing values index with
  | nil => cases found
  | cons record rest ih =>
    cases index with
    | zero =>
      cases found
      exact ⟨record,rfl,rfl,rfl⟩
    | succ => exact ih _ found

end

theorem Consecutive.number (consecutive : Consecutive lsn records) (found : records[index]? = some record) : record.lsn = lsn+index+1 := by
  induction records generalizing lsn index with
  | nil => cases found
  | cons head rest ih =>
    obtain ⟨_,next,consecutive⟩ := consecutive
    cases index with
    | zero =>
      cases found
      exact next
    | succ index =>
      have number : record.lsn = lsn+1+index+1 := ih consecutive found
      omega

theorem Answered.grow (answered : Answered order reply) (later : List Mutation) : Answered (order ++ later) reply := by
  obtain ⟨found,right⟩ := answered
  have inside := (List.getElem?_eq_some_iff.mp found).1
  refine ⟨?_,fun result replied => ?_⟩
  · rw [List.getElem?_append_left inside]
    exact found
  · rw [List.take_append_of_le_length (Nat.le_of_lt inside)]
    exact right result replied

section ordered
variable {records : List WalRecord} {record : WalRecord} {order : List Mutation} {index count : Nat}

section
variable (ordered : records.map WalRecord.mutation <+: order)
include ordered

theorem ordered_take (within : count ≤ records.length) :
    order.take count = (records.take count).map WalRecord.mutation := by
  obtain ⟨-,rfl⟩ := ordered
  rw [List.take_append_of_le_length (by rwa [List.length_map]),List.map_take]

theorem ordered_get (found : records[index]? = some record) :
    order[index]? = some record.mutation := by
  obtain ⟨-,rfl⟩ := ordered
  have inside := (List.getElem?_eq_some_iff.mp found).1
  rw [List.getElem?_append_left (by rwa [List.length_map]),List.getElem?_map,found]
  rfl

theorem ordered_push (found : order[records.length]? = some record.mutation) :
    (records ++ [record]).map WalRecord.mutation <+: order := by
  obtain ⟨rest,rfl⟩ := ordered
  rw [List.getElem?_append_right (by rw [List.length_map]),List.length_map,Nat.sub_self] at found
  cases rest with
  | nil => cases found
  | cons next rest =>
    cases found
    exact ⟨rest,by simp⟩

end

end ordered

structure Ready (file : WalFile) (records : List WalRecord) (wal : Wal) : Prop where
  running : wal.closed = false
  last : wal.lastLsn = records.length
  whole : file.contents = images records

def Stage.batch : Stage → List PendingMutation
  | .appending _ batch _ | .syncing batch _ | .applying batch _ => batch
  | .answering left => left.map Prod.fst
  | .taking | .failing _ | .stopped => []

-- What the writer has behind it at each stage. next is the promise that is set next.
def Staged (file : WalFile) (records : List WalRecord) (order : List Mutation) (visible next : Nat) (durability : DurabilityMode) (wal : Wal) :
    Stage → Prop
  | .taking => Ready file records wal ∧ visible = records.length ∧ next = visible
  | .appending nextLsn batch written => Ready file records wal ∧ next = visible ∧ written = records.drop visible ∧
    written.length < batch.length ∧ nextLsn = records.length+1
  | .syncing batch written => Ready file records wal ∧ next = visible ∧ written = records.drop visible ∧ written.length = batch.length
  | .applying batch written => Ready file records wal ∧ next = visible ∧ written = records.drop visible ∧ written.length = batch.length ∧
    (durability ≠ .async → Covered file records records.length)
  | .answering left => Ready file records wal ∧ visible = records.length ∧ next+left.length = visible ∧
    (∀ entry ∈ left, Answered order ⟨entry.1,.ok entry.2⟩ ∧ entry.2.lsn ≤ visible) ∧
    (durability ≠ .async → Covered file records records.length)
  | .failing _ | .stopped => True

theorem Staged.grow (staged : Staged file records order visible next durability wal stage) (rest : List Mutation) :
    Staged file records (order ++ rest) visible next durability wal stage := by
  cases stage with
  | answering =>
    obtain ⟨ready,same,count,answers,durable⟩ := staged
    exact ⟨ready,same,count,fun entry member => ⟨(answers entry member).1.grow rest,(answers entry member).2⟩,durable⟩
  | taking | appending | syncing | applying | failing | stopped => exact staged

structure Serving (file : WalFile) (records : List WalRecord) (order : List Mutation) (next : Nat) (store : KvStore) : Prop where
  limits : validateOptions store.options = .ok ()
  visible : store.visibleLsn ≤ records.length
  values : store.values = plain (order.take store.visibleLsn)
  awaiting : Awaiting order next (store.stage.batch ++ store.queue)
  staged : Staged file records order store.visibleLsn next store.options.durability store.wal store.stage

theorem Serving.on (serving : Serving file records order next store) (stage : store.stage = current) :
    Awaiting order next (current.batch ++ store.queue) ∧
      Staged file records order store.visibleLsn next store.options.durability store.wal current :=
  stage ▸ ⟨serving.awaiting,serving.staged⟩

structure Advances (file : WalFile) (records : List WalRecord) (order : List Mutation) (next : Nat) (store : KvStore) (written : Written)
    (later : List WalRecord) : Prop where
  logged : Logged written.file later
  ordered : later.map WalRecord.mutation <+: order
  grows : records <+: later
  covered : file.covered ≤ written.file.covered
  completions : written.replies.map (fun reply => reply.mutation.completion) = List.range' next written.replies.length
  answered : ∀ reply ∈ written.replies, Answered order reply
  seen : store.visibleLsn ≤ written.store.visibleLsn
  acknowledged : ∀ reply ∈ written.replies, ∀ result, reply.outcome = .ok result → result.lsn ≤ written.store.visibleLsn ∧
    (store.options.durability ≠ .async → Covered written.file later result.lsn)
  serving : Serving written.file later order (next+written.replies.length) written.store

section steps
variable {file left : WalFile} {records : List WalRecord} {order : List Mutation} {next : Nat} {store : KvStore}

theorem Advances.quiet {after : KvStore} {later : List WalRecord} (logged : Logged left later) (ordered : later.map WalRecord.mutation <+: order)
    (grows : records <+: later) (covered : file.covered ≤ left.covered) (seen : store.visibleLsn ≤ after.visibleLsn)
    (serving : Serving left later order next after) : Advances file records order next store ⟨after,left,[]⟩ later :=
  ⟨logged,ordered,grows,covered,rfl,(fun _ member => nomatch member),seen,(fun _ member => nomatch member),serving⟩

theorem Advances.idle (logged : Logged file records) (ordered : records.map WalRecord.mutation <+: order)
    (serving : Serving file records order next store) : Advances file records order next store ⟨store,file,[]⟩ records :=
  .quiet logged ordered List.prefix_rfl (Nat.le_refl _) (Nat.le_refl _) serving

theorem Awaiting.refuse (awaiting : Awaiting order next (batch ++ rest)) (error : Failure) :
    (batch.map (fun mutation => (⟨mutation,.error error⟩ : Reply))).map (fun reply => reply.mutation.completion) =
      List.range' next (batch.map (fun mutation => (⟨mutation,.error error⟩ : Reply))).length ∧
    ∀ reply ∈ batch.map (fun mutation => (⟨mutation,.error error⟩ : Reply)), Answered order reply ∧ ∀ result, reply.outcome ≠ .ok result := by
  constructor
  · rw [List.map_map,List.length_map]
    exact awaiting.tickets
  · intro reply member
    obtain ⟨mutation,inside,rfl⟩ := List.mem_map.mp member
    obtain ⟨index,found⟩ := List.mem_iff_getElem?.mp inside
    have within := (List.getElem?_eq_some_iff.mp found).1
    obtain ⟨completion,same⟩ := awaiting.get (by rw [List.getElem?_append_left within,found])
    exact ⟨⟨by rw [completion]; exact same,(fun _ wrong => nomatch wrong)⟩,fun _ wrong => nomatch wrong⟩

theorem fail_advances (logged : Logged left records) (ordered : records.map WalRecord.mutation <+: order)
    (covered : file.covered ≤ left.covered) (serving : Serving file records order next store) (error : Failure) :
    Advances file records order next store (store.fail left error store.stage.batch) records := by
  obtain ⟨completions,refused⟩ := serving.awaiting.refuse error
  refine ⟨logged,ordered,List.prefix_rfl,covered,completions,fun reply member => (refused reply member).1,Nat.le_refl _,?_,?_⟩
  · intro reply member result replied
    exact absurd replied ((refused reply member).2 result)
  · refine ⟨serving.limits,serving.visible,serving.values,?_,trivial⟩
    simp only [KvStore.fail,List.length_map]
    exact serving.awaiting.pass

section
variable (logged : Logged file records) (ordered : records.map WalRecord.mutation <+: order) (serving : Serving file records order next store)
include logged ordered serving

theorem abandon_advances (stage : store.stage = .failing error) :
    Advances file records order next store (store.abandon file error) records := by
  have awaiting : Awaiting order next (store.queue ++ []) := by
    have pending := serving.awaiting
    rw [stage] at pending
    rw [List.append_nil]
    exact pending
  obtain ⟨completions,refused⟩ := awaiting.refuse error
  refine ⟨logged,ordered,List.prefix_rfl,Nat.le_refl _,completions,fun reply member => (refused reply member).1,Nat.le_refl _,?_,?_⟩
  · intro reply member result replied
    exact absurd replied ((refused reply member).2 result)
  · refine ⟨serving.limits,serving.visible,serving.values,?_,trivial⟩
    simp only [KvStore.abandon,List.length_map]
    exact awaiting.pass

theorem take_advances (stage : store.stage = .taking) :
    Advances file records order next store ⟨store.take,file,[]⟩ records := by
  obtain ⟨awaiting,ready,visible,now⟩ := serving.on stage
  refine .quiet logged ordered List.prefix_rfl (Nat.le_refl _) ?_ ?_
  · unfold KvStore.take
    split
    · split
      · exact Nat.le_refl _
      · exact Nat.le_refl _
    · exact Nat.le_refl _
  · unfold KvStore.take
    split
    · split
      · exact ⟨serving.limits,serving.visible,serving.values,awaiting,trivial⟩
      · exact serving
    · rename_i some
      have positive : 0 < (if store.options.durability = .groupCommit then store.options.maxBatchEntries else 1) := by
        have limits := serving.limits
        unfold validateOptions at limits
        split
        · by_contra none
          simp only [Nat.eq_zero_of_not_pos none,true_or,if_true] at limits
          split at limits
          · cases limits
          · cases limits
        · exact Nat.one_pos
      refine ⟨serving.limits,serving.visible,serving.values,?_,ready,now,?_,takeBatch_progress positive _ some,?_⟩
      · dsimp only [Stage.batch]
        rw [takeBatch_parts]
        exact awaiting
      · rw [visible,List.drop_length]
      · rw [ready.last,Nat.mod_eq_of_lt logged.length_lt]

theorem append_advances (stage : store.stage = .appending nextLsn batch written)
    (found : batch[written.length]? = some mutation) (room : Nat) :
    ∃ later, Advances file records order next store (store.append file nextLsn batch written mutation room) later := by
  have visible := serving.visible
  obtain ⟨awaiting,ready,now,behind,more,number⟩ := serving.on stage
  have size : store.visibleLsn+written.length = records.length := by
    rw [behind,List.length_drop]
    omega
  dsimp only [KvStore.append]
  obtain ⟨error,left,fails,kept,covered⟩ | ⟨left,succeeds,-,-,appended,contents,covered⟩ :=
    logged.append ready.whole ready.running ready.last (mutation.record nextLsn) room
  · have failed := fail_advances kept ordered (Nat.le_of_eq covered.symm) serving error
    rw [stage] at failed
    rw [fails]
    exact ⟨records,failed⟩
  · rw [succeeds]
    obtain ⟨_,same⟩ := awaiting.get (by rw [Stage.batch,List.getElem?_append_left (by omega),found])
    rw [now,size] at same
    refine ⟨_,.quiet appended (ordered_push ordered same) (List.prefix_append _ _) (Nat.le_of_eq covered.symm) (Nat.le_refl _) ?_⟩
    have ready : Ready left (records ++ [mutation.record nextLsn])
        {store.wal with lastLsn := nextLsn} := by
      refine ⟨ready.running,?_,contents⟩
      rw [List.length_append]
      exact number
    have behind : written ++ [mutation.record nextLsn] =
        (records ++ [mutation.record nextLsn]).drop store.visibleLsn := by
      rw [List.drop_append_of_le_length visible,behind]
    have visible : store.visibleLsn ≤ (records ++ [mutation.record nextLsn]).length := by
      rw [List.length_append]
      omega
    split
    · rename_i unfinished
      refine ⟨serving.limits,visible,serving.values,awaiting,ready,now,behind,unfinished,?_⟩
      have small := appended.length_lt
      rw [List.length_append,List.length_singleton] at small ⊢
      rw [number,Nat.mod_eq_of_lt small]
    · rename_i finished
      have all : (written ++ [mutation.record nextLsn]).length = batch.length := by
        rw [List.length_append,List.length_singleton] at finished ⊢
        omega
      split
      · rename_i unsynced
        exact ⟨serving.limits,visible,serving.values,awaiting,ready,now,behind,all,fun synced => absurd unsynced synced⟩
      · exact ⟨serving.limits,visible,serving.values,awaiting,ready,now,behind,all⟩

theorem sync_advances (stage : store.stage = .syncing batch written) (completes : Bool) :
    Advances file records order next store (store.sync file batch written completes) records := by
  obtain ⟨awaiting,ready,now,behind,all⟩ := serving.on stage
  unfold KvStore.sync
  cases completes with
  | false =>
    have failed := fail_advances logged ordered (Nat.le_refl _) serving (.storage ⟨.io,"sync WAL"⟩)
    rw [stage] at failed
    simp only [Wal.sync,ready.running,Bool.false_eq_true,if_false]
    exact failed
  | true =>
    simp only [Wal.sync,ready.running,Bool.false_eq_true,if_false,if_true]
    refine .quiet logged.sync ordered List.prefix_rfl file.inside (Nat.le_refl _) ?_
    exact ⟨serving.limits,serving.visible,serving.values,awaiting,⟨rfl,ready.last,ready.whole⟩,now,behind,all,fun _ => logged.covered_sync⟩

end

theorem last_lsn (logged : Logged file records) (visible : count ≤ records.length) :
    (((records.drop count).getLast?).map WalRecord.lsn).getD count = records.length := by
  rw [List.getLast?_drop]
  split
  · exact Nat.le_antisymm visible (by assumption)
  · rw [List.getLast?_eq_getElem?]
    obtain ⟨record,found⟩ : ∃ record, records[records.length-1]? = some record :=
      ⟨_,List.getElem?_eq_getElem (by omega)⟩
    have number := logged.consecutive.number found
    rw [found,Option.map_some,Option.getD_some,number]
    omega

section
variable (logged : Logged file records) (ordered : records.map WalRecord.mutation <+: order) (serving : Serving file records order next store)
include logged ordered serving

theorem apply_answers (stage : store.stage = .applying batch written)
    (member : entry ∈ batch.zip (applyBatch store.values written).2) :
    Answered order ⟨entry.1,.ok entry.2⟩ ∧ entry.2.lsn ≤ records.length := by
  obtain ⟨awaiting,_,now,behind,_⟩ := serving.on stage
  obtain ⟨mutation,result⟩ := entry
  obtain ⟨index,found⟩ := List.mem_iff_getElem?.mp member
  obtain ⟨pending,replied⟩ := List.getElem?_zip_eq_some.mp found
  obtain ⟨record,kept,lsn,existed⟩ := applyBatch_result _ _ replied
  rw [behind,List.getElem?_drop] at kept
  have within := (List.getElem?_eq_some_iff.mp kept).1
  have number := logged.consecutive.number kept
  have inside := (List.getElem?_eq_some_iff.mp pending).1
  obtain ⟨completion,same⟩ := awaiting.get (by rw [Stage.batch,List.getElem?_append_left inside,pending])
  have again := ordered_get ordered kept
  rw [now] at completion same
  rw [same] at again
  have bound : result.lsn ≤ records.length := by
    have same : result.lsn = record.lsn := lsn
    omega
  refine ⟨⟨?_,?_⟩,bound⟩
  · rw [completion]
    exact same
  · intro answer replies
    cases replies
    refine ⟨by rw [lsn,number,completion,Nat.zero_add],?_⟩
    have before : plain (order.take mutation.completion) =
        ((written.take index).map WalRecord.mutation).foldl Mutation.run store.values := by
      rw [completion,ordered_take ordered (by omega),List.take_add,List.map_append,plain_append,serving.values,behind,
        ordered_take ordered serving.visible]
    have key : record.key = mutation.key := congrArg Mutation.key (Option.some.inj again).symm
    rw [existed,before,key]

theorem apply_advances (stage : store.stage = .applying batch written) :
    Advances file records order next store ⟨store.apply batch written,file,[]⟩ records := by
  obtain ⟨awaiting,ready,now,behind,all,durable⟩ := serving.on stage
  have visible : (store.apply batch written).visibleLsn = records.length := by
    rw [behind]
    exact last_lsn logged serving.visible
  have length : (applyBatch store.values written).2.length = batch.length := by rw [applyBatch_length,all]
  have count : (batch.zip (applyBatch store.values written).2).length = batch.length := by rw [List.length_zip,length,Nat.min_self]
  refine .quiet logged ordered List.prefix_rfl (Nat.le_refl _) (by rw [visible]; exact serving.visible) ?_
  refine ⟨serving.limits,Nat.le_of_eq visible,?_,?_,ready,visible,?_,?_,durable⟩
  · rw [visible]
    show (applyBatch store.values written).1 = _
    rw [applyBatch_values,serving.values,ordered_take ordered (Nat.le_refl _),List.take_length,ordered_take ordered serving.visible,behind,
      ← plain_append,← List.map_append,List.take_append_drop]
  · show Awaiting order next ((batch.zip _).map Prod.fst ++ store.queue)
    rw [List.map_fst_zip (Nat.le_of_eq length.symm)]
    exact awaiting
  · rw [visible,count,now,← all,behind,List.length_drop]
    have inside := serving.visible
    omega
  · intro entry member
    rw [visible]
    exact apply_answers logged ordered serving stage member

theorem answer_advances (stage : store.stage = .answering ((mutation,result)::later)) :
    Advances file records order next store ⟨{store with stage := .answering later},file,[⟨mutation,.ok result⟩]⟩ records := by
  obtain ⟨awaiting,ready,visible,count,answers,durable⟩ := serving.on stage
  have answer := answers (mutation,result) List.mem_cons_self
  have pending : Awaiting order next ([mutation] ++ (later.map Prod.fst ++ store.queue)) := awaiting
  refine ⟨logged,ordered,List.prefix_rfl,Nat.le_refl _,pending.tickets,?_,Nat.le_refl _,?_,?_⟩
  · intro reply member
    cases List.mem_singleton.mp member
    exact answer.1
  · intro reply member replied same
    cases List.mem_singleton.mp member
    cases same
    exact ⟨answer.2,fun synced => (durable synced).fewer (visible ▸ answer.2)⟩
  · refine ⟨serving.limits,serving.visible,serving.values,pending.pass,ready,visible,?_,?_,durable⟩
    · rw [List.length_cons] at count
      show next+1+later.length = store.visibleLsn
      omega
    · intro entry member
      exact answers entry (List.mem_cons_of_mem _ member)

theorem write_advances (step : WriterStep) :
    ∃ later, Advances file records order next store (store.write file step) later := by
  have idle := Advances.idle logged ordered serving
  have fails (error : Failure) := fail_advances logged ordered (Nat.le_refl _) serving error
  cases step with
  | goes room completes =>
    cases stage : store.stage with
    | taking =>
      simp only [KvStore.write,stage]
      exact ⟨records,take_advances logged ordered serving stage⟩
    | appending nextLsn batch written =>
      simp only [KvStore.write,stage]
      cases found : batch[written.length]? with
      | none => exact ⟨records,idle⟩
      | some => exact append_advances logged ordered serving stage found room
    | syncing =>
      simp only [KvStore.write,stage]
      exact ⟨records,sync_advances logged ordered serving stage completes⟩
    | applying =>
      simp only [KvStore.write,stage]
      exact ⟨records,apply_advances logged ordered serving stage⟩
    | answering left =>
      cases left with
      | nil =>
        simp only [KvStore.write,stage]
        refine ⟨records,.quiet logged ordered List.prefix_rfl (Nat.le_refl _) (Nat.le_refl _) ?_⟩
        have awaiting := serving.awaiting
        have staged := serving.staged
        rw [stage] at awaiting staged
        obtain ⟨ready,visible,count,_⟩ := staged
        exact ⟨serving.limits,serving.visible,serving.values,awaiting,ready,visible,count⟩
      | cons =>
        simp only [KvStore.write,stage]
        exact ⟨records,answer_advances logged ordered serving stage⟩
    | failing =>
      simp only [KvStore.write,stage]
      exact ⟨records,abandon_advances logged ordered serving stage⟩
    | stopped =>
      simp only [KvStore.write,stage]
      exact ⟨records,idle⟩
  | throws message =>
    cases stage : store.stage with
    | appending | syncing | applying =>
      have failed := fails (.thrown message)
      rw [stage] at failed
      simp only [KvStore.write,stage]
      exact ⟨records,failed⟩
    | taking | answering | failing | stopped =>
      simp only [KvStore.write,stage]
      exact ⟨records,idle⟩

end

end steps
end ForgeKv.Storage
