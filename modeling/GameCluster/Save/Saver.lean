import GameCluster.Lib.Map
import GameCluster.Queue.SwapQueue
import Mathlib.Logic.Function.Basic

/-!
One saver of the logon service (`logon_service/save.go`): the queue it drains,
the batch it merges into, and the flush that writes the batch to Redis and
Mongo in chunks. The component names and the stored texts are arbitrary types,
since the saver never looks inside them.

A flush is not one step. Its pipeline, its bulk write and the post of
`EvtSaveSuccess` are separate steps for every chunk, so that other goroutines
run between them; a failing pipeline or bulk write may have applied any part
of its commands. Timers and back-off only decide when a flush starts, which is
left open. Every pipeline also renews the seven days after which Redis removes
a role's key, so a hash that is not saved for that long is gone.
-/

namespace GameCluster

open Lib

abbrev RoleID := UInt64

/-- The bound of `m.ops` and of each saver's queue. -/
def opChanSize : Nat := 40960

/-- `opSaveData`. A nil `Data` map is `none`. -/
structure OpSaveData (κ ν : Type) where
  id : RoleID
  data : Option (Map κ ν)
  both : Bool

/-- The two stores, as the components held for each role. A role without a
Redis hash or a Mongo document holds none. `expireAt` is the time at which
Redis may remove the role's key, if an `EXPIRE` has been called on it. -/
structure Stores (κ ν : Type) where
  redis : RoleID → Map κ ν
  mongo : RoleID → Map κ ν
  expireAt : RoleID → Option Int

/-- `time.Hour*24*7`, in seconds. -/
def roleExpire : Int := 604800

variable {κ ν : Type} [DecidableEq κ]

/-- The role's key is removed. -/
def Stores.drop (st : Stores κ ν) (id : RoleID) : Stores κ ν :=
  { st with
    redis := Function.update st.redis id ∅
    expireAt := Function.update st.expireAt id none }

/-- Redis removes a key whose time has come. -/
def Stores.expire (st : Stores κ ν) (now : Int) (id : RoleID) : Option (Stores κ ν) :=
  match st.expireAt id with
  | some t => if t ≤ now then some (st.drop id) else none
  | none => none

/-- `EXPIRE` on the keys of the roles, which does nothing to a key that does not
exist. -/
def renew (now : Int) (redis : RoleID → Map κ ν) (ids : List RoleID)
    (expireAt : RoleID → Option Int) (id : RoleID) : Option Int :=
  if id ∈ ids ∧ 0 < (redis id).len then some (now + roleExpire) else expireAt id

/-- The field/value pairs of the `HSET`. -/
def OpSaveData.values (op : OpSaveData κ ν) : Map κ ν := op.data.getD ∅

/-- One `HSET`, or one `$set` of `data.<name>` fields, on a store. -/
def setFields (store : RoleID → Map κ ν) (op : OpSaveData κ ν) :
    RoleID → Map κ ν :=
  Function.update store op.id (op.values ∪ store op.id)

def setAll (store : RoleID → Map κ ν) (ops : List (OpSaveData κ ν)) :
    RoleID → Map κ ν :=
  ops.foldl setFields store

/-- The commands of a pipeline that take effect: the `HSET`s of `ops`, and the
`EXPIRE`s of the roles in `ids`. -/
def Stores.pipe (st : Stores κ ν) (now : Int) (ops : List (OpSaveData κ ν))
    (ids : List RoleID) : Stores κ ν :=
  let redis := setAll st.redis ops
  { st with redis, expireAt := renew now redis ids st.expireAt }

abbrev Batch (κ ν : Type) := Map RoleID (OpSaveData κ ν)

/-- `merge`. Assigning to a field of a nil map panics, which is `none`. -/
def merge (batch : Batch κ ν) (data : OpSaveData κ ν) : Option (Batch κ ν) :=
  match batch.lookup data.id with
  | some old =>
    let both := old.both || data.both
    match old.data with
    | some fields =>
      some (batch.insert data.id
        { old with both, data := some (data.values ∪ fields) })
    | none =>
      if data.values.len = 0 then
        some (batch.insert data.id { old with both })
      else none
  | none => some (batch.insert data.id data)

/-- Where the chunk at the loop index of `saveBatch` has got to. -/
inductive Stage where
  | pipeline
  | bulkWrite
  | post (ids : List RoleID)

/-- A `saveBatch` call under way. -/
structure Flush (κ ν : Type) where
  allData : List (OpSaveData κ ν)
  i : Nat
  stage : Stage

def chunkSize : Nat := 1000

def Flush.chunk (f : Flush κ ν) : List (OpSaveData κ ν) :=
  (f.allData.drop f.i).take chunkSize

/-- The ops of the chunk that `saveChunk` passes on to `saveToDB`. -/
def Flush.toDB (f : Flush κ ν) : List (OpSaveData κ ν) := f.chunk.filter (·.both)

/-- The write models of `saveToDB`: an op without fields makes none. -/
def Flush.models (f : Flush κ ν) : List (OpSaveData κ ν) :=
  f.toDB.filter fun op => 0 < op.values.len

inductive SaverStatus where
  | running
  | panicked
  | exited
  deriving DecidableEq, Repr

structure Saver (κ ν : Type) where
  q : SwapQueue (OpSaveData κ ν)
  batch : Batch κ ν
  flush : Option (Flush κ ν)
  status : SaverStatus

def newSaver : Saver κ ν where
  q := { maxSize := opChanSize }
  batch := ∅
  flush := none
  status := .running

namespace Saver

/-- The saver is at the top of its loop. -/
def Idle (s : Saver κ ν) : Prop :=
  s.status = .running ∧ s.flush.isNone ∧ s.q.read.isEmpty

instance (s : Saver κ ν) : Decidable s.Idle :=
  inferInstanceAs (Decidable (_ ∧ _))

/-- The `Sig` branch, and the drain of the `closeCh` branch. -/
def drain (s : Saver κ ν) : Option (Saver κ ν) :=
  if s.Idle ∧ (s.q.sig ∨ s.q.closed) then
    some { s with q := { s.q with sig := false }.swap }
  else none

/-- One call of the `Range` callback. A panic ends the goroutine. -/
def mergeNext (s : Saver κ ν) : Option (Saver κ ν) :=
  match s.status, s.q.read with
  | .running, op :: rest =>
    match merge s.batch op with
    | some batch => some { s with q := { s.q with read := rest }, batch }
    | none => some { s with q := { s.q with read := rest }, status := .panicked }
  | _, _ => none

/-- Entering `saveBatch`; the iteration order of the Go map is open. -/
def beginFlush (s : Saver κ ν) (order : List RoleID) : Option (Saver κ ν) :=
  if s.Idle ∧ 0 < s.batch.len ∧ Map.Enumerates order s.batch then
    some { s with flush := some ⟨order.filterMap s.batch.lookup, 0, .pipeline⟩ }
  else none

/-- The loop of `saveBatch` after a chunk that succeeded. Past the last chunk
`flush` replaces the batch by an empty one. -/
def nextChunk (s : Saver κ ν) (f : Flush κ ν) : Saver κ ν :=
  if f.i + chunkSize < f.allData.length then
    { s with flush := some { f with i := f.i + chunkSize, stage := .pipeline } }
  else { s with flush := none, batch := ∅ }

/-- `pipe.Exec` of one chunk. Redis rejects an `HSET` without fields, so the
pipeline can succeed only when every op has some. When it fails, the `HSET`s of
`applied` and the `EXPIRE`s of `renewed` took effect. -/
def execPipe (s : Saver κ ν) (now : Int) (st : Stores κ ν) (ok : Bool)
    (applied renewed : List RoleID) : Option (Saver κ ν × Stores κ ν) :=
  match s.status, s.flush with
  | .running, some ⟨allData, i, .pipeline⟩ =>
    let f : Flush κ ν := ⟨allData, i, .pipeline⟩
    if ok then
      if f.chunk.all (fun op => 0 < op.values.len) then
        some ({ s with flush := some { f with stage := .bulkWrite } },
          st.pipe now f.chunk (f.chunk.map (·.id)))
      else none
    else some ({ s with flush := none },
      st.pipe now (f.chunk.filter (·.id ∈ applied))
        ((f.chunk.map (·.id)).filter (· ∈ renewed)))
  | _, _ => none

/-- `saveToDB` up to its `BulkWrite`. Nothing to write is a success that posts
no event. -/
def saveToDB (s : Saver κ ν) (st : Stores κ ν) (ok : Bool) (applied : List RoleID) :
    Option (Saver κ ν × Stores κ ν) :=
  match s.status, s.flush with
  | .running, some ⟨allData, i, .bulkWrite⟩ =>
    let f : Flush κ ν := ⟨allData, i, .bulkWrite⟩
    if f.models.isEmpty then some (s.nextChunk f, st)
    else if ok then
      some ({ s with flush := some { f with stage := .post (f.toDB.map (·.id)) } },
        { st with mongo := setAll st.mongo f.models })
    else some ({ s with flush := none },
      { st with mongo := setAll st.mongo (f.models.filter (·.id ∈ applied)) })
  | _, _ => none

/-- The post of `EvtSaveSuccess`, with the IDs it carries. -/
def postSuccess (s : Saver κ ν) : Option (Saver κ ν × List RoleID) :=
  match s.status, s.flush with
  | .running, some ⟨allData, i, .post ids⟩ =>
    some (s.nextChunk ⟨allData, i, .post ids⟩, ids)
  | _, _ => none

/-- The `closeCh` branch returns once queue and batch are empty. -/
def exit (s : Saver κ ν) : Option (Saver κ ν) :=
  if s.Idle ∧ s.q.closed ∧ s.q.write.isEmpty ∧ s.batch.len = 0 then
    some { s with status := .exited }
  else none

end Saver

/-- The steps of a saver goroutine. -/
inductive SaverAct where
  | drain
  | mergeNext
  | beginFlush (order : List RoleID)
  | execPipe (ok : Bool) (applied renewed : List RoleID)
  | saveToDB (ok : Bool) (applied : List RoleID)
  | postSuccess
  | exit

/-- A saver step: the new saver and stores, and the `EvtSaveSuccess` it posts. -/
def Saver.step (s : Saver κ ν) (now : Int) (st : Stores κ ν) :
    SaverAct → Option (Saver κ ν × Stores κ ν × Option (List RoleID))
  | .drain => s.drain.map fun s' => (s', st, none)
  | .mergeNext => s.mergeNext.map fun s' => (s', st, none)
  | .beginFlush order => (s.beginFlush order).map fun s' => (s', st, none)
  | .execPipe ok applied renewed =>
    (s.execPipe now st ok applied renewed).map fun (s', st') => (s', st', none)
  | .saveToDB ok applied =>
    (s.saveToDB st ok applied).map fun (s', st') => (s', st', none)
  | .postSuccess => s.postSuccess.map fun (s', ids) => (s', st, some ids)
  | .exit => s.exit.map fun s' => (s', st, none)

end GameCluster
