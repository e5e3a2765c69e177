import Std.Data.ExtTreeMap
import WasmAgent.Sink.Line

/-!
# The rotating files of the telemetry sink

Records become lines of numbered files.  A file that would grow too large is followed by
the next, and the oldest are deleted beyond a number of files; an open goes on with the
newest.
-/

namespace WasmAgent.Sink

open WasmAgent.Core

/-- The files of the sink's prefix, under their sequence numbers. -/
abbrev Directory := Std.ExtTreeMap ℕ Bytes

/-- How big the files may grow, and how many are kept. -/
structure JsonlConfig where
  maxBytes : ℕ
  maxFiles : ℕ
  deriving DecidableEq

/-- The file that is written and whether a name still leads to it, the number of the last
rotation tried, and the bytes the writer counts. -/
structure JsonlWriter where
  cfg : JsonlConfig
  current : ℕ
  linked : Bool
  sequence : ℕ
  size : ℕ
  deriving DecidableEq

structure Counters where
  jsonlRows : ℕ
  jsonlBytes : ℕ
  jsonlRotations : ℕ
  jsonlFailed : ℕ
  deriving DecidableEq

structure Edge where
  dir : Directory
  writer : Option JsonlWriter
  counters : Counters

/-- How the calls of an open go: making the directory, opening the file, and deleting each
file. -/
structure OpenDisk where
  createDir : Bool
  create : Bool
  deletes : ℕ → Bool

/-- How the calls for one record go: opening the next file, deleting each file, and the
write, which may stop after some of the bytes. -/
structure RowDisk where
  create : Bool
  deletes : ℕ → Bool
  stops : Option ℕ

def rowBytes (record : Record) (nowMs : UInt64) : Bytes := utf8 (line record nowMs) ++ [newline]

/-- What `prune` tries to delete, in order. -/
def victims (dir : Directory) (cfg : JsonlConfig) (current : ℕ) : List ℕ :=
  (dir.keys.filter (· ≠ current)).take (dir.keys.length - max cfg.maxFiles 1)

/-- Deletes the oldest files beyond the number kept, never the one named as current. -/
def prune (dir : Directory) (cfg : JsonlConfig) (current : ℕ) (deletes : ℕ → Bool) : Directory :=
  if dir.keys.length ≤ max cfg.maxFiles 1 then
    dir
  else
    (victims dir cfg current).foldl
      (fun dir sequence => if deletes sequence then dir.erase sequence else dir) dir

def openFile (dir : Directory) (sequence : ℕ) : Directory := dir.insertIfNew sequence []

def highestSequence (dir : Directory) : Option ℕ := dir.keys.getLast?

def openJsonl (cfg : JsonlConfig) (disk : OpenDisk) (edge : Edge) : Edge :=
  if disk.createDir = false then
    { edge with writer := none }
  else
    let sequence := (highestSequence edge.dir).getD 0
    if disk.create = false then
      { edge with writer := none }
    else
      let opened := openFile edge.dir sequence
      let pruned := prune opened cfg 0 disk.deletes
      { edge with
        dir := pruned
        writer := some ⟨cfg, sequence, pruned.contains sequence, sequence,
          (opened[sequence]?.getD []).length⟩ }

/-- Goes on to the next file, or stays where that cannot be opened. -/
def rotate (disk : RowDisk) (dir : Directory) (writer : JsonlWriter) :
    Option Directory × JsonlWriter :=
  let sequence := writer.sequence + 1
  if disk.create = false then
    (none, { writer with sequence := sequence })
  else
    let pruned := prune (openFile dir sequence) writer.cfg sequence disk.deletes
    (some pruned, ⟨writer.cfg, sequence, pruned.contains sequence, sequence, 0⟩)

/-- Appends to the file that is written; without a name it is out of the directory. -/
def append (dir : Directory) (writer : JsonlWriter) (bytes : Bytes) : Directory :=
  if writer.linked then
    dir.insert writer.current (dir[writer.current]?.getD [] ++ bytes)
  else
    dir

def landed (bytes : Bytes) (stop : ℕ) : Bytes := bytes.dropLast.take stop

def writeAll (disk : RowDisk) (bytes : Bytes) (dir : Directory) (writer : JsonlWriter)
    (counters : Counters) : Edge :=
  match disk.stops with
  | none =>
      { dir := append dir writer bytes
        writer := some { writer with size := writer.size + bytes.length }
        counters := { counters with
          jsonlRows := counters.jsonlRows + 1
          jsonlBytes := counters.jsonlBytes + bytes.length } }
  | some stop =>
      { dir := append dir writer (landed bytes stop)
        writer := some writer
        counters := { counters with jsonlFailed := counters.jsonlFailed + 1 } }

/-- The body of the loop over a batch. -/
def writeRow (record : Record) (nowMs : UInt64) (disk : RowDisk) (edge : Edge) : Edge :=
  match edge.writer with
  | none => edge
  | some writer =>
      let bytes := rowBytes record nowMs
      if 0 < writer.size ∧ writer.cfg.maxBytes < writer.size + bytes.length then
        match rotate disk edge.dir writer with
        | (none, same) =>
            { edge with
              writer := some same
              counters := { edge.counters with jsonlFailed := edge.counters.jsonlFailed + 1 } }
        | (some dir, next) =>
            writeAll disk bytes dir next
              { edge.counters with jsonlRotations := edge.counters.jsonlRotations + 1 }
      else
        writeAll disk bytes edge.dir writer edge.counters

def writeBatch (batch : List (Record × RowDisk)) (nowMs : UInt64) (edge : Edge) : Edge :=
  batch.foldl (fun edge row => writeRow row.1 nowMs row.2 edge) edge

structure FlushReport where
  drained : ℕ
  jsonlRows : ℕ
  jsonlLost : ℕ
  deriving DecidableEq

def pumpAt (batch : List (Record × RowDisk)) (nowMs : UInt64) (edge : Edge) : FlushReport × Edge :=
  let after := writeBatch batch nowMs edge
  (⟨batch.length, after.counters.jsonlRows - edge.counters.jsonlRows,
    after.counters.jsonlFailed - edge.counters.jsonlFailed⟩, after)

inductive Event where
  | open (cfg : JsonlConfig) (disk : OpenDisk)
  | row (record : Record) (nowMs : UInt64) (disk : RowDisk)

def step (edge : Edge) : Event → Edge
  | .open cfg disk => openJsonl cfg disk edge
  | .row record nowMs disk => writeRow record nowMs disk edge

def run (edge : Edge) (events : List Event) : Edge := events.foldl step edge

/-- A sink that has not opened its edge, over the files it finds. -/
def Edge.start (dir : Directory) : Edge := ⟨dir, none, ⟨0, 0, 0, 0⟩⟩

end WasmAgent.Sink
