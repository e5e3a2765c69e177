import Std.Data.ExtTreeMap
import WasmAgent.Bus.Event

/-!
# Durable topics

The last events of a topic are kept in a small ordered store, under keys in which time and
id have twenty digits each, so that the order of the keys is the order of the pairs.
-/

namespace WasmAgent.Bus

open Std WasmAgent.Core

abbrev Table := ExtTreeMap Bytes Bytes compare

/-- The last `width` decimal digits. -/
def decimal : ℕ → ℕ → Bytes
  | 0, _ => []
  | width + 1, value => decimal width (value / 10) ++ [UInt8.ofNat (48 + value % 10)]

def retentionPrefix (topic : Topic) : Bytes := utf8 "v1/" ++ utf8 topic.text ++ utf8 "/"

/-- Time and id of an event in the key under its topic. -/
def stampKey (tsMs id : UInt64) : Bytes := decimal 20 tsMs.toNat ++ utf8 "/" ++ decimal 20 id.toNat

def retentionKey (topic : Topic) (tsMs id : UInt64) : Bytes :=
  retentionPrefix topic ++ stampKey tsMs id

/-- Every pair whose key starts with the prefix, ordered by key. -/
def scanPrefix (base : Bytes) (table : Table) : List (Bytes × Bytes) :=
  table.toList.filter (fun row => base.isPrefixOf row.1)

inductive KvCall where
  | put (key : Bytes)
  | scan (base : Bytes)
  | del (key : Bytes)

/-- Which calls the store refuses, and what it says. -/
abbrev Faults := KvCall → Option String

/-- What a `BusError::Store` tells of. -/
inductive StoreFault where
  | kv (why : String)
  | unreadable (key : Bytes) (why : Stop DecodeError)
  deriving DecidableEq

def deleteRows (faults : Faults) : List (Bytes × Bytes) → Table → Except StoreFault Unit × Table
  | [], table => (.ok (), table)
  | row :: rows, table =>
      match faults (.del row.1) with
      | some why => (.error (.kv why), table)
      | none => deleteRows faults rows (table.erase row.1)

/-- The rows past the last `retain`. -/
def trim (retain : ℕ) (base : Bytes) (faults : Faults) (table : Table) :
    Except StoreFault Unit × Table :=
  match faults (.scan base) with
  | some why => (.error (.kv why), table)
  | none =>
      deleteRows faults ((scanPrefix base table).take ((scanPrefix base table).length - retain)) table

def append (retain : ℕ) (event : Event) (faults : Faults) (table : Table) :
    Except StoreFault Unit × Table :=
  match faults (.put (retentionKey event.topic event.tsMs event.id)) with
  | some why => (.error (.kv why), table)
  | none =>
      trim retain (retentionPrefix event.topic) faults
        (table.insert (retentionKey event.topic event.tsMs event.id) event.encode)

def readRow (row : Bytes × Bytes) : Except StoreFault Event :=
  match Event.decode row.2 with
  | .ok event => .ok event
  | .error why => .error (.unreadable row.1 why)

def readLog (topic : Topic) (faults : Faults) (table : Table) : Except StoreFault (List Event) :=
  match faults (.scan (retentionPrefix topic)) with
  | some why => .error (.kv why)
  | none => (scanPrefix (retentionPrefix topic) table).mapM readRow

end WasmAgent.Bus
