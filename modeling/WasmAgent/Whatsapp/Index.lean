import Mathlib.Algebra.Group.Nat.Defs
import Std.Data.ExtTreeMap
import WasmAgent.Whatsapp.Record

/-!
# The message index

Every received message under its thread key, and the keys that lead to it.  The key families
have prefixes of their own, so each is one table here, keyed by what follows the prefix.
-/

namespace WasmAgent.Whatsapp

open Std

/-- The text of a key after the prefix of its family. -/
abbrev Key := List Char

/-! ## Keys -/

def digit (value : ℕ) : Char := Char.ofNat (if value < 10 then 48 + value else 87 + value)

/-- `{:0width$x}` of a number that fits the width. -/
def hex : ℕ → ℕ → Key
  | 0, _ => []
  | width + 1, value => hex width (value / 16) ++ [digit (value % 16)]

/-- `u64::MAX - ts`: newest first. -/
def inv (ts : Int64) : Key := hex 16 (Queue.u64Max - ts.toInt.toNat)

/-- `ts`: oldest first. -/
def age (ts : Int64) : Key := hex 16 ts.toInt.toNat

def digitValue (char : Char) : Option ℕ :=
  if '0' ≤ char ∧ char ≤ '9' then some (char.toNat - 48)
  else if 'a' ≤ char ∧ char ≤ 'f' then some (char.toNat - 87)
  else if 'A' ≤ char ∧ char ≤ 'F' then some (char.toNat - 55)
  else none

/-- `u64::from_str_radix(text, 16)`, kept where it fits an `i64`. -/
def fromAge (text : Key) : Option ℕ :=
  let digits := if text.head? = some '+' then text.tail else text
  if digits.isEmpty then none
  else
    ((digits.mapM digitValue).map (fun values => values.foldl (fun sum value => 16 * sum + value) 0)
      ).filter (· < 2 ^ 63)

/-- Parts of a key, with `/` between them. -/
def joined (first rest : Key) : Key := first ++ '/' :: rest

def keyMessage (chat : String) (inverted : Key) (id : String) : Key :=
  joined chat.toList (joined inverted id.toList)

def keyId (chat id : String) : Key := joined chat.toList id.toList

def keyAge (ts : Int64) (chat id : String) : Key := joined (age ts) (joined chat.toList id.toList)

/-- The keys of a sender, a kind or a token. -/
def keyWord (word : Key) (ts : Int64) (id chat : String) : Key :=
  joined word (joined (inv ts) (joined id.toList chat.toList))

def reactionPrefix (chat target : String) : Key := joined chat.toList (joined target.toList [])

def keyReaction (chat target reactor emoji : String) : Key :=
  joined chat.toList (joined target.toList (joined reactor.toList emoji.toList))

def keyPending (chat id : String) : Key := joined chat.toList id.toList

/-! ## Tables -/

/-- A reaction folded onto its target. -/
structure Reaction where
  sender : String
  name : String
  emoji : String
  ts : Int64
  own : Bool
  deriving DecidableEq

/-- A mutation for a message that is not indexed yet. -/
structure Pending where
  op : String
  text : String
  quoted : String
  mentions : List String
  ts : Int64
  deriving DecidableEq

structure Index where
  messages : ExtTreeMap Key Record
  ids : ExtTreeMap Key Key
  ages : ExtTreeMap Key String
  senders : ExtTreeMap Key Unit
  kinds : ExtTreeMap Key Unit
  tokens : ExtTreeMap Key Unit
  reactions : ExtTreeMap Key Reaction
  pending : ExtTreeMap Key Pending

def Index.empty : Index := ⟨∅, ∅, ∅, ∅, ∅, ∅, ∅, ∅⟩

/-- `scan`: entries after the cursor, in order. -/
def scan {Value : Type} (cursor : Option Key) (limit : ℕ) (table : ExtTreeMap Key Value) :
    List (Key × Value) :=
  (table.toList.filter (fun entry => cursor.all (fun last => (compare last entry.1).isLT))).take
    (max limit 1)

def scanUnder {Value : Type} (start : Key) (limit : ℕ) (table : ExtTreeMap Key Value) : List Key :=
  (table.keys.filter (fun key => start.isPrefixOf key)).take (max limit 1)

def eraseAll {Value : Type} (keys : List Key) (table : ExtTreeMap Key Value) :
    ExtTreeMap Key Value :=
  keys.foldl (fun table key => table.erase key) table

def insertAll (keys : List Key) (table : ExtTreeMap Key Unit) : ExtTreeMap Key Unit :=
  keys.foldl (fun table key => table.insert key ()) table

def sourceWord (record : Record) : String :=
  if record.fromHistory then "history" else ""

/-- What a revoked message keeps: the fact, the envelope and the kind. -/
def redact (eventTs : Int64) (record : Record) : Record :=
  { record with
    text := "", transcript := "", ocr := "", quoted := "", mentions := [], media := none,
    place := none, contacts := [], poll := none, deleted := true, eventTs := eventTs }

namespace Index

/-- One message by `(chat, id)`. -/
def load (chat id : String) (index : Index) : Option Record :=
  match index.ids[keyId chat id]? with
  | none => none
  | some inverted =>
      if inverted.isEmpty then none
      else (index.messages[keyMessage chat inverted id]?).filter Record.readable

section Writing

variable (tables : Unicode)

def tokenKeys (record : Record) : List Key :=
  (record.tokens tables).map (fun token => keyWord token record.ts record.id record.chat)

def write (record : Record) (index : Index) : Index :=
  { index with
    messages := index.messages.insert (keyMessage record.chat (inv record.ts) record.id) record
    ids := index.ids.insert (keyId record.chat record.id) (inv record.ts)
    ages := index.ages.insert (keyAge record.ts record.chat record.id) (sourceWord record)
    senders :=
      index.senders.insert (keyWord record.sender.toList record.ts record.id record.chat) ()
    kinds := index.kinds.insert (keyWord record.kind.toList record.ts record.id record.chat) ()
    tokens := insertAll (tokenKeys tables record) index.tokens }

def remove (record : Record) (index : Index) : Index :=
  { index with
    messages := index.messages.erase (keyMessage record.chat (inv record.ts) record.id)
    ids := index.ids.erase (keyId record.chat record.id)
    ages := index.ages.erase (keyAge record.ts record.chat record.id)
    senders := index.senders.erase (keyWord record.sender.toList record.ts record.id record.chat)
    kinds := index.kinds.erase (keyWord record.kind.toList record.ts record.id record.chat)
    tokens := eraseAll (tokenKeys tables record) index.tokens }

def dropTokens (record : Record) (index : Index) : Index :=
  { index with tokens := eraseAll (tokenKeys tables record) index.tokens }

def dropReactions (start : Key) (limit : ℕ) (index : Index) : Index :=
  { index with reactions := eraseAll (scanUnder start limit index.reactions) index.reactions }

/-- What a message becomes under the mutation that waited for it. -/
def settled (pending : Option Pending) (record : Record) : Record :=
  match pending with
  | none => record
  | some pending =>
      if pending.op = "edit" then
        if record.deleted then record
        else
          { record with
            text := pending.text, quoted := pending.quoted, mentions := pending.mentions,
            edited := true, edits := max record.edits 1, eventTs := pending.ts }
      else if pending.op = "delete" then redact pending.ts record
      else record

/-- Store a message, after applying a mutation that arrived before it did. -/
def putMessage (record : Record) (index : Index) : Index :=
  let pending := index.pending[keyPending record.chat record.id]?
  let index :=
    match pending with
    | none => index
    | some _ => { index with pending := index.pending.erase (keyPending record.chat record.id) }
  index.write tables (settled pending record)

/-- A reaction: the event row, and the fold onto its target. -/
def putReaction (record : Record) (index : Index) : Index :=
  let index := index.write tables record
  if record.target.isEmpty then index
  else
    let index := index.dropReactions
      (joined record.chat.toList (joined record.target.toList (joined record.sender.toList []))) 16
    if record.emoji.isEmpty then index
    else
      { index with
        reactions := index.reactions.insert
          (keyReaction record.chat record.target record.sender record.emoji)
          ⟨record.sender, record.pushName, record.emoji, record.ts, record.own⟩ }

def setPending (chat id : String) (pending : Pending) (index : Index) : Index :=
  { index with pending := index.pending.insert (keyPending chat id) pending }

def editedBy (event target : Record) : Record :=
  { target with
    text := event.text, quoted := event.quoted, mentions := event.mentions, edited := true,
    edits := max target.edits 1, eventTs := event.ts }

def applyEdit (event : Record) (index : Index) : Index :=
  if event.target.isEmpty then index
  else
    match index.load event.chat event.target with
    | some target =>
        -- An edit after a revoke changes nothing.
        if target.deleted then index
        else (index.dropTokens tables target).write tables (editedBy event target)
    | none =>
        index.setPending event.chat event.target
          ⟨"edit", event.text, event.quoted, event.mentions, event.ts⟩

def applyDelete (event : Record) (index : Index) : Index :=
  if event.target.isEmpty then index
  else
    match index.load event.chat event.target with
    | some target =>
        ((index.dropTokens tables target).dropReactions
          (reactionPrefix event.chat event.target) 64).write tables (redact event.ts target)
    | none => index.setPending event.chat event.target ⟨"delete", "", "", [], 0⟩

def put (record : Record) (index : Index) : Index :=
  if record.kind = "reaction" then index.putReaction tables record
  else if record.kind = "edit" then (index.write tables record).applyEdit tables record
  else if record.kind = "delete" then (index.write tables record).applyDelete tables record
  else index.putMessage tables record

/-- Which pipeline produced an attached text. -/
inductive Source where
  | transcript
  | ocr
  deriving DecidableEq

def attached (text : String) (source : Source) (record : Record) : Record :=
  let bounded := String.ofList (text.toList.take maxText)
  match source with
  | .transcript => { record with transcript := bounded }
  | .ocr => { record with ocr := bounded }

def attachText (chat id text : String) (source : Source) (index : Index) : Bool × Index :=
  match index.load chat id with
  | none => (false, index)
  | some record =>
      if record.deleted || text.isEmpty then (false, index)
      else (true, (index.dropTokens tables record).write tables (attached text source record))

/-! ## Retention -/

/-- What one prune pass did; `more` is set where there is more stale work. -/
structure Pruned where
  records : ℕ
  more : Bool
  deriving DecidableEq

/-- Milliseconds of the instant that a retention of so many days reaches back to. -/
def cutoff (now : Int64) (days : UInt32) : Int := (now - Int64.ofNat (days.toNat * 86400000)).toInt

def segments (key : Key) : List Key := key.splitOn '/'

/-- The body of the loop of `prune`; an error is what it returns early. -/
def pruneKey (cutoff : Int) (budget : ℕ) (state : Pruned × Index) (key : Key) :
    Except (Pruned × Index) (Pruned × Index) :=
  match segments key with
  | [first, chat, id] =>
      match fromAge first with
      | none => .ok state
      | some ts =>
          if cutoff ≤ ts then .error state
          else if budget ≤ state.1.records then .error ({ state.1 with more := true }, state.2)
          else
            let index :=
              match state.2.load (String.ofList chat) (String.ofList id) with
              | none => state.2
              | some record =>
                  (state.2.remove tables record).dropReactions
                    (reactionPrefix (String.ofList chat) (String.ofList id)) 64
            .ok ({ state.1 with records := state.1.records + 1 },
              { index with ages := index.ages.erase key })
  | _ => .ok state

/-- Entries that one scan asks for. -/
def page : ℕ := 200

/-- The loop of `prune`, as many pages as are allowed. -/
def prunePages (cutoff : Int) (budget : ℕ) :
    ℕ → Option Key → Pruned × Index → Pruned × Index
  | 0, _, state => state
  | pages + 1, cursor, state =>
      let entries := scan cursor page state.2.ages
      match entries.getLast? with
      | none => state
      | some last =>
          match (entries.map Prod.fst).foldlM (pruneKey tables cutoff budget) state with
          | .error stopped => stopped
          | .ok state =>
              if entries.length < page then state
              else if budget ≤ state.1.records then ({ state.1 with more := true }, state.2)
              else prunePages cutoff budget pages (some last.1) state

/-- Delete records older than the retention window, oldest first, at most `budget` of them. -/
def prune (now : Int64) (days : UInt32) (budget : ℕ) (index : Index) : Pruned × Index :=
  prunePages tables (cutoff now days) budget (index.ages.size + 1) none (⟨0, false⟩, index)

end Writing

/-- The body of the loop of `repair`; an error is where it breaks off. -/
def repairEntry (budget : ℕ) (state : ℕ × Index) (record : Record) :
    Except (ℕ × Index) (ℕ × Index) :=
  if record.readable then
    if (state.2.ages[keyAge record.ts record.chat record.id]?).isNone then
      let state := (state.1 + 1,
        { state.2 with
          ages := state.2.ages.insert (keyAge record.ts record.chat record.id) (sourceWord record) })
      if budget ≤ state.1 then .error state else .ok state
    else .ok state
  else .ok state

def repairPages (budget : ℕ) : ℕ → Option Key → ℕ × Index → ℕ × Index
  | 0, _, state => state
  | pages + 1, cursor, state =>
      if budget ≤ state.1 then state
      else
        let entries := scan cursor page state.2.messages
        match entries.getLast? with
        | none => state
        | some last =>
            let state := match (entries.map Prod.snd).foldlM (repairEntry budget) state with
              | .error stopped => stopped
              | .ok state => state
            if entries.length < page then state
            else repairPages budget pages (some last.1) state

/-- Give a record without an age key its age key. -/
def repair (budget : ℕ) (index : Index) : ℕ × Index :=
  repairPages budget (index.messages.size + 1) none (0, index)

end Index

end WasmAgent.Whatsapp
