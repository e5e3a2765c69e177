import WasmAgent.Queue.Types

/-!
# The records of the message index

One received message or event, and the words it is searched by.
-/

namespace WasmAgent.Whatsapp

/-- Longest text that one record keeps, in characters. -/
def maxText : ℕ := 4096

/-- Most token keys that one record writes. -/
def maxTokens : ℕ := 48

structure Media where
  kind : String
  mime : String
  filename : String
  size : UInt64
  sha256 : String
  encSha256 : String
  durationS : UInt32
  pages : UInt32
  width : UInt32
  height : UInt32
  directPath : String
  mediaKey : String
  mediaKeyTs : Int64
  viewOnce : Bool
  animated : Bool
  downloadable : Bool
  deriving DecidableEq

/-- A shared location; a coordinate is the bits of its `f64`. -/
structure Place where
  lat : UInt64
  lng : UInt64
  name : String
  address : String
  live : Bool
  deriving DecidableEq

structure Contact where
  name : String
  phones : List String
  deriving DecidableEq

structure Poll where
  name : String
  options : List String
  selectable : UInt32
  deriving DecidableEq

structure Record where
  chat : String := ""
  id : String := ""
  sender : String := ""
  senderAlt : String := ""
  own : Bool := false
  group : Bool := false
  ts : Int64 := 0
  received : Int64 := 0
  kind : String := ""
  text : String := ""
  source : String := ""
  quoted : String := ""
  mentions : List String := []
  pushName : String := ""
  target : String := ""
  emoji : String := ""
  edited : Bool := false
  edits : UInt32 := 0
  deleted : Bool := false
  eventTs : Int64 := 0
  media : Option Media := none
  place : Option Place := none
  contacts : List Contact := []
  poll : Option Poll := none
  transcript : String := ""
  ocr : String := ""
  unsupported : String := ""
  deriving DecidableEq

/-- The number is finite: its exponent is not all ones. -/
def isFinite (bits : UInt64) : Bool := (bits >>> 52) &&& 0x7FF != 0x7FF

namespace Record

/-- What is written as JSON is read back: a coordinate that is not finite is written as `null`,
which is no number. -/
def readable (record : Record) : Bool :=
  record.place.all (fun place => isFinite place.lat && isFinite place.lng)

def fromHistory (record : Record) : Bool := record.source == "history"

/-- The rows that are a change to another message rather than a message of their own. -/
def isEvent (record : Record) : Bool :=
  record.kind == "reaction" || record.kind == "edit" || record.kind == "delete"

/-- Everything that the record is searched by. -/
def searchable (record : Record) : List Char :=
  ([record.text, record.transcript, record.ocr].filter (fun part => !part.isEmpty)).flatMap
      (fun part => part.toList ++ [' ']) ++
    (match record.media with
      | none => []
      | some media => media.filename.toList ++ ' ' :: media.mime.toList) ++
    (match record.place with
      | none => []
      | some place => place.name.toList ++ ' ' :: place.address.toList) ++
    (match record.poll with
      | none => []
      | some poll => poll.name.toList ++ poll.options.flatMap (fun option => ' ' :: option.toList)) ++
    record.contacts.flatMap (fun contact => ' ' :: contact.name.toList)

end Record

/-! ## Words -/

/-- The tables of Unicode that folding reads. -/
structure Unicode where
  /-- The first character of `char::to_lowercase`. -/
  toLowercase : Char → Char
  isAlphanumeric : Char → Bool

/-- Latin-1 supplement, one letter for each character. -/
def latin1 : String := "AAAAAAACEEEEIIIIDNOOOOO?OUUUUYTsaaaaaaaceeeeiiiidnooooo?ouuuuyty"

def latinExtA : String :=
  "AaAaAaCcCcCcCcDd" ++ "DdEeEeEeEeGgGgGg" ++ "GgGgGgHhHhIiIiIi" ++ "IiIiJjKkkLlLlLlL" ++
    "lLlNnNnNnnNnOoOo" ++ "OoOoRrRrRrSsSsSs" ++ "SsTtTtTtUuUuUuUu" ++ "UuUuWwYyYZzZzZzs"

def mapped (table : String) (index : ℕ) (fallback : Char) : Char :=
  match table.toList[index]? with
  | none => fallback
  | some folded => if folded = '?' then fallback else folded

def isAsciiPunctuation (char : Char) : Bool :=
  (0x21 ≤ char.toNat && char.toNat ≤ 0x2F) || (0x3A ≤ char.toNat && char.toNat ≤ 0x40) ||
    (0x5B ≤ char.toNat && char.toNat ≤ 0x60) || (0x7B ≤ char.toNat && char.toNat ≤ 0x7E)

def isPunctuation (char : Char) : Bool :=
  isAsciiPunctuation char || (0xA1 ≤ char.toNat && char.toNat ≤ 0xBF) ||
    (0x2010 ≤ char.toNat && char.toNat ≤ 0x2027) || (0x2030 ≤ char.toNat && char.toNat ≤ 0x205E) ||
    (0x3000 ≤ char.toNat && char.toNat ≤ 0x303F)

namespace Unicode

variable (tables : Unicode)

def isEmoji (char : Char) : Bool :=
  !(char.toNat < 0x80) && !Queue.isWhitespace char && !tables.isAlphanumeric char &&
    !isPunctuation char

/-- A character as a token keeps it, or a blank. -/
def foldChar (char : Char) : Char :=
  let lower := tables.toLowercase char
  let code := lower.toNat
  let folded :=
    if 0xC0 ≤ code ∧ code ≤ 0xFF then mapped latin1 (code - 0xC0) lower
    else if 0x100 ≤ code ∧ code ≤ 0x17F then mapped latinExtA (code - 0x100) lower
    else lower
  if tables.isAlphanumeric folded || tables.isEmoji folded then folded else ' '

def fold (text : List Char) : List Char := text.map tables.foldChar

end Unicode

/-- `split_whitespace`; `word` is what is read of the current one, last character first. -/
def splitWhitespace (word : List Char) : List Char → List (List Char)
  | [] => if word.isEmpty then [] else [word.reverse]
  | char :: rest =>
      if Queue.isWhitespace char then
        if word.isEmpty then splitWhitespace [] rest
        else word.reverse :: splitWhitespace [] rest
      else splitWhitespace (char :: word) rest

/-- Too long, or one letter or digit. -/
def dropsToken (tables : Unicode) (token : List Char) : Bool :=
  token.isEmpty || decide (40 < token.length) ||
    (token.length == 1 && token.any tables.isAlphanumeric)

def tokenize (tables : Unicode) (text : List Char) : List (List Char) :=
  (splitWhitespace [] (tables.fold text)).foldl
    (fun tokens token =>
      if dropsToken tables token || token ∈ tokens then tokens else tokens ++ [token]) []

def Record.tokens (tables : Unicode) (record : Record) : List (List Char) :=
  (tokenize tables record.searchable).foldl
    (fun tokens token =>
      if maxTokens ≤ tokens.length ∨ token ∈ tokens then tokens else tokens ++ [token]) []

def asciiTables : Unicode := ⟨Char.toLower, Char.isAlphanum⟩

example : ({ text := "Segue o boleto" } : Record).tokens asciiTables =
    ["segue".toList, "boleto".toList] := by
  decide +kernel

end WasmAgent.Whatsapp
