import WasmAgent.Mesh.Replay

/-!
# Sends that are asked for

A request to send one message, what is checked of it, and the key under which the queue takes it for
the same request as another.
-/

namespace WasmAgent.Whatsapp.Outbox

open List Queue WasmAgent.Core

inductive Server where
  | phone
  | lid
  | group
  deriving DecidableEq

def Server.asStr : Server → String
  | .phone => "s.whatsapp.net"
  | .lid => "lid"
  | .group => "g.us"

/-- The phone server has an older name, which is read and never written. -/
def Server.parse : String → Option Server
  | "s.whatsapp.net" => some .phone
  | "c.us" => some .phone
  | "lid" => some .lid
  | "g.us" => some .group
  | _ => none

structure Chat where
  user : String
  server : Server
  deriving DecidableEq

structure Refusal where
  code : String
  detail : String
  deriving DecidableEq

def Refusal.new (code detail : String) : Refusal := ⟨code, String.ofList (detail.toList.take 160)⟩

def maxText : ℕ := 65536

def maxMentions : ℕ := 64

def maxUser : ℕ := 32

def maxReplyTo : ℕ := 128

/-- `rsplit_once`. -/
def rsplitOnce (separator : Char) : List Char → Option (List Char × List Char)
  | [] => none
  | char :: rest =>
      match rsplitOnce separator rest with
      | some (front, back) => some (char :: front, back)
      | none => if char = separator then some ([], rest) else none

def badChat {Value : Type} (detail : String) : Except Refusal Value :=
  .error (.new "bad_chat" detail)

def Chat.parse (text : String) : Except Refusal Chat :=
  let chars := trim text.toList
  if chars = [] then badChat "empty chat: pass an exact JID"
  else if maxUser + 1 + 20 < chars.length then badChat "chat JID is too long"
  else if chars.any (fun char => isControl char || isWhitespace char) then
    badChat "chat JID contains whitespace or a control character"
  else match rsplitOnce '@' chars with
    | none =>
        badChat ("chat is not an exact JID (expected <digits>@s.whatsapp.net, <digits>@lid or " ++
          "<digits>@g.us)")
    | some (user, server) =>
        if user = [] ∨ maxUser < user.length then badChat "chat JID user part is empty or too long"
        else if user.contains ':' then
          badChat "chat JID names a device (user:device@…); a chat is device-less"
        else if !user.all (·.isDigit) then badChat "chat JID user part is not numeric"
        else match Server.parse (String.ofList server) with
          | none =>
              .error (.new "unsupported_chat"
                "chat server is not sendable (accepted: s.whatsapp.net, lid, g.us)")
          | some server => .ok ⟨String.ofList user, server⟩

/-- The one spelling that is sent. -/
def Chat.jid (chat : Chat) : String := chat.user ++ "@" ++ chat.server.asStr

structure Request where
  chat : String
  text : String
  replyTo : Option String
  mentions : List String

structure Verified where
  chat : Chat
  text : String
  replyTo : Option String
  mentions : List Chat
  deriving DecidableEq

/-- No quote, where nothing but blanks is left of it. -/
def checkReplyTo (replyTo : Option String) : Except Refusal (Option String) :=
  match replyTo.map (fun id => trim id.toList) with
  | none => .ok none
  | some [] => .ok none
  | some id =>
      if maxReplyTo < id.length then
        .error (.new "bad_reply_to" "reply_to is longer than 128 characters")
      else if !id.all (·.isAlphanum) then
        .error (.new "bad_reply_to" "reply_to is not a message id")
      else .ok (some (String.ofList id))

def checkMentions : List String → List Chat → Except Refusal (List Chat)
  | [], mentions => .ok mentions
  | raw :: rest, mentions =>
      match Chat.parse raw with
      | .error refusal => .error refusal
      | .ok user =>
          if user.server = .group then .error (.new "bad_mention" "a group cannot be mentioned")
          else checkMentions rest (if user ∈ mentions then mentions else mentions ++ [user])

def Request.validate (request : Request) : Except Refusal Verified := do
  let chat ← Chat.parse request.chat
  if request.text = "" then
    throw (.new "empty_text" "text is empty")
  if maxText < request.text.length then
    throw (.new "text_too_long" "text is longer than 65536 characters")
  let replyTo ← checkReplyTo request.replyTo
  if maxMentions < request.mentions.length then
    throw (.new "too_many_mentions" "more than 64 mentions")
  let mentions ← checkMentions request.mentions []
  return ⟨chat, request.text, replyTo, mentions⟩

/-- What the key is made from. -/
def Request.material (request : Request) : String :=
  String.ofList (trim request.chat.toList) ++ "|" ++ request.text ++ "|" ++ request.replyTo.getD ""

def Request.dedupeKey (request : Request) : String := Mesh.sha256Hex request.material

/-- The message that is sent. -/
def Verified.message (verified : Verified) : String × String × Option String :=
  (verified.chat.jid, verified.text, verified.replyTo)

section Spelling

/-- A request as it is spelled, between blanks. -/
def Request.spelling (request : Request) : List Char × String × String :=
  (trim request.chat.toList, request.text, request.replyTo.getD "")

/-- The chat with the newer name of the phone server. -/
def renamed (chat : List Char) : List Char :=
  match rsplitOnce '@' chat with
  | some (user, server) =>
      if server = "c.us".toList then user ++ "@s.whatsapp.net".toList else chat
  | none => chat

/-- A request without what may be spelled in two ways. -/
def plain (spelling : List Char × String × String) : List Char × String × List Char :=
  (renamed spelling.1, spelling.2.1, trim spelling.2.2.toList)

variable {separator : Char} {text : List Char}

theorem first_separator_inj {start other rest more : List Char} (hsta : separator ∉ start)
    (hoth : separator ∉ other) (heq : start ++ separator :: rest = other ++ separator :: more) :
    start = other ∧ rest = more := by
  have hback := congrArg reverse heq
  simp only [reverse_append, reverse_cons, append_assoc, singleton_append] at hback
  obtain ⟨hrest, hstart⟩ := Mesh.last_separator_inj (mt mem_reverse.mp hsta)
    (mt mem_reverse.mp hoth) hback
  exact ⟨reverse_inj.mp hstart, reverse_inj.mp hrest⟩

theorem rsplitOnce_eq_none (hnone : rsplitOnce separator text = none) : separator ∉ text := by
  induction text with
  | nil => exact not_mem_nil
  | cons char rest ih =>
    rw [rsplitOnce] at hnone
    split at hnone
    · cases hnone
    rename_i hrest
    split at hnone
    · cases hnone
    rename_i hne
    rintro (_ | ⟨_, hmem⟩)
    · exact hne rfl
    · exact ih hrest hmem

theorem rsplitOnce_eq_some {front back : List Char}
    (hsome : rsplitOnce separator text = some (front, back)) :
    text = front ++ separator :: back ∧ separator ∉ back := by
  induction text generalizing front back with
  | nil => cases hsome
  | cons char rest ih =>
    rw [rsplitOnce] at hsome
    split at hsome
    · next inner last hrest =>
      cases hsome
      obtain ⟨hsame, hlast⟩ := ih hrest
      exact ⟨congrArg (char :: ·) hsame, hlast⟩
    rename_i hrest
    split at hsome
    · next hchar =>
      cases hsome
      rw [hchar]
      exact ⟨rfl, rsplitOnce_eq_none hrest⟩
    · cases hsome

theorem Server.parse_eq_some {text : String} {server : Server} (hsome : parse text = some server) :
    text = server.asStr ∨ text = "c.us" ∧ server = .phone := by
  rw [parse.eq_def] at hsome
  split at hsome <;> cases hsome
  · exact .inl rfl
  · exact .inr ⟨rfl, rfl⟩
  · exact .inl rfl
  · exact .inl rfl

variable {chat : Chat}

/-- A chat that is read is digits before the name of a server. -/
theorem Chat.parse_eq_ok {text : String} (hok : parse text = .ok chat) :
    ∃ user server, rsplitOnce '@' (trim text.toList) = some (user, server) ∧
      (∀ char ∈ user, char.isDigit = true) ∧ Server.parse (String.ofList server) = some chat.server ∧
        chat.user = String.ofList user := by
  rw [parse] at hok
  split at hok
  · cases hok
  split at hok
  · cases hok
  split at hok
  · cases hok
  split at hok
  · cases hok
  rename_i user server hspl
  split at hok
  · cases hok
  split at hok
  · cases hok
  split at hok
  · cases hok
  rename_i hdig
  split at hok
  · cases hok
  rename_i found hser
  cases hok
  rw [Bool.not_eq_true', Bool.not_eq_false, all_eq_true] at hdig
  exact ⟨user, server, hspl, hdig, hser, rfl⟩

theorem Chat.jid_of_parse {text : String} (hok : parse text = .ok chat) :
    chat.jid.toList = renamed (trim text.toList) := by
  obtain ⟨user, server, hspl, -, hser, huser⟩ := parse_eq_ok hok
  rw [renamed, hspl, jid, huser, String.toList_append, String.toList_append, String.toList_ofList]
  rcases Server.parse_eq_some hser with hname | ⟨hname, hphone⟩
  · have hsame : server = chat.server.asStr.toList := by rw [← hname, String.toList_ofList]
    have hnew : server ≠ "c.us".toList := by
      rw [hsame]
      cases chat.server <;> decide
    dsimp only
    rw [if_neg hnew, (rsplitOnce_eq_some hspl).1, hsame, append_assoc]
    rfl
  have hsame : server = "c.us".toList := by rw [← hname, String.toList_ofList]
  dsimp only
  rw [if_pos hsame, hphone, append_assoc]
  rfl

theorem bar_notMem_chat {text : String} (hok : Chat.parse text = .ok chat) :
    '|' ∉ trim text.toList := by
  obtain ⟨user, server, hspl, hdig, hser, -⟩ := Chat.parse_eq_ok hok
  have hbar : '|' ∉ server := by
    rw [← String.toList_ofList (l := server)]
    rcases Server.parse_eq_some hser with hname | ⟨hname, -⟩ <;> rw [hname]
    · cases chat.server <;> decide
    · decide
  rw [(rsplitOnce_eq_some hspl).1, mem_append, mem_cons]
  rintro (huser | hat | hback)
  · exact absurd (hdig _ huser) (by decide)
  · exact absurd hat (by decide)
  · exact hbar hback

theorem blank_or_mem_trim {char : Char} (hmem : char ∈ text) :
    isWhitespace char = true ∨ char ∈ trim text := by
  have houter : ∀ chars : List Char, char ∈ chars →
      isWhitespace char = true ∨ char ∈ chars.dropWhile isWhitespace := by
    intro chars hchars
    rw [← takeWhile_append_dropWhile (p := isWhitespace) (l := chars), mem_append] at hchars
    exact hchars.imp_left mem_takeWhile_imp
  rcases houter text hmem with hblank | hmem
  · exact .inl hblank
  · rw [trim, mem_reverse]
    exact houter _ (mem_reverse.mpr hmem)

theorem checkReplyTo_eq_ok {replyTo found : Option String} (hok : checkReplyTo replyTo = .ok found) :
    (found.getD "").toList = trim (replyTo.getD "").toList ∧ found ≠ some "" ∧
      '|' ∉ (replyTo.getD "").toList := by
  cases replyTo with
  | none =>
    cases hok
    exact ⟨rfl, nofun, not_mem_nil⟩
  | some id =>
    have hbar : '|' ∉ trim id.toList → '|' ∉ id.toList := by
      intro htrim hmem
      rcases blank_or_mem_trim hmem with hblank | hmem
      · exact absurd hblank (by decide)
      · exact htrim hmem
    rw [checkReplyTo, Option.map_some] at hok
    rw [Option.getD_some]
    split at hok
    · next hnone => cases hnone
    · next hnone =>
      cases hok
      rw [Option.some.injEq] at hnone
      rw [hnone] at hbar ⊢
      exact ⟨rfl, nofun, hbar not_mem_nil⟩
    rename_i trimmed hne hsome
    rw [Option.some.injEq] at hsome
    rw [hsome] at hbar ⊢
    split at hok
    · cases hok
    split at hok
    · cases hok
    rename_i halnum
    cases hok
    rw [Bool.not_eq_true', Bool.not_eq_false, all_eq_true] at halnum
    refine ⟨String.toList_ofList, ?_, hbar ?_⟩
    · intro hemp
      rw [Option.some.injEq, String.ofList_eq_empty_iff] at hemp
      exact hne hemp
    · intro hmem
      exact absurd (halnum _ hmem) (by decide)

theorem Request.validate_eq_ok {request : Request} {verified : Verified}
    (hok : request.validate = .ok verified) :
    Chat.parse request.chat = .ok verified.chat ∧ verified.text = request.text ∧
      checkReplyTo request.replyTo = .ok verified.replyTo := by
  obtain ⟨chat, hchat, hok⟩ := bind_eq_ok.mp hok
  obtain ⟨-, hok⟩ := of_guard hok
  obtain ⟨-, hok⟩ := of_guard hok
  obtain ⟨replyTo, hreply, hok⟩ := bind_eq_ok.mp hok
  obtain ⟨-, hok⟩ := of_guard hok
  obtain ⟨mentions, -, hok⟩ := bind_eq_ok.mp hok
  cases hok
  exact ⟨hchat, rfl, hreply⟩

variable {left right : Request} {first second : Verified}

/-- One message is sent for two requests that differ in their spelling alone. -/
theorem message_iff_plain (hfst : left.validate = .ok first) (hsnd : right.validate = .ok second) :
    first.message = second.message ↔ plain left.spelling = plain right.spelling := by
  obtain ⟨hchat, htext, hreply⟩ := Request.validate_eq_ok hfst
  obtain ⟨hother, hmore, hlast⟩ := Request.validate_eq_ok hsnd
  obtain ⟨htrim, hsome, -⟩ := checkReplyTo_eq_ok hreply
  obtain ⟨hblank, hagain, -⟩ := checkReplyTo_eq_ok hlast
  have hrep : first.replyTo = second.replyTo ↔
      trim (left.replyTo.getD "").toList = trim (right.replyTo.getD "").toList := by
    rw [← htrim, ← hblank, String.toList_inj]
    cases hone : first.replyTo <;> cases htwo : second.replyTo <;> simp_all
  simp only [Verified.message, plain, Request.spelling, Prod.mk.injEq]
  rw [← String.toList_inj, Chat.jid_of_parse hchat, Chat.jid_of_parse hother, htext, hmore, hrep]

/-- What the key is made from is read back in one way, whatever the text has in it. -/
theorem material_iff_spelling (hfst : left.validate = .ok first)
    (hsnd : right.validate = .ok second) :
    left.material = right.material ↔ left.spelling = right.spelling := by
  obtain ⟨hchat, -, hreply⟩ := Request.validate_eq_ok hfst
  obtain ⟨hother, -, hlast⟩ := Request.validate_eq_ok hsnd
  have hlist : ∀ request : Request, request.material.toList =
      (trim request.chat.toList ++ '|' :: request.text.toList) ++
        '|' :: (request.replyTo.getD "").toList := by
    intro request
    simp [Request.material]
  constructor
  · intro hsame
    have hlists := congrArg String.toList hsame
    rw [hlist, hlist] at hlists
    obtain ⟨hstart, hends⟩ := Mesh.last_separator_inj (checkReplyTo_eq_ok hreply).2.2
      (checkReplyTo_eq_ok hlast).2.2 hlists
    obtain ⟨hchats, htexts⟩ := first_separator_inj (bar_notMem_chat hchat) (bar_notMem_chat hother)
      hstart
    rw [Request.spelling, hchats, String.toList_inj.mp htexts, String.toList_inj.mp hends]
    rfl
  intro hsame
  simp only [Request.spelling, Prod.mk.injEq] at hsame
  rw [Request.material, hsame.1, hsame.2.1, hsame.2.2]
  rfl

end Spelling

/-- Two requests have one key just when they send one message, unless they spell the chat or the quoted
message in two ways. -/
theorem dedupeKey_iff_spelled (left right : Request) (first second : Verified)
    (hfirst : left.validate = .ok first) (hsecond : right.validate = .ok second)
    (hhash : left.dedupeKey = right.dedupeKey → left.material = right.material) :
    (left.dedupeKey = right.dedupeKey ↔ first.message = second.message) ↔
      (plain left.spelling = plain right.spelling → left.spelling = right.spelling) := by
  have hkey : left.dedupeKey = right.dedupeKey ↔ left.spelling = right.spelling := by
    rw [← material_iff_spelling hfirst hsecond]
    exact ⟨hhash, congrArg Mesh.sha256Hex⟩
  rw [hkey, message_iff_plain hfirst hsecond]
  exact ⟨Iff.mpr, fun hback => ⟨congrArg plain, hback⟩⟩

section Samples

def quoted (chat : String) (replyTo : Option String) : Request := ⟨chat, "ok|", replyTo, []⟩

theorem dedupeKey_iff_spelled_quoted :
    (quoted " 5511@lid" none).dedupeKey = (quoted "5511@lid " (some "")).dedupeKey ↔
      (⟨⟨"5511", .lid⟩, "ok|", none, []⟩ : Verified).message =
        (⟨⟨"5511", .lid⟩, "ok|", none, []⟩ : Verified).message := by
  have hsame : (quoted " 5511@lid" none).spelling = (quoted "5511@lid " (some "")).spelling := by
    decide +kernel
  have hmaterial : (quoted " 5511@lid" none).material = (quoted "5511@lid " (some "")).material := by
    decide +kernel
  exact (dedupeKey_iff_spelled _ _ _ _ (by decide +kernel) (by decide +kernel)
    fun _ => hmaterial).mpr fun _ => hsame

/-- One chat under the two names of its server. -/
theorem respelled_chat_has_two_keys :
    ∃ left right : Request, ∃ first second : Verified, left.validate = .ok first ∧
      right.validate = .ok second ∧ first.message = second.message ∧
        left.dedupeKey ≠ right.dedupeKey := by
  refine ⟨quoted "5511@c.us" none, quoted "5511@s.whatsapp.net" none,
    ⟨⟨"5511", .phone⟩, "ok|", none, []⟩, ⟨⟨"5511", .phone⟩, "ok|", none, []⟩, ?_⟩
  decide +kernel

end Samples

end WasmAgent.Whatsapp.Outbox
