import Quorum.Failure
import Quorum.Text.Utf8

/-! # Channels to peers

A peer is reached under the locator made from its address. The address must be one that
locators admit: only their characters, at most one colon outside of brackets, and
brackets in one pair. What a locator says behind a slash, a question mark or a number
sign plays no part, but is checked for its characters too.
-/

namespace Quorum.Channel

/-- Why an address makes no locator. -/
inductive Fault where
  | character
  | authority
  | format
  | length
  deriving DecidableEq, Repr

def Fault.message : Fault → String
  | .character => "invalid uri character"
  | .authority => "invalid authority"
  | .format => "invalid format"
  | .length => "uri too long"

/-- The greatest length of a locator in bytes. -/
def maximalLength : Nat := 65534

/-- What stands before the address. -/
def scheme : String := "http://"

/-- Characters that may stand in an address. -/
def isAllowed (c : Char) : Bool :=
  c.isAlphanum || "!$&'()*+,-.;=_~:[]@".toList.contains c

def isEnd (c : Char) : Bool :=
  c = '/' || c = '?' || c = '#'

/-- What was seen of an address. -/
structure Seen where
  colons : Nat := 0
  opened : Bool := false
  closed : Bool := false
  percent : Bool := false
  /-- Whether the last character was the sign that ends a user's name. -/
  endsInSign : Bool := false

/-- One more character of an address. Colons within brackets or in a user's name do not
count. -/
def Seen.add (seen : Seen) (c : Char) : Except Fault Seen :=
  let next := { seen with endsInSign := c = '@' }
  if c = ':' then
    if 8 ≤ seen.colons then .error .authority else .ok { next with colons := seen.colons + 1 }
  else if c = '[' then
    if seen.percent || seen.opened then .error .authority else .ok { next with opened := true }
  else if c = ']' then
    if !seen.opened || seen.closed then .error .authority
    else .ok { next with closed := true, colons := 0, percent := false }
  else if c = '@' then .ok { next with colons := 0, percent := false }
  else if c = '%' then .ok { next with percent := true }
  else if isAllowed c then .ok next
  else .error .character

/-- Whether an address may end so. -/
def Seen.isComplete (seen : Seen) : Bool :=
  seen.opened = seen.closed && seen.colons ≤ 1 && !seen.endsInSign && !seen.percent

/-- Characters that may stand in a path. -/
def isPathChar (c : Char) : Bool :=
  isAllowed c || "/%\\^|\"\x7b\x7d".toList.contains c || 0x7F ≤ c.toNat

/-- Characters that may stand behind a question mark. -/
def isQueryChar (c : Char) : Bool :=
  isPathChar c && c ≠ '"' || c = '?' || c = '\x60' || c = '\x7b' || c = '\x7d'

/-- Checks what stands behind an address. -/
def checkRest (rest : List Char) : Except Fault Unit :=
  let shown := rest.takeWhile (· ≠ '#')
  let path := shown.takeWhile (· ≠ '?')
  let question := (shown.drop path.length).drop 1
  if path.all isPathChar && question.all isQueryChar then .ok () else .error .character

def checkAddress (address : String) : Except Fault Unit := do
  let text := address.toList
  if maximalLength < (Text.Utf8.encode (scheme ++ address)).length then throw .length
  let authority := text.takeWhile (!isEnd ·)
  let seen ← authority.foldlM Seen.add {}
  if !seen.isComplete then throw .authority
  else if authority = [] then throw .format
  else checkRest (text.drop authority.length)

/-- Makes a channel to a peer, which does not reach out to it yet. -/
def make (address : String) : Except Failure Unit :=
  (checkAddress address).mapError fun fault =>
    .network ("Invalid peer address " ++ address ++ ": " ++ fault.message)

end Quorum.Channel
