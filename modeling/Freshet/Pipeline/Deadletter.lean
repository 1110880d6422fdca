/-
**The dead-letter envelope**: `json.dumps` of the failure, where it came from and the payload.
-/

import Mathlib.Data.List.Defs

namespace Freshet.Pipeline

def deadletterTopic : String := "deadletter.events"

/-- Four hexadecimal digits. -/
def hex4 (n : Nat) : List Char := (Nat.toDigits 16 n).leftpad 4 '0'

/-- A character in a JSON string. What is not printable ASCII is escaped, beyond the basic plane as
a surrogate pair. -/
def jsonChar (c : Char) : List Char :=
  if c = '"' then ['\\', '"']
  else if c = '\\' then ['\\', '\\']
  else if c = '\n' then ['\\', 'n']
  else if c = '\r' then ['\\', 'r']
  else if c = '\t' then ['\\', 't']
  else if c.toNat = 0xc then ['\\', 'f']
  else if c.toNat = 0x8 then ['\\', 'b']
  else if 0x20 ≤ c.toNat ∧ c.toNat ≤ 0x7e then [c]
  else if c.toNat < 0x10000 then '\\' :: 'u' :: hex4 c.toNat
  else
    let offset := c.toNat - 0x10000
    '\\' :: 'u' :: hex4 (0xd800 + offset / 0x400) ++ '\\' :: 'u' :: hex4 (0xdc00 + offset % 0x400)

/-- A JSON string. -/
def jsonString (text : String) : String :=
  String.ofList ('"' :: text.toList.flatMap jsonChar ++ ['"'])

/-- `build_deadletter`, `deadLetteredAt` being the current time in ISO form. -/
def buildDeadletter (error payload sourceTopic deadLetteredAt : String) : String :=
  "\x7b\"error\": " ++ jsonString error ++ ", \"source_topic\": " ++ jsonString sourceTopic ++
    ", \"payload\": " ++ jsonString payload ++ ", \"dead_lettered_at\": " ++
    jsonString deadLetteredAt ++ "\x7d"

end Freshet.Pipeline
