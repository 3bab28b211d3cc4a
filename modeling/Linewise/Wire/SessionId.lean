import Linewise.Wire.Reader

/-!
# Identities of sessions

A session is identified by a number of a hundred and twenty-eight bits. It is written as
thirty-two hexadecimal digits in groups of eight, four, four, four and twelve, and read with
digits of either case: in these groups, alone, in braces or after `urn:uuid:`, or as one run of
digits.
-/

namespace Linewise.Wire

/-- The identity of a session. -/
structure SessionId where
  bits : BitVec 128
  deriving DecidableEq

namespace SessionId

/-- The `count` lowest hexadecimal digits of a number. -/
def hexDigits : (count : Nat) → Nat → List Char
  | 0, _ => []
  | count + 1, n => hexDigits count (n / 16) ++ [Json.hexDigit (n % 16)]

/-- The digits in groups, with hyphens between them. -/
def grouped (digits : List Char) : List Char :=
  digits.take 8 ++ '-' :: (digits.drop 8).take 4 ++ '-' :: (digits.drop 12).take 4 ++
    '-' :: (digits.drop 16).take 4 ++ '-' :: digits.drop 20

/-- The text of an identity. -/
def text (id : SessionId) : String := String.ofList (grouped (hexDigits 32 id.bits.toNat))

/-- The number that hexadecimal digits spell. -/
def value? (digits : List Char) : Option Nat :=
  digits.foldlM (fun n c => (Json.hexValue? c).map (16 * n + ·)) 0

/-- The identity that thirty-two digits spell. -/
def ofDigits? (digits : List Char) : Option SessionId :=
  if digits.length = 32 then (value? digits).map fun n => ⟨.ofNat 128 n⟩ else none

/-- The identity that digits in groups spell. -/
def ofGroups? (cs : List Char) : Option SessionId :=
  let digits := cs.take 8 ++ (cs.drop 9).take 4 ++ (cs.drop 14).take 4 ++ (cs.drop 19).take 4 ++
    cs.drop 24
  if grouped digits = cs then ofDigits? digits else none

/-- What stands between braces. -/
def unbraced? : List Char → Option (List Char)
  | '\x7b' :: rest => if rest.getLast? = some '\x7d' then some rest.dropLast else none
  | _ => none

/-- The identity that a text spells. -/
def ofText? (text : String) : Option SessionId :=
  let cs := text.toList
  if cs.length = 32 then ofDigits? cs
  else if cs.length = 38 then (unbraced? cs).bind ofGroups?
  else if cs.take 9 = "urn:uuid:".toList then ofGroups? (cs.drop 9)
  else ofGroups? cs

end SessionId

end Linewise.Wire
