import StoreCache.Url.Address
import StoreCache.Url.Domain
import StoreCache.Url.Fault
import StoreCache.Url.Percent

/-!
# Hosts

The host of an address is a domain name or a number. Which one it is meant to be shows at its ends:
a bracket begins an IPv6 address, and a name whose last label is a number is an IPv4 address. A name
is decoded before it is looked at, so an encoded delimiter is a delimiter.
-/

namespace StoreCache.Url

/-- The host of an address. -/
inductive Host
  /-- A domain name in its one spelling. -/
  | domain (name : String)
  /-- A number below `2 ^ 32`. -/
  | ipv4 (address : Nat)
  /-- Eight 16-bit words. -/
  | ipv6 (words : List Nat)
  deriving DecidableEq, Repr

namespace Host

/-- Read an IPv6 address in brackets. -/
def ofBrackets? (s : List Char) : Except Fault Host :=
  if s.head? = some '[' ∧ s.getLast? = some ']' then
    match ipv6? (s.drop 1).dropLast with
    | some words => .ok (.ipv6 words)
    | none => .error .badIPv6
  else .error .badIPv6

/-- Read a host. -/
def ofText? (s : List Char) : Except Fault Host :=
  if s.head? = some '[' then ofBrackets? s
  else
    match String.fromUTF8? (ByteArray.mk (decode s).toArray) with
    | none => .error .badDomain
    | some text =>
      match Domain.ofText? text.toList with
      | none => .error .badDomain
      | some [] => .error .emptyHost
      | some name =>
        if endsInNumber name then
          match ipv4? name with
          | some address => .ok (.ipv4 address)
          | none => .error .badIPv4
        else .ok (.domain (String.ofList name))

/-- Whether a character is in no host of a scheme without domain names. -/
def isForbidden (c : Char) : Bool := "\x00\t\n\r #/:<>?@[\\]^|".toList.contains c

/-- Check a host of a scheme without domain names. -/
def check (s : List Char) : Except Fault Unit :=
  if s.head? = some '[' then (ofBrackets? s).map fun _ ↦ ()
  else if s.any isForbidden then .error .badHostCharacter
  else .ok ()

/-- Write a host. -/
def render : Host → String
  | .domain name => name
  | .ipv4 address => renderIPv4 address
  | .ipv6 words => "[" ++ renderIPv6 words ++ "]"

end Host

end StoreCache.Url
