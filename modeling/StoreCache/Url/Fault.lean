/-!
# Faults of an address

Why a text is not the address of a service. The first fault met from left to right is the one
reported.
-/

namespace StoreCache.Url

/-- Why a text is not the address of a service. -/
inductive Fault
  /-- The text does not begin with a scheme. -/
  | relative
  /-- The scheme calls for a host and there is none. -/
  | emptyHost
  /-- The port is no number below `2 ^ 16`. -/
  | badPort
  /-- The host ends in a number and is no IPv4 address. -/
  | badIPv4
  /-- The host begins with a bracket and is no IPv6 address. -/
  | badIPv6
  /-- The host is no domain name. -/
  | badDomain
  /-- The host of a scheme without domain names holds a delimiter. -/
  | badHostCharacter
  /-- It is a URL, but of a scheme that no service is reached by. -/
  | otherScheme
  deriving DecidableEq, Repr

/-- The text of a fault. -/
def Fault.message : Fault → String
  | .relative => "relative URL without a base"
  | .emptyHost => "empty host"
  | .badPort => "invalid port number"
  | .badIPv4 => "invalid IPv4 address"
  | .badIPv6 => "invalid IPv6 address"
  | .badDomain => "invalid international domain name"
  | .badHostCharacter => "invalid domain character"
  | .otherScheme => "expected an http(s) URL"

end StoreCache.Url
