import SearchFilter.Numeric.Unsigned
import SearchFilter.Text.Quoted
import SearchFilter.Text.Utf8

/-!
# What can be wrong with an address

The reasons for which the address of a database cannot be read.
-/

namespace SearchFilter.Connection

inductive AddressFault where
  /-- It does not start with a scheme. -/
  | noScheme
  | emptyHost
  | badPort
  | badHostCharacter
  | badIpv6
  /-- What is percent-encoded in it is no text. -/
  | bytes (fault : Text.ByteFault)
  | unknownParameter (name : String)
  | unknownValue (parameter value : String)
  | sslMode (value : String)
  | number (fault : Numeric.DigitFault)
  | badIp
deriving DecidableEq, Repr

namespace AddressFault

def unknownValueText (parameter value : String) : String :=
  "unknown value " ++ Text.quote value ++ " for `" ++ parameter ++ "`"

def reason : AddressFault → String
  | noScheme => "relative URL without a base"
  | emptyHost => "empty host"
  | badPort => "invalid port number"
  | badHostCharacter => "invalid domain character"
  | badIpv6 => "invalid IPv6 address"
  | bytes fault => fault.message
  | unknownParameter name =>
    "unknown query parameter `" ++ name ++ "` while parsing connection URL"
  | unknownValue parameter value => unknownValueText parameter value
  | sslMode value => "error with configuration: " ++ unknownValueText "ssl_mode" value
  | number fault => fault.message
  | badIp => "invalid IP address syntax"

def message (f : AddressFault) : String := "error with configuration: " ++ f.reason

end AddressFault

end SearchFilter.Connection
