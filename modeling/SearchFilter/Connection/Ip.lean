import SearchFilter.Text.Percent

/-!
# Numeric addresses of hosts

Version 4 has four decimal numbers below 256 without leading zeros. Version 6 has eight groups of
up to four hexadecimal digits; two colons side by side stand for groups of zeros, once at most, and
the last two groups may be written as version 4.
-/

namespace SearchFilter.Connection

/-- One of the numbers of version 4. -/
def isOctet (cs : List Char) : Bool :=
  0 < cs.length && cs.length ≤ 3 && cs.all Char.isDigit &&
    (cs.length = 1 || cs.head? ≠ some '0') &&
    cs.foldl (fun n c => 10 * n + (c.toNat - 48)) 0 < 256

def isIpv4 (cs : List Char) : Bool :=
  let parts := Text.split '.' cs
  parts.length = 4 && parts.all isOctet

def isGroup (cs : List Char) : Bool :=
  0 < cs.length && cs.length ≤ 4 && cs.all fun c => (Text.hexDigit? c).isSome

/-- The number of groups in a list of them, or `none` if one of them is none. Only the last one may
be written as version 4. -/
def groupCount? (mayEndInIpv4 : Bool) : List (List Char) → Option Nat
  | [] => some 0
  | [last] =>
    if isGroup last then some 1 else if mayEndInIpv4 && isIpv4 last then some 2 else none
  | group :: rest => if isGroup group then (groupCount? mayEndInIpv4 rest).map (· + 1) else none

/-- The groups of what stands on one side of two colons. -/
def groups (cs : List Char) : List (List Char) := if cs = [] then [] else Text.split ':' cs

/-- What stands before the first two colons side by side, and what stands behind them. -/
def cutAtColons : List Char → List Char × Option (List Char)
  | [] => ([], none)
  | ':' :: ':' :: rest => ([], some rest)
  | c :: rest => ((c :: (cutAtColons rest).1), (cutAtColons rest).2)

def isIpv6 (cs : List Char) : Bool :=
  match cutAtColons cs with
  | (all, none) => groupCount? true (groups all) = some 8
  | (left, some right) =>
    match groupCount? false (groups left), groupCount? true (groups right) with
    | some m, some n => m + n ≤ 7
    | _, _ => false

example : isIpv4 "127.0.0.1".toList = true ∧ isIpv4 "127.0.0.01".toList = false := by cbv

example : isIpv6 "::1".toList = true ∧ isIpv6 "1::2::3".toList = false := by cbv

end SearchFilter.Connection
