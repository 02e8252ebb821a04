import RotaLb.Metrics

/-!
# Dial Addresses

`validate_dial_addr`: the check every dial makes on its address before it touches the
pool. Strings are taken apart as lists of characters; `parseU16` follows the standard
library's `u16::from_str`, which accepts one leading `+`.
-/

namespace RotaLb

/-- `str::rsplit_once`: split at the last occurrence of a character. -/
def rsplitOnce (c : Char) : List Char → Option (List Char × List Char)
  | [] => none
  | x :: xs =>
    match rsplitOnce c xs with
    | some (h, t) => some (x :: h, t)
    | none => if x = c then some ([], xs) else none

/-- One more decimal digit, with the overflow checks of `checked_mul` and
`checked_add`. -/
def pushDigit (acc : Nat) (c : Char) : Option Nat :=
  if c.isDigit then
    let v := acc * 10 + (c.toNat - '0'.toNat)
    if v < 2 ^ 16 then some v else none
  else
    none

/-- `u16::from_str`. -/
def parseU16 (s : List Char) : Option Nat :=
  let digits :=
    match s with
    | '+' :: rest => rest
    | s => s
  if digits.isEmpty then none else digits.foldlM pushDigit 0

/-- Validate a `"host:port"` without resolving it. -/
def validateDialAddr (addr : String) : Except Error Unit :=
  match rsplitOnce ':' addr.toList with
  | none => .error (.invalidAddress addr "expected \"host:port\"")
  | some (host, port) =>
    if host.isEmpty then
      .error (.invalidAddress addr "empty host")
    else if (parseU16 port).all (· = 0) then
      .error (.invalidAddress addr "port must be 1-65535")
    else
      .ok ()

example : validateDialAddr "example.com:443" = .ok () := by decide

example : validateDialAddr "example.com:0" =
    .error (.invalidAddress "example.com:0" "port must be 1-65535") := by decide

end RotaLb
