/-!
The notation of numbers in messages: upper case hexadecimal digits behind
`0x`, with leading zeros up to a fixed width.
-/

namespace Modbus

def hex (width n : Nat) : String :=
  let digits := (Nat.toDigits 16 n).map Char.toUpper
  "0x" ++ String.ofList (List.replicate (width - digits.length) '0' ++ digits)

end Modbus
