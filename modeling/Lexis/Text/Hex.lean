/-!
Numbers in base sixteen, with zeros in front up to a least count of digits.
-/

namespace Lexis.Text

def hexDigits (least n : Nat) : List Char :=
  let digits := Nat.toDigits 16 n
  List.replicate (least-digits.length) '0'++digits

def lowerHex (least n : Nat) : String := String.ofList (hexDigits least n)

def upperHex (least n : Nat) : String := String.ofList ((hexDigits least n).map Char.toUpper)

end Lexis.Text
