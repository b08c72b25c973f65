/-! # Hexadecimal numbers in messages -/

namespace Multiplex.Text

/-- A number in lower-case hexadecimal behind the mark 0x, with no leading zeros. -/
def hex (n : Nat) : String := "0x" ++ String.ofList (Nat.toDigits 16 n)

end Multiplex.Text
