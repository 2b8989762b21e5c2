/-!
This module contains the digits of natural numbers.
-/

namespace LiterateFun.Text

def decimal (n : Nat) : String :=
  String.ofList (Nat.toDigits 10 n)

def hex (n : Nat) : String :=
  String.ofList (Nat.toDigits 16 n)

end LiterateFun.Text
