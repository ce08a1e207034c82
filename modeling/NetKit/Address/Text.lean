import NetKit.Address.Basic

/-!
# Text of addresses — the canonical form, the socket form and the diagnostic form

`Address.text` leaves out a port or a scope of zero, and can be read back unless the address is
`unspecified`. `Endpoint.socketText` always shows the port, and puts the scope inside the brackets.
Neither shows the flow information.

## Contents
- `Address.text`: the canonical form.
- `Endpoint.socketText`: the socket form.
- `Address.debugText`: the diagnostic form, which contains the socket form.
-/

namespace NetKit

/-- `mark` and `n` in decimal; nothing for `0`. -/
def markedUnlessZero (mark : Char) (n : Nat) : Text :=
  if n = 0 then [] else mark :: Nat.toDigits 10 n

/-- The canonical form: port and scope only where they are not `0`. -/
def Endpoint.text : Endpoint → Text
  | .v4 ip port => ip.text ++ markedUnlessZero ':' port.toNat
  | .v6 ip port _ scope =>
    '[' :: ip.text ++ ']' :: markedUnlessZero '%' scope.toNat ++ markedUnlessZero ':' port.toNat

/-- The form with the port always there, and the scope inside the brackets. -/
def Endpoint.socketText : Endpoint → Text
  | .v4 ip port => ip.text ++ ':' :: Nat.toDigits 10 port.toNat
  | .v6 ip port _ scope =>
    '[' :: ip.text ++ markedUnlessZero '%' scope.toNat ++ ']' :: ':' :: Nat.toDigits 10 port.toNat

namespace Address

/-- `Endpoint.text`, or `<>`. -/
def text : Address → Text
  | unspecified => "<>".toList
  | specified e => e.text

/-- The variant with its `socketText` in parentheses. -/
def variantText : Address → Text
  | unspecified => "Unspecified".toList
  | specified (.v4 ip port) => "V4(".toList ++ (Endpoint.v4 ip port).socketText ++ [')']
  | specified (.v6 ip port flow scope) =>
    "V6(".toList ++ (Endpoint.v6 ip port flow scope).socketText ++ [')']

/-- The diagnostic form, around `variantText`. -/
def debugText (a : Address) : Text :=
  "Address \x7b endpoint: ".toList ++ a.variantText ++ " \x7d".toList

end Address

end NetKit
