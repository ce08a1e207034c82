import NetKit.Address.Order
import NetKit.Address.Parser
import NetKit.Address.Sockaddr
import NetKit.Address.Text
import NetKit.Table

/-!
# Registers — three addresses, and commands that assign, change, inspect and compare them

A `Command` works on one of three registers, which are unspecified at first. There are three kinds. Most
commands compute an address and store it in the register if there is one (`Command.store`). `setPort` and
`setAddress` are operations on the register in place, which say themselves what it holds when they fail
(`Command.inPlace`). The others only look.

## Contents
- `Description`, `Address.describe`: everything that can be asked of an address.
- `Command`, `Reply`, `CommandError`: what can be done, and what comes of it.
- `Command.store`, `Command.inPlace`, `Command.perform`: what a command does with its register.
- `Registers.run`: one command.
-/

namespace NetKit

/-! ## Descriptions -/

/-- Everything that can be asked of an address. -/
structure Description where
  address : Address
  mapped : Except OperationError Address
  endpoint : Except OperationError Endpoint
  block : Option (List UInt8)
  reparses : Bool

/-- `a.text` is read as `a`. -/
def Address.reparses (interfaces : Interfaces) (a : Address) : Bool :=
  match (Address.parse interfaces a.text 0).value with
  | .ok b => b = a
  | .error _ => false

/-- The `Description` of `a`. -/
def Address.describe (interfaces : Interfaces) (a : Address) : Description :=
  { address := a
    mapped := a.toIpv6
    endpoint := a.toEndpoint
    block := a.sockaddr?
    reparses := a.reparses interfaces }

/-! ## Commands -/

/-- One of the three registers. -/
abbrev Register := Fin 3

/-- What can be done with a register. -/
inductive Command where
  /-- Stores `Address.ofFamily`. -/
  | new (family : Family)
  /-- Stores `Address.ofFamilyNumber`. -/
  | newByNumber (number : Int)
  /-- Stores `Address.wildcard`. -/
  | wildcard (family : Family) (port : UInt16)
  /-- Stores `Address.loopback`. -/
  | loopback (family : Family) (port : UInt16)
  /-- Stores `Address.parse`. -/
  | parse (text : Text) (defaultPort : UInt16)
  /-- Stores `Address.ofText`. -/
  | ofText (text : Text)
  /-- `Address.setAddress` on the register. -/
  | setAddress (text : Text) (defaultPort : UInt16)
  /-- `Address.setPort` on the register. -/
  | setPort (port : UInt16)
  /-- Stores `Address.toIpv6` of the register. -/
  | map
  /-- Stores the address of register `source`. -/
  | copy (source : Register)
  /-- Stores `Endpoint.ofIp`. -/
  | fromIp (ip : Ip)
  /-- Stores an endpoint. -/
  | fromEndpoint (endpoint : Endpoint)
  /-- Stores `Address.ofSockaddr`. -/
  | fromSockaddr (block : Option (List UInt8))
  /-- Asks for `Address.sockaddr?`. -/
  | toSockaddr
  /-- Asks whether `Address.ofSockaddr` recovers the register from its block. -/
  | sockaddrRoundTrip
  /-- Asks for `Address.toEndpoint`. -/
  | toEndpoint
  /-- Asks for `Address.describe`. -/
  | describe
  /-- Asks for `Address.compare` with register `other`. -/
  | compare (other : Register)
  deriving DecidableEq, Repr

/-- The answer to a command that succeeds. -/
inductive Reply where
  /-- The register was written. -/
  | assigned
  | block (block : Option (List UInt8))
  | roundTrip (same : Bool)
  | endpoint (endpoint : Endpoint)
  | description (description : Description)
  | comparison (order : Ordering) (equal : Bool)

/-- The answer to a command that fails. -/
inductive CommandError where
  /-- From `Address.parse`, `Address.ofText` or `Address.setAddress`. -/
  | address (error : AddressError)
  /-- From an operation that the family does not allow. -/
  | operation (error : OperationError)
  deriving DecidableEq, Repr

/-- The addresses of the three registers. -/
abbrev Registers := Table Register Address

/-- All registers `unspecified`. -/
def Registers.initial : Registers := fun _ => .unspecified

namespace Command

/-- Stores a computed address in a register that holds `before`: what it holds afterwards, and the answer. -/
def store (before : Address) (r : Logged (Except CommandError Address)) :
    Address × Logged (Except CommandError Reply) :=
  match r with
  | ⟨.ok b, events⟩ => (b, ⟨.ok .assigned, events⟩)
  | ⟨.error e, events⟩ => (before, ⟨.error e, events⟩)

/-- The outcome of an operation in place, with its error as a `CommandError`. -/
def inPlace {ε : Type} (error : ε → CommandError) (r : Logged (Except ε Unit × Address)) :
    Address × Logged (Except CommandError Reply) :=
  (r.value.2, r.map fun r => (r.1.map fun () => .assigned).mapError error)

/-- What register `a` holds after a command on it, and the answer. -/
def perform (interfaces : Interfaces) (rs : Registers) (a : Register) :
    Command → Address × Logged (Except CommandError Reply)
  | new family => store (rs a) (.quiet (.ok (.ofFamily family)))
  | newByNumber number =>
    store (rs a) (.quiet ((Address.ofFamilyNumber number).mapError .operation))
  | wildcard family port =>
    store (rs a) (.quiet ((Address.wildcard family port).mapError .operation))
  | loopback family port =>
    store (rs a) (.quiet ((Address.loopback family port).mapError .operation))
  | parse text defaultPort =>
    store (rs a) ((Address.parse interfaces text defaultPort).map (Except.mapError .address))
  | ofText text => store (rs a) ((Address.ofText interfaces text).map (Except.mapError .address))
  | setAddress text defaultPort =>
    inPlace .address ((rs a).setAddress interfaces text defaultPort)
  | setPort port => inPlace .operation (.quiet ((rs a).setPort port))
  | map => store (rs a) (.quiet ((rs a).toIpv6.mapError .operation))
  | copy source => store (rs a) (.quiet (.ok (rs source)))
  | fromIp ip => store (rs a) (.quiet (.ok (.specified (.ofIp ip))))
  | fromEndpoint endpoint => store (rs a) (.quiet (.ok (.specified endpoint)))
  | fromSockaddr block => store (rs a) (.quiet ((Address.ofSockaddr block).mapError .operation))
  | toSockaddr => (rs a, .quiet (.ok (.block (rs a).sockaddr?)))
  | sockaddrRoundTrip =>
    match Address.ofSockaddr (rs a).sockaddr? with
    | .ok b => (rs a, .quiet (.ok (.roundTrip (b = rs a))))
    | .error e => (rs a, .quiet (.error (.operation e)))
  | toEndpoint => (rs a, .quiet (((rs a).toEndpoint.map Reply.endpoint).mapError .operation))
  | describe => (rs a, .quiet (.ok (.description ((rs a).describe interfaces))))
  | compare other =>
    (rs a, .quiet (.ok (.comparison ((rs a).compare (rs other)) (rs a = rs other))))

end Command

/-- Runs a command on register `a`: the registers after it, and what it answers. -/
def Registers.run (interfaces : Interfaces) (rs : Registers) (a : Register) (c : Command) :
    Registers × Logged (Except CommandError Reply) :=
  let (after, answer) := c.perform interfaces rs a
  (rs.set a after, answer)

end NetKit
