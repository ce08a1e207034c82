import NetKit.Address.Registers
import NetKit.Gate.Routine
import NetKit.Number.FloatLiteral
import NetKit.Stream.Script
import NetKit.Version
import NetKit.Proofs.Address.Blocks
import NetKit.Proofs.Address.Commands
import NetKit.Proofs.Address.DefaultPort
import NetKit.Proofs.Address.Length
import NetKit.Proofs.Address.Mapped
import NetKit.Proofs.Address.Messages
import NetKit.Proofs.Address.Order
import NetKit.Proofs.Address.Port
import NetKit.Proofs.Address.ScopeEvent
import NetKit.Proofs.Address.ScopePlaces
import NetKit.Proofs.Address.SocketText
import NetKit.Proofs.Gate.Crowd
import NetKit.Proofs.Gate.Delivery
import NetKit.Proofs.Gate.Nest
import NetKit.Proofs.Number.DecimalRange
import NetKit.Proofs.Number.FloatPrefix
import NetKit.Proofs.Number.Frame
import NetKit.Proofs.Stream.Account
import NetKit.Proofs.Stream.Guards
import NetKit.Proofs.Stream.Hint
import NetKit.Proofs.Stream.Limits
import NetKit.Proofs.Stream.Numbering
import NetKit.Proofs.Words.Address
import NetKit.Proofs.Words.HexDigits
import NetKit.Proofs.Words.Rounding
