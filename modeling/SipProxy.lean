import SipProxy.Document.Message
import SipProxy.Document.Transport
import SipProxy.Main
import SipProxy.Proofs.Text.Boundary
import SipProxy.Proofs.Grammar.Reading
import SipProxy.Proofs.Grammar.Classes
import SipProxy.Proofs.Grammar.Lexeme
import SipProxy.Proofs.Grammar.Params
import SipProxy.Proofs.Grammar.Delimited
import SipProxy.Proofs.Stream.Cuts
import SipProxy.Proofs.Stream.Delivery
import SipProxy.Proofs.Ip.Text
import SipProxy.Proofs.Message.Composed
import SipProxy.Proofs.Header.Lines
import SipProxy.Proofs.Message.Edit
import SipProxy.Proofs.Engine.Stages
import SipProxy.Proofs.Engine.Rewrite
import SipProxy.Proofs.Engine.Return
import SipProxy.Proofs.Backend.Separation
import SipProxy.Proofs.Uri.Spelling
import SipProxy.Proofs.Uri.Sip
import SipProxy.Proofs.Uri.Text
import SipProxy.Proofs.Value.Quotation
import SipProxy.Proofs.Value.NameAddress
import SipProxy.Proofs.Grammar.Entries
import SipProxy.Proofs.Value.Route
import SipProxy.Proofs.Value.ViaLine
import SipProxy.Proofs.Value.Party
import SipProxy.Proofs.Value.Number
import SipProxy.Proofs.Value.DisplayName
import SipProxy.Proofs.Value.Confinement
import SipProxy.Proofs.Value.Tag
import SipProxy.Proofs.Header.Sendable
import SipProxy.Proofs.Message.Sendable
import SipProxy.Proofs.Engine.Own
import SipProxy.Proofs.Engine.Arrival
import SipProxy.Proofs.Engine.HopLimit
import SipProxy.Proofs.Engine.OwnRoute
import SipProxy.Proofs.Engine.Learning
import SipProxy.Proofs.Message.Stacks
import SipProxy.Proofs.Backend.Lifecycle
import SipProxy.Proofs.Header.Alike
import SipProxy.Proofs.Message.Layout
import SipProxy.Proofs.Engine.Layout
import SipProxy.Proofs.Engine.NextHop
import SipProxy.Proofs.Engine.Repetition
import SipProxy.Proofs.Routing.StaticTable
import SipProxy.Proofs.Framing.Decision
import SipProxy.Proofs.Connection.Cache
import SipProxy.Proofs.Framing.Agreement
import SipProxy.Proofs.Framing.Progress
import SipProxy.Proofs.Connection.Calls
import SipProxy.Proofs.Header.Fault
import SipProxy.Proofs.Message.Failure
import SipProxy.Proofs.Transport.Hop
import SipProxy.Proofs.Backend.Address
import SipProxy.Proofs.Config.Check
import SipProxy.Proofs.Server.Start
