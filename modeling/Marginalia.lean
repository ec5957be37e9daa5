import Marginalia.Forms
import Marginalia.Filter.Drive
import Marginalia.Main
import Marginalia.Proofs.Chat.Encoded
import Marginalia.Proofs.Record.Fragmentation
import Marginalia.Proofs.Record.Isolation
import Marginalia.Proofs.Filter.Commands
import Marginalia.Proofs.Filter.Exclusive
import Marginalia.Proofs.Record.Remaining
import Marginalia.Proofs.Ledger
import Marginalia.Proofs.Ledger.Accepted
import Marginalia.Proofs.Payload
import Marginalia.Proofs.Exchange
import Marginalia.Proofs.Review
import Marginalia.Proofs.Filter.Batches
import Marginalia.Proofs.Filter.Inactive
import Marginalia.Proofs.Filter.Outcome
import Marginalia.Proofs.Filter.CarriedOut
import Marginalia.Proofs.Filter.Context
import Marginalia.Proofs.Chat.Layout
import Marginalia.Proofs.Filter.Collapse
import Marginalia.Proofs.FileChoice.Gathering
import Marginalia.Proofs.Numbering
import Marginalia.Proofs.CommandLine.Visible
import Marginalia.Proofs.Json.Front
import Marginalia.Proofs.Record.Gate
import Marginalia.Proofs.Record.Conserved
import Marginalia.Proofs.Record.Polls
import Marginalia.Proofs.Truncation
import Marginalia.Proofs.Settings.Expansion
import Marginalia.Proofs.Workspace.Containment
import Marginalia.Proofs.Request
import Marginalia.Proofs.Record.Acceptance
import Marginalia.Proofs.Forms
import Marginalia.Proofs.Terminal
import Marginalia.Proofs.Workspace.Walked
import Marginalia.Proofs.Workspace.Listed
import Marginalia.Proofs.Url.Paths
import Marginalia.Proofs.Url.Addresses
import Marginalia.Proofs.Chat.Endpoint
import Marginalia.Proofs.CommandLine.Origin
import Marginalia.Proofs.Chat.Quotation
import Marginalia.Proofs.Text.Hints
