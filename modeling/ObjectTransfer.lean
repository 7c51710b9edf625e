import ObjectTransfer.Json.Error
import ObjectTransfer.Json.Options
import ObjectTransfer.Main
import ObjectTransfer.Outline.Error
import ObjectTransfer.Proofs.Events
import ObjectTransfer.Proofs.Excerpt
import ObjectTransfer.Proofs.Json.RoundTrip
import ObjectTransfer.Proofs.Layout
import ObjectTransfer.Proofs.Limits
import ObjectTransfer.Proofs.Locations
import ObjectTransfer.Proofs.Request.Acceptance
import ObjectTransfer.Proofs.Request.RoundTrip
import ObjectTransfer.Proofs.Response.Acceptance
import ObjectTransfer.Proofs.Response.RoundTrip
import ObjectTransfer.Proofs.Schema.Joining
import ObjectTransfer.Proofs.Schema.RoundTrip
import ObjectTransfer.Proofs.Schema.TypeTexts
import ObjectTransfer.Proofs.Token.Faults
import ObjectTransfer.Proofs.Token.Reserved
import ObjectTransfer.Proofs.Token.Resuming
import ObjectTransfer.Proofs.Token.Separators
import ObjectTransfer.Proofs.Token.StringLiterals
import ObjectTransfer.Proofs.Token.Tiling
import ObjectTransfer.Proofs.Trace.Agreement
import ObjectTransfer.Proofs.Truncation
