import CtapEnroll.Client.Capture
import CtapEnroll.Proofs.Cbor.RoundTrip
import CtapEnroll.Proofs.Apdu
import CtapEnroll.Proofs.Link
import CtapEnroll.Proofs.Requests
import CtapEnroll.Proofs.Calls
import CtapEnroll.Proofs.SignedRequests
import CtapEnroll.Proofs.Captures
import CtapEnroll.Proofs.Lifecycle
import CtapEnroll.Proofs.OneTemplate
import CtapEnroll.Proofs.Readings
import CtapEnroll.Proofs.Retries
import CtapEnroll.Proofs.Exchanges
import CtapEnroll.Proofs.Programs
import CtapEnroll.Proofs.Signatures
import CtapEnroll.Proofs.Devices
import CtapEnroll.Proofs.Agreement
import CtapEnroll.Proofs.SortedMaps
import CtapEnroll.Proofs.Cbor.Parts
import CtapEnroll.Proofs.Cbor.PrefixFree
import CtapEnroll.Proofs.Cbor.Spans
import CtapEnroll.Proofs.Cbor.ShortestHeads
import CtapEnroll.Proofs.Answers
import CtapEnroll.Proofs.RequestFormat
import CtapEnroll.Proofs.Transcripts
import CtapEnroll.Proofs.Listings
import CtapEnroll.Proofs.SignerFailures
import CtapEnroll.Proofs.Reports
import CtapEnroll.Proofs.ErrorStages
import CtapEnroll.Proofs.TagFrames
import CtapEnroll.Proofs.TwoRuns
import CtapEnroll.Proofs.TokenIndependence
import CtapEnroll.Proofs.CutAnswers
import CtapEnroll.Proofs.Insertions
import CtapEnroll.Proofs.TypedResults
import CtapEnroll.Proofs.ListingFormat
import CtapEnroll.Proofs.VersionText
import CtapEnroll.Proofs.AnswerMaps
import CtapEnroll.Proofs.Cbor.Accepted
import CtapEnroll.Proofs.Reencoding
