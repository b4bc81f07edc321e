import RequestLine.Chain
import RequestLine.Client
import RequestLine.Service
import RequestLine.Service.Settings
import RequestLine.Proofs.Request.Written
import RequestLine.Proofs.Request.FullUrl
import RequestLine.Proofs.Request.Padding
import RequestLine.Proofs.Query.Pairs
import RequestLine.Proofs.Request.Reordering
import RequestLine.Proofs.Request.Refusal
import RequestLine.Proofs.Service.Verdict
import RequestLine.Proofs.Service.Calls
import RequestLine.Proofs.Service.Status
import RequestLine.Proofs.Request.Chaining
import RequestLine.Proofs.Line.Places
import RequestLine.Proofs.Line.Faults
import RequestLine.Proofs.Query.Component
import RequestLine.Proofs.Request.Places
import RequestLine.Proofs.Request.Extending
import RequestLine.Proofs.Request.Urls
import RequestLine.Proofs.Number.Integers
import RequestLine.Proofs.Number.Shortest
import RequestLine.Proofs.Query.ScriptText
import RequestLine.Proofs.Query.NumberText
import RequestLine.Proofs.Service.Answers
import RequestLine.Proofs.Service.Settings
import RequestLine.Proofs.Json.Strings
import RequestLine.Proofs.Request.JsonText
import RequestLine.Proofs.Client.RoundTrip
import RequestLine.Proofs.Client.Sending
