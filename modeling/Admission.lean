import Admission.Metrics
import Admission.Proofs.Bucket.Spend
import Admission.Proofs.Traffic.Exclusion
import Admission.Proofs.Traffic.Session
import Admission.Session.Basic
import Admission.Session.Setup
import Admission.Settings.Environment
import Admission.Proofs.Bucket.Repeat
import Admission.Proofs.Bucket.Denial
import Admission.Proofs.Request.FailOpen
import Admission.Proofs.Server.Exact
import Admission.Proofs.Server.Numerals
import Admission.Proofs.Server.Script
import Admission.Proofs.Server.Buckets
import Admission.Proofs.Record.Claims
import Admission.Proofs.Server.Records
import Admission.Proofs.Request.Claim
import Admission.Proofs.Traffic.Cancellation
import Admission.Proofs.Record.Replay
import Admission.Proofs.Request.Outline
import Admission.Proofs.Request.Charge
import Admission.Proofs.Request.Report
import Admission.Proofs.Traffic.Counters
import Admission.Proofs.Bucket.Isolation
import Admission.Proofs.Session.Veil
import Admission.Proofs.Session.Independence
import Admission.Proofs.Session.Settling
import Admission.Proofs.Settings.Updates
import Admission.Proofs.Request.Telemetry
import Admission.Proofs.Bucket.Polling
import Admission.Proofs.Bucket.Forgetting
import Admission.Proofs.Bucket.NextToken
import Admission.Proofs.Bucket.Advice
import Admission.Proofs.Traffic.Charges
import Admission.Proofs.Request.Caller
import Admission.Proofs.Request.Fields
import Admission.Proofs.Request.Wait
import Admission.Proofs.Server.Passwords
import Admission.Proofs.Server.Malformed
import Admission.Proofs.Server.Lifetimes
import Admission.Proofs.Settings.Variables
import Admission.Proofs.Policy.Catalogue
import Admission.Proofs.Stores.Purging
import Admission.Proofs.Sink.Readiness
import Admission.Proofs.Bucket.Exactness
import Admission.Proofs.Bucket.Slots
import Admission.Proofs.Sink.Sliding
