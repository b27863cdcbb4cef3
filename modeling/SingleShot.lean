import SingleShot.Main
import SingleShot.Network.Host
import SingleShot.Proofs.Readiness.Polling
import SingleShot.Proofs.Readiness.Schedule
import SingleShot.Proofs.Course
import SingleShot.Proofs.Readiness.Order
import SingleShot.Proofs.Readiness.Timeout
import SingleShot.Proofs.Readiness.Deadline
import SingleShot.Proofs.Readiness.Modes
import SingleShot.Proofs.Payload
import SingleShot.Proofs.Session
import SingleShot.Proofs.Submission.Exits
import SingleShot.Proofs.Endpoint.Canonical
import SingleShot.Proofs.Wire.RoundTrip
import SingleShot.Proofs.Readiness.Skipped
import SingleShot.Proofs.Readiness.Count
import SingleShot.Proofs.Readiness.Prompt
import SingleShot.Proofs.Session.Rejected
import SingleShot.Proofs.Duration.Reading
import SingleShot.Proofs.Text.Decimal
import SingleShot.Proofs.CommandLine.Reading
import SingleShot.Proofs.CommandLine.Meaning
import SingleShot.Proofs.CommandLine.Absorbing
import SingleShot.Proofs.CommandLine.Grammar
import SingleShot.Proofs.CommandLine.RoundTrip
import SingleShot.Proofs.Wire.Grammar
import SingleShot.Proofs.Wire.Runs
import SingleShot.Proofs.Wire.Acceptance
import SingleShot.Proofs.Wire.Agreement
import SingleShot.Proofs.Wire.Merging
import SingleShot.Proofs.CommandLine.Diagnostic
import SingleShot.Proofs.Node
import SingleShot.Proofs.Readiness.Due
import SingleShot.Proofs.Readiness.Accepted
import SingleShot.Proofs.Program
import SingleShot.Proofs.Readiness.Discipline
import SingleShot.Proofs.Readiness.Bounded
import SingleShot.Proofs.Readiness.Rearranged
import SingleShot.Proofs.Payload.Layout
import SingleShot.Proofs.Session.Checks
import SingleShot.Proofs.Endpoint.Stored
import SingleShot.Proofs.CommandLine.Nodes
import SingleShot.Proofs.Duration.Printed
import SingleShot.Proofs.CommandLine.ShownDeadline
import SingleShot.Proofs.Node.Queue
