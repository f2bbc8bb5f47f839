import ByteSplice.Json.Document
import ByteSplice.Main
import ByteSplice.Session
import ByteSplice.Proofs.Execution
import ByteSplice.Proofs.Preview
import ByteSplice.Proofs.Session.HeldPlans
import ByteSplice.Proofs.Session.AuditTrail
import ByteSplice.Proofs.Session.Restraint
import ByteSplice.Proofs.FileExecution
import ByteSplice.Proofs.Session.FileMirror
import ByteSplice.Proofs.CommandLine
import ByteSplice.Proofs.CharacterCode
import ByteSplice.Proofs.TextReplacement
import ByteSplice.Proofs.Json.Grammar
import ByteSplice.Proofs.Json.Members
import ByteSplice.Proofs.Json.Reading
import ByteSplice.Proofs.Json.RoundTrip
import ByteSplice.Proofs.Decision
import ByteSplice.Proofs.Positions
import ByteSplice.Proofs.Independence
import ByteSplice.Proofs.Scan.Optimality
import ByteSplice.Proofs.Scan.Stepwise
import ByteSplice.Proofs.Scan.Composition
import ByteSplice.Proofs.Fusion
import ByteSplice.Proofs.Removal
import ByteSplice.Proofs.Hexadecimal
import ByteSplice.Proofs.Concatenation
import ByteSplice.Proofs.Json.Skipping
import ByteSplice.Proofs.Json.MemberOrder
import ByteSplice.Proofs.Placement
import ByteSplice.Proofs.MachineWords
import ByteSplice.Proofs.Session.Course
import ByteSplice.Proofs.Settings
import ByteSplice.Machine
import ByteSplice.Proofs.MachineWords
