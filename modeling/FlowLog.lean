import FlowLog.Main
import FlowLog.Proofs.Arrangement
import FlowLog.Proofs.Independence
import FlowLog.Proofs.Growth
import FlowLog.Proofs.Balance
import FlowLog.Proofs.History
import FlowLog.Proofs.Intake
import FlowLog.Proofs.Streaming
import FlowLog.Proofs.Calendar
import FlowLog.Proofs.Digits
import FlowLog.Proofs.Encoding
import FlowLog.Proofs.Instants
import FlowLog.Proofs.Documents
import FlowLog.Proofs.Records
import FlowLog.Proofs.Events
import FlowLog.Proofs.RoundTrip
import FlowLog.Proofs.Objects
import FlowLog.Proofs.Offers
import FlowLog.Proofs.FirstOccurrences
import FlowLog.Proofs.Merging
import FlowLog.Proofs.ByteOrder
import FlowLog.Proofs.Keys
import FlowLog.Proofs.Relabeling
import FlowLog.Proofs.Splitting
import FlowLog.Proofs.Years
import FlowLog.Proofs.WrittenForm
import FlowLog.Proofs.Parsing
import FlowLog.Proofs.Microseconds
import FlowLog.Proofs.Lexemes
import FlowLog.Proofs.Derivations
import FlowLog.Proofs.Decoding
import FlowLog.Proofs.FileForms
import FlowLog.Proofs.Defects
import FlowLog.Proofs.CanonicalRecords
import FlowLog.Proofs.Ingestion
import FlowLog.Proofs.Lifetimes
import FlowLog.Proofs.Views
import FlowLog.Proofs.Turns
import FlowLog.Proofs.WellTyped
import FlowLog.Proofs.Exchange
import FlowLog.Proofs.Chronology
import FlowLog.Proofs.Rankings
import FlowLog.Proofs.LineEndings
import FlowLog.Proofs.LeadingBlanks
import FlowLog.Proofs.FileMerging
import FlowLog.Proofs.CommandLines
import FlowLog.Proofs.Layout
import FlowLog.Proofs.Configurations
import FlowLog.Proofs.Listings
import FlowLog.Proofs.RecordForms
import FlowLog.Proofs.Reports
import FlowLog.Proofs.Insertions
