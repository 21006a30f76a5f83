import TypeLint.Decl
import TypeLint.Disk
import TypeLint.Json.Grammar
import TypeLint.Json.Meaning
import TypeLint.Json.Number
import TypeLint.Json.Quoted
import TypeLint.Json.Schema
import TypeLint.Json.Token
import TypeLint.Json.Value
import TypeLint.Meaning
import TypeLint.Name
import TypeLint.Proofs.Disk
import TypeLint.Proofs.Json.Document
import TypeLint.Proofs.Json.Machine
import TypeLint.Proofs.Json.Number
import TypeLint.Proofs.Json.Quoted
import TypeLint.Proofs.Json.RoundTrip
import TypeLint.Proofs.Json.Scan
import TypeLint.Proofs.Json.Schema
import TypeLint.Proofs.Json.Universe
import TypeLint.Proofs.Name
import TypeLint.Proofs.Rule.Extended
import TypeLint.Proofs.Rule.Line
import TypeLint.Proofs.Rule.Run
import TypeLint.Proofs.Rule.Trace
import TypeLint.Proofs.Rule.Verdict
import TypeLint.Proofs.Schema
import TypeLint.Proofs.Session
import TypeLint.Proofs.Snapshot.Appended
import TypeLint.Proofs.Snapshot.Balance
import TypeLint.Proofs.Snapshot.Cut
import TypeLint.Proofs.Snapshot.Layout
import TypeLint.Proofs.Snapshot.Machine
import TypeLint.Proofs.Snapshot.Number
import TypeLint.Proofs.Snapshot.Outline
import TypeLint.Proofs.Snapshot.Prefix
import TypeLint.Proofs.Snapshot.Quoted
import TypeLint.Proofs.Snapshot.Relaid
import TypeLint.Proofs.Snapshot.RoundTrip
import TypeLint.Proofs.Snapshot.Scan
import TypeLint.Proofs.Snapshot.Schema
import TypeLint.Proofs.Snapshot.Spelling
import TypeLint.Proofs.Tag.Bytes
import TypeLint.Proofs.Tag.Entry
import TypeLint.Proofs.Tag.Literal
import TypeLint.Proofs.Tag.Lookup
import TypeLint.Proofs.Tag.Parting
import TypeLint.Proofs.Tag.Scanned
import TypeLint.Proofs.Tag.Splitting
import TypeLint.Proofs.Tag.Table
import TypeLint.Proofs.Tag.Written
import TypeLint.Proofs.Text.Decimal
import TypeLint.Proofs.Text.Digit
import TypeLint.Proofs.Text.Order
import TypeLint.Proofs.Text.Run
import TypeLint.Proofs.Text.Utf8
import TypeLint.Proofs.Universe
import TypeLint.Rule.Basic
import TypeLint.Rule.Event
import TypeLint.Rule.Metadata
import TypeLint.RuleSet
import TypeLint.Schema
import TypeLint.Session
import TypeLint.Snapshot.Byte
import TypeLint.Snapshot.Grammar
import TypeLint.Snapshot.Layout
import TypeLint.Snapshot.Meaning
import TypeLint.Snapshot.Number
import TypeLint.Snapshot.Outline
import TypeLint.Snapshot.Quoted
import TypeLint.Snapshot.Schema
import TypeLint.Snapshot.Token
import TypeLint.Snapshot.Value
import TypeLint.Tag.Bytes
import TypeLint.Tag.Entry
import TypeLint.Tag.Grammar
import TypeLint.Tag.Literal
import TypeLint.Tag.Lookup
import TypeLint.Tag.Word32
import TypeLint.Text.Decimal
import TypeLint.Text.Digit
import TypeLint.Text.Invisible
import TypeLint.Text.Utf8
import TypeLint.Universe
