import SchemaToGo.Main
import SchemaToGo.Proofs.Workshop.Step
import SchemaToGo.Proofs.Document.Members
import SchemaToGo.Proofs.Workshop.Calls
import SchemaToGo.Proofs.Workshop.Run
import SchemaToGo.Proofs.Go.Word
import SchemaToGo.Proofs.Naming
import SchemaToGo.Proofs.Workshop.Promises
import SchemaToGo.Proofs.Workshop.Origins
import SchemaToGo.Proofs.Workshop.Keeping
import SchemaToGo.Proofs.Pointer
import SchemaToGo.Proofs.Workshop.Targets
import SchemaToGo.Proofs.Declarations
import SchemaToGo.Proofs.Json.Returns
import SchemaToGo.Proofs.Schema.Keyed
import SchemaToGo.Proofs.Go.File.Types
import SchemaToGo.Proofs.Go.File.Items
import SchemaToGo.Proofs.Go.Tag
import SchemaToGo.Proofs.Go.Reading
import SchemaToGo.Proofs.Go.Token.Cuts
import SchemaToGo.Proofs.Generate
import SchemaToGo.Proofs.Go.File.Reads
import SchemaToGo.Proofs.Go.File.Parse
import SchemaToGo.Proofs.Go.Grammar
import SchemaToGo.Proofs.Go.Columns
import SchemaToGo.Proofs.Go.Columns.Blocks
import SchemaToGo.Proofs.Go.File.Proper
import SchemaToGo.Proofs.Go.File.Marks
import SchemaToGo.Proofs.Go.File.Layout
import SchemaToGo.Proofs.Go.File.Canonical
import SchemaToGo.Proofs.Go.File.Reread
import SchemaToGo.Proofs.Go.Format
import SchemaToGo.Proofs.Go.File.Solitary
import SchemaToGo.Proofs.Go.Render
import SchemaToGo.Proofs.Declarations.Growth
import SchemaToGo.Proofs.Document.References
import SchemaToGo.Proofs.Document.Lookup
import SchemaToGo.Proofs.Workshop.Complaints
import SchemaToGo.Proofs.Declarations.Cycles
import SchemaToGo.Proofs.Json.Grammar
import SchemaToGo.Proofs.Json.Reads
import SchemaToGo.Proofs.Json.StringLiteral
import SchemaToGo.Proofs.Json.NumberLiteral
import SchemaToGo.Proofs.Schema.Order
import SchemaToGo.Proofs.Json.Takes
import SchemaToGo.Proofs.Schema.Location
import SchemaToGo.Proofs.Schema.Inside
import SchemaToGo.Proofs.Schema.Form
import SchemaToGo.Proofs.Schema.Misfits
import SchemaToGo.Proofs.Workshop.Nullable
import SchemaToGo.Proofs.Workshop.Fields
import SchemaToGo.Proofs.Go.Package
import SchemaToGo.Proofs.Run
import SchemaToGo.Proofs.Go.Tag.Reading
import SchemaToGo.Proofs.Text.Casing
import SchemaToGo.Proofs.Text.CamelCase
import SchemaToGo.Proofs.Go.Casing
import SchemaToGo.Proofs.Naming.Exported
import SchemaToGo.Proofs.Naming.Camel
import SchemaToGo.Proofs.Naming.Free
import SchemaToGo.Proofs.Workshop.Nested
import SchemaToGo.Proofs.Go.Token.CarriageReturns
import SchemaToGo.Proofs.Go.LineEnds
import SchemaToGo.Proofs.Go.BlankLines
import SchemaToGo.Proofs.Go.File.Drawing
import SchemaToGo.Proofs.Go.CanonicalLines
import SchemaToGo.Proofs.Go.Token.Reached
import SchemaToGo.Proofs.Go.File.Refusal
import SchemaToGo.Proofs.Go.Refusal
import SchemaToGo.Proofs.Position.Lines
import SchemaToGo.Proofs.Declarations.Order
import SchemaToGo.Proofs.Go.Token.Occurrences
import SchemaToGo.Proofs.Schema.EnclosingKey
import SchemaToGo.Proofs.Json.Keys
import SchemaToGo.Proofs.Workshop.Framing
