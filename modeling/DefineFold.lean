import DefineFold.Text.Letter
import DefineFold.Text.Quoted
import DefineFold.Text.Units
import DefineFold.Number.Text
import DefineFold.Number.Decimal
import DefineFold.Value.Graph
import DefineFold.Json.Reader
import DefineFold.Json.Writer
import DefineFold.Tree.Fault
import DefineFold.Tree.Written
import DefineFold.Tree.Chain
import DefineFold.Primitive.Operator
import DefineFold.Defines.Table
import DefineFold.Edit.Basic
import DefineFold.Pass.Run
import DefineFold.Files.Store
import DefineFold.Yaml.Document
import DefineFold.Command.Run
import DefineFold.Tree.Record
import DefineFold.Main
import DefineFold.Proofs.Pass.FoldedRun
import DefineFold.Proofs.Pass.Words
import DefineFold.Proofs.Edit.Neighbours
import DefineFold.Proofs.Value.Literal
import DefineFold.Proofs.Defines.Resolution
import DefineFold.Proofs.Defines.Typeof
import DefineFold.Proofs.Pass.Provenance
import DefineFold.Proofs.Pass.Chains
import DefineFold.Proofs.Pass.Statements
import DefineFold.Proofs.Pass.Targets
import DefineFold.Proofs.Pass.Falsy
import DefineFold.Proofs.Pass.Names
import DefineFold.Proofs.Pass.Parentheses
import DefineFold.Proofs.Text.Quoted
import DefineFold.Proofs.Text.Spelling
import DefineFold.Proofs.Text.Decoded
import DefineFold.Proofs.Value.Sign
import DefineFold.Proofs.Value.Unambiguous
import DefineFold.Proofs.Pass.Decrement
import DefineFold.Proofs.Value.Sharing
import DefineFold.Proofs.Defines.Namespaces
import DefineFold.Proofs.Command.Directory
import DefineFold.Proofs.Files.Collection
import DefineFold.Proofs.Primitive.Prefixed
import DefineFold.Proofs.Primitive.Numeric
import DefineFold.Proofs.Primitive.Comparison
import DefineFold.Proofs.Primitive.Bitwise
import DefineFold.Proofs.Text.Template
import DefineFold.Proofs.Command.Snapshot
import DefineFold.Proofs.Defines.Dotted
import DefineFold.Proofs.Pass.Spellings
import DefineFold.Proofs.Pass.TypeofLinks
import DefineFold.Proofs.Text.Identifier
import DefineFold.Proofs.Text.Units
import DefineFold.Proofs.Value.Keys
import DefineFold.Proofs.Edit.History
import DefineFold.Proofs.Pass.Finite
