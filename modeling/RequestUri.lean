import RequestUri.Command.Outcome
import RequestUri.Document.Tree
import RequestUri.Json.Reader
import RequestUri.Main
import RequestUri.Path.Draft
import RequestUri.Proofs.Address
import RequestUri.Proofs.Buckets
import RequestUri.Proofs.Clause
import RequestUri.Proofs.Course
import RequestUri.Proofs.Edits
import RequestUri.Proofs.FirstFault
import RequestUri.Proofs.Labels
import RequestUri.Proofs.LeastVersion
import RequestUri.Proofs.Operand
import RequestUri.Proofs.Reader
import RequestUri.Proofs.Unambiguous
import RequestUri.Proofs.Visit
import RequestUri.Proofs.Answer
import RequestUri.Proofs.ServiceRoot
import RequestUri.Proofs.MovedArguments
import RequestUri.Proofs.PathEnd
import RequestUri.Proofs.PathReader
import RequestUri.Proofs.ReadablePath
import RequestUri.Proofs.Growth
import RequestUri.Proofs.Influence
import RequestUri.Proofs.Beginning
import RequestUri.Proofs.QueryKeys
import RequestUri.Proofs.Binding
import RequestUri.Proofs.Containment
import RequestUri.Proofs.DocumentTrees
import RequestUri.Proofs.DocumentForm
import RequestUri.Proofs.VersionText
import RequestUri.Proofs.DocumentRoundTrip
import RequestUri.Proofs.Obstacle
import RequestUri.Proofs.Nesting
import RequestUri.Proofs.KeyValues
import RequestUri.Proofs.OutermostKey
import RequestUri.Proofs.Turns
import RequestUri.Proofs.Aggregates
import RequestUri.Proofs.ShortestDecimal
import RequestUri.Proofs.NearestWhole
import RequestUri.Proofs.Attachment
import RequestUri.Proofs.Parentheses
import RequestUri.Proofs.SafeStrings
import RequestUri.Proofs.WholeNumbers
import RequestUri.Proofs.Classification
import RequestUri.Proofs.TidyPath
import RequestUri.Proofs.BareLiterals
import RequestUri.Proofs.DocumentParts
import RequestUri.Proofs.UncheckedFlags
