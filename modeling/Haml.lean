import Haml.Cache
import Haml.Evaluator.Table
import Haml.Main
import Haml.Proofs.Attribute.Folding
import Haml.Proofs.Compile.Suppressed
import Haml.Proofs.Render.Balance
import Haml.Proofs.Render.Paired
import Haml.Proofs.Render.Failure
import Haml.Proofs.Program.Place
import Haml.Proofs.Render.Corresponding
import Haml.Proofs.Text.Closed
import Haml.Proofs.Segment.RoundTrip
import Haml.Proofs.Header.Passed
import Haml.Proofs.Header.Written
import Haml.Proofs.Header.RoundTrip
import Haml.Proofs.Outline.Walk
import Haml.Proofs.Line.Indent
import Haml.Proofs.Line.Joined
import Haml.Proofs.Outline.Portion
import Haml.Proofs.Line.Moved
import Haml.Proofs.Outline.Order
import Haml.Proofs.Outline.Sketch
import Haml.Proofs.Render.Congruence
import Haml.Proofs.Render.Unrolled
import Haml.Proofs.Outline.Raised
import Haml.Proofs.Compile.Raised
import Haml.Proofs.Outline.Unit
import Haml.Proofs.Outline.Append
import Haml.Proofs.Compile.Append
import Haml.Proofs.Layout.Behind
import Haml.Proofs.Segment.Solid
import Haml.Proofs.Outline.Solid
import Haml.Proofs.Layout.Seam
import Haml.Proofs.Compile.Lines
import Haml.Proofs.Render.Seam
import Haml.Proofs.Render.Region
import Haml.Proofs.Attribute.Reading
import Haml.Proofs.Render.Inset
import Haml.Proofs.Render.Markup
import Haml.Proofs.Outline.Shut
import Haml.Proofs.Compile.Complete
import Haml.Proofs.Render.Literal
import Haml.Proofs.Render.Verbatim
import Haml.Proofs.Render.Quiet
import Haml.Proofs.Compile.Settled
import Haml.Proofs.Cache
import Haml.Proofs.Command.Checked
import Haml.Proofs.Line.Partition
import Haml.Proofs.Compile.Recorded
import Haml.Proofs.Line.Arguments
import Haml.Proofs.Header.Decoded
import Haml.Proofs.Header.Keyed
import Haml.Proofs.Attribute.Listed
import Haml.Proofs.Text.Breaks
import Haml.Proofs.Header.Groups
import Haml.Proofs.Outline.Codes
import Haml.Proofs.Compile.Listed
import Haml.Proofs.Line.Committed
import Haml.Proofs.Decimal.Whole
import Haml.Proofs.Compile.Unseen
import Haml.Proofs.Outline.Broken
import Haml.Proofs.Text.Replaced
import Haml.Proofs.Attribute.Ordered
import Haml.Proofs.Header.Spelled
import Haml.Proofs.Compile.Shorthand
import Haml.Proofs.Render.Asked
import Haml.Proofs.Render.Range
import Haml.Proofs.Render.Deferred
import Haml.Proofs.Header.Parts
import Haml.Proofs.Attribute.TypeName
import Haml.Proofs.Attribute.Static
import Haml.Proofs.Position.Document
