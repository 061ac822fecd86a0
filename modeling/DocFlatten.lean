import DocFlatten.Attribute.AttrList
import DocFlatten.Attribute.Entry
import DocFlatten.Attribute.Given
import DocFlatten.Attribute.Reference
import DocFlatten.Command
import DocFlatten.Command.Includes
import DocFlatten.Command.Outcome
import DocFlatten.Command.Reduce
import DocFlatten.Command.ShowSettings
import DocFlatten.CommandLine.Grammar
import DocFlatten.CommandLine.Invocation
import DocFlatten.Condition
import DocFlatten.Config.Bundle
import DocFlatten.Config.Cache
import DocFlatten.Config.DataFile
import DocFlatten.Config.Layers
import DocFlatten.Config.Override
import DocFlatten.Config.Schema
import DocFlatten.Config.Settings
import DocFlatten.Config.Validation
import DocFlatten.Delivery
import DocFlatten.Directive
import DocFlatten.Document.Basic
import DocFlatten.Document.LineShape
import DocFlatten.Document.Load
import DocFlatten.Document.Scan
import DocFlatten.Event
import DocFlatten.Failure
import DocFlatten.FileTree
import DocFlatten.IncludeMap
import DocFlatten.Log.Format
import DocFlatten.Log.Output
import DocFlatten.Log.Record
import DocFlatten.Main
import DocFlatten.Mapping
import DocFlatten.Number.Decimal
import DocFlatten.Number.Integer
import DocFlatten.Path
import DocFlatten.Reader
import DocFlatten.Reduction
import DocFlatten.Replacement.Drops
import DocFlatten.Replacement.Replay
import DocFlatten.Replacement.Tracker
import DocFlatten.Replacement.Tree
import DocFlatten.SafeMode
import DocFlatten.Selection
import DocFlatten.Selection.Ranges
import DocFlatten.Selection.Tags
import DocFlatten.Session
import DocFlatten.Text.Blank
import DocFlatten.Text.CodeRange
import DocFlatten.Text.Digit
import DocFlatten.Text.LetterCase
import DocFlatten.Text.Lines
import DocFlatten.Text.Printable
import DocFlatten.Text.Quoted
import DocFlatten.Text.Utf8
import DocFlatten.Text.Word
import DocFlatten.Value
import DocFlatten.Value.Json
import DocFlatten.Value.Merge
import DocFlatten.Proofs.Drops
import DocFlatten.Proofs.Expansion
import DocFlatten.Proofs.Looking
import DocFlatten.Proofs.Scanning
import DocFlatten.Proofs.Loading
import DocFlatten.Proofs.Locating
import DocFlatten.Proofs.Skipping
import DocFlatten.Proofs.Entering
import DocFlatten.Proofs.Measuring
import DocFlatten.Proofs.Ending
import DocFlatten.Proofs.AlteredContents
import DocFlatten.Proofs.Altering
import DocFlatten.Proofs.Recording
import DocFlatten.Proofs.DirectiveLines
import DocFlatten.Proofs.Following
import DocFlatten.Proofs.Accounting
import DocFlatten.Proofs.Shadowing
import DocFlatten.Proofs.Reducing
import DocFlatten.Proofs.Flattening
import DocFlatten.Proofs.Placing
import DocFlatten.Proofs.Absorbing
import DocFlatten.Proofs.Rebuilding
import DocFlatten.Proofs.Recasting
import DocFlatten.Proofs.Reopening
import DocFlatten.Proofs.Listing
import DocFlatten.Proofs.Outlining
import DocFlatten.Proofs.Repeating
import DocFlatten.Proofs.Preserving
import DocFlatten.Proofs.Reckoning
import DocFlatten.Proofs.Mirroring
import DocFlatten.Proofs.Departing
import DocFlatten.Proofs.Reloading
import DocFlatten.Proofs.Cataloguing
import DocFlatten.Proofs.Leaves
import DocFlatten.Proofs.Merging
import DocFlatten.Proofs.Provenance
import DocFlatten.Proofs.Settling
import DocFlatten.Proofs.Sealing
import DocFlatten.Proofs.Moving
import DocFlatten.Proofs.Moments
import DocFlatten.Proofs.Advancing
import DocFlatten.Proofs.References
import DocFlatten.Proofs.LevelOffsets
import DocFlatten.Proofs.Positions
import DocFlatten.Proofs.Gathering
import DocFlatten.Proofs.Pinpointing
import DocFlatten.Proofs.Unfolding
import DocFlatten.Proofs.Conforming
import DocFlatten.Proofs.Concluding
import DocFlatten.Proofs.Accepting
import DocFlatten.Proofs.Statuses
import DocFlatten.Proofs.Refusing
import DocFlatten.Proofs.Precedence
import DocFlatten.Proofs.Peeking
import DocFlatten.Proofs.Inserting
import DocFlatten.Proofs.Nesting
import DocFlatten.Proofs.Vetting
import DocFlatten.Proofs.Numbering
import DocFlatten.Proofs.Regions
import DocFlatten.Proofs.Excluding
import DocFlatten.Proofs.Cutting
import DocFlatten.Proofs.AttributeLists
import DocFlatten.Proofs.Comparing
import DocFlatten.Proofs.Overriding
import DocFlatten.Proofs.Caching
import DocFlatten.Proofs.Indexing
