import ProjectLens.Expression.Parts
import ProjectLens.Lookup.Scan
import ProjectLens.Main
import ProjectLens.Proofs.Derivation
import ProjectLens.Proofs.Reading
import ProjectLens.Proofs.Soundness
import ProjectLens.Text.Find
import ProjectLens.Proofs.Nesting
import ProjectLens.Proofs.Completeness
import ProjectLens.Proofs.Lists
import ProjectLens.Proofs.Placement
import ProjectLens.Proofs.Lookup
import ProjectLens.Proofs.Cursors
import ProjectLens.Proofs.Scanning
import ProjectLens.Proofs.Stages
import ProjectLens.Proofs.Arena
import ProjectLens.Proofs.Elements
import ProjectLens.Proofs.Building
import ProjectLens.Proofs.Offsets
import ProjectLens.Proofs.Documents
import ProjectLens.Proofs.Recovery
import ProjectLens.Proofs.Trees
import ProjectLens.Proofs.RoundTrip
import ProjectLens.Proofs.Laminar
import ProjectLens.Proofs.Places
import ProjectLens.Proofs.Deepest
import ProjectLens.Proofs.Innermost
import ProjectLens.Proofs.Origins
import ProjectLens.Proofs.UnderCursor
import ProjectLens.Proofs.Spelling
import ProjectLens.Proofs.LineSearch
import ProjectLens.Proofs.Progress
import ProjectLens.Proofs.SingleItem
import ProjectLens.Proofs.Trimming
import ProjectLens.Proofs.Semicolons
import ProjectLens.Proofs.Separators
import ProjectLens.Proofs.Selection
import ProjectLens.Proofs.Reports
import ProjectLens.Proofs.Inventory
import ProjectLens.Proofs.Containment
import ProjectLens.Proofs.Receivers
import ProjectLens.Proofs.Queries
import ProjectLens.Proofs.Links
import ProjectLens.Proofs.Failures
import ProjectLens.Proofs.Splitting
import ProjectLens.Proofs.ByteSearch
import ProjectLens.Proofs.Shapes
import ProjectLens.Proofs.TextRuns
import ProjectLens.Proofs.ListSlots
import ProjectLens.Proofs.Subtrees
import ProjectLens.Proofs.ItemCursor
import ProjectLens.Proofs.DeepestChain
import ProjectLens.Proofs.QuotedText
import ProjectLens.Proofs.Surroundings
import ProjectLens.Proofs.Moving
import ProjectLens.Proofs.Parentheses
import ProjectLens.Proofs.SpanRanges
import ProjectLens.Proofs.Lowering
import ProjectLens.Proofs.Ancestry
import ProjectLens.Proofs.Linking
import ProjectLens.Proofs.Paths
import ProjectLens.Proofs.Regions
import ProjectLens.Proofs.Drawing
import ProjectLens.Proofs.Growing
import ProjectLens.Proofs.OutlineLines
import ProjectLens.Proofs.ModelOutlines
import ProjectLens.Proofs.Labels
import ProjectLens.Proofs.TreeOutlines
import ProjectLens.Proofs.SettingLayers
import ProjectLens.Proofs.Precedence
import ProjectLens.Proofs.Bases
import ProjectLens.Proofs.RangeChanges
import ProjectLens.Lookup.Table
import ProjectLens.Proofs.ForestRows
import ProjectLens.Proofs.OnePass
import ProjectLens.Proofs.ForestTable
import ProjectLens.Proofs.Scripts
import ProjectLens.Proofs.Steady
import ProjectLens.Proofs.WrittenGrammar
import ProjectLens.Proofs.GrammarProgress
import ProjectLens.Proofs.TableSearch
import ProjectLens.Model.Assembly
import ProjectLens.Proofs.Assembling
import ProjectLens.Proofs.SiblingPass
