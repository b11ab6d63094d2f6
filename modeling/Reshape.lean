import Reshape.Text.Lines
import Reshape.Text.Slug
import Reshape.Text.Utf8
import Reshape.Value.Text
import Reshape.Json.Reader
import Reshape.Json.Writer
import Reshape.Converter.Builtin
import Reshape.Evaluation
import Reshape.Log
import Reshape.Session
import Reshape.Yaml.Document
import Reshape.Command
import Reshape.Main
import Reshape.Proofs.Cycles
import Reshape.Proofs.Parts
import Reshape.Proofs.Reachability
import Reshape.Proofs.RuleText
import Reshape.Proofs.Descriptions
import Reshape.Proofs.Runs
import Reshape.Proofs.Compilation
import Reshape.Proofs.Acceptance
import Reshape.Proofs.Faults
import Reshape.Proofs.Nesting
import Reshape.Proofs.Reading
import Reshape.Proofs.Rendering
import Reshape.Proofs.Histories
import Reshape.Proofs.Rulewise
import Reshape.Proofs.Inlining
import Reshape.Proofs.LateBinding
import Reshape.Proofs.Merging
import Reshape.Proofs.Numerals
import Reshape.Proofs.Reserved
import Reshape.Proofs.Rounding
import Reshape.Proofs.Layout
import Reshape.Proofs.Bytes
import Reshape.Proofs.JsonText
import Reshape.Proofs.Saving
import Reshape.Proofs.PathForms
import Reshape.Proofs.Agreement
import Reshape.Proofs.Reordering
import Reshape.Proofs.Stages
import Reshape.Proofs.Applying
import Reshape.Proofs.JsonValues
import Reshape.Proofs.Refusals
import Reshape.Proofs.Unreached
import Reshape.Proofs.Circling
import Reshape.Proofs.Defects
import Reshape.Proofs.StandIns
import Reshape.Proofs.Elements
import Reshape.Proofs.Provenance
import Reshape.Proofs.LongIntegers
import Reshape.Proofs.LineNumbers
import Reshape.Proofs.Listing
import Reshape.Proofs.Flattening
import Reshape.Proofs.Registering
import Reshape.Proofs.SlugWords
import Reshape.Proofs.TableLaws
import Reshape.Proofs.TableText
import Reshape.Proofs.Cells
import Reshape.Proofs.PlainTables
import Reshape.Proofs.Exporting
