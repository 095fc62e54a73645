import GrammarLayers.Command.Arguments
import GrammarLayers.Command.Display
import GrammarLayers.Command.Session
import GrammarLayers.Fragment.Block
import GrammarLayers.Fragment.Cursor
import GrammarLayers.Fragment.Fault
import GrammarLayers.Fragment.Production
import GrammarLayers.Fragment.Signature
import GrammarLayers.Fragment.Token
import GrammarLayers.Layer.Assembly
import GrammarLayers.Layer.Failure
import GrammarLayers.Layer.Listing
import GrammarLayers.Layer.Route
import GrammarLayers.Main
import GrammarLayers.Manifest
import GrammarLayers.Merge.Grammar
import GrammarLayers.Merge.Lexicon
import GrammarLayers.Merge.TokenTable
import GrammarLayers.Render.Json
import GrammarLayers.Render.Output
import GrammarLayers.Render.Sections
import GrammarLayers.Table.Entry
import GrammarLayers.Text.Blank
import GrammarLayers.Text.CaseTable
import GrammarLayers.Text.CodePoints
import GrammarLayers.Text.Extender
import GrammarLayers.Text.Position
import GrammarLayers.Text.Quoted
import GrammarLayers.Text.Unprintable
import GrammarLayers.Text.UpperCase
import GrammarLayers.Tree.Changes
import GrammarLayers.Tree.Directory
import GrammarLayers.Tree.FileTree
import GrammarLayers.Tree.Path
import GrammarLayers.Tree.SystemError
import GrammarLayers.Tree.Walk
import GrammarLayers.Yaml.Input
import GrammarLayers.Yaml.Lexer
import GrammarLayers.Yaml.Node
import GrammarLayers.Yaml.Scalar
import GrammarLayers.Yaml.Token
import GrammarLayers.Proofs.Fragment.BlockGrammar
import GrammarLayers.Proofs.Fragment.CharacterReading
import GrammarLayers.Proofs.Fragment.SignatureForm
import GrammarLayers.Proofs.Fragment.Alignment
import GrammarLayers.Proofs.Fragment.Capture
import GrammarLayers.Proofs.Text.Place
import GrammarLayers.Proofs.Fragment.FirstFault
import GrammarLayers.Proofs.Merge.Order
import GrammarLayers.Proofs.Text.ByteOrder
import GrammarLayers.Proofs.Text.UpperCase
import GrammarLayers.Proofs.Layer.Loading
import GrammarLayers.Proofs.Merge.Index
import GrammarLayers.Proofs.Layer.FragmentOrder
import GrammarLayers.Proofs.Layer.Overriding
import GrammarLayers.Proofs.Tree.Looking
import GrammarLayers.Proofs.Layer.TokenOrder
import GrammarLayers.Proofs.Layer.Inheritance
import GrammarLayers.Proofs.Fragment.TokenForm
import GrammarLayers.Proofs.Fragment.Outcome
import GrammarLayers.Proofs.Fragment.Surroundings
import GrammarLayers.Proofs.Fragment.Concatenation
import GrammarLayers.Proofs.Fragment.SelfDelimiting
import GrammarLayers.Proofs.Render.ReadBack
import GrammarLayers.Proofs.Tree.Naming
import GrammarLayers.Proofs.Tree.Following
import GrammarLayers.Proofs.Tree.WellNamed
import GrammarLayers.Proofs.Layer.Listed
import GrammarLayers.Proofs.Table.Entries
import GrammarLayers.Proofs.Layer.Visits
import GrammarLayers.Proofs.Layer.Agreement
import GrammarLayers.Proofs.Layer.Counting
import GrammarLayers.Proofs.Layer.Provenance
import GrammarLayers.Proofs.Tree.Making
import GrammarLayers.Proofs.Table.Lines
import GrammarLayers.Proofs.Layer.Atomicity
import GrammarLayers.Proofs.Layer.FaultLine
import GrammarLayers.Proofs.Merge.History
import GrammarLayers.Proofs.Text.PlaceOrder
import GrammarLayers.Proofs.Text.Trimming
import GrammarLayers.Proofs.Table.NormalForm
import GrammarLayers.Proofs.Render.TokenLines
import GrammarLayers.Proofs.Fragment.PlainText
import GrammarLayers.Proofs.Render.NonReserved
import GrammarLayers.Proofs.Fragment.Passage
import GrammarLayers.Proofs.Render.JsonReading
import GrammarLayers.Proofs.Layer.Way
import GrammarLayers.Proofs.Command.Effects
import GrammarLayers.Proofs.Text.Pattern
import GrammarLayers.Proofs.Fragment.SignaturePattern
import GrammarLayers.Proofs.Fragment.Counters
import GrammarLayers.Proofs.Table.LineEndings
