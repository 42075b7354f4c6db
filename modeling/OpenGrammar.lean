import OpenGrammar.Main
import OpenGrammar.SlotTable.Operation
import OpenGrammar.Proofs.Fragment
import OpenGrammar.Proofs.RuleKinds
import OpenGrammar.Proofs.Scanning
import OpenGrammar.Proofs.Accessors
import OpenGrammar.Proofs.Blocks
import OpenGrammar.Proofs.Composing
import OpenGrammar.Proofs.RuleHeads
import OpenGrammar.Proofs.References
import OpenGrammar.Proofs.HiddenRules
import OpenGrammar.Proofs.Hygiene
import OpenGrammar.Proofs.SlotTables
import OpenGrammar.Proofs.SlotHistory
import OpenGrammar.Proofs.SlotLinks
import OpenGrammar.Proofs.ElementChains
import OpenGrammar.Proofs.RepeatedChains
import OpenGrammar.Proofs.FileTrees
import OpenGrammar.Proofs.PathComponents
import OpenGrammar.Proofs.PlainPaths
import OpenGrammar.Proofs.Artifacts
import OpenGrammar.Proofs.Printing
import OpenGrammar.Proofs.Outlines
import OpenGrammar.Proofs.LayoutPaths
import OpenGrammar.Proofs.ClassPaths
import OpenGrammar.Proofs.SharedOutputs
import OpenGrammar.Proofs.Runs
import OpenGrammar.Proofs.ForwardPaths
import OpenGrammar.Proofs.Alongside
import OpenGrammar.Proofs.Batches
import OpenGrammar.Proofs.ClassNames
import OpenGrammar.Proofs.RuleOrder
import OpenGrammar.Proofs.ClassReferences
import OpenGrammar.Proofs.ModuleReading
import OpenGrammar.Proofs.ModuleTables
import OpenGrammar.Proofs.TokenBoundaries
import OpenGrammar.Proofs.Replacement
import OpenGrammar.Proofs.Brackets
import OpenGrammar.Proofs.TrailingBlocks
import OpenGrammar.Proofs.Trimming
import OpenGrammar.Proofs.RealProductions
import OpenGrammar.Proofs.OnePass
import OpenGrammar.Proofs.EntrySplitting
import OpenGrammar.Proofs.EntryTexts
import OpenGrammar.Proofs.Rereading
import OpenGrammar.Proofs.Renaming
import OpenGrammar.Proofs.ByteOffsets
import OpenGrammar.Proofs.ByteTokens
import OpenGrammar.Proofs.TokenSlices
import OpenGrammar.Proofs.EntryOffsets
import OpenGrammar.Proofs.CommentedBlocks
import OpenGrammar.Proofs.TrailingComments
import OpenGrammar.Proofs.ReservedNames
import OpenGrammar.Proofs.AccessorCollisions
import OpenGrammar.Proofs.SnakeCase
import OpenGrammar.Proofs.Binding
import OpenGrammar.Proofs.Finds
import OpenGrammar.Proofs.BaseClassDirectives
import OpenGrammar.Proofs.SpreadDirectives
import OpenGrammar.Proofs.DirectiveReading
import OpenGrammar.Proofs.RequiredImports
import OpenGrammar.Proofs.MemberVariables
import OpenGrammar.Proofs.ImportLists
import OpenGrammar.Proofs.ImportMerging
import OpenGrammar.Proofs.RegexMatches
import OpenGrammar.Proofs.PatternReaders
import OpenGrammar.Proofs.ClassEnds
import OpenGrammar.Proofs.PatternEnds
import OpenGrammar.Proofs.GroupedPatterns
import OpenGrammar.Proofs.AnchoredPatterns
import OpenGrammar.Proofs.ReferencePlaces
import OpenGrammar.Proofs.WrittenClassNames
