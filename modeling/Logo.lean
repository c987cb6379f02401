import Logo.Main
import Logo.Node.Same
import Logo.Proofs.Effect
import Logo.Proofs.Composition
import Logo.Proofs.Operation
import Logo.Proofs.Frames
import Logo.Proofs.ExitRequest
import Logo.Proofs.NestingLimit
import Logo.Proofs.NestingBound
import Logo.Proofs.Parameters
import Logo.Proofs.CallerScope
import Logo.Proofs.LongestMatch
import Logo.Proofs.Pieces
import Logo.Proofs.Columns
import Logo.Proofs.OneLine
import Logo.Proofs.RawList
import Logo.Proofs.Spelling
import Logo.Proofs.Canonical
import Logo.Proofs.Words
import Logo.Proofs.BlockText
import Logo.Proofs.Grammar
import Logo.Proofs.LastPass
import Logo.Proofs.BracketDepth
import Logo.Proofs.Definitions
import Logo.Proofs.Places
import Logo.Proofs.Shape
import Logo.Proofs.Aliases
import Logo.Proofs.Boundaries
import Logo.Proofs.WholeLines
import Logo.Proofs.Hoisting
import Logo.Proofs.Joining
import Logo.Proofs.Respelling
import Logo.Proofs.BetweenSpaces
import Logo.Proofs.Rereading
import Logo.Proofs.LowerCase
import Logo.Proofs.NamedEntries
import Logo.Proofs.TableWrites
import Logo.Proofs.EnoughInputs
import Logo.Proofs.BlockExit
import Logo.Proofs.TemplateExit
import Logo.Proofs.Positions
import Logo.Proofs.Nesting
import Logo.Proofs.Failures
import Logo.Proofs.Operands
import Logo.Proofs.Rules
import Logo.Proofs.NotANumber
import Logo.Proofs.TemplateSlot
import Logo.Proofs.MaximalMunch
import Logo.Proofs.ReadList
import Logo.Proofs.TemplateRuns
import Logo.Proofs.Precedence
import Logo.Proofs.Rounding
import Logo.Proofs.ExactArithmetic
import Logo.Proofs.Comparison
import Logo.Proofs.Equality
import Logo.Proofs.ReadByName
import Logo.Proofs.Numerals
import Logo.Proofs.Selectors
import Logo.Proofs.NumberTexts
import Logo.Proofs.TreeLines
import Logo.Proofs.Trees
