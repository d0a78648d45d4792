import SafeTemplate.Main
import SafeTemplate.Cli.Run
import SafeTemplate.Proofs.InjectionSafety
import SafeTemplate.Proofs.SpacedResidue
import SafeTemplate.Proofs.Composition
import SafeTemplate.Proofs.CutMarkup
import SafeTemplate.Proofs.Substitution
import SafeTemplate.Proofs.LiteralChar
import SafeTemplate.Proofs.Readability
import SafeTemplate.Proofs.QueryGrammar
import SafeTemplate.Proofs.Backticks
import SafeTemplate.Proofs.Trace
import SafeTemplate.Proofs.Building
import SafeTemplate.Proofs.CommandLine
import SafeTemplate.Proofs.ArgumentOrder
import SafeTemplate.Proofs.NestingLimit
import SafeTemplate.Proofs.PlainText
import SafeTemplate.Proofs.AmbientMarkup
import SafeTemplate.Proofs.StringLiterals
import SafeTemplate.Proofs.InlineTemplate
import SafeTemplate.Proofs.OrderedMembers
import SafeTemplate.Proofs.Loading
import SafeTemplate.Proofs.ImportDepth
import SafeTemplate.Proofs.EndlessImports
import SafeTemplate.Proofs.StyleSheets
import SafeTemplate.Proofs.TagReading
import SafeTemplate.Proofs.ImportedTags
import SafeTemplate.Proofs.Staleness
import SafeTemplate.Proofs.WritingBack
import SafeTemplate.Proofs.LineEnds
import SafeTemplate.Proofs.CharacterReferences
import SafeTemplate.Proofs.IntegerText
import SafeTemplate.Proofs.CodeUnits
import SafeTemplate.Proofs.ResidueShape
import SafeTemplate.Proofs.AttributeRuns
import SafeTemplate.Proofs.LongestRun
