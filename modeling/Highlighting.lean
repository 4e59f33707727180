import Highlighting.Grammar.Reader
import Highlighting.Main
import Highlighting.Pattern.Offset
import Highlighting.Proofs.Fallible
import Highlighting.Proofs.MatchBounds
import Highlighting.Proofs.ScanStep
import Highlighting.Proofs.TreeText
import Highlighting.Proofs.ScanText
import Highlighting.Proofs.CompiledIds
import Highlighting.Proofs.CompileEnds
import Highlighting.Proofs.Progress
import Highlighting.Proofs.RoundTrip
import Highlighting.Proofs.GroupNumbers
import Highlighting.Proofs.JoinedMatch
import Highlighting.Proofs.MovedExpressions
import Highlighting.Proofs.MovedReading
import Highlighting.Proofs.WhichRule
import Highlighting.Proofs.IllegalPolicies
import Highlighting.Proofs.TreeElements
import Highlighting.Proofs.BuilderCalls
import Highlighting.Proofs.Spans
import Highlighting.Proofs.ModeOrigins
import Highlighting.Proofs.Nonrecursive
import Highlighting.Proofs.ParentIndependence
import Highlighting.Proofs.InheritedEnds
import Highlighting.Proofs.EndChains
import Highlighting.Proofs.LexemeAccounts
import Highlighting.Proofs.Inlining
import Highlighting.Proofs.AlikeModes
import Highlighting.Proofs.AlikeLanguages
import Highlighting.Proofs.MirroredScans
import Highlighting.Proofs.LiteralPatterns
import Highlighting.Proofs.Failures
import Highlighting.Proofs.ScanLog
import Highlighting.Proofs.Relevance
import Highlighting.Proofs.Flushes
import Highlighting.Proofs.Lexemes
import Highlighting.Proofs.EmbeddedChunks
import Highlighting.Proofs.StackAndTree
import Highlighting.Proofs.EnclosedText
import Highlighting.Proofs.CompleteModes
import Highlighting.Proofs.RestartFree
import Highlighting.Proofs.RenamedTrees
import Highlighting.Proofs.UnrelatedLanguages
import Highlighting.Proofs.LastingResults
import Highlighting.Proofs.NormalForm
import Highlighting.Proofs.RankedCandidates
import Highlighting.Proofs.RegistryHistory
import Highlighting.Proofs.PlainPatterns
import Highlighting.Proofs.JoinedEnds
import Highlighting.Proofs.ExtendedEnds
import Highlighting.Proofs.LiteralMatches
import Highlighting.Proofs.Occurrences
import Highlighting.Proofs.WordPatterns
import Highlighting.Proofs.CaseFolding
import Highlighting.Proofs.KeywordLookup
import Highlighting.Proofs.BeginKeywords
import Highlighting.Proofs.BoundEnds
import Highlighting.Proofs.ValidGrammars
