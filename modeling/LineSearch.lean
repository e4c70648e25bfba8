import LineSearch.Main
import LineSearch.Proofs.Consumption
import LineSearch.Proofs.FirstMatch
import LineSearch.Proofs.FreeRepetition
import LineSearch.Proofs.Spelling
import LineSearch.Proofs.SpellingUnique
import LineSearch.Proofs.Between
import LineSearch.Proofs.Reading
import LineSearch.Proofs.SpellingRead
import LineSearch.Proofs.ReadingSpelt
import LineSearch.Proofs.CompiledSpelling
import LineSearch.Proofs.CanonicalTree
import LineSearch.Proofs.WrittenTree
import LineSearch.Proofs.CapturedSpans
import LineSearch.Proofs.ReportedMatch
import LineSearch.Proofs.GreedyOrder
import LineSearch.Proofs.Width
import LineSearch.Proofs.EarliestError
import LineSearch.Proofs.DirectOutput
import LineSearch.Proofs.OutputLimit
import LineSearch.Proofs.BufferedOutput
import LineSearch.Proofs.LossyText
import LineSearch.Proofs.LineCuts
import LineSearch.Proofs.LineFilter
import LineSearch.Proofs.DirectoryWalk
import LineSearch.Proofs.ExitCode
import LineSearch.Proofs.SearchedFiles
import LineSearch.Proofs.RightRecursion
import LineSearch.Proofs.Termination
import LineSearch.Proofs.LeadingAnchor
import LineSearch.Proofs.OptionalGroup
import LineSearch.Proofs.Window
import LineSearch.Proofs.EmptyCapture
import LineSearch.Proofs.PassiveCaptures
import LineSearch.Proofs.SingleWay
import LineSearch.Proofs.VerbatimText
import LineSearch.Proofs.JoinedTexts
import LineSearch.Proofs.BlamedCharacter
import LineSearch.Proofs.DecodedLines
import LineSearch.Proofs.ChainedSearches
import LineSearch.Proofs.MissingGroup
import LineSearch.Proofs.InRange
import LineSearch.Proofs.ReaderAdvance
