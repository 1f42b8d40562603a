import LexicalAnalyzer.Disk.Tree
import LexicalAnalyzer.Main
import LexicalAnalyzer.Sink
import LexicalAnalyzer.Proofs.Lexeme
import LexicalAnalyzer.Proofs.Munch
import LexicalAnalyzer.Proofs.Lexing
import LexicalAnalyzer.Proofs.LongestMatch
import LexicalAnalyzer.Proofs.LineReading
import LexicalAnalyzer.Proofs.CommentBlanks
import LexicalAnalyzer.Proofs.Tiling
import LexicalAnalyzer.Proofs.Splicing
import LexicalAnalyzer.Proofs.SourceReading
import LexicalAnalyzer.Proofs.Interning
import LexicalAnalyzer.Proofs.Diagnosis
import LexicalAnalyzer.Proofs.ArtifactDecoding
import LexicalAnalyzer.Proofs.Rescanning
import LexicalAnalyzer.Proofs.NormalText
import LexicalAnalyzer.Proofs.Rebuilding
import LexicalAnalyzer.Proofs.TableHistory
import LexicalAnalyzer.Proofs.FirstOccurrences
import LexicalAnalyzer.Proofs.StoreLaws
import LexicalAnalyzer.Proofs.ArtifactWriting
import LexicalAnalyzer.Proofs.EarlierResult
import LexicalAnalyzer.Proofs.GrowingSource
import LexicalAnalyzer.Proofs.NumeralLanguages
import LexicalAnalyzer.Proofs.NumeralScanning
import LexicalAnalyzer.Proofs.CommandOutcome
import LexicalAnalyzer.Proofs.CallOrder
import LexicalAnalyzer.Proofs.Lookahead
import LexicalAnalyzer.Proofs.TokenProgress
import LexicalAnalyzer.Proofs.OneLine
import LexicalAnalyzer.Proofs.LineEndings
import LexicalAnalyzer.Proofs.SinkWriting
import LexicalAnalyzer.Proofs.LossyDecoding
import LexicalAnalyzer.Proofs.ForeignBytes
import LexicalAnalyzer.Proofs.NumeralOverlap
import LexicalAnalyzer.Proofs.Encoding
import LexicalAnalyzer.Proofs.CursorRefinement
import LexicalAnalyzer.Proofs.SettingsSource
import LexicalAnalyzer.Proofs.Renaming
import LexicalAnalyzer.Proofs.CommentSkipping
