import PartProgram.Interpreter
import PartProgram.Main
import PartProgram.Proofs.Run
import PartProgram.Proofs.Resolving
import PartProgram.Proofs.Arrival
import PartProgram.Proofs.Lines
import PartProgram.Proofs.Order
import PartProgram.Proofs.Safety
import PartProgram.Proofs.Numerals
import PartProgram.Proofs.Scanning
import PartProgram.Proofs.Render
import PartProgram.Proofs.Walk
import PartProgram.Proofs.ReachedModes
import PartProgram.Proofs.Idle
import PartProgram.Proofs.Conversational
import PartProgram.Proofs.Spelling
import PartProgram.Proofs.Settled
import PartProgram.Proofs.Formatting
import PartProgram.Proofs.Feeds
import PartProgram.Proofs.Tracing
import PartProgram.Proofs.Steady
import PartProgram.Proofs.Joined
import PartProgram.Proofs.FeedLaw
import PartProgram.Proofs.Printing
import PartProgram.Proofs.Numbering
import PartProgram.Proofs.Entries
import PartProgram.Proofs.Printout
import PartProgram.Proofs.PathFeeds
import PartProgram.Proofs.AuxiliaryCodes
import PartProgram.Proofs.SpindleSpeeds
import PartProgram.Proofs.Rounding
import PartProgram.Proofs.Readback
import PartProgram.Proofs.Replay
import PartProgram.Proofs.FirstFeed
import PartProgram.Proofs.ArcFeeds
import PartProgram.Proofs.Openings
import PartProgram.Proofs.FeedLimits
import PartProgram.Proofs.FeedSafety
import PartProgram.Proofs.RuleFaults
import PartProgram.Proofs.KeptText
import PartProgram.Proofs.BlankLines
import PartProgram.Proofs.StatedWords
import PartProgram.Proofs.EmptyPrograms
import PartProgram.Proofs.Streaming
import PartProgram.Proofs.Sessions
import PartProgram.Proofs.Registrations
import PartProgram.Proofs.Builders
import PartProgram.Proofs.BlockNumbers
import PartProgram.Proofs.Agreement
import PartProgram.Proofs.Leftovers
import PartProgram.Proofs.RestatedModes
import PartProgram.Proofs.RestatedMotion
import PartProgram.Proofs.ConversionNotices
import PartProgram.Proofs.Lengths
import PartProgram.Proofs.Chords
import PartProgram.Proofs.SameNumbers
import PartProgram.Proofs.SameStates
import PartProgram.Proofs.IdleMoves
import PartProgram.Proofs.ReachedCoordinates
import PartProgram.Proofs.MergedRapids
import PartProgram.Proofs.UnknownWords
import PartProgram.Proofs.Regrouped
import PartProgram.Proofs.ClampedFeeds
import PartProgram.Proofs.KeptComments
import PartProgram.Proofs.SpelledOnce
import PartProgram.Proofs.ArcWords
import PartProgram.Proofs.RestoredMode
import PartProgram.Proofs.Gaps
import PartProgram.Proofs.Uncommented
import PartProgram.Proofs.RepeatedCycles
import PartProgram.Proofs.SmoothedPrograms
import PartProgram.Proofs.CornerTangents
import PartProgram.Proofs.ExactNumbers
import PartProgram.Proofs.Pecks
import PartProgram.Proofs.RadiusCentres
import PartProgram.Proofs.TurnedAxes
import PartProgram.Proofs.Sums
import PartProgram.Proofs.Signs
import PartProgram.Proofs.Angles
import PartProgram.Proofs.ArcTurns
import PartProgram.Proofs.PrintedNumbers
import PartProgram.Proofs.Nearest
import PartProgram.Proofs.Extents
import PartProgram.Proofs.WorkpieceBlank
