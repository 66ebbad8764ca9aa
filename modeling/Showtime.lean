import Showtime.Json.Printer
import Showtime.Json.Reader
import Showtime.Parser.Parse
import Showtime.Program.Render
import Showtime.Program.Stored
import Showtime.Run.Interpreter
import Showtime.Main
import Showtime.Proofs.Scope.Chain
import Showtime.Proofs.Scope.View
import Showtime.Proofs.Run.Fuel
import Showtime.Proofs.Run.Statement
import Showtime.Proofs.Run.Simulation
import Showtime.Proofs.Run.Refinement
import Showtime.Proofs.Parser.Completeness
import Showtime.Proofs.Run.Isolation
import Showtime.Proofs.Parser.Soundness
import Showtime.Proofs.Parser.Acceptance
import Showtime.Proofs.Run.Safety
import Showtime.Proofs.Run.Shape
import Showtime.Proofs.Run.Reuse
import Showtime.Proofs.Parser.Viable
import Showtime.Proofs.Parser.Stops
import Showtime.Proofs.Parser.Expected
import Showtime.Proofs.Parser.FirstError
import Showtime.Proofs.Parser.WellFormed
import Showtime.Proofs.Token.Spelling
import Showtime.Proofs.Source.Place
import Showtime.Proofs.Token.Step
import Showtime.Proofs.Token.Lines
import Showtime.Proofs.Token.Tiling
import Showtime.Proofs.Parser.Places
import Showtime.Proofs.Parser.Padding
import Showtime.Proofs.Run.CutShort
import Showtime.Proofs.Run.Report
import Showtime.Proofs.Run.BoundedSink
import Showtime.Proofs.Run.Unreachable
import Showtime.Proofs.Run.Reading
import Showtime.Proofs.Run.Moments
import Showtime.Proofs.Run.CallLimit
import Showtime.Proofs.Parser.Sugar
import Showtime.Proofs.Scope.Names
import Showtime.Proofs.Run.Frame
import Showtime.Proofs.Run.Failure
import Showtime.Proofs.Run.LoopFree
import Showtime.Proofs.Scope.Nearest
import Showtime.Proofs.Run.Assignment
import Showtime.Proofs.Run.LoopExit
import Showtime.Proofs.Run.Parameters
import Showtime.Proofs.Token.Calls
import Showtime.Proofs.Token.FirstOnLine
import Showtime.Proofs.Scope.Operations
import Showtime.Proofs.Run.Strict
import Showtime.Proofs.Run.NoCrash
import Showtime.Proofs.Text.Delimited
import Showtime.Proofs.Program.Listing
import Showtime.Proofs.Json.Record
import Showtime.Proofs.Program.StoredForms
import Showtime.Proofs.Source.Coordinates
