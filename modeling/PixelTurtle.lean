import PixelTurtle.Instruction.Packed
import PixelTurtle.Main
import PixelTurtle.Proofs.Placeholders
import PixelTurtle.Proofs.Chains
import PixelTurtle.Proofs.Folding
import PixelTurtle.Proofs.Reading
import PixelTurtle.Proofs.WellFormed
import PixelTurtle.Proofs.Run
import PixelTurtle.Proofs.Simulation
import PixelTurtle.Proofs.Spinning
import PixelTurtle.Proofs.First
import PixelTurtle.Proofs.Slicing
import PixelTurtle.Proofs.Bounds
import PixelTurtle.Proofs.Grading
import PixelTurtle.Proofs.LineByLine
import PixelTurtle.Proofs.Rejection
import PixelTurtle.Proofs.Covering
import PixelTurtle.Proofs.Reordering
import PixelTurtle.Proofs.Replay
import PixelTurtle.Proofs.Renumbering
import PixelTurtle.Proofs.BlankLines
import PixelTurtle.Proofs.Walks
import PixelTurtle.Proofs.Exchange
import PixelTurtle.Proofs.TwoColors
import PixelTurtle.Proofs.LineEnds
import PixelTurtle.Proofs.Listings
import PixelTurtle.Proofs.Circles
import PixelTurtle.Proofs.Grammar
import PixelTurtle.Proofs.Derivations
import PixelTurtle.Proofs.Comments
import PixelTurtle.Proofs.Spelling
import PixelTurtle.Proofs.FixedPoints
import PixelTurtle.Proofs.Detours
import PixelTurtle.Proofs.Nesting
import PixelTurtle.Proofs.Resuming
import PixelTurtle.Proofs.Drawings
import PixelTurtle.Proofs.Flaws
import PixelTurtle.Proofs.Grid
import PixelTurtle.Proofs.Places
import PixelTurtle.Proofs.Pointing
import PixelTurtle.Proofs.Percentage
import PixelTurtle.Proofs.Packing
