import BaudReel.CommandLine.Painted
import BaudReel.Drawn
import BaudReel.Main
import BaudReel.Proofs.Cancellation
import BaudReel.Proofs.Lockstep
import BaudReel.Proofs.Pacing
import BaudReel.Rehearsal
import BaudReel.Script
import BaudReel.Proofs.Grammar
import BaudReel.Proofs.Opening
import BaudReel.Proofs.Sharing
import BaudReel.Proofs.LifeCycle
import BaudReel.Proofs.Ensemble
import BaudReel.Proofs.Window
import BaudReel.Proofs.Record
import BaudReel.Proofs.Progress
import BaudReel.Proofs.Bells
import BaudReel.Proofs.Trailer
import BaudReel.Proofs.Fraction
import BaudReel.Proofs.Reporting
import BaudReel.Proofs.Hearing
import BaudReel.Proofs.Runs
import BaudReel.Proofs.Drawing
import BaudReel.Proofs.Ringing
import BaudReel.Proofs.Rectangle
import BaudReel.Proofs.Words
import BaudReel.Proofs.Beat
import BaudReel.Proofs.Failure
import BaudReel.Proofs.Writing
import BaudReel.Proofs.Scanning
import BaudReel.Proofs.Inks
import BaudReel.Proofs.Shortest
import BaudReel.Proofs.Motion
import BaudReel.Proofs.Rearranging
import BaudReel.Checked.Timing
import BaudReel.Proofs.Cutting
import BaudReel.Proofs.Cadence
import BaudReel.Proofs.Stamps
import BaudReel.Proofs.Renditions
import BaudReel.Proofs.Inert
import BaudReel.CommandLine.Requests
import BaudReel.Proofs.Speed
import BaudReel.Proofs.Dimensions
import BaudReel.Proofs.Glyphs
import BaudReel.Proofs.Painting
import BaudReel.Proofs.Documents
import BaudReel.Proofs.Settings
import BaudReel.Proofs.Parameters
import BaudReel.Proofs.Phases
