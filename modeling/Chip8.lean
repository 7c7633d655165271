import Chip8.Main
import Chip8.CommandLine
import Chip8.Launch
import Chip8.Proofs.Transition
import Chip8.Proofs.Operation
import Chip8.Proofs.Range
import Chip8.Proofs.Decoding
import Chip8.Proofs.Fault
import Chip8.Proofs.Handling
import Chip8.Proofs.Quit
import Chip8.Proofs.Move
import Chip8.Proofs.Recast
import Chip8.Proofs.Restart
import Chip8.Proofs.Divergence
import Chip8.Proofs.Call
import Chip8.Proofs.Pixel
import Chip8.Proofs.Drawing
import Chip8.Proofs.Course
import Chip8.Proofs.Picture
import Chip8.Proofs.Accord
import Chip8.Proofs.Pause
import Chip8.Proofs.Mixer
import Chip8.Proofs.Silence
import Chip8.Proofs.Writing
import Chip8.Proofs.Latch
import Chip8.Proofs.Presentation
import Chip8.Proofs.Conduct
import Chip8.Proofs.Options
import Chip8.Proofs.Launching
import Chip8.Proofs.Arithmetic
import Chip8.Proofs.Clipping
import Chip8.Proofs.Replacement
import Chip8.Proofs.Blanks
import Chip8.Proofs.Bounds
import Chip8.Proofs.Successor
import Chip8.Proofs.Waiting
import Chip8.Proofs.RegisterBlock
import Chip8.Proofs.Timer
import Chip8.Proofs.Waveform
import Chip8.Proofs.Convergence
import Chip8.Proofs.Spelling
import Chip8.Proofs.Numeral
import Chip8.Proofs.Wording
