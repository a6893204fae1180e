import Chip8Disasm.Main
import Chip8Disasm.Proofs.Legible
import Chip8Disasm.Proofs.Parsing
import Chip8Disasm.Proofs.Rearranging
import Chip8Disasm.Proofs.Printing
import Chip8Disasm.Proofs.Staging
import Chip8Disasm.Proofs.Failing
import Chip8Disasm.Proofs.Delivering
import Chip8Disasm.Proofs.Slicing
import Chip8Disasm.Proofs.Supplying
import Chip8Disasm.Proofs.Rendering
import Chip8Disasm.Proofs.Projecting
import Chip8Disasm.Proofs.Reporting
import Chip8Disasm.Proofs.Reaching
import Chip8Disasm.Proofs.Extending
import Chip8Disasm.Proofs.Recounting
import Chip8Disasm.Proofs.Consuming
import Chip8Disasm.Proofs.Stacking
import Chip8Disasm.Proofs.Places
import Chip8Disasm.Proofs.Packing
import Chip8Disasm.Proofs.Coalescing
