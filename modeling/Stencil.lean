import Stencil.Body
import Stencil.Command.Arguments
import Stencil.Command.Outcome
import Stencil.Disk
import Stencil.Engine.Registry
import Stencil.Engine.Render
import Stencil.Lower
import Stencil.Lua.Chunk
import Stencil.Main
import Stencil.Normalize
import Stencil.Options.Reader
import Stencil.OutputName
import Stencil.Repair
import Stencil.Stats
import Stencil.Tier
import Stencil.Proofs.Mask.Symbols
import Stencil.Proofs.Mask.Lexing
import Stencil.Proofs.Mask.Settled
import Stencil.Proofs.BlockHead
import Stencil.Proofs.Blocks.Clauses
import Stencil.Proofs.Blocks.Colons
import Stencil.Proofs.Blocks.Simple
import Stencil.Proofs.Blocks.Styles
import Stencil.Proofs.Body.Inert
import Stencil.Proofs.Body.Quoting
import Stencil.Proofs.Engine.Nesting
import Stencil.Proofs.Engine.Recompiling
import Stencil.Proofs.Lower.Braces
import Stencil.Proofs.Scan.Survivors
import Stencil.Proofs.Scan.Documents
import Stencil.Proofs.Lower.Blocks
import Stencil.Proofs.Options.Patches
import Stencil.Proofs.Options.Entries
import Stencil.Proofs.Diagnostic
import Stencil.Proofs.Engine.Cycles
import Stencil.Proofs.Engine.Failures
import Stencil.Proofs.Engine.Registry
import Stencil.Proofs.Engine.Levels
import Stencil.Proofs.Engine.Creating
import Stencil.Proofs.Engine.Literals
import Stencil.Proofs.Normalize.Heads
import Stencil.Proofs.Normalize.Idempotent
import Stencil.Proofs.Scan.Quotes
import Stencil.Proofs.Engine.Accounts
import Stencil.Proofs.Repair.Native
import Stencil.Proofs.Normalize.Native
import Stencil.Proofs.Mask.Comments
import Stencil.Proofs.Normalize.Separators
import Stencil.Proofs.Normalize.Tokens
import Stencil.Proofs.Repair.Nesting
import Stencil.Proofs.Mask.Tiling
import Stencil.Proofs.Mask.Lexemes
import Stencil.Proofs.Repair.Insertions
import Stencil.Proofs.Normalize.Literals
import Stencil.Proofs.Lower.Mixtures
import Stencil.Proofs.Scan.Opaque
import Stencil.Proofs.Repair.Balance
import Stencil.Proofs.Scan.Turns
import Stencil.Proofs.Style.Compressed
import Stencil.Proofs.Output.Names
import Stencil.Proofs.Checked.Lines
import Stencil.Proofs.Checked.Words
import Stencil.Proofs.Checked.Passes
