import Stencil.Command.Disk
import Stencil.Main
import Stencil.Proofs.Outline.Render
import Stencil.Proofs.Render.Includes
import Stencil.Proofs.Render.Inlining
import Stencil.Proofs.Render.Substitution
import Stencil.Proofs.Script.Accounting
import Stencil.Proofs.Script.Blocks
import Stencil.Proofs.Script.ChunkLines
import Stencil.Proofs.Script.Literal
import Stencil.Render.Memory
import Stencil.Render.Playback
import Stencil.Proofs.Render.Verbosity
import Stencil.Proofs.Render.Isolation
import Stencil.Proofs.Render.Unmentioned
import Stencil.Proofs.Lua.Position.Evaluation
import Stencil.Proofs.Lua.Position.Library
import Stencil.Proofs.Lua.Position.Message
import Stencil.Proofs.Lua.Position.Run
import Stencil.Proofs.Lua.Position.Token
import Stencil.Proofs.Render.Location
import Stencil.Proofs.Error
import Stencil.Proofs.Files
import Stencil.Proofs.Script.IndentUnit
import Stencil.Proofs.Script.LineEnds
import Stencil.Proofs.Command.Contract
import Stencil.Proofs.Script.Faults
import Stencil.Proofs.Script.Openings
import Stencil.Proofs.Line.Standalone
import Stencil.Proofs.Script.Lookahead
import Stencil.Proofs.Lua.Pairing
import Stencil.Proofs.Script.Rewriting
import Stencil.Proofs.Script.Matching
import Stencil.Proofs.Script.Recordings
import Stencil.Proofs.Path.Lexical
import Stencil.Proofs.Script.Standing
import Stencil.Proofs.Lua.Inclusion
import Stencil.Proofs.Script.Comment
import Stencil.Proofs.Script.Listing
import Stencil.Proofs.Lua.Bytewise
import Stencil.Proofs.Lua.Literal
import Stencil.Proofs.Lua.Ending
import Stencil.Proofs.Lua.Indentation
import Stencil.Proofs.Lua.Position.First
