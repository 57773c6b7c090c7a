import Stencil.Command.Arguments
import Stencil.Command.Configuration
import Stencil.Command.World
import Stencil.Lua.Engine

/-! What the tool is built on.

The tool leaves much to packages of others: the command line and the files of environment variables
are read by them, the layers of a configuration are put together by one, another knows where users
keep their files, and scripts run in an implementation of their language. The tool is written for
any such `Packages`. -/
namespace Stencil.Command

structure Packages where
  /-- Reads a command line. -/
  commandLine : Variables.Environment → List Text → Except Stop Invocation
  variableFile : Variables.Package
  configuration : Configuration.Package
  /-- The directory for the user's configuration of the tool. -/
  userDirectory? : Variables.Environment → Option Path
  engine : Lua.Engine Asked

end Stencil.Command
