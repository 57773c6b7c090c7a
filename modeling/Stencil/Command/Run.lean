import Stencil.Command.Layers
import Stencil.Command.Tool
import Stencil.Lua.Run

/-! The tool as it is run. -/
namespace Stencil.Command

/-- The directory that the environment names for configurations, or the one in the user's home. -/
def configurationHome? (e : Variables.Environment) : Option Path :=
  let directory := (Variables.get? e "XDG_CONFIG_HOME").filter Path.isAbsolute
  let home := (Variables.get? e "HOME").filter (· ≠ [])
  (directory.or (home.map (Path.join · ".config"))).map (Path.join · "kiln")

def Packages.standard : Packages where
  commandLine := Invocation.parse
  variableFile := Variables.Package.standard
  configuration := Configuration.Package.standard
  userDirectory? := configurationHome?
  engine := Lua.interpreter

def run (w : World) : StateM Asked Outcome := Packages.standard.run w

end Stencil.Command
