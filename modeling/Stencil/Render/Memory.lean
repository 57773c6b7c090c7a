import Stencil.Files
import Stencil.Render.Runtime

/-! Templates that are held in memory. -/
namespace Stencil

def Files.loader : Loader Files where
  exists? path := return (← get).exists? path
  load path := do (← getThe Files).load path

end Stencil
