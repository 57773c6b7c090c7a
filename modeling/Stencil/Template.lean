import Stencil.Path
import Stencil.Text.Lines

/-! Templates.

A template has a source, and a path when it was read from a file. Includes of a file's template
are looked up next to it, those of an inline template as they are. -/
namespace Stencil

structure Template where
  source : Text
  path : Option Path
deriving Repr, DecidableEq

namespace Template

def inline (source : Text) : Template := ⟨source, none⟩

/-- The name of a template in messages. -/
def description (t : Template) : Text := t.path.getD "given template string"

/-- The directory that includes are looked up in. -/
def directory? (t : Template) : Option Path := t.path.bind Path.parent?

end Template
end Stencil
