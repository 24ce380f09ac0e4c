import Fieldmark.Load
import Fieldmark.Substitution

/-!
# Filling a page from a source

Load, then substitute: no tag is looked at before every document is there.
-/

namespace Fieldmark

/-- Fetches what a page binds and fills the page with it. -/
def fill (source : Source) (loadOptions : LoadOptions) (policy : NestedOpenPolicy)
    (page : List Char) : Report Substitution :=
  let loaded := load source loadOptions page
  match loaded.result with
  | .error problem => ⟨loaded.events, .error problem⟩
  | .ok tree =>
    let filled := substitute policy page tree
    ⟨loaded.events ++ filled.events, filled.result⟩

end Fieldmark
