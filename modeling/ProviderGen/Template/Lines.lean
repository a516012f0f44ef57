/-!
Text in lines. A rendered text has its lines joined by line feeds and none behind the last.
-/

namespace ProviderGen.Template

abbrev Lines := List String

def render (ls : Lines) : String := "\n".intercalate ls

@[simp] theorem render_singleton (l : String) : render [l] = l := by simp [render]

theorem render_cons_cons (l m : String) (r : Lines) :
    render (l :: m :: r) = l ++ "\n" ++ render (m :: r) := by
  simp [render, String.append_assoc]

end ProviderGen.Template
