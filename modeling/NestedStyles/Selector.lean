/-!
# Selectors

A nested block has a fragment of a selector, which is resolved against the selector of the block around it. Some keys
name a pseudo-class or a pseudo-element and extend the selector by its name.
-/

namespace NestedStyles.Selector

/-- Keys are written with underscores where selectors and properties have hyphens. -/
def hyphenate (name : String) : String := String.ofList (name.toList.map fun c => if c = '_' then '-' else c)

/-! ## Pseudo keys -/

def pseudoClasses : List String :=
  ["hover", "focus", "active", "visited", "disabled", "checked", "placeholder", "first_child", "last_child",
   "nth_child", "first_of_type", "last_of_type", "focus_within", "focus_visible", "not", "root", "empty", "link",
   "enabled", "read_only", "read_write"]

/-- A key in both lists, `placeholder`, names the element. -/
def pseudoElements : List String := ["before", "after", "first_line", "first_letter", "selection", "placeholder"]

def isPseudo (key : String) : Bool := pseudoClasses.contains key || pseudoElements.contains key

/-- The selector `parent` extended by a pseudo key. A key that is not in the lists is appended as it stands. -/
def pseudo (parent key : String) : String :=
  parent ++ (if pseudoElements.contains key then "::" else ":") ++ (if isPseudo key then hyphenate key else key)

/-! ## Fragments -/

/-- Put `parent` in the place of every `&`. -/
def substitute (parent : String) (fragment : String) : String :=
  String.ofList (fragment.toList.flatMap fun c => if c = '&' then parent.toList else [c])

/-- A fragment with `&` says where the parent stands; one that begins with a colon continues the parent; any other is
a descendant of it. -/
def resolve (parent fragment : String) : String :=
  if fragment.toList.contains '&' then substitute parent fragment
  else if fragment.toList.head? = some ':' then parent ++ fragment
  else parent ++ " " ++ fragment

end NestedStyles.Selector
