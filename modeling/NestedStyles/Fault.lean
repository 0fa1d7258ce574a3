import NestedStyles.Diagnostic
import NestedStyles.Text.Quoted

/-!
# Faults

What ends a computation instead of being recorded: a color channel too large to compute, an index before the first
token, an indent that makes no sense or is too wide to be written, a compilation that is refused, and files that cannot
be read or written.
-/

namespace NestedStyles

inductive Fault where
  | channelOverflow
  | beforeFirstToken
  | negativeIndent
  | indentOverflow
  | outOfMemory
  | refused (diagnostics : List Diagnostic)
  | notUtf8
  | noSuchFile (path : String)
  | notFolder (path : String)
  | isFolder (path : String)
deriving DecidableEq, Repr

def Fault.message : Fault → String
  | channelOverflow => "cannot convert float infinity to integer"
  | beforeFirstToken => "list index out of range"
  | negativeIndent => "indent must be zero or positive"
  | indentOverflow => "cannot fit 'int' into an index-sized integer"
  | outOfMemory => ""
  | refused diagnostics =>
    "Compilation failed with " ++ toString diagnostics.length ++ " diagnostic(s): "
      ++ "; ".intercalate (diagnostics.map Diagnostic.text)
  | notUtf8 => "the source is not UTF-8 text"
  | noSuchFile path => "[Errno 2] No such file or directory: " ++ Text.quoted path
  | notFolder path => "[Errno 20] Not a directory: " ++ Text.quoted path
  | isFolder path => "[Errno 21] Is a directory: " ++ Text.quoted path

end NestedStyles
