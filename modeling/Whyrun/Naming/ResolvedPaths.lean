import Whyrun.Model.Syscalls

/-!
What `normalize_path` and `resolve_path` give. The normal form of an absolute
path is the text of the names that are left when its components are walked
from the root; a relative path goes on from the names of its base.
-/

namespace Whyrun

open ByteText LexicalPath

/-! ### `normalize_path` -/

theorem normalizePath_of_isAbsolute {path : Bytes} (h : isAbsolute path = true) :
    normalizePath path = rootedText (normalNames path) := by
  have hplain := normalNames_plain path
  rcases lexicallyNormal_of_isAbsolute h with heq | ⟨hne, heq⟩
  · rw [normalizePath, heq]
    by_cases hroot : normalNames path = []
    · rw [hroot]
      rfl
    · exact if_neg fun hlast => getLast?_rootedText hplain hroot hlast.2
  · have hlength : 1 < (rootedText (normalNames path) ++ [separator]).length := by
      simp [rootedText]
    rw [normalizePath, heq]
    rw [if_pos ⟨hlength, List.getLast?_concat⟩, List.dropLast_concat]

theorem canonical_normalizePath {path : Bytes} (h : isAbsolute path = true) :
    Canonical (normalizePath path) :=
  ⟨_, normalNames_plain path, normalizePath_of_isAbsolute h⟩

/-- A base may be normalised before a path is joined to it. -/
theorem normalizePath_join_normalizePath {base : Bytes} (h : isAbsolute base = true)
    (path : Bytes) :
    normalizePath (join (normalizePath base) path) = normalizePath (base ++ separator :: path) := by
  rw [normalizePath_of_isAbsolute h, normalizePath_of_isAbsolute (isAbsolute_append h _),
    normalizePath_of_isAbsolute (isAbsolute_join (isAbsolute_rootedText _) _),
    normalNames_join_rootedText (normalNames_plain base), normalNames_append_separator]

/-! ### `resolve_path` -/

section resolvePath

variable {P : ProcessState} {dirfd : Int32} {path : Bytes}

theorem resolvePath_of_isAbsolute (h : isAbsolute path = true) :
    resolvePath P dirfd path = normalizePath path := by
  have hne : path ≠ [] := by
    rintro rfl
    contradiction
  rw [resolvePath, if_neg hne, if_pos h]

theorem resolvePath_atFdcwd (hne : path ≠ []) (h : isAbsolute path = false) :
    resolvePath P atFdcwd path = normalizePath (join P.cwd path) := by
  rw [resolvePath, if_neg hne, h, if_neg Bool.false_ne_true, if_pos rfl]

theorem resolvePath_directory {name : Bytes} (hne : path ≠ []) (h : isAbsolute path = false)
    (hfd : dirfd ≠ atFdcwd) (hdirectory : P.fdTable dirfd = some ⟨.file, name, true⟩) :
    resolvePath P dirfd path = normalizePath (join name path) := by
  rw [resolvePath, if_neg hne, h, if_neg Bool.false_ne_true, if_neg hfd, hdirectory]
  rfl

end resolvePath

end Whyrun
