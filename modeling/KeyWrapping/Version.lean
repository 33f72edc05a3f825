/-!
# The version of the library
-/

namespace KeyWrapping.Version

/-- The major version number. -/
def major : UInt32 := 1

/-- The minor version number. -/
def minor : UInt32 := 0

/-- The patch number. -/
def patch : UInt32 := 0

/-- The day of the release as a decimal number, zero before the release. -/
def datestamp : UInt32 := 0

/-- Three version numbers with dots between them. -/
def dotted (major minor patch : UInt32) : String := s!"{major}.{minor}.{patch}"

/-- The version numbers alone. -/
def short : String := dotted major minor patch

/-- The library's name, its version and the state of the release. -/
def full : String := s!"Keywrap {short} (unreleased)"

/-- A warning for an application that was built against another version, and nothing for one built against this one. -/
def mismatch (builtMajor builtMinor builtPatch : UInt32) : String :=
  if builtMajor = major ∧ builtMinor = minor ∧ builtPatch = patch then ""
  else
    let built := dotted builtMajor builtMinor builtPatch
    s!"Warning: this is Keywrap {short}, but the application was built against {built}\n"

end KeyWrapping.Version
