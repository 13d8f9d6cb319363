import WrapGen.CodeUnit
/-!
# Headers

Every unit starts with a header, which holds the imports that the generated
code relies on. A batch may bring headers of its own; a unit without one gets
the default header for the name of the module.
-/
namespace WrapGen

namespace Header

/-- Lines as text. -/
def unlines (lines : List String) : String := String.join (lines.map fun line => line ++ "\n")

/-- The notice that the file is generated. -/
def banner : List String :=
  ["################################################",
   "#                 WARNING!                     #",
   "# This file has been auto-generated by stlwrap.#",
   "#    Changes will be lost on regeneration.     #",
   "################################################"]

/-- The imports of storage types. -/
def storageImports : List String :=
  ["from libcpp.string cimport string as std_string",
   "from libcpp.utility cimport pair",
   "from libcpp.map cimport map as cpp_map",
   "from libcpp.set cimport set as cpp_set",
   "from libcpp.vector cimport vector as cpp_vector",
   "from libcpp cimport bool as cpp_bool",
   "from libc.stdlib cimport malloc, free",
   "cimport numpy as np",
   "cimport xdress_extra_types"]

/-- The default header of the implementation. -/
def implementation (module : String) : String :=
  unlines <|
    banner ++
    ["\"\"\"Python wrappers for C++ standard library containers.",
     "",
     "The classes and converters of `" ++ module ++ "` are generated per element type.",
     "\"\"\"",
     "# Cython imports",
     "from cython.operator cimport dereference as deref",
     "from cython.operator cimport preincrement as inc"] ++
    storageImports ++
    ["",
     "# Python imports",
     "import collections.abc",
     "",
     "import numpy as np",
     "",
     "np.import_array()",
     ""]

/-- The default header of the interface. -/
def interface (module : String) : String :=
  unlines <|
    banner ++ ["\"\"\"C-level declarations for `" ++ module ++ "`.\"\"\""] ++
    storageImports ++ [""]

/-- The default header of the tests. -/
def tests (module : String) : String :=
  unlines <|
    ["\"\"\"Tests the part of `" ++ module ++ "` that is accessible from Python.\"\"\""] ++
    banner ++
    ["",
     "from nose.tools import assert_equal, assert_not_equal, assert_raises, raises, \\",
     "    assert_almost_equal, assert_true, assert_false, assert_in",
     "",
     "from numpy.testing import assert_array_equal, assert_array_almost_equal",
     "",
     "import numpy as np",
     "",
     "import " ++ module ++ " as conv",
     ""]

/-- The default header of every unit. -/
def defaults (module : String) : PerUnit String :=
  ⟨implementation module, interface module, tests module⟩

end Header

/-- The headers that a batch brings. -/
abbrev Headers := PerUnit (Option String)

/-- The header of a unit. -/
def Headers.forUnit (h : Headers) (module : String) (u : CodeUnit) : String :=
  (h.get u).getD ((Header.defaults module).get u)

end WrapGen
