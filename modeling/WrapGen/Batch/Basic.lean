import WrapGen.Batch.Header
import WrapGen.Batch.Request
import WrapGen.Code.FragmentText
/-!
# Batches

A batch turns a list of requests into the three texts. All requests are
resolved before any code is made, so the first request that cannot be resolved
is the error, and only then the first whose code cannot be made. Every text is
its header and then the fragments in the order of the requests.
-/
namespace WrapGen

open Code

/-- The module and the base of file names when none is given. -/
def defaultModule : String := "stlconverters"

/-- The settings of a batch. -/
structure Batch where
  generator : Generator
  module : String
  headers : Headers

namespace Batch

/-- What follows every fragment. -/
def separator : String := "\n\n"

/-- The requests that texts write. -/
def resolve (b : Batch) (requests : List RequestText) : Except RequestError (List Request) :=
  requests.mapM (Request.resolve b.generator.catalog)

/-- The code of every request. -/
def bundles (b : Batch) (requests : List RequestText) : Except RequestError (List Bundle) := do
  let resolved ← b.resolve requests
  resolved.mapM (Request.bundle b.generator)

/-- The text of a unit without its header. -/
def body (u : CodeUnit) (bundles : List Bundle) : String :=
  String.join (bundles.map fun bundle => Fragment.text (bundle.get u) ++ separator)

/-- The text of a unit. -/
def assemble (b : Batch) (bundles : List Bundle) (u : CodeUnit) : String :=
  b.headers.forUnit b.module u ++ body u bundles

/-- The text of one unit for a list of requests. -/
def generateUnit (b : Batch) (requests : List RequestText) (u : CodeUnit) :
    Except RequestError String := do
  return b.assemble (← b.bundles requests) u

/-- The texts of all units for a list of requests. -/
def generate (b : Batch) (requests : List RequestText) : Except RequestError (PerUnit String) := do
  return .ofFn (b.assemble (← b.bundles requests))

end Batch

end WrapGen
