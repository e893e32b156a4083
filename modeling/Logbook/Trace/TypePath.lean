/-!
# Names of units from type paths

A unit without a name of its own is called by the path of its type: the last segment in front of
the first `<` that is neither empty nor a marker in double braces.
-/

namespace Logbook.Trace.TypePath

/-- The segments of a path, split at double colons from the left. -/
def segments : List Char → List (List Char)
  | [] => [[]]
  | ':' :: ':' :: path => [] :: segments path
  | c :: path =>
    match segments path with
    | [] => [[c]]
    | segment :: rest => (c :: segment) :: rest

/-- The segments, split at double colons from the right: in a run of three colons the last two
separate. -/
def segmentsFromEnd (path : List Char) : List (List Char) :=
  (segments path.reverse).map List.reverse

/-- Markers such as that of a closure start with two braces. -/
def isMarker (segment : List Char) : Bool := ['\x7b', '\x7b'].isPrefixOf segment

def actionName (path : List Char) : List Char :=
  let path := path.takeWhile (· ≠ '<')
  ((segmentsFromEnd path).find? fun segment => !segment.isEmpty && !isMarker segment).getD path

end Logbook.Trace.TypePath
