/-
What the program uses of Go's `net/url` and `net/http`: escaping of query values, and the Location a
redirect is answered with. `url.Parse` is left open.
-/
import Nixbox.Go.Path

namespace Go

/-- The parts of a parsed URL that `http.Redirect` looks at. -/
structure URL where
  scheme : String
  host : String

/-- A hexadecimal digit, as Go writes it. -/
def upperHex (n : Nat) : Char := "0123456789ABCDEF".toList.getD n '0'

/-- `url.QueryEscape`. -/
def queryEscape (s : String) : String :=
  String.ofList <| s.toUTF8.toList.flatMap fun b =>
    let c := Char.ofNat b.toNat
    if c.isAlphanum || c ∈ ['-', '_', '.', '~'] then [c]
    else if c = ' ' then ['+']
    else ['%', upperHex (b.toNat / 16), upperHex (b.toNat % 16)]

/-- A path cleaned as `http.Redirect` does: a slash at the end stays. -/
def cleanKeepingSlash (path : List Char) : List Char :=
  let cleaned := pathClean path
  if path.getLast? = some '/' ∧ cleaned.getLast? ≠ some '/' then cleaned ++ ['/'] else cleaned

/-- The Location of `http.Redirect` for a request of `oldpath`: a target on this site is made absolute
and cleaned up to its query, and any other is sent as it is. That bytes above 127 are then escaped is left out. -/
def redirect (urlParse : String → Option URL) (oldpath target : String) : String :=
  match urlParse target with
  | none => target
  | some u =>
    if u.scheme = "" ∧ u.host = "" then
      let oldpath := if oldpath = "" then "/" else oldpath
      let cs := if target.toList.head? = some '/' then target.toList else pathDir oldpath.toList ++ target.toList
      String.ofList (cleanKeepingSlash (cs.takeWhile (· ≠ '?')) ++ cs.dropWhile (· ≠ '?'))
    else target

end Go
