/-
**The patterns of the Statuspage adapter**, and `_plain`.

The patterns are the source's, part by part. Groups are numbered: `when` is group 1, `status` group
2 and `body` group 3.
-/

import Freshet.Lib.PyText

namespace Freshet.Ingest

open Freshet.Lib

/-- `.` under `re.DOTALL`. -/
def anything (_ : Char) : Bool := true

/-- `_TAG`. -/
def tag : Regex Char := .all [exactly "<", .some (· != '>'), exactly ">"]

/-- `_UPDATE`. -/
def update : Regex Char :=
  .all [anyCase "<small>", .group 1 (.few anything), anyCase "</small>", .many isSpace,
    anyCase "<br", .many isSpace, .opt (exactly "/"), exactly ">", .many isSpace,
    anyCase "<strong>", .group 2 (.few anything), anyCase "</strong>", .many isSpace, exactly "-",
    .many isSpace, .group 3 (.few anything), .ahead (.alt (anyCase "<small>") .atEnd)]

/-- `_STATUS_LINE`. -/
def statusLine : Regex Char :=
  .all [anyCase "<b>", .many isSpace, anyCase "Status:", .many isSpace,
    .group 2 (.someFew (· != '<')), .many isSpace, anyCase "</b>", .group 3 (.many anything)]

/-- `_COMPONENTS`. -/
def components : Regex Char :=
  .all [anyCase "<b>", .many isSpace, anyCase "Affected components", .many isSpace, anyCase "</b>",
    .many anything, .atEnd]

/-- `_plain`. -/
def plain (markup : List Char) : List Char := collapse (tag.sub (fun _ => [' ']) markup)

end Freshet.Ingest
