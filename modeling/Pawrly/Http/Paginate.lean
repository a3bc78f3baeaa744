import Pawrly.Http.Json
import Pawrly.Http.Spec

/-!
# Pagination

The next request of a paged table, computed from the page just fetched: its body, its headers and
its rows.
-/

namespace Pawrly
namespace Http

/-- The next request after a page (`NextPage`). -/
inductive NextPage
  | params (params : Params)
  | url (url : String)
  | bodyCursor (cursor : String)

/-! ## Link headers -/

/-- The value of a link attribute, without quotes. -/
def linkAttr (name attr : String) : Option String :=
  (Text.stripPrefix name attr).map (Text.trimChars ['"', '\''])

/-- An attribute says that its link is the next page. -/
def isNextAttr (attr : String) : Bool := linkAttr "rel=" attr = some "next"

/-- An attribute says that its link has no results. -/
def isEmptyAttr (attr : String) : Bool :=
  (linkAttr "rel=" attr).isNone && linkAttr "results=" attr = some "false"

/-- The target of an entry of a `Link` header, when it is the next page. -/
def linkTarget (entry : String) : Option String :=
  match Text.split ';' entry with
  | [] => none
  | target :: attrs =>
      let url := Text.trimEndChar '>' (Text.trimStartMatches "<" (Text.trim target))
      let attrs := attrs.map Text.trim
      if url = "" then none
      else if attrs.any isNextAttr && !attrs.any isEmptyAttr then some url
      else none

/-- The first value of a header, by its lower-case name. -/
def header? (headers : List (String × String)) (name : String) : Option String :=
  headers.lookup name

/-- A byte that `HeaderValue::to_str` lets through. -/
def isVisibleAscii (c : Char) : Bool := (32 ≤ c.toNat && c.toNat < 127) || c = '\t'

/-- `headers.get(name)?.to_str().ok()?`. -/
def headerText (headers : List (String × String)) (name : String) : Option String :=
  (header? headers name.toLower).filter fun value => value.toList.all isVisibleAscii

/-- `parse_link_next`. -/
def parseLinkNext (headers : List (String × String)) : Option String :=
  (headerText headers "link").bind fun header => (Text.split ',' header).findSome? linkTarget

/-! ## The pages -/

/-- The largest `u32` and `u64`. -/
def maxU32 : ℕ := 2 ^ 32 - 1

def maxU64 : ℕ := 2 ^ 64 - 1

/-- `seed_initial`: the parameters of the first page. -/
def seedInitial (config : PaginationConfig) (params : Params) : Params :=
  match config with
  | .page param start sizeParam size =>
      let params := params.insertNew param (toString start)
      match sizeParam, size with
      | some sp, some sz => params.insertNew sp (toString sz)
      | _, _ => params
  | .offset param sizeParam size =>
      (params.insertNew param "0").insertNew sizeParam (toString size)
  | _ => params

/-- The number of the page after the one with the index. -/
def nextPageNumber (start pageIndex : ℕ) : ℕ :=
  min maxU32 (start + min maxU32 (pageIndex % 2 ^ 32 + 1))

/-- The offset of the page after the one with the index. -/
def nextOffset (size pageIndex : ℕ) : ℕ := min maxU64 (size * (pageIndex + 1))

/-- `next_page`: the request after a page, or `none` to stop. -/
def nextPage (config : PaginationConfig) (params : Params) (body : Json)
    (headers : List (String × String)) (rows : List Json) (pageIndex : ℕ) : Option NextPage :=
  match config with
  | .linkHeader => (parseLinkNext headers).map .url
  | .cursor nextPath param =>
      if rows = [] then none
      else (body.cursorAtPath nextPath).bind fun cursor =>
        if params.get? param = some cursor then none
        else some (.params (params.insert param cursor))
  | .rowCursor param field morePath =>
      let stop : Bool :=
        match morePath with
        | some path => (body.atPath path).bind Json.asBool? ≠ some true
        | none => rows.isEmpty
      if stop then none
      else
        ((rows.getLast?.bind (Json.get? field)).bind Json.toCursor).map fun cursor =>
          .params (params.insert param cursor)
  | .page param start sizeParam size =>
      if rows = [] then none
      else
        let next := params.insert param (toString (nextPageNumber start pageIndex))
        match sizeParam, size with
        | some sp, some sz => some (.params (next.insert sp (toString sz)))
        | _, _ => some (.params next)
  | .offset param sizeParam size =>
      if rows.length < size then none
      else some (.params ((params.insert param (toString (nextOffset size pageIndex))).insert
        sizeParam (toString size)))
  | .bodyCursor _ nextPath =>
      if rows = [] then none
      else (body.cursorAtPath nextPath).map .bodyCursor

end Http
end Pawrly
