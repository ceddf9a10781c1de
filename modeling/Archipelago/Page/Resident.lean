import Archipelago.Decimal.Binary
import Archipelago.Page
import Archipelago.Tag
import Archipelago.Value

/-! # Components about the resident -/

namespace Archipelago.Page

/-- What renders the components of residents: the HTML for a name, attributes and resident data,
or nothing for a name that it does not know. -/
abbrev Components := String → Dict Value → Value → Option String

namespace Resident

/-- A field of an object. -/
def field? (v : Value) (name : String) : Option Value :=
  v.asObject?.bind fun fields => Dict.get? fields name

/-- The text of the first of the fields that is there. -/
def fieldText (v : Value) (names : List String) : String :=
  let found := names.findSome? fun name => (field? v name).filter fun w => !w.isNullish
  (found.map Value.display).getD ""

/-- An address that may stand in an attribute. -/
def address? (attr : String) (v : Value) : Option String :=
  match v with
  | .string url => if url = "" || (unsafeReason? attr url).isSome then none else some url
  | _ => none

/-- The address in a field. -/
def fieldAddress? (v : Value) (name attr : String) : Option String :=
  (field? v name).bind (address? attr)

/-- How many of `size` items are shown. -/
def limit (props : Dict Value) (size : Nat) : Nat :=
  match (Dict.get? props "limit").bind Value.toNumber? with
  | some x => if 0.0 ≤ x then min ((Decimal.wholePart? x).getD size) size else size
  | none => size

/-- The items of a list of the resident that are shown. -/
def items (resident : Value) (props : Dict Value) (name : String) : List Value :=
  let all := ((field? resident name).bind Value.asArray?).getD []
  all.take (limit props all.length)

/-- An element of one class. -/
def element (tag className content : String) : String :=
  openTag tag [("class", className)] ++ content ++ closeTag tag

/-- A list of entries that are markup. -/
def list (className : String) (entries : List String) : String :=
  element "ul" className (String.join (entries.map fun e => openTag "li" [] ++ e ++ closeTag "li"))

/-- The name of a person. -/
def nameText (v : Value) : String := fieldText v ["displayName", "username"]

/-- The photo of a person, or an empty box where there is no safe address. -/
def photo (owner : Value) : String :=
  match fieldAddress? owner "avatarUrl" "src" with
  | some src => openTag "img" [("class", "profile-photo"), ("src", src), ("alt", nameText owner)]
  | none => element "div" "profile-photo" ""

/-- Who has written what. -/
def guestbookEntry (e : Value) : String :=
  let author := escapeText (fieldText e ["authorName", "author"])
  openTag "b" [] ++ author ++ closeTag "b" ++ " " ++ escapeText (fieldText e ["message", "body"])

/-- A site without a safe address is left out. -/
def website? (site : Value) : Option String :=
  (fieldAddress? site "url" "href").map fun href =>
    openTag "a" [("href", href)] ++ escapeText (fieldText site ["title", "url"]) ++ closeTag "a"

/-- An image without a safe address is left out. -/
def image? (image : Value) : Option String :=
  (fieldAddress? image "url" "src").map fun src =>
    openTag "img" [("src", src), ("alt", fieldText image ["alt", "caption"])]

/-- What a component shows of the resident, with so many items as the props allow. -/
def html (t : ResidentTag) (props : Dict Value) (resident : Value) : String :=
  let owner := (field? resident "owner").getD .undefined
  let shown := items resident props
  match t with
  | .displayName => element "span" "display-name" (escapeText (nameText owner))
  | .bio => element "p" "bio" (escapeText (fieldText owner ["bio"]))
  | .profilePhoto => photo owner
  | .blogPosts =>
    list "blog-posts" ((shown "posts").map fun p => escapeText (fieldText p ["title"]))
  | .guestbook => list "guestbook" ((shown "guestbook").map guestbookEntry)
  | .friendDisplay =>
    list "friends" ((shown "featuredFriends").map fun f => escapeText (nameText f))
  | .websiteDisplay => list "websites" ((shown "websites").filterMap website?)
  | .imageCarousel => element "div" "carousel" (String.join ((shown "images").filterMap image?))

/-- The built-in components. -/
def components : Components := fun name props resident =>
  (ResidentTag.ofName? name).map fun t => html t props resident

end Resident

end Archipelago.Page
