import Archipelago.Json.Record
import Archipelago.Value

/-! # Data about the resident of a page -/

namespace Archipelago

/-- What the host knows of the owner of a page and of its viewer. -/
structure Resident where
  owner : Value := .undefined
  viewer : Value := .undefined
  posts : Value := .undefined
  guestbook : Value := .undefined
  images : Value := .undefined
  capabilities : Value := .undefined
  featuredFriends : Value := .undefined
  websites : Value := .undefined

namespace Resident

/-- What is known of a resident, field by field. -/
def fields (r : Resident) : Dict Value :=
  [("owner", r.owner), ("viewer", r.viewer), ("posts", r.posts), ("guestbook", r.guestbook),
    ("images", r.images), ("capabilities", r.capabilities),
    ("featuredFriends", r.featuredFriends), ("websites", r.websites)]

/-- The fields that a resident may be given with. -/
def fieldNames : List String :=
  ["owner", "viewer", "posts", "guestbook", "images", "capabilities", "featuredFriends", "websites"]

/-- The object that templates read. -/
def toValue (r : Resident) : Value := .object r.fields

/-- A field by its name; other names are undefined. -/
def field (r : Resident) (name : String) : Value := (Dict.get? r.fields name).getD .undefined

/-- Takes the known fields out of a map. -/
def ofFields (d : Dict Value) : Resident :=
  let get (name : String) : Value := (Dict.get? d name).getD .undefined
  { owner := get "owner", viewer := get "viewer", posts := get "posts",
    guestbook := get "guestbook", images := get "images", capabilities := get "capabilities",
    featuredFriends := get "featuredFriends", websites := get "websites" }

def toJson (r : Resident) : Json := r.toValue.toJson

/-- A field that is not given is as it is by default. -/
def ofJson? (j : Json) : Option Resident := do
  let r ← j.record? fieldNames
  let entries ← r.members.mapM fun m => (Value.ofJson? m.2).map (m.1, ·)
  some (ofFields entries)

end Resident

end Archipelago
