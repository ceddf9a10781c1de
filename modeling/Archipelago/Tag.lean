import Archipelago.Json.Record
import Archipelago.Text.Casing
import Archipelago.Text.Search

/-! # The tags of templates -/

namespace Archipelago

open Text (occursIn startsWith)

/-- Structural elements that pass through to a page. -/
def htmlTags : List String :=
  ["a", "article", "aside", "b", "blockquote", "br", "caption", "code", "dd", "div", "dl", "dt",
    "em", "figcaption", "figure", "footer", "h1", "h2", "h3", "h4", "h5", "h6", "header", "hr",
    "i", "img", "label", "li", "main", "mark", "nav", "ol", "p", "pre", "s", "section", "small",
    "span", "strong", "sub", "sup", "table", "tbody", "td", "tfoot", "th", "thead", "tr", "u", "ul"]

/-- Is a name one of the elements of HTML that may be used? -/
def isHtmlTag (name : String) : Bool := htmlTags.contains name

/-- Steps of an event. -/
inductive ActionTag where
  | set
  | increment
  | decrement
  | toggle
  | reset
  | cycle
  | push
  | pop
  | removeAt
  | objectSet
  | merge
  | clone
  | filter
  | sort
  | transform
  | find
  | sum
  | sequence
  | delay
deriving DecidableEq, Repr

/-- Components that show data about the resident. -/
inductive ResidentTag where
  | profilePhoto
  | displayName
  | bio
  | blogPosts
  | guestbook
  | friendDisplay
  | websiteDisplay
  | imageCarousel
deriving DecidableEq, Repr

/-- The tags that hold what is done on an event. -/
inductive EventTag where
  | onClick
  | onChange
  | onMount
  | onInterval
deriving DecidableEq, Repr

/-- Tags with a meaning of their own. -/
inductive DslTag where
  | var
  | showVar
  /-- The parent of an `If` and what follows it; it is never written. -/
  | ifChain
  | ifBranch
  | elseIfBranch
  | elseBranch
  | switch
  | caseBranch
  | defaultBranch
  | forEach
  | button
  | textInput
  | checkbox
  | event (e : EventTag)
  | action (a : ActionTag)
  | resident (r : ResidentTag)
deriving DecidableEq, Repr

/-- What tags are for. -/
inductive TagGroup where
  | declaration
  | display
  | controlFlow
  | interactive
  | event
  | action
  | resident
deriving DecidableEq, Repr

namespace TagGroup

def name : TagGroup → String
  | declaration => "Declaration"
  | display => "Display"
  | controlFlow => "ControlFlow"
  | interactive => "Interactive"
  | event => "Event"
  | action => "Action"
  | resident => "Resident"

end TagGroup

namespace ActionTag

def all : List ActionTag :=
  [set, increment, decrement, toggle, reset, cycle, push, pop, removeAt, objectSet, merge, clone,
    filter, sort, transform, find, sum, sequence, delay]

def name : ActionTag → String
  | set => "Set"
  | increment => "Increment"
  | decrement => "Decrement"
  | toggle => "Toggle"
  | reset => "Reset"
  | cycle => "Cycle"
  | push => "Push"
  | pop => "Pop"
  | removeAt => "RemoveAt"
  | objectSet => "ObjectSet"
  | merge => "Merge"
  | clone => "Clone"
  | filter => "Filter"
  | sort => "Sort"
  | transform => "Transform"
  | find => "Find"
  | sum => "Sum"
  | sequence => "Sequence"
  | delay => "Delay"

end ActionTag

namespace ResidentTag

def all : List ResidentTag :=
  [profilePhoto, displayName, bio, blogPosts, guestbook, friendDisplay, websiteDisplay,
    imageCarousel]

def name : ResidentTag → String
  | profilePhoto => "ProfilePhoto"
  | displayName => "DisplayName"
  | bio => "Bio"
  | blogPosts => "BlogPosts"
  | guestbook => "Guestbook"
  | friendDisplay => "FriendDisplay"
  | websiteDisplay => "WebsiteDisplay"
  | imageCarousel => "ImageCarousel"

def ofName? (s : String) : Option ResidentTag := all.find? (·.name = s)

end ResidentTag

namespace EventTag

def all : List EventTag := [onClick, onChange, onMount, onInterval]

def name : EventTag → String
  | onClick => "OnClick"
  | onChange => "OnChange"
  | onMount => "OnMount"
  | onInterval => "OnInterval"

end EventTag

namespace DslTag

/-- The tags that authors write. -/
def written : List DslTag :=
  [var, showVar, ifBranch, elseIfBranch, elseBranch, switch, caseBranch, defaultBranch, forEach,
    button, textInput, checkbox] ++ EventTag.all.map event ++ ActionTag.all.map action
    ++ ResidentTag.all.map resident

def name : DslTag → String
  | var => "Var"
  | showVar => "ShowVar"
  | ifChain => "IfChain"
  | ifBranch => "If"
  | elseIfBranch => "ElseIf"
  | elseBranch => "Else"
  | switch => "Switch"
  | caseBranch => "Case"
  | defaultBranch => "Default"
  | forEach => "ForEach"
  | button => "Button"
  | textInput => "TextInput"
  | checkbox => "Checkbox"
  | event e => e.name
  | action a => a.name
  | resident r => r.name

/-- The tag that an author means by a name. -/
def ofName? (s : String) : Option DslTag := written.find? (·.name = s)

/-- What a tag is for. -/
def group : DslTag → TagGroup
  | var => .declaration
  | showVar => .display
  | ifChain | ifBranch | elseIfBranch | elseBranch | switch | caseBranch | defaultBranch
  | forEach => .controlFlow
  | button | textInput | checkbox => .interactive
  | event _ => .event
  | action _ => .action
  | resident _ => .resident

def ofJson? : Json → Option DslTag := Json.unit? ((ifChain :: written).map fun t => (t.name, t))

/-- Is an island of this name driven by its template? -/
def drivesIsland (name : String) : Bool :=
  name = ifChain.name ||
    match ofName? name with
    | some t =>
      match t.group with
      | .display | .controlFlow | .interactive | .event => true
      | _ => false
    | none => false

end DslTag

/-- Attributes whose value is an address. -/
def addressAttributes : List String := ["href", "src", "action", "formaction", "xlink:href"]

/-- Why an attribute may not stand on an element, if it may not. Blanks and control characters in
the value do not count. -/
def unsafeReason? (name value : String) : Option String :=
  let name := Text.asciiLower name
  let compact := Text.asciiLower <| String.ofList <|
    value.toList.filter fun c => !Text.isBlank c && !Text.isControl c
  if startsWith "on" name then some "event handler attributes are not allowed"
  else if startsWith "data-tessera" name then some "reserved attribute"
  else if name = "style" && (occursIn "expression(".toList compact.toList
      || occursIn "url(javascript:".toList compact.toList) then some "unsafe style value"
  else if addressAttributes.contains name then
    if startsWith "javascript:" compact || startsWith "vbscript:" compact then
      some "script URLs are not allowed"
    else if startsWith "data:" compact && !startsWith "data:image/" compact then
      some "data URLs are only allowed for images"
    else none
  else none

end Archipelago
