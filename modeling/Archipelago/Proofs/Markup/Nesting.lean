import Archipelago.Proofs.Markup.Places

/-!
# How deep markup is nested

A reading looks at the limit for nesting only where a tag opens. So two readings with different
limits go through a text side by side up to the first element that one of them is not allowed, and
which one that is can be told from the tree that the other one finds.
-/

namespace Archipelago.Markup

/-! ## Depths -/

namespace RawNode

mutual

/-- How deep the elements of a tree are nested. -/
def depth : RawNode → Nat
  | text _ _ => 0
  | element _ children => depthAll children + 1

/-- How deep the deepest of some nodes is. -/
def depthAll : List RawNode → Nat
  | [] => 0
  | n :: ns => max (depth n) (depthAll ns)

end

mutual

/-- The tags of a tree in the order of the document, with the depth of each, if the root is `level`
deep. -/
def levels (level : Nat) : RawNode → List (Nat × OpenTag)
  | text _ _ => []
  | element tag children => (level, tag) :: levelsAll (level + 1) children

/-- The levels of a list of nodes, in the order of the source. -/
def levelsAll (level : Nat) : List RawNode → List (Nat × OpenTag)
  | [] => []
  | n :: ns => levels level n ++ levelsAll level ns

end

theorem levelsAll_append (level : Nat) (ns ms : List RawNode) :
    levelsAll level (ns ++ ms) = levelsAll level ns ++ levelsAll level ms := by
  induction ns with
  | nil => rfl
  | cons n ns ih => rw [List.cons_append, levelsAll, levelsAll, ih, List.append_assoc]

mutual

theorem depth_le_iff {level most : Nat} : (n : RawNode) → level ≤ most + 1 →
    (level + n.depth ≤ most + 1 ↔ ∀ e ∈ levels level n, e.1 ≤ most)
  | text _ _, h => by simpa [depth, levels] using h
  | element tag children, h => by
    rw [depth, levels, List.forall_mem_cons]
    by_cases hlevel : level ≤ most
    · rw [← depthAll_le_iff children (Nat.succ_le_succ hlevel)]
      show _ ↔ level ≤ most ∧ _
      omega
    · exact ⟨fun hdepth => absurd hdepth (by omega), fun hall => absurd hall.1 hlevel⟩

/-- A tree is no deeper than all of its elements. -/
theorem depthAll_le_iff {level most : Nat} : (ns : List RawNode) → level ≤ most + 1 →
    (level + depthAll ns ≤ most + 1 ↔ ∀ e ∈ levelsAll level ns, e.1 ≤ most)
  | [], h => by simpa [depthAll, levelsAll] using h
  | n :: ns, h => by
    rw [depthAll, levelsAll, List.forall_mem_append, ← depth_le_iff n h, ← depthAll_le_iff ns h]
    omega

end

/-- The first element in the order of the document that is more than so many levels deep. -/
def firstBelow? (most : Nat) (ns : List RawNode) : Option OpenTag :=
  ((levelsAll 1 ns).find? fun e => most < e.1).map (·.2)

end RawNode

namespace Forest

open RawNode (levels levelsAll)

/-- The tags of the elements that are still open and of those in them. -/
def openedLevels : List (OpenTag × List RawNode) → List (Nat × OpenTag)
  | [] => []
  | (tag, children) :: outer =>
    openedLevels outer ++ (outer.length + 1, tag) :: levelsAll (outer.length + 2) children.reverse

/-- The tags so far, with their depths. -/
def tags (f : Forest) : List (Nat × OpenTag) := levelsAll 1 f.done.reverse ++ openedLevels f.opened

variable {f : Forest}

theorem tags_add (f : Forest) (n : RawNode) :
    (f.add n).tags = f.tags ++ levels (f.opened.length + 1) n := by
  have hlast (level : Nat) (ns : List RawNode) :
      levelsAll level (n :: ns).reverse = levelsAll level ns.reverse ++ levels level n := by
    rw [List.reverse_cons, RawNode.levelsAll_append, levelsAll, levelsAll, List.append_nil]
  obtain ⟨opened, done⟩ := f
  cases opened with
  | nil => simp only [add, tags, openedLevels, hlast, List.append_nil, List.length_nil]
  | cons e outer =>
    simp only [add, tags, openedLevels, hlast, List.append_assoc, List.cons_append,
      List.length_cons]

theorem tags_open (f : Forest) (tag : OpenTag) :
    tags { f with opened := (tag, []) :: f.opened } = f.tags ++ [(f.opened.length + 1, tag)] := by
  simp [tags, openedLevels, levelsAll]

/-- A closing tag keeps what there is. -/
theorem tags_close {tag : OpenTag} {children done : List RawNode}
    {outer : List (OpenTag × List RawNode)} :
    (add ⟨outer, done⟩ (.element tag children.reverse)).tags =
      tags ⟨(tag, children) :: outer, done⟩ := by
  rw [tags_add]
  simp [tags, openedLevels, levels]

end Forest

/-! ## Rounds -/

section Lengths

variable {c c' : Cursor}

theorem Cursor.length_drop (c : Cursor) (n : Nat) : (c.drop n).rest.length = c.rest.length - n :=
  List.length_drop

theorem Cursor.length_takeWhile_le (c : Cursor) (p : Char → Bool) :
    (c.takeWhile p).2.rest.length ≤ c.rest.length :=
  (List.dropWhile_sublist p).length_le

theorem Cursor.length_skipBlanks_le (c : Cursor) : c.skipBlanks.rest.length ≤ c.rest.length :=
  c.length_takeWhile_le _

theorem length_name_le (c : Cursor) : (name c).2.rest.length ≤ c.rest.length :=
  c.length_takeWhile_le _

theorem length_attrValue_le {start : Nat} {value : String}
    (h : attrValue start c = .ok (value, c')) :
    c'.rest.length ≤ c.rest.length := by
  unfold attrValue at h
  split at h
  · split at h
    · rename_i q _ _ _
      dsimp only at h
      split at h
      · cases h
      · cases h
        have htake := (c.drop 1).length_takeWhile_le (· ≠ q)
        rw [Cursor.length_drop] at htake ⊢
        omega
    · dsimp only at h
      split at h
      · cases h
      · cases h
        exact c.length_takeWhile_le _
  · cases h

theorem length_readAttr_le {tag : String} {a : Attr} (h : readAttr tag c = .ok (a, c')) :
    c'.rest.length ≤ c.rest.length := by
  have hname := Nat.le_trans (name c).2.length_skipBlanks_le (length_name_le c)
  unfold readAttr at h
  dsimp only at h
  split at h
  · cases h
  · split at h
    · obtain ⟨⟨value, c''⟩, hvalue, h⟩ := bind_eq_ok.1 h
      cases h
      have hvalue := length_attrValue_le hvalue
      have hblanks := ((name c).2.skipBlanks.drop 1).length_skipBlanks_le
      rw [Cursor.length_drop] at hblanks
      show c''.rest.length ≤ _
      omega
    · cases h
      exact hname

theorem length_attributes_le {start : Nat} {tag : String} {fuel : Nat} {acc : List Attr}
    {found : List Attr × Bool} (h : attributes start tag fuel acc c = .ok (found, c')) :
    c'.rest.length ≤ c.rest.length := by
  induction fuel generalizing acc c with
  | zero => cases h
  | succ fuel ih =>
    have hblanks := c.length_skipBlanks_le
    unfold attributes at h
    dsimp only at h
    split at h
    · cases h
    · cases h
      rw [Cursor.length_drop]
      omega
    · cases h
      rw [Cursor.length_drop]
      omega
    · cases h
    · obtain ⟨⟨a, c''⟩, hattr, h⟩ := bind_eq_ok.1 h
      exact Nat.le_trans (Nat.le_trans (ih h) (length_readAttr_le hattr)) hblanks

/-- A tag takes at least one character. -/
theorem length_openTag_lt {fuel : Nat} {found : OpenTag × Bool} (hc : c.rest ≠ [])
    (h : openTag fuel c = .ok (found, c')) : c'.rest.length < c.rest.length := by
  unfold openTag at h
  dsimp only at h
  obtain ⟨⟨⟨attrs, closed⟩, c''⟩, hattrs, h⟩ := bind_eq_ok.1 h
  cases h
  have hattrs := Nat.le_trans (length_attributes_le hattrs) (length_name_le _)
  rw [Cursor.length_drop] at hattrs
  have hpos := List.length_pos_iff.2 hc
  show c''.rest.length < _
  omega

theorem length_closingTag_lt {tag : String} (hc : c.rest ≠ []) (h : closingTag c = .ok (tag, c')) :
    c'.rest.length < c.rest.length := by
  unfold closingTag at h
  dsimp only at h
  split at h
  · cases h
    have hname := Nat.le_trans (name (c.drop 2)).2.length_skipBlanks_le (length_name_le _)
    rw [Cursor.length_drop] at hname
    rw [Cursor.length_drop]
    have hpos := List.length_pos_iff.2 hc
    omega
  · cases h

theorem textRun_length_lt {cs : List Char} (hcs : cs ≠ []) (h : startsPiece cs = false) :
    (textRun cs).2.length < cs.length := by
  cases cs with
  | nil => exact absurd rfl hcs
  | cons c cs =>
    have hlength := congrArg List.length (textRun_append cs)
    rw [List.length_append] at hlength
    rw [textRun, h, if_neg Bool.false_ne_true]
    show (textRun cs).2.length < cs.length + 1
    omega

theorem comment?_length_lt {cs taken rest : List Char} (h : comment? cs = some (taken, rest)) :
    rest.length < cs.length := by
  have hlength := congrArg List.length (comment?_append h)
  rw [List.length_append] at hlength
  have htaken : taken ≠ [] := by
    rintro rfl
    unfold comment? at h
    split at h
    · cases h
    · obtain ⟨x, -, hx⟩ := Option.map_eq_some_iff.1 h
      cases hx
    · cases h
  have hpos := List.length_pos_iff.2 htaken
  omega

end Lengths

open RawNode (levelsAll)

/-- What a round does, whatever the limit is. -/
inductive Round (fuel : Nat) (f : Forest) (c : Cursor) : Prop where
  | ends (r : Except CompileError (List RawNode)) (hr : ∀ most, nodes most (fuel + 1) f c = r)
    (htags : ∀ raw, r = .ok raw → levelsAll 1 raw = f.tags)
  | passes {f' : Forest} {c' : Cursor}
    (h : ∀ most, nodes most (fuel + 1) f c = nodes most fuel f' c')
    (htags : f'.tags = f.tags) (hc : c'.rest.length < c.rest.length)
  /-- Only here the limit counts. -/
  | opens {f' : Forest} {c' : Cursor} (tag : OpenTag)
    (h : ∀ most, nodes most (fuel + 1) f c =
      if most ≤ f.opened.length then
        .error ⟨.limitExceeded, s!"nesting deeper than {most} levels", tag.span⟩
      else nodes most fuel f' c')
    (htags : f'.tags = f.tags ++ [(f.opened.length + 1, tag)]) (hc : c'.rest.length < c.rest.length)

/-- A round ends the reading, or goes on with fewer characters. It adds one tag at most, and only if
the limit allows one. -/
theorem round (fuel : Nat) (f : Forest) (c : Cursor) : Round fuel f c := by
  have hfails (e : CompileError) (h : ∀ most, nodes most (fuel + 1) f c = .error e) :
      Round fuel f c := .ends (.error e) h nofun
  have hnodes (most : Nat) := nodes.eq_2 most f c fuel
  by_cases hempty : c.rest.isEmpty = true
  · cases hopened : f.opened with
    | nil =>
      refine .ends (.ok f.done.reverse) (fun most => ?_) fun raw h => ?_
      · rw [hnodes, if_pos hempty, hopened]
      · cases h
        rw [Forest.tags, hopened, Forest.openedLevels, List.append_nil]
    | cons e outer =>
      refine hfails ⟨.malformed, s!"unclosed tag <{e.1.name}>", e.1.span⟩ fun most => ?_
      rw [hnodes, if_pos hempty, hopened]
  have hrest : c.rest ≠ [] := fun h => hempty (List.isEmpty_iff.2 h)
  by_cases hcomment : startsComment c.rest = true
  · cases hsplit : comment? c.rest with
    | some split =>
      simp only [if_neg hempty, if_pos hcomment, hsplit] at hnodes
      exact .passes hnodes rfl (comment?_length_lt hsplit)
    | none =>
      refine hfails (c.toEnd.malformed c.pos "unterminated comment") fun most => ?_
      rw [hnodes, if_neg hempty, if_pos hcomment, hsplit]
  by_cases hclosing : startsClosing c.rest = true
  · cases hread : closingTag c with
    | error e =>
      refine hfails e fun most => ?_
      rw [hnodes, if_neg hempty, if_neg hcomment, if_pos hclosing, hread]
      rfl
    | ok found =>
      obtain ⟨tag, c'⟩ := found
      have hlength := length_closingTag_lt hrest hread
      simp only [if_neg hempty, if_neg hcomment, if_pos hclosing, hread, bind,
        Except.bind] at hnodes
      obtain ⟨opened, done⟩ := f
      cases opened with
      | nil => exact hfails _ hnodes
      | cons e outer =>
        obtain ⟨opened, children⟩ := e
        dsimp only at hnodes
        by_cases hname : opened.name = tag
        · simp only [if_pos hname] at hnodes
          exact .passes hnodes Forest.tags_close hlength
        · simp only [if_neg hname] at hnodes
          exact hfails _ hnodes
  by_cases hopening : startsOpening c.rest = true
  · cases hread : openTag fuel c with
    | error e =>
      refine hfails e fun most => ?_
      rw [hnodes, if_neg hempty, if_neg hcomment, if_neg hclosing, if_pos hopening, hread]
      rfl
    | ok found =>
      obtain ⟨⟨tag, closed⟩, c'⟩ := found
      have hlength := length_openTag_lt hrest hread
      simp only [if_neg hempty, if_neg hcomment, if_neg hclosing, if_pos hopening, hread, bind,
        Except.bind] at hnodes
      by_cases hleaf : (closed || voidElements.contains tag.name) = true
      · simp only [if_pos hleaf] at hnodes
        exact .opens tag hnodes (f.tags_add _) hlength
      · simp only [if_neg hleaf] at hnodes
        exact .opens tag hnodes (f.tags_open tag) hlength
  · have htext : startsPiece c.rest = false := by
      simp only [startsPiece, hcomment, hclosing, hopening, Bool.or_self]
    simp only [if_neg hempty, if_neg hcomment, if_neg hclosing, if_neg hopening] at hnodes
    exact .passes hnodes ((f.tags_add _).trans (List.append_nil _)) (textRun_length_lt hrest htext)

/-! ## Whole texts -/

section Runs

variable {d D fuel : Nat} {f : Forest} {c : Cursor} {raw : List RawNode}

/-- The elements that a reading finds come behind those that it has found. -/
theorem tags_prefix_of_nodes (h : nodes D fuel f c = .ok raw) (hfuel : c.rest.length < fuel) :
    f.tags <+: levelsAll 1 raw := by
  induction fuel generalizing f c with
  | zero => exact absurd hfuel (Nat.not_lt_zero _)
  | succ fuel ih =>
    cases round fuel f c with
    | ends r hr htags => exact htags raw ((hr D).symm.trans h) ▸ List.prefix_rfl
    | passes hnodes htags hc => exact htags ▸ ih ((hnodes D).symm.trans h) (by omega)
    | opens tag hnodes htags hc =>
      rw [hnodes] at h
      split at h
      · cases h
      · have htag := ih h (by omega)
        rw [htags] at htag
        exact (List.prefix_append _ _).trans htag

/-- A higher limit changes nothing where a lower one has not been met. -/
theorem nodes_mono (hd : d ≤ D) (h : nodes d fuel f c = .ok raw) : nodes D fuel f c = .ok raw := by
  induction fuel generalizing f c with
  | zero => exact h
  | succ fuel ih =>
    cases round fuel f c with
    | ends r hr htags => rw [hr] at h ⊢; exact h
    | passes hnodes htags hc => rw [hnodes] at h ⊢; exact ih h
    | opens tag hnodes htags hc =>
      rw [hnodes] at h ⊢
      split at h
      · cases h
      · rw [if_neg (by omega)]
        exact ih h

/-- A lower limit ends the reading at the first element that is deeper. -/
theorem nodes_lower (hf : ∀ e ∈ f.tags, e.1 ≤ d) (hfuel : c.rest.length < fuel)
    (h : nodes D fuel f c = .ok raw) :
    nodes d fuel f c = match (levelsAll 1 raw).find? fun e => d < e.1 with
      | none => .ok raw
      | some e => .error ⟨.limitExceeded, s!"nesting deeper than {d} levels", e.2.span⟩ := by
  have hshallow {tags : List (Nat × OpenTag)} (h : ∀ e ∈ tags, e.1 ≤ d) :
      tags.find? (fun e => d < e.1) = none :=
    List.find?_eq_none.2 fun e he => by simpa using h e he
  induction fuel generalizing f c with
  | zero => exact absurd hfuel (Nat.not_lt_zero _)
  | succ fuel ih =>
    cases round fuel f c with
    | ends r hr htags =>
      rw [hr] at h ⊢
      rw [htags raw h, hshallow hf, h]
    | passes hnodes htags hc =>
      rw [hnodes] at h ⊢
      exact ih (htags ▸ hf) (by omega) h
    | opens tag hnodes htags hc =>
      rw [hnodes] at h ⊢
      split at h
      · cases h
      · split
        · rename_i hdeep
          obtain ⟨more, hraw⟩ := tags_prefix_of_nodes h (by omega)
          rw [← hraw, htags, List.append_assoc, List.find?_append, hshallow hf, Option.none_or,
            List.singleton_append, List.find?_cons_of_pos (by simpa using Nat.lt_succ_of_le hdeep)]
        · rename_i hroom
          refine ih ?_ (by omega) h
          rw [htags]
          exact List.forall_mem_append.2 ⟨hf, List.forall_mem_singleton.2 (Nat.lt_of_not_le hroom)⟩

end Runs

/-- The limit for nesting is exact. What can be read under a limit can be read under every higher
one, with the same tree. A tree that has been found under a limit is found under every lower one
that it keeps to, and any other lower one is told of at the first element in the document that is
deeper. -/
theorem parse_depth {d D : Nat} (h : d ≤ D) (src : String) :
    (∀ raw, parse d src = .ok raw → parse D src = .ok raw) ∧
      ∀ raw, parse D src = .ok raw →
        (RawNode.depthAll raw ≤ d → parse d src = .ok raw) ∧
        (d < RawNode.depthAll raw → ∃ tag, RawNode.firstBelow? d raw = some tag ∧
          parse d src = .error ⟨.limitExceeded, s!"nesting deeper than {d} levels", tag.span⟩) := by
  refine ⟨fun raw => nodes_mono h, fun raw hraw => ?_⟩
  have hlower : parse d src = _ := nodes_lower (List.forall_mem_nil _) (Nat.lt_succ_self _) hraw
  have hdepth := RawNode.depthAll_le_iff raw (Nat.succ_le_succ (Nat.zero_le d))
  constructor
  · intro hle
    have hshallow := hdepth.1 (by omega)
    rw [hlower, List.find?_eq_none.2 fun e he => by simpa using hshallow e he]
  · intro hlt
    cases hfind : (levelsAll 1 raw).find? fun e => d < e.1 with
    | none =>
      refine absurd (hdepth.2 fun e he => ?_) (by omega)
      simpa using List.find?_eq_none.1 hfind e he
    | some e =>
      rw [hfind] at hlower
      exact ⟨e.2, by rw [RawNode.firstBelow?, hfind, Option.map_some], hlower⟩

/-- Elements that are three deep, the last of them behind one that closes itself. -/
def nestedMarkup : String := "<div>a<p><br/><img></p></div><hr>"

/-- A tree of three levels is found under a limit of three. Under a limit of two the first element
that is too deep is the one that closes itself, and not the last one. -/
theorem parse_depth_nested :
    2 ≤ 3 ∧ ∃ raw, parse 3 nestedMarkup = .ok raw ∧ 2 < RawNode.depthAll raw ∧
      ∃ tag : OpenTag, tag.name = "br" ∧ parse 2 nestedMarkup =
        .error ⟨.limitExceeded, s!"nesting deeper than {2} levels", tag.span⟩ := by
  have hraw : (parse 3 nestedMarkup).toOption.map (fun raw =>
      decide (2 < RawNode.depthAll raw ∧
        (RawNode.firstBelow? 2 raw).map (·.name) = some "br")) = some true := by
    decide +kernel
  obtain ⟨raw, hparse, hdeep⟩ := Option.map_eq_some_iff.1 hraw
  obtain ⟨hdepth, hname⟩ := of_decide_eq_true hdeep
  have hparse := toOption_eq_some.1 hparse
  obtain ⟨tag, hfirst, hlower⟩ :=
    ((parse_depth (by decide : 2 ≤ 3) nestedMarkup).2 raw hparse).2 hdepth
  rw [hfirst] at hname
  exact ⟨by decide, raw, hparse, hdepth, tag, Option.some.inj hname, hlower⟩

end Archipelago.Markup
