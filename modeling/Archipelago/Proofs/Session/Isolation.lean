import Archipelago.Proofs.Document.Forest
import Archipelago.Proofs.Session.Trial

/-!
# Islands that the registry refuses

A pass goes on behind an island that fails. Place by place it is compared with the pass that is not
given the islands which the registry refuses: a place of another island is passed in the same way by
both, and what happens at a place that is refused is not seen from any other.
-/

namespace Archipelago

open Hydration (State)

namespace Session

namespace Trial

variable {c : Trial} {since : Document} {s s' : Session}

/-! ## Results side by side -/

/-- The first result has all the errors of the second one, and besides those of the islands that are
refused. -/
structure Tally (c : Trial) (errors : List HydrationError) (r r' : HydrationResult) : Prop where
  hydrated : r'.hydrated = r.hydrated
  others : r'.errors = r.errors.filter fun e => !e.concerns c.refused
  refused : r.errors.filter (·.concerns c.refused) = errors

namespace Tally

variable {errors : List HydrationError} {r r' : HydrationResult} (h : c.Tally errors r r')
include h

theorem warn (warnings warnings' : List String) :
    c.Tally errors { r with warnings } { r' with warnings := warnings' } :=
  ⟨h.hydrated, h.others, h.refused⟩

theorem mounted : c.Tally errors { r with hydrated := r.hydrated + 1 }
    { r' with hydrated := r'.hydrated + 1 } :=
  ⟨congrArg (· + 1) h.hydrated, h.others, h.refused⟩

theorem failed {e : HydrationError} (he : e.concerns c.refused = false) :
    c.Tally errors { r with failed := r.failed + 1, errors := r.errors ++ [e] }
      { r' with failed := r'.failed + 1, errors := r'.errors ++ [e] } where
  hydrated := h.hydrated
  others := by
    show r'.errors ++ [e] = _
    rw [List.filter_append, ← h.others, List.filter_singleton, he]
    rfl
  refused := by
    show (r.errors ++ [e]).filter _ = _
    rw [List.filter_append, h.refused, List.filter_singleton, he]
    exact List.append_nil _

theorem refuse {e : HydrationError} (he : e.concerns c.refused = true) :
    c.Tally (errors ++ [e]) { r with failed := r.failed + 1, errors := r.errors ++ [e] } r' where
  hydrated := h.hydrated
  others := by
    show _ = (r.errors ++ [e]).filter _
    rw [List.filter_append, ← h.others, List.filter_singleton, he]
    exact (List.append_nil _).symm
  refused := by
    show (r.errors ++ [e]).filter _ = _
    rw [List.filter_append, h.refused, List.filter_singleton, he]
    rfl

end Tally

/-! ## One placeholder side by side -/

/-- What has become of some places, by a pass and by the one without the islands that are
refused. -/
structure Passed (c : Trial) (places : List NodeId) (before : Document)
    (errors : List HydrationError) (all rest : Session × HydrationResult) : Prop where
  beside : ∃ since, c.Beside since all.1 rest.1
  tally : c.Tally errors all.2 rest.2
  kept : Document.KeepsOn (fun n => c.Barred n ∧ n ∉ places) before all.1.document
  failed : ∀ n ∈ places, ∀ e, c.start.refusal? c.pass c.refused n = some e →
    all.1.document.attr? n Hydration.stateAttr = some State.failed.name ∧
      all.1.document.Shows n (c.start.fallbackHtml e)

/-- A place that has failed is left alone by the rest of the pass. -/
theorem Passed.cons {n : NodeId} {places : List NodeId} {before : Document}
    {errors errors' : List HydrationError} {x x' y y' : Session × HydrationResult}
    (hx : c.Passed [n] before errors x x') (hy : c.Passed places x.1.document errors' y y')
    (hn : n ∉ places) : c.Passed (n :: places) before errors' y y' where
  beside := hy.beside
  tally := hy.tally
  kept :=
    (hx.kept.mono fun m hm => ⟨hm.1, fun he => hm.2 (List.mem_singleton.1 he ▸ .head _)⟩).trans
      (hy.kept.mono fun m hm => ⟨hm.1, fun hmem => hm.2 (.tail _ hmem)⟩)
  failed m hm e he := by
    rcases List.mem_cons.1 hm with rfl | hm
    · obtain ⟨hstate, hshows⟩ := hx.failed m (.head _) e he
      obtain ⟨attributes, children, ⟨tag, hcore⟩, -⟩ := id hshows
      have hbarred : c.Barred m := by
        by_contra hfree
        cases (refusal?_eq_none hfree).symm.trans he
      exact ⟨(hy.kept.attr? ⟨hbarred, hn⟩ hcore _).trans hstate, hy.kept.shows ⟨hbarred, hn⟩ hshows⟩
    · exact hy.failed m hm e he

variable (hkeyed : c.pass.Keyed) {errors : List HydrationError} {r r' : HydrationResult}
  {n : NodeId} (hn : n ∈ c.places)
include hkeyed hn

/-- A place that is not barred is passed in the same way. Nothing is refused at it, and so nothing
barred is touched. -/
theorem passed_free (h : c.Beside since s s') (htally : c.Tally errors r r') (hfree : ¬c.Barred n) :
    c.Passed [n] s.document errors (hydrateOne c.pass s r n) (hydrateOne c.rest s' r' n) := by
  obtain ⟨id, hid₀, hid, hid'⟩ := h.exists_island hn
  have hout : id ∉ c.refused := fun hmem => hfree ⟨id, hmem, hid₀⟩
  have hpassed : ∀ {all rest : Session × HydrationResult}, c.Beside s.document all.1 rest.1 →
      c.Tally errors all.2 rest.2 → c.Passed [n] s.document errors all rest := by
    intro all rest hbeside htally
    refine ⟨⟨_, hbeside⟩, htally, hbeside.twin.since.mono fun _ hm => hm.1, fun m hm e he => ?_⟩
    rw [List.mem_singleton.1 hm, refusal?_eq_none hfree] at he
    cases he
  have hrest : Dict.get? c.rest.islands id = Dict.get? c.pass.islands id :=
    (c.get?_rest id).trans (if_pos hout)
  have hstate := h.twin.attrs n hn hfree Hydration.stateAttr
  cases hisland : Dict.get? c.pass.islands id with
  | none =>
    obtain ⟨warnings, hall⟩ := hydrateOne_unknown hid hisland r
    obtain ⟨warnings', hrest⟩ := hydrateOne_unknown hid' (hrest.trans hisland) r'
    rw [hall, hrest]
    exact hpassed h.rebase (htally.warn warnings warnings')
  | some island =>
    obtain rfl := hkeyed id island hisland
    cases hstatefree : (State.ofAttr (s.document.attr? n Hydration.stateAttr)).isFree with
    | false =>
      rw [hydrateOne_taken hid hisland hstatefree,
        hydrateOne_taken hid' (hrest.trans hisland) (hstate ▸ hstatefree)]
      exact hpassed h.rebase htally
    | true =>
      obtain ⟨hmount, hresult⟩ := (h.rebase.claim hn hfree).mount hn hfree hout
      rw [hydrateOne_vacant ⟨hid, hstatefree⟩ hisland,
        hydrateOne_vacant ⟨hid', hstate ▸ hstatefree⟩ (hrest.trans hisland)]
      rcases hs : (s.claim n).mount c.pass island n with ⟨t, outcome⟩
      rcases hs' : (s'.claim n).mount c.rest island n with ⟨t', outcome'⟩
      rw [hs, hs'] at hmount hresult
      obtain rfl : outcome' = outcome := hresult
      cases outcome' with
      | ok u => exact hpassed (hmount.record island .hydrated) htally.mounted
      | error e =>
        refine hpassed ((hmount.fail hn hfree e).record island .failed) (htally.failed ?_)
        rw [HydrationError.concerns_eq (mount_eq_error hs).2]
        exact decide_eq_false hout

/-- A place that is barred fails, or it is left as it is. -/
theorem passed_barred (h : c.Beside since s s') (htally : c.Tally errors r r')
    (hbarred : c.Barred n) (hfresh : s.document.attr? n Hydration.stateAttr =
      c.start.document.attr? n Hydration.stateAttr)
    (hrefused : c.Refuses) :
    c.Passed [n] s.document (errors ++ (c.start.refusal? c.pass c.refused n).toList)
      (hydrateOne c.pass s r n) (hydrateOne c.rest s' r' n) := by
  obtain ⟨id, hid₀, hid, hid'⟩ := h.exists_island hn
  obtain ⟨id', hin, hid₀'⟩ := hbarred
  obtain rfl := Option.some.inj (hid₀.symm.trans hid₀')
  have hrest : Dict.get? c.rest.islands id = none :=
    (c.get?_rest id).trans (if_neg (not_not_intro hin))
  obtain ⟨warnings', hleft⟩ := hydrateOne_unknown hid' hrest r'
  have hrefusal := refusal?_of_mem hid₀ hin c.pass
  have hquiet : c.start.refusal? c.pass c.refused n = none → ∀ warnings,
      c.Passed [n] s.document (errors ++ (c.start.refusal? c.pass c.refused n).toList)
        (s, { r with warnings }) (s', { r' with warnings := warnings' }) := by
    intro hnone warnings
    rw [hnone, Option.toList_none, List.append_nil]
    refine ⟨⟨since, h⟩, htally.warn warnings warnings', .refl _ _, fun m hm e he => ?_⟩
    rw [List.mem_singleton.1 hm, hnone] at he
    cases he
  rw [hleft]
  cases hisland : Dict.get? c.pass.islands id with
  | none =>
    obtain ⟨warnings, hall⟩ := hydrateOne_unknown hid hisland r
    rw [hall]
    exact hquiet (by rw [hrefusal, hisland]; rfl) warnings
  | some island =>
    obtain rfl := hkeyed id island hisland
    rw [hisland, Option.bind_some, ← hfresh] at hrefusal
    cases hstatefree : (State.ofAttr (s.document.attr? n Hydration.stateAttr)).isFree with
    | false =>
      rw [hydrateOne_taken hid hisland hstatefree]
      exact hquiet (by rw [hrefusal, hstatefree]; rfl) r.warnings
    | true =>
      obtain ⟨e, he⟩ := hrefused _ hin island hisland
      rw [hstatefree, if_pos rfl, he] at hrefusal
      have hvacant : s.Vacant n island.id := ⟨hid, hstatefree⟩
      have hmount := mount_refused (s := s.claim n) (p := c.pass) (h.get?_mounted hin)
        (show s.registry.mount _ _ = _ by rw [h.registry, he]) n
      obtain ⟨hbeside, hkeeps, hfailed⟩ := h.refuse hn ⟨_, hin, hid₀⟩ hvacant (e.of island) island
      rw [hydrateOne_vacant hvacant hisland, hmount, hrefusal]
      refine ⟨⟨_, hbeside⟩, (htally.warn r.warnings warnings').refuse ?_,
        hkeeps.on fun m hm he => hm.2 (List.mem_singleton.2 he), fun m hm e' he' => ?_⟩
      · rw [HydrationError.concerns_eq (e.island?_of island)]
        exact decide_eq_true hin
      · obtain rfl := List.mem_singleton.1 hm
        obtain rfl := Option.some.inj (hrefusal.symm.trans he')
        exact hfailed

theorem passed_one (h : c.Beside since s s') (htally : c.Tally errors r r')
    (hfresh : c.Barred n → s.document.attr? n Hydration.stateAttr =
      c.start.document.attr? n Hydration.stateAttr)
    (hrefused : c.Refuses) :
    c.Passed [n] s.document (errors ++ (c.start.refusal? c.pass c.refused n).toList)
      (hydrateOne c.pass s r n) (hydrateOne c.rest s' r' n) := by
  by_cases hbarred : c.Barred n
  · exact passed_barred hkeyed hn h htally hbarred (hfresh hbarred) hrefused
  · rw [refusal?_eq_none hbarred, Option.toList_none, List.append_nil]
    exact passed_free hkeyed hn h htally hbarred

omit hn in
/-- A pass goes on behind the islands that are refused. -/
theorem passed_all {places : List NodeId} (hsub : ∀ n ∈ places, n ∈ c.places)
    (hnodup : places.Nodup) (h : c.Beside since s s') (htally : c.Tally errors r r')
    (hfresh : ∀ n ∈ places, c.Barred n → s.document.attr? n Hydration.stateAttr =
      c.start.document.attr? n Hydration.stateAttr)
    (hrefused : c.Refuses) :
    c.Passed places s.document (errors ++ places.filterMap (c.start.refusal? c.pass c.refused))
      (places.foldl (fun sr n => hydrateOne c.pass sr.1 sr.2 n) (s, r))
      (places.foldl (fun sr n => hydrateOne c.rest sr.1 sr.2 n) (s', r')) := by
  induction places generalizing s s' r r' errors since with
  | nil =>
    rw [List.filterMap_nil, List.append_nil]
    exact ⟨⟨since, h⟩, htally, .refl _ _, fun n hn => by cases hn⟩
  | cons n places ih =>
    obtain ⟨hn, hsub⟩ := List.forall_mem_cons.1 hsub
    obtain ⟨hfresh_n, hfresh⟩ := List.forall_mem_cons.1 hfresh
    obtain ⟨hnotMem, hnodup⟩ := List.nodup_cons.1 hnodup
    have hone := passed_one hkeyed hn h htally hfresh_n hrefused
    obtain ⟨since', hbeside⟩ := hone.beside
    have hrest := ih hsub hnodup hbeside hone.tally fun m hm hbarred => by
      obtain ⟨x, hx⟩ := h.twin.left.exists_core? (hsub m hm)
      have hne : m ∉ [n] := fun he => hnotMem (List.mem_singleton.1 he ▸ hm)
      exact (hone.kept.attr? ⟨hbarred, hne⟩ hx _).trans (hfresh m hm hbarred)
    have hrefusals : (n :: places).filterMap (c.start.refusal? c.pass c.refused) =
        (c.start.refusal? c.pass c.refused n).toList ++
          places.filterMap (c.start.refusal? c.pass c.refused) := by
      rw [List.filterMap_cons]
      cases c.start.refusal? c.pass c.refused n <;> rfl
    rw [hrefusals, ← List.append_assoc]
    exact hone.cons hrest hnotMem

omit hkeyed hn

/-! ## Passes side by side -/

/-- What a pass that is given the islands which are refused has in common with one that is not, and
what it has besides. -/
structure Isolated (c : Trial) (all rest : Session × HydrationResult) : Prop where
  mounted : all.1.mounted = rest.1.mounted
  stores : all.1.stores = rest.1.stores
  storage : all.1.storage = rest.1.storage
  scheduler : all.1.scheduler = rest.1.scheduler
  /-- The places of other islands, be they found by the walk or elsewhere. Only what has a place of
  the walk below it may hold something else. -/
  outside : ∀ n id, c.start.document.attr? n Page.islandAttr = some id → id ∉ c.refused →
    n ∈ c.places ∨ (∀ x ∈ c.places, ¬c.start.document.Below n x) →
      all.1.document.innerHtml n = rest.1.document.innerHtml n ∧
        ∀ name, all.1.document.attr? n name = rest.1.document.attr? n name
  /-- The places of islands that are refused. -/
  fallback : ∀ n ∈ c.places, ∀ id ∈ c.refused,
    c.start.document.attr? n Page.islandAttr = some id →
    (State.ofAttr (c.start.document.attr? n Hydration.stateAttr)).isFree = true →
    ∀ island, Dict.get? c.pass.islands id = some island →
      ∃ e, c.start.registry.mount island c.pass.resident.toValue = .error e ∧
        c.start.refusal? c.pass c.refused n = some (e.of island) ∧
        all.1.document.attr? n Hydration.stateAttr = some State.failed.name ∧
        all.1.document.innerHtml n = c.start.fallbackHtml (e.of island)
  hydrated : all.2.hydrated = rest.2.hydrated
  others : all.2.errors.filter (fun e => !e.concerns c.refused) = rest.2.errors
  /-- One error for each place. -/
  refusals : all.2.errors.filter (·.concerns c.refused) =
    c.places.filterMap (c.start.refusal? c.pass c.refused)

/-- What two passes leave behind over all places. -/
theorem Passed.isolated {all rest : Session × HydrationResult}
    (h : c.Passed c.places c.start.document
      (c.places.filterMap (c.start.refusal? c.pass c.refused)) all rest)
    (hd : c.start.document.Formed) (hrefused : c.Refuses) : c.Isolated all rest := by
  obtain ⟨since, hsame, htwin, -, -, -⟩ := h.beside
  obtain ⟨document, metrics, hrest⟩ := hsame
  refine ⟨by rw [hrest], by rw [hrest], by rw [hrest], by rw [hrest], fun n id hid hout hn => ?_,
    fun n hn id hin hid hfree island hisland => ?_, h.tally.hydrated.symm, h.tally.others.symm,
    h.tally.refused⟩
  · have hapart : ∀ x ∈ c.places, ∀ y ∈ c.places, ¬c.start.document.Below x y :=
      fun x hx y hy => hd.placeholders_apart hx hy
    by_cases hplace : n ∈ c.places
    · have hfree : ¬c.Barred n := by
        rintro ⟨id', hin, hid'⟩
        exact hout (Option.some.inj (hid.symm.trans hid') ▸ hin)
      exact ⟨(htwin.innerHtml_eq hd hapart hplace hfree).symm,
        fun name => (htwin.attrs n hplace hfree name).symm⟩
    · obtain ⟨attributes, children, tag, hx⟩ := Document.hasElement_of_attr? hid
      have hbelow := hn.resolve_left hplace
      exact ⟨(htwin.left.innerHtml_outside hd ⟨tag, hx⟩ hplace hbelow).trans
        (htwin.right.innerHtml_outside hd ⟨tag, hx⟩ hplace hbelow).symm, fun name =>
          (htwin.left.kept.attr? hplace hx name).trans (htwin.right.kept.attr? hplace hx name).symm⟩
  · obtain ⟨e, he⟩ := hrefused id hin island hisland
    have hrefusal : c.start.refusal? c.pass c.refused n = some (e.of island) := by
      rw [refusal?_of_mem hid hin, hisland, Option.bind_some, if_pos hfree, he]
    obtain ⟨hstate, hshows⟩ := h.failed n hn _ hrefusal
    exact ⟨e, he, hrefusal, hstate, hshows.innerHtml⟩

theorem isolated (hs : c.start.Unhydrated) (hd : c.start.document.Formed) (hkeyed : c.pass.Keyed)
    (hrefused : c.Refuses) :
    c.Isolated (c.places.foldl (fun sr n => hydrateOne c.pass sr.1 sr.2 n) (c.start, {}))
      (c.places.foldl (fun sr n => hydrateOne c.rest sr.1 sr.2 n) (c.start, {})) := by
  have hplaces : ∀ n ∈ c.places, ∃ id, c.start.document.attr? n Page.islandAttr = some id :=
    fun n hn => Option.isSome_iff_exists.1 (hd.of_mem_placeholdersWithin hn).1
  have hbeside : c.Beside c.start.document c.start c.start := by
    refine ⟨⟨_, _, rfl⟩, .refl hplaces, rfl, rfl, fun e he => ?_⟩
    rw [hs.mounted] at he
    cases he
  have htally : c.Tally [] {} {} := ⟨rfl, rfl, rfl⟩
  exact (passed_all hkeyed (fun _ => id) (hd.nodup_placeholders _) hbeside htally
    (fun _ _ _ => rfl) hrefused).isolated hd hrefused

end Trial

/-- What becomes of the islands of a container does not depend on those which the registry refuses,
at whatever places these are. -/
theorem hydrate_without {s : Session} (hs : s.Unhydrated) (hd : s.document.Built)
    (containerId : String) (resident : Resident) (islands : List Island) (time : String)
    (refused : List String)
    (hrefused : ∀ id ∈ refused, ∀ island,
      Dict.get? (Dict.ofList (islands.map fun i => (i.id, i))) id = some island →
        ∃ e, s.registry.mount island resident.toValue = .error e) :
    match s.document.byId? containerId with
    | none =>
      s.hydrate containerId resident islands time = (s, .error (.containerNotFound containerId)) ∧
        s.hydrate containerId resident (islands.filter (·.id ∉ refused)) time =
          (s, .error (.containerNotFound containerId))
    | some container => ∃ all rest r r',
      s.hydrate containerId resident islands time = (all, .ok r) ∧
        s.hydrate containerId resident (islands.filter (·.id ∉ refused)) time = (rest, .ok r') ∧
        (Trial.ofIslands s container resident islands time refused).Isolated
          (all, r) (rest, r') := by
  unfold hydrate
  cases s.document.byId? containerId with
  | none => exact ⟨rfl, rfl⟩
  | some container =>
    dsimp only
    rw [← Trial.rest_ofIslands s]
    exact ⟨_, _, _, _, rfl, rfl, Trial.isolated
      (c := Trial.ofIslands s container resident islands time refused) hs hd.formed
      (fun id island hisland => (keyed_ofList islands hisland).2) hrefused⟩

/-- A page with a place for an island that is refused, and one for an island that is not. -/
def mixedPage : Document :=
  (({} : Document).addContainer "root").1.mount 0
    (.fragment [.island "x" "Gone" [], .island "i" "IfChain" []])

/-- The page has been made by calls on elements. -/
theorem built_mixedPage : mixedPage.Built := by
  obtain ⟨_, h⟩ := Document.Reached.empty.foldl [.container "root",
    .mount 0 (.fragment [.island "x" "Gone" [], .island "i" "IfChain" []])] (by decide)
  exact h.built

/-- A session with a template, over a registry that refuses one of the islands of its page. -/
def mixed (t : Template) : Session :=
  { document := mixedPage
    templates := [("t", ⟨t, "profile:1"⟩)]
    registry := [("Gone", fun _ _ => .error "gone")] }

/-- Each island of the template, once as one that is refused. -/
def mixedIslands (t : Template) : List Island :=
  t.islands.flatMap fun i =>
    [{ i with id := "x", component := "Gone" }, { i with id := "i", templateId := "t" }]

/-- The island of the template comes to life behind the one that is refused. -/
theorem hydrate_without_mixed :
    ∃ t all rest r r', (compile {} (pulseMarkup "900")).template? = some t ∧
      (mixed t).hydrate "root" {} (mixedIslands t) "12:00" = (all, .ok r) ∧
      (mixed t).hydrate "root" {} ((mixedIslands t).filter (·.id ∉ ["x"]))
        "12:00" = (rest, .ok r') ∧
      all.mounted = rest.mounted ∧ Dict.keys rest.mounted = ["i"] ∧
      all.document.attr? 1 Hydration.stateAttr = some State.failed.name := by
  have ht : ((compile {} (pulseMarkup "900")).template?.bind fun t =>
      (Dict.get? (Dict.ofList ((mixedIslands t).map fun i => (i.id, i))) "x").map fun i =>
        Dict.keys ((mixed t).hydrate "root" {} ((mixedIslands t).filter (·.id ∉ ["x"]))
          "12:00").1.mounted) = some ["i"] := by
    decide +kernel
  obtain ⟨t, htemplate, ht⟩ := Option.bind_eq_some_iff.1 ht
  obtain ⟨island, hisland, hkeys⟩ := Option.map_eq_some_iff.1 ht
  have hs : (mixed t).Unhydrated := ⟨rfl, rfl⟩
  have hrefused : ∀ id ∈ ["x"], ∀ island,
      Dict.get? (Dict.ofList ((mixedIslands t).map fun i => (i.id, i))) id = some island →
        ∃ e, (mixed t).registry.mount island ({} : Resident).toValue = .error e := by
    intro id hid island hisland
    obtain ⟨hmem, hkey⟩ := keyed_ofList _ hisland
    obtain rfl := List.mem_singleton.1 hid
    obtain ⟨i, -, hi⟩ := List.mem_flatMap.1 hmem
    rcases List.mem_cons.1 hi with rfl | hi
    · exact ⟨.failed "gone", rfl⟩
    · obtain rfl := List.mem_singleton.1 hi
      exact absurd (show "i" = "x" from hkey) (by decide)
  have hpage : mixedPage.byId? "root" = some 0 ∧ 1 ∈ mixedPage.placeholders 0 ∧
      mixedPage.attr? 1 Page.islandAttr = some "x" ∧
      (State.ofAttr (mixedPage.attr? 1 Hydration.stateAttr)).isFree = true := by
    decide +kernel
  obtain ⟨hroot, hplace, hid, hfree⟩ := hpage
  have h := hydrate_without hs built_mixedPage "root" {} (mixedIslands t) "12:00" ["x"] hrefused
  rw [show (mixed t).document.byId? "root" = some 0 from hroot] at h
  obtain ⟨all, rest, r, r', hall, hrest, hisolated⟩ := h
  rw [hrest] at hkeys
  obtain ⟨e, -, -, hstate, -⟩ := hisolated.fallback 1 hplace "x"
    (List.mem_singleton.2 rfl) hid hfree
    island hisland
  exact ⟨t, all, rest, r, r', htemplate, hall, hrest, hisolated.mounted, hkeys, hstate⟩

end Session

end Archipelago
