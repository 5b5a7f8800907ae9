/-
What the URL of a request says: the template with an encoded text for each token, and the query behind a question mark.
Reading it gives the path parameters and the query of the request back. As filled-in values and queries are encoded, a
brace in a URL is one that the route itself has in no pair around a name.

Main statements: `Route.tokenPieces_of_pieces` (a template is cut into the characters and tokens it is written from),
`Request.addressed_of_synthesize` (what a URL is composed of), `url_decodes` (what is read from it) and
`url_braceFree_iff` (the URL of an action is free of braces exactly if those of its written route enclosed names).
-/
import EndpointSurvey.Proofs.Binding.Holders
import EndpointSurvey.Proofs.Document.Values
import EndpointSurvey.Proofs.Request.Building
import EndpointSurvey.Proofs.Request.Outline
import EndpointSurvey.Proofs.Route.Braces
import EndpointSurvey.Proofs.Url.Decoding

namespace EndpointSurvey

namespace Route

/-- a piece as templates have it: a character that is no brace, or a name without braces -/
def Piece.Proper : Piece → Prop
  | .plain c => inBraces c = true
  | .parameter name => name ≠ [] ∧ BraceFree name

instance : DecidablePred Piece.Proper
  | .plain c => inferInstanceAs (Decidable (inBraces c = true))
  | .parameter name => decidable_of_iff (name ≠ [] ∧ name.all inBraces = true) (by rw [List.all_eq_true]; rfl)

/-- a piece with a text in the place of its token -/
def Piece.filled (value : Text → Text) : Piece → Text
  | .plain c => [c]
  | .parameter name => value name

theorem token?_plain {c : Char} (free : inBraces c = true) (t : Text) : token? (c :: t) = none := by
  have : c ≠ '\x7b' := by
    rintro rfl
    cases free
  rw [token?.eq_def]
  split
  · next e =>
    cases e
    exact absurd rfl this
  · rfl

/-- A template is cut into the pieces that it is written from. -/
theorem tokenPieces_of_pieces {ps : List Piece} (proper : ∀ p ∈ ps, p.Proper) :
    tokenPieces (ps.flatMap Piece.text) = ps := by
  induction ps with
  | nil => rw [List.flatMap_nil, tokenPieces]
  | cons p ps ih =>
    obtain ⟨first, others⟩ := List.forall_mem_cons.1 proper
    have rest := ih others
    cases p with
    | plain c =>
      show tokenPieces (c :: ps.flatMap Piece.text) = _
      rw [tokenPieces]
      split
      · next found =>
        rw [token?_plain first] at found
        cases found
      · rw [rest]
    | parameter name =>
      have found : token? ('\x7b' :: (name ++ '\x7d' :: ps.flatMap Piece.text)) = some (name, ps.flatMap Piece.text) :=
        token?_of_shape first.1 first.2
      have text : (Piece.parameter name :: ps).flatMap Piece.text =
          '\x7b' :: (name ++ '\x7d' :: ps.flatMap Piece.text) := by
        simp [Piece.text]
      rw [text, tokenPieces]
      split
      · next found' =>
        rw [found] at found'
        cases found'
        rw [rest]
      · next none =>
        rw [found] at none
        cases none

theorem fill_of_pieces {ps : List Piece} (proper : ∀ p ∈ ps, p.Proper) (value : Text → Text) :
    fill value (ps.flatMap Piece.text) = ps.flatMap (Piece.filled value) := by
  rw [fill, tokenPieces_of_pieces proper]
  refine List.flatMap_congr fun p _ => ?_
  cases p <;> rfl

end Route

namespace Request

open Skeleton Filling

/-- the parts of a request made without an environment that its URL shows, with the values of its tokens by their
small-letter names -/
structure Addressed (e : Endpoint) (values : Entries Text) (r : Request) : Prop where
  settled : ∀ token ∈ tokensToFill e, (Entries.lookup? token.lower values).isSome
  url : r.url =
    address none (Route.fill (fun token => Url.percentEncode ((Entries.lookup? token.lower values).getD token)) e.route)
      r.query
  pathParameters : r.pathParameters =
    Entries.ofList (e.pathTokens.map fun token => (token, (Entries.lookup? token.lower values).getD token))

theorem addressed_of_synthesize {setting : Setting} {picker : Picker} {draws : Nat} {e : Endpoint} {r : Request}
    (made : (synthesize setting picker draws none e).1.value = .ok r) : ∃ values, Addressed e values r := by
  obtain ⟨⟨f, fits, same⟩, -, -⟩ := filled_of_synthesize made
  refine ⟨f.values, fun token member => ?_, by rw [same]; rfl, by rw [same]; rfl⟩
  rw [Entries.isSome_lookup?_iff, Filled.values, keys_ofList, fits.tokens, Entries.mem_addKeys, pathSkeletons,
    List.map_map]
  exact .inr (List.mem_map.2 ⟨token, member, rfl⟩)

/-- The value of a path parameter is the one filled in for its token, however that is spelled. -/
theorem Addressed.pathParameter {e : Endpoint} {values : Entries Text} {r : Request} (h : Addressed e values r)
    {token name : Text} (member : token ∈ e.pathTokens) (same : token.lower = name.lower) :
    Entries.lookup? token r.pathParameters = some ((Entries.lookup? name.lower values).getD name) := by
  obtain ⟨value, found⟩ := Option.isSome_iff_exists.1 (h.settled token (subset_addNames e.pathTokens _ member))
  rw [h.pathParameters,
    Entries.lookup?_ofList_map (fun token => (Entries.lookup? token.lower values).getD token) member, ← same, found]
  rfl

end Request

/-- **The URL decodes back to the request.** Take an endpoint whose template is written from characters that are no
braces and tokens in braces, and a request made for it without an environment. The URL is the template with a
percent-encoded text without a slash for each token, then, exactly if the request has a query, a question mark and a
query part. The text for a token decodes to the value of every path parameter of that name, in any case, and the query
part is read as the entries of the query in their order. -/
theorem url_decodes (setting : Skeleton.Setting) (picker : Picker) (draws : Nat) {e : Endpoint}
    {ps : List Route.Piece} (template : e.route = ps.flatMap Route.Piece.text) (proper : ∀ p ∈ ps, p.Proper)
    {r : Request} (made : (synthesize setting picker draws none e).1.value = .ok r) :
    ∃ (replacement : Text → Text) (queryPart : Text),
      r.url = ps.flatMap (Route.Piece.filled replacement) ++ (if r.query = [] then [] else '?' :: queryPart) ∧
        (∀ name, .parameter name ∈ ps →
          Url.PercentEncoded (replacement name) ∧ '/' ∉ replacement name ∧
            ∀ token ∈ e.pathTokens, token.lower = name.lower → ∃ value,
              Entries.lookup? token r.pathParameters = some value ∧
                Url.percentDecode? (replacement name) = some value) ∧
        (r.query ≠ [] → Url.readQuery? queryPart = some r.query) := by
  obtain ⟨values, addressed⟩ := Request.addressed_of_synthesize made
  refine ⟨fun name => Url.percentEncode ((Entries.lookup? name.lower values).getD name), Url.writeQuery r.query,
    ?_, ?_, Url.readQuery?_writeQuery⟩
  · rw [addressed.url, template, Route.fill_of_pieces proper]
    unfold Request.address
    cases r.query with
    | nil => exact (List.append_nil _).symm
    | cons entry rest => rfl
  · intro name _
    refine ⟨Url.percentEncoded_percentEncode _, Url.percentEncode_no_slash _, fun token member same => ?_⟩
    exact ⟨_, addressed.pathParameter member same, Url.percentDecode?_percentEncode _⟩

/-- an action with an address in its path and a name of two words in its query -/
def getLink : Endpoint :=
  { method := "GET"
    route := "/links/\x7bSite_Url\x7d/parts"
    parameters := [⟨"site_url", "string", .path, true, none, false, false, "site_url", false⟩,
      ⟨"full name", "string", .query, false, none, false, false, "full", true⟩]
    returnType := "void"
    action := "Get"
    controller := "LinksController"
    location := ⟨1, 1⟩
    summary := none
    authRequired := false
    pathTokens := ["Site_Url"]
    warnings := [] }

/-- the pieces of its template -/
def linkPieces : List Route.Piece :=
  "/links/".toList.map .plain ++ .parameter "Site_Url" :: "/parts".toList.map .plain

/-- The theorem at an action with a token and a query. -/
theorem url_decodes_link :
    ∃ r, (synthesize noteSetting none 0 none getLink).1.value = .ok r ∧ Entries.keys r.query = ["full name"] ∧
      ∃ replacement value queryPart, r.url = linkPieces.flatMap (Route.Piece.filled replacement) ++ '?' :: queryPart ∧
        Entries.lookup? "Site_Url" r.pathParameters = some value ∧
        Url.percentDecode? (replacement "Site_Url") = some value ∧ Url.readQuery? queryPart = some r.query := by
  have scalars : ∀ p ∈ Request.walked getLink, (noteSetting.catalog.resolve p.typeText).scalar?.isSome := by
    decide +kernel
  obtain ⟨r, made⟩ : ∃ r, (synthesize noteSetting none 0 none getLink).1.value = .ok r :=
    Request.isMade_iff.2 ⟨nofun, fun p walks =>
      Catalog.writable_of_none (Catalog.not_entered_scalar (scalars p walks))⟩
  have asked : (Request.querySkeletons noteSetting getLink).map (·.key) = ["full name"] := by decide +kernel
  have keys : Entries.keys r.query = ["full name"] := by
    have planned := congrArg Request.Outline.query (Request.planned_of_synthesize made).1
    exact planned.trans (congrArg (Entries.addKeys []) asked)
  have some_query : r.query ≠ [] := by
    intro none
    rw [none] at keys
    cases keys
  have template : getLink.route = linkPieces.flatMap Route.Piece.text := by decide +kernel
  have proper : ∀ p ∈ linkPieces, p.Proper := by decide +kernel
  obtain ⟨replacement, queryPart, url, tokens, query⟩ := url_decodes noteSetting none 0 template proper made
  have inside : Route.Piece.parameter "Site_Url" ∈ linkPieces := by decide +kernel
  obtain ⟨_, _, values⟩ := tokens "Site_Url" inside
  obtain ⟨value, found, decoded⟩ := values "Site_Url" (by decide) rfl
  rw [if_neg some_query] at url
  exact ⟨r, made, keys, replacement, value, queryPart, url, found, decoded, query some_query⟩

/-! ## Braces -/

section
open Route

namespace Url

theorem hexDigit_free (n : Nat) (h : n < 16) : inBraces (hexDigit n) = true := by
  have : ∀ n < 16, inBraces (hexDigit n) = true := by decide
  exact this n h

theorem braceFree_percentByte (b : UInt8) : BraceFree (percentByte b) := by
  have high : b.toNat / 16 < 16 := by
    have := b.toNat_lt
    omega
  have low : b.toNat % 16 < 16 := Nat.mod_lt _ (by decide)
  intro c hc
  simp only [percentByte, List.mem_cons, List.not_mem_nil, or_false] at hc
  rcases hc with rfl | rfl | rfl
  · decide
  · exact hexDigit_free _ high
  · exact hexDigit_free _ low

theorem braceFree_encodeChar (c : Char) : BraceFree (encodeChar c) := by
  unfold encodeChar
  split
  · next free => exact fun d hd => List.mem_singleton.1 hd ▸ inBraces_of (p := unreserved) (by decide) (by decide) free
  · intro d hd
    obtain ⟨b, _, hb⟩ := List.mem_flatMap.1 hd
    exact braceFree_percentByte b d hb

theorem braceFree_percentEncode (t : Text) : BraceFree (percentEncode t) := by
  intro c hc
  obtain ⟨d, _, hd⟩ := List.mem_flatMap.1 hc
  exact braceFree_encodeChar d c hd

theorem braceFree_formEncode (t : Text) : BraceFree (formEncode t) := by
  intro c hc
  obtain ⟨d, _, hd⟩ := List.mem_flatMap.1 hc
  split at hd
  · rw [List.mem_singleton.1 hd]
    decide
  · exact braceFree_encodeChar d c hd

theorem braceFree_writeQuery (entries : List (Text × Text)) : BraceFree (writeQuery entries) := by
  refine Text.forall_mem_join (by simp [inBraces]) fun part member => ?_
  obtain ⟨⟨key, value⟩, _, rfl⟩ := List.mem_map.1 member
  intro c hc
  rcases List.mem_append.1 hc with hc | hc
  · exact braceFree_formEncode key c hc
  · rcases List.mem_cons.1 hc with rfl | hc
    · decide
    · exact braceFree_formEncode value c hc

end Url

/-! ## The written route of an action -/

/-- the route of an action as its controller and its attributes write it, placeholders filled in -/
def writtenRoute (controller : Controller) (marks : List Attribute) (verbMark : Attribute) (signature : Signature) :
    Text :=
  Route.joined (RouteNames.plain controller.name signature.name) controller.baseRoute
    (verbMark.primary?.or ((Attribute.find? routeAttributes marks).bind (·.primary?)))

theorem buildEndpoint_route (catalog : Catalog) (controller : Controller) (m : MemberBlock) (location : Location)
    (marks : List Attribute) (verbMark : Attribute) (verb : Verb) (signature : Signature) :
    (buildEndpoint catalog controller m location marks verbMark verb signature).value.route =
      (normalize (writtenRoute controller marks verbMark signature)).template := by
  simp only [buildEndpoint, Route.compose, Traced.value_bind, Traced.value_pure]
  rfl

/-- The URL of a request without an environment is free of braces exactly if those of its route enclose names. -/
theorem Request.IsBuilt.url_braceFree {setting : Skeleton.Setting} {e : Endpoint} {request : Request}
    (built : request.IsBuilt setting none e) : BraceFree request.url ↔ Enclosed e.route := by
  obtain ⟨value, query, url⟩ := built.url
  have filled := fill_braceFree_iff (fun name => Url.braceFree_percentEncode (value name)) e.route
  have queried : BraceFree ('?' :: Url.writeQuery query) :=
    List.forall_mem_cons.2 ⟨by decide, Url.braceFree_writeQuery query⟩
  rw [url, ← filled]
  show BraceFree (if query.isEmpty then fill _ e.route else fill _ e.route ++ '?' :: Url.writeQuery query) ↔ _
  split
  · rfl
  · exact List.forall_mem_append.trans (and_iff_left queried)

/-- **Braces in URLs.** Every endpoint of a document comes from an action whose route, as its attributes write it, is
brought to normal form. The URL of its request, made without an environment, has no brace exactly if every brace of the
written route is one of a pair around a name without braces. -/
theorem url_braceFree_iff (text : Text) {e : Endpoint} (h : e ∈ (readDocument text).value.endpoints) :
    ∃ b ∈ controllerBlocks text, ∃ m ∈ b.members, ∃ marks verbMark verb signature,
      m.action? = some (marks, verbMark, verb, signature) ∧
        e.route = (normalize (writtenRoute (controllerOf b) marks verbMark signature)).template ∧
        ∀ now picker draws request,
          (synthesize ⟨(readDocument text).value.catalog, now⟩ picker draws none e).1.value = .ok request →
            (BraceFree request.url ↔ Enclosed (writtenRoute (controllerOf b) marks verbMark signature)) := by
  rw [readDocument_endpoints] at h
  obtain ⟨b, controller, he⟩ := List.mem_flatMap.1 h
  obtain ⟨m, member, found⟩ := List.mem_filterMap.1 he
  obtain ⟨⟨marks, verbMark, verb, signature⟩, action, built⟩ := Option.map_eq_some_iff.1 found
  have route : e.route = (normalize (writtenRoute (controllerOf b) marks verbMark signature)).template := by
    rw [← built]
    exact buildEndpoint_route ..
  refine ⟨b, controller, m, member, marks, verbMark, verb, signature, action, route, ?_⟩
  intro now picker draws request made
  rw [← enclosed_normalize_iff, ← route]
  exact (Request.isBuilt_of_synthesize made).url_braceFree

/-- an action whose route parameter is held to three digits, braces doubled in its pattern -/
def digitsAction : Text :=
  "[Route(\"items\")]\npublic class ItemsController : ControllerBase\n\x7b\n" ++
    "    [HttpGet(\"\x7bcode:regex(^\\\\d\x7b\x7b3\x7d\x7d$)\x7d\")]\n" ++
    "    public string Get(string code) \x7b return code; \x7d\n\x7d\n"

/-- The theorem at a route with a pattern: a request is made, and there are braces in its URL. -/
theorem url_braceFree_iff_digits :
    ∃ e ∈ (readDocument digitsAction).value.endpoints, ∃ request,
      (synthesize ⟨(readDocument digitsAction).value.catalog, ⟨0⟩⟩ none 0 none e).1.value = .ok request ∧
        ¬ BraceFree request.url := by
  have some_endpoint : (readDocument digitsAction).value.endpoints ≠ [] := by decide +kernel
  have plain : ∀ e ∈ (readDocument digitsAction).value.endpoints,
      (∀ p ∈ Request.walked e, ((readDocument digitsAction).value.catalog.resolve p.typeText).scalar?.isSome) ∧
        BracePlace.outside.scan e.route ≠ some .outside := by decide +kernel
  obtain ⟨e, member⟩ := List.exists_mem_of_ne_nil _ some_endpoint
  obtain ⟨scalars, brace⟩ := plain e member
  obtain ⟨_, _, _, _, _, _, _, _, _, route, urls⟩ := url_braceFree_iff digitsAction member
  rcases Request.value_synthesize ⟨(readDocument digitsAction).value.catalog, ⟨0⟩⟩ none 0 none e with
    ⟨_, request, made, _⟩ | ⟨invalid, _⟩
  · refine ⟨e, member, request, made, fun free => brace (enclosed_iff_scan.1 ?_)⟩
    rw [route, enclosed_normalize_iff]
    exact (urls _ _ _ _ made).1 free
  · refine absurd ⟨nofun, fun p walks => Catalog.writable_of_none ?_⟩ invalid
    exact Catalog.not_entered_scalar (scalars p walks)

end

end EndpointSurvey
