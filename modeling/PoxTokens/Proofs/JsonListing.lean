import PoxTokens.Proofs.JsonText
import PoxTokens.Proofs.KindCounts
import PoxTokens.Proofs.TextListing

/-!
# PoxTokens.Proofs.JsonListing

The JSON listing can be read back.  It is one document, which the reader of JSON takes for
what the listing is (`Listing.read?_pretty_json`); an item says which token it lists
(`tokenOfJson?_toJson`), and the counts have a name of their own for each kind.
-/

namespace PoxTokens

/-! ## Tokens -/

/-- The token that an item of a listing says. -/
def tokenOfJson? : Json.Value → Option Token
  | .object [(some "position", position), (some "lexeme", .string (some lexeme)),
      (some "kind", .string (some name))] => do
    let position ← position.natural?
    let kind ← Kind.ofName? name
    pure ⟨position, lexeme, kind⟩
  | _ => none

/-- A number that was written as one is read back. -/
theorem Json.Value.natural?_natural (n : Nat) : (natural n).natural? = some n := by
  have hdigits : (decimal n).all Char.isDigit := by simpa using (isDigits_decimal n).2
  rw [natural, natural?, toList_toString, if_pos hdigits, ofDigitChars_decimal]

/-- The document of a token has the name that listings give its kind. -/
theorem Token.toJson_eq (t : Token) :
    t.toJson = .record [("position", .natural t.position), ("lexeme", .text t.lexeme),
      ("kind", .text t.kind.name)] := by
  rw [toJson, Kind.toJson, Kind.storedName_eq_name]

/-- A token is read back from its document. -/
theorem tokenOfJson?_toJson (t : Token) : tokenOfJson? t.toJson = some t := by
  have hitem : tokenOfJson? t.toJson = (do
      let position ← (Json.Value.natural t.position).natural?
      let kind ← Kind.ofName? t.kind.name
      pure ⟨position, t.lexeme, kind⟩) := by
    rw [t.toJson_eq]
    rfl
  rw [hitem, Json.Value.natural?_natural, Kind.ofName?_name]
  rfl

theorem writable_toJson (t : Token) : t.toJson.Writable := by
  refine .record ?_
  simp only [List.forall_mem_cons]
  exact ⟨.natural _, .text _, .text _, by simp⟩

/-! ## Listings -/

namespace Listing

theorem writable_tokensJson (tokens : List Token) : (tokensJson tokens).Writable := by
  refine .array fun v hv => ?_
  obtain ⟨t, -, rfl⟩ := List.mem_map.mp hv
  exact writable_toJson t

theorem writable_countsJson (counts : List (Kind × Nat)) : (countsJson counts).Writable := by
  refine .record fun field hfield => ?_
  obtain ⟨⟨kind, n⟩, -, rfl⟩ := List.mem_map.mp hfield
  exact .natural n

/-- So every listing can be written, since it holds numbers and texts only. -/
theorem writable_json (listing : Listing) : listing.json.Writable := by
  rw [json]
  split
  · exact writable_tokensJson _
  · refine .record ?_
    simp only [List.forall_mem_cons]
    exact ⟨writable_tokensJson _, writable_countsJson _, by simp⟩

/-- The document of a listing is read back as what it is. -/
theorem read?_pretty_json (listing : Listing) :
    Json.read? (Json.pretty listing.json) = some listing.json :=
  Json.read?_pretty listing.writable_json

end Listing

/-! ## The command -/

/-- The JSON run of a source that can be scanned. -/
theorem ListingRequest.value_run_json (request : ListingRequest) {tokens : List Token}
    (h : tokenize request.options request.source = .ok tokens) :
    ({ request with format := .json }.run { limit := none }).value =
      (.ok (request.shown tokens).length,
        { limit := none
          written := utf8Bytes
            ((Json.pretty (request.listing tokens).json).toList ++ ['\n']) }) := by
  have hsink : Sink.limit { limit := none } = none := rfl
  have hrun := ListingRequest.value_run_of_unlimited { request with format := .json } hsink
  simp only [h] at hrun
  rw [Json.pretty, String.toList_ofList]
  exact hrun

/-- **JSON listings can be read back**: a source that can be scanned is listed as one JSON
document and a line feed.  Read as JSON, the document is the array of the listed tokens; or,
where counts are asked for, an object with this array and the counts, one for each kind in
the order of first occurrences, which add up to the number of listed tokens.  The tokens are
those that the text listing lists. -/
theorem jsonListing_decodes (request : ListingRequest) {tokens : List Token}
    (h : tokenize request.options request.source = .ok tokens) :
    let listed := tokens.filter fun t => request.keepBlanks || t.kind != .whiteSpace
    let items := listed.map fun t => Json.Value.record
      [("position", .natural t.position), ("lexeme", .text t.lexeme), ("kind", .text t.kind.name)]
    (∃ document : String,
      ({ request with format := .json }.run { limit := none }).value =
        (.ok listed.length,
          { limit := none, written := utf8Bytes (document.toList ++ ['\n']) }) ∧
      items.map tokenOfJson? = listed.map some ∧
      if request.stats then
        ∃ counts : List (Kind × Nat),
          Json.read? document = some (.record
            [("tokens", .array items),
              ("stats", .record (counts.map fun (kind, n) => (kind.name, .natural n)))]) ∧
          counts = kindCounts listed ∧
          (counts.map (·.1.name)).Nodup ∧
          counts.map (·.1) = (listed.map (·.kind)).eraseDups ∧
          (∀ kind n, (kind, n) ∈ counts → n = (listed.map (·.kind)).count kind) ∧
          totalCount counts = listed.length
      else Json.read? document = some (.array items)) ∧
    ∃ text rows others,
      ({ request with format := .text }.run { limit := none }).value =
        (.ok listed.length, { limit := none, written := utf8Bytes text }) ∧
      lines? text = some (rows ++ others) ∧
      rows.map readTokenRow? = listed.zipIdx.map fun (t, index) => some (index, t) := by
  intro listed items
  have hlisted : request.shown tokens = listed := request.shown_eq_filter tokens
  constructor
  · have hrun := request.value_run_json h
    have hread := (request.listing tokens).read?_pretty_json
    have hdocument : listed.map Token.toJson = items :=
      List.map_congr_left fun t _ => t.toJson_eq
    have hitems : items.map tokenOfJson? = listed.map some := by
      rw [← hdocument, List.map_map]
      exact List.map_congr_left fun t _ => tokenOfJson?_toJson t
    rw [hlisted] at hrun
    refine ⟨_, hrun, hitems, ?_⟩
    rw [hread, ListingRequest.listing, hlisted]
    cases request.stats with
    | false => rw [← hdocument]; rfl
    | true =>
        refine ⟨kindCounts listed, by rw [← hdocument]; rfl, rfl,
          nodup_names_kindCounts listed, ?_, ?_,
          totalCount_kindCounts listed⟩
        · rw [kindCounts_eq, List.map_map]
          exact List.map_id _
        · intro kind n hmem
          rw [kindCounts_eq] at hmem
          obtain ⟨k, -, heq⟩ := List.mem_map.mp hmem
          rw [Prod.mk.injEq] at heq
          rw [← heq.2, heq.1]
  · obtain ⟨text, hrun, hlines⟩ := request.value_run_text h
    rw [hlisted] at hrun
    rw [Listing.rows, ListingRequest.listing, hlisted] at hlines
    exact ⟨text, _, _, hrun, hlines, Listing.map_readTokenRow?_tokenRows listed⟩

/-- Two strings, of which one holds a tab and a backslash, and the blank between them. -/
theorem jsonListing_decodes_strings :
    let source := "\"\t\\\" \"\""
    let listed : List Token :=
      [⟨0, "\"\t\\\"", .string⟩, ⟨4, " ", .whiteSpace⟩, ⟨5, "\"\"", .string⟩]
    tokenize {} source = .ok listed ∧
      ∃ document items,
        (ListingRequest.run { source, format := .json, keepBlanks := true, stats := true }
            { limit := none }).value =
          (.ok 3, { limit := none, written := utf8Bytes (document.toList ++ ['\n']) }) ∧
        items.map tokenOfJson? = listed.map some ∧
        Json.read? document = some (.record
          [("tokens", .array items),
            ("stats", .record [("String", .natural 2), ("WhiteSpace", .natural 1)])]) := by
  intro source listed
  have hitems : items {} source = listed.map .token := by decide +kernel
  have h : tokenize {} source = .ok listed := by rw [tokenize, hitems]; rfl
  obtain ⟨⟨document, hrun, hdecoded, counts, hread, rfl, -⟩, -⟩ :=
    jsonListing_decodes { source, keepBlanks := true, stats := true } h
  exact ⟨h, document, _, hrun, hdecoded, hread⟩

end PoxTokens
