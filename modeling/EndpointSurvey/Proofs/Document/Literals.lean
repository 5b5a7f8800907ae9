/-
Literals in the signatures of actions. A signature is read with each run of blanks made one space, and that reaches into
its literals: a default is kept, and a name given by an attribute is understood, as if the literal's words stood one
space apart.

Main statements: `memberOf?_signature` and `signatureAt_of_mem` (where the signature of a member is written),
`readDocument_literals` (what the parameters of every endpoint take over from the lists they are written in).
-/
import EndpointSurvey.Proofs.Binding.Literals
import EndpointSurvey.Proofs.Declaration.Seen
import EndpointSurvey.Proofs.Document.Locations

namespace EndpointSurvey

open Lexeme

/-- the member's signature is what is written at some place of the document behind the member's attributes, with
comments blanked and single spaces between the words -/
structure SignatureAt (text : Text) (m : MemberBlock) (written : Text) : Prop where
  place : ∃ start, m.start + m.attributeText.length ≤ start ∧ written <+: text.drop start ∧
    written.length ≤ m.stop - start
  signature : m.signature = (mask false written).collapse

theorem memberOf?_signature {offset : Nat} {body : Source} {cut : MemberCut} {m : MemberBlock}
    (found : memberOf? offset body cut = some m) (inside : cut.headingStop ≤ cut.stop) :
    ∃ start written, m.start + m.attributeText.length ≤ offset + start ∧ written <+: body.raw.drop start ∧
      written.length ≤ m.stop - (offset + start) ∧ m.signature = (mask false written).collapse := by
  unfold memberOf? at found
  simp only at found
  split at found
  · cases found
  · split at found
    · cases found
    · next groupsStop signatureStart groups =>
      cases found
      have none := leadingBlanks_drop (body.take cut.headingStop).code
      generalize lead_ : Text.leadingBlanks (body.take cut.headingStop).code = lead at *
      obtain ⟨low, -, start⟩ := leadingGroups_place groups (by rw [Nat.sub_self, List.drop_zero]) (Nat.le_refl lead)
        (by rw [Nat.sub_self]; exact CutAt.start) (by rw [Nat.sub_self, List.drop_zero, none, Nat.add_zero])
      refine ⟨signatureStart, ((body.take cut.headingStop).drop signatureStart).raw, ?_, ?_, ?_, rfl⟩
      · have short : ((body.take cut.headingStop).slice lead groupsStop).raw.length ≤ groupsStop - lead :=
          List.length_take_le _ _
        simp only
        omega
      · rw [Source.raw_drop, Source.raw_take, List.drop_take]
        exact List.take_prefix _ _
      · rw [Source.raw_drop, Source.raw_take, List.length_drop, List.length_take]
        simp only
        omega

/-- The signature of a member is written in its document. -/
theorem signatureAt_of_mem {text : Text} {b : TypeBlock} (hb : b ∈ blocksOf text) {m : MemberBlock}
    (hm : m ∈ b.members) : ∃ written, SignatureAt text m written := by
  obtain ⟨-, brace, size, body⟩ := blocksOf_body hb (List.ne_nil_of_mem hm)
  rw [body.members] at hm
  obtain ⟨⟨passed, cut⟩, listed, found⟩ := List.mem_filterMap.1 hm
  have inside : cut.headingStop ≤ cut.stop := by
    obtain ⟨inner, -, -, -, pairs, code⟩ := body.body_code
    obtain ⟨-, next, -⟩ := memberCutsFrom_place _ List.drop_zero.symm rfl (by rw [code]; exact pairs) _ listed
    exact Nat.le_of_lt (cutFrom_headingStop_lt next (by simp))
  obtain ⟨start, written, behind, front, short, signature⟩ := memberOf?_signature found inside
  refine ⟨written, ⟨brace + 1 + passed + start, behind, front.trans ?_, short⟩, signature⟩
  have shift : brace + (1 + (passed + start)) = brace + 1 + passed + start := by omega
  rw [Source.raw_drop, Source.raw_slice, Source.raw_drop, Source.raw_ofText, List.drop_take, List.drop_take,
    List.drop_drop, List.drop_drop, List.drop_drop, shift]
  exact List.take_prefix _ _

theorem signature?_of_action {m : MemberBlock} {marks : List Attribute} {verbMark : Attribute} {verb : Verb}
    {signature : Signature} (h : m.action? = some (marks, verbMark, verb, signature)) :
    signature? m.signature = some signature := by
  unfold MemberBlock.action? at h
  rw [Option.ite_none_left_eq_some] at h
  obtain ⟨⟨_, _⟩, -, h⟩ := Option.bind_eq_some_iff.1 h.2
  obtain ⟨signature', read, e⟩ := Option.map_eq_some_iff.1 h
  rw [read, (Prod.mk.inj (Prod.mk.inj (Prod.mk.inj e).2).2).2]

theorem parameters_buildEndpoint (catalog : Catalog) (controller : Controller) (m : MemberBlock) (location : Location)
    (marks : List Attribute) (verbMark : Attribute) (verb : Verb) (signature : Signature) :
    ∃ context, (buildEndpoint catalog controller m location marks verbMark verb signature).value.parameters =
      (Binding.bindAll context [] (parameterList signature.parametersText)).value.parameters := by
  simp only [buildEndpoint, bindParameters, Traced.value_bind, Traced.value_pure]
  exact ⟨_, rfl⟩

/-- What a signature's parameters take over from the list that they are written in, whatever the list holds. -/
theorem reads_endpointOf? {text written : Text} {catalog : Catalog} {controller : Controller} {m : MemberBlock}
    {e : Endpoint} (h : endpointOf? text catalog controller m = some e)
    (signature : m.signature = (mask false written).collapse) (plain : ∀ l ∈ lex written, l.Plain) :
    ∃ list, list? (lex written) = some list ∧
      List.Forall₂ Reads ((items true 0 list).filter fun item => (recognized? item).isSome) e.parameters := by
  obtain ⟨⟨marks, verbMark, verb, signature'⟩, action, rfl⟩ := Option.map_eq_some_iff.1 h
  obtain ⟨context, parameters⟩ := parameters_buildEndpoint catalog controller m (locate text m.start) marks verbMark
    verb signature'
  have read := signature?_of_action action
  rw [signature] at read
  obtain ⟨list, found, stretch, parametersText⟩ := parametersText_eq plain read
  refine ⟨list, found, ?_⟩
  rw [parameters, parametersText]
  exact reads_bindAll context stretch

/-- **Literals of a signature.** Every endpoint of a document belongs to a member of a controller, and its signature is
written behind the member's attributes. Its parameters are, in order, those items of the written list that are entries
and not supplied by the framework, and each takes its default and its name over from its item. -/
theorem readDocument_literals {text : Text} {e : Endpoint} (h : e ∈ (readDocument text).value.endpoints) :
    ∃ b ∈ controllerBlocks text, ∃ m ∈ b.members, e.location = locate text m.start ∧
      (∃ written, SignatureAt text m written) ∧
      ∀ written, SignatureAt text m written → (∀ l ∈ lex written, l.Plain) → ∃ list, list? (lex written) = some list ∧
        List.Forall₂ Reads ((items true 0 list).filter fun item => (recognized? item).isSome) e.parameters := by
  rw [readDocument_endpoints] at h
  obtain ⟨b, hb, he⟩ := List.mem_flatMap.1 h
  obtain ⟨m, hm, found⟩ := List.mem_filterMap.1 he
  exact ⟨b, hb, m, hm, endpointOf?_location found, signatureAt_of_mem (List.mem_of_mem_filter hb) hm,
    fun _ at_ => reads_endpointOf? found at_.signature⟩

/-- a signature with runs of blanks in a default and in a name that an attribute gives -/
def spacedSignature : Text := "public int Find(string q = \"a  b\", [FromHeader(Name = \"X  Y\")] string h) "

/-- a document with an action of this signature -/
def spacedLiterals : Text :=
  "class OrdersController \x7b [HttpGet] ".toList ++ spacedSignature ++ "\x7b \x7d \x7d".toList

/-- its entry with a default -/
def defaultedEntry : List Lexeme := "string q = ".toList.map code ++ [literal ['"'] "a  b".toList ['"']]

/-- its entry with a name given by an attribute -/
def namedEntry : List Lexeme :=
  " [FromHeader(Name = ".toList.map code ++ literal ['"'] "X  Y".toList ['"'] :: ")] string h".toList.map code

theorem defaultedEntry_defaultsTo : DefaultsTo defaultedEntry "q".toList ['"'] "a  b".toList ['"'] := by
  let value := code '=' :: ([code ' '] ++ [literal ['"'] "a  b".toList ['"']])
  have entry : Entry defaultedEntry [] defaultedEntry := ⟨⟨[], .nil, rfl⟩, _, _, rfl, by decide, by decide⟩
  have parted : ∀ c, ("string ".toList.map code).getLast? = some (code c) → wordChar c = false := by
    rintro c ⟨⟩
    decide
  have declared : Declaration defaultedEntry "q".toList value :=
    ⟨⟨"string ".toList.map code, [code ' '], rfl, by decide, by decide, parted⟩, by decide,
      Text.forall_of_all (by decide)⟩
  exact ⟨[code ' '], [], by decide, by decide, [], _, entry, declared⟩

theorem namedEntry_namedBy : NamedBy namedEntry "X  Y".toList := by
  let argument : List Lexeme := "Name = ".toList.map code ++ [literal ['"'] "X  Y".toList ['"']]
  let item : List Lexeme := "FromHeader(".toList.map code ++ argument ++ [code ')']
  have groups : Groups (code ' ' :: code '[' :: (item ++ [code ']', code ' '])) [item] :=
    .gap rfl (.group (show upTo? '[' ']' 0 _ = some (item, [code ' ']) by decide) (.gap rfl .nil))
  have entry : Entry namedEntry [item] ("string h".toList.map code) :=
    ⟨⟨_, groups, rfl⟩, _, _, rfl, by decide, by decide⟩
  have parts : argument = [] ++ ("Name".toList.map code ++ ([code ' '] ++ code '=' ::
      ([code ' '] ++ literal ['"'] "X  Y".toList ['"'] :: []))) := rfl
  have named : NamedLiteral argument "Name".toList "X  Y".toList :=
    ⟨⟨_, _, '=', _, _, parts, .inl rfl, by decide, by decide, by decide, by decide⟩, by decide,
      Text.forall_of_all (by decide)⟩
  have mark : Mark item "FromHeader".toList argument :=
    ⟨⟨[], [], [], rfl, by decide, by decide, by decide⟩, 'F', _, rfl, .inl (by decide),
      Text.forall_of_all (by decide)⟩
  have source : NamedSource item "X  Y".toList :=
    ⟨⟨_, argument, [], argument, [], _, mark, by decide, by decide, by simp, named, by decide⟩⟩
  exact ⟨[item], _, [], item, [], entry, by decide, by simp, source⟩

/-- The default and the name come back with a single space. -/
theorem readDocument_literals_spaced : ∃ e ∈ (readDocument spacedLiterals).value.endpoints,
    e.parameters.map (fun p => (p.name, p.default)) = [("q".toList, some "\"a b\"".toList), ("X Y".toList, none)] ∧
    (∃ b ∈ controllerBlocks spacedLiterals, ∃ m ∈ b.members, SignatureAt spacedLiterals m spacedSignature) ∧
    (∀ l ∈ lex spacedSignature, l.Plain) ∧ List.Forall₂ Reads [defaultedEntry, namedEntry] e.parameters ∧
    DefaultsTo defaultedEntry "q".toList ['"'] "a  b".toList ['"'] ∧ NamedBy namedEntry "X  Y".toList := by
  have parameters : (readDocument spacedLiterals).value.endpoints.map
      (fun e => e.parameters.map fun p => (p.name, p.default)) =
      [[("q".toList, some "\"a b\"".toList), ("X Y".toList, none)]] := by decide +kernel
  obtain ⟨e, single, read⟩ := List.map_eq_singleton_iff.1 parameters
  have member : e ∈ (readDocument spacedLiterals).value.endpoints := by rw [single]; exact List.mem_singleton_self e
  have places : ∀ b ∈ controllerBlocks spacedLiterals, ∀ m ∈ b.members, m.start + m.attributeText.length ≤ 35 ∧
      spacedSignature.length ≤ m.stop - 35 ∧ m.signature = (mask false spacedSignature).collapse := by decide +kernel
  have plain : ∀ l ∈ lex spacedSignature, l.Plain := by decide +kernel
  obtain ⟨b, hb, m, hm, -, -, literals⟩ := readDocument_literals member
  obtain ⟨low, high, signature⟩ := places b hb m hm
  have written : SignatureAt spacedLiterals m spacedSignature := ⟨⟨35, low, by decide +kernel, high⟩, signature⟩
  obtain ⟨list, found, reads⟩ := literals spacedSignature written plain
  have entries : (list? (lex spacedSignature)).map
      (fun list => (items true 0 list).filter fun item => (recognized? item).isSome) =
      some [defaultedEntry, namedEntry] := by decide +kernel
  rw [found, Option.map_some, Option.some_inj] at entries
  rw [entries] at reads
  exact ⟨e, member, read, ⟨b, hb, m, hm, written⟩, plain, reads, defaultedEntry_defaultsTo, namedEntry_namedBy⟩

end EndpointSurvey
