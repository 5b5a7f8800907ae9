/-
One entry of a parameter list, told lexeme by lexeme: attribute groups, a declaration that ends in the parameter's name,
and maybe a default. Read from its settled text, the entry has the name that it is written with, and a literal for its
default comes out settled.

Main statements: `ofText?_entry` (how an entry is taken apart), `ofRest?_plain` and `ofRest?_literal` (the name and the
default that are read).
-/
import EndpointSurvey.Binding.ParameterList
import EndpointSurvey.Proofs.Attribute.GroupStretches

namespace EndpointSurvey

open Lexeme

/-- an entry made up of attribute groups with these contents and of something else -/
structure Entry (item : List Lexeme) (contents : List (List Lexeme)) (rest : List Lexeme) : Prop where
  parts : ∃ front, Groups front contents ∧ item = front ++ rest
  starts : ∃ l ls, rest = l :: ls ∧ l.gap = false ∧ l ≠ code '['

/-- a type, whatever it is, a name, and what follows them -/
structure Declaration (rest : List Lexeme) (name : Text) (value : List Lexeme) : Prop where
  parts : ∃ type gaps, rest = type ++ (name.map code ++ (gaps ++ value)) ∧ (∀ l ∈ gaps, l.gap = true) ∧
    code '=' ∉ type ∧ ∀ c, type.getLast? = some (code c) → wordChar c = false
  filled : name ≠ []
  word : ∀ c ∈ name, wordChar c = true

namespace RawParameter

variable {item rest : List Lexeme} {contents : List (List Lexeme)}

/-- what an entry is read as whose attributes have been cut off -/
def ofRest? (attributeText : Text) (rest : Source) : Option RawParameter :=
  let (declaration, default) := match assignmentFrom 0 none rest.code with
    | none => (rest.raw, [])
    | some i => (rest.raw.take i, Text.trim (rest.raw.drop (i + 1)))
  (typeAndName? declaration).map fun (typeText, name) =>
    { attributeText := attributeText
      typeText := typeText
      name := name
      default := if default.isEmpty then none else some default }

theorem attributeText_of_ofRest? {attributeText : Text} {rest : Source} {raw : RawParameter}
    (h : ofRest? attributeText rest = some raw) : raw.attributeText = attributeText := by
  obtain ⟨⟨typeText, name⟩, -, rfl⟩ := Option.map_eq_some_iff.1 h
  rfl

/-- An entry is taken apart into its groups and the rest. -/
theorem ofText?_entry (stretch : Stretch item) (entry : Entry item contents rest) :
    ∃ front, Groups front contents ∧ item = front ++ rest ∧
      ofText? (shown item).collapse = ofRest? (shown front).collapse (source (bare rest)) := by
  obtain ⟨⟨front, groups, rfl⟩, l, ls, rfl, gap, other⟩ := entry
  refine ⟨front, groups, rfl, ?_⟩
  have plain := stretch.plain
  have here : l.Plain := plain l (by simp)
  have whole : bare (front ++ l :: ls) = settle true front ++ bare (l :: ls) := bare_append gap front ls
  obtain ⟨ms, first⟩ := bare_cons gap ls
  obtain ⟨c, cs, head, solid⟩ := ((here.settled gap).ends (by rw [settled_gap, gap]) true).1
  have open_ : c ≠ '[' := by
    rintro rfl
    have bracket : l.settled = code '[' :=
      eq_code_of_mem (by decide) (here.settled gap) (by rw [head]; exact List.mem_cons_self)
    exact other (settled_eq_code.1 bracket)
  have code : codeOf (bare (front ++ l :: ls)) = codeOf (settle true front) ++ c :: (cs ++ codeOf ms) := by
    rw [whole, codeOf_append, first, codeOf_cons, head, List.cons_append]
  have lead : Text.leadingBlanks (codeOf (settle true front) ++ c :: (cs ++ codeOf ms)) = 0 := by
    rcases settle_true_first front with none | ⟨m, fs, first', gap'⟩
    · rw [none]
      simp [codeOf, Text.leadingBlanks, solid]
    · have plain' : m.Plain := (stretch.front.settle true).plain m (by rw [first']; exact List.mem_cons_self)
      obtain ⟨d, ds, head', solid'⟩ := (plain'.ends gap' true).1
      rw [first', codeOf_cons, head']
      simp [Text.leadingBlanks, solid']
  obtain ⟨stop', found⟩ := (groups.settle true).leading (fun m hm => (stretch.front.settle true).plain m hm) solid open_
    (cs ++ codeOf ms) 0 0
  simp only [lead, Nat.zero_add, List.drop_zero] at found
  have rest : (source (bare (front ++ l :: ls))).drop (text (settle true front)).length = source (bare (l :: ls)) := by
    rw [whole, source_drop]
  have attributeText : Text.trim ((source (bare (front ++ l :: ls))).slice 0 (text (settle true front)).length).raw =
      (shown front).collapse := by
    rw [Source.slice, Source.drop_zero, Nat.sub_zero, whole, source_take, ← Text.trim_settle true, shown,
      ← text_settle stretch.front.plain]
    rfl
  rw [← text_bare plain, ofText?, stretch.bare.ofText_eq]
  have code' : (source (bare (front ++ l :: ls))).code = codeOf (settle true front) ++ c :: (cs ++ codeOf ms) := code
  simp only [code', lead, List.drop_zero, found, rest, attributeText]
  rw [ofRest?]
  exact Option.map_eq_bind.symm

/-! ## The name -/

theorem takeEnd_dropWhile {p : Text → Bool} {words : List Text} (left : words.dropWhile p ≠ []) :
    Text.takeEnd wordChar (Text.join " " (words.dropWhile p)) = Text.takeEnd wordChar (Text.join " " words) := by
  induction words with
  | nil => rfl
  | cons word rest ih =>
    rw [List.dropWhile_cons] at left ⊢
    split at left
    · cases rest with
      | nil => exact absurd rfl left
      | cons next rest =>
        have stop : ∀ c ∈ (word ++ " ".toList).getLast?, wordChar c = false := by
          rintro c last
          obtain rfl : ' ' = c := by simpa using last
          decide
        rw [if_pos ‹_›, ih left, Text.join_cons, ← List.append_assoc, Text.takeEnd_append_stop stop]
    · rw [if_neg ‹_›]

/-- The name read is what the declaration ends in, from its first letter on. -/
theorem typeAndName?_name {declaration typeText name : Text} (h : typeAndName? declaration = some (typeText, name)) :
    name = (Text.takeEnd wordChar declaration.collapse).dropWhile (!identifierStart ·) := by
  obtain ⟨⟨before, name'⟩, found, h⟩ := Option.bind_eq_some_iff.1 h
  obtain rfl : name' = name := by
    rw [Option.ite_none_left_eq_some] at h
    exact (Prod.mk.inj (Option.some.inj h.2)).2
  unfold Text.trailingIdentifier? at found
  dsimp only at found
  split at found
  · cases found
  · next filled =>
    obtain ⟨-, rfl⟩ := Prod.mk.inj (Option.some.inj found)
    have left : declaration.words.dropWhile (modifiers.contains ·) ≠ [] := by
      intro none
      rw [none] at filled
      exact filled rfl
    rw [takeEnd_dropWhile left, Text.collapse]

theorem last_settle {l : Lexeme} {ls : List Lexeme} {afterBlank : Bool} (h : (settle afterBlank ls).getLast? = some l) :
    l = code ' ' ∨ ∃ m, ls.getLast? = some m ∧ m.gap = false ∧ l = m.settled := by
  induction ls generalizing afterBlank with
  | nil => cases h
  | cons m ms ih =>
    have later : ∀ {afterBlank}, (settle afterBlank ms).getLast? = some l →
        l = code ' ' ∨ ∃ m', (m :: ms).getLast? = some m' ∧ m'.gap = false ∧ l = m'.settled := by
      intro afterBlank h
      refine (ih h).imp_right fun ⟨m', last, both⟩ => ⟨m', ?_, both⟩
      rw [List.getLast?_cons, last, Option.getD_some]
    cases gap : m.gap with
    | false =>
      rw [settle_solid gap] at h
      cases e : settle false ms with
      | nil =>
        rw [e] at h
        cases h
        cases ms with
        | nil => exact .inr ⟨m, rfl, gap, rfl⟩
        | cons k ks =>
          cases gap' : k.gap with
          | false => rw [settle_solid gap'] at e; cases e
          | true => rw [(settle_gap gap' ks).1] at e; cases e
      | cons k ks =>
        rw [e, List.getLast?_cons_cons, ← e] at h
        exact later h
    | true =>
      cases afterBlank with
      | false =>
        rw [(settle_gap gap ms).1] at h
        cases e : settle true ms with
        | nil =>
          rw [e] at h
          cases h
          exact .inl rfl
        | cons k ks =>
          rw [e, List.getLast?_cons_cons, ← e] at h
          exact later h
      | true =>
        rw [(settle_gap gap ms).2] at h
        exact later h

/-! ## The default -/

theorem assignmentFrom_free {s : Text} (free : '=' ∉ s) (offset : Nat) (before : Option Char) (t : Text) :
    assignmentFrom offset before (s ++ t) = assignmentFrom (offset + s.length) (s.getLast?.or before) t := by
  induction s generalizing offset before with
  | nil => rfl
  | cons c cs ih =>
    rw [List.mem_cons, not_or] at free
    rw [List.cons_append, assignmentFrom, if_neg (fun h => free.1 h.1.symm), ih free.2, List.length_cons,
      Nat.add_right_comm, Nat.add_assoc]
    cases cs with
    | nil => rfl
    | cons d ds => rw [List.getLast?_cons_cons, List.getLast?_eq_some_getLast (List.cons_ne_nil d ds), Option.some_or,
        Option.some_or]

theorem not_mem_codeOf {c : Char} (sharp : structural c = true) {ls : List Lexeme} (plain : ∀ l ∈ ls, l.Plain)
    (absent : code c ∉ ls) : c ∉ codeOf ls := by
  intro member
  obtain ⟨l, inside, member⟩ := List.mem_flatMap.1 member
  rw [eq_code_of_mem sharp (plain l inside) member] at inside
  exact absent inside

theorem code_not_mem_settle {c : Char} (other : c ≠ ' ') {ls : List Lexeme} (absent : code c ∉ ls) (afterBlank : Bool) :
    code c ∉ settle afterBlank ls := by
  intro member
  rcases mem_settle member with e | ⟨l, inside, -, e⟩
  · exact other (code.inj e)
  · rw [settled_eq_code.1 e.symm] at inside
    exact absent inside

/-! ## Declarations -/

variable {name : Text} {type gaps value : List Lexeme}

/-- The text in front of a name does not end in a word character. -/
theorem last_type (plain : ∀ l ∈ type, l.Plain) (apart : ∀ c, type.getLast? = some (code c) → wordChar c = false) :
    ∀ c ∈ (text (settle true type)).getLast?, wordChar c = false := by
  intro c ends
  rcases List.eq_nil_or_concat (settle true type) with none | ⟨front, l, e⟩
  · rw [none] at ends
    cases ends
  · rw [List.concat_eq_append] at e
    have last : (settle true type).getLast? = some l := by rw [e, List.getLast?_concat]
    rw [e, text_append, text_cons, text_nil, List.append_nil] at ends
    rcases last_settle last with rfl | ⟨m, last', gap, rfl⟩
    · obtain rfl : ' ' = c := by simpa [Lexeme.raw] using ends
      decide
    · cases m with
      | code d =>
        obtain rfl : d = c := by simpa [Lexeme.raw] using ends
        exact apart d last'
      | remark body => cases gap
      | literal opening body closing =>
        have closed : closing = ['"'] ∨ closing = ['\''] :=
          (plain _ (List.mem_of_getLast? last')).imp And.right fun h => h.2.1
        rcases closed with rfl | rfl
        · obtain rfl : '"' = c := by simpa [Lexeme.raw, settled] using ends
          decide
        · obtain rfl : '\'' = c := by simpa [Lexeme.raw, settled] using ends
          decide

/-- The name read is the one declared, from its first letter on. -/
theorem typeAndName?_declared (plain : ∀ l ∈ type, l.Plain)
    (apart : ∀ c, type.getLast? = some (code c) → wordChar c = false) (word : ∀ c ∈ name, wordChar c = true)
    {declaration typeText name' : Text} (whole : declaration.collapse = text (settle true type) ++ name)
    (h : typeAndName? declaration = some (typeText, name')) : name' = name.dropWhile (!identifierStart ·) := by
  rw [typeAndName?_name h, whole, Text.takeEnd_append_stop (last_type plain apart), Text.takeEnd_of_all word]

theorem equals_not_mem (equals : code '=' ∉ type) (word : ∀ c ∈ name, wordChar c = true)
    (blanks : ∀ l ∈ gaps, l.gap = true) : code '=' ∉ type ++ (name.map code ++ gaps) := by
  simp only [List.mem_append, List.mem_map, not_or]
  refine ⟨equals, ?_, fun member => ?_⟩
  · rintro ⟨c, member, e⟩
    rw [code.inj e] at member
    exact absurd (word _ member) (by decide)
  · exact absurd (blanks _ member) (by decide)

theorem collapse_declaration (plain : ∀ l ∈ type ++ (name.map code ++ gaps), l.Plain) (filled : name ≠ [])
    (word : ∀ c ∈ name, wordChar c = true) (blanks : ∀ l ∈ gaps, l.gap = true) :
    (shown (type ++ (name.map code ++ gaps))).collapse = text (settle true type) ++ name := by
  have solid : ∀ c ∈ name, blank c = false := fun c member => not_blank_of_wordChar (word c member)
  rw [← text_bare plain, bare_codes filled solid type blanks, text_append, text_codes]

/-- An entry without default is read as one. -/
theorem ofRest?_plain (stretch : Stretch rest) (declared : Declaration rest name []) {attributeText : Text}
    {raw : RawParameter} (read : ofRest? attributeText (source (bare rest)) = some raw) :
    raw.name = name.dropWhile (!identifierStart ·) ∧ raw.default = none := by
  obtain ⟨⟨type, gaps, rfl, blanks, equals, apart⟩, filled, word⟩ := declared
  rw [List.append_nil] at stretch read
  have whole := collapse_declaration stretch.plain filled word blanks
  have free : '=' ∉ codeOf (bare (type ++ (name.map code ++ gaps))) :=
    not_mem_codeOf (by decide) stretch.bare.plain fun member =>
      code_not_mem_settle (by decide) (equals_not_mem equals word blanks) true (bare_subset _ member)
  have none : assignmentFrom 0 none (codeOf (bare (type ++ (name.map code ++ gaps)))) = none := by
    have := assignmentFrom_free free 0 none []
    rwa [List.append_nil] at this
  simp only [ofRest?, source, none, List.isEmpty_nil, if_true] at read
  obtain ⟨⟨typeText, name'⟩, found, rfl⟩ := Option.map_eq_some_iff.1 read
  have plain : ∀ l ∈ type, l.Plain := fun l member => stretch.plain l (List.mem_append_left _ member)
  refine ⟨typeAndName?_declared plain apart word ?_ found, rfl⟩
  rw [text_bare stretch.plain, Text.collapse_collapse, whole]

/-! ## Declarations with a default -/

section
variable {l : Lexeme} {front before after value : List Lexeme}

theorem last_declaration (filled : name ≠ []) (word : ∀ c ∈ name, wordChar c = true) (blanks : ∀ l ∈ gaps, l.gap = true)
    {c : Char} (last : (codeOf (settle true (type ++ (name.map code ++ gaps)))).getLast? = some c) :
    c = ' ' ∨ wordChar c = true := by
  have named : codeOf (name.map code) = name := flatMap_masked_code true name
  have solid : ∀ c ∈ name, blank c = false := fun c member => not_blank_of_wordChar (word c member)
  rw [settle_codes filled solid, codeOf_append, codeOf_append, named] at last
  rcases (settle_gaps blanks).1 with e | e
  · rw [e, show codeOf [] = [] from rfl, List.append_nil, List.getLast?_append,
      List.getLast?_eq_some_getLast filled, Option.some_or, Option.some.injEq] at last
    exact .inr (word c (last ▸ List.getLast_mem filled))
  · rw [e, ← List.append_assoc, show codeOf [code ' '] = [' '] from rfl, List.getLast?_concat,
      Option.some.injEq] at last
    exact .inl last.symm

/-- An equals sign between a name and a literal is an assignment. -/
theorem assignmentFrom_default (free : '=' ∉ codeOf front)
    (last : ∀ c, (codeOf front).getLast? = some c → c = ' ' ∨ wordChar c = true)
    (inside : ∀ c, structural c = true → c ∉ codeOf value) :
    assignmentFrom 0 none (codeOf (front ++ code '=' :: value)) = some (text front).length := by
  have opened : (codeOf front).getLast?.any (fun b => b == '=' || b == '!' || b == '<' || b == '>') = false := by
    cases ends : (codeOf front).getLast? with
    | none => rfl
    | some c =>
      rcases last c ends with rfl | letter
      · rfl
      · have not : ∀ {d}, wordChar d = false → c ≠ d := ne_of_test letter
        simp [@not '=' (by decide), @not '!' (by decide), @not '<' (by decide), @not '>' (by decide)]
  have closed : (codeOf value).head?.any (fun n => n == '=' || n == '>') = false := by
    cases first : (codeOf value).head? with
    | none => rfl
    | some c =>
      have not : ∀ {d}, structural d = true → c ≠ d := by
        rintro d sharp rfl
        exact inside c sharp (List.mem_of_head? first)
      simp [@not '=' (by decide), @not '>' (by decide)]
  rw [codeOf_append, codeOf_cons, assignmentFrom_free free, Option.or_none]
  simp only [masked, List.singleton_append, assignmentFrom, opened, closed]
  simp [codeOf_length]

theorem bare_default (gap : l.gap = false) (blanks : ∀ l ∈ after, l.gap = true) (front before : List Lexeme) :
    bare (front ++ code '=' :: (before ++ l :: after)) =
      settle true front ++ code '=' :: (settle false before ++ [l.settled]) := by
  rw [bare_append (by decide), ← List.cons_append, bare_append gap, bare_single gap blanks, settle_solid (by decide)]
  rfl

theorem cut_default (front value : List Lexeme) :
    (text (front ++ code '=' :: value)).take (text front).length = text front ∧
      (text (front ++ code '=' :: value)).drop ((text front).length + 1) = text value := by
  rw [text_append, List.take_left, ← List.drop_drop, List.drop_left]
  exact ⟨rfl, rfl⟩

theorem trim_default (plain : l.Plain) (gap : l.gap = false) (blanks : ∀ l ∈ before, l.gap = true) :
    Text.trim (text (settle false before ++ [l.settled])) = l.settled.raw := by
  obtain ⟨first, last⟩ := (plain.settled gap).solid_ends (by rwa [settled_gap])
  have pad := Text.blanks_of_gap (text_settle_gaps blanks)
  have trimmed := Text.trim_padded pad (Text.blanks_of_gap (.inl rfl)) first last
  rw [List.append_nil] at trimmed
  rw [text_append, text_cons, text_nil, List.append_nil, trimmed]

/-- A literal behind gaps holds no structural character. -/
theorem structural_not_mem_default {opening body closing : Text} (plain : (literal opening body closing).Plain)
    (blanks : ∀ l ∈ before, l.gap = true) {c : Char} (sharp : structural c = true) :
    c ∉ codeOf (settle false before ++ [(literal opening body closing).settled]) := by
  have settled : (literal opening body closing).settled.Plain := plain.settled rfl
  have space : (code ' ').Plain := ⟨by decide, by decide⟩
  have other : c ≠ ' ' := by
    rintro rfl
    exact absurd sharp (by decide)
  rcases (settle_gaps blanks).1 with e | e <;> rw [e]
  · exact not_mem_codeOf sharp (by simpa using settled) (by simp [Lexeme.settled])
  · exact not_mem_codeOf sharp (by simpa using ⟨space, settled⟩) (by simp [Lexeme.settled, other])

end

/-- An entry with a literal for its default is read with the literal settled. -/
theorem ofRest?_literal {opening body closing : Text} {before after : List Lexeme} (stretch : Stretch rest)
    (declared : Declaration rest name (code '=' :: (before ++ literal opening body closing :: after)))
    (blanks : (∀ l ∈ before, l.gap = true) ∧ ∀ l ∈ after, l.gap = true) {attributeText : Text} {raw : RawParameter}
    (read : ofRest? attributeText (source (bare rest)) = some raw) :
    raw.name = name.dropWhile (!identifierStart ·) ∧
      raw.default = some (literal opening body closing).settled.raw := by
  obtain ⟨⟨type, gaps, rfl, blanks', equals, apart⟩, filled, word⟩ := declared
  have parts : type ++ (name.map code ++ (gaps ++ code '=' :: (before ++ literal opening body closing :: after))) =
      type ++ (name.map code ++ gaps) ++ code '=' :: (before ++ literal opening body closing :: after) := by simp
  rw [parts] at stretch read
  have plain : (literal opening body closing).Plain := stretch.plain _ (by simp)
  have whole := collapse_declaration stretch.front.plain filled word blanks'
  have free : '=' ∉ codeOf (settle true (type ++ (name.map code ++ gaps))) :=
    not_mem_codeOf (by decide) (stretch.front.settle true).plain
      (code_not_mem_settle (by decide) (equals_not_mem equals word blanks') true)
  have place := assignmentFrom_default free (fun _ last => last_declaration filled word blanks' last)
    fun _ sharp => structural_not_mem_default plain blanks.1 sharp
  rw [bare_default rfl blanks.2] at read
  have value := trim_default plain rfl blanks.1
  have filled' : (literal opening body closing).settled.raw.isEmpty = false := by
    obtain ⟨c, cs, head, -⟩ := ((plain.settled rfl).ends rfl false).1
    rw [← masked_solid rfl, head]
    rfl
  simp only [ofRest?, source, place, cut_default, value, filled'] at read
  obtain ⟨⟨typeText, name'⟩, found, rfl⟩ := Option.map_eq_some_iff.1 read
  refine ⟨typeAndName?_declared (fun l member => ?_) apart word ?_ found, rfl⟩
  · exact stretch.plain l (List.mem_append_left _ (List.mem_append_left _ member))
  · rw [text_settle stretch.front.plain, Text.collapse_settle, ← shown, whole]

end RawParameter

end EndpointSurvey
