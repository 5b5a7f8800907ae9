/-
The code of rendered attributes, in which the contents of strings are blanked: no brace, semicolon or angle bracket stands
in it, its parentheses pair up, and no declaration is headed in it, whatever words its names are.

Main statements: `Unheaded.split`, `Group.forall_form`, `Group.pairs_round`, `Group.unheaded`,
`leadingGroups_spacedGroups` and `attributes_spacedGroups`.
-/
import EndpointSurvey.Proofs.Rendered.AttributeLists
import EndpointSurvey.Proofs.Rendered.Headings

namespace EndpointSurvey

open Rendered (declaringWords)

/-! ## Texts without headings -/

/-- no declaration is headed in the text, wherever it stands -/
def Unheaded (t : Text) : Prop := ∀ offset before, headingsFrom offset before t = []

theorem keyword?_last {s g word rest : Text} (solid : ∀ c ∈ s, blank c = false) (blanks : ∀ c ∈ g, blank c = true)
    (h : keyword? word (s ++ g) = some rest) : rest = [] := by
  obtain ⟨after, found, h⟩ := Option.bind_eq_some_iff.1 h
  split at h
  · next space =>
    cases h
    rw [List.dropWhile_eq_nil_iff]
    rcases List.append_eq_append_iff.1 (Lexeme.after?_append found) with ⟨more, e, rfl⟩ | ⟨more, -, rfl⟩
    · cases more with
      | nil => exact blanks
      | cons c cs =>
        have visible : blank c = false := solid c (by rw [e]; simp)
        simp [visible] at space
    · exact fun c hc => blanks c (List.mem_append_right more hc)
  · cases h

/-- A keyword that nothing but blanks follows heads no declaration. -/
theorem declaration?_last {s g : Text} (solid : ∀ c ∈ s, blank c = false) (blanks : ∀ c ∈ g, blank c = true) :
    declaration? (s ++ g) = none := by
  have worded : ∀ entry ∈ declarationKeywords, entry.1 ≠ [] := by decide
  rw [declaration?, List.findSome?_eq_none_iff]
  rintro ⟨words, kind⟩ listed
  obtain ⟨word, words, rfl⟩ := List.exists_cons_of_ne_nil (worded _ listed)
  dsimp only
  rw [List.foldlM_cons]
  cases first : keyword? word (s ++ g) with
  | none => rfl
  | some rest =>
    obtain rfl := keyword?_last solid blanks first
    cases later : words.foldlM (fun rest word => keyword? word rest) [] with
    | none => simp [later]
    | some rest =>
      have nothing : rest = [] := List.eq_nil_of_length_eq_zero (Nat.le_zero.1 (foldlM_keyword?_le later))
      simp [later, nothing, name?]

namespace Unheaded

variable {s t : Text}

theorem nil : Unheaded [] := fun offset before => by rw [headingsFrom]

/-- A mark that no heading holds splits the scan. -/
theorem split {m : Char} (stops : Stops m) (hs : Unheaded s) (ht : Unheaded t) : Unheaded (s ++ m :: t) :=
  fun offset before => by rw [headingsFrom_append stops, hs, ht, List.append_nil]

theorem cons {m : Char} (stops : Stops m) (ht : Unheaded t) : Unheaded (m :: t) := nil.split stops ht

/-- A text may follow one that ends in such a mark. -/
theorem append_of_last {m : Char} (stops : Stops m) (last : s.getLast? = some m) (hs : Unheaded s) (ht : Unheaded t) :
    Unheaded (s ++ t) := by
  obtain ⟨front, rfl⟩ := List.getLast?_eq_some_iff.1 last
  intro offset before
  have first := hs offset before
  rw [headingsFrom_append stops, List.append_eq_nil_iff] at first
  rw [List.append_assoc, List.singleton_append, headingsFrom_append stops, first.1, ht, List.append_nil]

theorem marks_append {g : Text} (marks : ∀ c ∈ g, wordChar c = false) (ht : Unheaded t) : Unheaded (g ++ t) :=
  fun offset before => by rw [headingsFrom_marks_append marks, ht]

theorem marks {g : Text} (marks : ∀ c ∈ g, wordChar c = false) : Unheaded g := headingsFrom_marks marks

/-- A text that has blanks only at its end has no heading. -/
theorem solid {g : Text} (hs : ∀ c ∈ s, blank c = false) (blanks : ∀ c ∈ g, blank c = true) : Unheaded (s ++ g) := by
  induction s with
  | nil => exact marks fun c hc => not_wordChar_of_blank (blanks c hc)
  | cons c cs ih =>
    intro offset before
    have none : declaration? (c :: (cs ++ g)) = none := declaration?_last hs blanks
    rw [List.cons_append, headingsFrom_none fun _ => none]
    exact ih (fun d hd => hs d (List.mem_cons_of_mem c hd)) _ _

/-- Words that no keyword is among may precede. -/
theorem without_append {m : Char} (last : s.getLast? = some m) (mark : wordChar m = false)
    (hs : Text.Without declaringWords s) (ht : Unheaded t) : Unheaded (s ++ t) :=
  fun offset before => by rw [headingsFrom_without last mark hs, ht]

theorem join {parts : List Text} (each : ∀ t ∈ parts, Unheaded t) : Unheaded (Text.join ", " parts) := by
  have comma : Stops ',' := by constructor <;> decide
  induction parts with
  | nil => exact nil
  | cons first parts ih =>
    obtain ⟨here, later⟩ := List.forall_mem_cons.1 each
    cases parts with
    | nil => simpa [Text.join] using here
    | cons second parts =>
      rw [Text.join_cons]
      exact here.split comma (marks_append (g := [' ']) (Text.forall_of_all (by decide)) (ih later))

end Unheaded

/-- Joined parts whose brackets pair up, with nothing between them that is one, are such a text. -/
theorem Paired.join {opener closer : Char} {separator : Text} {parts : List Text}
    (free : ∀ c ∈ separator, c ≠ opener ∧ c ≠ closer) (each : ∀ t ∈ parts, Paired opener closer t) :
    Paired opener closer (Text.join separator parts) := by
  induction parts with
  | nil => rfl
  | cons first parts ih =>
    obtain ⟨here, later⟩ := List.forall_mem_cons.1 each
    cases parts with
    | nil => simpa [Text.join] using here
    | cons second parts =>
      rw [Text.join_cons]
      exact here.append ((Paired.of_free free).append (ih later))

namespace Rendered

open Lexeme

theorem Bare.unheaded {t : Text} (h : Bare t) {g : Text} (blanks : ∀ c ∈ g, EndpointSurvey.blank c = true) :
    Unheaded (t ++ g) := .solid (fun c hc => not_blank_of_bareChar (h.chars c hc)) blanks

/-! ## Values and arguments -/

/-- the marks that stand in the code of arguments -/
def argumentMarks : Text := ['@', '"', ' ', '\n', '=', ',']

section
variable {p : Char → Prop} (name : ∀ c, bareChar c = true → p c) (marks : ∀ c ∈ argumentMarks, p c)
include name marks

/-- A test that names, marks and blanks pass holds all over the code of a value. -/
theorem Value.forall_code (v : Value) : ∀ c ∈ v.form blankOut, p c := by
  have blanks (body : Text) : ∀ c ∈ blankOut body, p c := fun c hc => by
    rcases blankOut_mem hc with rfl | rfl <;> exact marks _ (by decide)
  rcases v.cases_form with ⟨bare, same⟩ | ⟨opening, body, quoted⟩
  · rw [same]
    exact fun c hc => name c (bare.chars c hc)
  · have listed : ∀ c ∈ opening, c ∈ argumentMarks := by rcases quoted.opening with rfl | rfl <;> decide
    rw [quoted.form]
    exact List.forall_mem_append.2 ⟨fun c hc => marks c (listed c hc), List.forall_mem_append.2
      ⟨blanks body, List.forall_mem_singleton.2 (marks _ (by decide))⟩⟩

theorem Argument.forall_code (a : Argument) : ∀ c ∈ a.form blankOut, p c := by
  cases a with
  | positional v => exact v.forall_code name marks
  | named key v =>
    have space : p ' ' := marks _ (by decide)
    exact List.forall_mem_append.2 ⟨fun c hc => name c (key.bare.chars c hc), List.forall_mem_cons.2 ⟨space,
      List.forall_mem_cons.2 ⟨marks _ (by decide), List.forall_mem_cons.2 ⟨space, v.forall_code name marks⟩⟩⟩⟩

theorem Decoration.forall_list (a : Decoration) : ∀ c ∈ a.list blankOut, p c :=
  Text.forall_mem_join (List.forall_mem_cons.2 ⟨marks _ (by decide), List.forall_mem_singleton.2 (marks _ (by decide))⟩)
    (List.forall_mem_map.2 fun x _ => x.forall_code name marks)

end

theorem Value.unheaded (v : Value) : Unheaded (v.form blankOut) := by
  rcases v.cases_form with ⟨bare, same⟩ | ⟨opening, body, quoted⟩
  · rw [same, ← List.append_nil v.meaning]
    exact bare.unheaded (by simp)
  · rw [quoted.form]
    have front : ∀ c ∈ opening, wordChar c = false := by rcases quoted.opening with rfl | rfl <;> decide
    have inside : ∀ c ∈ blankOut body, wordChar c = false := by
      intro c hc
      rcases blankOut_mem hc with rfl | rfl <;> decide
    exact .marks (List.forall_mem_append.2 ⟨front, List.forall_mem_append.2 ⟨inside, by decide⟩⟩)

theorem Argument.unheaded (a : Argument) : Unheaded (a.form blankOut) := by
  cases a with
  | positional v => exact v.unheaded
  | named key v =>
    have equals : Stops '=' := by constructor <;> decide
    have shape : (named key v).form blankOut = (key.text ++ [' ']) ++ '=' :: ([' '] ++ v.form blankOut) := by
      simp [form]
    rw [shape]
    exact (key.bare.unheaded (by decide)).split equals (v.unheaded.marks_append (by decide))

/-! ## Attributes and groups -/

namespace Decoration

variable (a : Decoration)

theorem forall_code {p : Char → Prop} (name : ∀ c, bareChar c = true → p c) (marks : ∀ c ∈ argumentMarks, p c)
    (opened : p '(') (closed : p ')') : ∀ c ∈ a.form blankOut, p c := by
  have named : ∀ c ∈ a.fullName, p c := fun c hc => name c (a.fullName_bare.chars c hc)
  rcases a.form_cases with ⟨same, -⟩ | same
  · rw [same]
    exact named
  · rw [same]
    exact List.forall_mem_append.2 ⟨named, List.forall_mem_cons.2 ⟨opened, List.forall_mem_append.2
      ⟨a.forall_list name marks, List.forall_mem_singleton.2 closed⟩⟩⟩

/-- Only the parentheses of the arguments stand in an attribute. -/
theorem pairs_form : Paired '(' ')' (a.form blankOut) := by
  have name : Paired '(' ')' a.fullName := .of_free fun c hc =>
    ⟨a.fullName_bare.ne_of_mem hc (by decide), a.fullName_bare.ne_of_mem hc (by decide)⟩
  rcases a.form_cases with ⟨same, -⟩ | same
  · rw [same]
    exact name
  · have inside : Paired '(' ')' (a.list blankOut) := .of_free <| a.forall_list
      (fun c bare => ⟨ne_of_bareChar bare (by decide), ne_of_bareChar bare (by decide)⟩) (by decide)
    rw [same]
    exact name.append (inside.group (by decide))

theorem unheaded : Unheaded (a.form blankOut) := by
  have opened : Stops '(' := by constructor <;> decide
  have closed : Stops ')' := by constructor <;> decide
  have name : Unheaded a.fullName := by
    rw [← List.append_nil a.fullName]
    exact a.fullName_bare.unheaded (by simp)
  rcases a.form_cases with ⟨same, -⟩ | same
  · rw [same]
    exact name
  · have inside : Unheaded (a.list blankOut) := .join (List.forall_mem_map.2 fun x _ => x.unheaded)
    rw [same]
    exact name.split opened (inside.split closed .nil)

end Decoration

namespace Group

variable (g : Group)

/-- the group with the word in front of its attributes that says that the property is meant -/
def targeted (literal : Text → Text) (g : Group) : Text := '[' :: ("property: " ++ (g.inside literal ++ [']']))

theorem forall_inside {p : Char → Prop} (name : ∀ c, bareChar c = true → p c) (marks : ∀ c ∈ argumentMarks, p c)
    (opened : p '(') (closed : p ')') : ∀ c ∈ g.inside blankOut, p c :=
  Text.forall_mem_join (List.forall_mem_cons.2 ⟨marks _ (by decide), List.forall_mem_singleton.2 (marks _ (by decide))⟩)
    (List.forall_mem_map.2 fun a _ => a.forall_code name marks opened closed)

theorem pairs_inside : Paired '(' ')' (g.inside blankOut) :=
  .join (Text.forall_of_all (by decide)) (List.forall_mem_map.2 fun a _ => a.pairs_form)

theorem unheaded_inside : Unheaded (g.inside blankOut) := .join (List.forall_mem_map.2 fun a _ => a.unheaded)

/-! ### A group as it stands in front of a member -/

theorem forall_form {p : Char → Prop} (name : ∀ c, bareChar c = true → p c) (marks : ∀ c ∈ argumentMarks, p c)
    (others : ∀ c ∈ (['(', ')', '[', ']'] : Text), p c) : ∀ c ∈ g.form blankOut, p c :=
  List.forall_mem_cons.2 ⟨others _ (by decide), List.forall_mem_append.2
    ⟨g.forall_inside name marks (others _ (by decide)) (others _ (by decide)),
      List.forall_mem_singleton.2 (others _ (by decide))⟩⟩

theorem pairs_round : Paired '(' ')' (g.form blankOut) :=
  (g.pairs_inside.append (.of_free (by decide))).cons (by decide) (by decide)

theorem pairs_square : Paired '[' ']' (g.form blankOut) :=
  .group (by decide) <| .of_free <| g.forall_inside
    (fun c bare => ⟨ne_of_bareChar bare (by decide), ne_of_bareChar bare (by decide)⟩) (by decide) (by decide) (by decide)

theorem unheaded : Unheaded (g.form blankOut) := by
  have opened : Stops '[' := by constructor <;> decide
  have closed : Stops ']' := by constructor <;> decide
  exact .cons opened (g.unheaded_inside.split closed .nil)

/-! ### A group as it stands in front of a parameter -/

theorem masks_targeted : Masks true (g.targeted id) (g.targeted blankOut) := by
  have opened : Masks true ('[' :: "property: ".toList) ('[' :: "property: ".toList) :=
    masks_plain (Text.forall_of_all (by decide)) true
  have closed : Masks true [']'] [']'] := masks_plain (Text.forall_of_all (by decide)) true
  exact opened.append (masks_join (fun a _ _ _ _ _ h => a.masks_form.append h) (by decide) closed)

theorem onePiece_targeted (depth : Nat) : OnePiece true depth (g.targeted id) := by
  have inside : OnePiece true (depth + 1) (g.inside id) := onePiece_join (evenMark_comma true) (by simp)
    (List.forall_mem_map.2 fun a _ => a.onePiece true (depth + 1))
  have prefixed : OnePiece true (depth + 1) ("property: ".toList ++ g.inside id) :=
    inside.plain_append (Text.forall_of_all (by decide)) (.inl (Nat.succ_pos depth))
  have whole := prefixed.group (o := '[') (c := ']') rfl rfl (by decide) rfl
  rwa [List.append_assoc] at whole

theorem pairs_targeted : Paired '(' ')' (g.targeted blankOut) := by
  have opened : Paired '(' ')' ('[' :: "property: ".toList) := .of_free (Text.forall_of_all (by decide))
  exact opened.append (g.pairs_inside.append (.of_free (by decide)))

theorem unheaded_targeted : Unheaded (g.targeted blankOut) := by
  have opened : Stops '[' := by constructor <;> decide
  have colon : Stops ':' := by constructor <;> decide
  have closed : Stops ']' := by constructor <;> decide
  have word : Unheaded "property" := .solid (s := "property") (g := []) (by decide) (by simp)
  have inside : Unheaded ([' '] ++ (g.inside blankOut ++ [']'])) :=
    (g.unheaded_inside.split closed .nil).marks_append (by decide)
  exact .cons opened (word.split colon inside)

end Group

/-! ## Groups in front of a member -/

/-- groups with a space in front of each -/
def spacedGroups (literal : Text → Text) (groups : List Group) : Text := groups.flatMap fun g => ' ' :: g.form literal

theorem spacedGroups_cons (literal : Text → Text) (g : Group) (groups : List Group) :
    spacedGroups literal (g :: groups) = ' ' :: (g.form literal ++ spacedGroups literal groups) := rfl

section
variable (groups : List Group)

theorem forall_spacedGroups {p : Char → Prop} (name : ∀ c, bareChar c = true → p c) (marks : ∀ c ∈ argumentMarks, p c)
    (others : ∀ c ∈ (['(', ')', '[', ']'] : Text), p c) : ∀ c ∈ spacedGroups blankOut groups, p c := by
  intro c hc
  obtain ⟨g, -, hc⟩ := List.mem_flatMap.1 hc
  rcases List.mem_cons.1 hc with rfl | hc
  · exact marks _ (by decide)
  · exact g.forall_form name marks others c hc

theorem pairs_spacedGroups_round : Paired '(' ')' (spacedGroups blankOut groups) :=
  .flatMap fun g _ => g.pairs_round.cons (by decide) (by decide)

theorem pairs_spacedGroups_square : Paired '[' ']' (spacedGroups blankOut groups) :=
  .flatMap fun g _ => g.pairs_square.cons (by decide) (by decide)

theorem masks_spacedGroups : Masks true (spacedGroups id groups) (spacedGroups blankOut groups) :=
  masks_flatMap fun g _ => (masks_plain (t := [' ']) (Text.forall_of_all (by decide)) true).append g.masks_form

/-- A text without headings may follow. -/
theorem unheaded_spacedGroups {t : Text} (ht : Unheaded t) : Unheaded (spacedGroups blankOut groups ++ t) := by
  have closed : Stops ']' := by constructor <;> decide
  induction groups with
  | nil => exact ht
  | cons g groups ih =>
    have last : (g.form blankOut).getLast? = some ']' := by rw [Group.form, ← List.cons_append, List.getLast?_concat]
    rw [spacedGroups_cons, List.cons_append, List.append_assoc]
    exact .marks_append (g := [' ']) (by decide) (g.unheaded.append_of_last closed last ih)

theorem spacedGroups_space (literal : Text → Text) (t : Text) :
    spacedGroups literal groups ++ ' ' :: t = ' ' :: (spacedGroups literal groups ++ ' ' :: t).drop 1 := by
  cases groups <;> rfl

theorem drop_spacedGroups_cons (literal : Text → Text) (g : Group) (t : Text) :
    (spacedGroups literal (g :: groups) ++ t).drop 1 = g.form literal ++ (spacedGroups literal groups ++ t) := by
  rw [spacedGroups_cons, List.cons_append, List.append_assoc]
  rfl

section
variable {t : Text} {c : Char} (head : t.head? = some c) (other : c ≠ '[') (solid : EndpointSurvey.blank c = false)
include head solid

/-- One space stands in front, of the first group or of what follows the groups. -/
theorem leadingBlanks_spacedGroups : Text.leadingBlanks (spacedGroups blankOut groups ++ ' ' :: t) = 1 := by
  have first : ∀ d ∈ ((spacedGroups blankOut groups ++ ' ' :: t).drop 1).head?, EndpointSurvey.blank d = false := by
    cases groups with
    | nil =>
      intro d hd
      rw [show (spacedGroups blankOut [] ++ ' ' :: t).drop 1 = t from rfl, head] at hd
      cases hd
      exact solid
    | cons g groups =>
      rintro d ⟨⟩
      decide
  rw [spacedGroups_space]
  exact Text.leadingBlanks_padded (s := [' ']) (Text.forall_of_all (by decide)) first

include other

/-- The groups are cut off the front of a heading, where the one before them ended at an offset. -/
theorem leadingGroups_spacedGroups (stop : Nat) :
    leadingGroups (stop + 1) stop ((spacedGroups blankOut groups ++ ' ' :: t).drop 1) =
      .ok (stop + (spacedGroups blankOut groups).length, stop + (spacedGroups blankOut groups).length + 1) := by
  induction groups generalizing stop with
  | nil => exact leadingGroups_other head other _ _
  | cons g groups ih =>
    have size : (g.inside id).length + 1 + 1 = (g.form blankOut).length := by
      rw [Group.form, List.length_cons, List.length_append, g.length_inside]
      rfl
    have place : stop + 1 + ((g.inside id).length + 1) + 1 = stop + 1 + (g.form blankOut).length := by omega
    have whole : stop + 1 + (g.form blankOut).length + (spacedGroups blankOut groups).length =
        stop + (spacedGroups blankOut (g :: groups)).length := by
      rw [spacedGroups_cons, List.length_cons, List.length_append]
      omega
    rw [drop_spacedGroups_cons, leadingGroups_closed rfl (g.closing?_form _), size, List.drop_left, place,
      leadingBlanks_spacedGroups groups head solid, ih, whole]

/-- The groups at the front of a member, whose heading starts with a space. -/
theorem leadingGroups_front : ∃ stop, leadingGroups 1 1 ((spacedGroups blankOut groups ++ ' ' :: t).drop 1) =
      .ok (stop, (spacedGroups blankOut groups).length + 1) ∧
    stop - 1 = ((spacedGroups blankOut groups).drop 1).length := by
  have whole := leadingGroups_spacedGroups groups head other solid 0
  cases groups with
  | nil => exact ⟨1, leadingGroups_other head other _ _, rfl⟩
  | cons g groups =>
    rw [drop_spacedGroups_cons, leadingGroups_closed rfl (g.closing?_form _)] at whole
    rw [drop_spacedGroups_cons, leadingGroups_closed rfl (g.closing?_form _)]
    refine ⟨_, whole.trans (by rw [Nat.zero_add]), ?_⟩
    rw [List.length_drop]

end

theorem attributes_nil : attributes none [] = pure [] :=
  attributes_no_bracket none [] (by rw [masks_nil.mask_eq]; exact List.not_mem_nil)

theorem readGroups_spacedGroups :
    Attribute.readGroups none (Source.ofText (spacedGroups id groups)) = pure (groups.flatMap Group.attributes) := by
  induction groups with
  | nil => exact attributes_nil
  | cons g groups ih =>
    have space : Masks true [' '] [' '] := masks_plain (Text.forall_of_all (by decide)) true
    have shape : spacedGroups id (g :: groups) = [' '] ++ (g.form id ++ spacedGroups id groups) := rfl
    have free : '[' ∉ (Source.ofText [' ']).code := by
      rw [Source.code_ofText, space.mask_eq]
      decide
    have rest := masks_spacedGroups groups
    rw [shape, ofText_append space (g.masks_form.append rest), ofText_append g.masks_form rest,
      Attribute.readGroups_free none free, g.readGroups_append, ih]
    rfl

/-- **The attributes of groups that stand one space apart are read back**, and nothing is warned of. -/
theorem attributes_spacedGroups :
    attributes none ((spacedGroups id groups).drop 1) = pure (groups.flatMap Group.attributes) := by
  cases groups with
  | nil => exact attributes_nil
  | cons g groups =>
    show Attribute.readGroups none (Source.ofText (g.form id ++ spacedGroups id groups)) = _
    rw [ofText_append g.masks_form (masks_spacedGroups groups), g.readGroups_append, readGroups_spacedGroups]
    rfl

end

end Rendered

end EndpointSurvey
