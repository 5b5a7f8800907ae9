/-
What its words keep of a name. The words are the matches of a pattern: capitals that no small letter follows, or small
letters behind at most one capital, or digits. A pattern is tried in order: of two alternatives the first goes first, a
run is read as far as it goes and gives characters back one by one while what follows it fails, and a look ahead reads
nothing. The matches in a text are found from the left, each behind the one before it, and a character at which none
starts is passed over.

So the words keep the letters and digits of the name, in small letters and in order. Two names share these if and only
if one is got from the other by changing the case of letters and by putting in and taking out separators, and a rule
that looks at all of a name, anywhere in it or at its end, does not tell such names apart.

Main statements:
- `Pattern.Finds.unique`: a text has one list of matches;
- `find?_runRests`: how much of a run a look ahead behind it leaves;
- `Pattern.head?_rests_nameWord`: how far the first match at a place reaches;
- `Pattern.rests_nameWord_eq_nil_iff`: one starts at every letter and at every digit, and nowhere else;
- `finds_rawWords_iff`: the words of a name are the matches of the pattern;
- `flatten_nameWords`: the words make up the letters and digits of the name;
- `Respells.folded` and `respells_iff`: a change of spelling keeps them, and names that share them differ by such
  changes alone;
- `NameRule.applies_anywhere_iff` and `NameRule.applies_ending_iff`: what a rule for all of a name looks for;
- `nameWords_cover`: the words of a name, and the rules that do not see how it is spelled.
-/
import EndpointSurvey.Proofs.Source.Lookahead
import EndpointSurvey.Proofs.Text.LowerCase
import EndpointSurvey.Proofs.Text.Spacing
import EndpointSurvey.Sample.NameRule
import Mathlib

namespace EndpointSurvey

/-! ## Patterns -/

/-- a pattern for a piece of text -/
inductive Pattern where
  /-- one character of a kind if it can be had, else none -/
  | optional (p : Char → Bool)
  /-- one character of a kind or more -/
  | run (p : Char → Bool)
  /-- reads nothing, where no character of a kind is next -/
  | notBefore (p : Char → Bool)
  | andThen (first second : Pattern)
  | orElse (first second : Pattern)

/-- what may be left of a text behind a run, the longest run first -/
def runRests (p : Char → Bool) : Text → List Text
  | [] => []
  | c :: cs => if p c then runRests p cs ++ [cs] else []

namespace Pattern

/-- what may be left of a text behind a pattern, in the order in which it is tried -/
def rests : Pattern → Text → List Text
  | optional p, t => (if t.head?.any p then [t.tail] else []) ++ [t]
  | run p, t => runRests p t
  | notBefore p, t => if t.head?.any p then [] else [t]
  | andThen first second, t => (first.rests t).flatMap second.rests
  | orElse first second, t => first.rests t ++ second.rests t

/-- Passing a text from the left, the pattern is found in these words. -/
inductive Finds (pattern : Pattern) : Text → List Text → Prop where
  | nil : Finds pattern [] []
  | word {word rest : Text} {words : List Text} (filled : word ≠ [])
    (first : (pattern.rests (word ++ rest)).head? = some rest) (later : Finds pattern rest words) :
    Finds pattern (word ++ rest) (word :: words)
  | skip {c : Char} {cs : Text} {words : List Text} (none : pattern.rests (c :: cs) = [])
    (later : Finds pattern cs words) : Finds pattern (c :: cs) words

namespace Finds
variable {pattern : Pattern} {t : Text} {words others : List Text}

/-- A text has one list of matches. -/
theorem unique (h : pattern.Finds t words) (other : pattern.Finds t others) : words = others := by
  induction h generalizing others with
  | nil =>
    generalize empty : ([] : Text) = t at other
    cases other with
    | nil => rfl
    | word filled => exact absurd (List.append_eq_nil_iff.1 empty.symm).1 filled
    | skip => cases empty
  | @word word rest words filled first later ih =>
    generalize same : word ++ rest = t at other first
    cases other with
    | nil => exact absurd (List.append_eq_nil_iff.1 same).1 filled
    | @word word' rest' _ _ first' later' =>
      obtain rfl : rest = rest' := Option.some.inj (first.symm.trans first')
      obtain rfl := List.append_cancel_right same
      rw [ih later']
    | skip none =>
      rw [none] at first
      cases first
  | @skip c cs words none later ih =>
    generalize same : c :: cs = t at other none
    cases other with
    | nil => cases same
    | word _ first =>
      rw [none] at first
      cases first
    | skip _ later' =>
      obtain ⟨rfl, rfl⟩ := List.cons.inj same
      exact ih later'

theorem of_head? {word rest : Text} (whole : word ++ rest = t) (filled : word ≠ [])
    (first : (pattern.rests t).head? = some rest) (later : pattern.Finds rest words) :
    pattern.Finds t (word :: words) := by
  subst whole
  exact .word filled first later

end Finds

end Pattern

/-! ## Runs -/

section
variable {p q kind : Char → Bool} {c : Char} {cs t rest : Text}

theorem exists_of_mem_runRests (within : ∀ c, p c = true → kind c = true) (h : rest ∈ runRests p t) :
    ∃ word, t = word ++ rest ∧ word ≠ [] ∧ word.all kind = true := by
  induction t with
  | nil => cases h
  | cons c cs ih =>
    rw [runRests] at h
    split at h
    · next first =>
      rcases List.mem_append.1 h with longer | single
      · obtain ⟨word, rfl, -, alike⟩ := ih longer
        exact ⟨c :: word, rfl, List.cons_ne_nil _ _, by rw [List.all_cons, within c first, alike]; rfl⟩
      · obtain rfl := List.mem_singleton.1 single
        exact ⟨[c], rfl, List.cons_ne_nil _ _, by rw [List.all_cons, within c first]; rfl⟩
    · cases h

theorem runRests_of_not (h : p c = false) : runRests p (c :: cs) = [] := by
  rw [runRests, if_neg (Bool.eq_false_iff.1 h)]

/-- A run goes as far as its kind does. -/
theorem head?_runRests (h : p c = true) : (runRests p (c :: cs)).head? = some (cs.dropWhile p) := by
  induction cs generalizing c with
  | nil => rw [runRests, if_pos h]; rfl
  | cons d ds ih =>
    rw [runRests, if_pos h, List.head?_append]
    cases more : p d with
    | true => rw [ih more, List.dropWhile_cons_of_pos more]; rfl
    | false => rw [runRests_of_not more, List.dropWhile_cons_of_neg (Bool.eq_false_iff.1 more)]; rfl

/-- A run gives its last character back where the look ahead refuses what follows all of it, but not its only one. -/
theorem find?_runRests (apart : ∀ c, p c = true → q c = false) (h : p c = true) :
    (runRests p (c :: cs)).find? (!·.head?.any q) =
      if (cs.dropWhile p).head?.any q then (cs.takeWhile p).getLast?.map (· :: cs.dropWhile p)
      else some (cs.dropWhile p) := by
  induction cs generalizing c with
  | nil => rw [runRests, if_pos h]; rfl
  | cons d ds ih =>
    rw [runRests, if_pos h, List.find?_append]
    cases more : p d with
    | false =>
      have stop : ¬ p d = true := Bool.eq_false_iff.1 more
      rw [runRests_of_not more, List.dropWhile_cons_of_neg stop, List.takeWhile_cons_of_neg stop]
      cases refused : q d <;> simp [refused]
    | true =>
      -- what is left behind a shorter run starts with `d`, which the look ahead allows
      have allowed : [d :: ds].find? (!·.head?.any q) = some (d :: ds) := by simp [apart d more]
      rw [ih more, allowed, List.dropWhile_cons_of_pos more, List.takeWhile_cons_of_pos more]
      split
      · cases inner : ds.takeWhile p with
        | nil =>
          rw [List.dropWhile_eq_self_iff.2 (List.takeWhile_eq_nil_iff.1 inner)]
          rfl
        | cons e es =>
          rw [List.getLast?_cons_cons, List.getLast?_eq_some_getLast (List.cons_ne_nil e es)]
          rfl
      · rfl

end

/-! ## The pattern of words -/

/-- a character that words are made of: a letter of the first 128 characters or a decimal digit -/
def nameChar (c : Char) : Bool := c.isAlpha || decimalDigit c

theorem nameChar_of_alike {word : Text} (alike : word.all Char.isAlpha = true ∨ word.all decimalDigit = true) :
    ∀ c ∈ word, nameChar c = true := by
  intro c hc
  rw [nameChar, Bool.or_eq_true]
  exact alike.imp (List.all_eq_true.1 · c hc) (List.all_eq_true.1 · c hc)

theorem isLower_of_isUpper {c : Char} (h : c.isUpper = true) : c.isLower = false :=
  Bool.eq_false_iff.2 (Char.not_isLower_of_isUpper h)

namespace Pattern

/-- capitals that no small letter follows, or small letters behind at most one capital, or digits -/
def nameWord : Pattern :=
  orElse (andThen (run Char.isUpper) (notBefore Char.isLower))
    (orElse (andThen (optional Char.isUpper) (run Char.isLower)) (run decimalDigit))

variable {c : Char} {cs t rest word : Text} {words : List Text}

/-- A look ahead refuses some of the ways to read what is before it. -/
theorem rests_andThen_notBefore (first : Pattern) (q : Char → Bool) (t : Text) :
    (andThen first (notBefore q)).rests t = (first.rests t).filter (!·.head?.any q) := by
  rw [rests]
  induction first.rests t with
  | nil => rfl
  | cons rest others ih =>
    rw [List.flatMap_cons, List.filter_cons, ih, rests]
    cases rest.head?.any q <;> rfl

theorem rests_nameWord (t : Text) :
    nameWord.rests t = (runRests Char.isUpper t).filter (!·.head?.any Char.isLower) ++
      ((if t.head?.any Char.isUpper then runRests Char.isLower t.tail else []) ++ runRests Char.isLower t ++
        runRests decimalDigit t) := by
  have small : (andThen (optional Char.isUpper) (run Char.isLower)).rests t =
      (if t.head?.any Char.isUpper then runRests Char.isLower t.tail else []) ++ runRests Char.isLower t := by
    rw [rests, rests, List.flatMap_append]
    split <;> simp [rests]
  rw [nameWord, rests, rests_andThen_notBefore, rests, rests, small, rests]

/-- How far the first match at a place reaches is told by the character there: capitals before a small letter leave the
last of them to the next word, unless it is the only one. -/
theorem head?_rests_nameWord (c : Char) (cs : Text) :
    (nameWord.rests (c :: cs)).head? =
      if c.isUpper then
        if (cs.dropWhile Char.isUpper).head?.any Char.isLower then
          match (cs.takeWhile Char.isUpper).getLast? with
          | some last => some (last :: cs.dropWhile Char.isUpper)
          | none => some (cs.dropWhile Char.isLower)
        else some (cs.dropWhile Char.isUpper)
      else if c.isLower then some (cs.dropWhile Char.isLower)
      else if decimalDigit c then some (cs.dropWhile decimalDigit)
      else none := by
  rw [rests_nameWord, List.head?_append, List.head?_filter, List.head?_cons, Option.any_some, List.tail_cons]
  cases upper : c.isUpper with
  | true =>
    rw [find?_runRests (p := Char.isUpper) (fun _ => isLower_of_isUpper) upper, if_pos rfl, if_pos rfl]
    split
    · next small =>
      cases last : (cs.takeWhile Char.isUpper).getLast? with
      | some last => rfl
      | none =>
        -- no match for the first alternative: the capital goes with the small letters
        rw [List.dropWhile_eq_self_iff.2 (List.takeWhile_eq_nil_iff.1 (List.getLast?_eq_none_iff.1 last))] at small
        cases cs with
        | nil => cases small
        | cons d ds =>
          have first : d.isLower = true := small
          rw [List.append_assoc, List.head?_append, head?_runRests first, List.dropWhile_cons_of_pos first]
          rfl
    · rfl
  | false =>
    rw [runRests_of_not upper, if_neg Bool.false_ne_true, if_neg Bool.false_ne_true, List.nil_append]
    cases small : c.isLower with
    | true => rw [List.head?_append, head?_runRests small]; rfl
    | false =>
      rw [runRests_of_not small, List.nil_append, if_neg Bool.false_ne_true]
      cases digit : decimalDigit c with
      | true => rw [head?_runRests digit]; rfl
      | false => rw [runRests_of_not digit]; rfl

theorem head?_of_capital (capital : c.isUpper = true) (small : cs.head?.any Char.isLower = true) :
    (nameWord.rests (c :: cs)).head? = some (cs.dropWhile Char.isLower) := by
  have single : cs.takeWhile Char.isUpper = [] := by
    cases cs with
    | nil => cases small
    | cons d ds =>
      refine List.takeWhile_cons_of_neg fun upper => ?_
      exact Bool.false_ne_true ((isLower_of_isUpper upper).symm.trans small)
  rw [head?_rests_nameWord, if_pos capital, single, List.dropWhile_eq_self_iff.2 (List.takeWhile_eq_nil_iff.1 single),
    if_pos small]
  rfl

/-- A match starts at every letter and at every digit, and nowhere else. -/
theorem rests_nameWord_eq_nil_iff : nameWord.rests (c :: cs) = [] ↔ nameChar c = false := by
  rw [← List.head?_eq_none_iff, head?_rests_nameWord, nameChar, Char.isAlpha]
  cases c.isUpper with
  | true =>
    rw [if_pos rfl]
    refine iff_of_false ?_ (by simp)
    split
    · split <;> exact Option.some_ne_none _
    · exact Option.some_ne_none _
  | false => cases c.isLower <;> cases decimalDigit c <;> simp

/-- A match is not empty, and holds letters only or digits only. -/
theorem exists_of_mem_rests_nameWord (h : rest ∈ nameWord.rests t) :
    ∃ word, t = word ++ rest ∧ word ≠ [] ∧ (word.all Char.isAlpha = true ∨ word.all decimalDigit = true) := by
  have upper : ∀ c : Char, c.isUpper = true → c.isAlpha = true := fun c h => by rw [Char.isAlpha, h]; rfl
  have lower : ∀ c : Char, c.isLower = true → c.isAlpha = true := fun c h => by rw [Char.isAlpha, h, Bool.or_true]
  rw [rests_nameWord, List.mem_append, List.mem_append, List.mem_append, List.mem_filter] at h
  rcases h with ⟨capitals, -⟩ | (capital | small) | digits
  · obtain ⟨word, whole, filled, alike⟩ := exists_of_mem_runRests upper capitals
    exact ⟨word, whole, filled, .inl alike⟩
  · split at capital
    · next first =>
      cases t with
      | nil => cases first
      | cons c cs =>
        obtain ⟨word, rfl, -, alike⟩ := exists_of_mem_runRests lower capital
        exact ⟨c :: word, rfl, List.cons_ne_nil _ _, .inl (by rw [List.all_cons, upper c first, alike]; rfl)⟩
    · cases capital
  · obtain ⟨word, whole, filled, alike⟩ := exists_of_mem_runRests lower small
    exact ⟨word, whole, filled, .inl alike⟩
  · obtain ⟨word, whole, filled, alike⟩ := exists_of_mem_runRests (fun _ h => h) digits
    exact ⟨word, whole, filled, .inr alike⟩

theorem alike_of_head? (first : (nameWord.rests (word ++ rest)).head? = some rest) :
    word.all Char.isAlpha = true ∨ word.all decimalDigit = true := by
  obtain ⟨read, whole, -, alike⟩ := exists_of_mem_rests_nameWord (List.mem_of_head? first)
  rwa [List.append_cancel_right whole]

/-- No word is empty, and each holds letters only or digits only. -/
theorem Finds.alike_nameWord (h : nameWord.Finds t words) :
    ∀ word ∈ words, word ≠ [] ∧ (word.all Char.isAlpha = true ∨ word.all decimalDigit = true) := by
  induction h with
  | nil => exact fun _ h => absurd h List.not_mem_nil
  | word filled first _ ih => exact List.forall_mem_cons.2 ⟨⟨filled, alike_of_head? first⟩, ih⟩
  | skip _ _ ih => exact ih

/-- The words make up the letters and digits of the text: what is passed over is neither. -/
theorem Finds.flatten_nameWord (h : nameWord.Finds t words) : words.flatten = t.filter nameChar := by
  induction h with
  | nil => rfl
  | @word word rest words _ first _ ih =>
    have kept := nameChar_of_alike (alike_of_head? first)
    rw [List.flatten_cons, List.filter_append, List.filter_eq_self.2 kept, ih]
  | skip none _ ih =>
    rw [List.filter_cons_of_neg (Bool.eq_false_iff.1 (rests_nameWord_eq_nil_iff.1 none)), ih]

end Pattern

/-! ## The words of a name -/

open Pattern in
theorem finds_rawWords (name : Text) : nameWord.Finds name (rawWords name) := by
  fun_induction rawWords name with
  | case1 => exact .nil
  | case2 c cs upper capitals rest small none ih =>
    have single : rest = cs := List.dropWhile_eq_self_iff.2 (List.takeWhile_eq_nil_iff.1 none)
    rw [single] at small ih ⊢
    refine .of_head? (congrArg (c :: ·) List.takeWhile_append_dropWhile) (List.cons_ne_nil _ _) ?_ ih
    exact head?_of_capital upper small
  | case3 c cs upper capitals rest small d ds more ih =>
    -- two matches: the capitals but the last, and the last with the small letters
    have last : (cs.takeWhile Char.isUpper).getLast? = some ((d :: ds).getLast (List.cons_ne_nil d ds)) := by
      rw [show cs.takeWhile Char.isUpper = d :: ds from more, List.getLast?_eq_some_getLast]
    have whole : (d :: ds).dropLast ++ (d :: ds).getLast (List.cons_ne_nil d ds) :: rest = cs := by
      rw [List.append_cons, List.dropLast_concat_getLast, ← more]
      exact List.takeWhile_append_dropWhile
    refine .of_head? (congrArg (c :: ·) whole) (List.cons_ne_nil _ _) ?_ ?_
    · rw [head?_rests_nameWord, if_pos upper, if_pos small, last]
    · refine .of_head? (congrArg (_ :: ·) List.takeWhile_append_dropWhile) (List.cons_ne_nil _ _) ?_ ih
      exact head?_of_capital (List.mem_takeWhile_imp (List.mem_of_getLast? last)) small
  | case4 c cs upper capitals rest other ih =>
    refine .of_head? (congrArg (c :: ·) List.takeWhile_append_dropWhile) (List.cons_ne_nil _ _) ?_ ih
    rw [head?_rests_nameWord, if_pos upper, if_neg other]
  | case5 c cs upper small ih =>
    refine .of_head? (congrArg (c :: ·) List.takeWhile_append_dropWhile) (List.cons_ne_nil _ _) ?_ ih
    rw [head?_rests_nameWord, if_neg upper, if_pos small]
  | case6 c cs upper small digit ih =>
    refine .of_head? (congrArg (c :: ·) List.takeWhile_append_dropWhile) (List.cons_ne_nil _ _) ?_ ih
    rw [head?_rests_nameWord, if_neg upper, if_neg small, if_pos digit]
  | case7 c cs upper small digit ih =>
    refine .skip (rests_nameWord_eq_nil_iff.2 ?_) ih
    rw [nameChar, Char.isAlpha]
    simp [upper, small, digit]

/-- **Words.** The words of a name are the matches of the pattern in it. -/
theorem finds_rawWords_iff {name : Text} {words : List Text} :
    Pattern.nameWord.Finds name words ↔ words = rawWords name := by
  constructor
  · exact fun h => h.unique (finds_rawWords name)
  · rintro rfl
    exact finds_rawWords name

example : rawWords "getXMLHttp2Items".toList =
    ["get".toList, "XML".toList, "Http".toList, "2".toList, "Items".toList] := by cbv

/-! ## What the words keep -/

theorem toLower_of_digit {c : Char} (digit : decimalDigit c = true) : c.toLower = c := by
  have other := (Bool.or_eq_false_iff.1 (isAlpha_of_digit digit)).1
  exact Char.toLower_eq_of_not_isUpper (Bool.eq_false_iff.1 other)

theorem lowerFrom_of_nameChars (afterCased : Bool) {t : Text} (h : ∀ c ∈ t, nameChar c = true) :
    Text.lowerFrom afterCased t = t.map Char.toLower := by
  induction t generalizing afterCased with
  | nil => rfl
  | cons c cs ih =>
    obtain ⟨first, others⟩ := List.forall_mem_cons.1 h
    rw [Text.lowerFrom, List.map_cons, ih _ others]
    by_cases low : c.toNat < 128
    · rw [if_pos low]
    · have digit : decimalDigit c = true := by
        refine (Bool.or_eq_true_iff.1 first).resolve_left fun letter => low ?_
        have bounds := isAlpha_bounds letter
        omega
      -- the two characters with a rule of their own are no digits
      have sigma : c ≠ 'Σ' := ne_of_test digit (by decide +kernel)
      have dotted : c ≠ Char.ofNat 0x130 := ne_of_test digit (by decide +kernel)
      have point : c.toNat ≠ 0x130 := fun same => dotted (by rw [← same, Char.ofNat_toNat])
      rw [if_neg low, if_neg sigma, if_neg point, lowerChar_of_digit low digit, toLower_of_digit digit]

/-- Letters and digits are lower-cased one by one, whatever is around them. -/
theorem lower_of_nameChars {t : Text} (h : ∀ c ∈ t, nameChar c = true) : t.lower = t.map Char.toLower :=
  lowerFrom_of_nameChars false h

/-- the letters and digits of a name, in small letters -/
def foldedName (name : Text) : Text := (name.filter nameChar).map Char.toLower

theorem foldedName_append (a b : Text) : foldedName (a ++ b) = foldedName a ++ foldedName b := by
  rw [foldedName, List.filter_append, List.map_append]
  rfl

theorem foldedName_kept {c : Char} (kept : nameChar c = true) (t : Text) :
    foldedName (c :: t) = c.toLower :: foldedName t := by
  rw [foldedName, List.filter_cons_of_pos kept]
  rfl

theorem foldedName_separator {c : Char} (separator : nameChar c = false) (t : Text) :
    foldedName (c :: t) = foldedName t := by
  rw [foldedName, List.filter_cons_of_neg (Bool.eq_false_iff.1 separator)]
  rfl

theorem nameWords_eq (name : Text) : nameWords name = (rawWords name).map (·.map Char.toLower) := by
  refine List.map_congr_left fun word hw => lower_of_nameChars ?_
  exact nameChar_of_alike ((finds_rawWords name).alike_nameWord word hw).2

/-- The words make up the letters and digits of the name. -/
theorem flatten_nameWords (name : Text) : (nameWords name).flatten = foldedName name := by
  rw [nameWords_eq, ← List.map_flatten, (finds_rawWords name).flatten_nameWord]
  rfl

/-- No word is empty, and each holds small letters only or digits only. -/
theorem alike_nameWords (name : Text) :
    ∀ word ∈ nameWords name, word ≠ [] ∧ (word.all Char.isLower = true ∨ word.all decimalDigit = true) := by
  rw [nameWords_eq, List.forall_mem_map]
  intro word hw
  obtain ⟨filled, alike⟩ := (finds_rawWords name).alike_nameWord word hw
  refine ⟨fun empty => filled (List.map_eq_nil_iff.1 empty), alike.imp (fun letters => ?_) (fun digits => ?_)⟩
  · rw [List.all_map, List.all_eq_true]
    exact fun c hc => (Char.isLower_toLower_eq_isAlpha c).trans (List.all_eq_true.1 letters c hc)
  · rw [List.all_map, List.all_eq_true]
    intro c hc
    have digit := List.all_eq_true.1 digits c hc
    rwa [Function.comp_apply, toLower_of_digit digit]

theorem nameWords_eq_nil_iff (name : Text) : nameWords name = [] ↔ foldedName name = [] := by
  rw [← flatten_nameWords, List.flatten_eq_nil_iff]
  constructor
  · intro none
    rw [none]
    exact fun _ h => absurd h List.not_mem_nil
  · intro empty
    exact List.eq_nil_iff_forall_not_mem.2 fun word hw => (alike_nameWords name word hw).1 (empty word hw)

/-! ## Spelling -/

/-- one change in how a name is spelled: the case of a letter, or a separator more or less -/
inductive Respells : Text → Text → Prop where
  | recase (before after : Text) {c d : Char} (old : c.isAlpha = true) (new : d.isAlpha = true)
    (same : c.toLower = d.toLower) : Respells (before ++ c :: after) (before ++ d :: after)
  | insert (before after : Text) {c : Char} (separator : nameChar c = false) :
    Respells (before ++ after) (before ++ c :: after)
  | remove (before after : Text) {c : Char} (separator : nameChar c = false) :
    Respells (before ++ c :: after) (before ++ after)

namespace Respells
variable {a b : Text}

instance : Std.Symm Respells where
  symm a b h := by
    cases h with
    | recase before after old new same => exact .recase before after new old same.symm
    | insert before after separator => exact .remove before after separator
    | remove before after separator => exact .insert before after separator

/-- A change of spelling keeps the letters and digits. -/
theorem folded (h : Respells a b) : foldedName a = foldedName b := by
  have letter : ∀ {c : Char}, c.isAlpha = true → nameChar c = true := fun h => by rw [nameChar, h]; rfl
  cases h with
  | recase before after old new same =>
    rw [foldedName_append, foldedName_append, foldedName_kept (letter old), foldedName_kept (letter new), same]
  | insert before after separator => rw [foldedName_append, foldedName_append, foldedName_separator separator]
  | remove before after separator => rw [foldedName_append, foldedName_append, foldedName_separator separator]

/-- Behind any front, letters become small and separators are taken out one after another. -/
theorem run_foldedName (before name : Text) :
    Relation.ReflTransGen Respells (before ++ name) (before ++ foldedName name) := by
  induction name generalizing before with
  | nil => exact .refl
  | cons c cs ih =>
    cases kept : nameChar c with
    | false =>
      rw [foldedName_separator kept]
      exact .head (.remove before cs kept) (ih before)
    | true =>
      have later := ih (before ++ [c.toLower])
      rw [List.append_assoc, List.append_assoc, List.singleton_append, List.singleton_append] at later
      rw [foldedName_kept kept]
      rcases Bool.or_eq_true_iff.1 kept with letter | digit
      · have new : c.toLower.isAlpha = true := (Char.isAlpha_toLower_eq_isAlpha c).trans letter
        exact .head (.recase before cs letter new (Char.toLower_toLower_eq_toLower c).symm) later
      · rwa [toLower_of_digit digit] at later ⊢

end Respells

/-- **Spellings.** Names share their letters and digits exactly if changes of spelling lead from one to the other. -/
theorem respells_iff {a b : Text} : Relation.ReflTransGen Respells a b ↔ foldedName a = foldedName b := by
  constructor
  · intro steps
    induction steps with
    | refl => rfl
    | tail _ step ih => exact ih.trans step.folded
  · intro same
    have down : Relation.ReflTransGen Respells a (foldedName a) := Respells.run_foldedName [] a
    have up : Relation.ReflTransGen Respells (foldedName b) b := symm (Respells.run_foldedName [] b)
    rw [same] at down
    exact down.trans up

/-! ## Rules for all of a name -/

/-- A piece is found in a text exactly if it stands in it. -/
theorem contains_iff_infix {piece t : Text} : Text.contains piece t = true ↔ piece <:+: t := by
  rw [Text.contains, Option.isSome_iff_exists]
  constructor
  · rintro ⟨⟨before, rest⟩, found⟩
    exact ⟨before, rest, Lexeme.splitFirst?_append found⟩
  · rintro ⟨before, rest, rfl⟩
    rw [List.append_assoc]
    induction before with
    | nil => exact ⟨_, Lexeme.splitFirst?_self piece rest⟩
    | cons c cs ih =>
      obtain ⟨⟨front, behind⟩, found⟩ := ih
      rw [List.cons_append, Text.splitFirst?]
      split
      · exact ⟨_, rfl⟩
      · rw [found]
        exact ⟨_, rfl⟩

namespace NameRule
variable {rule : NameRule} {words : List Text}

theorem applies_anywhere_iff (place : rule.place = .anywhere) :
    rule.applies words = true ↔ ∃ word ∈ rule.words, word <:+: words.flatten := by
  rw [applies, place]
  simp only [List.any_eq_true, contains_iff_infix]

theorem applies_ending_iff (place : rule.place = .ending) :
    rule.applies words = true ↔ ∃ word ∈ rule.words, word <:+ words.flatten := by
  rw [applies, place]
  simp only [List.any_eq_true, Text.endsWith, List.isSuffixOf_iff_suffix]

end NameRule

/-- **Names.** The words of a name are the matches of the pattern, in small letters. They make up its letters and
digits, in order; no word is empty, and each holds letters only or digits only. So however a name is spelled, it has
words or it has none, and a rule that looks for its own words anywhere in the name or at its end applies to every
spelling or to none. -/
theorem nameWords_cover (name : Text) :
    (∃ words, Pattern.nameWord.Finds name words ∧ nameWords name = words.map Text.lower) ∧
      (nameWords name).flatten = (name.filter nameChar).map Char.toLower ∧
      (∀ word ∈ nameWords name, word ≠ [] ∧ (word.all Char.isLower = true ∨ word.all decimalDigit = true)) ∧
      ∀ other, Relation.ReflTransGen Respells name other →
        (nameWords other = [] ↔ nameWords name = []) ∧
          ∀ rule : NameRule, rule.place = .anywhere ∨ rule.place = .ending →
            rule.applies (nameWords other) = rule.applies (nameWords name) := by
  refine ⟨⟨rawWords name, finds_rawWords name, rfl⟩, flatten_nameWords name, alike_nameWords name,
    fun other spelled => ?_⟩
  have same : foldedName other = foldedName name := (respells_iff.1 spelled).symm
  refine ⟨by rw [nameWords_eq_nil_iff, nameWords_eq_nil_iff, same], fun rule whole => Bool.eq_iff_iff.2 ?_⟩
  rcases whole with place | place
  · rw [NameRule.applies_anywhere_iff place, NameRule.applies_anywhere_iff place, flatten_nameWords, flatten_nameWords,
      same]
  · rw [NameRule.applies_ending_iff place, NameRule.applies_ending_iff place, flatten_nameWords, flatten_nameWords,
      same]

/-- a name that ends in two acronyms, which are one word -/
def acronymName : Text := "userXMLID".toList

/-- the same name with the acronyms apart -/
def separatedName : Text := "userXml_Id".toList

theorem nameWords_cover_acronym : Relation.ReflTransGen Respells acronymName separatedName ∧
    nameWords acronymName = ["user".toList, "xmlid".toList] ∧
    nameWords separatedName = ["user".toList, "xml".toList, "id".toList] ∧
    ∃ rule ∈ NameRule.all, rule.place = .ending ∧ rule.applies (nameWords acronymName) = true ∧
      rule.applies (nameWords separatedName) = true := by
  have spelled : Relation.ReflTransGen Respells acronymName separatedName := respells_iff.2 (by decide)
  have ends : NameRule.applies ⟨["id", "uuid", "guid"], .ending, .identifier⟩ (nameWords acronymName) = true := by cbv
  refine ⟨spelled, by cbv, by cbv, _, by simp [NameRule.all], rfl, ends, ?_⟩
  exact (((nameWords_cover acronymName).2.2.2 separatedName spelled).2 _ (.inr rfl)).trans ends

/-- A rule for single words does see how a name is spelled. -/
example : (nameWords "homeTel".toList).contains "tel".toList = true ∧
    (nameWords "hometel".toList).contains "tel".toList = false := by
  constructor <;> cbv

end EndpointSurvey
