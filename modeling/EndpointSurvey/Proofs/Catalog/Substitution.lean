/-
Type arguments put in for parameters one after another, and all at once. A parameter that is put in later is also put in
for where it stands in an argument that is there already.

Main statements: `replaceWord_plain` (one parameter), `atOnce_atOnce` (one parameter and then others),
`substitute_eq_ok` (what a substitution gives, whatever the arguments name) and `chained_eq_iff` (it is that at once just
if no argument is changed by the ones after it).
-/
import EndpointSurvey.Catalog.Substitution
import EndpointSurvey.Proofs.Entries
import EndpointSurvey.Proofs.Source.Lookahead
import EndpointSurvey.Proofs.Text.Spacing

namespace EndpointSurvey

/-- Every text is made of marks and of runs of word characters that end at a mark. -/
@[elab_as_elim]
theorem Text.by_runs {motive : Text → Prop} (nil : motive [])
    (mark : ∀ c t, wordChar c = false → motive t → motive (c :: t))
    (run : ∀ w t : Text, w ≠ [] → (∀ c ∈ w, wordChar c = true) → (∀ c ∈ t.head?, wordChar c = false) → motive t →
      motive (w ++ t)) (t : Text) : motive t := by
  induction hn : t.length using Nat.strongRecOn generalizing t with
  | ind n ih =>
    cases t with
    | nil => exact nil
    | cons c cs =>
      rw [List.length_cons] at hn
      by_cases hc : wordChar c = true
      · have shorter := (List.dropWhile_suffix (l := cs) wordChar).length_le
        have := run (c :: cs.takeWhile wordChar) (cs.dropWhile wordChar) (List.cons_ne_nil _ _)
          (List.forall_mem_cons.2 ⟨hc, fun d hd => List.mem_takeWhile_imp hd⟩)
          (fun d hd => by simpa [Option.mem_def.1 hd] using List.head?_dropWhile_not wordChar cs) (ih _ (by omega) _ rfl)
        rwa [List.cons_append, List.takeWhile_append_dropWhile] at this
      · exact mark c cs (by simpa using hc) (ih cs.length (by omega) cs rfl)

namespace TypeArguments

variable {bound : TypeArguments} {p a run s t : Text}

/-! ## All at once -/

/-- puts in the arguments all at once: a run of word characters that is a parameter gives way to its argument, which is
not looked at again -/
def atOnce (bound : TypeArguments) : Text → Text
  | [] => []
  | c :: cs =>
    if wordChar c then
      let run := c :: cs.takeWhile wordChar
      (Entries.lookup? run bound).getD run ++ atOnce bound (cs.dropWhile wordChar)
    else c :: atOnce bound cs
  termination_by t => t.length
  decreasing_by
    · exact Nat.lt_succ_of_le (List.dropWhile_suffix _).length_le
    · simp

theorem atOnce_nil (bound : TypeArguments) : bound.atOnce [] = [] := by rw [atOnce]

theorem atOnce_cons_mark {c : Char} (h : wordChar c = false) (bound : TypeArguments) (t : Text) :
    bound.atOnce (c :: t) = c :: bound.atOnce t := by
  rw [atOnce, if_neg (by rw [h]; exact Bool.false_ne_true)]

/-- A run of word characters up to a mark is looked up as a whole. -/
theorem atOnce_run (filled : run ≠ []) (letters : ∀ c ∈ run, wordChar c = true)
    (edge : ∀ c ∈ t.head?, wordChar c = false) (bound : TypeArguments) :
    bound.atOnce (run ++ t) = (Entries.lookup? run bound).getD run ++ bound.atOnce t := by
  obtain ⟨c, cs, rfl⟩ := List.exists_cons_of_ne_nil filled
  obtain ⟨first, others⟩ := List.forall_mem_cons.1 letters
  have stop : t.takeWhile wordChar = [] ∧ t.dropWhile wordChar = t := by
    cases t with
    | nil => exact ⟨rfl, rfl⟩
    | cons d ds =>
      have mark : ¬ wordChar d = true := by rw [edge d rfl]; exact Bool.false_ne_true
      exact ⟨List.takeWhile_cons_of_neg mark, List.dropWhile_cons_of_neg mark⟩
  rw [List.cons_append, atOnce, if_pos first, List.takeWhile_append_of_pos others, List.dropWhile_append_of_pos others,
    stop.1, stop.2, List.append_nil]

theorem atOnce_word (filled : run ≠ []) (letters : ∀ c ∈ run, wordChar c = true) (bound : TypeArguments) :
    bound.atOnce run = (Entries.lookup? run bound).getD run := by
  have := atOnce_run (t := []) filled letters (by simp) bound
  rwa [List.append_nil, atOnce_nil, List.append_nil] at this

/-- What begins with a mark still does. -/
theorem head?_atOnce (edge : ∀ c ∈ t.head?, wordChar c = false) (bound : TypeArguments) :
    ∀ c ∈ (bound.atOnce t).head?, wordChar c = false := by
  cases t with
  | nil => rw [atOnce_nil]; exact edge
  | cons c cs => rw [atOnce_cons_mark (edge c rfl)]; exact edge

theorem atOnce_append (edge : ∀ c ∈ t.head?, wordChar c = false) (bound : TypeArguments) (s : Text) :
    bound.atOnce (s ++ t) = bound.atOnce s ++ bound.atOnce t := by
  induction s using Text.by_runs with
  | nil => rw [atOnce_nil]; rfl
  | mark c s hc ih => rw [List.cons_append, atOnce_cons_mark hc, atOnce_cons_mark hc, ih, List.cons_append]
  | run w s filled letters stop ih =>
    have edge' : ∀ c ∈ (s ++ t).head?, wordChar c = false := by
      cases s with
      | nil => exact edge
      | cons c cs => exact stop
    rw [List.append_assoc, atOnce_run filled letters edge', atOnce_run filled letters stop, ih, List.append_assoc]

/-! ## One parameter -/

section

variable {into : Template} {before : Option Char}

theorem after?_mark (filled : p ≠ []) (letters : ∀ c ∈ p, wordChar c = true) {c : Char} (h : wordChar c = false) :
    Text.after? p (c :: t) = none := by
  apply Lexeme.after?_eq_none
  intro starts
  obtain ⟨d, ds, rfl⟩ := List.exists_cons_of_ne_nil filled
  obtain ⟨rfl, _⟩ := List.cons_prefix_cons.1 starts
  rw [letters d List.mem_cons_self] at h
  cases h

theorem replaceWordFrom_mark (filled : p ≠ []) (letters : ∀ c ∈ p, wordChar c = true) {c : Char}
    (h : wordChar c = false) : replaceWordFrom p into before (c :: t) = c :: replaceWordFrom p into c t := by
  rw [replaceWordFrom]
  have none : (if Text.wordEdge before c then Text.after? p (c :: t) else none) = none := by
    rw [after?_mark filled letters h, ite_self]
  split
  · rfl
  · next found =>
    rw [none] at found
    cases found

/-- Inside a run nothing is replaced. -/
theorem replaceWordFrom_within (letters : ∀ c ∈ s, wordChar c = true) (inside : before.any wordChar = true) :
    replaceWordFrom p into before (s ++ t) = s ++ replaceWordFrom p into (s.getLast?.or before) t := by
  induction s generalizing before with
  | nil => rfl
  | cons c cs ih =>
    obtain ⟨first, others⟩ := List.forall_mem_cons.1 letters
    have none : (if Text.wordEdge before c then Text.after? p (c :: cs ++ t) else none) = none :=
      if_neg (by simp [Text.wordEdge, inside, first])
    rw [List.cons_append, replaceWordFrom]
    split
    · rw [ih others (by simpa using first), List.cons_append]
      cases cs <;> rfl
    · next found =>
      rw [← List.cons_append, none] at found
      cases found

/-- What stands before a mark does not matter. -/
theorem replaceWordFrom_edge (filled : p ≠ []) (letters : ∀ c ∈ p, wordChar c = true)
    (edge : ∀ c ∈ t.head?, wordChar c = false) : replaceWordFrom p into before t = replaceWord p into t := by
  cases t with
  | nil => simp [replaceWordFrom, replaceWord, filled]
  | cons c cs =>
    rw [replaceWord, replaceWordFrom_mark filled letters (edge c rfl), replaceWordFrom_mark filled letters (edge c rfl)]

/-- A word that a text starts with is its first run, or ends within it. -/
theorem prefix_of_run {rest : Text} (edge : ∀ c ∈ t.head?, wordChar c = false) (letters : ∀ c ∈ p, wordChar c = true)
    (solid : ∀ c ∈ run, wordChar c = true) (parts : p ++ rest = run ++ t) :
    p = run ∧ rest = t ∨ p ≠ run ∧ ∃ d, rest.head? = some d ∧ wordChar d = true := by
  rcases List.append_eq_append_iff.1 parts with ⟨more, rfl, rfl⟩ | ⟨more, rfl, rfl⟩
  · cases more with
    | nil => exact .inl ⟨(List.append_nil p).symm, rfl⟩
    | cons d more => exact .inr ⟨by simp, d, rfl, solid d (by simp)⟩
  · cases more with
    | nil => exact .inl ⟨List.append_nil run, rfl⟩
    | cons d more =>
      have word := letters d (by simp)
      rw [edge d rfl] at word
      cases word

/-- A run up to a mark is replaced if it is the word, as a whole. -/
theorem replaceWordFrom_run (filled : p ≠ []) (letters : ∀ c ∈ p, wordChar c = true) (some_run : run ≠ [])
    (solid : ∀ c ∈ run, wordChar c = true) (edge : ∀ c ∈ t.head?, wordChar c = false)
    (outside : before.any wordChar = false) :
    replaceWordFrom p into before (run ++ t) = (if p = run then into.expand p else run) ++ replaceWord p into t := by
  obtain ⟨c, cs, rfl⟩ := List.exists_cons_of_ne_nil some_run
  obtain ⟨first, others⟩ := List.forall_mem_cons.1 solid
  have atEdge : Text.wordEdge before c = true := by simp [Text.wordEdge, outside, first]
  have kept : c :: replaceWordFrom p into c (cs ++ t) = (c :: cs) ++ replaceWord p into t := by
    rw [replaceWordFrom_within others (by simpa using first), replaceWordFrom_edge filled letters edge, List.cons_append]
  rw [List.cons_append, replaceWordFrom, if_pos atEdge]
  split
  · next missed =>
    have other : p ≠ c :: cs := by
      rintro rfl
      rw [← List.cons_append, Lexeme.after?_self] at missed
      cases missed
    rw [kept, if_neg other]
  · next rest found =>
    have last : p.getLast?.any wordChar = true := by
      rw [List.getLast?_eq_some_getLast filled]
      exact letters _ (List.getLast_mem filled)
    rw [if_neg (by simpa using filled)]
    have parts : p ++ rest = (c :: cs) ++ t := Lexeme.after?_append found
    rcases prefix_of_run edge letters solid parts with ⟨rfl, rfl⟩ | ⟨other, d, next, inside⟩
    · have after : Text.wordEdge (c :: cs).getLast? rest.head? = true := by
        cases rest with
        | nil => simpa [Text.wordEdge] using last
        | cons m rest => simpa [Text.wordEdge, edge m rfl] using last
      rw [if_pos after, if_pos rfl, replaceWordFrom_edge filled letters edge]
    · have within : ¬ Text.wordEdge p.getLast? rest.head? = true := by simp [Text.wordEdge, last, next, inside]
      rw [if_neg within, if_neg other, kept]

end

/-- Replacing a word is putting in the argument of that one parameter. -/
theorem replaceWord_plain (filled : p ≠ []) (letters : ∀ c ∈ p, wordChar c = true) (a t : Text) :
    replaceWord p (Template.plain a) t = atOnce [(p, a)] t := by
  suffices anywhere : ∀ before : Option Char, before.any wordChar = false →
      replaceWordFrom p (Template.plain a) before t = atOnce [(p, a)] t from anywhere none rfl
  induction t using Text.by_runs with
  | nil => exact fun before _ => by rw [replaceWordFrom_edge filled letters (by simp), replaceWord_nil filled, atOnce_nil]
  | mark c t hc ih =>
    intro before _
    rw [replaceWordFrom_mark filled letters hc, ih c (by simpa using hc), atOnce_cons_mark hc]
  | run w t some_run solid edge ih =>
    intro before outside
    rw [replaceWordFrom_run filled letters some_run solid edge outside, atOnce_run some_run solid edge, replaceWord,
      ih none rfl, Template.expand_plain]
    by_cases same : p = w <;> simp [same, Entries.lookup?]

/-! ## One after another -/

/-- Putting in one argument and then others is putting in all at once, that argument with the others put in. -/
theorem atOnce_atOnce (bound : TypeArguments) (p a t : Text) :
    bound.atOnce (atOnce [(p, a)] t) = atOnce ((p, bound.atOnce a) :: bound) t := by
  induction t using Text.by_runs with
  | nil => rw [atOnce_nil, atOnce_nil, atOnce_nil]
  | mark c t hc ih => rw [atOnce_cons_mark hc, atOnce_cons_mark hc, atOnce_cons_mark hc, ih]
  | run w t filled letters edge ih =>
    rw [atOnce_run filled letters edge, atOnce_run filled letters edge, atOnce_append (head?_atOnce edge _), ih]
    by_cases same : p = w
    · simp [same, Entries.lookup?]
    · simp [same, Entries.lookup?, atOnce_word filled letters]

/-- the arguments as they are in the end when they are put in one after another: each with those after it put in -/
def chained : TypeArguments → TypeArguments
  | [] => []
  | (p, a) :: rest => (p, atOnce (chained rest) a) :: chained rest

/-- parameters that are words, and arguments without a backslash -/
def Plain (bound : TypeArguments) : Prop :=
  ∀ entry ∈ bound, entry.1 ≠ [] ∧ (∀ c ∈ entry.1, wordChar c = true) ∧ '\\' ∉ entry.2

theorem atOnce_empty (t : Text) : atOnce [] t = t := by
  induction t using Text.by_runs with
  | nil => exact atOnce_nil []
  | mark c t hc ih => rw [atOnce_cons_mark hc, ih]
  | run w t filled letters edge ih => rw [atOnce_run filled letters edge, ih]; rfl

/-- **What a substitution gives**: the arguments are put in at once, but each has first had those after it put in. -/
theorem substitute_eq_ok (plain : bound.Plain) (t : Text) : bound.substitute t = .ok (bound.chained.atOnce t) := by
  induction bound generalizing t with
  | nil => rw [substitute_nil, chained, atOnce_empty]
  | cons entry rest ih =>
    obtain ⟨p, a⟩ := entry
    obtain ⟨⟨filled, letters, unescaped⟩, plain⟩ := List.forall_mem_cons.1 plain
    have step : substitute ((p, a) :: rest) t = substitute rest (atOnce [(p, a)] t) := by
      rw [← replaceWord_plain filled letters]
      unfold substitute
      rw [List.foldlM_cons]
      simp only [Template.ofText?_plain a unescaped]
      rfl
    calc substitute ((p, a) :: rest) t
      _ = substitute rest (atOnce [(p, a)] t) := step
      _ = .ok ((chained rest).atOnce (atOnce [(p, a)] t)) := ih plain _
      _ = .ok (atOnce ((p, (chained rest).atOnce a) :: chained rest) t) := by rw [atOnce_atOnce]
      _ = .ok ((chained ((p, a) :: rest)).atOnce t) := by rw [chained]

/-- no argument changes when those after it are put in -/
def Settled : TypeArguments → Prop
  | [] => True
  | (_, a) :: rest => atOnce rest a = a ∧ Settled rest

theorem chained_eq_iff : bound.chained = bound ↔ bound.Settled := by
  induction bound with
  | nil => exact iff_of_true rfl trivial
  | cons entry rest ih =>
    obtain ⟨p, a⟩ := entry
    simp only [chained, Settled, List.cons.injEq, Prod.mk.injEq, true_and, ← ih]
    constructor
    · rintro ⟨same, settled⟩
      exact ⟨settled ▸ same, settled⟩
    · rintro ⟨same, settled⟩
      exact ⟨settled.symm ▸ same, settled⟩

theorem keys_chained (bound : TypeArguments) : Entries.keys bound.chained = Entries.keys bound := by
  induction bound with
  | nil => rfl
  | cons entry rest ih => exact congrArg (entry.1 :: ·) ih

/-- Substitution is that at once, for every text, only if no argument changes when those after it are put in. -/
theorem atOnce_chained_iff (distinct : (Entries.keys bound).Nodup)
    (words : ∀ p ∈ Entries.keys bound, p ≠ [] ∧ ∀ c ∈ p, wordChar c = true) :
    (∀ t, bound.chained.atOnce t = bound.atOnce t) ↔ bound.Settled := by
  rw [← chained_eq_iff]
  refine ⟨?_, fun same t => by rw [same]⟩
  intro same
  apply Entries.ext_of_nodup (keys_chained bound ▸ distinct) (keys_chained bound)
  intro p
  by_cases member : p ∈ Entries.keys bound
  · obtain ⟨a, found⟩ := Option.isSome_iff_exists.1 ((Entries.isSome_lookup?_iff p bound).2 member)
    obtain ⟨b, found'⟩ :=
      Option.isSome_iff_exists.1 ((Entries.isSome_lookup?_iff p bound.chained).2 (keys_chained bound ▸ member))
    have image := same p
    rw [atOnce_word (words p member).1 (words p member).2, atOnce_word (words p member).1 (words p member).2, found,
      found'] at image
    rw [found, found']
    exact congrArg some image
  · rw [Option.not_isSome_iff_eq_none.1 (mt (Entries.isSome_lookup?_iff p bound).1 member),
      Option.not_isSome_iff_eq_none.1
        (mt (Entries.isSome_lookup?_iff p bound.chained).1 (keys_chained bound ▸ member))]

theorem atOnce_unnamed (unnamed : ∀ entry ∈ bound, entry.1 ∉ Text.runWords a) : bound.atOnce a = a := by
  induction a using Text.by_runs with
  | nil => exact atOnce_nil bound
  | mark c t hc ih =>
    rw [Text.runWords_cons_mark hc] at unnamed
    rw [atOnce_cons_mark hc, ih unnamed]
  | run w t filled letters edge ih =>
    rw [Text.runWords_append_of_head edge, Text.runWords_single filled letters] at unnamed
    have absent : Entries.lookup? w bound = none :=
      Entries.lookup?_eq_none fun entry member same => unnamed entry member (by simp [same])
    rw [atOnce_run filled letters edge, absent, ih fun entry member named => unnamed entry member (by simp [named])]
    rfl

/-- If no argument names a parameter after its own, all are put in at once. -/
theorem settled_of_unnamed (apart : bound.Pairwise fun entry later => later.1 ∉ Text.runWords entry.2) :
    bound.Settled := by
  induction apart with
  | nil => trivial
  | cons unnamed _ ih => exact ⟨atOnce_unnamed unnamed, ih⟩

end TypeArguments

end EndpointSurvey
