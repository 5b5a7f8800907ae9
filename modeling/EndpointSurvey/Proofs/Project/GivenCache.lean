/-
A survey and the cache that its caller gives it. All that a run looks up and stores goes through the survey's cache, a
question for each file that is read. A given cache becomes the survey's unless it holds nothing; then the survey makes a
cache of its own, and the caller's is left as it was.

Main statements: `run_asks` (what a run does to the survey's cache, and what it reports) and `given_cache_serves` (a
second survey with the caller's cache finds all the files parsed exactly if the first one took the cache).
-/
import EndpointSurvey.Project.Survey
import EndpointSurvey.Proofs.Cache.Reuse
import EndpointSurvey.Proofs.Project.Places

namespace EndpointSurvey

/-- the event says that a text has been parsed -/
def Event.IsParse : Event → Prop
  | .documentParsed .. => True
  | _ => False

/-- the event is about a file that is not read -/
def Event.isPassedOver : Event → Bool
  | .fileTooLarge .. | .fileUnreadable .. => true
  | _ => false

namespace Survey

open DocumentCache (Question)

variable {s after : Survey} {now : FileTree} {file : ListedFile}

/-! ## The questions of a run -/

/-- the text of a file that is read: of one that is there and not too large -/
def textOf? (settings : Settings) (now : FileTree) (file : ListedFile) : Option Text :=
  (now.content? file.place).bind fun bytes =>
    match settings.exceedsLimit bytes.length with
    | .ok false => some (Utf8.readFile bytes)
    | _ => none

/-- the files that are read, with their texts -/
def readings (settings : Settings) (now : FileTree) (files : List ListedFile) : List (ListedFile × Text) :=
  files.filterMap fun file => (textOf? settings now file).map fun text => (file, text)

/-- what is asked of the cache for a file that is read -/
def question (reading : ListedFile × Text) : Question := ⟨reading.1.path, reading.2⟩

def report (reading : ListedFile × Text) (document : Document) : FileReport := ⟨reading.1.shown, document⟩

/-- A limit that no size can be held against is none for any size. -/
theorem exceedsLimit_error {settings : Settings} {fault : SettingFault} {n : Nat}
    (h : settings.exceedsLimit n = .error fault) (m : Nat) : settings.exceedsLimit m = .error fault := by
  unfold Settings.exceedsLimit at h ⊢
  cases limit : settings.maxFileSize <;> rw [limit] at h <;> first | exact h | cases h

theorem readings_of_fault {fault : SettingFault} {n : Nat} (h : s.settings.exceedsLimit n = .error fault)
    (files : List ListedFile) : readings s.settings now files = [] := by
  refine List.filterMap_eq_nil_iff.2 fun file _ => ?_
  unfold textOf?
  cases now.content? file.place with
  | none => rfl
  | some bytes => simp only [Option.bind_some, exceedsLimit_error h, Option.map_none]

theorem readFile_of_text {text : Text} (h : textOf? s.settings now file = some text) :
    readFile now s file = (do
      let (cache, document) ← s.cache.answer readDocument (question (file, text))
      pure (.ok ({ s with cache := cache }.withReport (report (file, text) document)))) := by
  unfold textOf? at h
  obtain ⟨bytes, content, kept⟩ := Option.bind_eq_some_iff.1 h
  cases limit : s.settings.exceedsLimit bytes.length with
  | error fault =>
    rw [limit] at kept
    cases kept
  | ok large =>
    rw [limit] at kept
    cases large with
    | true => cases kept
    | false =>
      cases kept
      unfold readFile
      rw [content]
      simp only [limit]
      rfl

/-- A file that is not read changes counts only, or shows that the limit is of no use. -/
theorem readFile_of_none (h : textOf? s.settings now file = none) :
    (∀ event ∈ (readFile now s file).events, event.isPassedOver) ∧
      ((∃ counts, (readFile now s file).value = .ok { s with counts := counts }) ∨
        ∃ fault n, (readFile now s file).value = .error fault ∧ s.settings.exceedsLimit n = .error fault) := by
  unfold textOf? at h
  unfold readFile
  cases content : now.content? file.place with
  | none => exact ⟨by simp [Traced.emit, bind, Event.isPassedOver, pure], .inl ⟨_, rfl⟩⟩
  | some bytes =>
    rw [content, Option.bind_some] at h
    cases limit : s.settings.exceedsLimit bytes.length with
    | error fault =>
      simp only [limit]
      exact ⟨by simp, .inr ⟨fault, bytes.length, rfl, limit⟩⟩
    | ok large =>
      rw [limit] at h
      cases large with
      | false => cases h
      | true =>
        simp only [limit]
        exact ⟨by simp [Traced.emit, bind, Event.isPassedOver, pure], .inl ⟨_, rfl⟩⟩

/-- what reading files comes to: the cache has answered a question for each file that is read, the answers are reported,
and apart from files that are passed over nothing else happens -/
structure Asked (s : Survey) (files : List (ListedFile × Text)) (done : Traced (Survey × Option SettingFault)) :
    Prop where
  cache : done.value.1.cache = (s.cache.answerAll readDocument (files.map question)).value.1
  reports : done.value.1.reports =
    s.reports ++ List.zipWith report files (s.cache.answerAll readDocument (files.map question)).value.2
  events : done.events.filter (!·.isPassedOver) =
    (s.cache.answerAll readDocument (files.map question)).events.filter (!·.isPassedOver)

theorem readFiles_asks (now : FileTree) (files : List ListedFile) (s : Survey) :
    Asked s (readings s.settings now files) (readFiles now s files) := by
  induction files generalizing s with
  | nil => exact ⟨rfl, by simp [readings, readFiles, DocumentCache.answerAll], rfl⟩
  | cons file rest ih =>
    cases read : textOf? s.settings now file with
    | some text =>
      have first : readings s.settings now (file :: rest) = (file, text) :: readings s.settings now rest := by
        simp [readings, read]
      have step : readFiles now s (file :: rest) = (do
          let (cache, document) ← s.cache.answer readDocument (question (file, text))
          readFiles now ({ s with cache := cache }.withReport (report (file, text) document)) rest) := by
        rw [readFiles, readFile_of_text read]
        apply Traced.ext <;> simp
      rw [first, step]
      obtain ⟨cache, reports, events⟩ :=
        ih ({ s with cache := (s.cache.answer readDocument (question (file, text))).value.1 }.withReport
          (report (file, text) (s.cache.answer readDocument (question (file, text))).value.2))
      refine ⟨cache, reports.trans ?_, ?_⟩
      · exact List.append_assoc ..
      · rw [List.map_cons, DocumentCache.answerAll]
        simp only [Traced.events_bind, List.filter_append, Traced.events_pure, List.append_nil]
        exact congrArg _ events
    | none =>
      have skipped : readings s.settings now (file :: rest) = readings s.settings now rest := by simp [readings, read]
      obtain ⟨passed, outcome⟩ := readFile_of_none read
      have silent : (readFile now s file).events.filter (!·.isPassedOver) = [] :=
        List.filter_eq_nil_iff.2 fun event member => by simp [passed event member]
      rw [skipped]
      rcases outcome with ⟨counts, outcome⟩ | ⟨fault, n, outcome, limit⟩
      · obtain ⟨cache, reports, events⟩ := ih { s with counts := counts }
        have value :
            (readFiles now s (file :: rest)).value = (readFiles now { s with counts := counts } rest).value := by
          rw [readFiles, Traced.value_bind, outcome]
        refine ⟨value ▸ cache, value ▸ reports, ?_⟩
        rw [readFiles, Traced.events_bind, outcome, List.filter_append, silent, List.nil_append]
        exact events
      · have value : (readFiles now s (file :: rest)).value = (s, some fault) := by
          rw [readFiles, Traced.value_bind, outcome]
          rfl
        rw [readings_of_fault limit]
        refine ⟨by rw [value]; rfl, by rw [value]; simp [DocumentCache.answerAll], ?_⟩
        rw [readFiles, Traced.events_bind, outcome, List.filter_append, silent, List.nil_append]
        rfl

/-- Whether a file can be read does not depend on the cache. -/
theorem readFile_alike {other : Survey} (same : other.settings = s.settings) :
    (∃ fault, (readFile now other file).value = .error fault ∧ (readFile now s file).value = .error fault) ∨
      ∃ first second, (readFile now other file).value = .ok first ∧ (readFile now s file).value = .ok second ∧
        first.settings = second.settings := by
  unfold readFile
  rw [same]
  cases now.content? file.place with
  | none => exact .inr ⟨_, _, rfl, rfl, same⟩
  | some bytes =>
    dsimp only
    cases s.settings.exceedsLimit bytes.length with
    | error fault => exact .inl ⟨fault, rfl, rfl⟩
    | ok large =>
      cases large with
      | true => exact .inr ⟨_, _, rfl, rfl, same⟩
      | false => exact .inr ⟨_, _, rfl, rfl, rfl⟩

/-- Whether reading files ends in a fault does not depend on the cache. -/
theorem readFiles_fault (now : FileTree) (files : List ListedFile) {s other : Survey}
    (same : other.settings = s.settings) : (readFiles now other files).value.2 = (readFiles now s files).value.2 := by
  induction files generalizing s other with
  | nil => rfl
  | cons file rest ih =>
    rw [readFiles, readFiles, Traced.value_bind, Traced.value_bind]
    rcases readFile_alike same with ⟨fault, failed, failed'⟩ | ⟨first, second, passed, passed', settings⟩
    · rw [failed, failed']
      rfl
    · rw [passed, passed']
      exact ih settings

/-! ## Runs -/

/-- the files that a run reads, with their texts -/
def readingsOf (settings : Settings) (target : Text) (listed now : FileTree) : List (ListedFile × Text) :=
  match Listing.ofTarget settings listed target with
  | .error _ => []
  | .ok listing => readings settings now listing.files

/-- **A run asks the survey's cache** for the document of each file that is read, and reports what the cache answers. -/
theorem run_asks (listed now : FileTree) (s : Survey) :
    Asked { s with reports := [] } (readingsOf s.settings s.target listed now) (run listed now s) := by
  unfold run readingsOf
  cases Listing.ofTarget s.settings listed s.target with
  | error fault => exact ⟨rfl, rfl, rfl⟩
  | ok listing =>
    obtain ⟨cache, reports, events⟩ :=
      readFiles_asks now listing.files ({ s with reports := [] }.withSkipped listing.passedOver)
    exact ⟨cache, reports, events⟩

theorem run_fault (listed now : FileTree) {s other : Survey} (settings : other.settings = s.settings)
    (target : other.target = s.target) : (run listed now other).value.2 = (run listed now s).value.2 := by
  unfold run
  rw [settings, target]
  cases Listing.ofTarget s.settings listed s.target with
  | error fault => rfl
  | ok listing => exact readFiles_fault now listing.files rfl

/-- Files that are read under one path have one text. -/
theorem question_of_path {listed : FileTree} (named : listed.Named) (settings : Settings) (target : Text)
    (now : FileTree) : ∀ p ∈ (readingsOf settings target listed now).map question,
      ∀ q ∈ (readingsOf settings target listed now).map question, p.key = q.key → p = q := by
  unfold readingsOf
  cases found : Listing.ofTarget settings listed target with
  | error fault => exact fun p member => absurd member List.not_mem_nil
  | ok listing =>
    intro p p_asked q q_asked same
    obtain ⟨a, a_read, rfl⟩ := List.mem_map.1 p_asked
    obtain ⟨b, b_read, rfl⟩ := List.mem_map.1 q_asked
    obtain ⟨file, listed_a, text_a⟩ := List.mem_filterMap.1 a_read
    obtain ⟨file', listed_b, text_b⟩ := List.mem_filterMap.1 b_read
    obtain ⟨text, read, rfl⟩ := Option.map_eq_some_iff.1 text_a
    obtain ⟨text', read', rfl⟩ := Option.map_eq_some_iff.1 text_b
    have place : file.place = file'.place := Listing.place_of_path named found listed_a listed_b same
    have texts : textOf? settings now file = textOf? settings now file' := by rw [textOf?, place, textOf?]
    obtain rfl := Option.some_inj.1 (read.symm.trans (texts.trans read'))
    exact congrArg (Question.mk · text) same

/-! ## Parsing -/

theorem isParse_readDocument (text : Text) : ∃ event ∈ (readDocument text).events, event.IsParse := by
  unfold readDocument surveyText
  simp only [Traced.events_bind, Traced.events_emit]
  refine ⟨_, List.mem_append_right _ (List.mem_append_right _ (List.mem_append_right _ (List.mem_append_left _
    (List.mem_singleton.2 rfl)))), ?_⟩
  trivial

/-- What is parsed in a run is parsed for the questions of the run. -/
theorem Asked.isParse_iff {files : List (ListedFile × Text)} {done : Traced (Survey × Option SettingFault)}
    (asked : Asked s files done) : (∃ event ∈ done.events, event.IsParse) ↔
      ∃ event ∈ (s.cache.answerAll readDocument (files.map question)).events, event.IsParse := by
  have kept : ∀ {event : Event}, event.IsParse → (!event.isPassedOver) = true := by
    intro event parse
    cases event <;> first | rfl | cases parse
  have through : ∀ events : List Event, (∃ event ∈ events, event.IsParse) ↔
      ∃ event ∈ events.filter (!·.isPassedOver), event.IsParse := by
    intro events
    constructor
    · exact fun ⟨event, member, parse⟩ => ⟨event, List.mem_filter.2 ⟨member, kept parse⟩, parse⟩
    · exact fun ⟨event, member, parse⟩ => ⟨event, (List.mem_filter.1 member).1, parse⟩
  rw [through done.events, asked.events, ← through]

/-- From an empty cache something is parsed for the files that are read, unless there are none. -/
theorem isParse_answerAll_of_empty {c : DocumentCache Document} (h : c.size = 0) (files : List (ListedFile × Text)) :
    (∃ event ∈ (c.answerAll readDocument (files.map question)).events, event.IsParse) ↔ 0 < files.length := by
  cases files with
  | nil => simp [DocumentCache.answerAll]
  | cons reading rest =>
    obtain ⟨event, made, parse⟩ := isParse_readDocument reading.2
    refine iff_of_true ⟨event, ?_, parse⟩ (Nat.succ_pos _)
    exact DocumentCache.events_answerAll_of_empty h made (rest.map question)

/-! ## A given cache -/

/-- a survey before its first run -/
def unrun (settings : Settings) (target : Text) (c : DocumentCache Document) : Survey :=
  ⟨settings, target, c, ⟨0, 0, 0⟩, []⟩

theorem size_newCache {settings : Settings} {c : DocumentCache Document} (h : settings.newCache Document = .ok c) :
    c.size = 0 := by
  have sized : ∀ {n : Nat}, Settings.cacheFor Document n = .ok c → c.size = 0 := by
    intro n h
    unfold Settings.cacheFor DocumentCache.ofCapacity? at h
    split at h
    · next made =>
      split at made <;> cases made
      cases h
      rfl
    · cases h
  unfold Settings.newCache at h
  split at h <;> first | exact sized h | (cases h; rfl) | cases h

/-- A given cache that holds something is the survey's; one that holds nothing is as good as none. -/
theorem start?_some (settings : Settings) (target : Text) (c : DocumentCache Document) :
    start? settings target (some c) =
      if c.size = 0 then start? settings target none else .ok (unrun settings target c) := by
  by_cases h : c.size = 0
  · simp only [start?, h, if_true]
  · simp only [start?, h, if_false]
    rfl

/-- A survey that is given no cache starts with an empty one. -/
theorem start?_none {settings : Settings} {target : Text} (h : start? settings target none = .ok s) :
    ∃ c, c.size = 0 ∧ s = unrun settings target c := by
  unfold start? at h
  cases made : settings.newCache Document with
  | error fault =>
    rw [made] at h
    cases h
  | ok c =>
    rw [made] at h
    cases h
    exact ⟨c, size_newCache made, rfl⟩

/-- the caller's cache once the survey that it was given to has been run: as the run left it if the survey took it, else
as it was -/
def givenAfter (c : DocumentCache Document) (done : Survey) : DocumentCache Document :=
  if c.size = 0 then c else done.cache

theorem run_unrun (settings : Settings) (target : Text) (listed now : FileTree) (c : DocumentCache Document) :
    Asked (unrun settings target c) (readingsOf settings target listed now)
      (run listed now (unrun settings target c)) :=
  run_asks listed now (unrun settings target c)

/-- A first run reports as many files as it reads. -/
theorem length_reports_unrun (settings : Settings) (target : Text) (listed now : FileTree)
    (c : DocumentCache Document) : (run listed now (unrun settings target c)).value.1.reports.length =
      (readingsOf settings target listed now).length := by
  rw [(run_unrun settings target listed now c).reports, unrun, List.nil_append, List.length_zipWith,
    DocumentCache.length_answerAll, List.length_map, Nat.min_self]

/-- A first run with an empty cache parses something if it reads something. -/
theorem isParse_run_unrun {c : DocumentCache Document} (h : c.size = 0) (settings : Settings) (target : Text)
    (listed now : FileTree) : (∃ event ∈ (run listed now (unrun settings target c)).events, event.IsParse) ↔
      (run listed now (unrun settings target c)).value.1.reports ≠ [] := by
  rw [(run_unrun settings target listed now c).isParse_iff, ← List.length_pos_iff, length_reports_unrun]
  exact isParse_answerAll_of_empty h _

/-- A first run with the cache that a first run left parses nothing, if the cache has room, and reports the same. -/
theorem run_unrun_again {settings : Settings} {target : Text} {c : DocumentCache Document} {listed now : FileTree}
    (named : listed.Named)
    (room : ∀ n ∈ c.capacity, (run listed now (unrun settings target c)).value.1.reports.length ≤ n) :
    let done := run listed now (unrun settings target c)
    let again := run listed now (unrun settings target done.value.1.cache)
    again.value.1.reports = done.value.1.reports ∧ ¬ ∃ event ∈ again.events, event.IsParse := by
  intro done again
  rw [length_reports_unrun, ← List.length_map question] at room
  have asked := run_unrun settings target listed now c
  have asked_again := run_unrun settings target listed now done.value.1.cache
  obtain ⟨results, hits⟩ :=
    DocumentCache.answerAll_again readDocument (question_of_path named settings target now) room
  constructor
  · rw [asked_again.reports, asked.reports]
    show List.zipWith report _ (done.value.1.cache.answerAll readDocument _).value.2 = _
    rw [asked.cache]
    exact congrArg (List.zipWith report _) results
  · rw [asked_again.isParse_iff]
    rintro ⟨event, member, parse⟩
    rw [unrun, asked.cache] at member
    obtain ⟨key, generation, rfl⟩ := hits event member
    exact parse

/-- **A given cache serves a second survey** over an unchanged target, with room for the files that are read, exactly if
it held something when it was given for the first time. Everything that a run looks up and stores goes through the
survey's cache, one question for each file that is read. The second survey reports what the first one did in any case;
it parses no file again if the first one took the cache, and otherwise it parses again whatever is read. -/
theorem given_cache_serves {settings : Settings} {target : Text} {c : DocumentCache Document} {listed now : FileTree}
    {first : Survey} (started : start? settings target (some c) = .ok first) (named : listed.Named)
    (room : ∀ n ∈ c.capacity, (run listed now first).value.1.reports.length ≤ n) :
    let done := run listed now first
    (if c.size = 0 then start? settings target none = .ok first else first.cache = c) ∧
      Asked first (readingsOf settings target listed now) done ∧
      ∃ second, start? settings target (some (givenAfter c done.value.1)) = .ok second ∧
        let again := run listed now second
        again.value.1.reports = done.value.1.reports ∧ again.value.2 = done.value.2 ∧
          ((∃ event ∈ again.events, event.IsParse) ↔ c.size = 0 ∧ done.value.1.reports ≠ []) := by
  intro done
  have start_eq := start?_some settings target c
  by_cases empty : c.size = 0
  · -- the caller's cache is still empty, so the second survey starts, and runs, as the first one did
    rw [if_pos empty, started] at start_eq
    obtain ⟨own, own_empty, rfl⟩ := start?_none start_eq.symm
    have unchanged : givenAfter c done.value.1 = c := if_pos empty
    refine ⟨by rw [if_pos empty, start_eq], run_unrun .., _, by rw [unchanged, started], rfl, rfl, ?_⟩
    rw [and_iff_right empty]
    exact isParse_run_unrun own_empty settings target listed now
  · rw [if_neg empty, started] at start_eq
    obtain rfl := Except.ok.inj start_eq
    have asked := run_unrun settings target listed now c
    have taken : givenAfter c done.value.1 = done.value.1.cache := if_neg empty
    have held : done.value.1.cache.size ≠ 0 := by
      rw [asked.cache]
      exact DocumentCache.size_answerAll_ne_zero empty
    obtain ⟨reports, silent⟩ := run_unrun_again named room
    refine ⟨by rw [if_neg empty, unrun], asked, unrun settings target done.value.1.cache, ?_, reports, ?_, ?_⟩
    · rw [taken, start?_some, if_neg held]
    · exact run_fault listed now rfl rfl
    · exact iff_of_false silent fun both => empty both.1

/-- a tree with one source file in its working directory -/
def oneFile : FileTree := ⟨[['w']], [], [([['w'], "A.cs"], Utf8.encode "class A {}")]⟩

/-- a cache with room for two results that holds one of another file -/
def otherFile : DocumentCache Document :=
  { capacity := some 2
    capacity_pos := by simp
    entries := [("B.cs", ⟨[], 1, (readDocument []).value, Binding.ruleVersion⟩)]
    generations := [("B.cs", 1)]
    counts := ⟨0, 1, 0, 0⟩ }

theorem given_cache_serves_oneFile :
    otherFile.size = 1 ∧ ∃ first second : Survey,
      start? Settings.initial.completed ['.'] (some otherFile) = .ok first ∧
      (run oneFile oneFile first).value.1.reports.length = 1 ∧
      start? Settings.initial.completed ['.'] (some (run oneFile oneFile first).value.1.cache) = .ok second ∧
      ¬ ∃ event ∈ (run oneFile oneFile second).events, event.IsParse := by
  have started : start? Settings.initial.completed ['.'] (some otherFile) =
      .ok (unrun Settings.initial.completed ['.'] otherFile) := start?_some ..
  have named : oneFile.Named := by decide +kernel
  have count : (run oneFile oneFile (unrun Settings.initial.completed ['.'] otherFile)).value.1.reports.length = 1 := by
    decide +kernel
  have room : ∀ n ∈ otherFile.capacity,
      (run oneFile oneFile (unrun Settings.initial.completed ['.'] otherFile)).value.1.reports.length ≤ n := by
    rintro n ⟨⟩
    rw [count]
    decide
  obtain ⟨-, -, second, restarted, -, -, parses⟩ := given_cache_serves started named room
  exact ⟨rfl, _, second, started, count, restarted, fun parsed => absurd (parses.1 parsed).1 (by decide)⟩

end Survey

end EndpointSurvey
