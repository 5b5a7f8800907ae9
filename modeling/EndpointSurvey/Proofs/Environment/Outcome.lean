/-
What becomes of data about environments. A value that is read as an environment, or as a set of them, gives environments
that can be used, or an error of environments; only the fault of an authority in a base URL is none of these errors.

Main statements: `EnvironmentDraft.validate_draft` (what has passed the check passes it again),
`EnvironmentDraft.validate_eq_badAuthority_iff` and `environment_data_outcome`.
-/
import EndpointSurvey.Environment.Set
import EndpointSurvey.Project.Requests
import EndpointSurvey.Proofs.Failing

namespace EndpointSurvey

/-! ## Authorities -/

namespace Url

/-- a character that an authority can be at fault for: a square bracket, or one that is written out as a mark of URLs -/
def suspect (c : Char) : Bool := c == '[' || c == ']' || disguised.contains c.toNat

theorem suspect_of_faultOf? {authority : Text} {fault : Fault} (h : faultOf? authority = some fault) :
    ∃ c ∈ authority, suspect c = true := by
  unfold faultOf? at h
  split at h
  · next brackets =>
    unfold bracketFault? at brackets
    by_cases opening : '[' ∈ authority
    · exact ⟨'[', opening, rfl⟩
    · by_cases closing : ']' ∈ authority
      · exact ⟨']', closing, rfl⟩
      · simp [opening, closing] at brackets
  · split at h
    · next found =>
      obtain ⟨c, member, written⟩ := List.any_eq_true.1 found
      exact ⟨c, member, by rw [suspect, written, Bool.or_true]⟩
    · cases h

theorem mem_of_mem_splitScheme {t : Text} {c : Char} (h : c ∈ (splitScheme t).2) : c ∈ t := by
  unfold splitScheme at h
  dsimp only at h
  split at h
  · exact List.mem_of_mem_drop h
  · exact h

theorem mem_of_mem_splitAuthority {t : Text} {c : Char} (h : c ∈ (splitAuthority t).1) : c ∈ t := by
  unfold splitAuthority at h
  split at h
  · next rest => exact List.mem_cons_of_mem _ (List.mem_cons_of_mem _ ((List.takeWhile_prefix _).subset h))
  · cases h

/-- What an authority is at fault for stands in the text of the URL. -/
theorem Parts.suspect_of_error {t : Text} {fault : Fault} (h : ofText? t = .error fault) :
    ∃ c ∈ t, suspect c = true := by
  unfold ofText? at h
  dsimp only at h
  split at h
  · next found =>
    obtain ⟨c, member, written⟩ := suspect_of_faultOf? found
    have cleaned := mem_of_mem_splitScheme (mem_of_mem_splitAuthority member)
    exact ⟨c, (List.dropWhile_suffix _).subset (List.mem_filter.1 cleaned).1, written⟩
  · cases h

end Url

/-! ## Checks -/

namespace Environment

theorem textHeaders_map (name : Text) (headers : Entries Text) :
    textHeaders name (headers.map fun (key, value) => (key, .string value)) = .ok headers := by
  induction headers with
  | nil => rfl
  | cons entry rest ih => rw [List.map_cons, textHeaders, ih, Except.map]

theorem textHeaders_ne_badAuthority (name : Text) (fault : Url.Fault) (headers : Entries Json) :
    ¬ FailsAs (· = .badAuthority fault) (textHeaders name headers) := by
  fun_induction textHeaders name headers with
  | case1 => exact failsAs_ok _
  | case2 key value rest ih =>
    cases later : textHeaders name rest with
    | ok texts => exact failsAs_ok _
    | error e =>
      rw [later] at ih
      exact ih
  | case3 => simp

/-- an environment that can be used: it passes the check again, and has a URL for each route -/
def Usable (e : Environment) : Prop :=
  e.draft.validate = .ok e ∧ ∀ route, e.draft.url? route = .ok (e.composeUrl route)

end Environment

namespace EnvironmentDraft

variable {d : EnvironmentDraft} {e : Environment} {fault : Url.Fault}

/-- What has passed the check passes it again. -/
theorem validate_draft (h : d.validate = .ok e) : e.draft.validate = .ok e := by
  unfold validate at h ⊢
  simp only [unless_eq_ok_iff, bind_eq_ok_iff, mapError_eq_ok_iff] at h ⊢
  obtain ⟨named, parts, split, address, bare, base, headers, -, same⟩ := h
  cases same
  exact ⟨named, parts, split, address, bare, base, headers, Environment.textHeaders_map .., rfl⟩

theorem usable_of_validate (h : d.validate = .ok e) : e.Usable := by
  refine ⟨validate_draft h, fun route => ?_⟩
  rw [url?, validate_draft h, Except.map]

/-- A draft with a name shows the fault of its authority, whatever else is wrong with it. -/
theorem validate_eq_badAuthority_iff : d.validate = .error (.badAuthority fault) ↔
    d.name.trim ≠ [] ∧ Url.Parts.ofText? d.baseUrl = .error fault := by
  have failing : d.validate = .error (.badAuthority fault) ↔ FailsAs (· = .badAuthority fault) d.validate := by
    simp [failsAs_iff]
  rw [failing]
  unfold validate
  simp only [failsAs_unless, failsAs_bind, failsAs_mapError, reduceCtorEq, and_false, false_or, failsAs_pure,
    exists_false, or_false, Environment.textHeaders_ne_badAuthority, EnvironmentError.badAuthority.injEq,
    List.isEmpty_iff]
  rw [failsAs_iff, exists_eq_right]

end EnvironmentDraft

/-! ## Data -/

namespace Environment

/-- the data describes an environment with a name whose base URL has an authority at fault, for one of its characters -/
def AtFault (j : Json) (fault : Url.Fault) : Prop :=
  ∃ draft, EnvironmentDraft.ofJson? j = .ok draft ∧ draft.name.trim ≠ [] ∧
    Url.Parts.ofText? draft.baseUrl = .error fault ∧ ∃ c ∈ draft.baseUrl, Url.suspect c = true

theorem usable_of_ofJson? {j : Json} {e : Environment} (h : ofJson? j = .ok e) : e.Usable := by
  obtain ⟨draft, -, valid⟩ := bind_eq_ok_iff.1 h
  exact EnvironmentDraft.usable_of_validate valid

/-- Reading a value as a draft fails with errors of environments only. -/
theorem draftOfJson?_ne_badAuthority (j : Json) (fault : Url.Fault) :
    ¬ FailsAs (· = .badAuthority fault) (EnvironmentDraft.ofJson? j) := by
  have headers : ∀ given, ¬ FailsAs (· = .badAuthority fault) (EnvironmentDraft.givenHeaders given) := by
    intro given
    unfold EnvironmentDraft.givenHeaders
    split
    · exact failsAs_pure _
    · split <;> simp
  unfold EnvironmentDraft.ofJson?
  split
  · simp only [failsAs_bind, headers, failsAs_pure, and_false, exists_false, or_false, not_false_eq_true]
  · simp

theorem ofJson?_eq_badAuthority_iff {j : Json} {fault : Url.Fault} :
    ofJson? j = .error (.badAuthority fault) ↔ AtFault j fault := by
  unfold ofJson? AtFault
  cases read : EnvironmentDraft.ofJson? j with
  | error e =>
    refine iff_of_false (fun same => ?_) (by simp)
    cases same
    exact draftOfJson?_ne_badAuthority j fault (read ▸ rfl)
  | ok draft =>
    refine EnvironmentDraft.validate_eq_badAuthority_iff.trans ?_
    simp only [Except.ok.injEq, exists_eq_left']
    constructor
    · exact fun ⟨named, unsplit⟩ => ⟨named, unsplit, Url.Parts.suspect_of_error unsplit⟩
    · exact fun ⟨named, unsplit, _⟩ => ⟨named, unsplit⟩

end Environment

namespace EnvironmentSet

/-- the data has a list of environments in which the first that cannot be read is at fault for its authority -/
def AtFault (j : Json) (fault : Url.Fault) : Prop :=
  ∃ before entry rest, j.member? "environments" = some (.array (before ++ entry :: rest)) ∧
    (∀ b ∈ before, ∃ e, Environment.ofJson? b = .ok e) ∧ Environment.AtFault entry fault

/-- No name stands for the current environment, as its own name does. -/
theorem get?_none (s : EnvironmentSet) : s.get? none = s.get? (some s.current) := by
  unfold get?
  cases s.current <;> rfl

theorem get?_ne_badAuthority (s : EnvironmentSet) (name : Option Text) (fault : Url.Fault) :
    ¬ FailsAs (· = .badAuthority fault) (s.get? name) := by
  unfold get?
  dsimp only
  split <;> simp

variable {path : Text} {j : Json}

theorem member?_of_entriesOf? {entries : List Json} (h : entriesOf? path j = .ok entries) :
    j.member? "environments" = some (.array entries) := by
  unfold entriesOf? at h
  split at h
  · split at h
    · next found =>
      cases h
      exact found
    · cases h
  · cases h

theorem entriesOf?_of_member? {entry : Json} {entries : List Json}
    (h : j.member? "environments" = some (.array entries)) (member : entry ∈ entries) :
    entriesOf? path j = .ok entries := by
  unfold entriesOf?
  cases j with
  | object members =>
    obtain ⟨first, rest, rfl⟩ := List.exists_cons_of_ne_nil (List.ne_nil_of_mem member)
    simp only [h]
  | _ => cases h

theorem entriesOf?_ne_badAuthority (path : Text) (j : Json) (fault : Url.Fault) :
    ¬ FailsAs (· = .badAuthority fault) (entriesOf? path j) := by
  unfold entriesOf?
  split
  · split <;> simp
  · simp

/-- The environments of a set can be used, and the current one is among them. -/
theorem usable_of_ofJson? {s : EnvironmentSet} (h : ofJson? path j = .ok s) :
    (∃ e, s.get? none = .ok e) ∧ ∀ e ∈ s.environments, e.Usable := by
  obtain ⟨entries, -, h⟩ := bind_eq_ok_iff.1 h
  obtain ⟨environments, read, h⟩ := bind_eq_ok_iff.1 h
  obtain ⟨current, found, same⟩ := bind_eq_ok_iff.1 h
  cases same
  refine ⟨⟨current, (get?_none _).trans found⟩, fun e member => ?_⟩
  obtain ⟨entry, -, made⟩ := mem_of_mapM read member
  exact Environment.usable_of_ofJson? made

theorem ofJson?_eq_badAuthority_iff {fault : Url.Fault} :
    ofJson? path j = .error (.badAuthority fault) ↔ AtFault j fault := by
  have failing : ofJson? path j = .error (.badAuthority fault) ↔
      ∃ entries, entriesOf? path j = .ok entries ∧
        entries.mapM Environment.ofJson? = .error (.badAuthority fault) := by
    have as_failing : ∀ {α : Type} (x : Except EnvironmentError α),
        x = .error (.badAuthority fault) ↔ FailsAs (· = .badAuthority fault) x := by
      simp [failsAs_iff]
    rw [as_failing]
    unfold ofJson?
    simp only [failsAs_bind, entriesOf?_ne_badAuthority, get?_ne_badAuthority, failsAs_pure, and_false, exists_false,
      or_false, false_or, as_failing]
  rw [failing]
  constructor
  · rintro ⟨entries, listed, fails⟩
    obtain ⟨before, entry, rest, rfl, passed, at_fault⟩ := mapM_eq_error_iff.1 fails
    exact ⟨before, entry, rest, member?_of_entriesOf? listed, passed,
      Environment.ofJson?_eq_badAuthority_iff.1 at_fault⟩
  · rintro ⟨before, entry, rest, listed, passed, at_fault⟩
    refine ⟨_, entriesOf?_of_member? listed (List.mem_append_right _ List.mem_cons_self), ?_⟩
    exact mapM_eq_error_iff.2 ⟨before, entry, rest, rfl, passed, Environment.ofJson?_eq_badAuthority_iff.2 at_fault⟩

end EnvironmentSet

/-- **What becomes of data about environments**, whatever value it is. Read as an environment, or as a set of them, it
gives environments that pass the check again and have a URL for each route, and a set has a current one. Else there is
an error of environments, and only the fault of an authority is none: it is raised exactly if the first entry that
cannot be read has a name and a base URL whose authority has a square bracket or a disguised mark out of place. -/
theorem environment_data_outcome (path : Text) (j : Json) :
    ((∀ e, Environment.ofJson? j = .ok e → e.Usable) ∧
      ∀ fault, Environment.ofJson? j = .error (.badAuthority fault) ↔ Environment.AtFault j fault) ∧
    (∀ s, EnvironmentSet.ofJson? path j = .ok s →
      (∃ e, s.get? none = .ok e) ∧ ∀ e ∈ s.environments, e.Usable) ∧
    ∀ fault, EnvironmentSet.ofJson? path j = .error (.badAuthority fault) ↔ EnvironmentSet.AtFault j fault := by
  refine ⟨⟨?_, ?_⟩, ?_, ?_⟩
  · exact fun e made => Environment.usable_of_ofJson? made
  · exact fun fault => Environment.ofJson?_eq_badAuthority_iff
  · exact fun s made => EnvironmentSet.usable_of_ofJson? made
  · exact fun fault => EnvironmentSet.ofJson?_eq_badAuthority_iff

/-- data with a base URL that has one square bracket -/
def oneBracket : Json := .record [("name", .string "dev"), ("base_url", .string "http://[")]

theorem environment_data_outcome_oneBracket :
    Environment.ofJson? oneBracket = .error (.badAuthority .misplacedBracket) ∧
      EnvironmentSet.ofJson? "e.json" (.record [("environments", .array [oneBracket])]) =
        .error (.badAuthority .misplacedBracket) := by
  have at_fault : Environment.AtFault oneBracket .misplacedBracket :=
    ⟨⟨"dev", "http://[", [], []⟩, rfl, by decide, by decide, '[', by decide, rfl⟩
  obtain ⟨⟨-, single⟩, -⟩ := environment_data_outcome "e.json" oneBracket
  obtain ⟨-, -, several⟩ := environment_data_outcome "e.json" (.record [("environments", .array [oneBracket])])
  refine ⟨(single _).2 at_fault, (several _).2 ?_⟩
  exact ⟨[], oneBracket, [], Json.member?_record .., nofun, at_fault⟩

end EndpointSurvey
