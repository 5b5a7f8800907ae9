/-
The warnings of reading a document. All stages report into one list: the segments and the attributes tell of structure,
the parameters of an action tell of its route, which its endpoint keeps too. What a stage reports is told by `Reports`:
the route mismatches, in order, and all else is a structural warning at a place of the document. Reports of stages one
after another join.

Main statements:
- `Reports.bind` and `Reports.mapList`: one stage after another, and a stage for each item of a list;
- `reports_typeBlocks` (segments report no mismatch), `reports_readEndpoint` (a member reports those of its endpoint);
- `readDocument_mismatches`: the route mismatches of a document are those of its endpoints, in order, and every other
  warning is structural and placed inside the document.
-/
import EndpointSurvey.Proofs.Binding.Specification
import EndpointSurvey.Proofs.Declaration.Shifting
import EndpointSurvey.Proofs.Document.Locations

namespace EndpointSurvey

/-- a warning of the structure of a document, with a place inside it -/
structure StructuralIn (text : Text) (w : Warning) : Prop where
  kind : w.kind = .structural
  place : ∃ offset, offset < text.length ∧ w.location = some (locate text offset)

/-- what is reported while a value is computed: these route mismatches, in order, and else only warnings of the
structure of the document -/
structure Reports {α : Type} (text : Text) (t : Traced α) (mismatches : List Warning) : Prop where
  mismatches : t.warnings.filter (·.kind = .routeMismatch) = mismatches
  others : ∀ w ∈ t.warnings, w.kind ≠ .routeMismatch → StructuralIn text w

namespace Reports

variable {α β : Type} {text : Text}

theorem silent {t : Traced α} (h : t.warnings = []) : Reports text t [] where
  mismatches := by rw [h, List.filter_nil]
  others w hw := by rw [h] at hw; cases hw

theorem pure (a : α) : Reports text (pure a : Traced α) [] := silent rfl

theorem structural {t : Traced α} (h : ∀ w ∈ t.warnings, StructuralIn text w) : Reports text t [] where
  mismatches := by
    rw [List.filter_eq_nil_iff]
    intro w hw
    rw [(h w hw).kind]
    decide
  others w hw _ := h w hw

theorem warn {problem : Problem} (kind : problem.kind = .structural) {offset : Nat} (inside : offset < text.length)
    (subject : Option Text) : Reports text (Traced.warn problem (locate text offset) subject) [] := by
  refine structural fun w hw => ?_
  obtain rfl := List.mem_singleton.1 hw
  exact ⟨kind, offset, inside, rfl⟩

/-- One stage after another reports what the first reports and then what the second does. -/
theorem bind {t : Traced α} {f : α → Traced β} {first second : List Warning} (ht : Reports text t first)
    (hf : Reports text (f t.value) second) : Reports text (t >>= f) (first ++ second) where
  mismatches := by rw [Traced.warnings_bind, List.filter_append, ht.mismatches, hf.mismatches]
  others w hw other := by
    rw [Traced.warnings_bind] at hw
    rcases List.mem_append.1 hw with hw | hw
    · exact ht.others w hw other
    · exact hf.others w hw other

/-- A last stage without mismatches adds none. -/
theorem before {t : Traced α} {f : α → Traced β} {mismatches : List Warning} (ht : Reports text t mismatches)
    (hf : Reports text (f t.value) []) : Reports text (t >>= f) mismatches := by
  have both := ht.bind hf
  rwa [List.append_nil] at both

/-- A first stage without mismatches adds none. -/
theorem behind {t : Traced α} {f : α → Traced β} {mismatches : List Warning} (ht : Reports text t [])
    (hf : Reports text (f t.value) mismatches) : Reports text (t >>= f) mismatches := ht.bind hf

theorem mapList {f : α → Traced β} {mismatches : α → List Warning} {as : List α}
    (h : ∀ a ∈ as, Reports text (f a) (mismatches a)) :
    Reports text (Traced.mapList f as) (as.flatMap mismatches) := by
  induction as with
  | nil => exact pure _
  | cons a as ih =>
    obtain ⟨here, later⟩ := List.forall_mem_cons.1 h
    exact here.bind ((ih later).before (pure _))

theorem filterMapList {f : α → Traced (Option β)} {mismatches : α → List Warning} {as : List α}
    (h : ∀ a ∈ as, Reports text (f a) (mismatches a)) :
    Reports text (Traced.filterMapList f as) (as.flatMap mismatches) := (mapList h).before (pure _)

theorem mapList_nil {f : α → Traced β} {as : List α} (h : ∀ a ∈ as, Reports text (f a) []) :
    Reports text (Traced.mapList f as) [] := by
  have whole := mapList h
  rwa [List.flatMap_eq_nil_iff.2 fun _ _ => rfl] at whole

theorem filterMapList_nil {f : α → Traced (Option β)} {as : List α} (h : ∀ a ∈ as, Reports text (f a) []) :
    Reports text (Traced.filterMapList f as) [] := (mapList_nil h).before (pure _)

end Reports

section
variable {text : Text}

/-! ## Attributes -/

theorem reports_attributes {offset : Nat} (inside : offset < text.length) (t : Text) :
    Reports text (attributes (locate text offset) t) [] := by
  unfold attributes
  generalize Source.ofText t = s
  fun_induction Attribute.readGroups (some (locate text offset)) s with
  | case1 => exact .pure _
  | case2 s cs _ _ => exact (Reports.warn rfl inside _).bind (.pure _)
  | case3 s cs i _ _ ih =>
    have group : Reports text (Attribute.readGroup (some (locate text offset)) (s.slice 1 i).raw) [] := by
      refine .filterMapList_nil fun part _ => ?_
      dsimp only
      split
      · exact .pure _
      · split
        · exact .pure _
        · exact (Reports.warn rfl inside _).bind (.pure _)
    exact group.bind (ih.bind (.pure _))
  | case4 s c cs _ _ ih => exact ih

/-! ## Members -/

theorem leadingGroups_error {offset stop place : Nat} {t : Text} (h : leadingGroups offset stop t = .error place) :
    offset ≤ place ∧ place < offset + t.length := by
  fun_induction leadingGroups offset stop t with
  | case1 => cases h
  | case2 offset stop cs _ =>
    cases h
    simp
  | case3 offset stop cs i rest gap found ih =>
    obtain ⟨low, high⟩ := ih h
    have closed := closing?_lt found
    simp only [rest, List.length_drop, List.length_cons] at high closed ⊢
    omega
  | case4 => cases h

theorem reports_readMember {offset : Nat} {body : Source} (cut : MemberCut)
    (inside : offset + body.length ≤ text.length) : Reports text (readMember text offset body cut) [] := by
  have width : (body.take cut.headingStop).code.length ≤ body.length := by
    rw [Source.code_take, List.length_take]
    exact Nat.min_le_right _ _
  have lead : Text.leadingBlanks (body.take cut.headingStop).code ≤ (body.take cut.headingStop).code.length :=
    (List.takeWhile_prefix blank).length_le
  unfold readMember
  dsimp only
  split
  · exact .pure _
  · next filled =>
    have first : Text.leadingBlanks (body.take cut.headingStop).code < (body.take cut.headingStop).code.length :=
      Nat.lt_of_le_of_ne lead filled
    split
    · exact (Reports.warn rfl (by omega) _).bind (.pure _)
    · split
      · next place failed =>
        have bounds := leadingGroups_error failed
        rw [List.length_drop] at bounds
        exact (Reports.warn rfl (by omega) _).bind (.pure _)
      · exact .pure _

theorem reports_members {offset : Nat} {body : Source} (inside : offset + body.length ≤ text.length) :
    Reports text (members text offset body) [] := by
  fun_induction members text offset body with
  | case1 => exact .pure _
  | case2 offset body cut found ih =>
    have bounds := cutFrom_bounds found
    have room : offset + cut.stop + (body.drop cut.stop).length ≤ text.length := by
      rw [Source.length_drop]
      unfold Source.length at inside ⊢
      omega
    exact (reports_readMember cut inside).bind ((ih room).bind (.pure _))

/-! ## Declarations -/

theorem reports_readType {spans : List NamespaceSpan} {heading : Heading} {kind : DeclarationKind}
    (inside : heading.start < text.length) : Reports text (readType (Source.ofText text) spans heading kind) [] := by
  have give : ∀ problem : Problem, problem.kind = .structural →
      Reports text (do
        Traced.warn problem (locate text heading.start) heading.name
        pure (none : Option TypeBlock)) [] :=
    fun problem structural => (Reports.warn structural inside _).bind (.pure _)
  unfold readType
  dsimp only
  split
  · next problem failed => exact give problem (headingTail_structural failed)
  · next tail found =>
    split
    · split
      · exact give _ rfl
      · next i closed =>
        split
        · exact (Reports.pure _).bind (.pure _)
        · refine (reports_members ?_).bind (.pure _)
          have width := closing?_lt closed
          simp only [Source.slice, Source.length, Source.code_take, Source.code_drop, Source.code_ofText,
            List.length_take, List.length_drop, mask_length] at width ⊢
          omega
    · exact .pure _

theorem reports_typeBlocks (text : Text) : Reports text (typeBlocks text) [] := by
  unfold typeBlocks
  refine .behind (.filterMapList_nil fun heading found => ?_) ((Reports.silent rfl).bind (.pure _))
  have inside : heading.start < text.length := by
    have keyword := (headings_keywordAt _ heading found).lt
    rwa [Source.code_ofText, mask_length] at keyword
  split
  · split
    · exact .pure _
    · exact reports_readType inside
  · exact .pure _

theorem reports_ofBlocks (blocks : List TypeBlock) : Reports text (Catalog.ofBlocks blocks) [] := by
  have properties : ∀ m : MemberBlock, Reports text (propertyOf m) [] := by
    intro m
    unfold propertyOf
    dsimp only
    split
    · exact .pure _
    · exact (Reports.silent (Traced.warnings_unreported _)).bind (.pure _)
  have descriptions : ∀ b : TypeBlock, Reports text (describe b) [] := by
    intro b
    unfold describe
    split
    · exact .pure _
    · exact (Reports.filterMapList_nil fun m _ => properties m).bind (.pure _)
  exact (Reports.mapList_nil fun b _ => descriptions b).bind ((Reports.silent rfl).bind (.pure _))

/-! ## Parameters -/

theorem hold_problem {context : Binding.Context} {holders : Binding.Holders} {p : Parameter} {problem : Problem}
    (h : (Binding.hold context holders p).2 = some problem) : problem.kind = .routeMismatch := by
  unfold Binding.hold at h
  dsimp only at h
  split at h
  · split at h <;> cases h <;> rfl
  · cases h

theorem bindAll_problems (context : Binding.Context) (holders : Binding.Holders) (raws : List RawParameter) :
    ∀ problem ∈ (Binding.bindAll context holders raws).value.problems, problem.kind = .routeMismatch := by
  induction raws generalizing holders with
  | nil => intro problem found; cases found
  | cons raw rest ih =>
    rw [Binding.bindAll, Traced.value_bind]
    split
    · exact ih holders
    · intro problem found
      rcases List.mem_append.1 found with here | later
      · exact hold_problem (Option.mem_toList.1 here)
      · exact ih _ problem later

/-- The problems of the parameters of an action are mismatches with its route. -/
theorem bindParameters_problems (context : Binding.Context) (subject : Option Text) (raws : List RawParameter) :
    ∀ w ∈ (bindParameters context subject raws).value.warnings, w.kind = .routeMismatch := by
  intro w found
  obtain ⟨problem, given, rfl⟩ := List.mem_map.1 found
  rcases List.mem_append.1 given with bound | unbound
  · exact bindAll_problems _ _ _ problem bound
  · obtain ⟨token, -, rfl⟩ := List.mem_map.1 unbound
    rfl

theorem reports_bindAll {context : Binding.Context} {offset : Nat}
    (place : context.location = some (locate text offset)) (inside : offset < text.length) (holders : Binding.Holders)
    (raws : List RawParameter) : Reports text (Binding.bindAll context holders raws) [] := by
  induction raws generalizing holders with
  | nil => exact .pure _
  | cons raw rest ih =>
    rw [Binding.bindAll, place]
    refine (reports_attributes inside _).bind ?_
    split
    · exact (Reports.silent rfl).bind (ih holders)
    · exact (ih _).bind (.pure _)

/-- The parameters of an action report those of their attributes that cannot be read, and then what is wrong with
them. -/
theorem reports_bindParameters {context : Binding.Context} {offset : Nat}
    (place : context.location = some (locate text offset)) (inside : offset < text.length) (subject : Option Text)
    (raws : List RawParameter) :
    Reports text (bindParameters context subject raws) (bindParameters context subject raws).value.warnings := by
  have mismatches := bindParameters_problems context subject raws
  unfold bindParameters at mismatches ⊢
  have problems : ∀ warnings : List Warning, (∀ w ∈ warnings, w.kind = .routeMismatch) →
      Reports text (Traced.mapList (fun w => Traced.emit (.reported w)) warnings) warnings := by
    intro warnings mismatches
    refine ⟨?_, fun w found other => ?_⟩
    · rw [Binding.warnings_reported, List.filter_eq_self]
      exact fun w found => decide_eq_true (mismatches w found)
    · rw [Binding.warnings_reported] at found
      exact absurd (mismatches w found) other
  exact (reports_bindAll place inside _ _).bind ((problems _ mismatches).before (.pure _))

/-! ## Endpoints -/

theorem reports_buildEndpoint {offset : Nat} (inside : offset < text.length) (catalog : Catalog)
    (controller : Controller) (m : MemberBlock) (marks : List Attribute) (verbMark : Attribute) (verb : Verb)
    (signature : Signature) :
    let built := buildEndpoint catalog controller m (locate text offset) marks verbMark verb signature
    Reports text built built.value.warnings :=
  .behind (.behind (.silent rfl) (.pure _))
    ((reports_bindParameters rfl inside _ _).before (.pure _))

/-- A member reports the mismatches of its endpoint, and none if it has no endpoint. -/
theorem reports_readEndpoint (catalog : Catalog) (controller : Controller) {m : MemberBlock}
    (inside : m.start < text.length) :
    Reports text (readEndpoint text catalog controller m)
      ((readEndpoint text catalog controller m).value.toList.flatMap (·.warnings)) := by
  unfold readEndpoint
  split
  · exact .pure _
  · refine (reports_attributes inside _).behind ?_
    rw [Traced.value_bind]
    split
    · exact .pure _
    · split
      · exact .pure _
      · split
        · exact (Reports.warn rfl inside _).bind (.pure _)
        · exact (reports_buildEndpoint inside ..).bind (.pure _)

/-- A controller reports the mismatches of its endpoints. -/
theorem reports_readActions (catalog : Catalog) {b : TypeBlock} (hb : b ∈ blocksOf text) :
    Reports text (readActions text catalog b) ((readActions text catalog b).value.2.flatMap (·.warnings)) := by
  have controller : Reports text (readController text b) [] :=
    (reports_attributes (blocksOf_start_lt hb) _).bind (.pure _)
  have members := Reports.filterMapList fun m (hm : m ∈ b.members) =>
    reports_readEndpoint catalog (readController text b).value (members_start_lt hb hm)
  have endpoints : (readActions text catalog b).value.2.flatMap (·.warnings) = b.members.flatMap fun m =>
      (readEndpoint text catalog (readController text b).value m).value.toList.flatMap (·.warnings) := by
    rw [value_readActions, List.filterMap_eq_flatMap_toList, List.flatMap_assoc, value_readController]
    simp only [value_readEndpoint]
  rw [endpoints]
  exact controller.bind (members.before (.pure _))

theorem reports_surveyText (text : Text) :
    Reports text (surveyText text) ((surveyText text).value.endpoints.flatMap (·.warnings)) := by
  have actions := Reports.mapList fun b (hb : b ∈ (typeBlocks text).value.filter (·.isController)) =>
    reports_readActions (Catalog.ofBlocks (typeBlocks text).value).value
      (by rw [← value_typeBlocks]; exact List.mem_of_mem_filter hb)
  have endpoints : (surveyText text).value.endpoints.flatMap (·.warnings) =
      ((typeBlocks text).value.filter (·.isController)).flatMap fun b =>
        (readActions text (Catalog.ofBlocks (typeBlocks text).value).value b).value.2.flatMap (·.warnings) := by
    simp only [surveyText, Traced.value_bind, Traced.value_pure, Traced.value_mapList, List.flatMap_map,
      List.flatMap_assoc]
  rw [endpoints]
  exact (reports_typeBlocks text).bind ((reports_ofBlocks _).bind
    (actions.before ((Reports.silent rfl).bind (.pure _))))

end

/-- **Warnings of a document.** The mismatches among the warnings of a document are those that its endpoints keep, one
endpoint after another and none twice. Every other warning is structural, and its place is inside the document. -/
theorem readDocument_mismatches (text : Text) :
    let document := (readDocument text).value
    document.warnings.filter (·.kind = .routeMismatch) = document.endpoints.flatMap (·.warnings) ∧
      ∀ w ∈ document.warnings, w.kind ≠ .routeMismatch →
        w.kind = .structural ∧ ∃ offset, offset < text.length ∧ w.location = some (locate text offset) :=
  ⟨(reports_surveyText text).mismatches, fun w found other =>
    have place := (reports_surveyText text).others w found other
    ⟨place.kind, place.place⟩⟩

end EndpointSurvey
